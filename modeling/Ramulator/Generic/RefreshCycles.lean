/-
  Ramulator.Generic.RefreshCycles

  How often `update_timing` counts a refresh.

  The accounting of a refresh sits in the loop over the timing entries: it runs
  for every entry of a refreshing command whose own command opens a row.  So a
  `REF` is counted as often as the row of `REF` has entries for opening
  commands.  In all standards that is once, but for TLDRAM, which has three
  commands that open a row (`ACT`, `ACTF` and `ACTM`).

  The results are about a tree after any events, with any tables but the row of
  `REF` at the rank; no command has to be timed legally.
-/

import Ramulator.Dram.Statistics
import Ramulator.Hmc.Spec
import Ramulator.Generic.Aldram
import Ramulator.Generic.Salp
import Ramulator.Generic.Dsarp
import Ramulator.Generic.Tldram

namespace Ramulator

open Outcome List Function

variable {C S : Type} {e : TimingEntry C} {spec : Spec C S} {clk id : Int} {level : Nat}
  {opening : C}

/-! ## Events -/

/-- What happens to a DRAM tree: a command, or a change of the number of
    requests that are served. -/
inductive DramEvent (C : Type) where
  | issue (u : Issue C)
  | serve (addr : Nat → Int) (delta clk : Int)

namespace DRAM

variable [DecidableEq C]

def handle (spec : Spec C S) (t : DRAM C S) : DramEvent C → Except Abort (DRAM C S)
  | .issue u => t.update spec u.cmd u.addr u.clk
  | .serve addr delta clk => t.updateServingRequests spec addr delta clk

def handleAll (spec : Spec C S) (events : List (DramEvent C)) (t : DRAM C S) :
    Except Abort (DRAM C S) :=
  events.foldlM (handle spec) t

end DRAM

/-- What a node keeps: its place, the length of its histories and, if `opening`
    is the only command that opens a row, that refreshes end before the next
    `opening` may come. -/
structure Node.KeepsWindow (spec : Spec C S) (opening : C) (n n' : Node C S) : Prop where
  level : n'.level = n.level
  id : n'.id = n.id
  prev : ∀ cmd, (n'.prev cmd).length = (n.prev cmd).length
  window : (∀ c, spec.isOpening c = true → c = opening) →
    n.stats.endOfRefreshing ≤ n.next opening → n'.stats.endOfRefreshing ≤ n'.next opening

namespace Node

variable {spec : Spec C S} {opening cmd : C} {clk : Int} {n n' : Node C S}

theorem KeepsWindow.refl (n : Node C S) : n.KeepsWindow spec opening n :=
  ⟨rfl, rfl, fun _ => rfl, fun _ h => h⟩

theorem KeepsWindow.trans {n₁ n₂ n₃ : Node C S} (h₁₂ : n₁.KeepsWindow spec opening n₂)
    (h₂₃ : n₂.KeepsWindow spec opening n₃) : n₁.KeepsWindow spec opening n₃ where
  level := h₂₃.level.trans h₁₂.level
  id := h₂₃.id.trans h₁₂.id
  prev cmd := (h₂₃.prev cmd).trans (h₁₂.prev cmd)
  window honly h := h₂₃.window honly (h₁₂.window honly h)

theorem SameFrame.keepsWindow (h : n.SameFrame n') : n.KeepsWindow spec opening n' where
  level := h.level
  id := h.id
  prev cmd := by rw [h.prev]
  window _ hwindow := by
    rw [h.stats, h.next]
    exact hwindow

variable [DecidableEq C]

theorem siblingTiming_keepsWindow (cmd : C) (clk : Int) (n : Node C S) :
    n.KeepsWindow spec opening (n.siblingTiming spec cmd clk) := by
  refine List.foldlRecOn _ _ (KeepsWindow.refl n) ?_
  intro m hm e _
  refine hm.trans ?_
  unfold siblingEntry
  split
  · refine ⟨rfl, rfl, fun _ => rfl, fun _ h => le_trans h ?_⟩
    exact (pushFuture_next_le.mp (le_refl _)).1
  · exact .refl m

/-- The end of a refresh is recorded after the waiting time was. -/
theorem targetEntry_keepsWindow (cmd : C) (clk : Int) (n : Node C S) (e : TimingEntry C) :
    n.KeepsWindow spec opening (n.targetEntry spec cmd clk e) := by
  have hsame := targetEntry_sameState spec cmd clk n e
  have hnext : n.next opening ≤ (n.targetEntry spec cmd clk e).next opening :=
    (targetEntry_next_le.mp (le_refl _)).1
  refine ⟨hsame.level, hsame.id, fun c => by rw [targetEntry_prev], ?_⟩
  intro honly h
  by_cases he : (spec.isRefreshing cmd && spec.isOpening e.cmd) = true
  · have hopens := honly e.cmd (Bool.and_eq_true_iff.mp he).2
    subst hopens
    simp only [targetEntry, he, if_true] at hnext ⊢
    split
    · exact h
    · split
      · exact h
      · next hsibling hpast =>
        simp only [if_neg hsibling, if_neg hpast] at hnext
        exact max_le (le_trans h hnext) (le_refl _)
  · rw [(targetEntry_of_not_opening (Bool.eq_false_iff.mpr he) clk n).1]
    exact le_trans h hnext

theorem recordHistory_keepsWindow (cmd : C) (clk : Int) (n : Node C S) :
    n.KeepsWindow spec opening (n.recordHistory cmd clk) := by
  unfold recordHistory
  split
  · exact .refl n
  · next hne =>
    refine ⟨rfl, rfl, ?_, fun _ h => h⟩
    intro c
    by_cases hc : c = cmd
    · subst hc
      have hpos := length_pos_iff.mpr hne
      simp only [update_self, length_cons, length_dropLast]
      omega
    · show (update n.prev cmd _ c).length = _
      rw [update_of_ne hc]

theorem targetTiming_keepsWindow (cmd : C) (clk : Int) (n : Node C S) :
    n.KeepsWindow spec opening (n.targetTiming spec cmd clk) := by
  refine List.foldlRecOn _ _ (recordHistory_keepsWindow cmd clk n) ?_
  intro m hm e _
  exact hm.trans (targetEntry_keepsWindow cmd clk m e)

end Node

theorem NodeStats.serve_endOfRefreshing {s s' : NodeStats} {delta : Int}
    (h : s.serve delta clk = .ok s') : s'.endOfRefreshing = s.endOfRefreshing := by
  rw [serve_eq] at h
  split at h
  · cases h
  · split at h
    · cases h
      rfl
    · split at h
      · split at h
        · cases h
        · split at h
          · cases h
          · cases h
            rfl
      · cases h
        rfl

namespace DRAM

variable [DecidableEq C] {spec : Spec C S} {opening : C} {events : List (DramEvent C)}
  {t t' : DRAM C S}

theorem handle_keepsWindow (t : DRAM C S) (event : DramEvent C) :
    Yields (handle spec t event) (NodeTree.Rel (Node.KeepsWindow spec opening) t) := by
  cases event with
  | issue u =>
    refine Ends.intro (fun t' ht' => ?_) (fun _ _ => trivial)
    exact update_rel_of (fun _ _ _ h₁ h₂ => h₁.trans h₂) (fun _ _ hf => hf.keepsWindow)
      (fun n _ => ⟨rfl, rfl, fun _ => rfl, fun _ h => h⟩)
      (Node.siblingTiming_keepsWindow u.cmd u.clk)
      (Node.targetTiming_keepsWindow u.cmd u.clk) ht'
  | serve addr delta clk =>
    refine (updateServingRequests_rel_of Node.KeepsWindow.refl ?_ spec addr t).weaken_abort
      (fun _ _ => trivial)
    intro n stats hserve
    refine ⟨rfl, rfl, fun _ => rfl, fun _ h => ?_⟩
    exact le_of_eq_of_le (NodeStats.serve_endOfRefreshing hserve) h

theorem handleAll_keepsWindow (h : handleAll spec events t = .ok t') :
    NodeTree.Rel (Node.KeepsWindow spec opening) t t' := by
  induction events generalizing t with
  | nil =>
    cases h
    exact NodeTree.Rel.refl Node.KeepsWindow.refl _
  | cons event events ih =>
    obtain ⟨t₁, ht₁, hrest⟩ := bind_ok.mp h
    exact ((handle_keepsWindow t event).result ht₁).trans (fun _ _ _ h₁ h₂ => h₁.trans h₂)
      (ih hrest)

end DRAM

/-! ## One refresh -/

/-- A refresh at `clk` adds the time up to the next opening to `refresh_cycles`, once. -/
structure Node.CountedOnce (opening : C) (clk : Int) (n n' : Node C S) : Prop where
  window : n'.next opening = n'.stats.endOfRefreshing
  cycles : n'.stats.refreshCycles = n.stats.refreshCycles + (n'.stats.endOfRefreshing - clk)
  intervals : n'.stats.refreshIntervals.length ≤ n.stats.refreshIntervals.length + 1

namespace Node

variable [DecidableEq C] {spec : Spec C S} {cmd : C} {clk : Int} {n : Node C S}

/-- Every entry for an opening command adds the window it sees; all but the last are too many. -/
theorem foldl_targetEntry_refreshCycles (hrefresh : spec.isRefreshing cmd = true) (hclk : 0 ≤ clk)
    (l : List (TimingEntry C)) (hself : ∀ e ∈ l, e.sibling = false ∧ e.dist = 1)
    (hpos : ∀ e ∈ l, spec.isOpening e.cmd = true → 0 < e.val)
    (hmany : 0 < l.countP fun e => spec.isOpening e.cmd) (n : Node C S)
    (hpast : n.past cmd 1 = clk) : n.stats.refreshCycles +
        ((l.foldl (targetEntry spec cmd clk) n).stats.endOfRefreshing - clk) +
        ((l.countP fun e => spec.isOpening e.cmd) - 1 : Int) ≤
      (l.foldl (targetEntry spec cmd clk) n).stats.refreshCycles := by
  induction l generalizing n with
  | nil => exact absurd hmany (lt_irrefl 0)
  | cons e l ih =>
    have hself' := fun e' he' => hself e' (mem_cons_of_mem _ he')
    have hpos' := fun e' he' => hpos e' (mem_cons_of_mem _ he')
    have hpast' : (n.targetEntry spec cmd clk e).past cmd 1 = clk := by
      rw [past, targetEntry_prev]
      exact hpast
    rw [foldl_cons]
    by_cases he : spec.isOpening e.cmd = true
    · obtain ⟨hsibling, hdist⟩ := hself e mem_cons_self
      have hval := hpos e mem_cons_self he
      have hentry : (n.targetEntry spec cmd clk e).stats =
          (n.recordRefresh clk (max (n.next e.cmd) (clk + e.val))).stats :=
        targetEntry_refresh (by rw [hrefresh, he]; rfl) hsibling (by rw [hdist]; exact hpast) hclk
      have hcycles : (n.targetEntry spec cmd clk e).stats.refreshCycles =
          n.stats.refreshCycles + ((n.targetEntry spec cmd clk e).stats.endOfRefreshing - clk) := by
        rw [hentry]
        rfl
      have hend : clk < (n.targetEntry spec cmd clk e).stats.endOfRefreshing := by
        rw [hentry]
        show clk < max _ (max _ (clk + e.val))
        omega
      rw [countP_cons_of_pos (p := fun e : TimingEntry C => spec.isOpening e.cmd) he]
      by_cases hrest : 0 < l.countP fun e => spec.isOpening e.cmd
      · have hih := ih hself' hpos' hrest _ hpast'
        push_cast
        omega
      · -- no more opening commands: the statistics stay as this entry left them
        have hnone : ∀ e' ∈ l, (spec.isRefreshing cmd && spec.isOpening e'.cmd) = false := by
          intro e' he'
          have hzero := countP_eq_zero.mp (Nat.eq_zero_of_not_pos hrest) e' he'
          rw [Bool.eq_false_iff.mpr hzero, Bool.and_false]
        have hzero := Nat.eq_zero_of_not_pos hrest
        rw [(foldl_targetEntry_of_not_opening hnone clk _).1, hzero]
        push_cast
        omega
    · rw [countP_cons_of_neg (p := fun e : TimingEntry C => spec.isOpening e.cmd) he] at hmany ⊢
      have hih := ih hself' hpos' hmany _ hpast'
      rwa [(targetEntry_of_not_opening (by rw [Bool.eq_false_iff.mpr he, Bool.and_false]) clk
        n).1] at hih

/-- A refresh whose row has several entries for opening commands is not counted
    once. -/
theorem not_countedOnce_of_many (hrefresh : spec.isRefreshing cmd = true) (hclk : 0 ≤ clk)
    (hself : ∀ e ∈ spec.timing n.level cmd, e.sibling = false ∧ e.dist = 1)
    (hpos : ∀ e ∈ spec.timing n.level cmd, spec.isOpening e.cmd = true → 0 < e.val)
    (hmany : 1 < (spec.timing n.level cmd).countP fun e => spec.isOpening e.cmd)
    (hprev : n.prev cmd ≠ []) : ¬ CountedOnce opening clk n (n.targetTiming spec cmd clk) := by
  intro honce
  have hpast : (n.recordHistory cmd clk).past cmd 1 = clk := by
    simp [recordHistory, past, if_neg hprev]
  have hfold := foldl_targetEntry_refreshCycles hrefresh hclk _ hself hpos (by omega) _ hpast
  have hcycles := honce.cycles
  rw [(recordHistory_keeps cmd clk n).2.2] at hfold
  rw [targetTiming] at hcycles
  omega

theorem countedOnce_of_one {post : List (TimingEntry C)}
    (honly : ∀ c, spec.isOpening c = true ↔ c = e.cmd) (hrefresh : spec.isRefreshing cmd = true)
    (hrow : spec.timing n.level cmd = e :: post) (hpost : ∀ e' ∈ post, e'.cmd ≠ e.cmd)
    (hsibling : e.sibling = false) (hdist : e.dist = 1) (hprev : n.prev cmd ≠ []) (hclk : 0 ≤ clk)
    (hwindow : n.stats.endOfRefreshing ≤ n.next e.cmd) :
    CountedOnce e.cmd clk n (n.targetTiming spec cmd clk) := by
  have he : spec.isOpening e.cmd = true := (honly e.cmd).mpr rfl
  have hclosed : ∀ e' ∈ post, spec.isOpening e'.cmd = false := fun e' he' =>
    Bool.eq_false_iff.mpr (fun hopen => hpost e' he' ((honly e'.cmd).mp hopen))
  have hstats : (n.targetTiming spec cmd clk).stats =
      (n.recordRefresh clk (max (n.next e.cmd) (clk + e.val))).stats :=
    targetTiming_refresh (by rw [hrow]; exact (nil_append _).symm) (by simp)
      (fun e' he' => by rw [hclosed e' he', Bool.and_false]) (by rw [hrefresh, he]; rfl)
      hsibling hdist hprev hclk
  have hpast : (n.recordHistory cmd clk).past cmd 1 = clk := by
    simp [recordHistory, past, if_neg hprev]
  have hnext : (n.targetTiming spec cmd clk).next e.cmd ≤ max (n.next e.cmd) (clk + e.val) := by
    rw [targetTiming, targetFold_next_le, (recordHistory_keeps cmd clk n).2.1, hrow]
    refine ⟨le_max_left _ _, ?_⟩
    intro e' he' _ hcmd _
    rcases mem_cons.mp he' with rfl | he'
    · rw [hdist, hpast]
      exact le_max_right _ _
    · exact absurd hcmd (hpost e' he')
  have hkeeps : n.KeepsWindow spec e.cmd (n.targetTiming spec cmd clk) :=
    targetTiming_keepsWindow cmd clk n
  have hkept := hkeeps.window (fun c hc => (honly c).mp hc) hwindow
  refine ⟨?_, ?_, ?_⟩
  · refine le_antisymm (le_trans hnext ?_) hkept
    rw [hstats]
    exact le_max_right _ _
  · rw [hstats]
    rfl
  · rw [hstats]
    show (if _ then _ else _ : List (Int × Int)).length ≤ _
    split
    · simp
    · exact Nat.le_succ _

end Node

/-! ## New trees -/

namespace DRAM

theorem new_val (spec : Spec C S) (level : Nat) (id : Int) :
    (DRAM.new spec level id).val = Node.new spec level id := by
  unfold DRAM.new
  cases spec.row - 1 - level with
  | zero => rfl
  | succ depth => rfl

theorem new_child {i : Nat} {c : DRAM C S} (h : (DRAM.new spec level id).child? i = some c) :
    c.val = Node.new spec (level + 1) i := by
  unfold DRAM.new at h
  cases hdepth : spec.row - 1 - level with
  | zero =>
    rw [hdepth] at h
    obtain ⟨hi, -⟩ := NodeTree.child?_eq_some_iff.mp h
    exact absurd hi (Nat.not_lt_zero i)
  | succ depth =>
    rw [hdepth] at h
    obtain ⟨hi, rfl⟩ := NodeTree.child?_eq_some_iff.mp h
    cases depth with
    | zero => rfl
    | succ depth => rfl

end DRAM

theorem Node.KeepsWindow.prev_ne_nil {cmd : C} {n : Node C S}
    (h : (Node.new spec level id).KeepsWindow spec opening n) (he : e ∈ spec.timing level cmd) :
    n.prev cmd ≠ [] := by
  have hlength := h.prev cmd
  have hhistory := TimingEntry.dist_le_history he
  have hpos := e.dist_pos
  rw [Node.new, length_replicate] at hlength
  intro hnil
  rw [hnil, length_nil] at hlength
  omega

/-! ## The standards -/

namespace Generic

namespace Standard

/-- The row of `REF` at the rank; `nRFC` is `nRFCab` where single banks are refreshed too. -/
def refRow (standard : Standard) (nRFC : Int) : List (TimingEntry Command) :=
  match standard with
  | ddr3 | ddr4 | salp | gddr5 | hbm | aldram => [entry .act nRFC, entry .ref nRFC, entry .pde 1]
  | wideIo => [entry .act nRFC, entry .ref nRFC, entry .pd 1]
  | lpddr4 | dsarp => [entry .act nRFC, entry .ref nRFC, entry .refpb nRFC, entry .pde 1]
  | lpddr3 | wideIo2 => [entry .act nRFC, entry .ref nRFC, entry .refpb nRFC, entry .pd 1]
  | tldram =>
    [entry .act nRFC, entry .actf nRFC, entry .actm nRFC, entry .ref nRFC, entry .pde 1]

def isOpening : Standard → Command → Bool
  | tldram => TLDRAM.isOpening
  | _ => Generic.isOpening

structure Refreshes (standard : Standard) (spec : Spec Command State) (nRFC : Int) : Prop where
  row : spec.timing 1 .ref = standard.refRow nRFC
  opening : spec.isOpening = standard.isOpening
  refreshing : spec.isRefreshing .ref = true

variable {standard : Standard} {spec : Spec Command State} {nRFC : Int}

theorem act_mem_refRow : entry .act nRFC ∈ standard.refRow nRFC := by
  cases standard <;> exact mem_cons_self

theorem refRow_eq_cons (h : standard ≠ .tldram) (nRFC : Int) :
    ∃ post, standard.refRow nRFC = entry .act nRFC :: post ∧ ∀ e ∈ post, e.cmd ≠ .act := by
  cases standard
  case tldram => exact absurd rfl h
  all_goals exact ⟨_, rfl, by simp [entry]⟩

theorem isOpening_iff (h : standard ≠ .tldram) (c : Command) :
    standard.isOpening c = true ↔ c = .act := by
  cases standard
  case tldram => exact absurd rfl h
  all_goals cases c <;> simp [isOpening, Generic.isOpening]

theorem Refreshes.countedOnce_iff (hspec : standard.Refreshes spec nRFC)
    (hnRFC : standard = .tldram → 0 < nRFC) (hclk : 0 ≤ clk) {n : Node Command State}
    (hlevel : n.level = 1) (hprev : n.prev .ref ≠ [])
    (hwindow : standard ≠ .tldram → n.stats.endOfRefreshing ≤ n.next .act) :
    n.CountedOnce .act clk (n.targetTiming spec .ref clk) ↔ standard ≠ .tldram := by
  have hrow : spec.timing n.level .ref = standard.refRow nRFC := by
    rw [hlevel]
    exact hspec.row
  constructor
  · rintro honce rfl
    refine Node.not_countedOnce_of_many hspec.refreshing hclk ?_ ?_ ?_ hprev honce
    · rw [hrow]
      simp [refRow, entry]
    · rw [hrow]
      simp [refRow, entry, hnRFC rfl, hspec.opening, isOpening, TLDRAM.isOpening]
    · rw [hrow, hspec.opening]
      exact show 1 < 3 by decide
  · intro h
    obtain ⟨post, hcons, hpost⟩ := refRow_eq_cons h nRFC
    refine Node.countedOnce_of_one (e := entry .act nRFC) ?_ hspec.refreshing (hrow.trans hcons)
      hpost rfl rfl hprev hclk (hwindow h)
    rw [hspec.opening]
    exact isOpening_iff h

/-- The tables of the standards that have some of their own in this development.
    The lines of ALDRAM that a run uses have no `nRFC`. -/
inductive Tables : Standard → Spec Command State → Int → Prop
  | ddr3 (org : OrgEntry) (s : DDR3.SpeedEntry) : Tables .ddr3 (DDR3.spec org s) s.nRFC
  | ddr4 (org : OrgEntry) (s : DDR4.SpeedEntry) : Tables .ddr4 (DDR4.spec org s) s.nRFC
  | salp (org : OrgEntry) (s : SALP.SpeedEntry) : Tables .salp (SALP.spec org s) s.nRFC
  | dsarp (type : DSARP.RefreshType) (org : OrgEntry) (s : DSARP.SpeedEntry) :
      Tables .dsarp (DSARP.spec type org s) s.nRFCab
  | aldram (cfg : ALDRAM.Config) (temp : ALDRAM.Temp) :
      Tables .aldram (cfg.atTemp temp).device.spec (ALDRAM.speedTable temp cfg.speed).nRFC
  | tldram (segmentRatio : Int) (org : OrgEntry) (s : TLDRAM.SpeedEntry) :
      Tables .tldram (TLDRAM.spec segmentRatio org s) s.nRFC

theorem Tables.refreshes (h : standard.Tables spec nRFC) : standard.Refreshes spec nRFC := by
  cases h <;> exact ⟨rfl, rfl, rfl⟩

end Standard

theorem HMC.countedOnce (hmc : HMC) (hclk : 0 ≤ clk) {n : Node HMC.Command HMC.State}
    (hlevel : n.level = 0) (hprev : n.prev .ref ≠ [])
    (hwindow : n.stats.endOfRefreshing ≤ n.next .act) :
    n.CountedOnce .act clk (n.targetTiming hmc.spec .ref clk) := by
  have hrow : hmc.spec.timing n.level .ref =
      HMC.entry .act hmc.speed.nRFC :: [HMC.entry .ref hmc.speed.nRFC, HMC.entry .pde 1] := by
    rw [hlevel]
    rfl
  refine Node.countedOnce_of_one (e := HMC.entry .act hmc.speed.nRFC) ?_ rfl hrow
    (by simp [HMC.entry]) rfl rfl hprev hclk hwindow
  intro c
  cases c <;> simp [HMC.spec, HMC.isOpening, HMC.entry]

/-- After any commands and changes of the number of requests that are served,
    a `REF` to a rank is counted once in every standard but TLDRAM, where it is
    never counted once (its `nRFC` is positive); and a `REF` to a vault of HMC is
    counted once. -/
theorem refresh_counted_once_iff {clk : Int} (hclk : 0 ≤ clk) :
    (∀ (standard : Standard) (nRFC : Int) (spec : Spec Command State),
      (standard = .tldram → 0 < nRFC) → standard.Refreshes spec nRFC →
      ∀ (id : Int) (events : List (DramEvent Command)) (rank : Nat) (addr : Nat → Int)
      (t t' n : Tree), (DRAM.new spec 0 id).handleAll spec events = .ok t →
      t.child? rank = some n → addr 0 = id → addr 1 = rank →
      t.update spec .ref addr clk = .ok t' → ∃ n', t'.child? rank = some n' ∧
        (n.val.CountedOnce .act clk n'.val ↔ standard ≠ .tldram)) ∧
    (∀ (standard : Standard) (nRFC : Int) (spec : Spec Command State),
      standard.Tables spec nRFC → standard.Refreshes spec nRFC) ∧
    (∀ (hmc : HMC) (id : Int) (events : List (DramEvent HMC.Command)) (addr : Nat → Int)
      (t t' : HMC.Tree), (DRAM.new hmc.spec 0 id).handleAll hmc.spec events = .ok t →
      addr 0 = id → t.update hmc.spec .ref addr clk = .ok t' →
      t.val.CountedOnce .act clk t'.val) := by
  refine ⟨?_, fun _ _ _ => Standard.Tables.refreshes, ?_⟩
  · intro standard nRFC spec hnRFC hspec id events rank addr t t' n hrun hn hid hrank hupdate
    have hkeeps : NodeTree.Rel (Node.KeepsWindow spec .act) (DRAM.new spec 0 id) t :=
      DRAM.handleAll_keepsWindow hrun
    obtain ⟨n₀, hn₀, hrel⟩ := hkeeps.child_inv hn
    have hroot := hkeeps.val
    have hnode := hrel.val
    rw [DRAM.new_val] at hroot
    rw [DRAM.new_child hn₀] at hnode
    have hlevel : n.val.level = 1 := hnode.level
    obtain ⟨m, n', hframe, hn', hval⟩ := DRAM.update_child hupdate
      (by rw [hroot.id, hroot.level]; exact hid.symm) hn
      (by rw [hnode.id, hlevel]; exact hrank.symm)
    have hm := hnode.trans hframe.keepsWindow
    have hiff : m.CountedOnce .act clk (m.targetTiming spec .ref clk) ↔ standard ≠ .tldram := by
      refine hspec.countedOnce_iff hnRFC hclk (hframe.level.trans hlevel) ?_ ?_
      · exact hm.prev_ne_nil (hspec.row ▸ Standard.act_mem_refRow)
      · intro hstandard
        exact hm.window (fun c hc => (Standard.isOpening_iff hstandard c).mp (hspec.opening ▸ hc))
          (le_refl (-1 : Int))
    refine ⟨n', hn', ?_⟩
    rw [← hiff, hval]
    constructor
    · exact fun h => ⟨h.window, by rw [hframe.stats]; exact h.cycles,
        by rw [hframe.stats]; exact h.intervals⟩
    · exact fun h => ⟨h.window, by rw [← hframe.stats]; exact h.cycles,
        by rw [← hframe.stats]; exact h.intervals⟩
  · intro hmc id events addr t t' hrun hid hupdate
    have hkeeps : NodeTree.Rel (Node.KeepsWindow hmc.spec .act) (DRAM.new hmc.spec 0 id) t :=
      DRAM.handleAll_keepsWindow hrun
    have hroot := hkeeps.val
    rw [DRAM.new_val] at hroot
    obtain ⟨m, hframe, hval⟩ := DRAM.update_root hupdate
      (by rw [hroot.id, hroot.level]; exact hid.symm)
    have hm := hroot.trans (Node.KeepsWindow.trans
      (⟨rfl, rfl, fun _ => rfl, fun _ h => h⟩ : t.val.KeepsWindow hmc.spec .act
        { t.val with curClk := clk }) hframe.keepsWindow)
    have honce : m.CountedOnce .act clk (m.targetTiming hmc.spec .ref clk) := by
      refine HMC.countedOnce hmc hclk hm.level ?_ ?_
      · exact hm.prev_ne_nil (e := HMC.entry .act hmc.speed.nRFC) mem_cons_self
      · refine hm.window ?_ (le_refl (-1 : Int))
        intro c hc
        cases c <;> first | rfl | cases hc
    rw [hval]
    exact ⟨honce.window, by rw [honce.cycles, hframe.stats],
      by rw [← show m.stats = t.val.stats from hframe.stats]; exact honce.intervals⟩

/-- The address of a refresh of rank 0 in channel 0. -/
def refreshAddr : Nat → Int
  | 0 | 1 => 0
  | _ => -1

/-- The address of row 3 in bank 0 of rank 0. -/
def readAddr : Nat → Int
  | 3 => 3
  | _ => 0

/-- A TLDRAM channel that serves a request from cycle 5 on. -/
def servingEvents : List (DramEvent Command) := [.serve readAddr 1 5]

/-- `REF` at cycle 10 blocks the rank until cycle 138, but three times the 128
    cycles are added to `refresh_cycles`, and three intervals to
    `refresh_intervals`. -/
theorem tldram_refresh_counted_thrice :
    (((DRAM.new (TLDRAM.spec 16 TLDRAM.org2GbX8 TLDRAM.speed1600K) 0 0).handleAll
      (TLDRAM.spec 16 TLDRAM.org2GbX8 TLDRAM.speed1600K)
      (servingEvents ++ [.issue ⟨.ref, refreshAddr, 10⟩])).toOption.bind fun t =>
        (t.child? 0).map fun rank => (rank.val.next .act, rank.val.stats.endOfRefreshing,
          rank.val.stats.refreshCycles, rank.val.stats.refreshIntervals)) =
      some (138, 138, 3 * 128, [(10, 138), (10, 138), (10, 138)]) := by
  decide +kernel

/-- Tables with the entries of their own standards. -/
def tabled : List (Standard × Spec Command State × Int) :=
  [(.ddr3, DDR3.spec DDR3.org2GbX8 DDR3.speed1600K, 128),
    (.dsarp, DSARP.spec .refpb DSARP.org8GbX8 DSARP.speed1333, DSARP.speed1333.nRFCab),
    (.aldram, (ALDRAM.config2GbX8.atTemp .hot).device.spec, 0),
    (.tldram, TLDRAM.spec 16 TLDRAM.org2GbX8 TLDRAM.speed1600K, 128)]

theorem tabled_refreshes : ∀ x ∈ tabled, x.1.Refreshes x.2.1 x.2.2 := by
  simp only [tabled, forall_mem_cons]
  exact ⟨(Standard.Tables.ddr3 ..).refreshes, (Standard.Tables.dsarp ..).refreshes,
    (Standard.Tables.aldram ..).refreshes, (Standard.Tables.tldram ..).refreshes, by simp⟩

/-- A `REF` at cycle 10 to a rank that serves a request. -/
theorem refresh_counted_once_iff_tabled :
    tabled.map (·.1) = [.ddr3, .dsarp, .aldram, .tldram] ∧ ∀ x ∈ tabled, ∃ t t' n n' : Tree,
      (DRAM.new x.2.1 0 0).handleAll x.2.1 servingEvents = .ok t ∧
      t.update x.2.1 .ref refreshAddr 10 = .ok t' ∧ t.child? 0 = some n ∧
      t'.child? 0 = some n' ∧ (n.val.CountedOnce .act 10 n'.val ↔ x.1 ≠ .tldram) := by
  refine ⟨rfl, fun x hx => ?_⟩
  have hrun : ∀ x ∈ tabled, (((DRAM.new x.2.1 0 0).handleAll x.2.1 servingEvents >>= fun t =>
      t.update x.2.1 .ref refreshAddr 10 >>= fun t' => pure (t, t')).toOption.map
        fun out => (out.1.child? 0).isSome) = some true := by
    decide +kernel
  have hpos : ∀ x ∈ tabled, x.1 = .tldram → 0 < x.2.2 := by decide +kernel
  obtain ⟨⟨t, t'⟩, hout, hsome⟩ := exists_ok_of_map (hrun x hx)
  obtain ⟨t₁, ht, hrest⟩ := bind_ok.mp hout
  obtain ⟨t₂, ht', heq⟩ := bind_ok.mp hrest
  cases heq
  obtain ⟨n, hn⟩ := Option.isSome_iff_exists.mp hsome
  obtain ⟨n', hn', hiff⟩ := (refresh_counted_once_iff (show (0 : Int) ≤ 10 by decide)).1 x.1 x.2.2
    x.2.1 (hpos x hx) (tabled_refreshes x hx) 0 servingEvents 0 refreshAddr t t' n ht hn rfl rfl ht'
  exact ⟨t, t', n, n', ht, ht', hn, hn', hiff⟩

end Generic

end Ramulator
