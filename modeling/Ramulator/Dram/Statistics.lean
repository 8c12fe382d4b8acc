/-
  Ramulator.Dram.Statistics

  The busy-cycle statistics of a node.

  A node accumulates its statistics at three kinds of events: a change of the
  number of requests it serves (`serve`), a refresh (`recordRefresh`), and the
  end of the simulation (`finish`).  `Meters` is what they mean in between, in
  terms of two sets of cycles: those in which the node was active and those in
  which it was refreshing.

  The overlap of the two is accumulated by two rules, and the first of them is
  not exact: a node that becomes active inside a refresh window counts the rest
  of the window whether or not it stays active so long.
-/

import Mathlib.Data.Int.ConditionallyCompleteOrder
import Mathlib.Data.Int.Interval
import Mathlib.Algebra.Order.Field.Rat
import Ramulator.Dram.Serving

namespace Ramulator

open Outcome List

variable {C S : Type}

/-! ## finish -/

/-- The statistics computed at the end.  The source divides doubles. -/
structure Finished where
  busyCycles : Int
  averageServingRequests : ℚ
deriving DecidableEq, Repr

def NodeStats.finish (s : NodeStats) (dramCycles : Int) : Finished where
  busyCycles := s.activeCycles + s.refreshCycles - s.activeRefreshOverlapCycles
  averageServingRequests := s.servingRequests / dramCycles

def DRAM.finish (dramCycles : Int) : DRAM C S → NodeTree Finished
  | .node n k f => .node (n.stats.finish dramCycles) k (fun i => finish dramCycles (f i))

theorem DRAM.finish_val (dramCycles : Int) (t : DRAM C S) :
    (t.finish dramCycles).val = t.val.stats.finish dramCycles := by
  cases t
  rfl

/-! ## What the statistics mean -/

namespace NodeStats

variable {s s' : NodeStats} {active refreshing : Finset Int} {time : Int}

/-- What the recorded refresh intervals add to the overlap if the node becomes
    idle at `clk`. -/
def openOverlap (s : NodeStats) (clk : Int) : Int :=
  (s.refreshIntervals.map fun ref => min clk ref.2 - ref.1).sum

/-- The active cycles that `activeCycles` does not count yet. -/
def openActive (s : NodeStats) (clk : Int) : Int :=
  if 0 < s.curServingRequests then clk - s.beginOfCurReqcnt else 0

/-- The statistics of a node at the beginning of cycle `time`, after the cycles
    `active` in which it had requests to serve and with the refresh windows
    `refreshing`, which may reach beyond `time`. -/
structure Meters (s : NodeStats) (active refreshing : Finset Int) (time : Int) : Prop where
  past : ∀ t ∈ active, t < time
  window : ∀ t, time ≤ t → (t ∈ refreshing ↔ t < s.endOfRefreshing)
  refresh : s.refreshCycles = refreshing.card
  nonneg : 0 ≤ s.curServingRequests
  begun : 0 < s.curServingRequests → s.beginOfCurReqcnt ≠ -1
  idle : s.curServingRequests = 0 → s.refreshIntervals = []
  activeCycles : s.activeCycles + s.openActive time = active.card
  overlap : s.activeRefreshOverlapCycles + s.openOverlap time = (active ∩ refreshing).card
  /-- While the node is active, the overlap grows in refresh windows. -/
  grows : 0 < s.curServingRequests → ∀ t, time ≤ t →
    s.openOverlap (t + 1) = s.openOverlap t + if t < s.endOfRefreshing then 1 else 0

theorem Meters.new (htime : 0 ≤ time) : Meters {} ∅ ∅ time where
  past t ht := by simp at ht
  window t ht := by
    have hend : ¬ t < (-1 : Int) := by omega
    simpa using hend
  refresh := rfl
  nonneg := le_refl 0
  begun h := absurd h (lt_irrefl 0)
  idle _ := rfl
  activeCycles := rfl
  overlap := rfl
  grows h := absurd h (lt_irrefl 0)

/-- A cycle passes: it was active if requests are being served at its end. -/
theorem Meters.tick (h : Meters s active refreshing time) :
    Meters s (if 0 < s.curServingRequests then insert time active else active) refreshing
      (time + 1) := by
  have hactive := h.activeCycles
  have hoverlap := h.overlap
  have hnew : time ∉ active := fun hmem => absurd (h.past time hmem) (lt_irrefl time)
  by_cases hcur : 0 < s.curServingRequests
  · have hgrows := h.grows hcur time (le_refl _)
    simp only [openActive, if_pos hcur] at hactive
    rw [if_pos hcur]
    refine ⟨?_, fun t ht => h.window t (by omega), h.refresh, h.nonneg, h.begun, h.idle, ?_, ?_,
      fun hpos t ht => h.grows hpos t (by omega)⟩
    · intro t ht
      rcases Finset.mem_insert.mp ht with rfl | ht
      · omega
      · have := h.past t ht
        omega
    · rw [Finset.card_insert_of_notMem hnew, openActive, if_pos hcur]
      push_cast
      omega
    · by_cases hin : time < s.endOfRefreshing
      · have hmem : time ∈ refreshing := (h.window time (le_refl _)).mpr hin
        rw [Finset.insert_inter_of_mem hmem, Finset.card_insert_of_notMem
          (fun hmem => hnew (Finset.mem_of_mem_inter_left hmem)), hgrows, if_pos hin]
        push_cast
        omega
      · have hmem : time ∉ refreshing := fun hmem => hin ((h.window time (le_refl _)).mp hmem)
        rw [Finset.insert_inter_of_notMem hmem, hgrows, if_neg hin]
        omega
  · have hzero : s.curServingRequests = 0 := by
      have := h.nonneg
      omega
    have hnone := h.idle hzero
    rw [if_neg hcur]
    refine ⟨?_, fun t ht => h.window t (by omega), h.refresh, h.nonneg, h.begun, h.idle, ?_, ?_,
      fun hpos => absurd hpos hcur⟩
    · intro t ht
      have := h.past t ht
      omega
    · simpa only [openActive, if_neg hcur] using hactive
    · simpa only [openOverlap, hnone, map_nil] using hoverlap

theorem foldl_overlap (l : List (Int × Int)) (clk o : Int) :
    l.foldl (fun o ref => o + (min clk ref.2 - ref.1)) o =
      o + (l.map fun ref => min clk ref.2 - ref.1).sum := by
  induction l generalizing o with
  | nil => simp
  | cons ref l ih =>
    rw [foldl_cons, ih, map_cons, sum_cons]
    omega

theorem Meters.counted_activeCycles (h : Meters s active refreshing time) (delta : Int) :
    (s.counted delta time).activeCycles = active.card := by
  have hactive := h.activeCycles
  by_cases hcur : 0 < s.curServingRequests
  · simp only [openActive, if_pos hcur] at hactive
    simp only [counted, if_pos (And.intro (h.begun hcur) hcur)]
    exact hactive
  · simp only [openActive, if_neg hcur, add_zero] at hactive
    have hnot : ¬ (s.beginOfCurReqcnt ≠ -1 ∧ 0 < s.curServingRequests) := fun hb => hcur hb.2
    simp only [counted, if_neg hnot]
    exact hactive

/-- A request more or less, if no refresh window is open when the node becomes
    active. -/
theorem Meters.serve {delta : Int} (h : Meters s active refreshing time)
    (hdelta : delta = 1 ∨ delta = -1) (htime : 0 ≤ time)
    (hstart : delta = 1 → s.curServingRequests = 0 → s.endOfRefreshing ≤ time)
    (hserve : s.serve delta time = .ok s') : Meters s' active refreshing time := by
  have hactive := h.counted_activeCycles delta
  have hoverlap := h.overlap
  have hbegin : time ≠ -1 := by omega
  have hopen : ∀ s₁ : NodeStats, s₁.beginOfCurReqcnt = time → s₁.openActive time = 0 := by
    intro s₁ hs₁
    simp [openActive, hs₁]
  rw [serve_eq] at hserve
  split at hserve
  · cases hserve
  next hneg =>
  have hcount : 0 ≤ s.curServingRequests + delta := by omega
  split at hserve
  · -- from inactive to active
    next hfirst =>
    cases hserve
    have hzero : s.curServingRequests = 0 := by omega
    have hend := hstart hfirst.1 hzero
    have hnone := h.idle hzero
    have hoverlap' : ((s.counted delta time).activated time).activeRefreshOverlapCycles =
        s.activeRefreshOverlapCycles :=
      if_neg (show ¬ time < s.endOfRefreshing by omega)
    refine ⟨h.past, h.window, h.refresh, hcount, fun _ => hbegin, fun _ => hnone, ?_, ?_, ?_⟩
    · rw [hopen _ rfl, add_zero]
      exact hactive
    · rw [hoverlap']
      exact hoverlap
    · intro _ t ht
      have hout : ¬ t < s.endOfRefreshing := by omega
      show s.openOverlap (t + 1) = s.openOverlap t + if t < s.endOfRefreshing then 1 else 0
      rw [if_neg hout]
      simp [openOverlap, hnone]
  next hfirst =>
  split at hserve
  · -- from active to inactive
    next hlast =>
    split at hserve
    · cases hserve
    split at hserve
    · cases hserve
    cases hserve
    refine ⟨h.past, h.window, h.refresh, hcount, fun _ => hbegin, fun _ => rfl, ?_, ?_, ?_⟩
    · rw [hopen _ rfl, add_zero]
      exact hactive
    · have hidled : ((s.counted delta time).idled time).activeRefreshOverlapCycles =
          s.activeRefreshOverlapCycles + s.openOverlap time := foldl_overlap _ _ _
      rw [hidled]
      simpa [openOverlap, idled] using hoverlap
    · intro hpos
      exact absurd hpos (by show ¬ 0 < s.curServingRequests + delta; omega)
  · next hmore =>
    cases hserve
    have hpos : 0 < s.curServingRequests := by
      have := h.nonneg
      omega
    refine ⟨h.past, h.window, h.refresh, hcount, fun _ => hbegin, ?_, ?_, hoverlap,
      fun _ => h.grows hpos⟩
    · intro hzero
      exact absurd hzero hmore
    · rw [hopen _ rfl, add_zero]
      exact hactive

theorem Meters.recordRefresh {n : Node C S} {len : Int}
    (h : Meters n.stats active refreshing time) (hlen : 0 ≤ len)
    (hend : n.stats.endOfRefreshing ≤ time) :
    Meters (n.recordRefresh time (time + len)).stats active
      (refreshing ∪ Finset.Ico time (time + len)) time := by
  have hmax : max n.stats.endOfRefreshing (time + len) = time + len := by omega
  have hdisjoint : Disjoint refreshing (Finset.Ico time (time + len)) := by
    rw [Finset.disjoint_left]
    intro t ht hin
    have hle := (Finset.mem_Ico.mp hin).1
    have := (h.window t hle).mp ht
    omega
  have hinter : active ∩ (refreshing ∪ Finset.Ico time (time + len)) = active ∩ refreshing := by
    ext t
    simp only [Finset.mem_inter, Finset.mem_union, Finset.mem_Ico]
    constructor
    · rintro ⟨ht, hin | hin⟩
      · exact ⟨ht, hin⟩
      · have := h.past t ht
        omega
    · rintro ⟨ht, hin⟩
      exact ⟨ht, Or.inl hin⟩
  have hopen : ∀ t, (n.recordRefresh time (time + len)).stats.openOverlap t =
      n.stats.openOverlap t +
        if 0 < n.stats.curServingRequests then min t (time + len) - time else 0 := by
    intro t
    simp only [openOverlap, Node.recordRefresh, hmax]
    split
    · simp
    · simp
  refine ⟨h.past, ?_, ?_, h.nonneg, h.begun, ?_, h.activeCycles, ?_, ?_⟩
  · intro t ht
    have hwindow := h.window t ht
    show _ ↔ t < max n.stats.endOfRefreshing (time + len)
    rw [hmax, Finset.mem_union, Finset.mem_Ico, hwindow]
    omega
  · show n.stats.refreshCycles + (max n.stats.endOfRefreshing (time + len) - time) = _
    have hrefresh := h.refresh
    rw [hmax, Finset.card_union_of_disjoint hdisjoint, Int.card_Ico]
    push_cast
    omega
  · intro hzero
    have hcur : ¬ 0 < n.stats.curServingRequests := by
      have hz : n.stats.curServingRequests = 0 := hzero
      omega
    show (if 0 < n.stats.curServingRequests then _ else n.stats.refreshIntervals) = []
    rw [if_neg hcur]
    exact h.idle hzero
  · have hoverlap := h.overlap
    have hnow : (if 0 < n.stats.curServingRequests then min time (time + len) - time else 0) =
        0 := by
      split
      · omega
      · rfl
    rw [hinter, hopen, hnow, add_zero]
    exact hoverlap
  · intro hpos t ht
    have hcur : 0 < n.stats.curServingRequests := hpos
    have hgrows := h.grows hcur t ht
    have hout : ¬ t < n.stats.endOfRefreshing := by omega
    rw [if_neg hout] at hgrows
    show _ = _ + if t < max n.stats.endOfRefreshing (time + len) then 1 else 0
    rw [hopen, hopen, hgrows, if_pos hcur, if_pos hcur, hmax]
    split
    · omega
    · omega

/-- On an idle node the statistics are the sizes of the sets, and so is what
    `finish` computes. -/
theorem Meters.exact_of_idle (h : Meters s active refreshing time)
    (hidle : s.curServingRequests = 0) (dramCycles : Int) :
    s.activeCycles = active.card ∧ s.refreshCycles = refreshing.card ∧
      s.activeRefreshOverlapCycles = (active ∩ refreshing).card ∧
      (s.finish dramCycles).busyCycles = (active ∪ refreshing).card := by
  have hactive := h.activeCycles
  have hoverlap := h.overlap
  have hrefresh := h.refresh
  have hcard := Finset.card_union_add_card_inter active refreshing
  have hopen : s.openActive time = 0 := by simp [openActive, hidle]
  have hnone : s.openOverlap time = 0 := by simp [openOverlap, h.idle hidle]
  refine ⟨by omega, hrefresh, by omega, ?_⟩
  show s.activeCycles + s.refreshCycles - s.activeRefreshOverlapCycles = _
  omega

end NodeStats

/-! ## Commands -/

namespace Node

variable [DecidableEq C] {spec : Spec C S} {cmd : C} {clk : Int} {n : Node C S} {e : TimingEntry C}

theorem recordHistory_keeps (cmd : C) (clk : Int) (n : Node C S) :
    (n.recordHistory cmd clk).level = n.level ∧ (n.recordHistory cmd clk).next = n.next ∧
      (n.recordHistory cmd clk).stats = n.stats := by
  unfold recordHistory
  split
  · exact ⟨rfl, rfl, rfl⟩
  · exact ⟨rfl, rfl, rfl⟩

/-- An entry for a command that opens nothing leaves the statistics alone. -/
theorem targetEntry_of_not_opening (he : (spec.isRefreshing cmd && spec.isOpening e.cmd) = false)
    (clk : Int) (n : Node C S) : (n.targetEntry spec cmd clk e).stats = n.stats ∧
      (n.targetEntry spec cmd clk e).prev = n.prev ∧
      ∀ c, c ≠ e.cmd → (n.targetEntry spec cmd clk e).next c = n.next c := by
  simp only [targetEntry, he]
  split
  · exact ⟨rfl, rfl, fun _ _ => rfl⟩
  · split
    · exact ⟨rfl, rfl, fun _ _ => rfl⟩
    · exact ⟨rfl, rfl, fun c hc => Function.update_of_ne hc _ _⟩

theorem foldl_targetEntry_of_not_opening {l : List (TimingEntry C)}
    (hl : ∀ e ∈ l, (spec.isRefreshing cmd && spec.isOpening e.cmd) = false) (clk : Int)
    (n : Node C S) : (l.foldl (targetEntry spec cmd clk) n).stats = n.stats ∧
      (l.foldl (targetEntry spec cmd clk) n).prev = n.prev ∧
      ∀ c, (spec.isRefreshing cmd && spec.isOpening c) = true →
        (l.foldl (targetEntry spec cmd clk) n).next c = n.next c := by
  induction l generalizing n with
  | nil => exact ⟨rfl, rfl, fun _ _ => rfl⟩
  | cons e l ih =>
    have he := hl e mem_cons_self
    obtain ⟨hstats, hprev, hnext⟩ := targetEntry_of_not_opening he clk n
    obtain ⟨hstats', hprev', hnext'⟩ := ih (fun e' he' => hl e' (mem_cons_of_mem _ he'))
      (n.targetEntry spec cmd clk e)
    rw [foldl_cons]
    refine ⟨hstats'.trans hstats, hprev'.trans hprev, fun c hc => (hnext' c hc).trans ?_⟩
    refine hnext c ?_
    rintro rfl
    rw [he] at hc
    cases hc

theorem targetTiming_stats (h : spec.isRefreshing cmd = false) (clk : Int) (n : Node C S) :
    (n.targetTiming spec cmd clk).stats = n.stats := by
  have hnone : ∀ e ∈ spec.timing n.level cmd,
      (spec.isRefreshing cmd && spec.isOpening e.cmd) = false := by
    intro e _
    rw [h, Bool.false_and]
  have hfold := foldl_targetEntry_of_not_opening hnone clk (n.recordHistory cmd clk)
  rw [targetTiming]
  exact hfold.1.trans (recordHistory_keeps cmd clk n).2.2

theorem targetEntry_refresh (he : (spec.isRefreshing cmd && spec.isOpening e.cmd) = true)
    (hsibling : e.sibling = false) (hpast : n.past cmd e.dist = clk) (hclk : 0 ≤ clk) :
    (n.targetEntry spec cmd clk e).stats =
      (n.recordRefresh clk (max (n.next e.cmd) (clk + e.val))).stats := by
  have hnot : ¬ clk < 0 := by omega
  simp only [targetEntry, hsibling, hpast, if_neg hnot, he, if_true, pushFuture,
    Function.update_self]
  rfl

theorem targetTiming_refresh {pre post : List (TimingEntry C)}
    (hrow : spec.timing n.level cmd = pre ++ e :: post)
    (hpre : ∀ e' ∈ pre, (spec.isRefreshing cmd && spec.isOpening e'.cmd) = false)
    (hpost : ∀ e' ∈ post, (spec.isRefreshing cmd && spec.isOpening e'.cmd) = false)
    (he : (spec.isRefreshing cmd && spec.isOpening e.cmd) = true) (hsibling : e.sibling = false)
    (hdist : e.dist = 1) (hprev : n.prev cmd ≠ []) (hclk : 0 ≤ clk) :
    (n.targetTiming spec cmd clk).stats =
      (n.recordRefresh clk (max (n.next e.cmd) (clk + e.val))).stats := by
  obtain ⟨hlevel, hnext₀, hstats₀⟩ := recordHistory_keeps cmd clk n
  have hpast₀ : (n.recordHistory cmd clk).past cmd 1 = clk := by
    simp [recordHistory, past, if_neg hprev]
  generalize hn₀ : n.recordHistory cmd clk = n₀ at hlevel hnext₀ hstats₀ hpast₀
  obtain ⟨hstats₁, hprev₁, hnext₁⟩ := foldl_targetEntry_of_not_opening hpre clk n₀
  generalize hn₁ : pre.foldl (targetEntry spec cmd clk) n₀ = n₁ at hstats₁ hprev₁ hnext₁
  have hpast₁ : n₁.past cmd e.dist = clk := by
    rw [past, hprev₁, hdist]
    exact hpast₀
  have hentry := targetEntry_refresh he hsibling hpast₁ hclk
  have hpost' := (foldl_targetEntry_of_not_opening hpost clk (n₁.targetEntry spec cmd clk e)).1
  rw [targetTiming, hrow, hn₀, foldl_append, hn₁, foldl_cons, hpost', hentry,
    hnext₁ e.cmd he, hnext₀]
  simp only [recordRefresh, hstats₁, hstats₀]

end Node

end Ramulator
