/-
  Ramulator.Dram.Timing

  The timing constraints the DRAM tree enforces.

  A timing entry is a constraint on the history of issued commands: after the
  `dist`-th most recent `p` that selected a node (for a sibling entry, after
  any `p` that selected its parent and not the node itself) the entry's command
  has to wait `val` cycles.  The code does not keep that history.  Each node
  has one running maximum `next` per command and a bounded log `prev` per
  command, both updated on the way down the tree.

  `NodeExact` ties the two together at one node: `next` is the least time every
  constraint allows, and `prev` is the recent part of the history.
-/

import Mathlib.Data.List.Induction
import Ramulator.Lib.History
import Ramulator.Dram.Shape

namespace Ramulator

open Outcome List Function

variable {C S : Type} {level j : Nat} {t id clk : Int} {a : Nat → Int} {c p : C} {n' : Node C S}

/-! ## Histories and constraints -/

structure Issue (C : Type) where
  cmd : C
  addr : Nat → Int
  clk : Int

/-- What entry `e` of the table of `p` asks of a time `t` at one node: `times`
    are the issues of `p` that selected the node, newest first, and `beside`
    those that selected its parent but not the node. -/
def TimingEntry.Allows (e : TimingEntry C) (times beside : List Int) (t : Int) : Prop :=
  if e.sibling then ∀ past ∈ beside, past + e.val ≤ t
  else ∀ past, times[e.dist - 1]? = some past → past + e.val ≤ t

variable {e : TimingEntry C}

theorem TimingEntry.Allows.mono {times times' beside beside' : List Int}
    (h : e.Allows times beside t) (htimes : ∀ past, times'[e.dist - 1]? = some past →
      ∃ past', times[e.dist - 1]? = some past' ∧ past ≤ past')
    (hbeside : ∀ past ∈ beside', past ∈ beside) : e.Allows times' beside' t := by
  unfold Allows at h ⊢
  by_cases hs : e.sibling = true
  · rw [if_pos hs] at h ⊢
    exact fun past hpast => h past (hbeside past hpast)
  · rw [if_neg hs] at h ⊢
    intro past hpast
    obtain ⟨past', hpast', hle⟩ := htimes past hpast
    have := h past' hpast'
    omega

variable [DecidableEq C] {u : Issue C}

def issueTimes (p : C) (P : (Nat → Int) → Prop) [DecidablePred P] (us : List (Issue C)) :
    List Int :=
  (us.filter (fun u => u.cmd = p ∧ P u.addr)).map Issue.clk

section IssueTimes

variable {p : C} {P Q : (Nat → Int) → Prop} [DecidablePred P] [DecidablePred Q]
  {us : List (Issue C)} {u : Issue C}

theorem mem_issueTimes :
    clk ∈ issueTimes p P us ↔ ∃ u ∈ us, u.cmd = p ∧ P u.addr ∧ u.clk = clk := by
  simp only [issueTimes, mem_map, mem_filter, decide_eq_true_eq]
  constructor
  · rintro ⟨u, ⟨hu, hp, hP⟩, hclk⟩
    exact ⟨u, hu, hp, hP, hclk⟩
  · rintro ⟨u, hu, hp, hP, hclk⟩
    exact ⟨u, ⟨hu, hp, hP⟩, hclk⟩

theorem issueTimes_cons_pos (hp : u.cmd = p) (hP : P u.addr) :
    issueTimes p P (u :: us) = u.clk :: issueTimes p P us := by
  simp [issueTimes, hp, hP]

theorem issueTimes_cons_neg (h : ¬ (u.cmd = p ∧ P u.addr)) :
    issueTimes p P (u :: us) = issueTimes p P us := by
  simp only [issueTimes, filter_cons, h, decide_false, Bool.false_eq_true, if_false]

theorem issueTimes_filter : issueTimes p P (us.filter (fun u => Q u.addr)) =
      issueTimes p (fun a => Q a ∧ P a) us := by
  simp only [issueTimes, filter_filter]
  congr 2
  funext u
  by_cases hQ : Q u.addr <;> simp [hQ]

theorem issueTimes_congr (h : ∀ u ∈ us, (P u.addr ↔ Q u.addr)) :
    issueTimes p P us = issueTimes p Q us := by
  unfold issueTimes
  congr 1
  refine filter_congr ?_
  intro u hu
  simp only [h u hu]

theorem issueTimes_reverse : issueTimes p P us.reverse = (issueTimes p P us).reverse := by
  simp only [issueTimes, filter_reverse, map_reverse]

theorem issueTimes_pairwise (h : us.Pairwise (fun u v => v.clk ≤ u.clk)) :
    (issueTimes p P us).Pairwise (fun a b => b ≤ a) :=
  (h.sublist filter_sublist).map _ (fun _ _ hle => hle)

end IssueTimes

/-! ## One node -/

/-- The node's tables say exactly what the calls `us` (newest first) that
    reached it ask for. -/
structure NodeExact (spec : Spec C S) (us : List (Issue C)) (n : Node C S) : Prop where
  prev : ∀ p, n.prev p = History.recent (spec.history n.level p) (-1)
    (issueTimes p (fun a => a n.level = n.id) us)
  next : ∀ c t, n.next c ≤ t ↔ -1 ≤ t ∧ ∀ p, ∀ e ∈ spec.timing n.level p, e.cmd = c →
    e.Allows (issueTimes p (fun a => a n.level = n.id) us)
      (issueTimes p (fun a => a n.level ≠ n.id) us) t

namespace Node

theorem pushFuture_next_le {n : Node C S} {cmd : C} {future : Int} :
    (n.pushFuture cmd future).next c ≤ t ↔ n.next c ≤ t ∧ (cmd = c → future ≤ t) := by
  unfold pushFuture
  by_cases hc : c = cmd
  · subst hc
    simp only [update_self, max_le_iff, forall_const]
  · simp only [update_of_ne hc, Ne.symm hc, false_implies, and_true]

theorem siblingEntry_next_le {n : Node C S} : (n.siblingEntry clk e).next c ≤ t ↔
      n.next c ≤ t ∧ (e.sibling = true → e.cmd = c → clk + e.val ≤ t) := by
  unfold siblingEntry
  split
  · next hs => simp only [pushFuture_next_le, hs, forall_const]
  · next hs => simp only [hs, Bool.false_eq_true, false_implies, and_true]

theorem siblingFold_next_le {l : List (TimingEntry C)} {n : Node C S} :
    (l.foldl (siblingEntry clk) n).next c ≤ t ↔
      n.next c ≤ t ∧ ∀ e ∈ l, e.sibling = true → e.cmd = c → clk + e.val ≤ t := by
  induction l generalizing n with
  | nil => simp
  | cons e l ih =>
    rw [foldl_cons, ih, siblingEntry_next_le, forall_mem_cons, and_assoc]

theorem siblingTiming_prev (spec : Spec C S) (cmd : C) (clk : Int) (n : Node C S) :
    (n.siblingTiming spec cmd clk).prev = n.prev := by
  refine List.foldlRecOn (motive := fun m : Node C S => m.prev = n.prev) _ _ rfl ?_
  intro m hm e _
  unfold siblingEntry
  split
  · exact hm
  · exact hm

theorem targetEntry_prev (spec : Spec C S) (cmd : C) (clk : Int) (n : Node C S)
    (e : TimingEntry C) : (n.targetEntry spec cmd clk e).prev = n.prev := by
  simp only [targetEntry]
  split
  · rfl
  · split
    · rfl
    · split
      · rfl
      · rfl

theorem targetEntry_next_le {spec : Spec C S} {cmd : C} {n : Node C S} :
    (n.targetEntry spec cmd clk e).next c ≤ t ↔ n.next c ≤ t ∧
      (e.sibling = false → e.cmd = c → 0 ≤ n.past cmd e.dist → n.past cmd e.dist + e.val ≤ t) := by
  have hpush : ∀ h : 0 ≤ n.past cmd e.dist,
      ((n.pushFuture e.cmd (n.past cmd e.dist + e.val)).next c ≤ t ↔ n.next c ≤ t ∧
        (e.cmd = c → 0 ≤ n.past cmd e.dist → n.past cmd e.dist + e.val ≤ t)) := by
    intro h
    simp only [pushFuture_next_le, h, forall_const]
  simp only [targetEntry]
  split
  · next hs => simp [hs]
  · next hs =>
    have hs' : e.sibling = false := by simpa using hs
    simp only [hs', forall_const]
    split
    · next hpast =>
      have hneg : ¬ 0 ≤ n.past cmd e.dist := by omega
      simp only [hneg, false_implies, implies_true, and_true]
    · next hpast =>
      split
      · exact hpush (by omega)
      · exact hpush (by omega)

theorem targetFold_next_le {spec : Spec C S} {cmd : C} {l : List (TimingEntry C)} {n : Node C S} :
    (l.foldl (targetEntry spec cmd clk) n).next c ≤ t ↔ n.next c ≤ t ∧
      ∀ e ∈ l, e.sibling = false → e.cmd = c → 0 ≤ n.past cmd e.dist →
        n.past cmd e.dist + e.val ≤ t := by
  induction l generalizing n with
  | nil => simp
  | cons e l ih =>
    have hpast : ∀ dist, (n.targetEntry spec cmd clk e).past cmd dist = n.past cmd dist := by
      intro dist
      simp only [past, targetEntry_prev]
    rw [foldl_cons, ih, targetEntry_next_le, forall_mem_cons, and_assoc]
    simp only [hpast]

theorem targetTiming_prev (spec : Spec C S) (cmd : C) (clk : Int) (n : Node C S) :
    (n.targetTiming spec cmd clk).prev = (n.recordHistory cmd clk).prev := by
  refine List.foldlRecOn
    (motive := fun m : Node C S => m.prev = (n.recordHistory cmd clk).prev) _ _ rfl ?_
  intro m hm e _
  rw [targetEntry_prev, hm]

end Node

variable {spec : Spec C S} {us : List (Issue C)} {n : Node C S}

theorem NodeExact.of_sameState (hsame : n.SameState n')
    (hprev : ∀ p, n'.prev p = History.recent (spec.history n.level p) (-1)
      (issueTimes p (fun a => a n.level = n.id) us))
    (hnext : ∀ c t, n'.next c ≤ t ↔ -1 ≤ t ∧ ∀ p, ∀ e ∈ spec.timing n.level p, e.cmd = c →
      e.Allows (issueTimes p (fun a => a n.level = n.id) us)
        (issueTimes p (fun a => a n.level ≠ n.id) us) t) : NodeExact spec us n' := by
  constructor
  · simp only [hsame.level, hsame.id]
    exact hprev
  · simp only [hsame.level, hsame.id]
    exact hnext

theorem NodeExact.of_sameTiming (h : NodeExact spec us n) (hsame : n.SameTiming n') :
    NodeExact spec us n' := by
  constructor
  · simp only [hsame.level, hsame.id, hsame.prev]
    exact h.prev
  · simp only [hsame.level, hsame.id, hsame.next]
    exact h.next

theorem NodeExact.new (spec : Spec C S) (level : Nat) (id : Int) :
    NodeExact spec [] (Node.new spec level id) := by
  constructor
  · intro p
    exact (History.recent_nil _ _).symm
  · intro c t
    refine ⟨fun ht => ⟨ht, ?_⟩, fun h => h.1⟩
    intro p e _ _
    simp [TimingEntry.Allows, issueTimes]

/-- A command that goes to a sibling adds the sibling constraints. -/
theorem NodeExact.siblingTiming (h : NodeExact spec us n) (hu : u.addr n.level ≠ n.id) :
    NodeExact spec (u :: us) (n.siblingTiming spec u.cmd u.clk) := by
  have htimes : ∀ p, issueTimes p (fun a => a n.level = n.id) (u :: us)
      = issueTimes p (fun a => a n.level = n.id) us :=
    fun p => issueTimes_cons_neg (fun h => hu h.2)
  refine .of_sameState (n.siblingTiming_sameState spec u.cmd u.clk) ?_ ?_
  · intro p
    rw [n.siblingTiming_prev, htimes, h.prev]
  · intro c t
    rw [Node.siblingTiming, Node.siblingFold_next_le, h.next, and_assoc]
    refine and_congr_right fun _ => ⟨?_, ?_⟩
    · rintro ⟨hold, hnew⟩ p e he hc
      have hallow := hold p e he hc
      rw [htimes]
      unfold TimingEntry.Allows at hallow ⊢
      split
      · next hs =>
        rw [if_pos hs] at hallow
        intro past hpast
        obtain ⟨v, hv, hvp, hvid, rfl⟩ := mem_issueTimes.mp hpast
        rcases mem_cons.mp hv with rfl | hv
        · subst hvp
          exact hnew e he hs hc
        · exact hallow v.clk (mem_issueTimes.mpr ⟨v, hv, hvp, hvid, rfl⟩)
      · next hs =>
        rwa [if_neg hs] at hallow
    · intro hall
      refine ⟨?_, ?_⟩
      · intro p e he hc
        refine (hall p e he hc).mono ?_ ?_
        · intro past hpast
          rw [htimes]
          exact ⟨past, hpast, le_refl past⟩
        · intro past hpast
          obtain ⟨v, hv, hrest⟩ := mem_issueTimes.mp hpast
          exact mem_issueTimes.mpr ⟨v, mem_cons_of_mem _ hv, hrest⟩
      · intro e he hs hc
        have hallow := hall u.cmd e he hc
        rw [TimingEntry.Allows, if_pos hs] at hallow
        exact hallow u.clk (mem_issueTimes.mpr ⟨u, mem_cons_self, rfl, hu, rfl⟩)

theorem NodeExact.recordHistory_prev (h : NodeExact spec us n)
    (hu : u.addr n.level = n.id) (p : C) :
    (n.recordHistory u.cmd u.clk).prev p = History.recent (spec.history n.level p) (-1)
      (issueTimes p (fun a => a n.level = n.id) (u :: us)) := by
  unfold Node.recordHistory
  by_cases hp : p = u.cmd
  · subst hp
    split
    · next hnil =>
      have hzero : spec.history n.level u.cmd = 0 := by
        rw [h.prev] at hnil
        exact History.recent_eq_nil_iff.mp hnil
      rw [hnil]
      exact (History.recent_eq_nil_iff.mpr hzero).symm
    · next hne =>
      have hpos : 0 < spec.history n.level u.cmd := by
        rw [h.prev, History.recent_eq_nil_iff] at hne
        omega
      dsimp only
      rw [update_self, issueTimes_cons_pos rfl hu, History.recent_cons hpos, h.prev]
  · rw [issueTimes_cons_neg (fun hc => hp hc.1.symm), ← h.prev]
    split
    · rfl
    · dsimp only
      rw [update_of_ne hp]

/-- A recorded time is read back as such; the filler `-1` is never one. -/
theorem NodeExact.past_eq (h : NodeExact spec us n) (hu : u.addr n.level = n.id)
    (hclk : ∀ v ∈ u :: us, 0 ≤ v.clk) (he : e ∈ spec.timing n.level u.cmd) {past : Int} :
    (0 ≤ past ∧ (n.recordHistory u.cmd u.clk).past u.cmd e.dist = past) ↔
      (issueTimes u.cmd (fun a => a n.level = n.id) (u :: us))[e.dist - 1]? = some past := by
  have hdist : e.dist - 1 < spec.history n.level u.cmd := by
    have := e.dist_pos
    have := TimingEntry.dist_le_history he
    omega
  rw [Node.past, h.recordHistory_prev hu, History.recent_getD hdist, getD_eq_getElem?_getD]
  constructor
  · rintro ⟨hpos, hpast⟩
    cases hget : (issueTimes u.cmd (fun a => a n.level = n.id) (u :: us))[e.dist - 1]? with
    | none =>
      rw [hget, Option.getD_none] at hpast
      omega
    | some x =>
      rw [hget, Option.getD_some] at hpast
      rw [hpast]
  · intro hget
    obtain ⟨v, hv, -, -, rfl⟩ := mem_issueTimes.mp (mem_of_getElem? hget)
    exact ⟨hclk v hv, by rw [hget, Option.getD_some]⟩

/-- A command at the node enters its history, and its entries are evaluated again. -/
theorem NodeExact.targetTiming (h : NodeExact spec us n) (hu : u.addr n.level = n.id)
    (hclk : ∀ v ∈ u :: us, 0 ≤ v.clk) (hsorted : (u :: us).Pairwise (fun u v => v.clk ≤ u.clk)) :
    NodeExact spec (u :: us) (n.targetTiming spec u.cmd u.clk) := by
  have hbeside : ∀ p, issueTimes p (fun a => a n.level ≠ n.id) (u :: us)
      = issueTimes p (fun a => a n.level ≠ n.id) us :=
    fun p => issueTimes_cons_neg (fun h => h.2 hu)
  have hrec : (n.recordHistory u.cmd u.clk).next = n.next := by
    unfold Node.recordHistory
    split
    · rfl
    · rfl
  refine .of_sameState (n.targetTiming_sameState spec u.cmd u.clk) ?_ ?_
  · intro p
    rw [n.targetTiming_prev, h.recordHistory_prev hu]
  · intro c t
    rw [Node.targetTiming, Node.targetFold_next_le, hrec, h.next, and_assoc]
    refine and_congr_right fun _ => ⟨?_, ?_⟩
    · rintro ⟨hold, hnew⟩ p e he hc
      by_cases hpush : p = u.cmd ∧ e.sibling = false
      · obtain ⟨rfl, hs⟩ := hpush
        rw [TimingEntry.Allows, if_neg (by simp [hs])]
        intro past hpast
        obtain ⟨hpos, heq⟩ := (h.past_eq hu hclk he).mpr hpast
        have := hnew e he hs hc (by omega)
        omega
      · -- a sibling entry, or an entry of another command: nothing it reads has changed
        have hallow := hold p e he hc
        rw [hbeside]
        unfold TimingEntry.Allows at hallow ⊢
        split
        · next hs => rwa [if_pos hs] at hallow
        · next hs =>
          rw [if_neg hs] at hallow
          have hp : u.cmd ≠ p := fun hp => hpush ⟨hp.symm, by simpa using hs⟩
          rwa [issueTimes_cons_neg (fun hsel => hp hsel.1)]
    · intro hall
      refine ⟨?_, ?_⟩
      · intro p e he hc
        refine (hall p e he hc).mono ?_ ?_
        · intro past hpast
          by_cases hp : u.cmd = p
          · subst hp
            have hpw := issueTimes_pairwise (p := u.cmd) (P := fun a => a n.level = n.id) hsorted
            rw [issueTimes_cons_pos rfl hu] at hpw ⊢
            exact History.getElem?_cons_ge hpw hpast
          · rw [issueTimes_cons_neg (fun hsel => hp hsel.1)]
            exact ⟨past, hpast, le_refl past⟩
        · intro past hpast
          rwa [hbeside]
      · intro e he hs hc hpos
        have hallow := hall u.cmd e he hc
        rw [TimingEntry.Allows, if_neg (by simp [hs])] at hallow
        exact hallow _ ((h.past_eq hu hclk he).mp ⟨hpos, rfl⟩)

/-! ## The tree -/

/-- `NodeExact` at every node: a call reaches the children of a node if it
    selects the node. -/
def DRAM.Exact (spec : Spec C S) : List (Issue C) → DRAM C S → Prop
  | us, .node n k f => NodeExact spec us n ∧
      ∀ i : Fin k, Exact spec (us.filter (fun u => u.addr n.level = n.id)) (f i)

namespace DRAM

theorem Exact.newFrom (spec : Spec C S) (depth level : Nat) (id : Int) :
    Exact spec [] (newFrom spec depth level id) := by
  induction depth generalizing level id with
  | zero => exact ⟨.new spec level id, fun i => i.elim0⟩
  | succ depth ih => exact ⟨.new spec level id, fun i => ih (level + 1) i.val⟩

variable {spec : Spec C S} {us : List (Issue C)} {t t' : DRAM C S}

theorem Exact.of_rel (h : Exact spec us t) (hrel : NodeTree.Rel Node.SameTiming t t') :
    Exact spec us t' := by
  induction hrel using NodeTree.Rel.induction generalizing us with
  | node n n' k f f' hrel _ ih =>
    have hsame : n.SameTiming n' := hrel.val
    refine ⟨h.1.of_sameTiming hsame, fun i => ?_⟩
    rw [hsame.level, hsame.id]
    exact ih i (h.2 i)

omit [DecidableEq C] in
theorem check_of_rel (hrel : NodeTree.Rel Node.SameTiming t t') (cmd : C) (addr : Nat → Int)
    (clk : Int) : t'.check spec cmd addr clk = t.check spec cmd addr clk := by
  induction hrel using NodeTree.Rel.induction with
  | node n n' k f f' hrel _ ih =>
    have hsame : n.SameTiming n' := hrel.val
    simp only [DRAM.check, hsame.next, hsame.level, ih]

theorem Exact.updateTiming (h : Exact spec us t) (hclk : ∀ v ∈ u :: us, 0 ≤ v.clk)
    (hsorted : (u :: us).Pairwise (fun u v => v.clk ≤ u.clk)) :
    Exact spec (u :: us) (updateTiming spec u.cmd u.addr u.clk t) := by
  induction t generalizing us with
  | node n k f ih =>
    rw [DRAM.updateTiming]
    by_cases hu : u.addr n.level = n.id
    · rw [if_neg (by simp [hu])]
      have hsame := n.targetTiming_sameState spec u.cmd u.clk
      refine ⟨h.1.targetTiming hu hclk hsorted, ?_⟩
      intro i
      rw [hsame.level, hsame.id, filter_cons_of_pos (by simp [hu])]
      have hsub : (us.filter (fun v => decide (v.addr n.level = n.id))).Sublist us :=
        filter_sublist
      refine ih i (h.2 i) ?_ (hsorted.sublist (hsub.cons_cons u))
      intro v hv
      exact hclk v ((hsub.cons_cons u).subset hv)
    · rw [if_pos (Ne.symm hu)]
      have hsame := n.siblingTiming_sameState spec u.cmd u.clk
      refine ⟨h.1.siblingTiming hu, ?_⟩
      intro i
      rw [hsame.level, hsame.id, filter_cons_of_neg (by simp [hu])]
      exact h.2 i

theorem Exact.update (h : Exact spec us t) (hclk : ∀ v ∈ u :: us, 0 ≤ v.clk)
    (hsorted : (u :: us).Pairwise (fun u v => v.clk ≤ u.clk))
    (hupdate : t.update spec u.cmd u.addr u.clk = .ok t') : Exact spec (u :: us) t' := by
  obtain ⟨t₁, hrel, rfl⟩ := update_timing hupdate
  exact (h.of_rel hrel).updateTiming hclk hsorted

theorem Exact.congr_head {u' : Issue C} (h : Exact spec (u :: us) t)
    (hshape : WellShaped spec level id t) (hlevel : level < spec.row) (hcmd : u'.cmd = u.cmd)
    (hclk : u'.clk = u.clk) (haddr : ∀ l < spec.row, u'.addr l = u.addr l) :
    Exact spec (u' :: us) t := by
  induction t generalizing us level id with
  | node n k f ih =>
    obtain ⟨hn, -, hk, hchild⟩ := hshape
    have hsame : u'.addr n.level = u.addr n.level := haddr _ (by omega)
    have htimes : ∀ (p : C) (P : (Nat → Int) → Prop) [DecidablePred P],
        (P u'.addr ↔ P u.addr) → issueTimes p P (u' :: us) = issueTimes p P (u :: us) := by
      intro p P _ hP
      simp only [issueTimes, filter_cons, hcmd, hP]
      split
      · rw [map_cons, map_cons, hclk]
      · rfl
    refine ⟨⟨fun p => ?_, fun c t => ?_⟩, fun i => ?_⟩
    · rw [htimes p _ (by rw [hsame])]
      exact h.1.prev p
    · rw [h.1.next c t]
      refine and_congr_right fun _ => forall_congr' fun p => ?_
      rw [htimes p (fun a => a n.level = n.id) (by rw [hsame]),
        htimes p (fun a => a n.level ≠ n.id) (by rw [hsame])]
    · have harity : 0 < spec.arity level := by
        rw [← hk]
        exact Nat.zero_lt_of_lt i.isLt
      have hnext : level + 1 < spec.row := by
        by_contra hge
        rw [Spec.arity, if_neg hge] at harity
        exact absurd harity (lt_irrefl 0)
      have hbelow := h.2 i
      by_cases hu : u.addr n.level = n.id
      · rw [filter_cons_of_pos (by simp [hu])] at hbelow
        rw [filter_cons_of_pos (by simp [hsame, hu])]
        exact ih i hbelow (hchild i) hnext
      · rw [filter_cons_of_neg (by simp [hu])] at hbelow
        rw [filter_cons_of_neg (by simp [hsame, hu])]
        exact hbelow

/-- The calls in order, up to the first assertion that fails. -/
def runUpdates (spec : Spec C S) (us : List (Issue C)) (t : DRAM C S) :
    Except Abort (DRAM C S) :=
  us.foldlM (fun t u => t.update spec u.cmd u.addr u.clk) t

theorem Exact.runUpdates {past : List (Issue C)} (h : Exact spec past t)
    (hshape : WellShaped spec level id t) (hclk : ∀ v ∈ us.reverse ++ past, 0 ≤ v.clk)
    (hsorted : (us.reverse ++ past).Pairwise (fun u v => v.clk ≤ u.clk))
    (hrun : t.runUpdates spec us = .ok t') :
    Exact spec (us.reverse ++ past) t' ∧ WellShaped spec level id t' := by
  induction us generalizing past t with
  | nil =>
    cases hrun
    exact ⟨h, hshape⟩
  | cons u us ih =>
    obtain ⟨t₁, hstep, hrest⟩ := bind_ok.mp hrun
    rw [reverse_cons, append_assoc, singleton_append] at hclk hsorted ⊢
    have hsub : (u :: past).Sublist (us.reverse ++ u :: past) :=
      sublist_append_right _ _
    refine ih ?_ (hshape.update hstep) hclk hsorted hrest
    exact h.update (fun v hv => hclk v (hsub.subset hv)) (hsorted.sublist hsub) hstep

end DRAM

/-! ## Paths -/

/-- `check(c, a)` from a root at `level` visits the node `j` steps below it. -/
def Spec.OnPath (spec : Spec C S) (level : Nat) (c : C) (a : Nat → Int) (j : Nat) : Prop :=
  ∀ i < j, level + i ≠ spec.scope c ∧ 0 ≤ a (level + 1 + i) ∧
    (a (level + 1 + i)).toNat < spec.arity (level + i)

def Selects (level : Nat) (id : Int) (a : Nat → Int) (j : Nat) (addr : Nat → Int) : Prop :=
  addr level = id ∧ ∀ i < j, addr (level + 1 + i) = a (level + 1 + i)

instance (level : Nat) (id : Int) (a : Nat → Int) (j : Nat) :
    DecidablePred (Selects level id a j) :=
  fun _ => inferInstanceAs (Decidable (_ ∧ _))

/-- `addr` reaches that node without selecting it: it selects the parent only. -/
def PassesBy (level : Nat) (id : Int) (a : Nat → Int) : Nat → (Nat → Int) → Prop
  | 0, addr => addr level ≠ id
  | j + 1, addr => Selects level id a j addr ∧ ¬ Selects level id a (j + 1) addr

instance (level : Nat) (id : Int) (a : Nat → Int) (j : Nat) :
    DecidablePred (PassesBy level id a j) :=
  fun _ => match j with
    | 0 => inferInstanceAs (Decidable (_ ≠ _))
    | _ + 1 => inferInstanceAs (Decidable (_ ∧ _))

section Paths

omit [DecidableEq C]

variable {spec : Spec C S} {level : Nat} {id : Int} {a addr : Nat → Int} {c : C} {j : Nat}

theorem Spec.onPath_succ : spec.OnPath level c a (j + 1) ↔
    (level ≠ spec.scope c ∧ 0 ≤ a (level + 1) ∧ (a (level + 1)).toNat < spec.arity level) ∧
      spec.OnPath (level + 1) c a j := by
  constructor
  · intro h
    refine ⟨h 0 (by omega), ?_⟩
    intro i hi
    have hstep := h (i + 1) (by omega)
    rw [show level + (i + 1) = level + 1 + i by omega,
      show level + 1 + (i + 1) = level + 1 + 1 + i by omega] at hstep
    exact hstep
  · rintro ⟨hfirst, hrest⟩ i hi
    cases i with
    | zero => exact hfirst
    | succ i =>
      rw [show level + (i + 1) = level + 1 + i by omega,
        show level + 1 + (i + 1) = level + 1 + 1 + i by omega]
      exact hrest i (by omega)

theorem selects_zero : Selects level id a 0 addr ↔ addr level = id := by
  simp [Selects]

theorem selects_succ : Selects level id a (j + 1) addr ↔
    addr level = id ∧ Selects (level + 1) (a (level + 1)) a j addr := by
  refine and_congr_right fun _ => ?_
  constructor
  · intro h
    refine ⟨h 0 (by omega), ?_⟩
    intro i hi
    have hstep := h (i + 1) (by omega)
    rwa [show level + 1 + (i + 1) = level + 1 + 1 + i by omega] at hstep
  · rintro ⟨hfirst, hrest⟩ i hi
    cases i with
    | zero => exact hfirst
    | succ i =>
      rw [show level + 1 + (i + 1) = level + 1 + 1 + i by omega]
      exact hrest i (by omega)

theorem passesBy_succ : PassesBy level id a (j + 1) addr ↔
    addr level = id ∧ PassesBy (level + 1) (a (level + 1)) a j addr := by
  cases j with
  | zero =>
    simp only [PassesBy, selects_zero, selects_succ]
    tauto
  | succ j =>
    simp only [PassesBy, selects_succ (j := j), selects_succ (j := j + 1)]
    tauto

end Paths

theorem issueTimes_selects_succ : issueTimes p (Selects level id a (j + 1)) us =
      issueTimes p (Selects (level + 1) (a (level + 1)) a j)
        (us.filter (fun u => u.addr level = id)) := by
  rw [issueTimes_filter (Q := fun addr => addr level = id)]
  exact issueTimes_congr (fun u _ => selects_succ)

theorem issueTimes_passesBy_succ : issueTimes p (PassesBy level id a (j + 1)) us =
      issueTimes p (PassesBy (level + 1) (a (level + 1)) a j)
        (us.filter (fun u => u.addr level = id)) := by
  rw [issueTimes_filter (Q := fun addr => addr level = id)]
  exact issueTimes_congr (fun u _ => passesBy_succ)

/-! ## What check checks -/

def NodeAllows (spec : Spec C S) (us : List (Issue C)) (level : Nat) (id : Int)
    (c : C) (a : Nat → Int) (t : Int) (j : Nat) : Prop :=
  ∀ p, ∀ e ∈ spec.timing (level + j) p, e.cmd = c →
    e.Allows (issueTimes p (Selects level id a j) us) (issueTimes p (PassesBy level id a j) us) t

theorem NodeAllows.zero_iff (h : NodeExact spec us n) :
    NodeAllows spec us n.level n.id c a (max t (-1)) 0 ↔ ¬ (n.next c ≠ -1 ∧ t < n.next c) := by
  have htimes : ∀ p, issueTimes p (Selects n.level n.id a 0) us =
      issueTimes p (fun addr => addr n.level = n.id) us :=
    fun p => issueTimes_congr (fun u _ => selects_zero)
  have hbeside : ∀ p, issueTimes p (PassesBy n.level n.id a 0) us =
      issueTimes p (fun addr => addr n.level ≠ n.id) us :=
    fun p => issueTimes_congr (fun u _ => Iff.rfl)
  have hlow : -1 ≤ n.next c := ((h.next c (n.next c)).mp (le_refl _)).1
  have hle := h.next c (max t (-1))
  rw [and_iff_right (le_max_right t (-1))] at hle
  simp only [NodeAllows, htimes, hbeside, Nat.add_zero]
  rw [← hle]
  omega

theorem NodeAllows.succ_iff : NodeAllows spec us level id c a t (j + 1) ↔
      NodeAllows spec (us.filter (fun u => u.addr level = id)) (level + 1) (a (level + 1))
        c a t j := by
  simp only [NodeAllows, issueTimes_selects_succ, issueTimes_passesBy_succ,
    show level + (j + 1) = level + 1 + j by omega]

namespace DRAM

theorem Exact.check_iff {t : DRAM C S} (h : Exact spec us t) (hshape : WellShaped spec level id t)
    (c : C) (a : Nat → Int) (clk : Int) :
    t.check spec c a clk = true ↔ ∀ j, spec.OnPath level c a j →
      NodeAllows spec us level id c a (max clk (-1)) j := by
  induction t generalizing us level id with
  | node n k f ih =>
    obtain ⟨rfl, rfl, hk, hchild⟩ := hshape
    have hroot := NodeAllows.zero_iff (c := c) (a := a) (t := clk) h.1
    rw [DRAM.check]
    split
    · next hbad =>
      refine iff_of_false (by simp) ?_
      intro hall
      exact hroot.mp (hall 0 (fun i hi => by omega)) hbad
    · next hgood =>
      have hsplit : (∀ j, spec.OnPath n.level c a j →
          NodeAllows spec us n.level n.id c a (max clk (-1)) j) ↔
          ∀ j, spec.OnPath n.level c a (j + 1) →
            NodeAllows spec us n.level n.id c a (max clk (-1)) (j + 1) := by
        refine ⟨fun hall j => hall (j + 1), ?_⟩
        intro hall j hj
        cases j with
        | zero => exact hroot.mpr hgood
        | succ j => exact hall j hj
      simp only [hsplit, Spec.onPath_succ, NodeAllows.succ_iff]
      split
      · next hstop =>
        refine iff_of_true rfl ?_
        rintro j ⟨⟨hscope, hnonneg, -⟩, -⟩
        omega
      · next hgo =>
        split
        · next hlt =>
          have hid : ((a (n.level + 1)).toNat : Int) = a (n.level + 1) :=
            Int.toNat_of_nonneg (by omega)
          have hc := hchild ⟨_, hlt⟩
          rw [hid] at hc
          rw [ih ⟨_, hlt⟩ (h.2 _) hc]
          refine forall_congr' fun j => ?_
          have hfirst : n.level ≠ spec.scope c ∧ 0 ≤ a (n.level + 1) ∧
              (a (n.level + 1)).toNat < spec.arity n.level := by
            refine ⟨?_, ?_, ?_⟩ <;> omega
          simp only [hfirst, ne_eq, not_false_eq_true, and_self, true_and]
        · next hge =>
          refine iff_of_true rfl ?_
          rintro j ⟨⟨-, -, hlt⟩, -⟩
          omega

end DRAM

/-- After the calls `us` (oldest first) every constraint on the path of `a` allows `c` at `t`,
    those of the nodes and those from their siblings. -/
def TimingRespected (spec : Spec C S) (level : Nat) (id : Int) (us : List (Issue C))
    (c : C) (a : Nat → Int) (t : Int) : Prop :=
  ∀ j, spec.OnPath level c a j → ∀ p, ∀ e ∈ spec.timing (level + j) p, e.cmd = c →
    (e.sibling = false → ∀ past,
      (issueTimes p (Selects level id a j) us).reverse[e.dist - 1]? = some past →
        past + e.val ≤ t) ∧
    (e.sibling = true → ∀ i, j = i + 1 → ∀ u ∈ us, u.cmd = p →
      Selects level id a i u.addr → ¬ Selects level id a (i + 1) u.addr → u.clk + e.val ≤ t)

namespace DRAM

/-- `check` decides the timing constraints, after any calls of `update` on a
    fresh tree at nondecreasing times and all for this root. -/
theorem check_iff_timingRespected (spec : Spec C S) (level : Nat) (id : Int)
    (us : List (Issue C)) (t' : DRAM C S)
    (hrun : (DRAM.new spec level id).runUpdates spec us = .ok t')
    (hclk : ∀ u ∈ us, 0 ≤ u.clk) (hsorted : us.Pairwise (fun u v => u.clk ≤ v.clk))
    (hroot : ∀ u ∈ us, u.addr level = id)
    (c : C) (a : Nat → Int) (t : Int) (hlast : ∀ u ∈ us, u.clk ≤ t) :
    t'.check spec c a t = true ↔ TimingRespected spec level id us c a t := by
  obtain ⟨hexact, hshape⟩ := (Exact.newFrom spec _ level id).runUpdates
    (new_wellShaped spec level id)
    (by simpa using hclk) (by simpa [pairwise_reverse] using hsorted) hrun
  rw [append_nil] at hexact
  rw [hexact.check_iff hshape, TimingRespected]
  refine forall_congr' fun j => imp_congr_right fun _ => forall_congr' fun p =>
    forall₂_congr fun e _ => imp_congr_right fun _ => ?_
  rw [issueTimes_reverse, issueTimes_reverse, TimingEntry.Allows]
  -- before the first command no constraint mentions the time, and after it `t` is a time
  have htime : us = [] ∨ max t (-1) = t := by
    cases us with
    | nil => exact Or.inl rfl
    | cons u us =>
      have h0 := hclk u mem_cons_self
      have h1 := hlast u mem_cons_self
      exact Or.inr (max_eq_left (by omega))
  rcases htime with rfl | htime
  · simp [issueTimes]
  · rw [htime]
    cases hs : e.sibling with
    | false => simp
    | true =>
      simp only [if_true, mem_reverse, mem_issueTimes]
      refine ⟨fun hall => ⟨by simp, ?_⟩, ?_⟩
      · rintro - i rfl u hu hp hsel hnot
        exact hall u.clk ⟨u, hu, hp, ⟨hsel, hnot⟩, rfl⟩
      · rintro ⟨-, hall⟩ past ⟨u, hu, hp, hby, rfl⟩
        cases j with
        | zero => exact absurd (hroot u hu) hby
        | succ i => exact hall trivial i rfl u hu hp hby.1 hby.2

end DRAM

/-- Two banks: 4 cycles within a bank, 2 between the banks, at most two commands in 7. -/
def Spec.twoBanks : Spec Unit Unit where
  row := 2
  bank := 1
  scope := fun _ => 1
  count := fun _ => 2
  start := fun _ => ()
  prereq := fun _ _ => none
  rowhit := fun _ _ => none
  rowopen := fun _ _ => none
  lambda := fun _ _ => none
  timing := fun level _ =>
    if level = 0 then [{ cmd := (), dist := 2, val := 7 }]
    else [{ cmd := (), dist := 1, val := 4 }, { cmd := (), dist := 1, val := 2, sibling := true }]
  isOpening := fun _ => false
  isAccessing := fun _ => true
  isClosing := fun _ => false
  isRefreshing := fun _ => false
  lambda_frame := fun _ _ _ h => nomatch h

/-- Bank 0 at time 0, bank 1 at time 3, then bank 0 again at time 7. -/
theorem DRAM.check_iff_timingRespected_twoBanks :
    ∃ t', (DRAM.new Spec.twoBanks 0 0).runUpdates Spec.twoBanks
        [⟨(), fun _ => 0, 0⟩, ⟨(), fun l => l, 3⟩] = .ok t' ∧
      t'.check Spec.twoBanks () (fun _ => 0) 7 = true ∧
      TimingRespected Spec.twoBanks 0 0 [⟨(), fun _ => 0, 0⟩, ⟨(), fun l => l, 3⟩]
        () (fun _ => 0) 7 := by
  refine ⟨_, rfl, rfl, ?_⟩
  refine (check_iff_timingRespected Spec.twoBanks 0 0
    [⟨(), fun _ => 0, 0⟩, ⟨(), fun l => l, 3⟩] _ rfl ?_ ?_ ?_ () (fun _ => 0) 7 ?_).mp rfl
  · simp
  · simp
  · simp
  · simp

end Ramulator
