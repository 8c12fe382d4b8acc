/-
  Ramulator.Dram.Serving

  `update_serving_requests` on the whole tree.

  The procedure walks from the root along the address and lets every node on
  the way count one request more or one less.

  `NodeStats.Serving s n` is what the assertions of a node rest on: it counts
  `n` requests, and remembers when it became active if `n` is not zero.
  `updateState` and `updateTiming` leave both alone (`DRAM.update_serving`).
-/

import Ramulator.Dram.Shape

namespace Ramulator

open Outcome List

variable {C S : Type} {path : List Nat} {clk : Int}

/-! ## One node -/

namespace NodeStats

/-- The counters after a change, before it is noticed that the node became active or idle. -/
def counted (s : NodeStats) (delta clk : Int) : NodeStats :=
  { s with
    servingRequests :=
      if s.beginOfCurReqcnt ≠ -1 ∧ 0 < s.curServingRequests then
        s.servingRequests + (clk - s.beginOfCurReqcnt) * s.curServingRequests
      else s.servingRequests
    activeCycles :=
      if s.beginOfCurReqcnt ≠ -1 ∧ 0 < s.curServingRequests then
        s.activeCycles + (clk - s.beginOfCurReqcnt)
      else s.activeCycles
    beginOfCurReqcnt := clk
    curServingRequests := s.curServingRequests + delta }

def activated (s : NodeStats) (clk : Int) : NodeStats :=
  { s with
    beginOfServing := clk
    activeRefreshOverlapCycles :=
      if clk < s.endOfRefreshing then s.activeRefreshOverlapCycles + (s.endOfRefreshing - clk)
      else s.activeRefreshOverlapCycles }

def idled (s : NodeStats) (clk : Int) : NodeStats :=
  { s with
    endOfServing := clk
    activeRefreshOverlapCycles :=
      s.refreshIntervals.foldl (fun o ref => o + (min clk ref.2 - ref.1))
        s.activeRefreshOverlapCycles
    refreshIntervals := [] }

theorem serve_eq (s : NodeStats) (delta clk : Int) : s.serve delta clk =
    if s.curServingRequests + delta < 0 then .error .servingCount
    else if delta = 1 ∧ s.curServingRequests + delta = 1 then
      .ok ((s.counted delta clk).activated clk) else if s.curServingRequests + delta = 0 then
      if s.beginOfServing = -1 then .error .servingBegin
      else if delta ≠ -1 then .error .servingEnd
      else .ok ((s.counted delta clk).idled clk)
    else .ok (s.counted delta clk) := by
  by_cases hactive : s.beginOfCurReqcnt ≠ -1 ∧ 0 < s.curServingRequests
  · simp only [serve, counted, activated, idled, if_pos hactive, Int.sub_self, Int.add_zero]
  · simp only [serve, counted, activated, idled, if_neg hactive, Int.sub_self, Int.add_zero]

structure Serving (s : NodeStats) (n : Nat) : Prop where
  count : s.curServingRequests = n
  began : n ≠ 0 → s.beginOfServing ≠ -1

theorem Serving.start {s : NodeStats} {n : Nat} (h : s.Serving n) (hclk : 0 ≤ clk) :
    Ends (s.serve 1 clk) (fun s' => s'.Serving (n + 1)) (fun _ => False) := by
  have hcount := h.count
  have hcount' : s.curServingRequests + 1 = ((n + 1 : Nat) : Int) := by omega
  rw [serve_eq]
  refine Ends.ite (fun hneg => ?_) fun _ => Ends.ite (fun _ => ?_) fun hfirst => ?_
  · omega
  · exact ⟨hcount', fun _ => show clk ≠ -1 by omega⟩
  · refine Ends.ite (fun hzero => ?_) fun _ => ⟨hcount', fun _ => h.began ?_⟩
    · omega
    · omega

theorem Serving.finish {s : NodeStats} {n : Nat} (h : s.Serving (n + 1)) (clk : Int) :
    Ends (s.serve (-1) clk) (fun s' => s'.Serving n) (fun _ => False) := by
  have hcount := h.count
  have hcount' : s.curServingRequests + -1 = (n : Int) := by omega
  rw [serve_eq]
  refine Ends.ite (fun hneg => ?_) fun _ => Ends.ite (fun hone => ?_) fun _ => ?_
  · omega
  · omega
  · refine Ends.ite (fun hzero => ?_) fun _ => ⟨hcount', fun _ => h.began (by omega)⟩
    refine Ends.ite (fun hunset => h.began (by omega) hunset) fun _ => ?_
    refine Ends.ite (fun hdelta => hdelta rfl) fun _ => ⟨hcount', fun hn => ?_⟩
    omega

end NodeStats

/-! ## The walk down the tree -/

/-- The address goes through the node at the end of the path, below a node at
    `level`. -/
def Through (addr : Nat → Int) : Nat → List Nat → Prop
  | _, [] => True
  | level, i :: path => addr (level + 1) = i ∧ Through addr (level + 1) path

instance Through.decidable (addr : Nat → Int) :
    ∀ level path, Decidable (Through addr level path)
  | _, [] => isTrue trivial
  | level, _ :: path =>
    have := Through.decidable addr (level + 1) path
    inferInstanceAs (Decidable (_ ∧ _))

theorem Through.congr {addr addr' : Nat → Int} {level : Nat}
    (h : ∀ l, level < l → l ≤ level + path.length → addr l = addr' l) :
    Through addr level path ↔ Through addr' level path := by
  induction path generalizing level with
  | nil => exact Iff.rfl
  | cons i path ih =>
    have hhead : addr (level + 1) = addr' (level + 1) :=
      h (level + 1) (by omega) (by simp only [length_cons]; omega)
    have hrest : ∀ l, level + 1 < l → l ≤ level + 1 + path.length → addr l = addr' l :=
      fun l hl hle => h l (by omega) (by simp only [length_cons]; omega)
    rw [Through, Through, hhead, ih hrest]

/-- The address names a child at every level down to the bank. -/
def Reaches (spec : Spec C S) (addr : Nat → Int) (level : Nat) : Prop :=
  ∀ l, level ≤ l → 0 < spec.arity l → 0 ≤ addr (l + 1) ∧ (addr (l + 1)).toNat < spec.arity l

namespace DRAM

variable {spec : Spec C S} {level : Nat} {id : Int} {addr : Nat → Int} {t : DRAM C S}

theorem updateServingRequests_root {delta : Int} {t' : DRAM C S}
    (h : t.updateServingRequests spec addr delta clk = .ok t') :
    (delta = 1 ∨ delta = -1) ∧ t.val.stats.serve delta clk = .ok t'.val.stats := by
  obtain ⟨n, k, f⟩ := t
  rw [updateServingRequests] at h
  split at h
  · cases h
  split at h
  · cases h
  next hdelta =>
  refine ⟨by omega, ?_⟩
  rw [NodeTree.val_node]
  cases hserve : n.stats.serve delta clk with
  | error e =>
    rw [hserve] at h
    cases h
  | ok stats =>
    rw [hserve] at h
    dsimp only at h
    split at h
    · cases h
      rfl
    · split at h
      · next hlt =>
        cases hrec : updateServingRequests spec addr delta clk (f ⟨_, hlt⟩) with
        | error e =>
          rw [hrec] at h
          cases h
        | ok c =>
          rw [hrec] at h
          cases h
          rfl
      · cases h

/-- A path that ends in the tree is no longer than the tree is deep. -/
theorem WellShaped.path_lt (hshape : WellShaped spec level id t) (hrow : level < spec.row)
    {n : DRAM C S} (hn : t.at? path = some n) : level + path.length < spec.row := by
  induction path generalizing level id t with
  | nil => exact hrow
  | cons i path ih =>
    obtain ⟨c, hc, hat⟩ := NodeTree.at?_cons_eq_some.mp hn
    have hlt := NodeTree.lt_arity_of_child? hc
    rw [hshape.arity_eq] at hlt
    have hrow' : level + 1 < spec.row := by
      by_contra hge
      rw [Spec.arity, if_neg hge] at hlt
      omega
    have hrest := ih (hshape.child hc) hrow' hat
    rw [length_cons]
    omega

/-- The walk at every node: those on the way have served, the others are as they were. -/
theorem updateServingRequests_nodes {delta : Int} {Q : List Nat → NodeStats → Prop}
    {E : Abort → Prop} (hshape : WellShaped spec level id t)
    (hbank : ∀ l, spec.bank < l → spec.arity l = 0) (hid : addr level = id)
    (haddr : Reaches spec addr level) (hdelta : delta = 1 ∨ delta = -1)
    (hon : ∀ path n, t.at? path = some n → Through addr level path →
      Ends (n.val.stats.serve delta clk) (Q path) E)
    (hoff : ∀ path n, t.at? path = some n → ¬ Through addr level path → Q path n.val.stats) :
    Ends (t.updateServingRequests spec addr delta clk)
      (fun t' => ∀ path n', t'.at? path = some n' → Q path n'.val.stats) E := by
  induction t generalizing level id Q with
  | node n k f ih =>
    obtain ⟨hlevel, hnode, hk, hchildren⟩ := hshape
    rw [updateServingRequests]
    refine Ends.ite (fun hne => absurd ?_ hne) fun _ => ?_
    · rw [hnode, hlevel, hid]
    refine Ends.ite (fun hne => ?_) fun _ => ?_
    · omega
    have hroot := hon [] (.node n k f) rfl trivial
    rw [NodeTree.val_node] at hroot
    cases hserve : n.stats.serve delta clk with
    | error e => exact hroot.abort hserve
    | ok stats =>
      have hstats : Q [] stats := hroot.result hserve
      -- below a node that is not on the way nothing has changed
      have hbelow : ∀ (j : Nat) (path : List Nat) (m : DRAM C S),
          addr (level + 1) ≠ j → (NodeTree.node n k f).at? (j :: path) = some m →
          Q (j :: path) m.val.stats :=
        fun j path m hj hm => hoff _ m hm (fun hthrough => hj hthrough.1)
      rw [hlevel]
      refine Ends.ite (fun hstop => ?_) fun hgo => ?_
      · -- the walk stops only at a node without children
        have hleaf : k = 0 := by
          by_contra hne
          have hpos : 0 < spec.arity level := by omega
          have hchild := haddr level (le_refl _) hpos
          have hdeep := hbank level
          omega
        intro path n' hn'
        cases path with
        | nil =>
          cases hn'
          exact hstats
        | cons j path =>
          obtain ⟨c, hc, -⟩ := NodeTree.at?_cons_eq_some.mp hn'
          have hlt := NodeTree.lt_arity_of_child? hc
          rw [NodeTree.arity_node] at hlt
          omega
      · have hpos : 0 < spec.arity level := by omega
        obtain ⟨hnonneg, hlt⟩ := haddr level (le_refl _) hpos
        have hlt' : (addr (level + 1)).toNat < k := by omega
        rw [dif_pos hlt']
        have hnext : addr (level + 1) = ((addr (level + 1)).toNat : Int) := by omega
        have hchild := ih ⟨_, hlt'⟩ (Q := fun path => Q ((addr (level + 1)).toNat :: path))
          (hchildren ⟨_, hlt'⟩) hnext
          (fun l hl => haddr l (by omega))
          (fun path m hm hthrough => hon _ m
            (NodeTree.at?_cons_eq_some.mpr ⟨_, NodeTree.child?_node_of_lt hlt', hm⟩)
            ⟨hnext, hthrough⟩)
          (fun path m hm hthrough => hoff _ m
            (NodeTree.at?_cons_eq_some.mpr ⟨_, NodeTree.child?_node_of_lt hlt', hm⟩)
            (fun h => hthrough h.2))
        cases hrec : updateServingRequests spec addr delta clk (f ⟨_, hlt'⟩) with
        | error e => exact hchild.abort hrec
        | ok c =>
          intro path n' hn'
          cases path with
          | nil =>
            cases hn'
            exact hstats
          | cons j path =>
            obtain ⟨c', hc', hat⟩ := NodeTree.at?_cons_eq_some.mp hn'
            obtain ⟨hj, hc'⟩ := NodeTree.child?_eq_some_iff.mp hc'
            by_cases hon' : j = (addr (level + 1)).toNat
            · subst hon'
              rw [if_pos rfl] at hc'
              subst hc'
              exact hchild.result hrec path n' hat
            · rw [if_neg hon'] at hc'
              refine hbelow j path n' (fun h => hon' (by omega)) ?_
              exact NodeTree.at?_cons_eq_some.mpr
                ⟨c', NodeTree.child?_eq_some_iff.mpr ⟨hj, hc'⟩, hat⟩

end DRAM

/-! ## Commands -/

structure Node.SameServing (n n' : Node C S) : Prop where
  count : n'.stats.curServingRequests = n.stats.curServingRequests
  began : n'.stats.beginOfServing = n.stats.beginOfServing

theorem Node.SameServing.refl (n : Node C S) : n.SameServing n := ⟨rfl, rfl⟩

theorem Node.SameServing.trans {n₁ n₂ n₃ : Node C S} (h₁₂ : n₁.SameServing n₂)
    (h₂₃ : n₂.SameServing n₃) : n₁.SameServing n₃ :=
  ⟨h₂₃.count.trans h₁₂.count, h₂₃.began.trans h₁₂.began⟩

theorem Node.SameFrame.sameServing {n n' : Node C S} (h : n.SameFrame n') : n.SameServing n' :=
  ⟨by rw [h.stats], by rw [h.stats]⟩

theorem NodeStats.Serving.of_same {n n' : Node C S} {k : Nat} (h : n.stats.Serving k)
    (hsame : n.SameServing n') : n'.stats.Serving k :=
  ⟨hsame.count.trans h.count, fun hk => hsame.began ▸ h.began hk⟩

section Commands

variable [DecidableEq C]

theorem Node.siblingTiming_sameServing (spec : Spec C S) (cmd : C) (clk : Int) (n : Node C S) :
    n.SameServing (n.siblingTiming spec cmd clk) := by
  refine List.foldlRecOn _ _ (Node.SameServing.refl n) ?_
  intro m hm e _
  unfold siblingEntry
  split
  · exact ⟨hm.count, hm.began⟩
  · exact hm

theorem Node.targetEntry_sameServing (spec : Spec C S) (cmd : C) (clk : Int) (n : Node C S)
    (e : TimingEntry C) : n.SameServing (n.targetEntry spec cmd clk e) := by
  simp only [targetEntry]
  split
  · exact .refl n
  · split
    · exact .refl n
    · split
      · exact ⟨rfl, rfl⟩
      · exact ⟨rfl, rfl⟩

theorem Node.targetTiming_sameServing (spec : Spec C S) (cmd : C) (clk : Int) (n : Node C S) :
    n.SameServing (n.targetTiming spec cmd clk) := by
  have hrecord : n.SameServing (n.recordHistory cmd clk) := by
    unfold recordHistory
    split
    · exact .refl n
    · exact ⟨rfl, rfl⟩
  refine List.foldlRecOn _ _ hrecord ?_
  intro m hm e _
  exact hm.trans (targetEntry_sameServing spec cmd clk m e)

namespace DRAM

theorem update_serving {spec : Spec C S} {cmd : C} {addr : Nat → Int} {t t' : DRAM C S}
    (h : update spec cmd addr clk t = .ok t') : NodeTree.Rel Node.SameServing t t' :=
  update_rel_of (fun _ _ _ h₁ h₂ => h₁.trans h₂) (fun _ _ hf => hf.sameServing)
    (fun _ _ => ⟨rfl, rfl⟩) (Node.siblingTiming_sameServing spec cmd clk)
    (Node.targetTiming_sameServing spec cmd clk) h

end DRAM

end Commands

end Ramulator
