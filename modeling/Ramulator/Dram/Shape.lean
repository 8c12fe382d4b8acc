/-
  Ramulator.Dram.Shape

  What the operations of the DRAM tree leave alone.

  A tree built by the constructor is `WellShaped`: every node knows its level
  and its index below its parent, and has as many children as the organisation
  says.  No operation changes that.  `updateState` touches only states,
  `updateTiming` only timing tables and statistics, `updateServingRequests`
  only statistics; each is stated as a relation between the nodes of the tree
  before and after (`NodeTree.Rel`).
-/

import Ramulator.Dram.Basic

namespace Ramulator

open Outcome

variable {C S : Type} {cmd : C} {clk : Int} {i : Nat}

/-! ## Relations between nodes -/

/-- Same place in the tree and same state: what `updateTiming` and
    `updateServingRequests` keep. -/
structure Node.SameState (n n' : Node C S) : Prop where
  level : n'.level = n.level
  id : n'.id = n.id
  state : n'.state = n.state
  rowState : n'.rowState = n.rowState

/-- Same place in the tree and same timing tables: what `updateState` and
    `updateServingRequests` keep. -/
structure Node.SameTiming (n n' : Node C S) : Prop where
  level : n'.level = n.level
  id : n'.id = n.id
  next : n'.next = n.next
  prev : n'.prev = n.prev

/-- Nothing but the statistics changed. -/
def Node.SameButStats (n n' : Node C S) : Prop := n' = { n with stats := n'.stats }

theorem Node.SameFrame.refl (n : Node C S) : n.SameFrame n := ⟨rfl, rfl, rfl, rfl, rfl, rfl⟩

theorem Node.SameFrame.trans {n₁ n₂ n₃ : Node C S} (h₁₂ : n₁.SameFrame n₂)
    (h₂₃ : n₂.SameFrame n₃) : n₁.SameFrame n₃ :=
  ⟨h₂₃.level.trans h₁₂.level, h₂₃.id.trans h₁₂.id, h₂₃.curClk.trans h₁₂.curClk,
    h₂₃.next.trans h₁₂.next, h₂₃.prev.trans h₁₂.prev, h₂₃.stats.trans h₁₂.stats⟩

theorem Node.SameFrame.sameTiming {n n' : Node C S} (h : n.SameFrame n') : n.SameTiming n' :=
  ⟨h.level, h.id, h.next, h.prev⟩

theorem Node.SameState.refl (n : Node C S) : n.SameState n := ⟨rfl, rfl, rfl, rfl⟩

theorem Node.SameState.trans {n₁ n₂ n₃ : Node C S} (h₁₂ : n₁.SameState n₂)
    (h₂₃ : n₂.SameState n₃) : n₁.SameState n₃ :=
  ⟨h₂₃.level.trans h₁₂.level, h₂₃.id.trans h₁₂.id, h₂₃.state.trans h₁₂.state,
    h₂₃.rowState.trans h₁₂.rowState⟩

theorem Node.SameTiming.refl (n : Node C S) : n.SameTiming n := ⟨rfl, rfl, rfl, rfl⟩

theorem Node.SameTiming.trans {n₁ n₂ n₃ : Node C S} (h₁₂ : n₁.SameTiming n₂)
    (h₂₃ : n₂.SameTiming n₃) : n₁.SameTiming n₃ :=
  ⟨h₂₃.level.trans h₁₂.level, h₂₃.id.trans h₁₂.id, h₂₃.next.trans h₁₂.next, h₂₃.prev.trans h₁₂.prev⟩

theorem Node.SameButStats.refl (n : Node C S) : n.SameButStats n := rfl

theorem Node.SameButStats.trans {n₁ n₂ n₃ : Node C S} (h₁₂ : n₁.SameButStats n₂)
    (h₂₃ : n₂.SameButStats n₃) : n₁.SameButStats n₃ := by
  unfold SameButStats at h₁₂ h₂₃ ⊢
  rw [h₁₂] at h₂₃
  exact h₂₃

theorem Node.SameButStats.symm {n n' : Node C S} (h : n.SameButStats n') : n'.SameButStats n := by
  unfold SameButStats at h ⊢
  rw [h]

theorem Node.SameButStats.sameState {n n' : Node C S} (h : n.SameButStats n') : n.SameState n' := by
  rw [SameButStats] at h
  rw [h]
  exact ⟨rfl, rfl, rfl, rfl⟩

theorem Node.SameButStats.sameTiming {n n' : Node C S} (h : n.SameButStats n') :
    n.SameTiming n' := by
  rw [SameButStats] at h
  rw [h]
  exact ⟨rfl, rfl, rfl, rfl⟩

/-! ## Well-shaped trees -/

/-- The number of children of a node at `level`. -/
def Spec.arity (spec : Spec C S) (level : Nat) : Nat :=
  if level + 1 < spec.row then spec.count (level + 1) else 0

def DRAM.WellShaped (spec : Spec C S) : Nat → Int → DRAM C S → Prop
  | level, id, .node n k f => n.level = level ∧ n.id = id ∧ k = spec.arity level ∧
      ∀ i : Fin k, WellShaped spec (level + 1) i.val (f i)

variable {R : Node C S → Node C S → Prop}

namespace DRAM.WellShaped

variable {spec : Spec C S} {level : Nat} {id : Int} {t : DRAM C S}

section

variable (h : WellShaped spec level id t)
include h

theorem val_level : t.val.level = level := by
  cases t with
  | node n k f => exact h.1

theorem val_id : t.val.id = id := by
  cases t with
  | node n k f => exact h.2.1

theorem arity_eq : t.arity = spec.arity level := by
  cases t with
  | node n k f => exact h.2.2.1

theorem child {c : DRAM C S} (hc : t.child? i = some c) : WellShaped spec (level + 1) i c := by
  cases t with
  | node n k f =>
    obtain ⟨hi, rfl⟩ := NodeTree.child?_eq_some_iff.mp hc
    exact h.2.2.2 ⟨i, hi⟩

end

theorem of_rel (hR : ∀ n n', R n n' → n'.level = n.level ∧ n'.id = n.id) {t' : DRAM C S}
    (h : WellShaped spec level id t) (hrel : NodeTree.Rel R t t') :
    WellShaped spec level id t' := by
  induction hrel using NodeTree.Rel.induction generalizing level id with
  | node n n' k f f' hrel _ ih =>
    have hplace := hR _ _ hrel.val
    exact ⟨hplace.1.trans h.1, hplace.2.trans h.2.1, h.2.2.1, fun i => ih i (h.2.2.2 i)⟩

end DRAM.WellShaped

theorem DRAM.newFrom_wellShaped (spec : Spec C S) (depth level : Nat) (id : Int)
    (hdepth : depth = spec.row - 1 - level) :
    WellShaped spec level id (newFrom spec depth level id) := by
  induction depth generalizing level id with
  | zero =>
    have harity : spec.arity level = 0 := if_neg (by omega)
    exact ⟨rfl, rfl, harity.symm, fun i => i.elim0⟩
  | succ depth ih =>
    have harity : spec.arity level = spec.count (level + 1) := if_pos (by omega)
    exact ⟨rfl, rfl, harity.symm, fun i => ih (level + 1) i.val (by omega)⟩

theorem DRAM.new_wellShaped (spec : Spec C S) (level : Nat) (id : Int) :
    WellShaped spec level id (new spec level id) :=
  newFrom_wellShaped spec _ level id rfl

/-! ## Frames of the operations -/

variable {spec : Spec C S}

theorem DRAM.updateState_rel_of (hrefl : ∀ n, R n n)
    (htrans : ∀ n₁ n₂ n₃, R n₁ n₂ → R n₂ n₃ → R n₁ n₃)
    (hlambda : ∀ t f, spec.lambda t.val.level cmd = some f → ∀ id, NodeTree.Rel R t (f t id))
    (addr : Nat → Int) (t : DRAM C S) : NodeTree.Rel R t (updateState spec cmd addr t) := by
  have happly : ∀ t, NodeTree.Rel R t (applyLambda spec cmd addr t) := by
    intro t
    unfold applyLambda
    split
    · next g hg => exact hlambda t g hg _
    · exact NodeTree.Rel.refl hrefl t
  have hfrom : ∀ depth t, NodeTree.Rel R t (updateStateFrom spec cmd addr depth t) := by
    intro depth
    induction depth with
    | zero => exact fun t => NodeTree.Rel.refl hrefl t
    | succ depth ih =>
      intro t
      refine (happly t).trans htrans ?_
      simp only [updateStateFrom]
      split
      · exact NodeTree.Rel.refl hrefl _
      · exact NodeTree.Rel.modifyChild hrefl (fun c _ => ih c)
  exact hfrom _ t

variable {t : DRAM C S}

/-- Above the scope of a command, at a level it does not touch, `updateState`
    goes on to the child. -/
theorem DRAM.updateStateFrom_descend {addr : Nat → Int}
    (hlambda : spec.lambda t.val.level cmd = none) (hscope : t.val.level ≠ spec.scope cmd)
    (hchild : 0 ≤ addr (t.val.level + 1)) (depth : Nat) :
    updateStateFrom spec cmd addr (depth + 1) t =
      t.modifyChild (addr (t.val.level + 1)).toNat (updateStateFrom spec cmd addr depth) := by
  have hstop : ¬ (t.val.level = spec.scope cmd ∨ addr (t.val.level + 1) < 0) := by omega
  simp only [updateStateFrom, applyLambda, hlambda, if_neg hstop]

theorem DRAM.updateState_rel (spec : Spec C S) (cmd : C) (addr : Nat → Int) (t : DRAM C S) :
    NodeTree.Rel Node.SameFrame t (updateState spec cmd addr t) :=
  updateState_rel_of Node.SameFrame.refl (fun _ _ _ h₁ h₂ => h₁.trans h₂)
    (fun t f hf => spec.lambda_frame _ cmd f hf t) addr t

theorem NodeStats.serve_ends (s : NodeStats) (delta clk : Int) :
    Ends (s.serve delta clk) (fun _ => True) (fun e => e.isServing = true) := by
  simp only [serve]
  refine Ends.ite (fun _ => rfl) fun _ => Ends.ite (fun _ => trivial) fun _ => ?_
  refine Ends.ite (fun _ => ?_) (fun _ => trivial)
  exact Ends.ite (fun _ => rfl) fun _ => Ends.ite (fun _ => rfl) fun _ => trivial

/-- What every change of a node's counters respects, `updateServingRequests`
    respects; and it fails only in its own assertions. -/
theorem DRAM.updateServingRequests_rel_of (hrefl : ∀ n, R n n) {delta : Int}
    (hserve : ∀ (n : Node C S) (stats : NodeStats),
      n.stats.serve delta clk = .ok stats → R n { n with stats }) (spec : Spec C S)
    (addr : Nat → Int) (t : DRAM C S) :
    Ends (t.updateServingRequests spec addr delta clk) (NodeTree.Rel R t)
      (fun e => e.isServing = true) := by
  induction t with
  | node n k f ih =>
    rw [updateServingRequests]
    refine Ends.ite (fun _ => rfl) fun _ => Ends.ite (fun _ => rfl) fun _ => ?_
    have hends := n.stats.serve_ends delta clk
    cases hs : n.stats.serve delta clk with
    | error e => exact hends.abort hs
    | ok stats =>
      have hroot : R n { n with stats } := hserve n stats hs
      refine Ends.ite (fun _ => ?_) fun _ => ?_
      · refine NodeTree.Rel.intro hroot rfl ?_
        intro i c hc
        exact ⟨c, hc, NodeTree.Rel.refl hrefl c⟩
      · split
        · next hlt =>
          have hchild := ih ⟨_, hlt⟩
          cases hc : updateServingRequests spec addr delta clk (f ⟨_, hlt⟩) with
          | error e => exact hchild.abort hc
          | ok c =>
            refine NodeTree.Rel.intro hroot rfl ?_
            intro i c' hc'
            obtain ⟨hi, rfl⟩ := NodeTree.child?_eq_some_iff.mp hc'
            refine ⟨_, NodeTree.child?_node_of_lt hi, ?_⟩
            by_cases heq : i = (addr (n.level + 1)).toNat
            · subst heq
              rw [if_pos rfl]
              exact hchild.result hc
            · rw [if_neg heq]
              exact NodeTree.Rel.refl hrefl _
        · rfl

theorem DRAM.updateServingRequests_ends (spec : Spec C S) (addr : Nat → Int) (delta clk : Int)
    (t : DRAM C S) : Ends (t.updateServingRequests spec addr delta clk)
      (NodeTree.Rel Node.SameButStats t) (fun e => e.isServing = true) :=
  updateServingRequests_rel_of Node.SameButStats.refl (fun _ _ _ => rfl) spec addr t

theorem DRAM.decode_eq (spec : Spec C S) (cmd : C) (addr : Nat → Int) (t : DRAM C S) :
    t.decode spec cmd addr = match (spec.prereq t.val.level cmd).bind
        (fun p => p t cmd (addr (t.val.level + 1))) with
      | some prereqCmd => prereqCmd
      | none => if addr (t.val.level + 1) < 0 then cmd
        else
          match t.child? (addr (t.val.level + 1)).toNat with
          | some c => decode spec cmd addr c
          | none => cmd := by
  obtain ⟨n, k, f⟩ := t
  rw [decode]
  simp only [NodeTree.val_node]
  cases (spec.prereq n.level cmd).bind (fun p => p (.node n k f) cmd (addr (n.level + 1))) with
  | some prereqCmd => rfl
  | none =>
    by_cases h : (addr (n.level + 1)).toNat < k
    · simp only [dif_pos h, NodeTree.child?_node_of_lt h]
    · simp only [dif_neg h, NodeTree.child?]

section Timing

variable [DecidableEq C]

theorem Node.siblingEntry_sameState (clk : Int) (n : Node C S) (e : TimingEntry C) :
    n.SameState (n.siblingEntry clk e) := by
  unfold siblingEntry
  split
  · exact ⟨rfl, rfl, rfl, rfl⟩
  · exact .refl n

theorem Node.siblingTiming_sameState (spec : Spec C S) (cmd : C) (clk : Int) (n : Node C S) :
    n.SameState (n.siblingTiming spec cmd clk) := by
  refine List.foldlRecOn _ _ (Node.SameState.refl n) ?_
  intro m hm e _
  exact hm.trans (siblingEntry_sameState clk m e)

theorem Node.targetEntry_sameState (spec : Spec C S) (cmd : C) (clk : Int) (n : Node C S)
    (e : TimingEntry C) : n.SameState (n.targetEntry spec cmd clk e) := by
  simp only [targetEntry]
  split
  · exact .refl n
  · split
    · exact .refl n
    · split
      · exact ⟨rfl, rfl, rfl, rfl⟩
      · exact ⟨rfl, rfl, rfl, rfl⟩

theorem Node.recordHistory_sameState (cmd : C) (clk : Int) (n : Node C S) :
    n.SameState (n.recordHistory cmd clk) := by
  unfold recordHistory
  split
  · exact .refl n
  · exact ⟨rfl, rfl, rfl, rfl⟩

theorem Node.targetTiming_sameState (spec : Spec C S) (cmd : C) (clk : Int) (n : Node C S) :
    n.SameState (n.targetTiming spec cmd clk) := by
  refine List.foldlRecOn _ _ (recordHistory_sameState cmd clk n) ?_
  intro m hm e _
  exact hm.trans (targetEntry_sameState spec cmd clk m e)

theorem DRAM.updateTiming_rel_of (hrefl : ∀ n, R n n)
    (hsibling : ∀ n, R n (n.siblingTiming spec cmd clk))
    (htarget : ∀ n, R n (n.targetTiming spec cmd clk)) (addr : Nat → Int) (t : DRAM C S) :
    NodeTree.Rel R t (updateTiming spec cmd addr clk t) := by
  induction t with
  | node n k f ih =>
    simp only [updateTiming]
    split
    · refine NodeTree.Rel.intro (hsibling n) rfl ?_
      intro i c hc
      exact ⟨c, hc, NodeTree.Rel.refl hrefl c⟩
    · refine NodeTree.Rel.intro (htarget n) rfl ?_
      intro i c hc
      obtain ⟨hi, rfl⟩ := NodeTree.child?_eq_some_iff.mp hc
      exact ⟨_, NodeTree.child?_node_of_lt hi, ih ⟨i, hi⟩⟩

theorem DRAM.updateTiming_rel (spec : Spec C S) (cmd : C) (addr : Nat → Int) (clk : Int)
    (t : DRAM C S) : NodeTree.Rel Node.SameState t (updateTiming spec cmd addr clk t) :=
  updateTiming_rel_of Node.SameState.refl (Node.siblingTiming_sameState spec cmd clk)
    (Node.targetTiming_sameState spec cmd clk) addr t

namespace DRAM

variable {spec : Spec C S} {addr : Nat → Int} {t' : DRAM C S}

theorem update_ok (h : update spec cmd addr clk t = .ok t') : t' = updateTiming spec cmd addr clk
      (updateState spec cmd addr (t.setVal { t.val with curClk := clk })) := by
  simp only [update] at h
  split at h
  · exact (Except.ok.inj h).symm
  · cases h

theorem update_rel_of (htrans : ∀ n₁ n₂ n₃, R n₁ n₂ → R n₂ n₃ → R n₁ n₃)
    (hframe : ∀ n n', Node.SameFrame n n' → R n n')
    (hcurClk : ∀ (n : Node C S) curClk, R n { n with curClk })
    (hsibling : ∀ n, R n (n.siblingTiming spec cmd clk))
    (htarget : ∀ n, R n (n.targetTiming spec cmd clk)) (h : update spec cmd addr clk t = .ok t') :
    NodeTree.Rel R t t' := by
  have hrefl : ∀ n, R n n := fun n => hframe n n (.refl n)
  rw [update_ok h]
  have hclk : NodeTree.Rel R t (t.setVal { t.val with curClk := clk }) :=
    NodeTree.Rel.setVal hrefl (hcurClk _ clk)
  have hstate := (updateState_rel spec cmd addr (t.setVal { t.val with curClk := clk })).mono hframe
  exact (hclk.trans htrans hstate).trans htrans (updateTiming_rel_of hrefl hsibling htarget addr _)

theorem update_root (h : update spec cmd addr clk t = .ok t') (hid : t.val.id = addr t.val.level) :
    ∃ n, Node.SameFrame { t.val with curClk := clk } n ∧
      t'.val = n.targetTiming spec cmd clk := by
  have hframe : NodeTree.Rel Node.SameFrame (t.setVal { t.val with curClk := clk })
      (updateState spec cmd addr (t.setVal { t.val with curClk := clk })) :=
    updateState_rel spec cmd addr _
  rw [update_ok h]
  generalize updateState spec cmd addr (t.setVal { t.val with curClk := clk }) = t₁ at hframe ⊢
  obtain ⟨n, k, f⟩ := t₁
  have hroot : Node.SameFrame { t.val with curClk := clk } n := by
    have hval := hframe.val
    rwa [NodeTree.val_setVal] at hval
  have hself : ¬ n.id ≠ addr n.level := by
    rw [hroot.id, hroot.level]
    exact fun hne => hne hid
  refine ⟨n, hroot, ?_⟩
  rw [updateTiming, if_neg hself, NodeTree.val_node]

theorem update_child {c : DRAM C S} (h : update spec cmd addr clk t = .ok t')
    (hid : t.val.id = addr t.val.level) (hc : t.child? i = some c)
    (hcid : c.val.id = addr c.val.level) : ∃ n c', Node.SameFrame c.val n ∧ t'.child? i = some c' ∧
      c'.val = n.targetTiming spec cmd clk := by
  have hframe : NodeTree.Rel Node.SameFrame (t.setVal { t.val with curClk := clk })
      (updateState spec cmd addr (t.setVal { t.val with curClk := clk })) :=
    updateState_rel spec cmd addr _
  obtain ⟨c₁, hc₁, hrel⟩ := hframe.child (show (t.setVal _).child? i = some c by
    rw [NodeTree.child?_setVal]
    exact hc)
  have hroot := hframe.val
  rw [NodeTree.val_setVal] at hroot
  rw [update_ok h]
  generalize updateState spec cmd addr (t.setVal { t.val with curClk := clk }) = t₁ at hc₁ hroot ⊢
  obtain ⟨n, k, f⟩ := t₁
  obtain ⟨hi, rfl⟩ := NodeTree.child?_eq_some_iff.mp hc₁
  have hself : ¬ n.id ≠ addr n.level := by
    rw [show n.id = t.val.id from hroot.id, show n.level = t.val.level from hroot.level]
    exact fun hne => hne hid
  refine ⟨(f ⟨i, hi⟩).val, updateTiming spec cmd addr clk (f ⟨i, hi⟩), hrel.val, ?_, ?_⟩
  · rw [updateTiming, if_neg hself]
    exact NodeTree.child?_node_of_lt hi
  · have hc' := hrel.val
    generalize f ⟨i, hi⟩ = t₂ at hc'
    obtain ⟨m, k', f'⟩ := t₂
    have hself' : ¬ m.id ≠ addr m.level := by
      rw [show m.id = c.val.id from hc'.id, show m.level = c.val.level from hc'.level]
      exact fun hne => hne hcid
    rw [updateTiming, if_neg hself']
    rfl

/-- Neither the clock of the root nor any state matters to the timing tables. -/
theorem update_timing (hupdate : t.update spec cmd addr clk = .ok t') :
    ∃ t₁, NodeTree.Rel Node.SameTiming t t₁ ∧ t' = updateTiming spec cmd addr clk t₁ := by
  have hroot : NodeTree.Rel Node.SameTiming t (t.setVal { t.val with curClk := clk }) :=
    NodeTree.Rel.setVal Node.SameTiming.refl ⟨rfl, rfl, rfl, rfl⟩
  refine ⟨_, hroot.trans (fun _ _ _ h h' => h.trans h') ?_, update_ok hupdate⟩
  exact (updateState_rel spec cmd addr _).mono fun _ _ hf => hf.sameTiming

theorem WellShaped.update {level : Nat} {id : Int} (h : WellShaped spec level id t)
    (hupdate : t.update spec cmd addr clk = .ok t') : WellShaped spec level id t' := by
  obtain ⟨t₁, hrel, rfl⟩ := update_timing hupdate
  exact (h.of_rel (fun _ _ hs => ⟨hs.level, hs.id⟩) hrel).of_rel
    (fun _ _ hs => ⟨hs.level, hs.id⟩) (updateTiming_rel spec cmd addr clk _)

end DRAM

end Timing

end Ramulator
