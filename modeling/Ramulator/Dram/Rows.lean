/-
  Ramulator.Dram.Rows

  Open rows, and what a precharge closes.

  `along` follows an address down the tree.  A row is open if the node that
  holds it (`spec.row - 1`, the level above `Row`) is open and has the row in its
  `row_state`; `closesRow` compares that before and after a command.

  The queries of a scheduler and the command that is issued in the end look at
  different nodes: `check_row_hit` and `check_row_open` at the node that holds
  the row, `decode` at every node on the way, and a precharge changes the node
  at its scope.
-/

import Ramulator.Dram.Shape

namespace Ramulator

variable {C S : Type} {addr : Nat → Int} {t : DRAM C S}

namespace DRAM

/-! ## Following an address -/

def towards (addr : Nat → Int) (t : DRAM C S) : Option (DRAM C S) :=
  if addr (t.val.level + 1) < 0 then none else t.child? (addr (t.val.level + 1)).toNat

/-- The node `k` levels below, on the way of the address. -/
def along (addr : Nat → Int) : Nat → DRAM C S → Option (DRAM C S)
  | 0, t => some t
  | k + 1, t => (t.towards addr).bind (along addr k)

theorem towards_of_neg (h : addr (t.val.level + 1) < 0) : t.towards addr = none :=
  if_pos h

theorem towards_of_nonneg (h : ¬ addr (t.val.level + 1) < 0) :
    t.towards addr = t.child? (addr (t.val.level + 1)).toNat :=
  if_neg h

theorem towards_eq_some {c : DRAM C S} (h : t.towards addr = some c) :
    t.child? (addr (t.val.level + 1)).toNat = some c := by
  by_cases hneg : addr (t.val.level + 1) < 0
  · rw [towards_of_neg hneg] at h
    cases h
  · rw [towards_of_nonneg hneg] at h
    exact h

def rowIsOpen (spec : Spec C S) (isOpen : S → Bool) (addr : Nat → Int) (t : DRAM C S) : Bool :=
  (t.along addr (spec.row - 1 - t.val.level)).any fun n =>
    isOpen n.val.state && (n.val.rowState (addr spec.row)).isSome

def closesRow (spec : Spec C S) (isOpen : S → Bool) (cmd : C) (addr addr' : Nat → Int)
    (t : DRAM C S) : Bool :=
  t.rowIsOpen spec isOpen addr' && !(t.updateState spec cmd addr).rowIsOpen spec isOpen addr'

variable {spec : Spec C S} {level k : Nat} {id : Int} {t n : DRAM C S} {cmd : C}
  {addr addr' : Nat → Int}

theorem WellShaped.towards {c : DRAM C S} (h : WellShaped spec level id t)
    (hc : t.towards addr = some c) : ∃ id', WellShaped spec (level + 1) id' c :=
  ⟨_, h.child (towards_eq_some hc)⟩

/-- A child on the way, in a tree that is laid out alike. -/
theorem towards_of_rel {R : Node C S → Node C S → Prop} (hR : ∀ n n', R n n' → n'.level = n.level)
    {t' c' : DRAM C S} (hrel : NodeTree.Rel R t t') (hc' : t'.towards addr = some c') :
    ∃ c, t.towards addr = some c ∧ NodeTree.Rel R c c' := by
  have hlevel := hR _ _ hrel.val
  by_cases hneg : addr (t'.val.level + 1) < 0
  · rw [towards_of_neg hneg] at hc'
    cases hc'
  · rw [towards_of_nonneg hneg, hlevel] at hc'
    rw [hlevel] at hneg
    rw [towards_of_nonneg hneg]
    exact hrel.child_inv hc'

theorem WellShaped.along (h : WellShaped spec level id t) (hn : t.along addr k = some n) :
    ∃ id', WellShaped spec (level + k) id' n := by
  induction k generalizing t level id with
  | zero =>
    cases hn
    exact ⟨id, h⟩
  | succ k ih =>
    obtain ⟨c, hc, hn⟩ := Option.bind_eq_some_iff.mp hn
    obtain ⟨id', hshape⟩ := h.towards hc
    rw [show level + (k + 1) = level + 1 + k by omega]
    exact ih hshape hn

theorem WellShaped.along_lt (h : WellShaped spec level id t) (hlevel : level < spec.row)
    (hn : t.along addr k = some n) : level + k < spec.row := by
  induction k generalizing t level id with
  | zero => exact hlevel
  | succ k ih =>
    obtain ⟨c, hc, hn⟩ := Option.bind_eq_some_iff.mp hn
    obtain ⟨id', hshape⟩ := h.towards hc
    have harity : 0 < spec.arity level := by
      rw [← h.arity_eq]
      exact Nat.zero_lt_of_lt (NodeTree.lt_arity_of_child? (towards_eq_some hc))
    have hnext : level + 1 < spec.row := by
      by_contra hge
      rw [Spec.arity, if_neg hge] at harity
      exact absurd harity (lt_irrefl 0)
    have := ih hshape hnext hn
    omega

/-! ## The queries -/

variable {p : DRAM C S → C → Int → Bool}

theorem checkRowOpen_of_some (hp : spec.rowopen t.val.level cmd = some p) :
    t.checkRowOpen spec cmd addr = p t cmd (addr (t.val.level + 1)) := by
  obtain ⟨n, k, f⟩ := t
  simp only [NodeTree.val_node] at hp
  simp only [checkRowOpen, hp, NodeTree.val_node]

theorem checkRowOpen_of_none (hp : spec.rowopen t.val.level cmd = none) :
    t.checkRowOpen spec cmd addr = (t.towards addr).any (checkRowOpen spec cmd addr) := by
  obtain ⟨n, k, f⟩ := t
  simp only [NodeTree.val_node] at hp
  simp only [checkRowOpen, hp]
  by_cases hneg : addr (n.level + 1) < 0
  · rw [if_pos hneg, towards_of_neg (t := .node n k f) hneg]
    rfl
  · rw [if_neg hneg, towards_of_nonneg (t := .node n k f) hneg]
    by_cases hlt : (addr (n.level + 1)).toNat < k
    · rw [dif_pos hlt, NodeTree.val_node, NodeTree.child?_node_of_lt hlt]
      rfl
    · have hnone : (NodeTree.node n k f).child? (addr (n.level + 1)).toNat = none := dif_neg hlt
      rw [dif_neg hlt, NodeTree.val_node, hnone]
      rfl

theorem checkRowOpen_along (h : WellShaped spec level id t)
    (hnone : ∀ l < level + k, spec.rowopen l cmd = none)
    (hp : spec.rowopen (level + k) cmd = some p) : t.checkRowOpen spec cmd addr =
      (t.along addr k).any fun n => p n cmd (addr (level + k + 1)) := by
  induction k generalizing t level id with
  | zero =>
    rw [Nat.add_zero, ← h.val_level] at hp
    rw [checkRowOpen_of_some hp, h.val_level]
    rfl
  | succ k ih =>
    have hroot : spec.rowopen t.val.level cmd = none := hnone _ (by rw [h.val_level]; omega)
    rw [checkRowOpen_of_none hroot, DRAM.along]
    cases hc : t.towards addr with
    | none => rfl
    | some c =>
      obtain ⟨id', hshape⟩ := h.towards hc
      have hlevel : level + (k + 1) = level + 1 + k := by omega
      rw [hlevel] at hnone hp ⊢
      exact ih hshape hnone hp

theorem checkRowHit_eq_checkRowOpen (t : DRAM C S) :
    t.checkRowHit spec cmd addr = t.checkRowOpen { spec with rowopen := spec.rowhit } cmd addr := by
  induction t with
  | node n k f ih =>
    simp only [checkRowHit, checkRowOpen, ih]

theorem WellShaped.withRowopen (h : WellShaped spec level id t)
    (rowopen : Nat → C → Option (DRAM C S → C → Int → Bool)) :
    WellShaped { spec with rowopen } level id t := by
  induction t generalizing level id with
  | node n k f ih => exact ⟨h.1, h.2.1, h.2.2.1, fun i => ih i (h.2.2.2 i)⟩

theorem checkRowHit_along (h : WellShaped spec level id t)
    (hnone : ∀ l < level + k, spec.rowhit l cmd = none)
    (hp : spec.rowhit (level + k) cmd = some p) : t.checkRowHit spec cmd addr =
      (t.along addr k).any fun n => p n cmd (addr (level + k + 1)) := by
  rw [checkRowHit_eq_checkRowOpen]
  exact checkRowOpen_along (h.withRowopen spec.rowhit) hnone hp

def ruleAt (spec : Spec C S) (cmd : C) (addr : Nat → Int) (n : DRAM C S) : Option C :=
  (spec.prereq n.val.level cmd).bind fun p => p n cmd (addr (n.val.level + 1))

theorem decode_of_rule {c : C} (h : t.ruleAt spec cmd addr = some c) :
    t.decode spec cmd addr = c := by
  rw [decode_eq]
  rw [ruleAt] at h
  rw [h]

theorem decode_of_no_rule (h : t.ruleAt spec cmd addr = none) :
    t.decode spec cmd addr = ((t.towards addr).map (decode spec cmd addr)).getD cmd := by
  rw [decode_eq]
  rw [ruleAt] at h
  rw [h]
  by_cases hneg : addr (t.val.level + 1) < 0
  · simp only [if_pos hneg, towards_of_neg hneg, Option.map_none, Option.getD_none]
  · simp only [if_neg hneg, towards_of_nonneg hneg]
    cases t.child? (addr (t.val.level + 1)).toNat with
    | none => rfl
    | some c => rfl

/-- `decode` returns the command itself, or what a node on its way demands. -/
theorem decode_along (spec : Spec C S) (cmd : C) (addr : Nat → Int) (t : DRAM C S) :
    t.decode spec cmd addr = cmd ∨ ∃ k n, t.along addr k = some n ∧
        n.ruleAt spec cmd addr = some (t.decode spec cmd addr) := by
  induction t with
  | node n k f ih =>
    cases hrule : ruleAt spec cmd addr (.node n k f) with
    | some c => exact Or.inr ⟨0, .node n k f, rfl, by rw [decode_of_rule hrule, hrule]⟩
    | none =>
      rw [decode_of_no_rule hrule]
      cases hc : towards addr (.node n k f) with
      | none => exact Or.inl rfl
      | some c =>
        obtain ⟨hlt, rfl⟩ := NodeTree.child?_eq_some_iff.mp (towards_eq_some hc)
        rcases ih ⟨_, hlt⟩ with hself | ⟨j, m, hm, hrule'⟩
        · exact Or.inl hself
        · refine Or.inr ⟨j + 1, m, ?_, hrule'⟩
          rw [along, hc]
          exact hm

/-! ## What a precharge reaches -/

/-- A change of the child one address goes to is seen by the addresses that go
    there too. -/
theorem towards_modifyChild (h : ¬ addr (t.val.level + 1) < 0) (g : DRAM C S → DRAM C S) :
    towards addr' (t.modifyChild (addr (t.val.level + 1)).toNat g) =
      if addr' (t.val.level + 1) = addr (t.val.level + 1) then (t.towards addr').map g
      else t.towards addr' := by
  have hlevel : (t.modifyChild (addr (t.val.level + 1)).toNat g).val.level = t.val.level := by
    rw [NodeTree.val_modifyChild]
  by_cases hneg : addr' (t.val.level + 1) < 0
  · rw [towards_of_neg hneg, towards_of_neg (by rw [hlevel]; exact hneg)]
    split
    · rfl
    · rfl
  · rw [towards_of_nonneg hneg, towards_of_nonneg (by rw [hlevel]; exact hneg), hlevel,
      NodeTree.child?_modifyChild]
    have hiff : (addr' (t.val.level + 1)).toNat = (addr (t.val.level + 1)).toNat ↔
        addr' (t.val.level + 1) = addr (t.val.level + 1) := by omega
    simp only [hiff]

/-- A command whose transition is at its scope changes no node outside of that scope. -/
theorem along_updateStateFrom (h : WellShaped spec level id t)
    (hlambda : ∀ l < spec.scope cmd, spec.lambda l cmd = none) (hlevel : level ≤ spec.scope cmd)
    (hk : spec.scope cmd ≤ level + k) (depth : Nat) :
    (∀ l, level < l → l ≤ spec.scope cmd → addr' l = addr l) ∨
      (updateStateFrom spec cmd addr depth t).along addr' k = t.along addr' k := by
  induction k generalizing t level id depth with
  | zero => exact Or.inl fun l hl hl' => by omega
  | succ k ih =>
    by_cases hscope : level = spec.scope cmd
    · exact Or.inl fun l hl hl' => by omega
    have habove : t.val.level < spec.scope cmd := by
      rw [h.val_level]
      omega
    have hroot : spec.lambda t.val.level cmd = none := hlambda _ habove
    cases depth with
    | zero => exact Or.inr rfl
    | succ depth =>
      by_cases hneg : addr (t.val.level + 1) < 0
      · -- the recursion of `update_state` ends here
        refine Or.inr ?_
        simp only [updateStateFrom, applyLambda, hroot, if_pos (Or.inr hneg)]
      rw [updateStateFrom_descend hroot habove.ne (not_lt.mp hneg), DRAM.along,
        towards_modifyChild hneg, DRAM.along]
      by_cases hsame : addr' (t.val.level + 1) = addr (t.val.level + 1)
      · -- both addresses go to the same child
        rw [if_pos hsame]
        cases hc : t.towards addr' with
        | none => exact Or.inr rfl
        | some c =>
          obtain ⟨id', hshape⟩ := h.towards hc
          rw [h.val_level] at hsame
          refine (ih hshape (by omega) (by omega) depth).imp_left fun hagree l hl hl' => ?_
          by_cases hnext : l = level + 1
          · rw [hnext]
            exact hsame
          · exact hagree l (by omega) hl'
      · rw [if_neg hsame]
        exact Or.inr rfl

/-- A precharge that closes an open row closes it in the part its address
    names. -/
theorem rowgroup_of_closesRow {isOpen : S → Bool} (h : WellShaped spec level id t)
    (hlambda : ∀ l < spec.scope cmd, spec.lambda l cmd = none) (hlevel : level ≤ spec.scope cmd)
    (hrow : spec.scope cmd < spec.row) (hcloses : t.closesRow spec isOpen cmd addr addr' = true) :
    ∀ l, level < l → l ≤ spec.scope cmd → addr' l = addr l := by
  have hsame : (t.updateState spec cmd addr).val.level = t.val.level :=
    (updateState_rel spec cmd addr t).val.level
  have hways : (∀ l, level < l → l ≤ spec.scope cmd → addr' l = addr l) ∨
      (t.updateState spec cmd addr).along addr' (spec.row - 1 - t.val.level) =
        t.along addr' (spec.row - 1 - t.val.level) :=
    along_updateStateFrom h hlambda hlevel (by rw [h.val_level]; omega) _
  rcases hways with hagree | hway
  · exact hagree
  · rw [closesRow, Bool.and_eq_true, Bool.not_eq_true', rowIsOpen, rowIsOpen, hsame, hway]
      at hcloses
    rw [hcloses.1] at hcloses
    exact absurd hcloses.2 (by decide)

end DRAM

/-! ## What the queries foresee -/

/-- What the tables of a standard say about `cmd`: one rule, at the level that
    holds the row, tells a row hit and an open row apart, and the rule for the
    next command asks for a precharge there only if another row is open. -/
structure RowRules (spec : Spec C S) (isOpen : S → Bool) (isPrecharge : C → Bool) (cmd : C) :
    Prop where
  row_pos : 0 < spec.row
  rowhit_above : ∀ l < spec.row - 1, spec.rowhit l cmd = none
  rowhit : ∃ p, spec.rowhit (spec.row - 1) cmd = some p ∧
    ∀ n id, p n cmd id = (isOpen n.val.state && (n.val.rowState id).isSome)
  rowopen_above : ∀ l < spec.row - 1, spec.rowopen l cmd = none
  rowopen : ∃ p, spec.rowopen (spec.row - 1) cmd = some p ∧ ∀ n id, p n cmd id = isOpen n.val.state
  prereq : ∀ p n id c, spec.prereq (spec.row - 1) cmd = some p → p n cmd id = some c →
    isPrecharge c = true → isOpen n.val.state = true ∧ (n.val.rowState id).isSome = false
  not_precharge : isPrecharge cmd = false

/-- The precharges have the scope of `pre`, at or above the row, and change nothing above. -/
structure PrechargeRules (spec : Spec C S) (isPrecharge : C → Bool) (pre : C) : Prop where
  scope_lt : spec.scope pre < spec.row
  scope : ∀ c, isPrecharge c = true → spec.scope c = spec.scope pre
  lambda : ∀ c, isPrecharge c = true → ∀ l < spec.scope pre, spec.lambda l c = none

namespace RowRules

open DRAM

variable {spec : Spec C S} {isOpen : S → Bool} {isPrecharge : C → Bool} {cmd : C}
  {id : Int} {t : DRAM C S} {addr : Nat → Int}

section

variable (rules : RowRules spec isOpen isPrecharge cmd) (h : WellShaped spec 0 id t)
include rules h

theorem checkRowHit_eq : t.checkRowHit spec cmd addr = t.rowIsOpen spec isOpen addr := by
  obtain ⟨p, hp, hval⟩ := rules.rowhit
  have hrow : spec.row - 1 + 1 = spec.row := Nat.sub_add_cancel rules.row_pos
  have hlevel : 0 + (spec.row - 1) = spec.row - 1 := Nat.zero_add _
  rw [checkRowHit_along h (k := spec.row - 1) (by rw [hlevel]; exact rules.rowhit_above)
    (by rw [hlevel]; exact hp), rowIsOpen, h.val_level, Nat.sub_zero, hlevel, hrow]
  simp only [hval]

theorem checkRowOpen_eq : t.checkRowOpen spec cmd addr =
      (t.along addr (spec.row - 1)).any fun n => isOpen n.val.state := by
  obtain ⟨p, hp, hval⟩ := rules.rowopen
  have hlevel : 0 + (spec.row - 1) = spec.row - 1 := Nat.zero_add _
  rw [checkRowOpen_along h (k := spec.row - 1) (by rw [hlevel]; exact rules.rowopen_above)
    (by rw [hlevel]; exact hp)]
  simp only [hval]

/-- `decode` answers with a precharge only where the queries say that another row is open. -/
theorem open_of_precharge (habove : ∀ k n c, t.along addr k = some n → k < spec.row - 1 →
      n.ruleAt spec cmd addr = some c → isPrecharge c = false)
    (hpre : isPrecharge (t.decode spec cmd addr) = true) :
    t.checkRowHit spec cmd addr = false ∧ t.checkRowOpen spec cmd addr = true := by
  rcases decode_along spec cmd addr t with hself | ⟨k, n, hn, hrule⟩
  · rw [hself, rules.not_precharge] at hpre
    cases hpre
  obtain ⟨id', hshape⟩ := h.along hn
  have hlevel : n.val.level = k := by
    rw [hshape.val_level]
    omega
  have hlt : 0 + k < spec.row := h.along_lt rules.row_pos hn
  have hk : k = spec.row - 1 := by
    by_contra hne
    rw [habove k n _ hn (by omega) hrule] at hpre
    cases hpre
  obtain ⟨p, hp, hval⟩ := Option.bind_eq_some_iff.mp hrule
  rw [hlevel, hk] at hp
  rw [hlevel, hk, Nat.sub_add_cancel rules.row_pos] at hval
  obtain ⟨hopen, hrow⟩ := rules.prereq p n _ _ hp hval hpre
  subst hk
  rw [rules.checkRowHit_eq h, rules.checkRowOpen_eq h, rowIsOpen, h.val_level, Nat.sub_zero, hn]
  exact ⟨by rw [Option.any_some, hopen, hrow]; rfl, by rw [Option.any_some, hopen]⟩

end

end RowRules

end Ramulator
