/-
  Ramulator.Lib.Tree

  Finitely branching trees with labelled nodes.

  A node stores its children as a function on `Fin arity`, so a recursion that
  picks one child and a recursion that visits all of them are both structural,
  and induction gives the hypothesis at every child.  From outside, children
  are read by index with `child?`.

  `NodeTree.Rel R t t'` says that `t'` has the shape of `t` and that `R`
  relates the labels node by node: with an equation of projections for `R` it
  is the frame condition "nothing but these fields changed".
-/

import Mathlib.Data.List.FinRange

universe u

/-- A tree: the label of the root, the number of its children, the children. -/
inductive NodeTree (α : Type u) : Type u where
  | node (val : α) (arity : Nat) (children : Fin arity → NodeTree α)

namespace NodeTree

open List

variable {α : Type u} {g : NodeTree α → NodeTree α} {c : NodeTree α} {path : List Nat} {k : Nat}

/-- The label at the root. -/
def val : NodeTree α → α
  | .node a _ _ => a

/-- The number of children of the root. -/
def arity : NodeTree α → Nat
  | .node _ k _ => k

/-- The `i`-th child of the root, if there is one. -/
def child? : NodeTree α → Nat → Option (NodeTree α)
  | .node _ k f, i => if h : i < k then some (f ⟨i, h⟩) else none

@[simp] theorem val_node (a : α) (k : Nat) (f : Fin k → NodeTree α) : (node a k f).val = a := rfl

@[simp] theorem arity_node (a : α) (k : Nat) (f : Fin k → NodeTree α) :
    (node a k f).arity = k := rfl

variable {i : Nat}

theorem child?_node_of_lt {a : α} {f : Fin k → NodeTree α} (h : i < k) :
    (node a k f).child? i = some (f ⟨i, h⟩) := dif_pos h

theorem child?_fin (a : α) (k : Nat) (f : Fin k → NodeTree α) (i : Fin k) :
    (node a k f).child? i = some (f i) := dif_pos i.isLt

theorem child?_eq_some_iff {a : α} {f : Fin k → NodeTree α} :
    (node a k f).child? i = some c ↔ ∃ h : i < k, f ⟨i, h⟩ = c := by
  by_cases h : i < k
  · rw [child?_node_of_lt h, Option.some.injEq]
    exact ⟨fun hc => ⟨h, hc⟩, fun ⟨_, hc⟩ => hc⟩
  · simp only [child?, dif_neg h]
    exact ⟨fun hc => (nomatch hc), fun ⟨h', _⟩ => absurd h' h⟩

variable {t : NodeTree α}

theorem exists_child?_of_lt (h : i < t.arity) : ∃ c, t.child? i = some c := by
  cases t with
  | node a k f => exact ⟨f ⟨i, h⟩, child?_node_of_lt h⟩

theorem lt_arity_of_child? (h : t.child? i = some c) : i < t.arity := by
  cases t with
  | node a k f => exact (child?_eq_some_iff.mp h).1

/-- Replace the label of the root. -/
def setVal (t : NodeTree α) (b : α) : NodeTree α :=
  match t with
  | .node _ k f => .node b k f

@[simp] theorem val_setVal (t : NodeTree α) (b : α) : (t.setVal b).val = b := by
  cases t; rfl

@[simp] theorem arity_setVal (t : NodeTree α) (b : α) : (t.setVal b).arity = t.arity := by
  cases t; rfl

@[simp] theorem child?_setVal (t : NodeTree α) (b : α) (i : Nat) :
    (t.setVal b).child? i = t.child? i := by
  cases t; rfl

/-- Apply a function to every child of the root. -/
def mapChildren (g : NodeTree α → NodeTree α) : NodeTree α → NodeTree α
  | .node a k f => .node a k (fun i => g (f i))

section

variable (g : NodeTree α → NodeTree α)

@[simp] theorem val_mapChildren (t : NodeTree α) : (t.mapChildren g).val = t.val := by
  cases t; rfl

@[simp] theorem arity_mapChildren (t : NodeTree α) : (t.mapChildren g).arity = t.arity := by
  cases t; rfl

@[simp] theorem child?_mapChildren (t : NodeTree α) (i : Nat) :
    (t.mapChildren g).child? i = (t.child? i).map g := by
  cases t with
  | node a k f =>
    by_cases h : i < k
    · simp only [mapChildren, child?, dif_pos h, Option.map_some]
    · simp only [mapChildren, child?, dif_neg h, Option.map_none]

end

/-- Apply a function to the `i`-th child of the root, if there is one. -/
def modifyChild (i : Nat) (g : NodeTree α → NodeTree α) : NodeTree α → NodeTree α
  | .node a k f => .node a k (fun j => if j.val = i then g (f j) else f j)

@[simp] theorem val_modifyChild (i : Nat) (g : NodeTree α → NodeTree α) (t : NodeTree α) :
    (t.modifyChild i g).val = t.val := by
  cases t; rfl

@[simp] theorem arity_modifyChild (i : Nat) (g : NodeTree α → NodeTree α) (t : NodeTree α) :
    (t.modifyChild i g).arity = t.arity := by
  cases t; rfl

theorem child?_modifyChild (i : Nat) (g : NodeTree α → NodeTree α) (t : NodeTree α) (j : Nat) :
    (t.modifyChild i g).child? j = if j = i then (t.child? j).map g else t.child? j := by
  cases t with
  | node a k f =>
    by_cases h : j < k
    · by_cases hj : j = i
      · simp [modifyChild, child?, hj]
      · simp [modifyChild, child?, h, hj]
    · simp [modifyChild, child?, h]

/-- Some child of the root satisfies `p`. -/
def anyChild (p : NodeTree α → Bool) : NodeTree α → Bool
  | .node _ k f => (List.finRange k).any (fun i => p (f i))

theorem anyChild_eq_true {p : NodeTree α → Bool} :
    t.anyChild p = true ↔ ∃ i c, t.child? i = some c ∧ p c = true := by
  cases t with
  | node a k f =>
    simp only [anyChild, any_eq_true, mem_finRange, true_and]
    constructor
    · rintro ⟨i, hi⟩
      exact ⟨i, f i, child?_fin a k f i, hi⟩
    · rintro ⟨i, c, hc, hp⟩
      obtain ⟨hi, rfl⟩ := child?_eq_some_iff.mp hc
      exact ⟨⟨i, hi⟩, hp⟩

/-- `t'` has the shape of `t`, with labels related by `R` node by node. -/
def Rel (R : α → α → Prop) : NodeTree α → NodeTree α → Prop
  | .node a k f, t' => R a t'.val ∧ t'.arity = k ∧
      ∀ i : Fin k, ∃ c', t'.child? i = some c' ∧ Rel R (f i) c'

variable {R : α → α → Prop} {t' : NodeTree α}

theorem Rel.val (h : Rel R t t') : R t.val t'.val := by
  cases t with
  | node a k f => exact h.1

theorem Rel.arity (h : Rel R t t') : t'.arity = t.arity := by
  cases t with
  | node a k f => exact h.2.1

theorem Rel.child (h : Rel R t t') (hc : t.child? i = some c) :
    ∃ c', t'.child? i = some c' ∧ Rel R c c' := by
  cases t with
  | node a k f =>
    obtain ⟨hi, rfl⟩ := child?_eq_some_iff.mp hc
    exact h.2.2 ⟨i, hi⟩

/-- The children of the related tree come from the children of the first one. -/
theorem Rel.child_inv {c' : NodeTree α} (h : Rel R t t') (hc' : t'.child? i = some c') :
    ∃ c, t.child? i = some c ∧ Rel R c c' := by
  have hi : i < t.arity := by
    rw [← h.arity]
    exact lt_arity_of_child? hc'
  obtain ⟨c, hc⟩ := exists_child?_of_lt hi
  obtain ⟨c'', hc'', hrel⟩ := h.child hc
  rw [hc', Option.some.injEq] at hc''
  subst hc''
  exact ⟨c, hc, hrel⟩

/-- Assemble `Rel` from the root and the children. -/
theorem Rel.intro (hval : R t.val t'.val) (harity : t'.arity = t.arity)
    (hchild : ∀ i c, t.child? i = some c → ∃ c', t'.child? i = some c' ∧ Rel R c c') :
    Rel R t t' := by
  cases t with
  | node a k f => exact ⟨hval, harity, fun i => hchild i _ (child?_fin a k f i)⟩

theorem Rel.refl (hR : ∀ a, R a a) (t : NodeTree α) : Rel R t t := by
  induction t with
  | node a k f ih => exact ⟨hR a, rfl, fun i => ⟨f i, child?_fin a k f i, ih i⟩⟩

theorem Rel.trans (hR : ∀ a b c, R a b → R b c → R a c) {t₁ t₂ t₃ : NodeTree α}
    (h₁₂ : Rel R t₁ t₂) (h₂₃ : Rel R t₂ t₃) : Rel R t₁ t₃ := by
  induction t₁ generalizing t₂ t₃ with
  | node a k f ih =>
    refine ⟨hR _ _ _ h₁₂.val h₂₃.val, ?_, ?_⟩
    · rw [h₂₃.arity, h₁₂.arity, arity_node]
    · intro i
      obtain ⟨c₂, hc₂, hr₂⟩ := h₁₂.child (child?_fin a k f i)
      obtain ⟨c₃, hc₃, hr₃⟩ := h₂₃.child hc₂
      exact ⟨c₃, hc₃, ih i hr₂ hr₃⟩

theorem Rel.symm (hR : ∀ a b, R a b → R b a) (h : Rel R t t') : Rel R t' t := by
  induction t generalizing t' with
  | node a k f ih =>
    refine Rel.intro (hR _ _ h.val) h.arity.symm ?_
    intro i c' hc'
    obtain ⟨c, hc, hrel⟩ := h.child_inv hc'
    obtain ⟨hi, rfl⟩ := child?_eq_some_iff.mp hc
    exact ⟨_, hc, ih ⟨i, hi⟩ hrel⟩

theorem Rel.mono {R' : α → α → Prop} (hR : ∀ a b, R a b → R' a b) (h : Rel R t t') :
    Rel R' t t' := by
  induction t generalizing t' with
  | node a k f ih =>
    refine ⟨hR _ _ h.val, h.arity, ?_⟩
    intro i
    obtain ⟨c', hc', hr⟩ := h.child (child?_fin a k f i)
    exact ⟨c', hc', ih i hr⟩

/-- Changing only the root label. -/
theorem Rel.setVal (hR : ∀ a, R a a) {b : α} (h : R t.val b) : Rel R t (t.setVal b) := by
  refine Rel.intro (by simpa using h) (by simp) ?_
  intro i c hc
  exact ⟨c, by simpa using hc, Rel.refl hR c⟩

/-- Induction over two related trees. -/
@[elab_as_elim]
theorem Rel.induction {motive : (t t' : NodeTree α) → Rel R t t' → Prop}
    (node : ∀ a a' k (f f' : Fin k → NodeTree α) (h : Rel R (.node a k f) (.node a' k f'))
      (hchild : ∀ i, Rel R (f i) (f' i)), (∀ i, motive (f i) (f' i) (hchild i)) → motive _ _ h)
    (h : Rel R t t') : motive t t' h := by
  induction t generalizing t' with
  | node a k f ih =>
    obtain ⟨a', k', f'⟩ := t'
    obtain rfl : k' = k := h.arity
    have hchild : ∀ i, Rel R (f i) (f' i) := by
      intro i
      obtain ⟨c', hc', hrel⟩ := h.child (child?_fin a k' f i)
      rw [child?_fin, Option.some.injEq] at hc'
      exact hc' ▸ hrel
    exact node a a' k' f f' h hchild fun i => ih i (hchild i)

/-- Changing one child. -/
theorem Rel.modifyChild (hR : ∀ a, R a a) (h : ∀ c, t.child? i = some c → Rel R c (g c)) :
    Rel R t (t.modifyChild i g) := by
  refine Rel.intro (by simpa using hR _) (by simp) ?_
  intro j c hc
  rw [child?_modifyChild]
  by_cases hj : j = i
  · subst hj
    rw [if_pos rfl, hc]
    exact ⟨g c, rfl, h c hc⟩
  · rw [if_neg hj]
    exact ⟨c, hc, Rel.refl hR c⟩

/-- Changing every child. -/
theorem Rel.mapChildren (hR : ∀ a, R a a) (h : ∀ i c, t.child? i = some c → Rel R c (g c)) :
    Rel R t (t.mapChildren g) := by
  refine Rel.intro (by simpa using hR _) (by simp) ?_
  intro j c hc
  exact ⟨g c, by simp [hc], h j c hc⟩

/-! ## Paths -/

/-- The subtree at the end of a path of child indices. -/
def at? : NodeTree α → List Nat → Option (NodeTree α)
  | t, [] => some t
  | t, i :: path => (t.child? i).bind fun c => c.at? path

theorem at?_cons_eq_some {n : NodeTree α} :
    t.at? (i :: path) = some n ↔ ∃ c, t.child? i = some c ∧ c.at? path = some n :=
  Option.bind_eq_some_iff

/-- The subtrees of the related tree come from the subtrees of the first one. -/
theorem Rel.at?_inv {n' : NodeTree α} (h : Rel R t t') (hn' : t'.at? path = some n') :
    ∃ n, t.at? path = some n ∧ Rel R n n' := by
  induction path generalizing t t' with
  | nil =>
    cases hn'
    exact ⟨t, rfl, h⟩
  | cons i path ih =>
    obtain ⟨c', hc', hat'⟩ := at?_cons_eq_some.mp hn'
    obtain ⟨c, hc, hrel⟩ := h.child_inv hc'
    obtain ⟨n, hat, hn⟩ := ih hrel hat'
    exact ⟨n, at?_cons_eq_some.mpr ⟨c, hc, hat⟩, hn⟩

end NodeTree
