/-
  Ramulator.Lib.Lists

  Facts about the ends of a list, as a queue needs them: what holds of its
  elements still holds after one more is put at the end, and what is known of a
  list whose head is known.
-/

import Mathlib.Data.List.Basic

namespace List

variable {α β : Type*} {P : α → Prop} {f : α → β} {x y : α} {xs ys : List α}

theorem forall_mem_concat (h : ∀ y ∈ xs, P y) (hx : P x) : ∀ y ∈ xs ++ [x], P y :=
  forall_mem_append.mpr ⟨h, forall_mem_singleton.mpr hx⟩

theorem mem_of_eq_cons (h : xs = x :: ys) : x ∈ xs := by
  rw [h]
  exact mem_cons_self

theorem mem_of_eq_cons_of_mem (h : xs = x :: ys) (hy : y ∈ ys) : y ∈ xs := by
  rw [h]
  exact mem_cons_of_mem _ hy

theorem exists_of_map_eq_cons {b : β} {bs : List β} (h : xs.map f = b :: bs) : ∃ x ∈ xs, f x = b :=
  mem_map.mp (mem_of_eq_cons h)

end List
