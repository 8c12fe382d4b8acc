/-
  Ramulator.Lib.Keyed

  Lists whose elements have distinct keys.

  A list that is searched by a key (`find?`, `eraseP`) behaves like a finite
  map as long as no key occurs twice: the search has one result, and erasing
  takes out what has the key and nothing else.
-/

import Mathlib.Data.List.Nodup

namespace Keyed

open List

variable {α κ : Type} {key : α → κ} {xs : List α}

/-- `eraseP` takes out the element with the key. -/
theorem mem_eraseP_iff [DecidableEq κ] (h : (xs.map key).Nodup) {k : κ} {x : α} :
    x ∈ xs.eraseP (fun y => decide (key y = k)) ↔ x ∈ xs ∧ key x ≠ k := by
  induction xs with
  | nil => simp
  | cons y ys ih =>
    obtain ⟨hy, hys⟩ := nodup_cons.mp h
    by_cases hkey : key y = k
    · rw [eraseP_cons_of_pos (p := fun y => decide (key y = k)) (decide_eq_true hkey)]
      constructor
      · intro hx
        refine ⟨mem_cons_of_mem _ hx, fun heq => hy ?_⟩
        rw [hkey, ← heq]
        exact mem_map_of_mem hx
      · rintro ⟨hx, hne⟩
        rcases mem_cons.mp hx with rfl | hx
        · exact absurd hkey hne
        · exact hx
    · rw [eraseP_cons_of_neg (by simpa using hkey), mem_cons, ih hys, mem_cons]
      constructor
      · rintro (rfl | ⟨hx, hne⟩)
        · exact ⟨Or.inl rfl, hkey⟩
        · exact ⟨Or.inr hx, hne⟩
      · rintro ⟨rfl | hx, hne⟩
        · exact Or.inl rfl
        · exact Or.inr ⟨hx, hne⟩

/-- What is left has distinct keys. -/
theorem nodup_eraseP {κ' : Type} {key' : α → κ'} (h : (xs.map key').Nodup) (p : α → Bool) :
    ((xs.eraseP p).map key').Nodup :=
  (eraseP_sublist.map key').nodup h

/-- One element more, with a key of its own. -/
theorem nodup_append_singleton (h : (xs.map key).Nodup) {x : α} (hx : ∀ y ∈ xs, key y ≠ key x) :
    ((xs ++ [x]).map key).Nodup := by
  rw [map_append, nodup_append]
  refine ⟨h, nodup_singleton _, ?_⟩
  intro a ha b hb
  obtain ⟨y, hy, rfl⟩ := mem_map.mp ha
  rw [map_singleton, mem_singleton] at hb
  rw [hb]
  exact hx y hy

end Keyed
