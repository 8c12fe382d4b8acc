/-
  Ramulator.Lib.Custody

  Items that are handed from place to place.

  `count p a` is the number of copies of the item `a` at the place `p`.
  `Located count S` says that nothing is lost or doubled: an item of `S` is at
  exactly one place, once, and no other item is anywhere.  A system keeps this
  if every step is a `Transfer`, which takes items from one place to another,
  or brings in a new item (`Located.enter`).
-/

import Mathlib.Algebra.Order.BigOperators.Group.List
import Mathlib.Algebra.Order.Group.Nat
import Mathlib.Algebra.Ring.Nat
import Mathlib.Logic.Function.Basic
import Mathlib.Order.Basic

namespace Custody

open List Function

variable {P A : Type}

/-- Every item of `S` is at one place, once, and nothing else is anywhere. -/
structure Located (count : P → A → Nat) (S : A → Prop) : Prop where
  one : ∀ a, S a → ∃ p, count p a = 1 ∧ ∀ q, q ≠ p → count q a = 0
  none : ∀ a, ¬ S a → ∀ p, count p a = 0

/-- `moved a` copies of each item `a` go from `p` to `q`. -/
structure Transfer (count count' : P → A → Nat) (p q : P) (moved : A → Nat) : Prop where
  ne : p ≠ q
  source : ∀ a, count' p a + moved a = count p a
  target : ∀ a, count' q a = count q a + moved a
  frame : ∀ r, r ≠ p → r ≠ q → ∀ a, count' r a = count r a

variable {count count' : P → A → Nat} {S : A → Prop}

/-- A transfer changes what is at two places. -/
theorem Transfer.of_update [DecidableEq P] {p q : P} {moved x y : A → Nat} (hne : p ≠ q)
    (hx : ∀ a, x a + moved a = count p a) (hy : ∀ a, y a = count q a + moved a) :
    Transfer count (update (update count p x) q y) p q moved where
  ne := hne
  source a := by rw [update_of_ne hne, update_self, hx]
  target a := by rw [update_self, hy]
  frame r hp hq a := by rw [update_of_ne hq, update_of_ne hp]

section

variable (h : Located count S) {a : A}
include h

/-- What is somewhere belongs to `S`. -/
theorem Located.mem {p : P} (hpos : 0 < count p a) : S a := by
  by_contra hnot
  have := h.none a hnot p
  omega

/-- An item is at one place only, once. -/
theorem Located.unique {p q : P} (hp : 0 < count p a) (hq : 0 < count q a) :
    p = q ∧ count p a = 1 := by
  obtain ⟨r, hone, hzero⟩ := h.one a (h.mem hp)
  have hpr : p = r := by
    by_contra hne
    have := hzero p hne
    omega
  have hqr : q = r := by
    by_contra hne
    have := hzero q hne
    omega
  subst hpr
  exact ⟨hqr.symm, hone⟩

/-- A transfer loses nothing and doubles nothing. -/
theorem Located.transfer {p q : P} {moved : A → Nat} (ht : Transfer count count' p q moved) :
    Located count' S := by
  refine ⟨fun a ha => ?_, fun a ha => ?_⟩
  · obtain ⟨r, hone, hzero⟩ := h.one a ha
    have hsource := ht.source a
    have htarget := ht.target a
    by_cases hmoved : moved a = 0
    · -- nothing of `a` moves
      have hsame : ∀ r', count' r' a = count r' a := by
        intro r'
        by_cases hrp : r' = p
        · subst hrp
          omega
        · by_cases hrq : r' = q
          · subst hrq
            omega
          · exact ht.frame r' hrp hrq a
      refine ⟨r, by rw [hsame, hone], fun r' hne => ?_⟩
      rw [hsame]
      exact hzero r' hne
    · -- `a` was at `p`, and all of it moves
      have hrp : p = r := by
        by_contra hne
        have := hzero p hne
        omega
      subst hrp
      have hq := hzero q ht.ne.symm
      refine ⟨q, by omega, fun r' hne => ?_⟩
      by_cases hr'p : r' = p
      · subst hr'p
        omega
      · rw [ht.frame r' hr'p hne]
        exact hzero r' hr'p
  · intro r
    have hzero := h.none a ha
    have hsource := ht.source a
    have htarget := ht.target a
    have hp := hzero p
    have hq := hzero q
    by_cases hrp : r = p
    · subst hrp
      omega
    · by_cases hrq : r = q
      · subst hrq
        omega
      · rw [ht.frame r hrp hrq]
        exact hzero r

end

/-- A new item `x` comes in at `q`. -/
theorem Located.enter [DecidableEq A] {S' : A → Prop} (h : Located count S) {q : P} {x : A}
    (hx : ¬ S x) (hS' : ∀ a, S' a ↔ a = x ∨ S a)
    (htarget : ∀ a, count' q a = count q a + if a = x then 1 else 0)
    (hframe : ∀ r, r ≠ q → ∀ a, count' r a = count r a) : Located count' S' := by
  refine ⟨fun a ha => ?_, fun a ha => ?_⟩
  · by_cases hax : a = x
    · subst hax
      have hzero := h.none a hx
      refine ⟨q, by rw [htarget, hzero, if_pos rfl], fun r hne => ?_⟩
      rw [hframe r hne]
      exact hzero r
    · have hsame : ∀ r, count' r a = count r a := by
        intro r
        by_cases hr : r = q
        · subst hr
          rw [htarget, if_neg hax, Nat.add_zero]
        · exact hframe r hr a
      obtain ⟨r, hone, hzero⟩ := h.one a (((hS' a).mp ha).resolve_left hax)
      refine ⟨r, by rw [hsame, hone], fun r' hne => ?_⟩
      rw [hsame]
      exact hzero r' hne
  · intro r
    have hax : a ≠ x := fun heq => ha ((hS' a).mpr (Or.inl heq))
    have hzero := h.none a (fun hS => ha ((hS' a).mpr (Or.inr hS)))
    by_cases hr : r = q
    · subst hr
      rw [htarget, if_neg hax, hzero]
    · rw [hframe r hr, hzero]

/-- Places whose counts add up to one. -/
theorem exists_one_of_sum {f : P → Nat} {places : List P} (h : (places.map f).sum = 1) :
    ∃ p ∈ places, f p = 1 ∧ ∀ q ∈ places, q ≠ p → f q = 0 := by
  induction places with
  | nil => cases h
  | cons p places ih =>
    rw [map_cons, sum_cons] at h
    by_cases hp : f p = 0
    · obtain ⟨q, hq, hone, hzero⟩ := ih (by omega)
      exact ⟨q, mem_cons_of_mem _ hq, hone, forall_mem_cons.mpr ⟨fun _ => hp, hzero⟩⟩
    · have hsum : (places.map f).sum = 0 := by omega
      refine ⟨p, mem_cons_self, by omega, forall_mem_cons.mpr
        ⟨fun hne => absurd rfl hne, fun q hq _ => ?_⟩⟩
      exact sum_eq_zero_iff.mp hsum _ (mem_map_of_mem hq)

end Custody
