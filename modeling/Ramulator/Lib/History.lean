/-
  Ramulator.Lib.History

  Bounded histories.

  A log keeps only the `n` most recent entries of a history, newest first, and
  starts out full of a filler.  `recent n fill xs` is what such a log holds
  once the entries `xs` (newest first) have been recorded: pushing an entry at
  the front and dropping the last one follows the history, and positions below
  `n` read the history itself.
-/

import Mathlib.Data.List.Basic
import Mathlib.Order.Basic

namespace History

open List

variable {α : Type} {xs : List α} {n i : Nat}

/-- The `n` most recent entries of `xs`, padded with `fill`. -/
def recent (n : Nat) (fill : α) (xs : List α) : List α :=
  (xs ++ replicate n fill).take n

@[simp] theorem recent_nil (n : Nat) (fill : α) : recent n fill [] = replicate n fill := by
  simp [recent]

@[simp] theorem recent_length (n : Nat) (fill : α) (xs : List α) :
    (recent n fill xs).length = n := by
  simp [recent]

theorem recent_eq_nil_iff {fill : α} : recent n fill xs = [] ↔ n = 0 := by
  rw [← length_eq_zero_iff, recent_length]

/-- Recording one more entry: push it in front, drop the oldest. -/
theorem recent_cons (hn : 0 < n) (fill x : α) (xs : List α) :
    recent n fill (x :: xs) = x :: (recent n fill xs).dropLast := by
  obtain ⟨m, rfl⟩ : ∃ m, n = m + 1 := ⟨n - 1, by omega⟩
  have hlen : m + 1 ≤ (xs ++ replicate (m + 1) fill).length := by
    simp only [length_append, length_replicate]
    omega
  have hdrop : (recent (m + 1) fill xs).dropLast = (xs ++ replicate (m + 1) fill).take m := by
    rw [recent, dropLast_eq_take, length_take, take_take]
    congr 1
    omega
  rw [hdrop, recent, cons_append, take_succ_cons]

/-- Inside the log, a read is a read of the history. -/
theorem recent_getD (hi : i < n) (fill : α) (xs : List α) :
    (recent n fill xs).getD i fill = xs.getD i fill := by
  rw [recent, getD_eq_getElem?_getD, getElem?_take_of_lt hi, getD_eq_getElem?_getD]
  by_cases h : i < xs.length
  · rw [getElem?_append_left h]
  · have hxs : xs.length ≤ i := by omega
    have hrep : i - xs.length < n := by omega
    rw [getElem?_append_right hxs, getElem?_replicate_of_lt hrep,
      getElem?_eq_none hxs]
    rfl

/-- In a history that is newest first and never runs backwards, the entry `i`
    places back can only grow when one more is recorded. -/
theorem getElem?_cons_ge [Preorder α] {x y : α} (hsorted : (x :: xs).Pairwise (fun a b => b ≤ a))
    (hy : xs[i]? = some y) : ∃ z, (x :: xs)[i]? = some z ∧ y ≤ z := by
  induction xs generalizing x i with
  | nil => simp at hy
  | cons x' xs ih =>
    cases i with
    | zero =>
      have hy' : x' = y := by simpa using hy
      subst hy'
      refine ⟨x, rfl, ?_⟩
      exact (pairwise_cons.mp hsorted).1 x' mem_cons_self
    | succ i =>
      exact ih (pairwise_cons.mp hsorted).2 hy

/-- Leaving entries out of such a history puts older ones in their places. -/
theorem getElem?_sublist_ge [Preorder α] {ys : List α} (hsub : ys.Sublist xs)
    (hsorted : xs.Pairwise (fun a b => b ≤ a)) {y : α} (hy : ys[i]? = some y) :
    ∃ x, xs[i]? = some x ∧ y ≤ x := by
  induction hsub generalizing i with
  | slnil => cases hy
  | cons x hsub ih =>
    obtain ⟨z, hz, hle⟩ := ih (pairwise_cons.mp hsorted).2 hy
    obtain ⟨w, hw, hle'⟩ := getElem?_cons_ge hsorted hz
    exact ⟨w, hw, le_trans hle hle'⟩
  | cons_cons x hsub ih =>
    cases i with
    | zero =>
      have hxy : x = y := by simpa using hy
      exact ⟨x, rfl, le_of_eq hxy.symm⟩
    | succ i => exact ih (pairwise_cons.mp hsorted).2 hy

end History
