/-
  Ramulator.Lib.Slices

  Cutting a number into bit fields.

  `cut widths a` takes the fields of `a`, the lowest first, and `join` puts them
  together again.  Between the numbers below `2 ^ widths.sum` and the fields that
  fit into their widths the two are inverse to each other.
-/

import Mathlib.Algebra.BigOperators.Group.List.Basic
import Mathlib.Algebra.Ring.Nat

namespace Slices

open List

/-- The fields of `a` with the given widths, lowest first. -/
def cut : List Nat → Nat → List Nat
  | [], _ => []
  | w :: ws, a => a % 2 ^ w :: cut ws (a / 2 ^ w)

/-- The number with the given fields. -/
def join : List Nat → List Nat → Nat
  | w :: ws, d :: ds => d + 2 ^ w * join ws ds
  | _, _ => 0

/-- Every field fits into its width. -/
def Fit (ds ws : List Nat) : Prop := Forall₂ (fun d w => d < 2 ^ w) ds ws

theorem cut_fit (ws : List Nat) (a : Nat) : Fit (cut ws a) ws := by
  induction ws generalizing a with
  | nil => exact Forall₂.nil
  | cons w ws ih => exact Forall₂.cons (Nat.mod_lt _ (Nat.two_pow_pos w)) (ih _)

/-- The fields of a small number are all of it. -/
theorem join_cut {ws : List Nat} {a : Nat} (h : a < 2 ^ ws.sum) : join ws (cut ws a) = a := by
  induction ws generalizing a with
  | nil =>
    rw [sum_nil] at h
    simp only [join]
    omega
  | cons w ws ih =>
    have hrest : a / 2 ^ w < 2 ^ ws.sum := by
      rw [sum_cons, Nat.pow_add] at h
      exact Nat.div_lt_of_lt_mul h
    rw [cut, join, ih hrest]
    exact Nat.mod_add_div a (2 ^ w)

theorem join_lt {ds ws : List Nat} (h : Fit ds ws) : join ws ds < 2 ^ ws.sum := by
  induction h with
  | nil => exact Nat.one_pos
  | @cons d w ds ws hd _ ih =>
    rw [join, sum_cons, Nat.pow_add]
    calc d + 2 ^ w * join ws ds < 2 ^ w + 2 ^ w * join ws ds := Nat.add_lt_add_right hd _
      _ = 2 ^ w * (join ws ds + 1) := by rw [Nat.mul_succ, Nat.add_comm]
      _ ≤ 2 ^ w * 2 ^ ws.sum := Nat.mul_le_mul_left _ ih

theorem cut_join {ds ws : List Nat} (h : Fit ds ws) : cut ws (join ws ds) = ds := by
  induction h with
  | nil => rfl
  | @cons d w ds ws hd _ ih =>
    have hdiv : (d + 2 ^ w * join ws ds) / 2 ^ w = join ws ds := by
      rw [Nat.add_mul_div_left _ _ (Nat.two_pow_pos w), Nat.div_eq_of_lt hd, Nat.zero_add]
    rw [join, cut, hdiv, ih, Nat.add_mul_mod_self_left, Nat.mod_eq_of_lt hd]

theorem cut_inj {ws : List Nat} {a b : Nat} (ha : a < 2 ^ ws.sum) (hb : b < 2 ^ ws.sum)
    (h : cut ws a = cut ws b) : a = b := by
  rw [← join_cut ha, ← join_cut hb, h]

/-- Nothing is left of the first number that has too many bits. -/
theorem cut_two_pow_sum (ws : List Nat) : cut ws (2 ^ ws.sum) = cut ws 0 := by
  induction ws with
  | nil => rfl
  | cons w ws ih =>
    rw [cut, cut, sum_cons, Nat.pow_add, Nat.mul_mod_right,
      Nat.mul_div_cancel_left _ (Nat.two_pow_pos w), ih, Nat.zero_mod, Nat.zero_div]

end Slices
