/-
  Ramulator.Lib.Bits

  Masking integers with powers of two.

  A mask of `k` low bits keeps the remainder modulo `2 ^ k`, and its complement
  keeps the rest, for negative integers too: both are read as two's complement
  with unbounded sign.
-/

import Mathlib.Data.Int.Bitwise
import Mathlib.Tactic.Ring

namespace Bits

theorem two_pow_succ_sub_one (k : Nat) : (2 : Int) ^ (k + 1) - 1 = Int.bit true (2 ^ k - 1) := by
  rw [Int.bit_val, pow_succ, cond_true]
  ring

theorem land_zero (x : Int) : Int.land x 0 = 0 := by
  cases x with
  | ofNat m =>
    show ((m &&& 0 : Nat) : Int) = 0
    rw [Nat.and_zero, Nat.cast_zero]
  | negSucc m =>
    show ((Nat.ldiff 0 m : Nat) : Int) = 0
    rw [Nat.cast_eq_zero]
    apply Nat.eq_of_testBit_eq
    intro i
    rw [Nat.testBit_ldiff, Nat.zero_testBit, Bool.false_and]

theorem land_neg_one (x : Int) : Int.land x (-1) = x := by
  cases x with
  | ofNat m =>
    show ((Nat.ldiff m 0 : Nat) : Int) = m
    congr 1
    apply Nat.eq_of_testBit_eq
    intro i
    rw [Nat.testBit_ldiff, Nat.zero_testBit, Bool.not_false, Bool.and_true]
  | negSucc m =>
    show Int.negSucc (m ||| 0) = _
    rw [Nat.or_zero]

/-- The low bits. -/
theorem land_two_pow_sub_one (x : Int) (k : Nat) : Int.land x (2 ^ k - 1) = x % 2 ^ k := by
  induction k generalizing x with
  | zero =>
    show Int.land x 0 = x % 1
    rw [land_zero, Int.emod_one]
  | succ k ih =>
    have hx := Int.bit_decomp x
    rw [two_pow_succ_sub_one]
    nth_rewrite 1 [← hx]
    rw [Int.land_bit, ih, Bool.and_true, Int.bit_val, Int.div2_val]
    have hodd : x % 2 = cond (Int.bodd x) 1 0 := by
      have hval := Int.bodd_add_div2 x
      rw [Int.div2_val] at hval
      omega
    rw [← hodd, pow_succ, mul_comm ((2 : Int) ^ k) 2]
    have h₁ := Int.mul_ediv_add_emod x (2 * 2 ^ k)
    have h₂ := Int.mul_ediv_add_emod (x / 2) (2 ^ k)
    have hdiv : x / 2 / 2 ^ k = x / (2 * 2 ^ k) := Int.ediv_ediv_of_nonneg (by omega)
    rw [hdiv] at h₂
    have hmul : 2 * (2 ^ k * (x / (2 * 2 ^ k))) = 2 * 2 ^ k * (x / (2 * 2 ^ k)) := by ring
    omega

/-- The other bits. -/
theorem land_lnot_two_pow_sub_one (x : Int) (k : Nat) :
    Int.land x (Int.lnot (2 ^ k - 1)) = 2 ^ k * (x / 2 ^ k) := by
  induction k generalizing x with
  | zero =>
    show Int.land x (-1) = 1 * (x / 1)
    rw [land_neg_one, Int.ediv_one, one_mul]
  | succ k ih =>
    have hx := Int.bit_decomp x
    rw [two_pow_succ_sub_one, Int.lnot_bit]
    nth_rewrite 1 [← hx]
    rw [Int.land_bit, ih, Bool.not_true, Bool.and_false, Int.bit_val, Int.div2_val]
    have hdiv : x / 2 / 2 ^ k = x / (2 * 2 ^ k) := Int.ediv_ediv_of_nonneg (by omega)
    rw [hdiv, cond_false, pow_succ, mul_comm ((2 : Int) ^ k) 2]
    ring

/-- Two integers agree above the low bits if and only if their quotients do. -/
theorem land_lnot_eq_iff (x y : Int) (k : Nat) :
    Int.land x (Int.lnot (2 ^ k - 1)) = Int.land y (Int.lnot (2 ^ k - 1)) ↔
      x / 2 ^ k = y / 2 ^ k := by
  rw [land_lnot_two_pow_sub_one, land_lnot_two_pow_sub_one]
  exact mul_right_inj' (pow_ne_zero k (by omega))

end Bits
