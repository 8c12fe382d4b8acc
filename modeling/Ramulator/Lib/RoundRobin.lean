/-
  Ramulator.Lib.RoundRobin

  Dealing in turn.

  When `n` things are dealt in turn to `k` places, place `j` has `share k n j`
  of them, and the next one goes to place `n % k`; `turns k n` are the places in
  the order they were served.
-/

import Mathlib.Order.Interval.Finset.Nat

namespace RoundRobin

open List

variable {k n j : Nat}

/-- What place `j` of `k` has after `n` turns. -/
def share (k n j : Nat) : Nat := n / k + if j < n % k then 1 else 0

theorem share_zero (k j : Nat) : share k 0 j = 0 := by
  simp [share]

/-- One more turn: place `n % k` gets one more. -/
theorem share_succ (hj : j < k) : share k (n + 1) j = share k n j + if j = n % k then 1 else 0 := by
  have hlt : n % k < k := Nat.mod_lt _ (by omega)
  have hsplit := Nat.div_add_mod n k
  unfold share
  by_cases hlast : n % k + 1 = k
  · -- a round is complete
    have hmod : (n + 1) % k = 0 := by
      rw [← Nat.mod_add_mod, hlast, Nat.mod_self]
    have hdiv : (n + 1) / k = n / k + 1 := by
      apply Nat.div_eq_of_lt_le
      · rw [Nat.succ_mul, Nat.mul_comm]
        omega
      · rw [Nat.succ_mul, Nat.succ_mul, Nat.mul_comm]
        omega
    rw [hmod, hdiv]
    split_ifs <;> omega
  · have hmod : (n + 1) % k = n % k + 1 := by
      rw [← Nat.mod_add_mod, Nat.mod_eq_of_lt (by omega)]
    have hdiv : (n + 1) / k = n / k := by
      apply Nat.div_eq_of_lt_le
      · rw [Nat.mul_comm]
        omega
      · rw [Nat.succ_mul, Nat.mul_comm]
        omega
    rw [hmod, hdiv]
    split_ifs <;> omega

/-- No place is more than one ahead of another. -/
theorem share_le_succ (k n i j : Nat) : share k n i ≤ share k n j + 1 := by
  unfold share
  split_ifs <;> omega

/-- The places that `n` turns served, in order. -/
def turns (k n : Nat) : List Nat := (List.range n).map (· % k)

theorem turns_succ (k n : Nat) : turns k (n + 1) = turns k n ++ [n % k] := by
  simp [turns, range_succ]

/-- `k` turns in a row serve every place once. -/
theorem turns_window {first window last : List Nat} (hturns : turns k n = first ++ window ++ last)
    (hlen : window.length = k) : window.Perm (List.range k) := by
  have hwindow : window = (List.range' first.length k).map (· % k) := by
    apply ext_getElem
    · simp [hlen]
    · intro i hi _
      have hget : (first ++ window ++ last)[first.length + i]? = some window[i] := by
        rw [append_assoc, getElem?_append_right (by omega), Nat.add_sub_cancel_left,
          getElem?_append_left hi, getElem?_eq_getElem hi]
      obtain ⟨hlt, hval⟩ := List.getElem?_eq_some_iff.mp (hturns ▸ hget)
      simpa [turns] using hval.symm
  have hmod := Nat.multiset_Ico_map_mod first.length k
  rw [Multiset.Ico, Nat.Ico_eq_range', Nat.add_sub_cancel_left] at hmod
  rw [hwindow]
  exact Multiset.coe_eq_coe.mp hmod

end RoundRobin
