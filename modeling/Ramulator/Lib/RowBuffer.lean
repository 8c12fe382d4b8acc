/-
  Ramulator.Lib.RowBuffer

  The row-buffer protocol of a set of DRAM banks.

  A bank is closed or has one row open.  `State` gives each bank its open row,
  together with the number of accesses since the row was opened.  `Legal` says
  when a command may go to the banks and `step` what it does to them.  What a
  memory controller keeps about its banks, whatever the representation, is
  right if it follows `step` along legal commands.
-/

import Mathlib.Logic.Function.Basic

namespace RowBuffer

open Function

variable {B R : Type}

/-- The open row of each bank and the accesses since it was opened. -/
abbrev State (B R : Type) := B → Option (R × Nat)

/-- A command to the banks. -/
inductive Cmd (B R : Type) where
  | act (b : B) (r : R)
  | access (b : B) (r : R)
  | pre (b : B)
  | preAll
  | refresh

/-- When a command may be issued. -/
def Legal (s : State B R) : Cmd B R → Prop
  | .act b _ => s b = none
  | .access b r => ∃ n, s b = some (r, n)
  | .pre b => s b ≠ none
  | .preAll => ∃ b, s b ≠ none
  | .refresh => ∀ b, s b = none

variable [DecidableEq B]

/-- What a command does. -/
def step (s : State B R) : Cmd B R → State B R
  | .act b r => update s b (some (r, 0))
  | .access b _ => update s b ((s b).map fun e => (e.1, e.2 + 1))
  | .pre b => update s b none
  | .preAll => fun _ => none
  | .refresh => s

/-- The state after the commands `cs`, newest first, from closed banks. -/
def run : List (Cmd B R) → State B R
  | [] => fun _ => none
  | c :: cs => step (run cs) c

/-- Accesses to `b` since it was last activated. -/
def accessesSince : List (Cmd B R) → B → Nat
  | [], _ => 0
  | .act b' _ :: cs, b => if b' = b then 0 else accessesSince cs b
  | .access b' _ :: cs, b => if b' = b then accessesSince cs b + 1 else accessesSince cs b
  | .pre _ :: cs, b | .preAll :: cs, b | .refresh :: cs, b => accessesSince cs b

/-- The count kept with an open row is the count read off the commands. -/
theorem run_accesses {cs : List (Cmd B R)} {b : B} {r : R} {n : Nat}
    (h : run cs b = some (r, n)) : n = accessesSince cs b := by
  induction cs generalizing r n with
  | nil => cases h
  | cons c cs ih =>
    cases c with
    | act b' r' =>
      simp only [run, step] at h
      by_cases hb : b' = b
      · subst hb
        rw [update_self] at h
        cases h
        simp [accessesSince]
      · rw [update_of_ne (Ne.symm hb)] at h
        rw [accessesSince, if_neg hb]
        exact ih h
    | access b' r' =>
      simp only [run, step] at h
      by_cases hb : b' = b
      · subst hb
        rw [update_self, Option.map_eq_some_iff] at h
        obtain ⟨e, he, heq⟩ := h
        cases heq
        rw [accessesSince, if_pos rfl, ← ih he]
      · rw [update_of_ne (Ne.symm hb)] at h
        rw [accessesSince, if_neg hb]
        exact ih h
    | pre b' =>
      simp only [run, step] at h
      by_cases hb : b' = b
      · subst hb
        rw [update_self] at h
        cases h
      · rw [update_of_ne (Ne.symm hb)] at h
        exact ih h
    | preAll => cases h
    | refresh => exact ih h

end RowBuffer
