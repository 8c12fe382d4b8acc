/-
  Ramulator.Lib.Due

  A queue of things that come due.

  Time goes in steps of one, and in every step the head of the queue leaves if it
  is due.  If the due times in the queue are in order, and none has passed, every
  element leaves exactly when it is due (`OnTime.done_eq`); that is kept as long
  as what enters is due after everything that waits already (`OnTime.push`).
-/

import Mathlib.Algebra.Order.Ring.Int

namespace Due

open List

variable {α : Type} (due : α → Int) {q : List α} {clk : Int}

/-- What leaves the queue at time `clk`. -/
def done (clk : Int) : List α → List α
  | [] => []
  | a :: _ => if due a ≤ clk then [a] else []

/-- What is left of it then. -/
def rest (clk : Int) : List α → List α
  | [] => []
  | a :: q => if due a ≤ clk then q else a :: q

theorem rest_subset {due : α → Int} : rest due clk q ⊆ q := by
  cases q with
  | nil => exact List.Subset.refl _
  | cons a q =>
    rw [rest]
    split
    · exact subset_cons_self a q
    · exact List.Subset.refl _

/-- What is not due is left. -/
theorem mem_rest {due : α → Int} {a : α} (ha : a ∈ q) (hlater : clk < due a) :
    a ∈ rest due clk q := by
  cases q with
  | nil => exact ha
  | cons b q =>
    rw [rest]
    split
    · next hdue =>
      rcases mem_cons.mp ha with rfl | ha
      · omega
      · exact ha
    · exact ha

/-- The due times are in order, after `clk`, and at most `horizon`. -/
structure OnTime (clk horizon : Int) (q : List α) : Prop where
  sorted : q.Pairwise fun a b => due a < due b
  later : ∀ a ∈ q, clk < due a
  within : ∀ a ∈ q, due a ≤ horizon

namespace OnTime

variable {due} {clk horizon latency : Int} {q : List α} {a : α}

theorem nil (clk horizon : Int) : OnTime due clk horizon [] :=
  ⟨List.Pairwise.nil, fun _ h => absurd h not_mem_nil, fun _ h => absurd h not_mem_nil⟩

/-- One more element, due after the others. -/
theorem push (h : OnTime due clk horizon q) (hlater : clk < due a) (hafter : horizon < due a) :
    OnTime due clk (due a) (q ++ [a]) := by
  have hmem : ∀ b ∈ q ++ [a], b ∈ q ∨ b = a := fun b hb => by simpa using hb
  refine ⟨?_, ?_, ?_⟩
  · refine pairwise_append.mpr ⟨h.sorted, pairwise_singleton _ _, ?_⟩
    intro b hb a' ha'
    rw [mem_singleton.mp ha']
    exact lt_of_le_of_lt (h.within b hb) hafter
  · intro b hb
    rcases hmem b hb with hb | rfl
    · exact h.later b hb
    · exact hlater
  · intro b hb
    rcases hmem b hb with hb | rfl
    · exact le_of_lt (lt_of_le_of_lt (h.within b hb) hafter)
    · exact le_refl _

theorem weaken {horizon' : Int} (h : OnTime due clk horizon q) (hle : horizon ≤ horizon') :
    OnTime due clk horizon' q :=
  ⟨h.sorted, h.later, fun b hb => le_trans (h.within b hb) hle⟩

/-- One element that is due in the next step. -/
theorem alone (hdue : due a = clk + 1) (hlatency : 0 < latency) :
    OnTime due clk (clk + latency) [a] := by
  have hpush : OnTime due clk (due a) ([] ++ [a]) := (nil clk clk).push (by omega) (by omega)
  exact hpush.weaken (by omega)

/-- Exactly what is due leaves. -/
theorem done_eq (h : OnTime due clk horizon q) :
    done due (clk + 1) q = q.filter fun a => decide (due a = clk + 1) := by
  cases q with
  | nil => rfl
  | cons a q =>
    have hahead : ∀ b ∈ q, due a < due b := (pairwise_cons.mp h.sorted).1
    have hlater := h.later a mem_cons_self
    have hrest : clk + 1 ≤ due a → q.filter (fun a => decide (due a = clk + 1)) = [] := by
      intro hle
      refine filter_eq_nil_iff.mpr fun b hb => ?_
      have := hahead b hb
      simp only [decide_eq_true_eq]
      omega
    by_cases hdue : due a ≤ clk + 1
    · have heq : due a = clk + 1 := by omega
      rw [done, if_pos hdue, filter_cons_of_pos (by simpa using heq), hrest (by omega)]
    · have hne : ¬ due a = clk + 1 := by omega
      rw [done, if_neg hdue, filter_cons_of_neg (by simpa using hne), hrest (by omega)]

/-- What is left is not due. -/
theorem rest (h : OnTime due clk horizon q) :
    OnTime due (clk + 1) horizon (Due.rest due (clk + 1) q) := by
  cases q with
  | nil => exact nil _ _
  | cons a q =>
    obtain ⟨hahead, hsorted⟩ := pairwise_cons.mp h.sorted
    have hlater := h.later a mem_cons_self
    by_cases hdue : due a ≤ clk + 1
    · rw [Due.rest, if_pos hdue]
      refine ⟨hsorted, fun b hb => ?_, fun b hb => h.within b (mem_cons_of_mem _ hb)⟩
      have := hahead b hb
      omega
    · rw [Due.rest, if_neg hdue]
      refine ⟨h.sorted, fun b hb => ?_, h.within⟩
      rcases mem_cons.mp hb with rfl | hb
      · omega
      · have := hahead b hb
        omega

/-- A step: what is due leaves, and at most one element enters, due `latency` from
    now. -/
theorem step (h : OnTime due clk (clk + latency) q) (hlatency : 0 < latency) {q' : List α}
    (hq' : q' = Due.rest due (clk + 1) q ∨
      ∃ a, due a = clk + 1 + latency ∧ q' = Due.rest due (clk + 1) q ++ [a]) :
    OnTime due (clk + 1) (clk + 1 + latency) q' := by
  rcases hq' with rfl | ⟨a, hdue, rfl⟩
  · exact h.rest.weaken (by omega)
  · rw [← hdue]
    exact h.rest.push (by omega) (by omega)

end OnTime

end Due
