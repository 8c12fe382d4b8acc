/-
  Ramulator.Lib.HighWater

  Measuring a union of intervals with a high-water mark.

  Half-open intervals of integers come in the order of their ends.  A meter adds
  to its count what an interval has beyond the furthest end so far.  It never
  counts more than the union has (`count_le`), and it counts all of it exactly if
  no interval reaches back over points that no earlier one has (`count_eq_iff`);
  intervals that come in the order of their beginnings too do not.
-/

import Mathlib

namespace HighWater

open List

/-- The points of some of the intervals. -/
noncomputable def cover : List (Int × Int) → Finset Int
  | [] => ∅
  | i :: is => Finset.Ico i.1 i.2 ∪ cover is

variable {is : List (Int × Int)} {i : Int × Int}

theorem mem_cover {t : Int} : t ∈ cover is ↔ ∃ i ∈ is, i.1 ≤ t ∧ t < i.2 := by
  induction is with
  | nil => simp [cover]
  | cons i is ih => simp [cover, ih]

theorem cover_concat (is : List (Int × Int)) (i : Int × Int) :
    cover (is ++ [i]) = cover is ∪ Finset.Ico i.1 i.2 := by
  ext t
  simp [mem_cover, or_and_right, exists_or]

structure Meter where
  count : Int := 0
  mark : Int := 0

/-- What the interval has beyond the mark is counted. -/
def Meter.add (m : Meter) (i : Int × Int) : Meter :=
  if m.mark < i.2 then { count := m.count + (i.2 - max m.mark i.1), mark := i.2 } else m

/-- Where an interval reaches back behind an earlier end, an earlier interval has
    been. -/
def GapFree (is : List (Int × Int)) : Prop :=
  ∀ before i after, is = before ++ i :: after →
    ∀ t, i.1 ≤ t → (∃ j ∈ before, t < j.2) → t ∈ cover before

theorem gapFree_concat : GapFree (is ++ [i]) ↔
      GapFree is ∧ ∀ t, i.1 ≤ t → (∃ j ∈ is, t < j.2) → t ∈ cover is := by
  constructor
  · intro h
    refine ⟨fun before j after hsplit => h before j (after ++ [i]) ?_, h is i [] rfl⟩
    rw [hsplit, append_assoc, cons_append]
  · rintro ⟨hold, hnew⟩ before j after hsplit
    rcases eq_nil_or_concat after with rfl | ⟨after', k, rfl⟩
    · obtain ⟨rfl, hij⟩ := append_inj' hsplit rfl
      cases hij
      exact hnew
    · rw [concat_eq_append, ← cons_append, ← append_assoc] at hsplit
      obtain ⟨hsplit, -⟩ := append_inj' hsplit rfl
      exact hold before j after' hsplit

theorem GapFree.of_ordered (h : is.Pairwise fun i j => i.1 ≤ j.1) : GapFree is := by
  rintro before i after rfl t hi ⟨j, hj, ht⟩
  have hji : j.1 ≤ i.1 := (pairwise_append.mp h).2.2 j hj i mem_cons_self
  exact mem_cover.mpr ⟨j, hj, hji.trans hi, ht⟩

/-- What the meter knows after the intervals `is`. -/
structure Measured (is : List (Int × Int)) (m : Meter) : Prop where
  mark : ∀ t, 0 ≤ t → ((∃ i ∈ is, t < i.2) ↔ t < m.mark)
  count_le : m.count ≤ (cover is).card
  count_eq_iff : m.count = (cover is).card ↔ GapFree is

/-- The union with one more interval: what is beyond the mark, and what it reaches
    back over. -/
theorem card_cover_concat {m : Meter} (hmark : ∀ t ∈ cover is, t < m.mark) (hi : i.1 < i.2)
    (hle : m.mark ≤ i.2) : ((cover (is ++ [i])).card : Int) =
      (cover is).card + (i.2 - max m.mark i.1) + (Finset.Ico i.1 m.mark \ cover is).card := by
  have hsplit : Finset.Ico i.1 i.2 \ cover is =
      Finset.Ico (max m.mark i.1) i.2 ∪ (Finset.Ico i.1 m.mark \ cover is) := by
    ext t
    simp only [Finset.mem_sdiff, Finset.mem_Ico, Finset.mem_union, max_le_iff]
    constructor
    · rintro ⟨⟨hlow, hhigh⟩, hout⟩
      by_cases ht : t < m.mark
      · exact Or.inr ⟨⟨hlow, ht⟩, hout⟩
      · exact Or.inl ⟨⟨not_lt.mp ht, hlow⟩, hhigh⟩
    · rintro (⟨⟨hmark', hlow⟩, hhigh⟩ | ⟨⟨hlow, hhigh⟩, hout⟩)
      · exact ⟨⟨hlow, hhigh⟩, fun hin => absurd (hmark t hin) (not_lt.mpr hmark')⟩
      · exact ⟨⟨hlow, hhigh.trans_le hle⟩, hout⟩
  have hdisjoint : Disjoint (Finset.Ico (max m.mark i.1) i.2)
      (Finset.Ico i.1 m.mark \ cover is) := by
    refine Finset.disjoint_left.mpr fun t hright hleft => ?_
    have hge := (max_le_iff.mp (Finset.mem_Ico.mp hright).1).1
    have hlt := (Finset.mem_Ico.mp (Finset.mem_sdiff.mp hleft).1).2
    omega
  have hcard : (cover (is ++ [i])).card =
      (cover is).card + ((Finset.Ico (max m.mark i.1) i.2).card +
        (Finset.Ico i.1 m.mark \ cover is).card) := by
    rw [cover_concat, ← Finset.union_sdiff_self_eq_union, Finset.card_union_of_disjoint
      Finset.disjoint_sdiff, hsplit, Finset.card_union_of_disjoint hdisjoint]
  have hlength : ((Finset.Ico (max m.mark i.1) i.2).card : Int) = i.2 - max m.mark i.1 := by
    rw [Int.card_Ico, Int.toNat_of_nonneg]
    have := max_le hle hi.le
    omega
  rw [hcard]
  push_cast
  rw [hlength, add_assoc]

theorem Measured.nil : Measured [] {} where
  mark t ht := by
    constructor
    · rintro ⟨i, hi, -⟩
      cases hi
    · intro hlt
      exact absurd hlt (not_lt.mpr ht)
  count_le := le_refl 0
  count_eq_iff := by
    refine iff_of_true rfl fun before i after hsplit => ?_
    cases before <;> cases hsplit

/-- One more interval, whose end is not before the others'. -/
theorem Measured.concat {m : Meter} (h : Measured is m) (hnonneg : ∀ j ∈ is, 0 ≤ j.1)
    (hi : 0 ≤ i.1 ∧ i.1 < i.2) (hend : ∀ j ∈ is, j.2 ≤ i.2) : Measured (is ++ [i]) (m.add i) := by
  have hle : m.mark ≤ i.2 := by
    by_contra hlt
    obtain ⟨j, hj, hij⟩ := (h.mark i.2 (by omega)).mpr (not_le.mp hlt)
    have := hend j hj
    omega
  have hbelow : ∀ t ∈ cover is, t < m.mark := by
    intro t ht
    obtain ⟨j, hj, hlow, hhigh⟩ := mem_cover.mp ht
    exact (h.mark t ((hnonneg j hj).trans hlow)).mp ⟨j, hj, hhigh⟩
  have hcard := card_cover_concat hbelow hi.2 hle
  have hcount : (m.add i).count = m.count + (i.2 - max m.mark i.1) ∧ (m.add i).mark = i.2 := by
    unfold Meter.add
    split
    · exact ⟨rfl, rfl⟩
    · have heq : m.mark = i.2 := by omega
      have hmax : max m.mark i.1 = i.2 := by rw [heq, max_eq_left hi.2.le]
      rw [hmax, sub_self, add_zero]
      exact ⟨rfl, heq⟩
  have hgap : (Finset.Ico i.1 m.mark \ cover is).card = 0 ↔
      ∀ t, i.1 ≤ t → (∃ j ∈ is, t < j.2) → t ∈ cover is := by
    rw [Finset.card_eq_zero, Finset.sdiff_eq_empty_iff_subset]
    constructor
    · intro hsub t hlow hlt
      exact hsub (Finset.mem_Ico.mpr ⟨hlow, (h.mark t (hi.1.trans hlow)).mp hlt⟩)
    · intro hall t ht
      obtain ⟨hlow, hhigh⟩ := Finset.mem_Ico.mp ht
      exact hall t hlow ((h.mark t (hi.1.trans hlow)).mpr hhigh)
  have hcount_le := h.count_le
  refine ⟨fun t ht => ?_, ?_, ?_⟩
  · rw [hcount.2]
    constructor
    · rintro ⟨j, hj, hlt⟩
      rcases mem_append.mp hj with hj | hj
      · exact hlt.trans_le (hend j hj)
      · rw [mem_singleton.mp hj] at hlt
        exact hlt
    · exact fun hlt => ⟨i, mem_append_right _ (mem_singleton_self i), hlt⟩
  · rw [hcount.1, hcard]
    omega
  · rw [gapFree_concat, ← h.count_eq_iff, ← hgap, hcount.1, hcard]
    constructor
    · intro heq
      constructor <;> omega
    · rintro ⟨heq, hzero⟩
      rw [heq, hzero, Nat.cast_zero, add_zero]

/-- The meter after intervals in the order of their ends. -/
theorem measured (is : List (Int × Int)) (hproper : ∀ i ∈ is, 0 ≤ i.1 ∧ i.1 < i.2)
    (hends : is.Pairwise fun i j => i.2 ≤ j.2) : Measured is (is.foldl Meter.add {}) := by
  induction is using List.reverseRecOn with
  | nil => exact .nil
  | append_singleton is i ih =>
    obtain ⟨hinit, -, hlast⟩ := pairwise_append.mp hends
    rw [foldl_append]
    refine (ih (fun j hj => hproper j (mem_append_left _ hj)) hinit).concat ?_ ?_ ?_
    · exact fun j hj => (hproper j (mem_append_left _ hj)).1
    · exact hproper i (mem_append_right _ (mem_singleton_self i))
    · exact fun j hj => hlast j hj i (mem_singleton_self i)

end HighWater
