/-
  Ramulator.Stats.Histogram

  The histogram of the statistics package (`Histogram` of StatType.h,
  StatType.cpp), with integers for its counters.

  The buckets cover an interval that starts at zero, or, after the first negative
  value, one around zero.  `sample` first grows the interval until it holds the
  value: a growth doubles the width of a bucket and adds up the buckets in pairs,
  in place, so that one half of `cvec` becomes free.

  With an odd number of buckets `grow_convert` has one bucket without a partner,
  the first, and loses what it held.  With an even number no growth loses
  anything.
-/

import Mathlib.Algebra.BigOperators.Group.List.Basic
import Mathlib.Tactic.Ring
import Mathlib.Tactic.Linarith
import Ramulator.Lib.Outcome

namespace Ramulator

open Outcome List

namespace Stats

/-- The assertions, and a loop that does not end. -/
inductive Failure where
  | range
  | lowPair
  | highPair
  | pair
  | index
  | loops
deriving DecidableEq, Repr

/-- `Histogram`.  `param_buckets` is the length of `cvec`; the sum of logarithms
    is left out. -/
structure Histogram where
  minBucket : Int := 0
  maxBucket : Int
  bucketSize : Int := 1
  sum : Int := 0
  squares : Int := 0
  samples : Int := 0
  cvec : List Int
deriving DecidableEq, Repr

namespace Histogram

def init (buckets : Nat) : Histogram :=
  { maxBucket := buckets - 1, cvec := replicate buckets 0 }

/-! ## Growth -/

/-- `cvec[i] = cvec[pair]`, and the bucket at `next` is added if it is there. -/
def merge (cvec : List Int) (i : Nat) (pair next : Int) (there : Bool) : List Int :=
  let cvec := cvec.set i (cvec.getD pair.toNat 0)
  if there then cvec.set i (cvec.getD i 0 + cvec.getD next.toNat 0) else cvec

/-- A round of a loop that adds up pairs from below. -/
def mergeUp (st : List Int × Int) (i : Nat) : List Int × Int :=
  (merge st.1 i st.2 (st.2 + 1) (st.2 + 1 < st.1.length), st.2 + 2)

/-- A round of a loop that adds up pairs from above. -/
def mergeDown (st : List Int × Int) (i : Nat) : List Int × Int :=
  (merge st.1 i st.2 (st.2 - 1) (0 ≤ st.2 - 1), st.2 - 2)

def clearBelow (cvec : List Int) (k : Nat) : List Int := replicate k 0 ++ cvec.drop k

def clearFrom (cvec : List Int) (k : Nat) : List Int :=
  cvec.take k ++ replicate (cvec.length - k) 0

def growOut (h : Histogram) : Except Failure Histogram :=
  let size := h.cvec.length
  let zeroAt := size / 2
  let topHalf := zeroAt + (size - zeroAt + 1) / 2
  let bottomHalf := (size - zeroAt) / 2
  let low := (List.range' bottomHalf (zeroAt - bottomHalf)).reverse.foldl mergeDown
    (h.cvec, (zeroAt : Int) - 1)
  if low.2 = 0 ∨ low.2 = -1 ∨ low.2 = -2 then
    let high := (List.range' zeroAt (topHalf - zeroAt)).foldl mergeUp
      (clearBelow low.1 bottomHalf, zeroAt)
    if high.2 = size ∨ high.2 = size + 1 then
      .ok { h with
        cvec := clearFrom high.1 topHalf
        maxBucket := 2 * h.maxBucket
        minBucket := 2 * h.minBucket
        bucketSize := 2 * h.bucketSize }
    else .error .highPair
  else .error .lowPair

def growConvert (h : Histogram) : Histogram :=
  let size := h.cvec.length
  let half := (size + 1) / 2
  let merged := (List.range' half (size - half)).reverse.foldl mergeDown (h.cvec, (size : Int) - 1)
  { h with
    cvec := clearBelow merged.1 half
    minBucket := -h.maxBucket
    bucketSize := 2 * h.bucketSize }

def growUp (h : Histogram) : Except Failure Histogram :=
  let size := h.cvec.length
  let half := (size + 1) / 2
  let merged := (List.range' 0 half).foldl mergeUp (h.cvec, 0)
  if merged.2 = size ∨ merged.2 = size + 1 then
    .ok { h with
      cvec := clearFrom merged.1 half
      maxBucket := 2 * h.maxBucket
      bucketSize := 2 * h.bucketSize }
  else .error .pair

/-- `while (more) grow();`, for at most `fuel` rounds. -/
def growWhile (more : Histogram → Bool) (grow : Histogram → Except Failure Histogram) :
    Nat → Histogram → Except Failure Histogram
  | 0, h => if more h then .error .loops else .ok h
  | fuel + 1, h => if more h then grow h >>= growWhile more grow fuel else .ok h

/-- The first part of `sample`: the interval grows until it holds the value. -/
def growTo (h : Histogram) (val : Int) : Except Failure Histogram :=
  if val < h.minBucket then
    growWhile (fun h => val < h.minBucket) growOut val.natAbs
      (if h.minBucket = 0 then h.growConvert else h)
  else if h.maxBucket + h.bucketSize ≤ val then
    growWhile (fun h => h.maxBucket + h.bucketSize ≤ val)
      (if h.minBucket = 0 then growUp else growOut) val.natAbs h
  else .ok h

/-- The last part of `sample`. -/
def counted (h : Histogram) (val number : Int) : Histogram :=
  let index := ((val - h.minBucket) / h.bucketSize).toNat
  { h with
    cvec := h.cvec.set index (h.cvec.getD index 0 + number)
    sum := h.sum + val * number
    squares := h.squares + val * val * number
    samples := h.samples + number }

def sample (h : Histogram) (val number : Int) : Except Failure Histogram := do
  if h.minBucket < h.maxBucket then
    let h ← h.growTo val
    let index := (val - h.minBucket) / h.bucketSize
    if 0 ≤ index ∧ index < h.cvec.length then .ok (h.counted val number) else .error .index
  else .error .range

def run (buckets : Nat) (calls : List (Int × Int)) : Except Failure Histogram :=
  calls.foldlM (fun h call => h.sample call.1 call.2) (init buckets)

/-! ## Sums of buckets -/

variable {n i k : Nat} {l : List Int} {h : Histogram} {more : Histogram → Bool} {pair : Int}

theorem sum_take_succ (l : List Int) (i : Nat) :
    (l.take (i + 1)).sum = (l.take i).sum + l.getD i 0 := by
  rw [take_add_one, sum_append, getD_eq_getElem?_getD]
  cases l[i]? <;> simp

theorem sum_drop (l : List Int) (i : Nat) : (l.drop i).sum = l.getD i 0 + (l.drop (i + 1)).sum := by
  have hone := l.sum_take_add_sum_drop i
  have htwo := l.sum_take_add_sum_drop (i + 1)
  rw [sum_take_succ] at htwo
  omega

theorem sum_take_set (v : Int) (hi : i < l.length) :
    ((l.set i v).take (i + 1)).sum = (l.take i).sum + v := by
  rw [sum_take_succ, take_set_of_le (Nat.le_refl i)]
  simp [hi]

theorem sum_drop_set (v : Int) (hi : i < l.length) :
    ((l.set i v).drop i).sum = v + (l.drop (i + 1)).sum := by
  rw [sum_drop, drop_set_of_lt (Nat.lt_succ_self i)]
  simp [hi]

/-- The bucket that is added is not the one that is written. -/
theorem merge_eq {next : Int} {there : Bool} (hi : i < l.length) (hnext : next.toNat ≠ i) :
    merge l i pair next there =
      l.set i (l.getD pair.toNat 0 + if there then l.getD next.toNat 0 else 0) := by
  cases there
  · simp [merge]
  · simp [merge, getD_eq_getElem?_getD, getElem?_set_ne hnext.symm, hi]

theorem mergeUp_eq {pair : Nat} (hi : i < l.length) (hle : i ≤ pair) : mergeUp (l, pair) i =
      (l.set i ((l.drop pair).sum - (l.drop (pair + 2)).sum), ((pair + 2 : Nat) : Int)) := by
  refine Prod.ext ((merge_eq hi (by omega)).trans ?_) rfl
  have hnext : (if decide ((pair : Int) + 1 < l.length) then l.getD ((pair : Int) + 1).toNat 0
      else 0) = l.getD (pair + 1) 0 := by
    by_cases h : pair + 1 < l.length
    · simp [show (pair : Int) + 1 < l.length by omega]
    · simp [show ¬ (pair : Int) + 1 < l.length by omega, Nat.le_of_not_lt h]
  rw [hnext, sum_drop l pair, sum_drop l (pair + 1), Int.toNat_natCast, ← add_assoc,
    add_sub_cancel_right]

theorem foldl_mergeUp (count : Nat) (l : List Int) {first pair : Nat} (hfirst : first ≤ pair)
    (hcount : first + count ≤ l.length) :
    ∃ cvec, (List.range' first count).foldl mergeUp (l, (pair : Int)) =
        (cvec, ((pair + 2 * count : Nat) : Int)) ∧ cvec.length = l.length ∧
      (cvec.take (first + count)).sum + (l.drop (pair + 2 * count)).sum =
        (l.take first).sum + (l.drop pair).sum := by
  induction count generalizing l first pair with
  | zero => exact ⟨l, rfl, rfl, rfl⟩
  | succ count ih =>
    have hlt : first < l.length := by omega
    rw [List.range'_succ, foldl_cons, mergeUp_eq hlt hfirst]
    generalize hv : (l.drop pair).sum - (l.drop (pair + 2)).sum = v
    obtain ⟨cvec, hfold, hlength, hsum⟩ := ih (l.set first v)
      (show first + 1 ≤ pair + 2 by omega) (by simp; omega)
    rw [sum_take_set v hlt, drop_set_of_lt (by omega), drop_set_of_lt (by omega),
      show pair + 2 + 2 * count = pair + 2 * (count + 1) by omega, add_right_comm] at hsum
    refine ⟨cvec, hfold.trans ?_, hlength.trans (length_set ..), ?_⟩
    · rw [show pair + 2 + 2 * count = pair + 2 * (count + 1) by omega]
    · rw [← add_assoc first]
      omega

theorem mergeDown_eq (hi : i < l.length) (hpair : 0 ≤ pair) (hle : pair ≤ i) :
    mergeDown (l, pair) i =
      (l.set i ((l.take (pair + 1).toNat).sum - (l.take (pair - 1).toNat).sum), pair - 2) := by
  obtain ⟨p, rfl⟩ := Int.eq_ofNat_of_zero_le hpair
  cases p with
  | zero => simp [mergeDown, merge, sum_take_succ l 0]
  | succ p =>
    refine Prod.ext ((merge_eq hi (by omega)).trans ?_) rfl
    rw [show ((p + 1 : Nat) + 1 : Int).toNat = p + 2 by omega,
      show ((p + 1 : Nat) - 1 : Int).toNat = p by omega, sum_take_succ, sum_take_succ]
    have hback : ((l.take p).sum + l.getD p 0 + l.getD (p + 1) 0) - (l.take p).sum =
        l.getD (p + 1) 0 + l.getD p 0 := by ring
    rw [hback, if_pos (by simp)]
    rfl

/-- The pairs up to `pair` go to the buckets below `last + count`; what is left
    over is lost. -/
theorem foldl_mergeDown (count : Nat) (l : List Int) {last : Nat} (hpair : pair < last + count)
    (hcount : last + count ≤ l.length) (hpairs : 2 * count ≤ pair + 2) :
    ∃ cvec, (List.range' last count).reverse.foldl mergeDown (l, pair) = (cvec, pair - 2 * count) ∧
      cvec.length = l.length ∧ (l.take (pair + 1 - 2 * count).toNat).sum + (cvec.drop last).sum =
        (l.take (pair + 1).toNat).sum + (l.drop (last + count)).sum := by
  induction count generalizing l pair with
  | zero => exact ⟨l, by simp⟩
  | succ count ih =>
    have hlt : last + count < l.length := by omega
    rw [List.range'_concat, reverse_append, foldl_append, reverse_singleton,
      foldl_cons, foldl_nil, one_mul, mergeDown_eq hlt (by omega) (by omega)]
    generalize hv : (l.take (pair + 1).toNat).sum - (l.take (pair - 1).toNat).sum = v
    obtain ⟨cvec, hfold, hlength, hsum⟩ := ih (l.set (last + count) v)
      (show pair - 2 < last + count by omega) (by simp; omega) (by omega)
    rw [take_set_of_le (by omega), take_set_of_le (by omega), sum_drop_set v hlt,
      show pair - 2 + 1 - 2 * (count : Int) = pair + 1 - 2 * (count + 1 : Nat) by omega,
      show pair - 2 + 1 = pair - 1 by omega] at hsum
    refine ⟨cvec, hfold.trans ?_, hlength.trans (length_set ..), ?_⟩
    · rw [show pair - 2 - 2 * (count : Int) = pair - 2 * (count + 1 : Nat) by omega]
    · rw [← add_assoc last]
      omega

/-! ## What a growth keeps -/

theorem length_clearBelow (hk : k ≤ l.length) : (clearBelow l k).length = l.length := by
  simp [clearBelow, hk]

theorem length_clearFrom (hk : k ≤ l.length) : (clearFrom l k).length = l.length := by
  simp [clearFrom, hk]

theorem sum_clearBelow (l : List Int) (k : Nat) : (clearBelow l k).sum = (l.drop k).sum := by
  simp [clearBelow]

theorem sum_clearFrom (l : List Int) (k : Nat) : (clearFrom l k).sum = (l.take k).sum := by
  simp [clearFrom]

/-- `grow_up` and `grow_out` alike: the interval is scaled by two. -/
def scaled (h : Histogram) (cvec : List Int) : Histogram :=
  { h with
    cvec
    maxBucket := 2 * h.maxBucket
    minBucket := 2 * h.minBucket
    bucketSize := 2 * h.bucketSize }

theorem growUp_ok (h : Histogram) (hmin : h.minBucket = 0) :
    ∃ cvec, h.growUp = .ok (h.scaled cvec) ∧ cvec.length = h.cvec.length ∧
      cvec.sum = h.cvec.sum := by
  obtain ⟨cvec, hfold, hlength, hsum⟩ := foldl_mergeUp ((h.cvec.length + 1) / 2) h.cvec
    (Nat.le_refl 0) (by omega)
  refine ⟨clearFrom cvec ((h.cvec.length + 1) / 2), ?_, ?_, ?_⟩
  · unfold growUp
    rw [show ((0 : Int)) = ((0 : Nat) : Int) from rfl]
    simp only [hfold]
    rw [if_pos (by omega)]
    simp [scaled, hmin]
  · rw [length_clearFrom (by omega), hlength]
  · rw [sum_clearFrom]
    rw [drop_eq_nil_of_le (by omega)] at hsum
    simpa using hsum

/-- With an odd number of buckets the first is lost. -/
theorem growConvert_cvec (h : Histogram) : h.growConvert.cvec.length = h.cvec.length ∧
    (h.cvec.take (h.cvec.length % 2)).sum + h.growConvert.cvec.sum = h.cvec.sum := by
  generalize hn : h.cvec.length = n
  obtain ⟨cvec, hfold, hlength, hsum⟩ := foldl_mergeDown (n - (n + 1) / 2) h.cvec
    (show (n : Int) - 1 < ((n + 1) / 2 : Nat) + (n - (n + 1) / 2 : Nat) by omega) (by omega)
    (by omega)
  have hcvec : h.growConvert.cvec = clearBelow cvec ((n + 1) / 2) := by
    simp only [growConvert, hn, hfold]
  rw [hcvec, length_clearBelow (by omega), hlength, sum_clearBelow]
  refine ⟨hn, ?_⟩
  rw [show ((n : Int) - 1 + 1 - 2 * (n - (n + 1) / 2 : Nat)).toNat = n % 2 by omega,
    show ((n : Int) - 1 + 1).toNat = (n + 1) / 2 + (n - (n + 1) / 2) by omega,
    sum_take_add_sum_drop] at hsum
  exact hsum

/-- The buckets below the middle and those above it are added up apart. -/
theorem growOut_ok (h : Histogram) :
    ∃ cvec, h.growOut = .ok (h.scaled cvec) ∧ cvec.length = h.cvec.length ∧
      (h.cvec.length % 2 = 0 → cvec.sum = h.cvec.sum) := by
  generalize hn : h.cvec.length = n
  generalize hzero : n / 2 = z
  generalize hbottom : (n - z) / 2 = b
  obtain ⟨low, hlow, hlength, hlowSum⟩ := foldl_mergeDown (z - b) h.cvec
    (show (z : Int) - 1 < b + (z - b : Nat) by omega) (by omega) (by omega)
  have hclear : (clearBelow low b).length = n := by rw [length_clearBelow (by omega), hlength, hn]
  obtain ⟨high, hhigh, hlength', hhighSum⟩ := foldl_mergeUp ((n - z + 1) / 2) (clearBelow low b)
    (Nat.le_refl z) (by omega)
  refine ⟨clearFrom high (z + (n - z + 1) / 2), ?_, ?_, fun heven => ?_⟩
  · simp only [growOut, hn, hzero, hbottom, Nat.add_sub_cancel_left, hlow, hhigh]
    rw [if_pos (by omega), if_pos (by omega)]
    rfl
  · rw [length_clearFrom (by omega), hlength', hclear]
  · rw [drop_eq_nil_of_le (by omega), sum_take_add_sum_drop, sum_clearBelow] at hhighSum
    rw [show ((z : Int) - 1 + 1 - 2 * (z - b : Nat)).toNat = 0 by omega,
      show ((z : Int) - 1 + 1).toNat = b + (z - b) by omega, sum_take_add_sum_drop] at hlowSum
    rw [sum_clearFrom]
    simpa using hhighSum.trans (by simpa using hlowSum)

/-! ## Samples -/

/-- The interval of `n` buckets, which starts at zero or has zero in the middle. -/
structure Spans (n : Nat) (h : Histogram) : Prop where
  two : 2 ≤ n
  size : h.cvec.length = n
  width : h.maxBucket - h.minBucket = (n - 1) * h.bucketSize
  pos : 0 < h.bucketSize
  low : h.minBucket = 0 ∨ h.minBucket = -h.maxBucket

theorem Spans.bounds (hspans : Spans n h) : h.minBucket ≤ 0 ∧ 0 < h.maxBucket ∧
    0 < h.bucketSize ∧ (h.minBucket ≠ 0 → h.minBucket = -h.maxBucket) := by
  obtain ⟨htwo, -, hwidth, hpos, hlow⟩ := hspans
  have hmul : 0 < ((n : Int) - 1) * h.bucketSize := mul_pos (by omega) hpos
  omega

theorem Spans.index (hspans : Spans n h) {val : Int} (hmin : h.minBucket ≤ val)
    (hmax : val < h.maxBucket + h.bucketSize) :
    0 ≤ (val - h.minBucket) / h.bucketSize ∧ (val - h.minBucket) / h.bucketSize < n := by
  refine ⟨Int.ediv_nonneg (by omega) hspans.pos.le, Int.ediv_lt_of_lt_mul hspans.pos ?_⟩
  have hwidth := hspans.width
  rw [sub_mul, one_mul] at hwidth
  omega

theorem Spans.scaled {cvec : List Int} (hspans : Spans n h) (hsize : cvec.length = h.cvec.length) :
    Spans n (h.scaled cvec) where
  two := hspans.two
  size := hsize.trans hspans.size
  width := by
    have hwidth := hspans.width
    simp only [Histogram.scaled]
    linarith
  pos := mul_pos two_pos hspans.pos
  low := by
    have hlow := hspans.low
    simp only [Histogram.scaled]
    omega

theorem Spans.convert (hspans : Spans n h) (hmin : h.minBucket = 0) : Spans n h.growConvert where
  two := hspans.two
  size := (growConvert_cvec h).1.trans hspans.size
  width := by
    have hwidth := hspans.width
    simp only [growConvert]
    linarith
  pos := mul_pos two_pos hspans.pos
  low := .inr rfl

structure Kept (n : Nat) (h h' : Histogram) : Prop where
  spans : Spans n h'
  samples : h'.samples = h.samples
  sum : n % 2 = 0 → h'.cvec.sum = h.cvec.sum

theorem Kept.refl (hspans : Spans n h) : Kept n h h := ⟨hspans, rfl, fun _ => rfl⟩

theorem Kept.trans {h₁ h₂ : Histogram} (hkept : Kept n h h₁) (hkept' : Kept n h₁ h₂) :
    Kept n h h₂ :=
  ⟨hkept'.spans, hkept'.samples.trans hkept.samples,
    fun heven => (hkept'.sum heven).trans (hkept.sum heven)⟩

theorem Kept.convert (hspans : Spans n h) (hmin : h.minBucket = 0) : Kept n h h.growConvert where
  spans := hspans.convert hmin
  samples := rfl
  sum heven := by
    have hsum := (growConvert_cvec h).2
    rwa [hspans.size, heven, take_zero, sum_nil, zero_add] at hsum

theorem Spans.grow (hspans : Spans n h) {up : Prop} [Decidable up] (hup : up ↔ h.minBucket = 0) :
    ∃ cvec, (if up then growUp else growOut) h = .ok (h.scaled cvec) ∧
      Kept n h (h.scaled cvec) := by
  by_cases hmin : up
  · obtain ⟨cvec, hgrow, hsize, hsum⟩ := growUp_ok h (hup.mp hmin)
    exact ⟨cvec, by rwa [if_pos hmin], hspans.scaled hsize, rfl, fun _ => hsum⟩
  · obtain ⟨cvec, hgrow, hsize, hsum⟩ := growOut_ok h
    exact ⟨cvec, by rwa [if_neg hmin], hspans.scaled hsize, rfl, hspans.size ▸ hsum⟩

theorem growWhile_done {grow : Histogram → Except Failure Histogram} (fuel : Nat)
    (hmore : more h = false) : growWhile more grow fuel h = .ok h := by
  cases fuel <;> simp [growWhile, hmore]

/-- A loop of `sample` ends: the bound grows until it has reached the size of the value. -/
theorem growWhile_ends (up : Prop) [Decidable up] (size : Nat)
    (hmore : ∀ h, Spans n h → (up ↔ h.minBucket = 0) → more h → h.maxBucket < size) (fuel : Nat)
    (hspans : Spans n h) (hup : up ↔ h.minBucket = 0) (hfuel : size ≤ h.maxBucket + fuel) :
    Ends (growWhile more (if up then growUp else growOut) fuel h)
      (fun h' => Kept n h h' ∧ more h' = false) (fun _ => False) := by
  induction fuel generalizing h with
  | zero =>
    cases hstop : more h with
    | false => exact growWhile_done 0 hstop ▸ ⟨.refl hspans, hstop⟩
    | true => exact absurd (hmore h hspans hup hstop) (by omega)
  | succ fuel ih =>
    cases hstop : more h with
    | false => exact growWhile_done (fuel + 1) hstop ▸ ⟨.refl hspans, hstop⟩
    | true =>
      obtain ⟨cvec, hgrow, hkept⟩ := hspans.grow hup
      rw [growWhile, if_pos hstop, hgrow]
      have hbounds := hspans.bounds
      refine (ih hkept.spans ?_ ?_).weaken fun h' hrest => ⟨hkept.trans hrest.1, hrest.2⟩
      · simp [hup, scaled]
      · simp only [scaled]
        omega

theorem growTo_ends (hspans : Spans n h) (val : Int) : Ends (h.growTo val)
      (fun h' => Kept n h h' ∧ h'.minBucket ≤ val ∧ val < h'.maxBucket + h'.bucketSize)
      (fun _ => False) := by
  have hbounds := hspans.bounds
  unfold growTo
  refine Ends.ite (fun hval => ?_) fun hval => Ends.ite (fun hmax => ?_) fun hmax => ?_
  · -- below the interval: from here on it has zero in the middle
    have hstart : Kept n h (if h.minBucket = 0 then h.growConvert else h) ∧
        (False ↔ (if h.minBucket = 0 then h.growConvert else h).minBucket = 0) := by
      split
      · exact ⟨.convert hspans ‹_›, by simp only [growConvert, false_iff]; omega⟩
      · exact ⟨.refl hspans, by tauto⟩
    have hbounds' := hstart.1.spans.bounds
    refine (growWhile_ends False val.natAbs (fun h' hspans' hmin hmore => ?_) _ hstart.1.spans
      hstart.2 (by omega)).weaken ?_
    · rw [false_iff] at hmin
      have := hspans'.bounds
      have := of_decide_eq_true hmore
      omega
    · rintro h' ⟨hkept, hmore⟩
      have := hkept.spans.bounds
      have := of_decide_eq_false hmore
      exact ⟨hstart.1.trans hkept, by omega, by omega⟩
  · refine (growWhile_ends (h.minBucket = 0) val.natAbs (fun h' hspans' _ hmore => ?_) _ hspans
      Iff.rfl (by omega)).weaken ?_
    · have := hspans'.bounds
      have := of_decide_eq_true hmore
      omega
    · rintro h' ⟨hkept, hmore⟩
      have := hkept.spans.bounds
      have := of_decide_eq_false hmore
      exact ⟨hkept, by omega, by omega⟩
  · exact ⟨.refl hspans, by omega, by omega⟩

theorem sample_ok (hspans : Spans n h) (val number : Int) :
    ∃ g, h.growTo val = .ok g ∧ Kept n h g ∧ h.sample val number = .ok (g.counted val number) ∧
      Spans n (g.counted val number) ∧ (g.counted val number).cvec.sum = g.cvec.sum + number := by
  have hbounds := hspans.bounds
  obtain ⟨g, hgrow, hkept, hmin, hmax⟩ := (growTo_ends hspans val).exists_ok
  have hindex := hkept.spans.index hmin hmax
  obtain ⟨htwo, hsize, hwidth, hpos, hlow⟩ := hkept.spans
  refine ⟨g, hgrow, hkept, ?_, ⟨htwo, (length_set ..).trans hsize, hwidth, hpos, hlow⟩, ?_⟩
  · simp only [sample, hgrow, if_pos (show h.minBucket < h.maxBucket by omega)]
    exact if_pos ⟨hindex.1, hsize ▸ hindex.2⟩
  · have hold := g.cvec.sum_take_add_sum_drop ((val - g.minBucket) / g.bucketSize).toNat
    rw [sum_drop] at hold
    rw [counted, ← sum_take_add_sum_drop _ ((val - g.minBucket) / g.bucketSize).toNat,
      take_set_of_le (Nat.le_refl _), sum_drop_set _ (by omega)]
    omega

theorem Spans.init (htwo : 2 ≤ n) : Spans n (init n) where
  two := htwo
  size := length_replicate
  width := by simp [Histogram.init]
  pos := one_pos
  low := .inl rfl

/-- With an even number of buckets every sample is counted. -/
theorem run_ends (htwo : 2 ≤ n) (calls : List (Int × Int)) :
    Ends (run n calls) (fun h => Spans n h ∧ (n % 2 = 0 → h.cvec.sum = h.samples))
      (fun _ => False) := by
  refine Ends.foldlM calls ⟨.init htwo, fun _ => by simp [init]⟩ ?_
  rintro h call - ⟨hspans, htotal⟩
  obtain ⟨g, -, hkept, hsample, hspans', hsum⟩ := sample_ok hspans call.1 call.2
  rw [hsample]
  refine ⟨hspans', fun heven => ?_⟩
  rw [hsum, hkept.sum heven, htotal heven, ← hkept.samples]
  rfl

theorem run_odd (htwo : 2 ≤ n) (hodd : n % 2 = 1) :
    ∃ h, run n [(0, 1), (-1, 1)] = .ok h ∧ h.cvec.sum = 1 ∧ h.samples = 2 := by
  -- the first sample finds the interval large enough
  obtain ⟨g, hgrow, -, hsample, hspans, hsum⟩ := sample_ok (.init htwo) 0 1
  have hg : (init n).growTo 0 = .ok (init n) :=
    (if_neg (by simp [init])).trans (if_neg (by simp [init]; omega))
  cases hg.symm.trans hgrow
  -- the second converts it, which is enough
  obtain ⟨g', hgrow', -, hsample', -, hsum'⟩ := sample_ok hspans (-1) 1
  have hstop : (decide (-1 < ((init n).counted 0 1).growConvert.minBucket)) = false := by
    simp [growConvert, counted, init]
    omega
  have hg' : ((init n).counted 0 1).growTo (-1) = .ok ((init n).counted 0 1).growConvert :=
    (if_pos (by simp [counted, init])).trans
      ((congrArg _ (if_pos rfl)).trans (growWhile_done _ hstop))
  cases hg'.symm.trans hgrow'
  have hfirst : (((init n).counted 0 1).cvec.take 1).sum = 1 := by
    obtain ⟨n, rfl⟩ : ∃ k, n = k + 1 := ⟨n - 1, by omega⟩
    simp [counted, init, replicate_succ]
  have hlost := (growConvert_cvec ((init n).counted 0 1)).2
  rw [hspans.size, hodd, hfirst, hsum] at hlost
  have hempty : (init n).cvec.sum = 0 := by simp [init]
  refine ⟨((init n).counted 0 1).growConvert.counted (-1) 1, ?_, by omega, rfl⟩
  rw [run, foldlM_cons, hsample]
  exact (bind_pure _).trans hsample'

/-- No assertion fails and the buckets add up to the number of samples, whatever
    is sampled, exactly if the number of buckets is even. -/
theorem run_total_iff (n : Nat) (htwo : 2 ≤ n) :
    (∀ calls : List (Int × Int), (∀ call ∈ calls, 0 ≤ call.2) →
      ∃ h, run n calls = .ok h ∧ h.cvec.sum = h.samples) ↔ n % 2 = 0 := by
  constructor
  · intro htotal
    by_contra hodd
    obtain ⟨h, hrun, hsum, hsamples⟩ := run_odd htwo (by omega)
    obtain ⟨h', hrun', hall⟩ := htotal [(0, 1), (-1, 1)] (by decide)
    cases hrun.symm.trans hrun'
    omega
  · intro heven calls _
    obtain ⟨h, hrun, -, hsum⟩ := (run_ends htwo calls).exists_ok
    exact ⟨h, hrun, hsum heven⟩

theorem run_total_four : ∃ h, run 4 [(0, 1), (-1, 1)] = .ok h ∧ h.cvec.sum = h.samples :=
  (run_total_iff 4 (by decide)).mpr rfl _ (by decide)

theorem three_buckets_lose : (run 3 [(0, 1), (-1, 1)]).map (fun h => (h.cvec, h.samples)) =
    .ok ([1, 0, 0], 2) := by
  decide +kernel

end Histogram

end Stats

end Ramulator
