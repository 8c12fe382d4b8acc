/-
  Ramulator.Generic.Addresses

  The address vectors of `Memory<T>` (`send`, Memory.h).

  `send` cuts an address into slices, and a slice has as many bits as the count of
  its level has, rounded down.  The capacity is the product of the counts
  themselves.  So the vectors tell the transactions of the memory apart exactly if
  no bit is missing: if the number of rows, the only count that may be another
  one, is a power of two (`covers_iff`).  LPDDR3 and LPDDR4 have parts of 6 Gb and
  12 Gb with 3 * 2 ^ 13 rows, of which the last third shares the vectors of the
  first rows.
-/

import Ramulator.Lib.Slices
import Ramulator.Lib.Bits
import Ramulator.Generic.Memory

namespace Ramulator

open Outcome List

namespace Generic

namespace Memory

variable {cfg : MemoryConfig} {m : Memory} {e : OrgEntry} {middle inner : List Nat}
  {type : AddressingType} {xs : List Int}

/-- The counts of the components of a vector; a column address stands for one prefetch. -/
def levelCounts (cfg : MemoryConfig) (e : OrgEntry) : List Nat :=
  e.count.set (e.count.length - 1) (e.column / cfg.org.standard.prefetchSize)

/-- Different transactions have different vectors, with components below the counts. -/
structure Covers (cfg : MemoryConfig) (m : Memory) (e : OrgEntry) : Prop where
  distinct : ∀ a b : Int, 0 ≤ a → a < m.maxAddress → 0 ≤ b → b < m.maxAddress →
    a >>> m.txBits ≠ b >>> m.txBits → addrVec cfg m a ≠ addrVec cfg m b
  below : ∀ a : Int, Forall₂ (fun x n => 0 ≤ x ∧ x < (n : Int)) (addrVec cfg m a)
    (levelCounts cfg e)

/-! ## Slices -/

theorem sliceLowerBits_eq (addr : Int) (bits : Nat) :
    sliceLowerBits addr bits = (addr % 2 ^ bits, addr / 2 ^ bits) := by
  rw [sliceLowerBits, Bits.land_two_pow_sub_one, Int.shiftRight_eq_div_pow]
  rfl

/-- The slices of a natural number are its bit fields. -/
theorem slices_natCast (ws : List Nat) (n : Nat) :
    slices ws n = (Slices.cut ws n).map (Nat.cast : Nat → Int) := by
  induction ws generalizing n with
  | nil => rfl
  | cons w ws ih =>
    have hmod : (n : Int) % 2 ^ w = ((n % 2 ^ w : Nat) : Int) := by simp
    have hdiv : (n : Int) / 2 ^ w = ((n / 2 ^ w : Nat) : Int) := by simp
    rw [slices, sliceLowerBits_eq]
    dsimp only
    rw [hmod, hdiv, ih]
    rfl

theorem slices_below (ws : List Nat) (addr : Int) :
    Forall₂ (fun (x : Int) w => 0 ≤ x ∧ x < 2 ^ w) (slices ws addr) ws := by
  induction ws generalizing addr with
  | nil => exact Forall₂.nil
  | cons w ws ih =>
    have hpos : (0 : Int) < 2 ^ w := pow_pos (by omega) w
    rw [slices, sliceLowerBits_eq]
    exact Forall₂.cons ⟨Int.emod_nonneg _ hpos.ne', Int.emod_lt_of_pos _ hpos⟩ (ih _)

theorem below_of_fits {ws ns : List Nat}
    (hfits : Forall₂ (fun (x : Int) w => 0 ≤ x ∧ x < 2 ^ w) xs ws)
    (hcounts : Forall₂ (fun w n => 2 ^ w ≤ n) ws ns) :
    Forall₂ (fun x n => 0 ≤ x ∧ x < (n : Int)) xs ns := by
  induction hfits generalizing ns with
  | nil =>
    cases hcounts
    exact Forall₂.nil
  | @cons x w xs ws hx _ ih =>
    obtain ⟨n, ns', hn, hrest, rfl⟩ := forall₂_cons_left_iff.mp hcounts
    have hcast : ((2 ^ w : Nat) : Int) ≤ n := Int.ofNat_le.mpr hn
    rw [Nat.cast_pow] at hcast
    exact Forall₂.cons ⟨hx.1, Int.lt_of_lt_of_le hx.2 hcast⟩ (ih hrest)

theorem two_pow_sum_log2 {ns : List Nat} (h : ∀ n ∈ ns, 2 ^ n.log2 = n) :
    2 ^ (ns.map Nat.log2).sum = ns.prod := by
  induction ns with
  | nil => rfl
  | cons n ns ih =>
    obtain ⟨hn, hns⟩ := forall_mem_cons.mp h
    rw [map_cons, sum_cons, Nat.pow_add, hn, ih hns, prod_cons]

/-! ## The order of the slices -/

/-- The widths of the slices in the order in which they are cut off. -/
def order (type : AddressingType) (first : Nat) (inner : List Nat) (last : Nat) : List Nat :=
  match type with
  | .chRaBaRoCo => last :: (inner.reverse ++ [first])
  | .roBaRaCoCh => first :: last :: inner

theorem order_sum (type : AddressingType) (first : Nat) (inner : List Nat) (last : Nat) :
    (order type first inner last).sum = first + inner.sum + last := by
  cases type with
  | chRaBaRoCo =>
    simp only [order, sum_cons, sum_append, sum_reverse, sum_nil]
    omega
  | roBaRaCoCh =>
    simp only [order, sum_cons]
    omega

/-- The vector, from the slices in their order. -/
def arrange (type : AddressingType) (xs : List Int) : List Int :=
  match type, xs with
  | .chRaBaRoCo, xs => xs.reverse
  | .roBaRaCoCh, first :: last :: inner => first :: inner ++ [last]
  | .roBaRaCoCh, xs => xs

theorem addrVec_eq {first last : Nat}
    (hbits : m.addrBits = first :: (inner ++ [last])) (addr : Int) : addrVec cfg m addr =
      arrange cfg.type (slices (order cfg.type first inner last) (addr >>> m.txBits)) := by
  unfold addrVec
  cases cfg.type with
  | chRaBaRoCo =>
    show (slices m.addrBits.reverse _).reverse = (slices _ _).reverse
    rw [hbits]
    simp [order]
  | roBaRaCoCh =>
    have hlast : m.addrBits.getD (m.addrBits.length - 1) 0 = last := by
      rw [hbits]
      simp
    have hinner : (m.addrBits.drop 1).take (m.addrBits.length - 2) = inner := by
      rw [hbits]
      simp
    have hfirst : m.addrBits.getD 0 0 = first := by
      rw [hbits]
      rfl
    dsimp only
    rw [hfirst, hlast, hinner]
    rfl

/-- Nothing is lost when the slices are put into their places. -/
theorem arrange_inj {ys : List Int} (hxs : 2 ≤ xs.length) (hlength : xs.length = ys.length)
    (h : arrange type xs = arrange type ys) : xs = ys := by
  cases type with
  | chRaBaRoCo => exact reverse_injective h
  | roBaRaCoCh =>
    match xs, ys with
    | first :: last :: inner, first' :: last' :: inner' =>
      obtain ⟨hfirst, hrest⟩ := List.cons.inj h
      obtain ⟨hinner, hlast⟩ := append_inj' hrest rfl
      rw [hfirst, hinner, (List.cons.inj hlast).1]
    | [], _ => simp at hxs
    | [_], _ => simp at hxs
    | _ :: _ :: _, [] => simp at hlength
    | _ :: _ :: _, [_] => simp at hlength

theorem arrange_below {first last : Nat} {R : Int → Nat → Prop}
    (h : Forall₂ R xs (order type first inner last)) :
    Forall₂ R (arrange type xs) (first :: (inner ++ [last])) := by
  cases type with
  | chRaBaRoCo =>
    have hreverse := rel_reverse h
    simp only [order, reverse_cons, reverse_append, reverse_reverse] at hreverse
    exact hreverse
  | roBaRaCoCh =>
    obtain ⟨x, xs, hx, hrest, rfl⟩ := forall₂_cons_right_iff.mp h
    obtain ⟨y, ys, hy, hinner, rfl⟩ := forall₂_cons_right_iff.mp hrest
    exact Forall₂.cons hx (rel_append hinner (Forall₂.cons hy Forall₂.nil))

theorem shiftRight_two_pow (a b : Nat) : (2 ^ (a + b)) >>> a = 2 ^ b := by
  rw [Nat.shiftRight_eq_div_pow, Nat.pow_add, Nat.mul_div_cancel_left _ (Nat.two_pow_pos _)]

section Bits

variable {first last : Nat} {inner : List Nat} (hbits : m.addrBits = first :: (inner ++ [last]))
include hbits

theorem addrVec_fits (addr : Int) :
    Forall₂ (fun (x : Int) w => 0 ≤ x ∧ x < 2 ^ w) (addrVec cfg m addr) m.addrBits := by
  rw [addrVec_eq hbits, hbits]
  exact arrange_below (slices_below _ _)

theorem addrBits_sum (type : AddressingType) :
    m.addrBits.sum = (order type first inner last).sum := by
  rw [order_sum, hbits]
  simp only [sum_cons, sum_append, sum_nil]
  omega

/-- The vectors of two transactions that have all their bits in the slices. -/
theorem addrVec_inj {a b : Nat} (ha : a >>> m.txBits < 2 ^ m.addrBits.sum)
    (hb : b >>> m.txBits < 2 ^ m.addrBits.sum) (h : addrVec cfg m a = addrVec cfg m b) :
    a >>> m.txBits = b >>> m.txBits := by
  rw [addrBits_sum hbits cfg.type] at ha hb
  have hlength (addr : Int) :
      (slices (order cfg.type first inner last) addr).length = inner.length + 2 := by
    rw [(slices_below _ addr).length_eq]
    cases cfg.type <;> simp [order]
  rw [addrVec_eq hbits, addrVec_eq hbits] at h
  have hslices := arrange_inj (by rw [hlength]; omega) (by rw [hlength, hlength]) h
  rw [← Int.natCast_shiftRight, ← Int.natCast_shiftRight, slices_natCast, slices_natCast] at hslices
  apply Slices.cut_inj ha hb
  exact map_injective_iff.mpr (fun _ _ => Int.ofNat.inj) hslices

/-- The first transaction that has a bit too many has the vector of the first
    one of all. -/
theorem addrVec_wraps :
    addrVec cfg m (2 ^ (m.txBits + m.addrBits.sum) : Nat) = addrVec cfg m 0 := by
  rw [addrVec_eq hbits, ← Int.natCast_shiftRight, shiftRight_two_pow, slices_natCast,
    addrBits_sum hbits cfg.type, Slices.cut_two_pow_sum, ← slices_natCast]
  show _ = addrVec cfg m ((0 : Nat) : Int)
  rw [addrVec_eq hbits, ← Int.natCast_shiftRight, Nat.zero_shiftRight]

/-- The vectors tell the transactions apart exactly if the capacity has no more
    bits than the slices. -/
theorem addrVec_distinct_iff : (∀ a b : Int, 0 ≤ a → a < m.maxAddress → 0 ≤ b → b < m.maxAddress →
      a >>> m.txBits ≠ b >>> m.txBits → addrVec cfg m a ≠ addrVec cfg m b) ↔
      m.maxAddress ≤ 2 ^ (m.txBits + m.addrBits.sum) := by
  constructor
  · intro hdistinct
    by_contra hlarge
    have hpos := Nat.two_pow_pos (m.txBits + m.addrBits.sum)
    apply hdistinct (2 ^ (m.txBits + m.addrBits.sum) : Nat) 0 (by omega) (by omega) (by omega)
      (by omega) _ (addrVec_wraps hbits)
    show ((2 ^ (m.txBits + m.addrBits.sum) : Nat) : Int) >>> m.txBits ≠
      ((0 : Nat) : Int) >>> m.txBits
    rw [← Int.natCast_shiftRight, ← Int.natCast_shiftRight, shiftRight_two_pow, Nat.zero_shiftRight]
    have := Nat.two_pow_pos m.addrBits.sum
    omega
  · intro hle a b ha hmaxa hb hmaxb hne heq
    obtain ⟨n, rfl⟩ := Int.eq_ofNat_of_zero_le ha
    obtain ⟨k, rfl⟩ := Int.eq_ofNat_of_zero_le hb
    have hin {n : Nat} (hn : (n : Int) < m.maxAddress) : n >>> m.txBits < 2 ^ m.addrBits.sum := by
      rw [Nat.shiftRight_eq_div_pow]
      apply Nat.div_lt_of_lt_mul
      rw [← Nat.pow_add]
      omega
    apply hne
    rw [← Int.natCast_shiftRight, ← Int.natCast_shiftRight,
      addrVec_inj hbits (hin hmaxa) (hin hmaxb) heq]

end Bits

/-! ## The organisations -/

theorem bitsOf_regular (cfg : MemoryConfig) (channels ranks : Nat) (middle : List Nat)
    (row column : Nat) : bitsOf cfg (channels :: ranks :: (middle ++ [row, column])) =
      channels.log2 :: ((ranks.log2 :: (middle.map Nat.log2 ++ [row.log2])) ++
        [column.log2 - cfg.org.standard.prefetchSize.log2]) := by
  have hsplit : (channels :: ranks :: (middle ++ [row, column])).map Nat.log2 =
      (channels.log2 :: (ranks.log2 :: (middle.map Nat.log2 ++ [row.log2]))) ++ [column.log2] := by
    simp
  unfold bitsOf
  rw [hsplit]
  simp

theorem prefetchSize_pow (standard : Standard) :
    2 ^ standard.prefetchSize.log2 = standard.prefetchSize := by
  cases standard <;> decide

/-- The capacity has no more bits than the slices exactly if the number of rows is
    a power of two. -/
theorem maxAddress_le_iff (h : new cfg = some m) {c r : Nat} (hchannels : cfg.org.channels = 2 ^ c)
    (hranks : cfg.org.ranks = 2 ^ r) (he : cfg.org.orgEntry = some e) {row column : Nat}
    (hcount : e.count = cfg.org.channels :: cfg.org.ranks :: (middle ++ [row, column]))
    (hregular : Regular cfg.org.standard middle row column)
    (hbits : m.addrBits = bitsOf cfg e.count) :
    m.maxAddress ≤ 2 ^ (m.txBits + m.addrBits.sum) ↔ row ≤ 2 ^ row.log2 := by
  have hprefetch := prefetchSize_pow cfg.org.standard
  -- one prefetch fits into a row
  have hlog : cfg.org.standard.prefetchSize.log2 ≤ column.log2 := by
    apply (Nat.pow_le_pow_iff_right (show 1 < 2 by decide)).mp
    rw [hprefetch, hregular.column_pow]
    exact hregular.prefetch_le
  have hmax := maxAddress_mul_prefetch h he
  -- both sides with the bits of a prefetch
  have hslices : 2 ^ (m.txBits + m.addrBits.sum) * cfg.org.standard.prefetchSize =
      2 ^ m.txBits * (2 ^ c * (2 ^ r * (middle.prod * (2 ^ row.log2 * column)))) := by
    have hsum : m.txBits + m.addrBits.sum + cfg.org.standard.prefetchSize.log2 =
        m.txBits + (c + (r + ((middle.map Nat.log2).sum + (row.log2 + column.log2)))) := by
      rw [hbits, hcount, bitsOf_regular, hchannels, hranks, Nat.log2_two_pow, Nat.log2_two_pow]
      simp only [sum_cons, sum_append, sum_nil, cons_append]
      omega
    calc 2 ^ (m.txBits + m.addrBits.sum) * cfg.org.standard.prefetchSize
        = 2 ^ (m.txBits + m.addrBits.sum + cfg.org.standard.prefetchSize.log2) := by
          rw [Nat.pow_add _ (m.txBits + m.addrBits.sum), hprefetch]
      _ = _ := by
          rw [hsum, Nat.pow_add, Nat.pow_add, Nat.pow_add, Nat.pow_add, Nat.pow_add,
            two_pow_sum_log2 hregular.middle_pow, hregular.column_pow]
  have hcapacity : m.maxAddress * cfg.org.standard.prefetchSize =
      2 ^ m.txBits * (2 ^ c * (2 ^ r * (middle.prod * (row * column)))) := by
    rw [hmax, hcount, hchannels, hranks]
    simp only [prod_cons, prod_append, prod_nil, Nat.mul_one]
  have hpos : 0 < cfg.org.standard.prefetchSize := by
    rw [← hprefetch]
    exact Nat.two_pow_pos _
  have hcolumn : 0 < column := by
    rw [← hregular.column_pow]
    exact Nat.two_pow_pos _
  have hmiddle : 0 < middle.prod := by
    rw [← two_pow_sum_log2 hregular.middle_pow]
    exact Nat.two_pow_pos _
  rw [← Nat.mul_le_mul_right_iff hpos, hslices, hcapacity,
    Nat.mul_le_mul_left_iff (Nat.two_pow_pos _), Nat.mul_le_mul_left_iff (Nat.two_pow_pos _),
    Nat.mul_le_mul_left_iff (Nat.two_pow_pos _), Nat.mul_le_mul_left_iff hmiddle,
    Nat.mul_le_mul_right_iff hcolumn]

/-- No width has more values than its level has nodes. -/
theorem bits_le_counts {c r : Nat} (hchannels : cfg.org.channels = 2 ^ c)
    (hranks : cfg.org.ranks = 2 ^ r) {row column : Nat}
    (hregular : Regular cfg.org.standard middle row column) : Forall₂ (fun w n => 2 ^ w ≤ n)
      (cfg.org.channels.log2 :: ((cfg.org.ranks.log2 :: (middle.map Nat.log2 ++ [row.log2])) ++
        [column.log2 - cfg.org.standard.prefetchSize.log2]))
      (cfg.org.channels :: ((cfg.org.ranks :: (middle ++ [row])) ++
        [column / cfg.org.standard.prefetchSize])) := by
  have hpow (k : Nat) : 2 ^ (2 ^ k).log2 ≤ 2 ^ k := by rw [Nat.log2_two_pow]
  have hmiddle : Forall₂ (fun w n => 2 ^ w ≤ n) (middle.map Nat.log2) middle := by
    rw [forall₂_map_left_iff, forall₂_same]
    intro n hn
    exact Nat.le_of_eq (hregular.middle_pow n hn)
  have hcolumn : 2 ^ (column.log2 - cfg.org.standard.prefetchSize.log2) ≤
      column / cfg.org.standard.prefetchSize := by
    have hprefetch := prefetchSize_pow cfg.org.standard
    have hpos : 0 < cfg.org.standard.prefetchSize := by
      rw [← hprefetch]
      exact Nat.two_pow_pos _
    have hlog : cfg.org.standard.prefetchSize.log2 ≤ column.log2 := by
      apply (Nat.pow_le_pow_iff_right (show 1 < 2 by decide)).mp
      rw [hprefetch, hregular.column_pow]
      exact hregular.prefetch_le
    rw [Nat.le_div_iff_mul_le hpos]
    nth_rewrite 2 [← hprefetch]
    rw [← Nat.pow_add, Nat.sub_add_cancel hlog, hregular.column_pow]
  refine Forall₂.cons ?_ (rel_append (Forall₂.cons ?_ (rel_append hmiddle
    (Forall₂.cons ?_ Forall₂.nil))) (Forall₂.cons hcolumn Forall₂.nil))
  · rw [hchannels]
    exact hpow c
  · rw [hranks]
    exact hpow r
  · exact Nat.log2_self_le hregular.row_pos.ne'

theorem addrVec_below {c r : Nat} (hchannels : cfg.org.channels = 2 ^ c)
    (hranks : cfg.org.ranks = 2 ^ r) {row column : Nat}
    (hcount : e.count = cfg.org.channels :: cfg.org.ranks :: (middle ++ [row, column]))
    (hregular : Regular cfg.org.standard middle row column)
    (hbits : m.addrBits = bitsOf cfg e.count) (addr : Int) :
    Forall₂ (fun x n => 0 ≤ x ∧ x < (n : Int)) (addrVec cfg m addr) (levelCounts cfg e) := by
  have hcounts : levelCounts cfg e = cfg.org.channels :: ((cfg.org.ranks :: (middle ++ [row])) ++
        [column / cfg.org.standard.prefetchSize]) := by
    have hsplit : e.count =
        (cfg.org.channels :: cfg.org.ranks :: (middle ++ [row])) ++ [column] := by
      rw [hcount]
      simp
    rw [levelCounts, OrgEntry.column, hsplit]
    simp
  rw [hcount, bitsOf_regular] at hbits
  have hfits : Forall₂ _ (addrVec cfg m addr) _ := addrVec_fits hbits addr
  have hwidths := bits_le_counts hchannels hranks hregular
  rw [hbits] at hfits
  rw [hcounts]
  exact below_of_fits hfits hwidths

/-- With channels and ranks that are powers of two, the address vectors of a memory
    cover its capacity exactly if the number of rows is a power of two too. -/
theorem covers_iff (h : new cfg = some m) (he : cfg.org.orgEntry = some e) {c r : Nat}
    (hchannels : cfg.org.channels = 2 ^ c) (hranks : cfg.org.ranks = 2 ^ r) :
    Covers cfg m e ↔ ∃ k, e.row = 2 ^ k := by
  obtain ⟨e', he', -, -, hbits, -⟩ := new_cases h
  rw [he] at he'
  cases he'
  obtain ⟨middle, row, column, hcount, hregular⟩ := OrgConfig.orgEntry_regular he
  have hrow : e.row = row := by
    rw [OrgEntry.row, hcount]
    simp
  have hsplit := hbits
  rw [hcount, bitsOf_regular] at hsplit
  have hcapacity := maxAddress_le_iff h hchannels hranks he hcount hregular hbits
  have hle : 2 ^ row.log2 ≤ row := Nat.log2_self_le hregular.row_pos.ne'
  rw [hrow]
  constructor
  · intro hcovers
    have := hcapacity.mp ((addrVec_distinct_iff hsplit).mp hcovers.distinct)
    exact ⟨row.log2, by omega⟩
  · rintro ⟨k, rfl⟩
    refine ⟨?_, addrVec_below hchannels hranks hcount hregular hbits⟩
    apply (addrVec_distinct_iff hsplit).mpr
    apply hcapacity.mpr
    rw [Nat.log2_two_pow]

/-- A channel of DDR3 with one rank is covered. -/
theorem covers_iff_ddr3 :
    ∃ m e, new (ddr3Channel .none) = some m ∧ (ddr3Channel .none).org.orgEntry = some e ∧
      m.maxAddress = 2 ^ 30 ∧ Covers (ddr3Channel .none) m e := by
  have hmap : (new (ddr3Channel .none)).map Memory.maxAddress = some (2 ^ 30) := by decide
  obtain ⟨m, hm, hmax⟩ := Option.map_eq_some_iff.mp hmap
  have hrow : (ddr3Channel .none).org.orgEntry.map OrgEntry.row = some (2 ^ 13) := by decide
  obtain ⟨e, he, hrow⟩ := Option.map_eq_some_iff.mp hrow
  have hone : (ddr3Channel .none).org.channels = 2 ^ 0 := rfl
  exact ⟨m, e, hm, he, hmax, (covers_iff hm he hone hone).mpr ⟨13, hrow⟩⟩

def lpddr3Channel : MemoryConfig where
  org := { standard := .lpddr3, org := 2, channels := 1, ranks := 1 }
  lrand := fun n => 5 * n

/-- The addresses 0 and 2 ^ 31 are both in the memory and have the same vector. -/
theorem lpddr3_rows_collide : ∃ m, new lpddr3Channel = some m ∧ (2 ^ 31 : Int) < m.maxAddress ∧
      (0 : Int) >>> m.txBits ≠ (2 ^ 31 : Int) >>> m.txBits ∧
      addrVec lpddr3Channel m 0 = addrVec lpddr3Channel m (2 ^ 31) := by
  have hmap : (new lpddr3Channel).map (fun m => (m.maxAddress, m.txBits,
      addrVec lpddr3Channel m 0, addrVec lpddr3Channel m (2 ^ 31))) =
      some (3 * 2 ^ 30, 6, [0, 0, 0, 0, 0], [0, 0, 0, 0, 0]) := by decide +kernel
  obtain ⟨m, hm, heq⟩ := Option.map_eq_some_iff.mp hmap
  simp only [Prod.mk.injEq] at heq
  obtain ⟨hmax, htx, hzero, hlarge⟩ := heq
  refine ⟨m, hm, ?_, ?_, hzero.trans hlarge.symm⟩
  · rw [hmax]
    decide
  · rw [htx]
    decide

/-! ## Send -/

/-- The requests that `pending_requests` counts. -/
def held (c : Controller) : List Request := c.readq ++ c.writeq ++ c.otherq ++ c.pending

theorem enqueue_held {c c' : Controller} {req : Request} (h : c.enqueue req = some c') :
    (held c').length = (held c).length + 1 ∧ ∃ r ∈ held c', r.addrVec = req.addrVec := by
  unfold Controller.enqueue at h
  split at h
  · cases h
  · dsimp only at h
    split at h
    · next hread =>
      -- the read is served from the write queue
      cases h
      simp only [held, hread.1, Controller.setQueue, Controller.getQueue]
      refine ⟨by simp; omega, _, mem_append_right _ (mem_append_right _
        (mem_singleton_self _)), rfl⟩
    · cases h
      refine ⟨?_, { req with arrive := c.clk }, ?_, rfl⟩
      · cases req.type <;> simp [held, Controller.setQueue, Controller.getQueue] <;> omega
      · cases req.type <;> simp [held, Controller.setQueue, Controller.getQueue]

theorem pendingRequests_set {i : Nat} {c c' : Controller} (hc : m.ctrls[i]? = some c)
    (hheld : (held c').length = (held c).length + 1) :
    pendingRequests { m with ctrls := m.ctrls.set i c' } = m.pendingRequests + 1 := by
  obtain ⟨hi, rfl⟩ := List.getElem?_eq_some_iff.mp hc
  obtain ⟨xs, ys, hsplit, -, hset⟩ :
      ∃ xs ys, m.ctrls = xs ++ m.ctrls[i] :: ys ∧ xs.length = i ∧
        m.ctrls.set i c' = xs ++ c' :: ys := exists_of_set hi
  simp only [held, length_append] at hheld
  unfold pendingRequests
  rw [hset]
  conv_rhs => rw [hsplit]
  simp only [map_append, map_cons, sum_append, sum_cons]
  omega

/-- A memory that is covered takes a request or refuses it; a request that it takes waits
    in the channel of its address vector, and is one more that is pending. -/
theorem Covers.send (hcovers : Covers cfg m e) (he : cfg.org.orgEntry = some e)
    (hctrls : m.ctrls.length = cfg.org.channels) (req : Request) : Ends (send cfg m req)
      (fun out => out.2.pendingRequests = m.pendingRequests + (if out.1 then 1 else 0) ∧
        (out.1 = true → ∃ c, out.2.ctrls[((addrVec cfg m req.addr).getD 0 0).toNat]? = some c ∧
          ∃ r ∈ held c, r.addrVec = addrVec cfg m req.addr)) (fun _ => False) := by
  have hchannel : 0 ≤ (addrVec cfg m req.addr).getD 0 0 ∧
      (addrVec cfg m req.addr).getD 0 0 < m.ctrls.length := by
    obtain ⟨middle, row, column, hcount, -⟩ := OrgConfig.orgEntry_regular he
    have hbelow := hcovers.below req.addr
    rw [levelCounts, hcount, length_cons, Nat.add_sub_cancel, length_cons, set_cons_succ] at hbelow
    cases hvec : addrVec cfg m req.addr with
    | nil => rw [hvec] at hbelow; cases hbelow
    | cons x xs =>
      rw [hvec] at hbelow
      rw [hctrls]
      exact (forall₂_cons.mp hbelow).1
  refine Ends.bind (Vec.at_ends_of fun hout => ?_) fun c ⟨_, hc⟩ => ?_
  · have hout : (addrVec cfg m req.addr).getD 0 0 < 0 ∨
        (m.ctrls.length : Int) ≤ (addrVec cfg m req.addr).getD 0 0 := hout
    omega
  · cases henqueue : c.enqueue (m.prepare cfg req) with
    | none => exact ⟨rfl, nofun⟩
    | some c' =>
      obtain ⟨hheld, hr⟩ := enqueue_held henqueue
      refine ⟨pendingRequests_set hc hheld, fun _ => ⟨c', ?_, hr⟩⟩
      exact getElem?_set_self (List.getElem?_eq_some_iff.mp hc).1

end Memory

end Generic

end Ramulator
