/-
  Ramulator.Hmc.Mapping

  The address mapping of `Memory<HMC>` (`send`, HMC_Memory.h).

  A transaction is cut into six slices: the low bits of the column, which are
  those of a block, the vault, then bank, bank group and the high bits of the
  column in the order of the addressing type, and the row.  The two parts of the
  column are put together again.  Whatever the order, the slices take all bits of
  the capacity, so that transactions and address vectors correspond
  (`addrVec_bijective`).
-/

import Ramulator.Lib.Slices
import Ramulator.Hmc.Addresses

namespace Ramulator

open List

namespace Memory

variable {cfg : MemoryConfig}

/-- The slices of a transaction, or their widths. -/
structure Parts where
  low : Nat
  vault : Nat
  bank : Nat
  bankGroup : Nat
  high : Nat
  row : Nat

namespace Parts

/-- The slices in the order in which they are cut off. -/
def list (p : Parts) : AddressingType → List Nat
  | .roCoBaVa => [p.low, p.vault, p.bank, p.bankGroup, p.high, p.row]
  | .roBaCoVa => [p.low, p.vault, p.high, p.bank, p.bankGroup, p.row]
  | .roCoBaBgVa => [p.low, p.vault, p.bankGroup, p.bank, p.high, p.row]

/-- The address vector. -/
def vec (p : Parts) (colBits : Nat) : AddrVec :=
  [p.vault, p.bankGroup, p.bank, p.row, (p.low ||| (p.high <<< colBits) : Nat)]

structure Fits (p w : Parts) : Prop where
  low : p.low < 2 ^ w.low
  vault : p.vault < 2 ^ w.vault
  bank : p.bank < 2 ^ w.bank
  bankGroup : p.bankGroup < 2 ^ w.bankGroup
  high : p.high < 2 ^ w.high
  row : p.row < 2 ^ w.row

theorem fits_iff (p w : Parts) (type : AddressingType) :
    Slices.Fit (p.list type) (w.list type) ↔ p.Fits w := by
  constructor
  · intro h
    cases type <;>
      simp only [Slices.Fit, list, forall₂_cons, forall₂_nil_left_iff] at h <;>
      exact ⟨by tauto, by tauto, by tauto, by tauto, by tauto, by tauto⟩
  · intro ⟨h₁, h₂, h₃, h₄, h₅, h₆⟩
    cases type <;>
      simp [Slices.Fit, list, h₁, h₂, h₃, h₄, h₅, h₆]

theorem column_eq {p w : Parts} (h : p.Fits w) :
    p.low ||| (p.high <<< w.low) = p.low + 2 ^ w.low * p.high := by
  rw [Nat.or_comm, ← Nat.shiftLeft_add_eq_or_of_lt h.low, Nat.shiftLeft_eq, Nat.mul_comm,
    Nat.add_comm]

theorem list_inj {p q : Parts} {type : AddressingType} (h : p.list type = q.list type) : p = q := by
  cases p
  cases q
  cases type <;> simp_all [list]

theorem vec_inj {p q w : Parts} (hp : p.Fits w) (hq : q.Fits w) (h : p.vec w.low = q.vec w.low) :
    p = q := by
  rw [vec, vec, column_eq hp, column_eq hq] at h
  simp only [List.cons.injEq, Nat.cast_inj, and_true] at h
  obtain ⟨hvault, hgroup, hbank, hrow, hcolumn⟩ := h
  have hlow : p.low = q.low := by
    have := congrArg (· % 2 ^ w.low) hcolumn
    simpa [Nat.add_mul_mod_self_left, Nat.mod_eq_of_lt hp.low, Nat.mod_eq_of_lt hq.low] using this
  have hhigh : p.high = q.high := by
    rw [hlow] at hcolumn
    exact Nat.eq_of_mul_eq_mul_left (Nat.two_pow_pos w.low) (Nat.add_left_cancel hcolumn)
  cases p
  cases q
  simp_all

end Parts

def widths (cfg : MemoryConfig) : Parts where
  low := HMC.flitNumBits cfg.hmc.maxblock - MemoryConfig.txBits
  vault := cfg.addrBits HMC.Level.vault
  bank := cfg.addrBits HMC.Level.bank
  bankGroup := cfg.addrBits HMC.Level.bankGroup
  high := cfg.addrBits HMC.Level.column - (HMC.flitNumBits cfg.hmc.maxblock - MemoryConfig.txBits)
  row := cfg.addrBits HMC.Level.row

theorem sliceLowerBits_eq (addr bits : Nat) :
    sliceLowerBits addr bits = (addr % 2 ^ bits, addr / 2 ^ bits) := by
  rw [sliceLowerBits, Nat.one_shiftLeft, Nat.and_two_pow_sub_one_eq_mod, Nat.shiftRight_eq_div_pow]

/-- The address vector is made of the slices of the transaction. -/
theorem addrVec_parts (cfg : MemoryConfig) (addr : Nat) :
    ∃ p : Parts, p.list cfg.type = Slices.cut ((widths cfg).list cfg.type)
        (addr >>> MemoryConfig.txBits) ∧ addrVec cfg addr = p.vec (widths cfg).low := by
  unfold addrVec
  cases cfg.type with
  | roCoBaVa =>
    simp only [sliceLowerBits_eq]
    exact ⟨⟨_, _, _, _, _, _⟩, rfl, rfl⟩
  | roBaCoVa =>
    simp only [sliceLowerBits_eq]
    exact ⟨⟨_, _, _, _, _, _⟩, rfl, rfl⟩
  | roCoBaBgVa =>
    simp only [sliceLowerBits_eq]
    exact ⟨⟨_, _, _, _, _, _⟩, rfl, rfl⟩

/-! ## The organisations -/

variable {org : HMC.Org}

section

variable (horg : cfg.hmc.org = HMC.orgTable org)
include horg

theorem capacity_eq :
    cfg.capacityPerStack = 2 ^ (MemoryConfig.txBits + ((widths cfg).list cfg.type).sum) := by
  have hsum : ((widths cfg).list cfg.type).sum = ((widths cfg).list .roCoBaVa).sum := by
    cases cfg.type <;> simp [Parts.list] <;> omega
  rw [hsum]
  unfold MemoryConfig.capacityPerStack widths MemoryConfig.addrBits
  rw [horg]
  cases org <;> cases cfg.hmc.maxblock <;> decide

theorem addrBits_counts :
    (∀ level < HMC.Level.column, 2 ^ cfg.addrBits level = cfg.hmc.org.count level) ∧
      2 ^ cfg.addrBits HMC.Level.column = cfg.hmc.org.column / HMC.prefetchSize := by
  unfold MemoryConfig.addrBits
  rw [horg]
  cases org <;> decide

theorem low_add_high : (widths cfg).low + (widths cfg).high = cfg.addrBits HMC.Level.column := by
  unfold widths MemoryConfig.addrBits
  rw [horg]
  cases org <;> cases cfg.hmc.maxblock <;> decide

end

def InRanges (cfg : MemoryConfig) (v : AddrVec) : Prop :=
  Forall₂ (fun x level => 0 ≤ x ∧ x < 2 ^ cfg.addrBits level) v
    [HMC.Level.vault, HMC.Level.bankGroup, HMC.Level.bank, HMC.Level.row, HMC.Level.column]

theorem Parts.Fits.inRanges (horg : cfg.hmc.org = HMC.orgTable org) {p : Parts}
    (h : p.Fits (widths cfg)) : InRanges cfg (p.vec (widths cfg).low) := by
  have hcast {x w : Nat} (hx : x < 2 ^ w) : (0 : Int) ≤ x ∧ (x : Int) < 2 ^ w := by
    refine ⟨Int.natCast_nonneg x, ?_⟩
    exact_mod_cast hx
  have hcolumn : p.low + 2 ^ (widths cfg).low * p.high < 2 ^ cfg.addrBits HMC.Level.column := by
    rw [← low_add_high horg, Nat.pow_add]
    calc p.low + 2 ^ (widths cfg).low * p.high
        < 2 ^ (widths cfg).low + 2 ^ (widths cfg).low * p.high := Nat.add_lt_add_right h.low _
      _ = 2 ^ (widths cfg).low * (p.high + 1) := by rw [Nat.mul_succ, Nat.add_comm]
      _ ≤ _ := Nat.mul_le_mul_left _ h.high
  unfold InRanges Parts.vec
  rw [Parts.column_eq h]
  simp only [forall₂_cons, forall₂_nil_left_iff, and_true]
  exact ⟨hcast h.vault, hcast h.bankGroup, hcast h.bank, hcast h.row, hcast hcolumn⟩

theorem InRanges.exists_parts (horg : cfg.hmc.org = HMC.orgTable org) {v : AddrVec}
    (h : InRanges cfg v) : ∃ p : Parts, p.Fits (widths cfg) ∧ p.vec (widths cfg).low = v := by
  have hnat {x : Int} {w : Nat} (hx : 0 ≤ x ∧ x < 2 ^ w) : ∃ n : Nat, x = n ∧ n < 2 ^ w := by
    obtain ⟨n, rfl⟩ := Int.eq_ofNat_of_zero_le hx.1
    exact ⟨n, rfl, by exact_mod_cast hx.2⟩
  unfold InRanges at h
  rcases h with _ | ⟨h₀, _ | ⟨h₁, _ | ⟨h₂, _ | ⟨h₃, _ | ⟨h₄, _ | _⟩⟩⟩⟩⟩
  obtain ⟨vault, rfl, hvault⟩ := hnat h₀
  obtain ⟨group, rfl, hgroup⟩ := hnat h₁
  obtain ⟨bank, rfl, hbank⟩ := hnat h₂
  obtain ⟨row, rfl, hrow⟩ := hnat h₃
  obtain ⟨column, rfl, hcolumn⟩ := hnat h₄
  rw [← low_add_high horg, Nat.pow_add] at hcolumn
  have hfits : Parts.Fits ⟨column % 2 ^ (widths cfg).low, vault, bank, group,
      column / 2 ^ (widths cfg).low, row⟩ (widths cfg) :=
    ⟨Nat.mod_lt _ (Nat.two_pow_pos _), hvault, hbank, hgroup, Nat.div_lt_of_lt_mul hcolumn, hrow⟩
  refine ⟨_, hfits, ?_⟩
  rw [Parts.vec, Parts.column_eq hfits]
  dsimp only
  rw [Nat.mod_add_div]

/-- The address vector of a transaction, by its index. -/
def transactionVec (cfg : MemoryConfig) (t : Nat) : AddrVec :=
  addrVec cfg (t <<< MemoryConfig.txBits)

theorem shiftLeft_shiftRight (t n : Nat) : (t <<< n) >>> n = t := by
  rw [Nat.shiftRight_eq_div_pow, Nat.shiftLeft_eq, Nat.mul_div_cancel _ (Nat.two_pow_pos n)]

theorem transactionVec_parts (cfg : MemoryConfig) (t : Nat) :
    ∃ p : Parts, p.list cfg.type = Slices.cut ((widths cfg).list cfg.type) t ∧
      p.Fits (widths cfg) ∧ transactionVec cfg t = p.vec (widths cfg).low := by
  obtain ⟨p, hlist, hvec⟩ := addrVec_parts cfg (t <<< MemoryConfig.txBits)
  rw [shiftLeft_shiftRight] at hlist
  refine ⟨p, hlist, ?_, hvec⟩
  rw [← Parts.fits_iff p _ cfg.type, hlist]
  exact Slices.cut_fit _ t

theorem prepare_inRanges (horg : cfg.hmc.org = HMC.orgTable org) (m : Memory) (req : Request) :
    InRanges cfg (m.prepare cfg req).addrVec := by
  show InRanges cfg (addrVec cfg (clearHigherBits req.addr (cfg.maxAddress - 1)))
  obtain ⟨p, hlist, hvec⟩ := addrVec_parts cfg (clearHigherBits req.addr (cfg.maxAddress - 1))
  rw [hvec]
  apply Parts.Fits.inRanges horg
  rw [← Parts.fits_iff p _ cfg.type, hlist]
  exact Slices.cut_fit _ _

theorem prepare_addrVec (hpow : ∃ k, cfg.maxAddress = 2 ^ k) (m : Memory) {req : Request}
    (hin : InCapacity cfg req.addr) : (m.prepare cfg req).addrVec =
      transactionVec cfg (req.addr.toNat >>> MemoryConfig.txBits) := by
  obtain ⟨k, hk⟩ := hpow
  have hcut : clearHigherBits req.addr (cfg.maxAddress - 1) = req.addr.toNat := by
    have := cutAddr_of_inCapacity hk hin
    unfold cutAddr at this
    omega
  show addrVec cfg (clearHigherBits req.addr (cfg.maxAddress - 1)) = _
  obtain ⟨p, hlist, hvec⟩ := addrVec_parts cfg req.addr.toNat
  obtain ⟨q, hlist', -, hvec'⟩ :=
    transactionVec_parts cfg (req.addr.toNat >>> MemoryConfig.txBits)
  rw [hcut, hvec, hvec', Parts.list_inj (hlist.trans hlist'.symm)]

/-- For one stack of any organisation, block size and addressing type: the vector
    that `send` computes depends on the transaction only; transactions of the memory
    and vectors in the ranges of the levels correspond one to one; the ranges are the
    counts of the organisation; and every address has a vector in the ranges. -/
theorem addrVec_bijective {org : HMC.Org} (horg : cfg.hmc.org = HMC.orgTable org)
    (hstack : cfg.stackNumber = 1) : (∀ (m : Memory) (req : Request), InCapacity cfg req.addr →
      (m.prepare cfg req).addrVec = transactionVec cfg (req.addr.toNat >>> MemoryConfig.txBits)) ∧
    Set.BijOn (transactionVec cfg) {t | t < cfg.maxAddress >>> MemoryConfig.txBits}
      {v | InRanges cfg v} ∧
    ((∀ level < HMC.Level.column, 2 ^ cfg.addrBits level = cfg.hmc.org.count level) ∧
      2 ^ cfg.addrBits HMC.Level.column = cfg.hmc.org.column / HMC.prefetchSize) ∧
    ∀ (m : Memory) (req : Request), InRanges cfg (m.prepare cfg req).addrVec := by
  have hmax : cfg.maxAddress = 2 ^ (MemoryConfig.txBits + ((widths cfg).list cfg.type).sum) := by
    rw [MemoryConfig.maxAddress, hstack, Nat.mul_one, capacity_eq horg]
  have hindex : cfg.maxAddress >>> MemoryConfig.txBits = 2 ^ ((widths cfg).list cfg.type).sum := by
    rw [hmax, Nat.shiftRight_eq_div_pow, Nat.pow_add, Nat.mul_div_cancel_left _ (Nat.two_pow_pos _)]
  refine ⟨fun m req => prepare_addrVec ⟨_, hmax⟩ m, ⟨?_, ?_, ?_⟩, addrBits_counts horg, ?_⟩
  · intro t _
    obtain ⟨p, -, hfits, hvec⟩ := transactionVec_parts cfg t
    show InRanges cfg (transactionVec cfg t)
    rw [hvec]
    exact hfits.inRanges horg
  · intro t ht t' ht' heq
    obtain ⟨p, hlist, hfits, hvec⟩ := transactionVec_parts cfg t
    obtain ⟨q, hlist', hfits', hvec'⟩ := transactionVec_parts cfg t'
    rw [hvec, hvec'] at heq
    rw [Parts.vec_inj hfits hfits' heq] at hlist
    rw [Set.mem_ofPred_eq, hindex] at ht ht'
    exact Slices.cut_inj ht ht' (hlist.symm.trans hlist')
  · intro v hv
    obtain ⟨p, hfits, rfl⟩ := InRanges.exists_parts horg hv
    have hlist := (Parts.fits_iff p _ cfg.type).mpr hfits
    refine ⟨Slices.join ((widths cfg).list cfg.type) (p.list cfg.type), ?_, ?_⟩
    · rw [Set.mem_ofPred_eq, hindex]
      exact Slices.join_lt hlist
    · obtain ⟨q, hcut, -, hvec⟩ := transactionVec_parts cfg
        (Slices.join ((widths cfg).list cfg.type) (p.list cfg.type))
      rw [Slices.cut_join hlist] at hcut
      rw [hvec, Parts.list_inj hcut]
  · exact fun m req => prepare_inRanges horg m req

/-- The stack of 4 Gb with blocks of 64 bytes. -/
theorem addrVec_bijective_4Gb : (stackOf4Gb .none).maxAddress = 2 ^ 32 ∧
      (widths (stackOf4Gb .none)).list (stackOf4Gb .none).type = [1, 5, 1, 2, 2, 16] ∧
      Set.BijOn (transactionVec (stackOf4Gb .none))
        {t | t < (stackOf4Gb .none).maxAddress >>> MemoryConfig.txBits}
        {v | InRanges (stackOf4Gb .none) v} := by
  have horg : (stackOf4Gb .none).hmc.org = HMC.orgTable .gb4 := rfl
  exact ⟨by decide, by decide, (addrVec_bijective horg rfl).2.1⟩

end Memory

end Ramulator
