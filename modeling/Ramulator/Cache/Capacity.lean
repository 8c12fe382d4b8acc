/-
  Ramulator.Cache.Capacity

  How many lines a last-level cache holds.

  The asserts of the constructor compare the size with one block, not with the
  blocks of a set.  If not even one set fits, `block_num` is zero and
  `index_mask`, an unsigned `0 - 1`, keeps all bits of the block number: there
  are 2^32 sets, and the cache grows with every block it fetches
  (`run_fetchAll`).  If one fits, the sets in use are those below `block_num`,
  and none has more than `assoc` lines.
-/

import Mathlib
import Ramulator.Cache.Invariant

namespace Ramulator

open Outcome List Function

namespace CacheConfig

/-- The parameters the constructor goes through with: its assertions hold and
    its division, of ints, is defined. -/
structure Accepted (cfg : CacheConfig) : Prop where
  size : cfg.size &&& (cfg.size - 1) = 0
  blockSize : cfg.blockSize &&& (cfg.blockSize - 1) = 0
  assoc : cfg.assoc &&& (cfg.assoc - 1) = 0
  atLeast : cfg.blockSize ≤ cfg.size
  divides : 0 < cfg.blockSize * cfg.assoc
  range : cfg.size < 2 ^ 31 ∧ cfg.blockSize * cfg.assoc < 2 ^ 31

variable {cfg : CacheConfig}

theorem Accepted.powers (h : cfg.Accepted) : ∃ a b s : Nat, cfg.assoc = 2 ^ a ∧
    cfg.blockSize = 2 ^ b ∧ cfg.size = 2 ^ s ∧ b ≤ s ∧ s ≤ 30 := by
  have hblock : cfg.blockSize ≠ 0 := (Nat.pos_of_mul_pos_right h.divides).ne'
  have hassoc : cfg.assoc ≠ 0 := (Nat.pos_of_mul_pos_left h.divides).ne'
  have hsize : cfg.size ≠ 0 := by
    have hle := h.atLeast
    omega
  obtain ⟨a, ha⟩ := (Nat.and_sub_one_eq_zero_iff_isPowerOfTwo hassoc).mp h.assoc
  obtain ⟨b, hb⟩ := (Nat.and_sub_one_eq_zero_iff_isPowerOfTwo hblock).mp h.blockSize
  obtain ⟨s, hs⟩ := (Nat.and_sub_one_eq_zero_iff_isPowerOfTwo hsize).mp h.size
  refine ⟨a, b, s, ha, hb, hs, ?_, ?_⟩
  · have hle := h.atLeast
    rw [hb, hs] at hle
    exact (Nat.pow_le_pow_iff_right (by omega)).mp hle
  · have hlt := h.range.1
    rw [hs] at hlt
    exact Nat.le_of_lt_succ ((Nat.pow_lt_pow_iff_right (by omega)).mp hlt)

theorem Proper.getIndex_mem (h : cfg.Proper) (addr : Int) :
    cfg.getIndex addr ∈ Finset.Ico (0 : Int) cfg.blockNum := by
  obtain ⟨a, b, s, hassoc, hblock, hsize, hle, hs⟩ := h.powers
  have hnum := blockNum_eq hassoc hblock hsize hle
  have hpos : (0 : Int) < 2 ^ (s - (a + b)) := by positivity
  rw [getIndex_eq hnum hblock (by omega), hnum, Finset.mem_Ico]
  push_cast
  exact ⟨Int.emod_nonneg _ hpos.ne', Int.emod_lt_of_pos _ hpos⟩

theorem getIndex_block {b : Nat} (hnum : cfg.blockNum = 0) (hblock : cfg.blockSize = 2 ^ b)
    {k : Nat} (hk : k < 2 ^ 31) : cfg.getIndex (k * cfg.blockSize) = k := by
  have hmask : cfg.indexMask = 2 ^ 32 - 1 := by
    unfold indexMask
    rw [hnum]
    rfl
  have hshift : ((k : Int) * cfg.blockSize) >>> cfg.indexOffset = k := by
    unfold indexOffset
    rw [hblock, Nat.log2_two_pow, Int.shiftRight_eq_div_pow]
    exact Int.mul_ediv_cancel _ (by positivity)
  unfold getIndex
  rw [hshift, hmask, Bits.land_two_pow_sub_one, Int.emod_eq_of_lt (by omega) (by omega)]
  exact Int.bmod_eq_of_le_mul_two (by omega) (by omega)

end CacheConfig

namespace Cache

variable {cfg : CacheConfig} {c : Cache}

def Fits (cfg : CacheConfig) (c : Cache) : Prop :=
  ∀ sets : Finset Int, (sets.sum fun i => (c.cacheLines i).length) ≤ cfg.size / cfg.blockSize

theorem Inv.fits (hp : cfg.Proper) (h : Inv cfg c) : Fits cfg c := by
  intro sets
  obtain ⟨a, b, s, hassoc, hblock, hsize, hle, -⟩ := hp.powers
  have hnum := CacheConfig.blockNum_eq hassoc hblock hsize hle
  -- a set with a line has the index of the line's address
  have hused : ∀ i ∈ sets, (c.cacheLines i).length ≠ 0 → i ∈ Finset.Ico (0 : Int) cfg.blockNum := by
    intro i _ hne
    obtain ⟨line, hline⟩ := exists_mem_of_length_pos (Nat.pos_of_ne_zero hne)
    rw [← ((h.set i).placed line hline).1]
    exact hp.getIndex_mem line.addr
  have hcard : (sets.filter (· ∈ Finset.Ico (0 : Int) cfg.blockNum)).card ≤ cfg.blockNum := by
    have hsub : sets.filter (· ∈ Finset.Ico (0 : Int) cfg.blockNum) ⊆ Finset.Ico 0 cfg.blockNum :=
      fun i hi => (Finset.mem_filter.mp hi).2
    simpa using Finset.card_le_card hsub
  calc (sets.sum fun i => (c.cacheLines i).length)
      = (sets.filter (· ∈ Finset.Ico (0 : Int) cfg.blockNum)).sum
          fun i => (c.cacheLines i).length := (Finset.sum_filter_of_ne hused).symm
    _ ≤ (sets.filter (· ∈ Finset.Ico (0 : Int) cfg.blockNum)).card • cfg.assoc :=
        Finset.sum_le_card_nsmul _ _ _ fun i _ => (h.set i).length
    _ ≤ cfg.blockNum * cfg.assoc := Nat.mul_le_mul_right _ hcard
    _ = cfg.size / cfg.blockSize := by
        rw [hnum, hassoc, hsize, hblock, ← pow_add, Nat.pow_div (by omega) (by omega)]
        congr 1
        omega

theorem send_empty (hlast : cfg.isLastLevel = true) (hnum : cfg.mshrEntryNum = 0)
    (sys : CacheSystem) (req : Request) :
    Ends (({} : Cache).send cfg sys req) (fun out => out.2.1 = {}) (fun e => e = .requestType) := by
  refine (send_ends hlast {} sys req).imp ?_ ?_
  · rintro ⟨accepted, c', sys'⟩ hsent
    cases hsent with
    | hit hmem => cases hmem
    | merged hmiss hentry => cases hentry
    | refused => rfl
    | missed hmiss hfresh hfree => exact absurd hnum.symm hfree
  · rintro e (⟨rfl, -⟩ | ⟨-, entry, hentry, -⟩ | ⟨-, -, -, line, hline, -⟩)
    · rfl
    · cases hentry
    · cases hline

theorem fetch (hlast : cfg.isLastLevel = true) (hassoc : 0 < cfg.assoc)
    (hnum : cfg.mshrEntryNum ≠ 0) (sys : CacheSystem) {addr : Int} (hmshr : c.mshrEntries = [])
    (hempty : c.cacheLines (cfg.getIndex addr) = []) :
    ∃ c₁ sys₁ c₂ line, c.send cfg sys { addr, type := .read } = .ok (true, c₁, sys₁) ∧
      c₁.callback cfg { addr, type := .read } = .ok c₂ ∧ c₂.mshrEntries = [] ∧
      c₂.cacheLines = update c.cacheLines (cfg.getIndex addr) [line] := by
  -- the request misses: there is no line, no entry, and room for both
  have hsend : c.send cfg sys { addr, type := .read } =
      .ok (true, missed cfg c { addr, type := .read } none, { sys with
        waitList := sys.waitList ++ [(sys.clk + cfg.latency, { addr, type := .read })] }) := by
    simp [send, getLines, hempty, isHit, findTag, miss, hitMshr, hmshr, hnum.symm, allSetsLocked,
      hassoc, allocate, makeRoom, needEviction, sendLower, pushLine, hlast, missed, missLine,
      without, setLines]
    rfl
  have hcallback : (missed cfg c { addr, type := .read } none).callback cfg
      { addr, type := .read } = .ok
        { cacheLines := update c.cacheLines (cfg.getIndex addr)
            [{ missLine cfg c { addr, type := .read } with lock := false }]
          mshrEntries := [], nodes := c.nodes + 1 } := by
    simp [callback, hitMshr, missed, hmshr, modifyLine, getLines, hempty, without, missLine,
      setLines]
    rfl
  exact ⟨_, _, _, _, hsend, hcallback, rfl, rfl⟩

end Cache

namespace L1

variable {cfg : CacheConfig}

def fetchAll (cfg : CacheConfig) (n : Nat) : List L1Op :=
  (List.range n).flatMap fun k : Nat =>
    [.send { addr := k * cfg.blockSize, type := .read },
      .callback { addr := k * cfg.blockSize, type := .read }]

theorem run_fetchAll {b : Nat} (hlast : cfg.isLastLevel = true) (hassoc : 0 < cfg.assoc)
    (hentries : cfg.mshrEntryNum ≠ 0) (hnum : cfg.blockNum = 0) (hblock : cfg.blockSize = 2 ^ b)
    {n : Nat} (hn : n ≤ 2 ^ 31) :
    ∃ l1, run cfg (fetchAll cfg n) = .ok l1 ∧ l1.cache.mshrEntries = [] ∧
      ∀ i, (l1.cache.cacheLines i).length = if 0 ≤ i ∧ i < n then 1 else 0 := by
  induction n with
  | zero =>
    refine ⟨{}, rfl, rfl, fun i => ?_⟩
    rw [if_neg (by omega)]
    rfl
  | succ n ih =>
    obtain ⟨l1, hrun, hmshr, hlines⟩ := ih (by omega)
    have hindex := CacheConfig.getIndex_block hnum hblock (k := n) (by omega)
    have hempty : l1.cache.cacheLines (cfg.getIndex (n * cfg.blockSize)) = [] := by
      apply eq_nil_of_length_eq_zero
      rw [hindex, hlines, if_neg (by omega)]
    obtain ⟨c₁, sys₁, c₂, line, hsend, hcallback, hdone, hset⟩ :=
      Cache.fetch hlast hassoc hentries l1.sys hmshr hempty
    refine ⟨⟨c₂, sys₁⟩, ?_, hdone, fun i => ?_⟩
    · unfold run fetchAll at hrun ⊢
      rw [range_succ, flatMap_append, foldlM_append, hrun]
      simp [step, hsend, hcallback, bind, Except.bind, pure, Except.pure]
    · show (c₂.cacheLines i).length = _
      rw [hset, hindex]
      by_cases hi : i = n
      · rw [hi, update_self, if_pos (by omega)]
        rfl
      · rw [update_of_ne hi, hlines]
        congr 1
        rw [eq_iff_iff]
        omega

/-- No sequence of calls makes a last-level cache hold more than its size, just
    if one set fits into it or it has no MSHR entries. -/
theorem run_fits_iff (hlevel : cfg.level = .l1) (h : cfg.Accepted) :
    (∀ ops, Ends (run cfg ops) (fun l1 => Cache.Fits cfg l1.cache) (fun e => e = .requestType)) ↔
      cfg.assoc * cfg.blockSize ≤ cfg.size ∨ cfg.mshrEntryNum = 0 := by
  obtain ⟨a, b, s, hassoc, hblock, hsize, hle, hs⟩ := h.powers
  have hlast : cfg.isLastLevel = true := by
    unfold CacheConfig.isLastLevel
    rw [hlevel]
    rfl
  have hpow : cfg.assoc * cfg.blockSize ≤ cfg.size ↔ a + b ≤ s := by
    rw [hassoc, hblock, hsize, ← pow_add]
    exact Nat.pow_le_pow_iff_right (by omega)
  constructor
  · intro hfits
    by_contra hnot
    obtain ⟨hbig, hentries⟩ := not_or.mp hnot
    have hnum : cfg.blockNum = 0 := by
      unfold CacheConfig.blockNum
      rw [Nat.mul_comm]
      exact Nat.div_eq_of_lt (by omega)
    -- one block more than there is room for
    have hroom : cfg.size / cfg.blockSize + 1 ≤ 2 ^ 31 :=
      (Nat.div_le_self _ _).trans_lt h.range.1
    obtain ⟨l1, hrun, -, hlines⟩ := run_fetchAll hlast (by rw [hassoc]; positivity) hentries hnum
      hblock hroom
    have hsum := (hfits _).result hrun (Finset.Ico 0 (cfg.size / cfg.blockSize + 1 : Nat))
    rw [Finset.sum_congr rfl (g := fun _ => 1) (fun i hi => by
      rw [hlines, if_pos (Finset.mem_Ico.mp hi)])] at hsum
    simp at hsum
  · rintro (hone | hnone) ops
    · have hp : cfg.Proper := ⟨hlevel, a, b, s, hassoc, hblock, hsize, hpow.mp hone, hs⟩
      exact (run_inv hp ops).weaken fun l1 hinv => hinv.fits hp
    · have hempty : Ends (run cfg ops) (fun l1 => l1.cache = {}) (fun e => e = .requestType) := by
        apply Ends.foldlM (I := fun l1 : L1 => l1.cache = {}) ops rfl
        rintro ⟨_, sys⟩ op _ rfl
        cases op with
        | send req =>
          apply Ends.bind (Cache.send_empty hlast hnone sys req)
          rintro out hout
          exact hout
        | callback req => rfl
        | system sys => rfl
      refine hempty.weaken fun l1 hl1 sets => ?_
      simp [hl1]

/-- Sixteen lines of a block each, in sets of two. -/
theorem run_fits_iff_small : (∀ ops, Ends (run ⟨1024, 2, 64, 16, .l1, false⟩ ops)
      (fun l1 => Cache.Fits ⟨1024, 2, 64, 16, .l1, false⟩ l1.cache) (fun e => e = .requestType)) ↔
      2 * 64 ≤ 1024 ∨ 16 = 0 :=
  run_fits_iff rfl ⟨by decide, by decide, by decide, by decide, by decide, by decide⟩

/-- The geometry `Core::Core` gives the L2 in PIM mode, one block in sets of
    eight, in a last-level cache: it is accepted, and two reads leave two lines
    where there is room for one. -/
theorem fits_single_block : CacheConfig.Accepted ⟨64, 8, 64, 16, .l1, true⟩ ∧
      ∃ l1, run ⟨64, 8, 64, 16, .l1, true⟩ [.send { addr := 0, type := .read },
          .send { addr := 64, type := .read }] = .ok l1 ∧
        (l1.cache.cacheLines 0).length + (l1.cache.cacheLines 1).length = 2 ∧
        ¬ Cache.Fits ⟨64, 8, 64, 16, .l1, true⟩ l1.cache := by
  refine ⟨⟨by decide, by decide, by decide, by decide, by decide, by decide⟩, ?_⟩
  have hrun : (run ⟨64, 8, 64, 16, .l1, true⟩ [.send { addr := 0, type := .read },
      .send { addr := 64, type := .read }]).toOption.map (fun l1 =>
        (l1.cache.cacheLines 0).length + (l1.cache.cacheLines 1).length) = some 2 := by
    decide +kernel
  obtain ⟨l1, hl1, htwo⟩ := exists_ok_of_map hrun
  refine ⟨l1, hl1, htwo, fun hfits => ?_⟩
  have hle := hfits {0, 1}
  rw [Finset.sum_pair (by decide), htwo] at hle
  revert hle
  decide

end L1

end Ramulator
