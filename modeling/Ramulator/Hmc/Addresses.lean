/-
  Ramulator.Hmc.Addresses

  What becomes of an address before and in `send`.

  `page_allocator` leaves an address as it is, or moves it to a physical page
  of the memory.  `send` then cuts it to the capacity: for a capacity that is a
  power of two the address is kept if it is one of the memory, and otherwise
  another one, in another block (`cutAddr_block_iff`).
-/

import Ramulator.Lib.Bits
import Ramulator.Hmc.MemorySteps

namespace Ramulator

open Outcome List Function

namespace Memory

variable {cfg : MemoryConfig} {m m' : Memory} {pages : List Int} {addr : Int} {page : Nat}

def InCapacity (cfg : MemoryConfig) (addr : Int) : Prop := 0 ≤ addr ∧ addr < cfg.maxAddress

/-- The pages lie in the memory, and the table has no others. -/
structure PagesOk (cfg : MemoryConfig) (m : Memory) : Prop where
  size : m.freePhysicalPages.length ≤ cfg.maxAddress >>> 12
  page : ∀ target page, m.pageTranslation target = some page →
    0 ≤ page ∧ page < m.freePhysicalPages.length

def PagesOnly (m m' : Memory) : Prop :=
  ∃ translation pages remaining count, m' = { m with
    pageTranslation := translation, freePhysicalPages := pages
    freePhysicalPagesRemaining := remaining, lrandCount := count }

theorem searchPage_lt (start fuel : Nat) (h : page < pages.length) :
    searchPage pages start fuel page < pages.length := by
  induction fuel generalizing page with
  | zero => exact h
  | succ fuel ih =>
    have hmod : (page + 1) % pages.length < pages.length := Nat.mod_lt _ (by omega)
    unfold searchPage
    dsimp only
    split
    · exact ih hmod
    · exact hmod

theorem PagesOk.enter (h : PagesOk cfg m) (target : Int × Int)
    (hpage : page < m.freePhysicalPages.length) (hpages : pages.length = m.freePhysicalPages.length)
    (remaining count : Nat) : PagesOk cfg { m with
      pageTranslation := update m.pageTranslation target (some (page : Int))
      freePhysicalPages := pages, freePhysicalPagesRemaining := remaining, lrandCount := count }
      where
  size := by
    show pages.length ≤ _
    rw [hpages]
    exact h.size
  page := by
    intro target' page' heq
    dsimp only at heq
    show 0 ≤ page' ∧ page' < (pages.length : Int)
    rw [hpages]
    by_cases ht : target' = target
    · subst ht
      rw [update_self] at heq
      cases heq
      omega
    · rw [update_of_ne ht] at heq
      exact h.page target' page' heq

theorem pageOf_ends (h : PagesOk cfg m) (target : Int × Int) : Yields (m.pageOf cfg target)
      (fun out => PagesOk cfg out.2 ∧ PagesOnly m out.2 ∧
        0 ≤ out.1 ∧ out.1 < (cfg.maxAddress >>> 12 : Nat)) := by
  have hsize := h.size
  unfold pageOf
  split
  · next page hpage =>
    obtain ⟨hle, hlt⟩ := h.page target page hpage
    refine ⟨h, ⟨_, _, _, _, rfl⟩, hle, ?_⟩
    show page < _
    omega
  · unfold assignPage
    apply Ends.bind ((Vec.at_ends _ _).ignore)
    rintro owner ⟨-, howner⟩
    rw [Int.toNat_natCast] at howner
    have hpage := (List.getElem?_eq_some_iff.mp howner).1
    dsimp only at hpage ⊢
    apply Ends.ite
    · intro _
      apply Ends.ite
      · intro _
        trivial
      · intro _
        refine ⟨h.enter target hpage rfl _ _, ⟨_, _, _, _, rfl⟩, by omega, ?_⟩
        show ((_ : Nat) : Int) < _
        omega
    · intro _
      -- the page drawn, or the next free one
      have hfound : (if owner = -1 then cfg.lrand m.lrandCount % m.freePhysicalPages.length
          else searchPage m.freePhysicalPages
            (cfg.lrand m.lrandCount % m.freePhysicalPages.length) m.freePhysicalPages.length
            (cfg.lrand m.lrandCount % m.freePhysicalPages.length)) <
          m.freePhysicalPages.length := by
        split
        · exact hpage
        · exact searchPage_lt _ _ hpage
      apply Ends.ite
      · intro _
        refine ⟨h.enter target hfound length_set _ _, ⟨_, _, _, _, rfl⟩, by omega, ?_⟩
        show ((_ : Nat) : Int) < _
        omega
      · intro _
        trivial

/-- `page_allocator` touches the page table only, and with random translation it
    returns an address of the memory. -/
theorem pageAllocator_ends (h : PagesOk cfg m) (addr coreid : Int) :
    Yields (m.pageAllocator cfg addr coreid) (fun out => PagesOk cfg out.2 ∧ PagesOnly m out.2 ∧
        (cfg.translation = .none → out.1 = addr) ∧
        (cfg.translation = .random → InCapacity cfg out.1)) := by
  unfold pageAllocator
  split
  · next hnone =>
    refine ⟨h, ⟨_, _, _, _, rfl⟩, fun _ => rfl, fun hrandom => ?_⟩
    rw [hnone] at hrandom
    cases hrandom
  · next hrandom =>
    apply Ends.bind (pageOf_ends h _)
    rintro ⟨page, m'⟩ ⟨hpages, honly, hle, hlt⟩
    apply Ends.pure
    refine ⟨hpages, honly, fun hnone => ?_, fun _ => ?_⟩
    · rw [hrandom] at hnone
      cases hnone
    · rw [Nat.shiftRight_eq_div_pow] at hlt
      show 0 ≤ page * 2 ^ 12 + addr % 2 ^ 12 ∧ page * 2 ^ 12 + addr % 2 ^ 12 < cfg.maxAddress
      dsimp only at hle hlt
      omega

def TableGrows (m m' : Memory) : Prop :=
  ∀ target page, m.pageTranslation target = some page → m'.pageTranslation target = some page

/-- Where the page table puts an address of an address space. -/
def Placed (cfg : MemoryConfig) (m : Memory) (coreid addr phys : Int) : Prop :=
  match cfg.translation with
  | .none => phys = addr
  | .random => ∃ page, m.pageTranslation (coreid, addr >>> 12) = some page ∧
      phys = page * 2 ^ 12 + addr % 2 ^ 12

theorem Placed.grow {coreid phys : Int} (h : Placed cfg m coreid addr phys)
    (hgrow : TableGrows m m') : Placed cfg m' coreid addr phys := by
  unfold Placed at h ⊢
  split
  · next hnone => rwa [hnone] at h
  · next hrandom =>
    rw [hrandom] at h
    obtain ⟨page, hpage, hphys⟩ := h
    exact ⟨page, hgrow _ page hpage, hphys⟩

theorem pageOf_table (m : Memory) (target : Int × Int) : Yields (m.pageOf cfg target)
      (fun out => TableGrows m out.2 ∧ out.2.pageTranslation target = some out.1) := by
  unfold pageOf
  split
  · next page hpage => exact ⟨fun _ _ h => h, hpage⟩
  · next hnone =>
    -- a new entry, for a target that has none
    have hnew (page : Int) (table : Int × Int → Option Int)
        (htable : table = update m.pageTranslation target (some page)) :
        (∀ target' page', m.pageTranslation target' = some page' →
          table target' = some page') ∧ table target = some page := by
      subst htable
      refine ⟨fun target' page' h => ?_, update_self ..⟩
      rw [update_of_ne]
      · exact h
      · intro heq
        rw [heq, hnone] at h
        cases h
    unfold assignPage
    apply Ends.bind (Ends.ran (Vec.at _ _))
    intro owner _
    apply Ends.ite
    · intro _
      apply Ends.ite
      · intro _
        trivial
      · intro _
        exact hnew _ _ rfl
    · intro _
      apply Ends.ite
      · intro _
        exact hnew _ _ rfl
      · intro _
        trivial

theorem pageAllocator_placed (m : Memory) (addr coreid : Int) :
    Yields (m.pageAllocator cfg addr coreid)
      (fun out => TableGrows m out.2 ∧ Placed cfg out.2 coreid addr out.1) := by
  unfold pageAllocator Placed
  cases cfg.translation with
  | none => exact ⟨fun _ _ h => h, rfl⟩
  | random =>
    apply Ends.bind (pageOf_table m _)
    rintro ⟨page, m'⟩ ⟨hgrow, hpage⟩
    exact ⟨hgrow, page, hpage, rfl⟩

theorem PagesOk.new (cfg : MemoryConfig) : PagesOk cfg (Memory.new cfg) where
  size := by
    unfold Memory.new
    dsimp only
    split
    · exact Nat.zero_le _
    · rw [length_replicate]
  page target page h := by cases h

theorem PagesOk.tick {junk : Nat → Int} (h : PagesOk cfg m) (htick : m.tick cfg junk = .ok m') :
    PagesOk cfg m' := by
  have hends : Yields (m.tick cfg junk) (PagesOk cfg) := by
    apply tick_ends (I := PagesOk cfg)
    · intro m₁ m₂ h₁ hstep
      cases hstep with
      | clock => exact ⟨h₁.size, h₁.page⟩
      | ctrl => exact ⟨h₁.size, h₁.page⟩
      | link hticked => cases hticked <;> exact ⟨h₁.size, h₁.page⟩
      | forward hforward => cases hforward <;> exact ⟨h₁.size, h₁.page⟩
      | backward hbackward => cases hbackward <;> exact ⟨h₁.size, h₁.page⟩
    · intro _ _ _ _
      trivial
    · exact h
  exact hends.result htick

/-! ## The cut to the capacity -/

def cutAddr (cfg : MemoryConfig) (addr : Int) : Int := clearHigherBits addr (cfg.maxAddress - 1)

section Cut

variable {k : Nat} (hpow : cfg.maxAddress = 2 ^ k)
include hpow

theorem maxAddress_cast : (cfg.maxAddress : Int) = 2 ^ k := by
  rw [hpow, Nat.cast_pow]
  rfl

theorem cutAddr_eq (addr : Int) : cutAddr cfg addr = addr % cfg.maxAddress := by
  have hmask : ((cfg.maxAddress - 1 : Nat) : Int) = 2 ^ k - 1 := by
    rw [hpow, Nat.cast_sub Nat.one_le_two_pow, Nat.cast_pow]
    rfl
  have hpos : (0 : Int) < 2 ^ k := pow_pos (by omega) k
  have hle := Int.emod_nonneg addr hpos.ne'
  unfold cutAddr clearHigherBits
  rw [hmask, Bits.land_two_pow_sub_one, maxAddress_cast hpow, Int.toNat_of_nonneg hle]

theorem cutAddr_of_inCapacity (h : InCapacity cfg addr) : cutAddr cfg addr = addr := by
  rw [cutAddr_eq hpow]
  exact Int.emod_eq_of_lt h.1 h.2

/-- The block of an address, for blocks that fit into the memory, is kept for
    an address of the memory only. -/
theorem cutAddr_block_iff {b : Nat} (hb : b ≤ k) (hnonneg : 0 ≤ addr) :
    addr / 2 ^ b = cutAddr cfg addr / 2 ^ b ↔ addr < cfg.maxAddress := by
  have hposb : (0 : Int) < 2 ^ b := pow_pos (by omega) b
  have hposk : (0 : Int) < 2 ^ k := pow_pos (by omega) k
  have hsplit : (2 : Int) ^ k = 2 ^ (k - b) * 2 ^ b := by
    rw [← pow_add]
    congr 1
    omega
  constructor
  · intro hblock
    by_contra hge
    rw [maxAddress_cast hpow] at hge
    -- the block number is too large for what is left of the address
    have hlarge : (2 : Int) ^ (k - b) ≤ addr / 2 ^ b := by
      apply Int.le_ediv_of_mul_le hposb
      rw [← hsplit]
      omega
    have hsmall : cutAddr cfg addr / 2 ^ b < 2 ^ (k - b) := by
      apply Int.ediv_lt_of_lt_mul hposb
      rw [cutAddr_eq hpow, maxAddress_cast hpow, ← hsplit]
      exact Int.emod_lt_of_pos addr hposk
    omega
  · intro hlt
    rw [cutAddr_of_inCapacity hpow ⟨hnonneg, hlt⟩]

end Cut

end Memory

end Ramulator
