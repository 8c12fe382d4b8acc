/-
  Ramulator.Generic.Memory

  The memory system of any other standard, `Memory<T>` (Memory.h).

  The constructor takes the organisation of the standard and fails if one of its
  assertions does.  `send` cuts the address into the components of a vector, one
  slice of low bits after the other, and hands the request to the controller of
  its channel.  The width of a slice is the logarithm of the level's count,
  rounded down.

  The statistics are left out.
-/

import Ramulator.Generic.Controller
import Ramulator.Generic.Organisation
import Ramulator.Pages

namespace Ramulator

open Outcome List

namespace Generic

inductive AddressingType where
  | chRaBaRoCo | roBaRaCoCh
deriving DecidableEq, Repr

structure MemoryConfig where
  org : OrgConfig
  type : AddressingType := .roBaRaCoCh
  translation : Translation := .none
  /-- `cacheline_size`. -/
  cachelineSize : Nat := 64
  /-- The values `lrand` returns, one after the other. -/
  lrand : Nat → Nat

/-- What the constructor computes, and what changes later. -/
structure Memory where
  maxAddress : Nat
  txBits : Nat
  addrBits : List Nat
  ctrls : List Controller
  pages : PagePool

namespace Memory

variable (cfg : MemoryConfig)

def transaction : Nat := cfg.org.standard.prefetchSize * cfg.org.channelWidth / 8

/-- `addr_bits`; a column address leaves out the bits of one prefetch. -/
def bitsOf (count : List Nat) : List Nat :=
  let bits := count.map Nat.log2
  bits.set (bits.length - 1)
    (bits.getD (bits.length - 1) 0 - Nat.log2 cfg.org.standard.prefetchSize)

/-- The constructor; `none` if one of its assertions fails. -/
def new : Option Memory := do
  let e ← cfg.org.orgEntry
  let txBits := Nat.log2 (transaction cfg)
  if isPowerOfTwo (e.count.getD 0 0) ∧ isPowerOfTwo (e.count.getD 1 0) ∧
      1 <<< txBits = transaction cfg ∧
      -- only the highest bits may be short of a power of two
      (cfg.type ≠ .roBaRaCoCh ∧ cfg.org.standard.isLPDDR → isPowerOfTwo e.row) then
    let maxAddress := cfg.org.channelWidth / 8 * e.count.prod
    some {
      maxAddress, txBits
      addrBits := bitsOf cfg e.count
      ctrls := replicate cfg.org.channels {}
      pages :=
        match cfg.translation with
        | .none => PagePool.new 0
        | .random => PagePool.new (maxAddress >>> 12) }
  else none

/-! ## Addresses -/

/-- `slice_lower_bits`: the low bits, and the address without them. -/
def sliceLowerBits (addr : Int) (bits : Nat) : Int × Int :=
  (Int.land addr (2 ^ bits - 1), addr >>> bits)

def slices : List Nat → Int → List Int
  | [], _ => []
  | bits :: rest, addr =>
    let (low, addr) := sliceLowerBits addr bits
    low :: slices rest addr

/-- The address vector of an address. -/
def addrVec (m : Memory) (addr : Int) : AddrVec :=
  let addr := addr >>> m.txBits
  match cfg.type with
  | .chRaBaRoCo => (slices m.addrBits.reverse addr).reverse
  | .roBaRaCoCh =>
    let (channel, addr) := sliceLowerBits addr (m.addrBits.getD 0 0)
    let (column, addr) := sliceLowerBits addr (m.addrBits.getD (m.addrBits.length - 1) 0)
    -- from level 1 to `Level::Row`, the last but one
    channel :: slices ((m.addrBits.drop 1).take (m.addrBits.length - 2)) addr ++ [column]

def prepare (m : Memory) (req : Request) : Request :=
  { req with
    addrVec := addrVec cfg m req.addr
    burstCount := (cfg.cachelineSize / 1 <<< m.txBits : Nat) }

def send (m : Memory) (req : Request) : Except Abort (Bool × Memory) := do
  let req := m.prepare cfg req
  let channel := req.addrVec.getD 0 0
  let ctrl ← Vec.at m.ctrls channel
  match ctrl.enqueue req with
  | none => pure (false, m)
  | some ctrl => pure (true, { m with ctrls := m.ctrls.set channel.toNat ctrl })

/-- `page_allocator`.  Without translation the pair is entered all the same. -/
def pageAllocator (m : Memory) (addr coreid : Int) : Except Abort (Int × Memory) :=
  match cfg.translation with
  | .none =>
    let target := (coreid, addr >>> 12)
    let table := m.pages.pageTranslation
    let page := (table target).getD (addr >>> 12)
    pure (addr, { m with
      pages := { m.pages with pageTranslation := Function.update table target (some page) } })
  | .random => do
      let (phys, pages) ← m.pages.pageAllocator cfg.lrand addr coreid
      pure (phys, { m with pages })

def pendingRequests (m : Memory) : Nat :=
  (m.ctrls.map fun ctrl =>
    ctrl.readq.length + ctrl.writeq.length + ctrl.otherq.length + ctrl.pending.length).sum

/-! ## The constructor -/

variable {cfg : MemoryConfig} {m : Memory}

theorem new_cases (h : new cfg = some m) :
    ∃ e, cfg.org.orgEntry = some e ∧ 1 <<< m.txBits = transaction cfg ∧
      m.maxAddress = cfg.org.channelWidth / 8 * e.count.prod ∧ m.addrBits = bitsOf cfg e.count ∧
      m.pages = match cfg.translation with
        | .none => PagePool.new 0
        | .random => PagePool.new (m.maxAddress >>> 12) := by
  obtain ⟨e, he, h⟩ := Option.bind_eq_some_iff.mp h
  dsimp only at h
  split at h
  · next hcheck =>
    cases h
    exact ⟨e, he, hcheck.2.2.1, rfl, rfl, rfl⟩
  · cases h

theorem channelWidth_dvd (cfg : OrgConfig) : 8 ∣ cfg.channelWidth := by
  apply Nat.dvd_mul_right_of_dvd
  cases cfg.standard <;> decide

theorem maxAddress_mul_prefetch (h : new cfg = some m) {e : OrgEntry}
    (he : cfg.org.orgEntry = some e) :
    m.maxAddress * cfg.org.standard.prefetchSize = 2 ^ m.txBits * e.count.prod := by
  obtain ⟨e', he', htx, hmax, -⟩ := new_cases h
  rw [he] at he'
  cases he'
  rw [Nat.one_shiftLeft, transaction, Nat.mul_div_assoc _ (channelWidth_dvd cfg.org)] at htx
  rw [hmax, htx, Nat.mul_right_comm, Nat.mul_comm (cfg.org.channelWidth / 8)]

theorem page_le_maxAddress (h : new cfg = some m) (hchannels : 0 < cfg.org.channels)
    (hranks : 0 < cfg.org.ranks) : 2 ^ 12 ≤ m.maxAddress := by
  obtain ⟨e, he, htx, hmax, -⟩ := new_cases h
  obtain ⟨middle, row, column, hcount, hregular⟩ := OrgConfig.orgEntry_regular he
  -- the transaction is not empty, so the channel has a width
  have hwidth : 0 < cfg.org.channelWidth / 8 := by
    have hpos : 0 < transaction cfg := by
      rw [← htx, Nat.one_shiftLeft]
      exact Nat.two_pow_pos _
    rw [transaction, Nat.mul_div_assoc _ (channelWidth_dvd cfg.org)] at hpos
    exact Nat.pos_of_mul_pos_left hpos
  rw [hmax, hcount, prod_cons, prod_cons]
  calc 2 ^ 12 ≤ (middle ++ [row, column]).prod := hregular.capacity
    _ ≤ cfg.org.ranks * (middle ++ [row, column]).prod := Nat.le_mul_of_pos_left _ hranks
    _ ≤ cfg.org.channels * (cfg.org.ranks * (middle ++ [row, column]).prod) :=
        Nat.le_mul_of_pos_left _ hchannels
    _ ≤ _ := Nat.le_mul_of_pos_left _ hwidth

end Memory

end Generic

/-! ## Pages of both memories -/

theorem HMC.page_le_capacity {cfg : MemoryConfig} {org : HMC.Org}
    (horg : cfg.hmc.org = HMC.orgTable org) : 2 ^ 12 ≤ cfg.capacityPerStack := by
  unfold MemoryConfig.capacityPerStack
  rw [horg]
  cases org <;> decide

/-- Random page allocation, in `Memory<HMC>` and in `Memory<T>`: no sequence of
    calls fails an assertion, and what it leaves is sound. -/
theorem page_allocators_sound (calls : List (Int × Int)) (hcalls : ∀ call ∈ calls, 0 ≤ call.2) :
    (∀ (cfg : MemoryConfig) (org : HMC.Org), cfg.hmc.org = HMC.orgTable org →
      0 < cfg.stackNumber → cfg.translation = .random →
      Ends (callPages (Memory.pageAllocator cfg) Memory.pagePool (Memory.new cfg) calls)
        (fun out => PagesSound cfg.maxAddress out.1 out.2.pagePool) (fun _ => False)) ∧
    (∀ (cfg : Generic.MemoryConfig) (m : Generic.Memory), Generic.Memory.new cfg = some m →
      0 < cfg.org.channels → 0 < cfg.org.ranks → cfg.translation = .random →
      Ends (callPages (Generic.Memory.pageAllocator cfg) Generic.Memory.pages m calls)
        (fun out => PagesSound m.maxAddress out.1 out.2.pages) (fun _ => False)) := by
  constructor
  · intro cfg org horg hstacks hrandom
    have hmax : 2 ^ 12 ≤ cfg.maxAddress :=
      Nat.le_trans (HMC.page_le_capacity horg) (Nat.le_mul_of_pos_right _ hstacks)
    have hnew : (Memory.new cfg).pagePool = PagePool.new (cfg.maxAddress >>> 12) := by
      unfold Memory.pagePool Memory.new
      rw [hrandom]
      rfl
    exact callPages_sound (Memory.pageAllocator_pagePool hrandom) hmax hnew calls hcalls
  · intro cfg m hm hchannels hranks hrandom
    have hmax := Generic.Memory.page_le_maxAddress hm hchannels hranks
    obtain ⟨e, -, -, -, -, hpages⟩ := Generic.Memory.new_cases hm
    rw [hrandom] at hpages
    have halloc (m : Generic.Memory) (addr coreid : Int) :
        Sim (SamePages Generic.Memory.pages) (m.pageAllocator cfg addr coreid)
          (m.pages.pageAllocator cfg.lrand addr coreid) := by
      unfold Generic.Memory.pageAllocator
      rw [hrandom]
      exact Sim.map_left _ (fun out => ⟨rfl, rfl⟩)
    exact callPages_sound halloc hmax hpages calls hcalls

def ddr3Channel (translation : Translation) : Generic.MemoryConfig where
  org := { standard := .ddr3, org := 0, channels := 1, ranks := 1 }
  translation := translation
  lrand := fun n => 5 * n

/-- Two cores and the same virtual page, in a stack of 4 Gb and in a channel of
    DDR3. -/
theorem page_allocators_sound_two_cores :
    (∃ out, callPages (Memory.pageAllocator (Memory.stackOf4Gb .random)) Memory.pagePool
        (Memory.new (Memory.stackOf4Gb .random)) [(64, 0), (64, 1), (8192, 0)] = .ok out ∧
      PagesSound (Memory.stackOf4Gb .random).maxAddress out.1 out.2.pagePool) ∧
    ∃ m out, Generic.Memory.new (ddr3Channel .random) = some m ∧
      callPages (Generic.Memory.pageAllocator (ddr3Channel .random)) Generic.Memory.pages m
        [(64, 0), (64, 1), (8192, 0)] = .ok out ∧ PagesSound m.maxAddress out.1 out.2.pages := by
  obtain ⟨m, hm⟩ := Option.isSome_iff_exists.mp
    (by decide : (Generic.Memory.new (ddr3Channel .random)).isSome)
  -- for any calls first: a run on these ones would be evaluated here
  have hruns (calls : List (Int × Int)) (hcalls : ∀ call ∈ calls, 0 ≤ call.2) :=
    page_allocators_sound calls hcalls
  have hstack (calls : List (Int × Int)) (hcalls : ∀ call ∈ calls, 0 ≤ call.2) :=
    ((hruns calls hcalls).1 (Memory.stackOf4Gb .random) .gb4 rfl Nat.one_pos rfl).exists_ok
  have hchannel (calls : List (Int × Int)) (hcalls : ∀ call ∈ calls, 0 ≤ call.2) :=
    ((hruns calls hcalls).2 (ddr3Channel .random) m hm Nat.one_pos Nat.one_pos rfl).exists_ok
  obtain ⟨out, hout⟩ := hchannel [(64, 0), (64, 1), (8192, 0)] (by decide)
  exact ⟨hstack [(64, 0), (64, 1), (8192, 0)] (by decide), m, out, hm, hout⟩

end Ramulator
