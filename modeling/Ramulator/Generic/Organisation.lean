/-
  Ramulator.Generic.Organisation

  The organisations of the standards that `Memory<T>` is built for (`org_table`
  of each standard, its constructor, `set_channel_number` and `set_rank_number`).

  A standard has its levels from the channel to the column, and an organisation
  says how many nodes a node of each level has below it.  Channels and ranks come
  from the configuration.  SALP and DSARP cut the rows of a bank into subarrays,
  and WideIO2 has no table but an entry for each number of channels.

  All counts are powers of two but the rows of some LPDDR3 and LPDDR4 parts
  (`Regular`).
-/

import Mathlib.Algebra.BigOperators.Group.List.Basic
import Mathlib.Algebra.Ring.Nat
import Mathlib.Data.Nat.Log

namespace Ramulator

open List

namespace Generic

inductive Standard where
  | ddr3 | ddr4 | salp | lpddr3 | lpddr4 | gddr5 | hbm | wideIo | wideIo2 | dsarp | aldram | tldram
deriving DecidableEq, Repr

inductive Level where
  | channel | rank | bankGroup | bank | subArray | row | column
deriving DecidableEq, Repr

structure OrgEntry where
  size : Nat
  dq : Nat
  count : List Nat
deriving DecidableEq, Repr

namespace Standard

def levels : Standard → List Level
  | ddr3 | lpddr3 | lpddr4 | wideIo | wideIo2 | aldram | tldram =>
    [.channel, .rank, .bank, .row, .column]
  | ddr4 | gddr5 | hbm => [.channel, .rank, .bankGroup, .bank, .row, .column]
  | salp | dsarp => [.channel, .rank, .bank, .subArray, .row, .column]

def isLPDDR : Standard → Bool
  | lpddr3 | lpddr4 => true
  | _ => false

def prefetchSize : Standard → Nat
  | lpddr4 | dsarp => 16
  | hbm | wideIo | wideIo2 => 4
  | _ => 8

/-- `channel_width`, if it is not extended. -/
def channelWidth : Standard → Nat
  | lpddr4 | dsarp => 32
  | hbm | wideIo => 128
  | _ => 64

/-- The table of DDR3, which ALDRAM and TLDRAM share up to the parts with more
    banks. -/
def ddr3Table : List OrgEntry :=
  [⟨512, 4, [0, 0, 8, 1 <<< 13, 1 <<< 11]⟩, ⟨512, 8, [0, 0, 8, 1 <<< 13, 1 <<< 10]⟩,
   ⟨512, 16, [0, 0, 8, 1 <<< 12, 1 <<< 10]⟩,
   ⟨1 <<< 10, 4, [0, 0, 8, 1 <<< 14, 1 <<< 11]⟩, ⟨1 <<< 10, 8, [0, 0, 8, 1 <<< 14, 1 <<< 10]⟩,
   ⟨1 <<< 10, 16, [0, 0, 8, 1 <<< 13, 1 <<< 10]⟩,
   ⟨2 <<< 10, 4, [0, 0, 8, 1 <<< 15, 1 <<< 11]⟩, ⟨2 <<< 10, 8, [0, 0, 8, 1 <<< 15, 1 <<< 10]⟩,
   ⟨2 <<< 10, 16, [0, 0, 8, 1 <<< 14, 1 <<< 10]⟩,
   ⟨4 <<< 10, 4, [0, 0, 8, 1 <<< 16, 1 <<< 11]⟩, ⟨4 <<< 10, 8, [0, 0, 8, 1 <<< 16, 1 <<< 10]⟩,
   ⟨4 <<< 10, 16, [0, 0, 8, 1 <<< 15, 1 <<< 10]⟩,
   ⟨8 <<< 10, 4, [0, 0, 8, 1 <<< 16, 1 <<< 12]⟩, ⟨8 <<< 10, 8, [0, 0, 8, 1 <<< 16, 1 <<< 11]⟩,
   ⟨8 <<< 10, 16, [0, 0, 8, 1 <<< 16, 1 <<< 10]⟩]

/-- `org_table`.  The channels and the ranks are set later, but for the one rank
    of GDDR5 and WideIO. -/
def orgTable : Standard → List OrgEntry
  | ddr3 => ddr3Table ++
     [⟨2 <<< 10, 16, [0, 0, 16, 1 <<< 13, 1 <<< 10]⟩,
      ⟨2 <<< 10, 16, [0, 0, 32, 1 <<< 12, 1 <<< 10]⟩,
      ⟨2 <<< 10, 16, [0, 0, 64, 1 <<< 11, 1 <<< 10]⟩,
      ⟨2 <<< 10, 16, [0, 0, 128, 1 <<< 10, 1 <<< 10]⟩,
      ⟨2 <<< 10, 16, [0, 0, 256, 1 <<< 9, 1 <<< 10]⟩]
  | aldram | tldram => ddr3Table
  | ddr4 =>
     [⟨2 <<< 10, 4, [0, 0, 4, 4, 1 <<< 15, 1 <<< 10]⟩,
      ⟨2 <<< 10, 8, [0, 0, 4, 4, 1 <<< 14, 1 <<< 10]⟩,
      ⟨2 <<< 10, 16, [0, 0, 2, 4, 1 <<< 14, 1 <<< 10]⟩,
      ⟨4 <<< 10, 4, [0, 0, 4, 4, 1 <<< 16, 1 <<< 10]⟩,
      ⟨4 <<< 10, 8, [0, 0, 4, 4, 1 <<< 15, 1 <<< 10]⟩,
      ⟨4 <<< 10, 16, [0, 0, 2, 4, 1 <<< 15, 1 <<< 10]⟩,
      ⟨8 <<< 10, 4, [0, 0, 4, 4, 1 <<< 17, 1 <<< 10]⟩,
      ⟨8 <<< 10, 8, [0, 0, 4, 4, 1 <<< 16, 1 <<< 10]⟩,
      ⟨8 <<< 10, 16, [0, 0, 2, 4, 1 <<< 16, 1 <<< 10]⟩]
  | lpddr3 =>
     [⟨4 <<< 10, 16, [0, 0, 8, 1 <<< 14, 1 <<< 11]⟩, ⟨4 <<< 10, 32, [0, 0, 8, 1 <<< 14, 1 <<< 10]⟩,
      ⟨6 <<< 10, 16, [0, 0, 8, 3 <<< 13, 1 <<< 11]⟩, ⟨6 <<< 10, 32, [0, 0, 8, 3 <<< 13, 1 <<< 10]⟩,
      ⟨8 <<< 10, 16, [0, 0, 8, 1 <<< 15, 1 <<< 11]⟩, ⟨8 <<< 10, 32, [0, 0, 8, 1 <<< 15, 1 <<< 10]⟩,
      ⟨12 <<< 10, 16, [0, 0, 8, 3 <<< 13, 1 <<< 12]⟩,
      ⟨12 <<< 10, 32, [0, 0, 8, 3 <<< 13, 1 <<< 11]⟩,
      ⟨16 <<< 10, 16, [0, 0, 8, 1 <<< 15, 1 <<< 12]⟩,
      ⟨16 <<< 10, 32, [0, 0, 8, 1 <<< 15, 1 <<< 11]⟩]
  | lpddr4 =>
     [⟨2 <<< 10, 16, [0, 0, 8, 1 <<< 14, 1 <<< 10]⟩,
      ⟨3 <<< 10, 16, [0, 0, 8, 3 <<< 13, 1 <<< 10]⟩,
      ⟨4 <<< 10, 16, [0, 0, 8, 1 <<< 15, 1 <<< 10]⟩]
  | gddr5 =>
     [⟨512, 16, [0, 1, 4, 2, 1 <<< 12, 1 <<< (7 + 3)]⟩,
      ⟨512, 32, [0, 1, 4, 2, 1 <<< 12, 1 <<< (6 + 3)]⟩,
      ⟨1 <<< 10, 16, [0, 1, 4, 4, 1 <<< 12, 1 <<< (7 + 3)]⟩,
      ⟨1 <<< 10, 32, [0, 1, 4, 4, 1 <<< 12, 1 <<< (6 + 3)]⟩,
      ⟨2 <<< 10, 16, [0, 1, 4, 4, 1 <<< 13, 1 <<< (7 + 3)]⟩,
      ⟨2 <<< 10, 32, [0, 1, 4, 4, 1 <<< 13, 1 <<< (6 + 3)]⟩,
      ⟨4 <<< 10, 16, [0, 1, 4, 4, 1 <<< 14, 1 <<< (7 + 3)]⟩,
      ⟨2 <<< 10, 32, [0, 1, 4, 4, 1 <<< 14, 1 <<< (6 + 3)]⟩,
      ⟨8 <<< 10, 16, [0, 1, 4, 4, 1 <<< 14, 1 <<< (8 + 3)]⟩,
      ⟨8 <<< 10, 32, [0, 1, 4, 4, 1 <<< 14, 1 <<< (7 + 3)]⟩,
      ⟨2 <<< 10, 16, [0, 1, 4, 8, 1 <<< 12, 1 <<< (7 + 3)]⟩,
      ⟨2 <<< 10, 16, [0, 1, 4, 16, 1 <<< 11, 1 <<< (7 + 3)]⟩,
      ⟨2 <<< 10, 16, [0, 1, 4, 32, 1 <<< 10, 1 <<< (7 + 3)]⟩,
      ⟨2 <<< 10, 16, [0, 1, 4, 64, 1 <<< 9, 1 <<< (7 + 3)]⟩,
      ⟨2 <<< 10, 16, [0, 1, 4, 128, 1 <<< 8, 1 <<< (7 + 3)]⟩]
  | hbm =>
     [⟨1 <<< 10, 128, [0, 0, 4, 2, 1 <<< 13, 1 <<< (6 + 1)]⟩,
      ⟨2 <<< 10, 128, [0, 0, 4, 2, 1 <<< 14, 1 <<< (6 + 1)]⟩,
      ⟨4 <<< 10, 128, [0, 0, 4, 4, 1 <<< 14, 1 <<< (6 + 1)]⟩,
      ⟨4 <<< 10, 128, [0, 0, 4, 8, 1 <<< 13, 1 <<< (6 + 1)]⟩,
      ⟨4 <<< 10, 128, [0, 0, 4, 16, 1 <<< 12, 1 <<< (6 + 1)]⟩,
      ⟨4 <<< 10, 128, [0, 0, 4, 32, 1 <<< 11, 1 <<< (6 + 1)]⟩,
      ⟨4 <<< 10, 128, [0, 0, 4, 64, 1 <<< 10, 1 <<< (6 + 1)]⟩,
      ⟨4 <<< 10, 128, [0, 0, 4, 128, 1 <<< 9, 1 <<< (6 + 1)]⟩]
  | wideIo =>
     [⟨256, 128, [0, 1, 4, 1 <<< 12, 1 <<< 7]⟩, ⟨512, 128, [0, 1, 4, 1 <<< 13, 1 <<< 7]⟩,
      ⟨1024, 128, [0, 1, 4, 1 <<< 14, 1 <<< 7]⟩, ⟨2048, 128, [0, 1, 4, 1 <<< 15, 1 <<< 7]⟩]
  | wideIo2 => []
  | salp =>
     [⟨512, 4, [0, 0, 8, 0, 0, 1 <<< 11]⟩, ⟨512, 8, [0, 0, 8, 0, 0, 1 <<< 10]⟩,
      ⟨512, 16, [0, 0, 8, 0, 0, 1 <<< 10]⟩,
      ⟨1 <<< 10, 4, [0, 0, 8, 0, 0, 1 <<< 11]⟩, ⟨1 <<< 10, 8, [0, 0, 8, 0, 0, 1 <<< 10]⟩,
      ⟨1 <<< 10, 16, [0, 0, 8, 0, 0, 1 <<< 10]⟩,
      ⟨2 <<< 10, 4, [0, 0, 8, 0, 0, 1 <<< 11]⟩, ⟨2 <<< 10, 8, [0, 0, 8, 0, 0, 1 <<< 10]⟩,
      ⟨2 <<< 10, 16, [0, 0, 8, 0, 0, 1 <<< 10]⟩,
      ⟨4 <<< 10, 4, [0, 0, 8, 0, 0, 1 <<< 11]⟩, ⟨4 <<< 10, 8, [0, 0, 8, 0, 0, 1 <<< 10]⟩,
      ⟨4 <<< 10, 16, [0, 0, 8, 0, 0, 1 <<< 10]⟩,
      ⟨8 <<< 10, 4, [0, 0, 8, 0, 0, 1 <<< 12]⟩, ⟨8 <<< 10, 8, [0, 0, 8, 0, 0, 1 <<< 11]⟩,
      ⟨8 <<< 10, 16, [0, 0, 8, 0, 0, 1 <<< 10]⟩]
  | dsarp =>
     [⟨8 <<< 10, 8, [0, 0, 8, 0, 1 <<< 16, 1 <<< 11]⟩,
      ⟨16 <<< 10, 8, [0, 0, 8, 0, 1 <<< 17, 1 <<< 11]⟩,
      ⟨32 <<< 10, 8, [0, 0, 8, 0, 1 <<< 18, 1 <<< 11]⟩]

end Standard

/-- What the configuration says about the memory. -/
structure OrgConfig where
  standard : Standard
  /-- The position of the organisation in its table. -/
  org : Nat
  channels : Nat
  ranks : Nat
  /-- `subarrays`. -/
  nSa : Nat := 8
  /-- The factor by which `channel_width` is extended. -/
  gang : Nat := 1

def isPowerOfTwo (n : Nat) : Bool := n &&& (n - 1) == 0

namespace OrgEntry

/-- The subarrays of SALP and DSARP, and the rows of each. -/
def withSubarrays (e : OrgEntry) (nSa : Nat) : OrgEntry :=
  let tmp := e.dq * e.count.getD 2 0 * nSa * e.count.getD 5 0
  { e with count := (e.count.set 3 nSa).set 4 (e.size * 2 ^ 20 / tmp) }

/-- `set_channel_number` and `set_rank_number`. -/
def withChannels (e : OrgEntry) (channels ranks : Nat) : OrgEntry :=
  { e with count := channels :: ranks :: e.count.drop 2 }

end OrgEntry

namespace OrgConfig

variable (cfg : OrgConfig)

/-- The entry that the constructor of the standard chooses; `none` if an assertion
    of it fails. -/
def chosen : Option OrgEntry :=
  match cfg.standard with
  | .salp | .dsarp =>
    -- a power of two within 1 and 128
    if cfg.nSa ≠ 0 ∧ cfg.nSa ≤ 128 ∧ isPowerOfTwo cfg.nSa then
      (cfg.standard.orgTable[cfg.org]?).map (·.withSubarrays cfg.nSa)
    else none
  | .wideIo2 =>
    if cfg.org = 0 ∧ cfg.channels = 4 then
      some ⟨2 <<< 10, 64, [4, 0, 8, 1 <<< 13, 1 <<< 9]⟩
    else if cfg.org = 0 ∧ cfg.channels = 8 then
      some ⟨1 <<< 10, 64, [8, 0, 4, 1 <<< 14, 1 <<< 8]⟩
    else none
  | standard => standard.orgTable[cfg.org]?

/-- The assertions of `set_channel_number` and `set_rank_number`. -/
def numbersOk : Bool :=
  match cfg.standard with
  | .gddr5 => cfg.ranks = 1
  | .wideIo => cfg.channels = 4 ∧ cfg.ranks = 1
  | .wideIo2 => cfg.ranks = 1 ∨ cfg.ranks = 2
  | _ => true

def orgEntry : Option OrgEntry :=
  if cfg.numbersOk then cfg.chosen.map (·.withChannels cfg.channels cfg.ranks) else none

def channelWidth : Nat := cfg.standard.channelWidth * cfg.gang

end OrgConfig

/-! ## Powers of two -/

namespace OrgEntry

def row (e : OrgEntry) : Nat := e.count.getD (e.count.length - 2) 0

def column (e : OrgEntry) : Nat := e.count.getD (e.count.length - 1) 0

/-- The counts between the rank and the row. -/
def middle (e : OrgEntry) : List Nat := (e.count.drop 2).take (e.count.length - 4)

end OrgEntry

/-- What the tables have in common: powers of two but for the number of rows. -/
structure Regular (standard : Standard) (middle : List Nat) (row column : Nat) : Prop where
  levels : middle.length + 4 = standard.levels.length
  middle_pow : ∀ n ∈ middle, 2 ^ n.log2 = n
  row_pos : 0 < row
  column_pow : 2 ^ column.log2 = column
  prefetch_le : standard.prefetchSize ≤ column
  capacity : 2 ^ 12 ≤ (middle ++ [row, column]).prod

instance (standard : Standard) (middle : List Nat) (row column : Nat) :
    Decidable (Regular standard middle row column) :=
  decidable_of_iff (middle.length + 4 = standard.levels.length ∧
      (∀ n ∈ middle, 2 ^ n.log2 = n) ∧ 0 < row ∧ 2 ^ column.log2 = column ∧
      standard.prefetchSize ≤ column ∧ 2 ^ 12 ≤ (middle ++ [row, column]).prod)
    ⟨fun ⟨h₁, h₂, h₃, h₄, h₅, h₆⟩ => ⟨h₁, h₂, h₃, h₄, h₅, h₆⟩,
      fun ⟨h₁, h₂, h₃, h₄, h₅, h₆⟩ => ⟨h₁, h₂, h₃, h₄, h₅, h₆⟩⟩

def OrgEntry.BelowRegular (standard : Standard) (e : OrgEntry) : Prop :=
  e.count.drop 2 = e.middle ++ [e.row, e.column] ∧ Regular standard e.middle e.row e.column

instance (standard : Standard) (e : OrgEntry) : Decidable (e.BelowRegular standard) :=
  inferInstanceAs (Decidable (_ ∧ _))

theorem orgTable_regular (standard : Standard) (hsalp : standard ≠ .salp)
    (hdsarp : standard ≠ .dsarp) : ∀ e ∈ standard.orgTable, e.BelowRegular standard := by
  cases standard <;> first | exact absurd rfl hsalp | exact absurd rfl hdsarp | decide +kernel

theorem withSubarrays_regular (nSa : Nat) (hle : nSa ≤ 128) : nSa ≠ 0 → isPowerOfTwo nSa →
      (∀ e ∈ Standard.orgTable .salp, (e.withSubarrays nSa).BelowRegular .salp) ∧
      ∀ e ∈ Standard.orgTable .dsarp, (e.withSubarrays nSa).BelowRegular .dsarp := by
  revert nSa
  decide +kernel

namespace OrgConfig

variable {cfg : OrgConfig} {e : OrgEntry}

theorem chosen_regular (h : cfg.chosen = some e) : e.BelowRegular cfg.standard := by
  have htable (hsalp : cfg.standard ≠ .salp) (hdsarp : cfg.standard ≠ .dsarp)
      (h : cfg.standard.orgTable[cfg.org]? = some e) : e.BelowRegular cfg.standard :=
    orgTable_regular _ hsalp hdsarp e (mem_of_getElem? h)
  unfold chosen at h
  split at h
  · next hstandard =>
    split at h
    · next hsub =>
      obtain ⟨e', he', rfl⟩ := Option.map_eq_some_iff.mp h
      rw [hstandard] at he' ⊢
      exact (withSubarrays_regular cfg.nSa hsub.2.1 hsub.1 hsub.2.2).1 e' (mem_of_getElem? he')
    · cases h
  · next hstandard =>
    split at h
    · next hsub =>
      obtain ⟨e', he', rfl⟩ := Option.map_eq_some_iff.mp h
      rw [hstandard] at he' ⊢
      exact (withSubarrays_regular cfg.nSa hsub.2.1 hsub.1 hsub.2.2).2 e' (mem_of_getElem? he')
    · cases h
  · next hstandard =>
    rw [hstandard]
    split at h
    · cases h
      decide +kernel
    · split at h
      · cases h
        decide +kernel
      · cases h
  · next standard hsalp hdsarp _ => exact htable hsalp hdsarp h

/-- The organisation of a memory: channels and ranks, and what the tables have in
    common below. -/
theorem orgEntry_regular (h : cfg.orgEntry = some e) :
    ∃ middle row column, e.count = cfg.channels :: cfg.ranks :: (middle ++ [row, column]) ∧
      Regular cfg.standard middle row column := by
  unfold orgEntry at h
  split at h
  · obtain ⟨e', he', rfl⟩ := Option.map_eq_some_iff.mp h
    obtain ⟨hdrop, hregular⟩ := chosen_regular he'
    refine ⟨_, _, _, ?_, hregular⟩
    rw [OrgEntry.withChannels, hdrop]
  · cases h

end OrgConfig

end Generic

end Ramulator
