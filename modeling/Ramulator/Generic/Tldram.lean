/-
  Ramulator.Generic.Tldram

  The TLDRAM standard (TLDRAM.h, TLDRAM.cpp).

  One row of every `segment_ratio` is in the fast segment of its bank, and a
  migration (`MIG`) moves a row there.  Rows are opened by `ACT`, `ACTF` or
  `ACTM` and closed by `PRE`, `PREF` or `PREM`, depending on whether the row
  asked for is slow, fast, or to be migrated; the transitions are the same for
  the three and the timing is not.
-/

import Ramulator.Generic.Ddr

namespace Ramulator

open Generic

namespace TLDRAM

-- the enumeration `Level`
@[match_pattern] abbrev Level.rank : Nat := 1
@[match_pattern] abbrev Level.bank : Nat := 2
@[match_pattern] abbrev Level.row : Nat := 3
@[match_pattern] abbrev Level.column : Nat := 4
@[match_pattern] abbrev Level.channel : Nat := 0
abbrev Level.max : Nat := 5

def scope : Command → Nat
  | .act | .actf | .actm => Level.row
  | .pre | .pref | .prem => Level.bank
  | .rd | .wr | .mig => Level.column
  | _ => Level.rank

def isOpening : Command → Bool
  | .act | .actf | .actm => true
  | _ => false

def isAccessing : Command → Bool
  | .rd | .wr | .mig => true
  | _ => false

def isClosing : Command → Bool
  | .pre | .pref | .prem | .prea | .preaf | .pream => true
  | _ => false

/-- The table `translate`: an extension is a migration. -/
def translate : RequestType → Command
  | .extension => .mig
  | req => Generic.translate req

/-! ## Prerequisites, row hits, open rows -/

variable (segmentRatio : Int)

def prereqBankRd (node : Tree) (cmd : Command) (id : Int) : Option Command :=
  match node.val.state with
  | .closed => if id.tmod segmentRatio ≠ 0 then some .act else some .actf
  | .opened =>
    if (node.val.rowState id).isSome then some cmd
    else if id.tmod segmentRatio ≠ 0 then some .pre else some .pref
  | _ => none

def prereqBankMig (node : Tree) (cmd : Command) (id : Int) : Option Command :=
  match node.val.state with
  | .closed => some .actm
  | .opened => if (node.val.rowState id).isSome then some cmd else some .prem
  | _ => none

/-- `id` is the bank, and refreshes name none. -/
def prereqRankRef (node : Tree) (_cmd : Command) (id : Int) : Option Command :=
  if anyOpen 1 node then if id.tmod segmentRatio ≠ 0 then some .prea else some .preaf
  else some .ref

def prereq : Nat → Command → Option (Tree → Command → Int → Option Command)
  | Level.rank, .mig => some prereqRankRd
  | Level.rank, .ref => some (prereqRankRef segmentRatio)
  | Level.rank, cmd => rankPrereq 1 .prea cmd
  | Level.bank, .mig => some prereqBankMig
  | Level.bank, cmd => forRdWr (prereqBankRd segmentRatio) cmd
  | _, _ => none

/-- `init_rowhit`; there is no entry for `MIG`. -/
def rowhit : Nat → Command → Option (Tree → Command → Int → Bool)
  | Level.bank, cmd => forRdWr rowhitRd cmd
  | _, _ => none

/-- `init_rowopen`; there is no entry for `MIG`. -/
def rowopen : Nat → Command → Option (Tree → Command → Int → Bool)
  | Level.bank, cmd => forRdWr rowopenRd cmd
  | _, _ => none

/-! ## State transitions -/

def lambda : Nat → Command → Option (Tree → Int → Tree)
  | Level.rank, .prea | Level.rank, .preaf | Level.rank, .pream =>
    some fun node _ => closeBelow 1 node
  | Level.rank, cmd => rankLambda 1 cmd
  | Level.bank, .act | Level.bank, .actf | Level.bank, .actm => some openRow
  | Level.bank, .pre | Level.bank, .pref | Level.bank, .prem => some fun node _ => closeRows node
  | Level.bank, .rd | Level.bank, .wr | Level.bank, .mig => some fun node _ => node
  | _, _ => none

theorem lambda_rel (level : Nat) (cmd : Command) (f : Tree → Int → Tree)
    (hf : lambda level cmd = some f) (t : Tree) (id : Int) :
    NodeTree.Rel Node.SameFrame t (f t id) := by
  unfold lambda at hf
  split at hf
  case h_4 => exact rankLambda_rel hf t id
  all_goals cases hf
  all_goals simp [NodeTree.Rel.refl Node.SameFrame.refl]

/-! ## Timing -/

/-- `SpeedEntry`: that of DDR3, and the values of the fast segment and of migrations. -/
structure SpeedEntry extends DDR3.SpeedEntry where
  nRCDF : Int
  nRPF : Int
  nRASF : Int
  nRCF : Int
  nRCDM : Int
  nRPM : Int
  nRASM : Int
  nRCM : Int

/-- `speed_table[TLDRAM_1600K]`, as `init_speed` completes it for `TLDRAM_2Gb_x8`. -/
def speed1600K : SpeedEntry where
  nBL := 4
  nCCD := 4
  nRTRS := 2
  nCL := 11
  nRCD := 11
  nRP := 11
  nCWL := 8
  nRAS := 28
  nRC := 39
  nRTP := 6
  nWTR := 6
  nWR := 12
  nRRD := 5
  nFAW := 24
  nRFC := 128
  nREFI := 6240
  nPD := 4
  nXP := 5
  nCKESR := 5
  nXS := 136
  nRCDF := 3
  nRPF := 3
  nRASF := 10
  nRCF := 13
  nRCDM := 6
  nRPM := 6
  nRASM := 20
  nRCM := 26

def org2GbX8 : OrgEntry := ⟨2 <<< 10, 8, [1, 1, 8, 1 <<< 15, 1 <<< 10]⟩

def channelTiming (s : SpeedEntry) : Command → List (TimingEntry Command)
  | .rd | .mig => [entry .rd s.nBL, entry .mig s.nBL]
  | .wr => [entry .wr s.nBL]
  | _ => []

def rankOpening (s : SpeedEntry) (nRAS : Int) : List (TimingEntry Command) :=
  [entry .act s.nRRD, window .act s.nFAW, entry .actf s.nRRD, window .actf s.nFAW,
    entry .actm s.nRRD, window .actm s.nFAW, entry .pre nRAS, entry .prea nRAS, entry .pref nRAS,
    entry .preaf nRAS, entry .prem nRAS, entry .pream nRAS, entry .pde 1]

def rankClosing (nRP : Int) : List (TimingEntry Command) :=
  [entry .act nRP, entry .actf nRP, entry .actm nRP, entry .ref nRP, entry .sre nRP]

def rankTiming (s : SpeedEntry) : Command → List (TimingEntry Command)
  | .rd | .mig =>
    [entry .rd s.nCCD, entry .mig s.nCCD, entry .wr (s.nCL + s.nCCD + 2 - s.nCWL),
      sibling .rd (s.nBL + s.nRTRS), sibling .mig (s.nBL + s.nRTRS),
      sibling .wr (s.nBL + s.nRTRS), sibling .wr (s.nCL + s.nBL + s.nRTRS - s.nCWL),
      entry .prea s.nRTP, entry .preaf s.nRTP, entry .pream s.nRTP,
      entry .pde (s.nCL + s.nBL + 1)]
  | .wr =>
    [entry .rd (s.nCWL + s.nBL + s.nWTR), entry .mig (s.nCWL + s.nBL + s.nWTR),
      entry .wr s.nCCD, sibling .rd (s.nCWL + s.nBL + s.nRTRS - s.nCL),
      sibling .mig (s.nCWL + s.nBL + s.nRTRS - s.nCL), entry .prea (s.nCWL + s.nBL + s.nWR),
      entry .preaf (s.nCWL + s.nBL + s.nWR), entry .pream (s.nCWL + s.nBL + s.nWR),
      entry .pde (s.nCWL + s.nBL + s.nWR)]
  | .act => rankOpening s s.nRAS
  | .actf => rankOpening s s.nRASF
  | .actm => rankOpening s s.nRASM
  | .pre => rankClosing s.nRP
  | .pref => rankClosing s.nRPF
  | .prem => rankClosing s.nRPM
  | .prea => [entry .ref s.nRP, entry .sre s.nRP]
  | .preaf => [entry .ref s.nRPF, entry .sre s.nRPF]
  | .pream => [entry .ref s.nRPM, entry .sre s.nRPM]
  | .ref => [entry .act s.nRFC, entry .actf s.nRFC, entry .actm s.nRFC, entry .ref s.nRFC,
      entry .pde 1]
  | .pde => [entry .pdx s.nPD]
  | .pdx =>
    [entry .rd s.nXP, entry .mig s.nXP, entry .wr s.nXP, entry .act s.nXP, entry .actf s.nXP,
      entry .actm s.nXP, entry .pre s.nXP, entry .pref s.nXP, entry .prem s.nXP,
      entry .ref s.nXP, entry .pde s.nXP, entry .sre s.nXP]
  | .sre => [entry .srx s.nCKESR]
  | .srx =>
    [entry .act s.nXS, entry .actf s.nXS, entry .actm s.nXS, entry .ref s.nXS, entry .pde s.nXS,
      entry .sre s.nXS]
  | _ => []

def bankOpening (nRCD nRC nRAS : Int) : List (TimingEntry Command) :=
  [entry .rd nRCD, entry .mig nRCD, entry .wr nRCD, entry .act nRC, entry .actf nRC,
    entry .actm nRC, entry .pre nRAS, entry .pref nRAS, entry .prem nRAS]

def bankClosing (nRP : Int) : List (TimingEntry Command) :=
  [entry .act nRP, entry .actf nRP, entry .actm nRP]

/-- `init_timing`, the bank level; there is no entry from `WR` to `PREM`. -/
def bankTiming (s : SpeedEntry) : Command → List (TimingEntry Command)
  | .act => bankOpening s.nRCD s.nRC s.nRAS
  | .actf => bankOpening s.nRCDF s.nRCF s.nRASF
  | .actm => bankOpening s.nRCDM s.nRCM s.nRASM
  | .rd | .mig => [entry .pre s.nRTP, entry .pref s.nRTP, entry .prem s.nRTP]
  | .wr => [entry .pre (s.nCWL + s.nBL + s.nWR), entry .pref (s.nCWL + s.nBL + s.nWR)]
  | .pre => bankClosing s.nRP
  | .pref => bankClosing s.nRPF
  | .prem => bankClosing s.nRPM
  | _ => []

def timing (s : SpeedEntry) : Nat → Command → List (TimingEntry Command)
  | Level.channel => channelTiming s
  | Level.rank => rankTiming s
  | Level.bank => bankTiming s
  | _ => fun _ => []

/-- The tables of the standard, for the DRAM tree. -/
def spec (org : OrgEntry) (s : SpeedEntry) : Spec Command State where
  row := Level.row
  bank := Level.bank
  scope := scope
  count := org.counts
  start := DDR3.start
  prereq := prereq segmentRatio
  rowhit := rowhit
  rowopen := rowopen
  lambda := lambda
  timing := timing s
  isOpening := isOpening
  isAccessing := isAccessing
  isClosing := isClosing
  isRefreshing := Generic.isRefreshing
  lambda_frame := lambda_rel

end TLDRAM

end Ramulator
