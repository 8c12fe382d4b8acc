/-
  Ramulator.Generic.Ddr

  The DDR3 standard (DDR3.h, DDR3.cpp) and the DDR4 standard (DDR4.h, DDR4.cpp).

  A DDR3 tree has the levels channel, rank and bank.  DDR4 has bank groups
  between ranks and banks, so that the rules that look at all banks of a rank
  look two levels below it, and so that the column and the activation
  constraints come in a short version for the rank and a long one for the bank
  group.
-/

import Ramulator.Generic.Commands
import Ramulator.Generic.Organisation

namespace Ramulator

open Generic

def Generic.OrgEntry.counts (org : Generic.OrgEntry) (level : Nat) : Nat := org.count.getD level 0

/-! ## DDR3 -/

namespace DDR3

-- the enumeration `Level`
@[match_pattern] abbrev Level.rank : Nat := 1
@[match_pattern] abbrev Level.bank : Nat := 2
@[match_pattern] abbrev Level.row : Nat := 3
@[match_pattern] abbrev Level.column : Nat := 4
@[match_pattern] abbrev Level.channel : Nat := 0
abbrev Level.max : Nat := 5

def scope : Command → Nat
  | .act => Level.row
  | .pre => Level.bank
  | .rd | .wr | .rda | .wra => Level.column
  | _ => Level.rank

def start : Nat → State
  | Level.rank => .powerUp
  | Level.bank | Level.row => .closed
  | _ => .max

def prereq : Nat → Command → Option (Tree → Command → Int → Option Command)
  | Level.rank, cmd => rankPrereq 1 .prea cmd
  | Level.bank, cmd => forRdWr prereqRowRd cmd
  | _, _ => none

def rowhit : Nat → Command → Option (Tree → Command → Int → Bool)
  | Level.bank, cmd => forRdWr rowhitRd cmd
  | _, _ => none

def rowopen : Nat → Command → Option (Tree → Command → Int → Bool)
  | Level.bank, cmd => forRdWr rowopenRd cmd
  | _, _ => none

def lambda : Nat → Command → Option (Tree → Int → Tree)
  | Level.rank, .prea => some fun node _ => closeBelow 1 node
  | Level.rank, cmd => rankLambda 1 cmd
  | Level.bank, cmd => bankLambda cmd
  | _, _ => none

theorem lambda_rel (level : Nat) (cmd : Command) (f : Tree → Int → Tree)
    (hf : lambda level cmd = some f) (t : Tree) (id : Int) :
    NodeTree.Rel Node.SameFrame t (f t id) := by
  unfold lambda at hf
  split at hf
  · cases hf
    exact closeBelow_rel 1 t
  · exact rankLambda_rel hf t id
  · exact bankLambda_rel hf t id
  · cases hf

/-- `SpeedEntry`, without the fields no modelled function reads. -/
structure SpeedEntry where
  nBL : Int
  nCCD : Int
  nRTRS : Int
  nCL : Int
  nRCD : Int
  nRP : Int
  nCWL : Int
  nRAS : Int
  nRC : Int
  nRTP : Int
  nWTR : Int
  nWR : Int
  nRRD : Int
  nFAW : Int
  nRFC : Int
  nREFI : Int
  nPD : Int
  nXP : Int
  nCKESR : Int
  nXS : Int

/-- `speed_table[DDR3_1600K]`, as `init_speed` completes it for `DDR3_2Gb_x8`. -/
def speed1600K : SpeedEntry where
  nBL := 4
  nCCD := 4
  nRTRS := 2
  nCL := 11
  nRCD := 11
  nRP := 11
  nCWL := 8
  nRAS := 28
  nRC := 39
  nRTP := 6
  nWTR := 6
  nWR := 12
  nRRD := 5
  nFAW := 24
  nRFC := 128
  nREFI := 6240
  nPD := 4
  nXP := 5
  nCKESR := 5
  nXS := 136

def org2GbX8 : OrgEntry := ⟨2 <<< 10, 8, [1, 1, 8, 1 <<< 15, 1 <<< 10]⟩

def SpeedEntry.cas (s : SpeedEntry) : CasTiming := ⟨s.nBL, s.nCCD, s.nRTRS, s.nCL, s.nCWL, s.nWTR⟩

def rankTiming (s : SpeedEntry) : Command → List (TimingEntry Command)
  | .rd => s.cas.afterRd ++ [entry .prea s.nRTP, entry .pde (s.nCL + s.nBL + 1)]
  | .rda => s.cas.afterRd ++ [entry .pde (s.nCL + s.nBL + 1)]
  | .wr =>
    s.cas.afterWr ++ [entry .prea (s.nCWL + s.nBL + s.nWR), entry .pde (s.nCWL + s.nBL + s.nWR)]
  | .wra => s.cas.afterWr ++ [entry .pde (s.nCWL + s.nBL + s.nWR + 1)]
  | .act => [entry .act s.nRRD, window .act s.nFAW, entry .prea s.nRAS, entry .pde 1]
  | .pre => [entry .ref s.nRP, entry .sre s.nRP]
  | .prea => [entry .act s.nRP, entry .ref s.nRP, entry .sre s.nRP]
  | .ref => [entry .act s.nRFC, entry .ref s.nRFC, entry .pde 1]
  | .pde => [entry .pdx s.nPD]
  | .pdx =>
    [entry .rd s.nXP, entry .rda s.nXP, entry .wr s.nXP, entry .wra s.nXP, entry .act s.nXP,
      entry .pre s.nXP, entry .prea s.nXP, entry .ref s.nXP, entry .pde s.nXP,
      entry .sre s.nXP]
  | .sre => [entry .srx s.nCKESR]
  | .srx => [entry .act s.nXS, entry .ref s.nXS, entry .pde s.nXS, entry .sre s.nXS]
  | _ => []

def bankTiming (s : SpeedEntry) : Command → List (TimingEntry Command)
  | .act =>
    [entry .rd s.nRCD, entry .rda s.nRCD, entry .wr s.nRCD, entry .wra s.nRCD,
      entry .act s.nRC, entry .pre s.nRAS]
  | .rd => [entry .pre s.nRTP]
  | .wr => [entry .pre (s.nCWL + s.nBL + s.nWR)]
  | .rda => [entry .act (s.nRTP + s.nRP)]
  | .wra => [entry .act (s.nCWL + s.nBL + s.nWR + s.nRP)]
  | .pre => [entry .act s.nRP]
  | _ => []

def timing (s : SpeedEntry) : Nat → Command → List (TimingEntry Command)
  | Level.channel => s.cas.channel
  | Level.rank => rankTiming s
  | Level.bank => bankTiming s
  | _ => fun _ => []

/-- The tables of the standard, for the DRAM tree. -/
def spec (org : OrgEntry) (s : SpeedEntry) : Spec Command State where
  row := Level.row
  bank := Level.bank
  scope := scope
  count := org.counts
  start := start
  prereq := prereq
  rowhit := rowhit
  rowopen := rowopen
  lambda := lambda
  timing := timing s
  isOpening := isOpening
  isAccessing := isAccessing
  isClosing := isClosing
  isRefreshing := isRefreshing
  lambda_frame := lambda_rel

end DDR3

/-! ## DDR4 -/

namespace DDR4

-- the enumeration `Level`
@[match_pattern] abbrev Level.rank : Nat := 1
@[match_pattern] abbrev Level.bankGroup : Nat := 2
@[match_pattern] abbrev Level.bank : Nat := 3
@[match_pattern] abbrev Level.row : Nat := 4
@[match_pattern] abbrev Level.column : Nat := 5
@[match_pattern] abbrev Level.channel : Nat := 0
abbrev Level.max : Nat := 6

def scope : Command → Nat
  | .act => Level.row
  | .pre => Level.bank
  | .rd | .wr | .rda | .wra => Level.column
  | _ => Level.rank

def start : Nat → State
  | Level.rank => .powerUp
  | Level.bank | Level.row => .closed
  | _ => .max

def prereq : Nat → Command → Option (Tree → Command → Int → Option Command)
  | Level.rank, cmd => rankPrereq 2 .prea cmd
  | Level.bank, cmd => forRdWr prereqRowRd cmd
  | _, _ => none

def rowhit : Nat → Command → Option (Tree → Command → Int → Bool)
  | Level.bank, cmd => forRdWr rowhitRd cmd
  | _, _ => none

def rowopen : Nat → Command → Option (Tree → Command → Int → Bool)
  | Level.bank, cmd => forRdWr rowopenRd cmd
  | _, _ => none

def lambda : Nat → Command → Option (Tree → Int → Tree)
  | Level.rank, .prea => some fun node _ => closeBelow 2 node
  | Level.rank, cmd => rankLambda 2 cmd
  | Level.bank, cmd => bankLambda cmd
  | _, _ => none

theorem lambda_rel (level : Nat) (cmd : Command) (f : Tree → Int → Tree)
    (hf : lambda level cmd = some f) (t : Tree) (id : Int) :
    NodeTree.Rel Node.SameFrame t (f t id) := by
  unfold lambda at hf
  split at hf
  · cases hf
    exact closeBelow_rel 2 t
  · exact rankLambda_rel hf t id
  · exact bankLambda_rel hf t id
  · cases hf

/-- `SpeedEntry`, without the fields no modelled function reads. -/
structure SpeedEntry where
  nBL : Int
  nCCDS : Int
  nCCDL : Int
  nRTRS : Int
  nCL : Int
  nRCD : Int
  nRP : Int
  nCWL : Int
  nRAS : Int
  nRC : Int
  nRTP : Int
  nWTRS : Int
  nWTRL : Int
  nWR : Int
  nRRDS : Int
  nRRDL : Int
  nFAW : Int
  nRFC : Int
  nREFI : Int
  nPD : Int
  nXP : Int
  nCKESR : Int
  nXS : Int

/-- DDR4 has the constraints of DDR3 with the short values of those that come in
    two versions. -/
def SpeedEntry.short (s : SpeedEntry) : DDR3.SpeedEntry where
  nBL := s.nBL
  nCCD := s.nCCDS
  nRTRS := s.nRTRS
  nCL := s.nCL
  nRCD := s.nRCD
  nRP := s.nRP
  nCWL := s.nCWL
  nRAS := s.nRAS
  nRC := s.nRC
  nRTP := s.nRTP
  nWTR := s.nWTRS
  nWR := s.nWR
  nRRD := s.nRRDS
  nFAW := s.nFAW
  nRFC := s.nRFC
  nREFI := s.nREFI
  nPD := s.nPD
  nXP := s.nXP
  nCKESR := s.nCKESR
  nXS := s.nXS

def bankGroupTiming (s : SpeedEntry) : Command → List (TimingEntry Command)
  | .rd | .rda => [entry .rd s.nCCDL, entry .rda s.nCCDL]
  | .wr | .wra =>
    [entry .wr s.nCCDL, entry .wra s.nCCDL, entry .rd (s.nCWL + s.nBL + s.nWTRL),
      entry .rda (s.nCWL + s.nBL + s.nWTRL)]
  | .act => [entry .act s.nRRDL]
  | _ => []

def timing (s : SpeedEntry) : Nat → Command → List (TimingEntry Command)
  | Level.channel => s.short.cas.channel
  | Level.rank => DDR3.rankTiming s.short
  | Level.bankGroup => bankGroupTiming s
  | Level.bank => DDR3.bankTiming s.short
  | _ => fun _ => []

/-- The tables of the standard, for the DRAM tree. -/
def spec (org : OrgEntry) (s : SpeedEntry) : Spec Command State where
  row := Level.row
  bank := Level.bank
  scope := scope
  count := org.counts
  start := start
  prereq := prereq
  rowhit := rowhit
  rowopen := rowopen
  lambda := lambda
  timing := timing s
  isOpening := isOpening
  isAccessing := isAccessing
  isClosing := isClosing
  isRefreshing := isRefreshing
  lambda_frame := lambda_rel

end DDR4

end Ramulator
