/-
  Ramulator.Generic.Dsarp

  The DSARP standard (DSARP.h, DSARP.cpp).

  Banks are cut into subarrays, but only so that a refresh can run beside
  accesses: a bank has one open row.  `row_state` of a bank holds the number of
  the open subarray, `row_state` of that subarray the open row.
-/

import Ramulator.Generic.Ddr

namespace Ramulator

open Generic

namespace DSARP

inductive RefreshType where
  | refab | refpb | darp | sarp | dsarp
deriving DecidableEq, Repr

def RefreshType.besideAccesses : RefreshType → Bool
  | .sarp | .dsarp => true
  | _ => false

-- the enumeration `Level`
@[match_pattern] abbrev Level.rank : Nat := 1
@[match_pattern] abbrev Level.bank : Nat := 2
@[match_pattern] abbrev Level.subArray : Nat := 3
@[match_pattern] abbrev Level.row : Nat := 4
@[match_pattern] abbrev Level.column : Nat := 5
@[match_pattern] abbrev Level.channel : Nat := 0
abbrev Level.max : Nat := 6

def scope : Command → Nat
  | .act => Level.row
  | .pre | .refpb => Level.bank
  | .rd | .wr | .rda | .wra => Level.column
  | _ => Level.rank

def start : Nat → State
  | Level.rank => .powerUp
  | Level.bank | Level.subArray => .closed
  | _ => .max

def isRefreshing : Command → Bool
  | .ref | .refpb => true
  | _ => false

/-- The table `translate`, as the constructor leaves it. -/
def translate (type : RefreshType) : RequestType → Command
  | .refresh => if type = .refab then .ref else .refpb
  | req => Generic.translate req

/-! ## Prerequisites, row hits, open rows -/

/-- Really the subarray state: the row is looked at one level below. -/
def prereqBankRd (node : Tree) (_cmd : Command) (id : Int) : Option Command :=
  match node.val.state with
  | .closed => some .act
  | .opened => if (node.val.rowState id).isSome then none else some .pre
  | _ => none

def prereqBankRefpb (node : Tree) (_cmd : Command) (_id : Int) : Option Command :=
  if node.val.state = .closed then some .refpb else some .pre

def prereq : Nat → Command → Option (Tree → Command → Int → Option Command)
  | Level.rank, cmd => rankPrereq 1 .prea cmd
  | Level.bank, .refpb => some prereqBankRefpb
  | Level.bank, cmd => forRdWr prereqBankRd cmd
  | Level.subArray, cmd => forRdWr prereqRowRd cmd
  | _, _ => none

def rowhit : Nat → Command → Option (Tree → Command → Int → Bool)
  | Level.subArray, cmd => forRdWr rowhitRd cmd
  | _, _ => none

def rowopen : Nat → Command → Option (Tree → Command → Int → Bool)
  | Level.subArray, cmd => forRdWr rowopenRd cmd
  | _, _ => none

/-! ## State transitions -/

def closeBank (node : Tree) : Tree := (closeRows node).mapChildren closeRows

def clearRows (node : Tree) : Tree := node.setVal { node.val with rowState := fun _ => none }

/-- `init_lambda`; `PDE` is assigned twice, and the second rule looks at the
    subarrays. -/
def lambda : Nat → Command → Option (Tree → Int → Tree)
  | Level.rank, .prea => some fun node _ => (clearRows node).mapChildren closeBank
  | Level.rank, cmd => rankLambda 2 cmd
  | Level.bank, .pre => some fun node _ => closeBank node
  | Level.bank, .refpb => some fun node _ => clearRows node
  | Level.bank, cmd => bankLambda cmd
  | Level.subArray, .act => some openRow
  | Level.subArray, .rda | Level.subArray, .wra => some fun node _ => closeRows node
  | _, _ => none

theorem clearRows_rel (node : Tree) : NodeTree.Rel Node.SameFrame node (clearRows node) :=
  NodeTree.Rel.setVal Node.SameFrame.refl ⟨rfl, rfl, rfl, rfl, rfl, rfl⟩

theorem closeBank_rel (node : Tree) : NodeTree.Rel Node.SameFrame node (closeBank node) :=
  (closeRows_rel node).trans (fun _ _ _ h₁ h₂ => h₁.trans h₂)
    (NodeTree.Rel.mapChildren Node.SameFrame.refl (fun _ c _ => closeRows_rel c))

theorem lambda_rel (level : Nat) (cmd : Command) (f : Tree → Int → Tree)
    (hf : lambda level cmd = some f) (t : Tree) (id : Int) :
    NodeTree.Rel Node.SameFrame t (f t id) := by
  unfold lambda at hf
  split at hf
  case h_1 =>
    cases hf
    exact (clearRows_rel t).trans (fun _ _ _ h₁ h₂ => h₁.trans h₂)
      (NodeTree.Rel.mapChildren Node.SameFrame.refl (fun _ c _ => closeBank_rel c))
  case h_2 => exact rankLambda_rel hf t id
  case h_5 => exact bankLambda_rel hf t id
  all_goals cases hf
  all_goals simp [closeBank_rel, clearRows_rel]

/-! ## Timing -/

/-- `SpeedEntry`, without the fields no modelled function reads. -/
structure SpeedEntry where
  nBL : Int
  nCCD : Int
  nRTRS : Int
  nCL : Int
  nRCD : Int
  nRPpb : Int
  nRPab : Int
  nCWL : Int
  nRAS : Int
  nRC : Int
  nRTP : Int
  nWTR : Int
  nWR : Int
  nRRD : Int
  nFAW : Int
  nRFCab : Int
  nRFCpb : Int
  nREFI : Int
  nPD : Int
  nXP : Int
  nCKESR : Int
  nXS : Int

/-- `speed_table[DSARP_1333]`, as `init_speed` completes it for 8 Gb. -/
def speed1333 : SpeedEntry where
  nBL := 4
  nCCD := 4
  nRTRS := 2
  nCL := 9
  nRCD := 9
  nRPpb := 8
  nRPab := 9
  nCWL := 7
  nRAS := 24
  nRC := 33
  nRTP := 5
  nWTR := 5
  nWR := 10
  nRRD := 5
  nFAW := 30
  nRFCab := 234
  nRFCpb := 109
  nREFI := 2600
  nPD := 4
  nXP := 4
  nCKESR := 5
  nXS := 114

/-- `org_table[DSARP_8Gb_x8]` with one channel, one rank and 8 subarrays. -/
def org8GbX8 : OrgEntry := ⟨8 <<< 10, 8, [1, 1, 8, 8, 1 <<< 13, 1 <<< 11]⟩

def SpeedEntry.cas (s : SpeedEntry) : CasTiming := ⟨s.nBL, s.nCCD, s.nRTRS, s.nCL, s.nCWL, s.nWTR⟩

def SpeedEntry.nRRDBeside (s : SpeedEntry) : Int := (s.nRRD * 1138 + 999) / 1000

def rankTiming (s : SpeedEntry) : Command → List (TimingEntry Command)
  | .rd => s.cas.afterRd ++ [entry .prea s.nRTP, entry .pde (s.nCL + s.nBL + 1)]
  | .rda => s.cas.afterRd ++ [entry .pde (s.nCL + s.nBL + 1)]
  | .wr =>
    s.cas.afterWr ++ [entry .prea (s.nCWL + s.nBL + s.nWR), entry .pde (s.nCWL + s.nBL + s.nWR)]
  | .wra => s.cas.afterWr ++ [entry .pde (s.nCWL + s.nBL + s.nWR + 1)]
  | .act => [entry .act s.nRRD, window .act s.nFAW, entry .prea s.nRAS, entry .pde 1]
  | .pre => [entry .ref s.nRPpb, entry .sre s.nRPpb]
  | .prea => [entry .act s.nRPab, entry .ref s.nRPab, entry .sre s.nRPab]
  | .ref => [entry .act s.nRFCab, entry .ref s.nRFCab, entry .refpb s.nRFCab, entry .pde 1]
  | .refpb => [entry .ref s.nRFCpb, entry .pde 1, entry .refpb s.nRFCpb]
  | .pde => [entry .pdx s.nPD]
  | .pdx =>
    [entry .rd s.nXP, entry .rda s.nXP, entry .wr s.nXP, entry .wra s.nXP, entry .act s.nXP,
      entry .pre s.nXP, entry .prea s.nXP, entry .ref s.nXP, entry .refpb s.nXP,
      entry .pde s.nXP, entry .sre s.nXP]
  | .sre => [entry .srx s.nCKESR]
  | .srx =>
    [entry .act s.nXS, entry .ref s.nXS, entry .refpb s.nXS, entry .pde s.nXS, entry .sre s.nXS]
  | _ => []

def bankTiming (type : RefreshType) (s : SpeedEntry) : Command → List (TimingEntry Command)
  | .act =>
    [entry .rd s.nRCD, entry .rda s.nRCD, entry .wr s.nRCD, entry .wra s.nRCD,
      entry .act s.nRC, entry .pre s.nRAS, sibling .refpb s.nRRD]
  | .rd => [entry .pre s.nRTP]
  | .wr => [entry .pre (s.nCWL + s.nBL + s.nWR)]
  | .rda => [entry .act (s.nRTP + s.nRPpb)]
  | .wra => [entry .act (s.nCWL + s.nBL + s.nWR + s.nRPpb)]
  | .pre => [entry .act s.nRPpb, entry .refpb s.nRPpb]
  | .refpb =>
    [entry .refpb s.nRFCpb, sibling .refpb s.nRFCpb, sibling .act s.nRRD] ++
      if type.besideAccesses then []
      else
        [entry .act s.nRFCpb, entry .rd s.nRFCpb, entry .rda s.nRFCpb, entry .wr s.nRFCpb,
          entry .wra s.nRFCpb, entry .pre s.nRFCpb, entry .prea s.nRFCpb]
  | _ => []

/-- `init_timing`, the subarray level. -/
def subArrayTiming (s : SpeedEntry) : Command → List (TimingEntry Command)
  | .act =>
    [sibling .refpb s.nRRDBeside, entry .rd s.nRCD, entry .rda s.nRCD, entry .wr s.nRCD,
      entry .wra s.nRCD, entry .act s.nRC, entry .pre s.nRAS, sibling .act s.nRC]
  | .refpb => [sibling .act s.nRRDBeside, entry .act s.nRFCpb]
  | .ref => [entry .act s.nRFCab]
  | .rd => [entry .pre s.nRTP]
  | .wr => [entry .pre (s.nCWL + s.nBL + s.nWR)]
  | .rda => [entry .act (s.nRTP + s.nRPpb), sibling .act (s.nRTP + s.nRPpb)]
  | .wra =>
    [entry .act (s.nCWL + s.nBL + s.nWR + s.nRPpb),
      sibling .act (s.nCWL + s.nBL + s.nWR + s.nRPpb)]
  | .pre => [entry .act s.nRPpb, entry .refpb s.nRPpb, entry .ref s.nRPpb, sibling .act s.nRPpb]
  | _ => []

/-- `init_timing`; only the types that refresh beside accesses constrain subarrays. -/
def timing (type : RefreshType) (s : SpeedEntry) : Nat → Command → List (TimingEntry Command)
  | Level.channel => s.cas.channel
  | Level.rank => rankTiming s
  | Level.bank => bankTiming type s
  | Level.subArray => if type.besideAccesses then subArrayTiming s else fun _ => []
  | _ => fun _ => []

/-- The tables of the standard, for the DRAM tree. -/
def spec (type : RefreshType) (org : OrgEntry) (s : SpeedEntry) : Spec Command State where
  row := Level.row
  bank := Level.bank
  scope := scope
  count := org.counts
  start := start
  prereq := prereq
  rowhit := rowhit
  rowopen := rowopen
  lambda := lambda
  timing := timing type s
  isOpening := isOpening
  isAccessing := isAccessing
  isClosing := Generic.isClosing
  isRefreshing := isRefreshing
  lambda_frame := lambda_rel

end DSARP

end Ramulator
