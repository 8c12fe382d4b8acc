/-
  Ramulator.Hmc.Spec

  The HMC standard (HMC.h, HMC.cpp).

  `HMC` holds what a configuration chooses: the organisation, the speed entry,
  the maximum block size, the number of host links and the payload of a packet.
  From it `HMC.spec` builds the tables of the generic DRAM tree: the
  prerequisites, the row-hit and row-open tests, the state transitions and the
  timing constraints of the twelve commands.  A tree has the levels vault, bank
  group and bank; rows and columns are not nodes.

  The tests and prerequisites `assert(false)` in a state their node cannot be
  in; the model answers `none` or `false` there.
-/

import Ramulator.Dram.Timing

namespace Ramulator

namespace HMC

/-! ## Levels, commands, states -/

-- the enumeration `Level`
@[match_pattern] abbrev Level.vault : Nat := 0
@[match_pattern] abbrev Level.bankGroup : Nat := 1
@[match_pattern] abbrev Level.bank : Nat := 2
@[match_pattern] abbrev Level.row : Nat := 3
@[match_pattern] abbrev Level.column : Nat := 4
abbrev Level.max : Nat := 5

inductive Command where
  | act | pre | prea | rd | wr | rda | wra | ref | pde | pdx | sre | srx
deriving DecidableEq, Repr

inductive State where
  | opened | closed | powerUp | actPowerDown | prePowerDown | selfRefresh | max
deriving DecidableEq, Repr

def scope : Command → Nat
  | .act => Level.row
  | .pre => Level.bank
  | .rd | .wr | .rda | .wra => Level.column
  | .prea | .ref | .pde | .pdx | .sre | .srx => Level.vault

def isOpening : Command → Bool
  | .act => true
  | _ => false

def isAccessing : Command → Bool
  | .rd | .wr | .rda | .wra => true
  | _ => false

def isClosing : Command → Bool
  | .rda | .wra | .pre | .prea => true
  | _ => false

def isRefreshing : Command → Bool
  | .ref => true
  | _ => false

def start : Nat → State
  | Level.vault => .powerUp
  | Level.bank | Level.row => .closed
  | _ => .max

/-- The table `translate`; its last two entries are zero, that is `ACT`. -/
def translate : RequestType → Command
  | .read => .rd
  | .write => .wr
  | .refresh => .ref
  | .powerdown => .pde
  | .selfrefresh => .sre
  | .extension | .instruction => .act

abbrev Tree := DRAM Command State

/-! ## Prerequisites, row hits, open rows -/

def prereqVaultRd (node : Tree) (_cmd : Command) (_id : Int) : Option Command :=
  match node.val.state with
  | .actPowerDown | .prePowerDown => some .pdx
  | .selfRefresh => some .srx
  | _ => none

def prereqBankRd (node : Tree) (cmd : Command) (id : Int) : Option Command :=
  match node.val.state with
  | .closed => some .act
  | .opened => if (node.val.rowState id).isSome then some cmd else some .pre
  | _ => none

def anyBankOpen (vault : Tree) : Bool :=
  vault.anyChild fun bg => bg.anyChild fun bank => decide (bank.val.state ≠ .closed)

def prereqVaultRef (node : Tree) (_cmd : Command) (_id : Int) : Option Command :=
  if anyBankOpen node then some .prea else some .ref

def prereqVaultPde (node : Tree) (_cmd : Command) (_id : Int) : Option Command :=
  match node.val.state with
  | .powerUp | .actPowerDown | .prePowerDown => some .pde
  | .selfRefresh => some .srx
  | _ => none

def prereqVaultSre (node : Tree) (_cmd : Command) (_id : Int) : Option Command :=
  match node.val.state with
  | .powerUp | .selfRefresh => some .sre
  | .actPowerDown | .prePowerDown => some .pdx
  | _ => none

def prereq : Nat → Command → Option (Tree → Command → Int → Option Command)
  | Level.vault, .rd | Level.vault, .wr => some prereqVaultRd
  | Level.bank, .rd | Level.bank, .wr => some prereqBankRd
  | Level.vault, .ref => some prereqVaultRef
  | Level.vault, .pde => some prereqVaultPde
  | Level.vault, .sre => some prereqVaultSre
  | _, _ => none

def rowhitBankRd (node : Tree) (_cmd : Command) (id : Int) : Bool :=
  match node.val.state with
  | .opened => (node.val.rowState id).isSome
  | _ => false

def rowhit : Nat → Command → Option (Tree → Command → Int → Bool)
  | Level.bank, .rd | Level.bank, .wr => some rowhitBankRd
  | _, _ => none

def rowopenBankRd (node : Tree) (_cmd : Command) (_id : Int) : Bool :=
  match node.val.state with
  | .opened => true
  | _ => false

def rowopen : Nat → Command → Option (Tree → Command → Int → Bool)
  | Level.bank, .rd | Level.bank, .wr => some rowopenBankRd
  | _, _ => none

/-! ## State transitions -/

def openRow (node : Tree) (id : Int) : Tree :=
  node.setVal { node.val with
    state := .opened
    rowState := Function.update node.val.rowState id (some .opened) }

/-- A bank closes: `row_state.clear()`. -/
def closeBank (node : Tree) : Tree :=
  node.setVal { node.val with state := .closed, rowState := fun _ => none }

def closeAllBanks (vault : Tree) : Tree :=
  vault.mapChildren fun bg => bg.mapChildren closeBank

def setState (s : State) (node : Tree) : Tree :=
  node.setVal { node.val with state := s }

def lambda : Nat → Command → Option (Tree → Int → Tree)
  | Level.bank, .act => some openRow
  | Level.bank, .pre | Level.bank, .rda | Level.bank, .wra => some fun node _ => closeBank node
  | Level.vault, .prea => some fun node _ => closeAllBanks node
  | Level.vault, .ref | Level.bank, .rd | Level.bank, .wr => some fun node _ => node
  | Level.vault, .pde => some fun node _ =>
    setState (if anyBankOpen node then .actPowerDown else .prePowerDown) node
  | Level.vault, .pdx | Level.vault, .srx => some fun node _ => setState .powerUp node
  | Level.vault, .sre => some fun node _ => setState .selfRefresh node
  | _, _ => none

theorem openRow_rel (node : Tree) (id : Int) : NodeTree.Rel Node.SameFrame node (openRow node id) :=
  NodeTree.Rel.setVal Node.SameFrame.refl ⟨rfl, rfl, rfl, rfl, rfl, rfl⟩

theorem closeBank_rel (node : Tree) : NodeTree.Rel Node.SameFrame node (closeBank node) :=
  NodeTree.Rel.setVal Node.SameFrame.refl ⟨rfl, rfl, rfl, rfl, rfl, rfl⟩

theorem closeAllBanks_rel (node : Tree) :
    NodeTree.Rel Node.SameFrame node (closeAllBanks node) := by
  refine NodeTree.Rel.mapChildren Node.SameFrame.refl ?_
  intro i bg _
  refine NodeTree.Rel.mapChildren Node.SameFrame.refl ?_
  intro j bank _
  exact closeBank_rel bank

theorem setState_rel (s : State) (node : Tree) :
    NodeTree.Rel Node.SameFrame node (setState s node) :=
  NodeTree.Rel.setVal Node.SameFrame.refl ⟨rfl, rfl, rfl, rfl, rfl, rfl⟩

theorem lambda_rel (level : Nat) (cmd : Command) (f : Tree → Int → Tree)
    (hf : lambda level cmd = some f) (t : Tree) (id : Int) :
    NodeTree.Rel Node.SameFrame t (f t id) := by
  unfold lambda at hf
  split at hf <;> cases hf <;> simp [openRow_rel, closeBank_rel, closeAllBanks_rel, setState_rel,
    NodeTree.Rel.refl Node.SameFrame.refl]

/-! ## Organisations, speeds, block sizes -/

structure OrgEntry where
  vault : Nat
  bankGroup : Nat
  bank : Nat
  row : Nat
  column : Nat
deriving DecidableEq, Repr

def OrgEntry.count (o : OrgEntry) : Nat → Nat
  | Level.vault => o.vault
  | Level.bankGroup => o.bankGroup
  | Level.bank => o.bank
  | Level.row => o.row
  | Level.column => o.column
  | _ => 0

inductive Org where
  | gb4 | gb8 | gb4bank16 | gb4bank32 | gb4bank64 | gb4bank128 | gb4bank256
  | gb4va64 | gb4va128 | gb4va256 | gb4va512 | gb4va1024
deriving DecidableEq, Repr

def orgTable : Org → OrgEntry
  | .gb4 => ⟨32, 4, 2, 2 ^ 16, 2 ^ 6⟩
  | .gb8 => ⟨32, 8, 2, 2 ^ 16, 2 ^ 6⟩
  | .gb4bank16 => ⟨32, 4, 4, 2 ^ 15, 2 ^ 6⟩
  | .gb4bank32 => ⟨32, 4, 8, 2 ^ 14, 2 ^ 6⟩
  | .gb4bank64 => ⟨32, 4, 16, 2 ^ 13, 2 ^ 6⟩
  | .gb4bank128 => ⟨32, 4, 32, 2 ^ 12, 2 ^ 6⟩
  | .gb4bank256 => ⟨32, 4, 64, 2 ^ 11, 2 ^ 6⟩
  | .gb4va64 => ⟨64, 4, 2, 2 ^ 15, 2 ^ 6⟩
  | .gb4va128 => ⟨128, 4, 2, 2 ^ 14, 2 ^ 6⟩
  | .gb4va256 => ⟨256, 4, 2, 2 ^ 13, 2 ^ 6⟩
  | .gb4va512 => ⟨512, 4, 2, 2 ^ 12, 2 ^ 6⟩
  | .gb4va1024 => ⟨1024, 4, 2, 2 ^ 11, 2 ^ 6⟩

/-- `SpeedEntry`, without the fields no modelled function reads. -/
structure SpeedEntry where
  nBL : Int
  nCCDS : Int
  nCCDL : Int
  nCL : Int
  nRCD : Int
  nRP : Int
  nCWL : Int
  nRAS : Int
  nRC : Int
  nRTP : Int
  nWTRS : Int
  nWTRL : Int
  nWR : Int
  nRRDS : Int
  nRRDL : Int
  nFAW : Int
  nRFC : Int
  nREFI : Int
  nPD : Int
  nXP : Int
  nCKESR : Int
  nXS : Int
deriving DecidableEq, Repr

inductive Speed where
  | hmc2500 | hmc2500UnlimitBandwidth
deriving DecidableEq, Repr

def speedTable : Speed → SpeedEntry
  | .hmc2500 =>
    { nBL := 4, nCCDS := 4, nCCDL := 6, nCL := 17, nRCD := 17, nRP := 17, nCWL := 13
      nRAS := 34, nRC := 51, nRTP := 9, nWTRS := 3, nWTRL := 9, nWR := 19, nRRDS := 7
      nRRDL := 8, nFAW := 17, nRFC := 200, nREFI := 9750, nPD := 6, nXP := 8, nCKESR := 7
      nXS := 0 }
  | .hmc2500UnlimitBandwidth =>
    { nBL := 0, nCCDS := 1, nCCDL := 1, nCL := 17, nRCD := 17, nRP := 17, nCWL := 13
      nRAS := 34, nRC := 51, nRTP := 9, nWTRS := 3, nWTRL := 9, nWR := 19, nRRDS := 7
      nRRDL := 8, nFAW := 17, nRFC := 200, nREFI := 9750, nPD := 6, nXP := 8, nCKESR := 7
      nXS := 0 }

inductive MaxBlock where
  | b32 | b64 | b128 | b256
deriving DecidableEq, Repr

def flitNumBits : MaxBlock → Nat
  | .b32 => 5
  | .b64 => 6
  | .b128 => 7
  | .b256 => 8

end HMC

/-- An `HMC` object: the choices of its configuration. -/
structure HMC where
  org : HMC.OrgEntry
  speed : HMC.SpeedEntry
  maxblock : HMC.MaxBlock
  sourceLinks : Nat
  payloadFlits : Int
  maxTags : Nat := 2 ^ 11

namespace HMC

def prefetchSize : Nat := 8

def channelWidth : Nat := 32

def bytesPerFlit : Nat := 16

variable (hmc : HMC)

def readLatency : Int := hmc.speed.nCL + hmc.speed.nBL

/-- `burst_count`; the division is an integer division, so its `ceil` is idle. -/
def burstCount : Int :=
  hmc.payloadFlits.tdiv ((prefetchSize * channelWidth / 8 / bytesPerFlit : Nat) : Int)

/-! ## Timing -/

theorem entry_sibling_dist : false = true → 1 = 1 := nofun

def entry (cmd : Command) (val : Int) : TimingEntry Command :=
  { cmd, dist := 1, val, dist_pos := Nat.one_pos, sibling_dist := entry_sibling_dist }

def vaultTiming (s : SpeedEntry) : Command → List (TimingEntry Command)
  | .rd =>
    [entry .rd s.nBL, entry .rda s.nBL, entry .rd s.nCCDS, entry .rda s.nCCDS,
      entry .wr (s.nCL + s.nCCDS + 2 - s.nCWL), entry .wra (s.nCL + s.nCCDS + 2 - s.nCWL),
      entry .prea s.nRTP, entry .pde (s.nCL + s.nBL + 1)]
  | .rda =>
    [entry .rd s.nBL, entry .rda s.nBL, entry .rd s.nCCDS, entry .rda s.nCCDS,
      entry .wr (s.nCL + s.nCCDS + 2 - s.nCWL), entry .wra (s.nCL + s.nCCDS + 2 - s.nCWL),
      entry .pde (s.nCL + s.nBL + 1)]
  | .wr =>
    [entry .wr s.nBL, entry .wra s.nBL, entry .wr s.nCCDS, entry .wra s.nCCDS,
      entry .rd (s.nCWL + s.nBL + s.nWTRS), entry .rda (s.nCWL + s.nBL + s.nWTRS),
      entry .prea (s.nCWL + s.nBL + s.nWR), entry .pde (s.nCWL + s.nBL + s.nWR)]
  | .wra =>
    [entry .wr s.nBL, entry .wra s.nBL, entry .wr s.nCCDS, entry .wra s.nCCDS,
      entry .rd (s.nCWL + s.nBL + s.nWTRS), entry .rda (s.nCWL + s.nBL + s.nWTRS),
      entry .pde (s.nCWL + s.nBL + s.nWR + 1)]
  | .act =>
    [entry .act s.nRRDS, { cmd := .act, dist := 4, val := s.nFAW }, entry .prea s.nRAS,
      entry .pde 1]
  | .pre => [entry .ref s.nRP, entry .sre s.nRP]
  | .prea => [entry .act s.nRP, entry .ref s.nRP, entry .sre s.nRP]
  | .ref => [entry .act s.nRFC, entry .ref s.nRFC, entry .pde 1]
  | .pde => [entry .pdx s.nPD]
  | .pdx =>
    [entry .rd s.nXP, entry .rda s.nXP, entry .wr s.nXP, entry .wra s.nXP, entry .act s.nXP,
      entry .pre s.nXP, entry .prea s.nXP, entry .ref s.nXP, entry .pde s.nXP,
      entry .sre s.nXP]
  | .sre => [entry .srx s.nCKESR]
  | .srx => [entry .act s.nXS, entry .ref s.nXS, entry .pde s.nXS, entry .sre s.nXS]

def bankGroupTiming (s : SpeedEntry) : Command → List (TimingEntry Command)
  | .rd | .rda => [entry .rd s.nCCDL, entry .rda s.nCCDL]
  | .wr | .wra =>
    [entry .wr s.nCCDL, entry .wra s.nCCDL, entry .rd (s.nCWL + s.nBL + s.nWTRL),
      entry .rda (s.nCWL + s.nBL + s.nWTRL)]
  | .act => [entry .act s.nRRDL]
  | _ => []

def bankTiming (s : SpeedEntry) : Command → List (TimingEntry Command)
  | .act =>
    [entry .rd s.nRCD, entry .rda s.nRCD, entry .wr s.nRCD, entry .wra s.nRCD,
      entry .act s.nRC, entry .pre s.nRAS]
  | .rd => [entry .pre s.nRTP]
  | .wr => [entry .pre (s.nCWL + s.nBL + s.nWR)]
  | .rda => [entry .act (s.nRTP + s.nRP)]
  | .wra => [entry .act (s.nCWL + s.nBL + s.nWR + s.nRP)]
  | .pre => [entry .act s.nRP]
  | _ => []

def timing (s : SpeedEntry) : Nat → Command → List (TimingEntry Command)
  | Level.vault => vaultTiming s
  | Level.bankGroup => bankGroupTiming s
  | Level.bank => bankTiming s
  | _ => fun _ => []

/-- The tables of the standard, for the DRAM tree. -/
def spec : Spec Command State where
  row := Level.row
  bank := Level.bank
  scope := scope
  count := hmc.org.count
  start := start
  prereq := prereq
  rowhit := rowhit
  rowopen := rowopen
  lambda := lambda
  timing := timing hmc.speed
  isOpening := isOpening
  isAccessing := isAccessing
  isClosing := isClosing
  isRefreshing := isRefreshing
  lambda_frame := lambda_rel

end HMC

end Ramulator
