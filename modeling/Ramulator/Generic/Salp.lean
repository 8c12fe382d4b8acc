/-
  Ramulator.Generic.Salp

  The SALP standard (SALP.h, SALP.cpp) of type MASA.

  A bank is cut into subarrays, each with a row buffer of its own.  Under MASA
  any number of subarrays may be open, and at most one of them is selected, that
  is connected to the column commands; `SASEL` selects an open one.

  The transitions of `ACT` and `SASEL` at a subarray also deselect the subarray
  that was selected before, through `node->parent`.  In the model the bank does
  that (`deselect`) before the subarray changes its own state; the loop of the
  source skips the subarray itself, so the order makes no difference.
-/

import Ramulator.Generic.Ddr

namespace Ramulator

open Generic

namespace SALP

-- the enumeration `Level`
@[match_pattern] abbrev Level.rank : Nat := 1
@[match_pattern] abbrev Level.bank : Nat := 2
@[match_pattern] abbrev Level.subArray : Nat := 3
@[match_pattern] abbrev Level.row : Nat := 4
@[match_pattern] abbrev Level.column : Nat := 5
@[match_pattern] abbrev Level.channel : Nat := 0
abbrev Level.max : Nat := 6

def scope : Command → Nat
  | .act => Level.row
  | .sasel | .pre | .preOther => Level.subArray
  | .rd | .wr | .rda | .wra => Level.column
  | _ => Level.rank

def start : Nat → State
  | Level.rank => .powerUp
  | Level.bank | Level.subArray | Level.row => .closed
  | _ => .max

def isClosing : Command → Bool
  | .rda | .wra | .pre | .prer | .preOther => true
  | _ => false

/-! ## Prerequisites, row hits, open rows -/

def prereqSubArrayRd (node : Tree) (cmd : Command) (id : Int) : Option Command :=
  match node.val.state with
  | .closed => some .act
  | .opened => if (node.val.rowState id).isSome then some .sasel else some .pre
  | .selected => if (node.val.rowState id).isSome then some cmd else some .pre
  | _ => none

def prereq : Nat → Command → Option (Tree → Command → Int → Option Command)
  | Level.rank, cmd => rankPrereq 2 .prer cmd
  | Level.subArray, cmd => forRdWr prereqSubArrayRd cmd
  | _, _ => none

/-- A subarray that is open but not selected still counts as a row hit. -/
def rowhitSubArrayRd (node : Tree) (_cmd : Command) (id : Int) : Bool :=
  match node.val.state with
  | .opened | .selected => (node.val.rowState id).isSome
  | _ => false

def rowhit : Nat → Command → Option (Tree → Command → Int → Bool)
  | Level.subArray, cmd => forRdWr rowhitSubArrayRd cmd
  | _, _ => none

def rowopenSubArrayRd (node : Tree) (_cmd : Command) (_id : Int) : Bool :=
  match node.val.state with
  | .opened | .selected => true
  | _ => false

def rowopen : Nat → Command → Option (Tree → Command → Int → Bool)
  | Level.subArray, cmd => forRdWr rowopenSubArrayRd cmd
  | _, _ => none

/-! ## State transitions -/

def otherSelected (bank : Tree) (id : Int) : Option Nat :=
  (List.range bank.arity).find? fun i =>
    decide (i ≠ id.toNat) && (bank.child? i).any fun sa => decide (sa.val.state = .selected)

/-- What `ACT` and `SASEL` at subarray `id` do to its siblings. -/
def deselect (bank : Tree) (id : Int) : Tree :=
  if id < 0 then bank
  else
    match otherSelected bank id with
    | none => bank
    | some i => bank.modifyChild i (setState .opened)

/-- `state = Selected; row_state[id] = Opened`. -/
def selectRow (node : Tree) (id : Int) : Tree :=
  node.setVal { node.val with
    state := .selected
    rowState := Function.update node.val.rowState id (some .opened) }

def lambda : Nat → Command → Option (Tree → Int → Tree)
  | Level.bank, .act | Level.bank, .sasel => some deselect
  | Level.subArray, .act => some selectRow
  | Level.subArray, .sasel => some fun node _ => setState .selected node
  | Level.subArray, .pre | Level.subArray, .rda | Level.subArray, .wra =>
    some fun node _ => closeRows node
  | Level.rank, .prer => some fun node _ => closeBelow 2 node
  | Level.rank, cmd => rankLambda 2 cmd
  | _, _ => none

theorem deselect_rel (bank : Tree) (id : Int) :
    NodeTree.Rel Node.SameFrame bank (deselect bank id) := by
  unfold deselect
  split
  · exact NodeTree.Rel.refl Node.SameFrame.refl bank
  · split
    · exact NodeTree.Rel.refl Node.SameFrame.refl bank
    · exact NodeTree.Rel.modifyChild Node.SameFrame.refl (fun c _ => setState_rel _ c)

theorem selectRow_rel (node : Tree) (id : Int) :
    NodeTree.Rel Node.SameFrame node (selectRow node id) :=
  NodeTree.Rel.setVal Node.SameFrame.refl ⟨rfl, rfl, rfl, rfl, rfl, rfl⟩

theorem lambda_rel (level : Nat) (cmd : Command) (f : Tree → Int → Tree)
    (hf : lambda level cmd = some f) (t : Tree) (id : Int) :
    NodeTree.Rel Node.SameFrame t (f t id) := by
  unfold lambda at hf
  split at hf
  case h_9 => exact rankLambda_rel hf t id
  all_goals cases hf
  all_goals simp [deselect_rel, selectRow_rel]

/-! ## Timing -/

/-- `SpeedEntry`: that of DDR3, and the values for subarrays and `SASEL`. -/
structure SpeedEntry extends DDR3.SpeedEntry where
  nPA : Int
  nRA : Int
  nWA : Int
  nSCD : Int

def rankTiming (s : SpeedEntry) : Command → List (TimingEntry Command)
  | .rd => s.cas.afterRd ++ [entry .prer s.nRTP, entry .pde (s.nCL + s.nBL + 1)]
  | .rda => s.cas.afterRd ++ [entry .pde (s.nCL + s.nBL + 1)]
  | .wr =>
    s.cas.afterWr ++ [entry .prer (s.nCWL + s.nBL + s.nWR), entry .pde (s.nCWL + s.nBL + s.nWR)]
  | .wra => s.cas.afterWr ++ [entry .pde (s.nCWL + s.nBL + s.nWR + 1)]
  | .act => [entry .act s.nRRD, window .act s.nFAW, entry .prer s.nRAS, entry .pde 1]
  | .pre | .preOther => [entry .ref s.nRP, entry .sre s.nRP]
  | .prer => [entry .act s.nRP, entry .ref s.nRP, entry .sre s.nRP]
  | .ref => [entry .act s.nRFC, entry .ref s.nRFC, entry .pde 1]
  | .pde => [entry .pdx s.nPD]
  | .pdx =>
    [entry .rd s.nXP, entry .rda s.nXP, entry .wr s.nXP, entry .wra s.nXP, entry .act s.nXP,
      entry .pre s.nXP, entry .prer s.nXP, entry .ref s.nXP, entry .pde s.nXP,
      entry .sre s.nXP]
  | .sre => [entry .srx s.nCKESR]
  | .srx => [entry .act s.nXS, entry .ref s.nXS, entry .pde s.nXS, entry .sre s.nXS]
  | _ => []

/-- `init_timing`, the subarray level. -/
def subArrayTiming (s : SpeedEntry) : Command → List (TimingEntry Command)
  | .act =>
    [entry .rd s.nRCD, entry .rda s.nRCD, entry .wr s.nRCD, entry .wra s.nRCD,
      entry .act s.nRC, entry .pre s.nRAS]
  | .rd => [entry .pre s.nRTP, sibling .act s.nRA, sibling .sasel s.nRA, sibling .rd s.nRA]
  | .wr =>
    [entry .pre (s.nCWL + s.nBL + s.nWR), sibling .act s.nWA, sibling .sasel s.nWA,
      sibling .wr s.nWA]
  | .rda =>
    [entry .act (s.nRTP + s.nRP), sibling .act s.nRA, sibling .sasel s.nRA, sibling .rda s.nRA]
  | .wra =>
    [entry .act (s.nCWL + s.nBL + s.nWR + s.nRP), sibling .act s.nWA, sibling .sasel s.nWA,
      sibling .wra s.nWA]
  | .pre => [entry .act s.nRP]
  | .sasel => [entry .rd s.nSCD, entry .rda s.nSCD, entry .wr s.nSCD, entry .wra s.nSCD]
  | _ => []

/-- `init_timing`; MASA has no constraints at the bank level. -/
def timing (s : SpeedEntry) : Nat → Command → List (TimingEntry Command)
  | Level.channel => s.cas.channel
  | Level.rank => rankTiming s
  | Level.subArray => subArrayTiming s
  | _ => fun _ => []

/-- The tables of the standard, for the DRAM tree. -/
def spec (org : OrgEntry) (s : SpeedEntry) : Spec Command State where
  row := Level.row
  bank := Level.bank
  scope := scope
  count := org.counts
  start := start
  prereq := prereq
  rowhit := rowhit
  rowopen := rowopen
  lambda := lambda
  timing := timing s
  isOpening := isOpening
  isAccessing := isAccessing
  isClosing := isClosing
  isRefreshing := isRefreshing
  lambda_frame := lambda_rel

end SALP

end Ramulator
