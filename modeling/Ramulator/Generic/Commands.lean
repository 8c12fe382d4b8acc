/-
  Ramulator.Generic.Commands

  The commands and the node states of the standards `Memory<T>` is built for,
  and the pieces that their tables are made of.

  Every standard has a `Command` and a `State` of its own.  They agree in the
  names they share, so one type holds the commands of all of them; a standard
  has no table entry for a command it does not know.  The power-down rules of a
  rank and the rules of the node that holds a row (a bank, or a subarray where
  there are any) are written out in each standard; here each stands once.

  A rule that runs into `assert(false)` in a state its node cannot be in answers
  `none` or `false` there.
-/

import Ramulator.Dram.Timing

namespace Ramulator

namespace Generic

inductive Command where
  | act | pre | prea | rd | wr | rda | wra | ref | pde | pdx | sre | srx
  /-- Refreshes of a part of a rank (DSARP, LPDDR3, LPDDR4, WideIO2; HBM). -/
  | refpb | refsb
  /-- The names of LPDDR3, LPDDR4, WideIO and WideIO2. -/
  | pra | pd | sref | srefx
  /-- Subarrays (SALP). -/
  | sasel | prer | preOther
  /-- The fast segment and migrations (TLDRAM). -/
  | actf | pref | preaf | mig | actm | prem | pream
deriving DecidableEq, Repr

inductive State where
  | opened | closed | selected | powerUp | actPowerDown | prePowerDown | selfRefresh | max
deriving DecidableEq, Repr

abbrev Tree := DRAM Command State

/-! ## Levels -/

theorem below_two {P : Nat → Prop} (h₀ : P 0) (h₁ : P 1) (l : Nat) (hl : l < 2) : P l := by
  obtain rfl | rfl : l = 0 ∨ l = 1 := by omega
  · exact h₀
  · exact h₁

theorem below_three {P : Nat → Prop} (h₀ : P 0) (h₁ : P 1) (h₂ : P 2) (l : Nat) (hl : l < 3) :
    P l := by
  obtain hl | rfl : l < 2 ∨ l = 2 := by omega
  · exact below_two h₀ h₁ l hl
  · exact h₂

/-! ## Kinds of commands -/

def isOpening : Command → Bool
  | .act => true
  | _ => false

def isAccessing : Command → Bool
  | .rd | .wr | .rda | .wra => true
  | _ => false

def isClosing : Command → Bool
  | .rda | .wra | .pre | .prea => true
  | _ => false

def isRefreshing : Command → Bool
  | .ref => true
  | _ => false

/-- The table `translate`; its last two entries are zero, that is `ACT`. -/
def translate : RequestType → Command
  | .read => .rd
  | .write => .wr
  | .refresh => .ref
  | .powerdown => .pde
  | .selfrefresh => .sre
  | .extension | .instruction => .act

/-! ## Prerequisites, row hits, open rows -/

def prereqRankRd (node : Tree) (_cmd : Command) (_id : Int) : Option Command :=
  match node.val.state with
  | .actPowerDown | .prePowerDown => some .pdx
  | .selfRefresh => some .srx
  | _ => none

def prereqRankPde (node : Tree) (_cmd : Command) (_id : Int) : Option Command :=
  match node.val.state with
  | .powerUp | .actPowerDown | .prePowerDown => some .pde
  | .selfRefresh => some .srx
  | _ => none

def prereqRankSre (node : Tree) (_cmd : Command) (_id : Int) : Option Command :=
  match node.val.state with
  | .powerUp | .selfRefresh => some .sre
  | .actPowerDown | .prePowerDown => some .pdx
  | _ => none

def prereqRowRd (node : Tree) (cmd : Command) (id : Int) : Option Command :=
  match node.val.state with
  | .closed => some .act
  | .opened => if (node.val.rowState id).isSome then some cmd else some .pre
  | _ => none

def rowhitRd (node : Tree) (_cmd : Command) (id : Int) : Bool :=
  match node.val.state with
  | .opened => (node.val.rowState id).isSome
  | _ => false

def rowopenRd (node : Tree) (_cmd : Command) (_id : Int) : Bool :=
  match node.val.state with
  | .opened => true
  | _ => false

def anyOpen : Nat → Tree → Bool
  | 0, node => decide (node.val.state ≠ .closed)
  | depth + 1, node => node.anyChild (anyOpen depth)

/-- `REF` of a rank whose rows are `depth` levels below: `closeAll` closes them first. -/
def prereqRankRef (depth : Nat) (closeAll : Command) (node : Tree) (_cmd : Command) (_id : Int) :
    Option Command :=
  if anyOpen depth node then some closeAll else some .ref

def rankPrereq (depth : Nat) (closeAll : Command) :
    Command → Option (Tree → Command → Int → Option Command)
  | .rd | .wr => some prereqRankRd
  | .ref => some (prereqRankRef depth closeAll)
  | .pde => some prereqRankPde
  | .sre => some prereqRankSre
  | _ => none

def forRdWr {α : Type} (f : α) : Command → Option α
  | .rd | .wr => some f
  | _ => none

/-! ## State transitions -/

/-- `state = Opened; row_state[id] = Opened`. -/
def openRow (node : Tree) (id : Int) : Tree :=
  node.setVal { node.val with
    state := .opened
    rowState := Function.update node.val.rowState id (some .opened) }

/-- `state = Closed; row_state.clear()`. -/
def closeRows (node : Tree) : Tree :=
  node.setVal { node.val with state := .closed, rowState := fun _ => none }

def closeBelow : Nat → Tree → Tree
  | 0, node => closeRows node
  | depth + 1, node => node.mapChildren (closeBelow depth)

def setState (s : State) (node : Tree) : Tree :=
  node.setVal { node.val with state := s }

/-- `PDE` of a rank whose rows are `depth` levels below. -/
def powerDown (depth : Nat) (node : Tree) : Tree :=
  setState (if anyOpen depth node then .actPowerDown else .prePowerDown) node

/-- The transitions of a rank, those that close rows apart. -/
def rankLambda (depth : Nat) : Command → Option (Tree → Int → Tree)
  | .ref => some fun node _ => node
  | .pde => some fun node _ => powerDown depth node
  | .pdx | .srx => some fun node _ => setState .powerUp node
  | .sre => some fun node _ => setState .selfRefresh node
  | _ => none

def bankLambda : Command → Option (Tree → Int → Tree)
  | .act => some openRow
  | .pre | .rda | .wra => some fun node _ => closeRows node
  | .rd | .wr => some fun node _ => node
  | _ => none

@[simp] theorem openRow_rel (node : Tree) (id : Int) :
    NodeTree.Rel Node.SameFrame node (openRow node id) :=
  NodeTree.Rel.setVal Node.SameFrame.refl ⟨rfl, rfl, rfl, rfl, rfl, rfl⟩

@[simp] theorem closeRows_rel (node : Tree) : NodeTree.Rel Node.SameFrame node (closeRows node) :=
  NodeTree.Rel.setVal Node.SameFrame.refl ⟨rfl, rfl, rfl, rfl, rfl, rfl⟩

@[simp] theorem closeBelow_rel (depth : Nat) (node : Tree) :
    NodeTree.Rel Node.SameFrame node (closeBelow depth node) := by
  induction depth generalizing node with
  | zero => exact closeRows_rel node
  | succ depth ih => exact NodeTree.Rel.mapChildren Node.SameFrame.refl (fun _ c _ => ih c)

@[simp] theorem setState_rel (s : State) (node : Tree) :
    NodeTree.Rel Node.SameFrame node (setState s node) :=
  NodeTree.Rel.setVal Node.SameFrame.refl ⟨rfl, rfl, rfl, rfl, rfl, rfl⟩

variable {f : Tree → Int → Tree} {cmd : Command}

theorem rankLambda_rel {depth : Nat} (hf : rankLambda depth cmd = some f) (t : Tree) (id : Int) :
    NodeTree.Rel Node.SameFrame t (f t id) := by
  unfold rankLambda at hf
  split at hf <;> cases hf <;> simp [powerDown, NodeTree.Rel.refl Node.SameFrame.refl]

theorem bankLambda_rel (hf : bankLambda cmd = some f) (t : Tree) (id : Int) :
    NodeTree.Rel Node.SameFrame t (f t id) := by
  unfold bankLambda at hf
  split at hf <;> cases hf <;> simp [NodeTree.Rel.refl Node.SameFrame.refl]

/-! ## Timing entries -/

/-- An entry for the node itself has no condition on its distance. -/
theorem entry_sibling_dist : false = true → 1 = 1 := nofun

def entry (cmd : Command) (val : Int) : TimingEntry Command :=
  { cmd, dist := 1, val, dist_pos := Nat.one_pos, sibling_dist := entry_sibling_dist }

theorem sibling_dist : true = true → 1 = 1 := fun _ => rfl

def sibling (cmd : Command) (val : Int) : TimingEntry Command :=
  { cmd, dist := 1, val, sibling := true, dist_pos := Nat.one_pos, sibling_dist := sibling_dist }

theorem window_dist_pos : 0 < 4 := Nat.succ_pos 3

theorem window_sibling_dist : false = true → 4 = 1 := nofun

def window (cmd : Command) (nFAW : Int) : TimingEntry Command :=
  { cmd, dist := 4, val := nFAW, dist_pos := window_dist_pos, sibling_dist := window_sibling_dist }

/-- What the constraints between column commands depend on. -/
structure CasTiming where
  nBL : Int
  nCCD : Int
  nRTRS : Int
  nCL : Int
  nCWL : Int
  nWTR : Int

def CasTiming.channel (c : CasTiming) : Command → List (TimingEntry Command)
  | .rd | .rda => [entry .rd c.nBL, entry .rda c.nBL]
  | .wr | .wra => [entry .wr c.nBL, entry .wra c.nBL]
  | _ => []

/-- The entries from `RD` and `RDA` to column commands, of the rank and of its siblings. -/
def CasTiming.afterRd (c : CasTiming) : List (TimingEntry Command) :=
  [entry .rd c.nCCD, entry .rda c.nCCD,
    entry .wr (c.nCL + c.nCCD + 2 - c.nCWL), entry .wra (c.nCL + c.nCCD + 2 - c.nCWL),
    sibling .rd (c.nBL + c.nRTRS), sibling .rda (c.nBL + c.nRTRS),
    sibling .wr (c.nBL + c.nRTRS), sibling .wra (c.nBL + c.nRTRS),
    sibling .wr (c.nCL + c.nBL + c.nRTRS - c.nCWL),
    sibling .wra (c.nCL + c.nBL + c.nRTRS - c.nCWL)]

def CasTiming.afterWr (c : CasTiming) : List (TimingEntry Command) :=
  [entry .wr c.nCCD, entry .wra c.nCCD,
    entry .rd (c.nCWL + c.nBL + c.nWTR), entry .rda (c.nCWL + c.nBL + c.nWTR),
    sibling .rd (c.nCWL + c.nBL + c.nRTRS - c.nCL),
    sibling .rda (c.nCWL + c.nBL + c.nRTRS - c.nCL)]

end Generic

end Ramulator
