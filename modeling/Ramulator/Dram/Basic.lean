/-
  Ramulator.Dram.Basic

  The generic DRAM tree (DRAM.h).

  `Spec` is what a standard supplies (the template parameter `T`): how many
  children each level has, the scope of every command, and the lookup tables
  `prereq`, `rowhit`, `rowopen`, `lambda` and `timing`.  A level is its number
  `int(level)`; `Command::MAX` is the absent value of an `Option`.

  `DRAM` is the tree itself.  Every operation follows its recursion in the
  source: `decode`, `check`, `checkRowHit` and `checkRowOpen` descend along the
  address, `updateState` descends to the scope of the command and
  `updateTiming` visits every child of every selected node.  Indexing
  `children` outside its bounds is undefined in the source; the recursion
  stops there in the model, and no theorem relies on it.
-/

import Mathlib.Algebra.Order.Ring.Int
import Ramulator.Lib.Tree
import Ramulator.Base

namespace Ramulator

open List

/-! ## Nodes and standards -/

/-- `TimingEntry`: after the `dist`-th most recent issue of the command the
    entry belongs to, `cmd` has to wait `val` cycles.  `update_timing` asserts
    that a sibling entry looks one command back. -/
structure TimingEntry (C : Type) where
  cmd : C
  dist : Nat
  val : Int
  sibling : Bool := false
  dist_pos : 0 < dist := by decide
  sibling_dist : sibling = true → dist = 1 := by decide

structure NodeStats where
  curServingRequests : Int := 0
  beginOfServing : Int := -1
  endOfServing : Int := -1
  beginOfCurReqcnt : Int := -1
  beginOfRefreshing : Int := -1
  endOfRefreshing : Int := -1
  refreshIntervals : List (Int × Int) := []
  activeCycles : Int := 0
  refreshCycles : Int := 0
  activeRefreshOverlapCycles : Int := 0
  servingRequests : Int := 0
deriving DecidableEq, Repr

/-- The data of one `DRAM` object, its children apart. -/
structure Node (C S : Type) where
  level : Nat
  id : Int
  state : S
  rowState : Int → Option S := fun _ => none
  curClk : Int := 0
  next : C → Int
  prev : C → List Int
  stats : NodeStats := {}

/-- What no entry of `lambda` touches: place in the tree, timing tables and statistics. -/
structure Node.SameFrame {C S : Type} (n n' : Node C S) : Prop where
  level : n'.level = n.level
  id : n'.id = n.id
  curClk : n'.curClk = n.curClk
  next : n'.next = n.next
  prev : n'.prev = n.prev
  stats : n'.stats = n.stats

abbrev DRAM (C S : Type) := NodeTree (Node C S)

/-- A DRAM standard, as the tree uses it. -/
structure Spec (C S : Type) where
  /-- `int(Level::Row)`: rows are not instantiated as nodes. -/
  row : Nat
  /-- `int(Level::Bank)`. -/
  bank : Nat
  scope : C → Nat
  /-- `org_entry.count`. -/
  count : Nat → Nat
  start : Nat → S
  prereq : Nat → C → Option (DRAM C S → C → Int → Option C)
  rowhit : Nat → C → Option (DRAM C S → C → Int → Bool)
  rowopen : Nat → C → Option (DRAM C S → C → Int → Bool)
  lambda : Nat → C → Option (DRAM C S → Int → DRAM C S)
  timing : Nat → C → List (TimingEntry C)
  isOpening : C → Bool
  isAccessing : C → Bool
  isClosing : C → Bool
  isRefreshing : C → Bool
  lambda_frame : ∀ l c f, lambda l c = some f → ∀ t id, NodeTree.Rel Node.SameFrame t (f t id)

variable {C S : Type}

/-! ## Construction -/

/-- The length of the history kept for `cmd`: the largest `dist` of its entries. -/
def Spec.history (spec : Spec C S) (level : Nat) (cmd : C) : Nat :=
  (spec.timing level cmd).foldl (fun d t => max d t.dist) 0

theorem TimingEntry.dist_le_history {spec : Spec C S} {level : Nat} {p : C}
    {e : TimingEntry C} (he : e ∈ spec.timing level p) : e.dist ≤ spec.history level p := by
  have hfold : ∀ (l : List (TimingEntry C)) (d : Nat), d ≤ l.foldl (fun d t => max d t.dist) d ∧
      ∀ e ∈ l, e.dist ≤ l.foldl (fun d t => max d t.dist) d := by
    intro l
    induction l with
    | nil => exact fun d => ⟨le_refl d, fun e he => by cases he⟩
    | cons x l ih =>
      intro d
      obtain ⟨hacc, hmem⟩ := ih (max d x.dist)
      refine ⟨le_trans (le_max_left _ _) hacc, ?_⟩
      intro e he
      rcases mem_cons.mp he with rfl | he
      · exact le_trans (le_max_right _ _) hacc
      · exact hmem e he
  exact (hfold _ 0).2 e he

/-- A fresh node: nothing scheduled, no history. -/
def Node.new (spec : Spec C S) (level : Nat) (id : Int) : Node C S where
  level := level
  id := id
  state := spec.start level
  next := fun _ => -1
  prev := fun cmd => replicate (spec.history level cmd) (-1)

namespace DRAM

/-- The recursion of the constructor, with `depth` levels left above `Row`. -/
def newFrom (spec : Spec C S) : Nat → Nat → Int → DRAM C S
  | 0, level, id => .node (Node.new spec level id) 0 (fun i => i.elim0)
  | depth + 1, level, id =>
    .node (Node.new spec level id) (spec.count (level + 1))
      (fun i => newFrom spec depth (level + 1) i.val)

def new (spec : Spec C S) (level : Nat) (id : Int) : DRAM C S :=
  newFrom spec (spec.row - 1 - level) level id

/-! ## Queries -/

/-- The command that has to be issued first on behalf of `cmd`. -/
def decode (spec : Spec C S) (cmd : C) (addr : Nat → Int) : DRAM C S → C
  | .node n k f =>
    let childId := addr (n.level + 1)
    match (spec.prereq n.level cmd).bind (fun p => p (.node n k f) cmd childId) with
    | some prereqCmd => prereqCmd
    | none =>
      if childId < 0 then cmd
      else if h : childId.toNat < k then decode spec cmd addr (f ⟨childId.toNat, h⟩)
      else cmd

def check (spec : Spec C S) (cmd : C) (addr : Nat → Int) (clk : Int) :
    DRAM C S → Bool
  | .node n k f =>
    if n.next cmd ≠ -1 ∧ clk < n.next cmd then false
    else
      let childId := addr (n.level + 1)
      if childId < 0 ∨ n.level = spec.scope cmd then true
      else if h : childId.toNat < k then check spec cmd addr clk (f ⟨childId.toNat, h⟩)
      else true

def checkRowHit (spec : Spec C S) (cmd : C) (addr : Nat → Int) : DRAM C S → Bool
  | .node n k f =>
    let childId := addr (n.level + 1)
    match spec.rowhit n.level cmd with
    | some p => p (.node n k f) cmd childId
    | none =>
      if childId < 0 then false
      else if h : childId.toNat < k then
        checkRowHit spec cmd addr (f ⟨childId.toNat, h⟩)
      else false

def checkRowOpen (spec : Spec C S) (cmd : C) (addr : Nat → Int) : DRAM C S → Bool
  | .node n k f =>
    let childId := addr (n.level + 1)
    match spec.rowopen n.level cmd with
    | some p => p (.node n k f) cmd childId
    | none =>
      if childId < 0 then false
      else if h : childId.toNat < k then
        checkRowOpen spec cmd addr (f ⟨childId.toNat, h⟩)
      else false

/-! ## Update (state) -/

def applyLambda (spec : Spec C S) (cmd : C) (addr : Nat → Int) (t : DRAM C S) : DRAM C S :=
  match spec.lambda t.val.level cmd with
  | some g => g t (addr (t.val.level + 1))
  | none => t

/-- `update_state` with `depth` levels left; it enters the child as the transition left it. -/
def updateStateFrom (spec : Spec C S) (cmd : C) (addr : Nat → Int) :
    Nat → DRAM C S → DRAM C S
  | 0, t => t
  | depth + 1, t =>
    let t := applyLambda spec cmd addr t
    let childId := addr (t.val.level + 1)
    if t.val.level = spec.scope cmd ∨ childId < 0 then t
    else t.modifyChild childId.toNat (updateStateFrom spec cmd addr depth)

def updateState (spec : Spec C S) (cmd : C) (addr : Nat → Int) (t : DRAM C S) : DRAM C S :=
  updateStateFrom spec cmd addr (spec.row - t.val.level) t

end DRAM

/-! ## Update (timing) -/

namespace Node

variable [DecidableEq C]

def pushFuture (n : Node C S) (cmd : C) (future : Int) : Node C S :=
  { n with next := Function.update n.next cmd (max (n.next cmd) future) }

def siblingEntry (clk : Int) (n : Node C S) (t : TimingEntry C) : Node C S :=
  if t.sibling then n.pushFuture t.cmd (clk + t.val) else n

def siblingTiming (spec : Spec C S) (cmd : C) (clk : Int) (n : Node C S) : Node C S :=
  (spec.timing n.level cmd).foldl (siblingEntry clk) n

/-- `pop_back` and `push_front` on the history of `cmd`, if one is kept. -/
def recordHistory (cmd : C) (clk : Int) (n : Node C S) : Node C S :=
  if n.prev cmd = [] then n
  else { n with prev := Function.update n.prev cmd (clk :: (n.prev cmd).dropLast) }

def recordRefresh (clk future : Int) (n : Node C S) : Node C S :=
  let endOfRefreshing := max n.stats.endOfRefreshing future
  { n with stats :=
    { n.stats with
      beginOfRefreshing := clk
      endOfRefreshing := endOfRefreshing
      refreshCycles := n.stats.refreshCycles + (endOfRefreshing - clk)
      refreshIntervals :=
        if 0 < n.stats.curServingRequests then
          n.stats.refreshIntervals ++ [(clk, endOfRefreshing)]
        else n.stats.refreshIntervals } }

/-- `prev[cmd][dist - 1]`: the `dist`-th most recent issue of `cmd`. -/
def past (n : Node C S) (cmd : C) (dist : Nat) : Int := (n.prev cmd).getD (dist - 1) (-1)

def targetEntry (spec : Spec C S) (cmd : C) (clk : Int) (n : Node C S) (t : TimingEntry C) :
    Node C S :=
  if t.sibling then n
  else if n.past cmd t.dist < 0 then n
  else
    let n := n.pushFuture t.cmd (n.past cmd t.dist + t.val)
    if spec.isRefreshing cmd && spec.isOpening t.cmd then n.recordRefresh clk (n.next t.cmd)
    else n

/-- What a target node does: record the command, then visit its entries. -/
def targetTiming (spec : Spec C S) (cmd : C) (clk : Int) (n : Node C S) : Node C S :=
  (spec.timing n.level cmd).foldl (targetEntry spec cmd clk) (n.recordHistory cmd clk)

def refreshPastOk (spec : Spec C S) (cmd : C) (clk : Int) (n : Node C S) : Bool :=
  (spec.timing n.level cmd).all fun t =>
    let past := (n.recordHistory cmd clk).past cmd t.dist
    t.sibling || decide (past < 0) || !(spec.isRefreshing cmd && spec.isOpening t.cmd) ||
      decide (past = clk)

end Node

namespace DRAM

variable [DecidableEq C]

def updateTiming (spec : Spec C S) (cmd : C) (addr : Nat → Int) (clk : Int) :
    DRAM C S → DRAM C S
  | .node n k f =>
    if n.id ≠ addr n.level then .node (n.siblingTiming spec cmd clk) k f
    else .node (n.targetTiming spec cmd clk) k (fun i => updateTiming spec cmd addr clk (f i))

def updateTimingOk (spec : Spec C S) (cmd : C) (addr : Nat → Int) (clk : Int) :
    DRAM C S → Bool
  | .node n k f =>
    if n.id ≠ addr n.level then true
    else n.refreshPastOk spec cmd clk &&
      (List.finRange k).all (fun i => updateTimingOk spec cmd addr clk (f i))

def update (spec : Spec C S) (cmd : C) (addr : Nat → Int) (clk : Int) (t : DRAM C S) :
    Except Abort (DRAM C S) :=
  let t := t.setVal { t.val with curClk := clk }
  let t := updateState spec cmd addr t
  if updateTimingOk spec cmd addr clk t then .ok (updateTiming spec cmd addr clk t)
  else .error .refreshPast

end DRAM

/-! ## Serving requests -/

def NodeStats.serve (s : NodeStats) (delta clk : Int) : Except Abort NodeStats :=
  let s :=
    if s.beginOfCurReqcnt ≠ -1 ∧ 0 < s.curServingRequests then
      { s with
        servingRequests :=
          s.servingRequests + (clk - s.beginOfCurReqcnt) * s.curServingRequests
        activeCycles := s.activeCycles + (clk - s.beginOfCurReqcnt) }
    else s
  let s := { s with
    beginOfCurReqcnt := clk
    curServingRequests := s.curServingRequests + delta }
  if s.curServingRequests < 0 then .error .servingCount
  else if delta = 1 ∧ s.curServingRequests = 1 then
    -- from inactive to active
    .ok { s with
      beginOfServing := clk
      activeRefreshOverlapCycles :=
        if clk < s.endOfRefreshing then
          s.activeRefreshOverlapCycles + (s.endOfRefreshing - clk)
        else s.activeRefreshOverlapCycles }
  else if s.curServingRequests = 0 then
    -- from active to inactive
    if s.beginOfServing = -1 then .error .servingBegin
    else if delta ≠ -1 then .error .servingEnd
    else
      .ok { s with
        activeCycles := s.activeCycles + (clk - s.beginOfCurReqcnt)
        endOfServing := clk
        activeRefreshOverlapCycles :=
          s.refreshIntervals.foldl (fun o ref => o + (min clk ref.2 - ref.1))
            s.activeRefreshOverlapCycles
        refreshIntervals := [] }
  else .ok s

def DRAM.updateServingRequests (spec : Spec C S) (addr : Nat → Int) (delta clk : Int) :
    DRAM C S → Except Abort (DRAM C S)
  | .node n k f =>
    if n.id ≠ addr n.level then .error .servingId
    else if delta ≠ 1 ∧ delta ≠ -1 then .error .servingDelta
    else
      match n.stats.serve delta clk with
      | .error e => .error e
      | .ok stats =>
        let childId := addr (n.level + 1)
        -- only the bank level and the levels above it are counted
        if childId < 0 ∨ k = 0 ∨ spec.bank < n.level then .ok (.node { n with stats } k f)
        else if h : childId.toNat < k then
          match updateServingRequests spec addr delta clk (f ⟨childId.toNat, h⟩) with
          | .error e => .error e
          | .ok c =>
            .ok (.node { n with stats } k
              (fun j => if j.val = childId.toNat then c else f j))
        else .error .outOfBounds

end Ramulator
