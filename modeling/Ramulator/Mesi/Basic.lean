/-
  Ramulator.Mesi.Basic

  The coherence controllers of zsim's caches (coherence_ctrls.h, coherence_ctrls.cpp).
  They decide which requests reach the memory controller that writes the host traces.

  The caches are terminal caches, the children, below a shared and inclusive cache
  with the memory above it.  The controllers keep their state line by line, so the
  model follows one line through all caches; a line that is in no array is in state I.

  A child lets go of its lock when it asks the shared cache, and its line can be
  invalidated while it waits.  A step is what a thread does under the locks of the
  shared cache, or under those of a child up to the point where it asks.  Cycles,
  profiling counters and non-inclusive caches are left out.
-/

import Mathlib.Data.Finset.Card
import Ramulator.Processor.TraceRecords

namespace Ramulator

open Function

namespace Mesi

open Zsim

/-- `InvType`; nothing sends a FWD. -/
inductive InvType where
  | inv | invx
deriving DecidableEq, Repr

/-- An assertion fails, or there is a `panic`. -/
inductive Failure where
  | assertion | trueRace
deriving DecidableEq, Repr

/-- `MESITopCC::Entry`, with the bitset of sharers as a set. -/
structure Entry where
  numSharers : Nat := 0
  sharers : Finset Nat := ∅
  exclusive : Bool := false

def Entry.isExclusive (e : Entry) : Bool := e.numSharers == 1 && e.exclusive

/-- A request that a child has sent. -/
structure Req where
  type : AccessType
  initialState : MESIState
  noexcl : Bool := false

/-- A line: what the two controllers of the shared cache have for it, the states of
    the children and the requests that they wait for. -/
structure Line where
  state : MESIState := .i
  entry : Entry := {}
  child : Nat → MESIState := fun _ => .i
  asked : Nat → Option Req := fun _ => none

def assert (c : Prop) [Decidable c] : Except Failure Unit :=
  if c then pure () else .error .assertion

/-- `MESIBottomCC::isExclusive`. -/
def isExclusive : MESIState → Bool
  | .e | .m => true
  | .i | .s => false

/-! ## Invalidations -/

/-- `MESIBottomCC::processInval`: the state, and whether it asks for a writeback. -/
def processInval (type : InvType) (state : MESIState) : Except Failure (MESIState × Bool) :=
  match type with
  | .invx => do
    assert (isExclusive state = true)
    pure (.s, state == .m)
  | .inv => do
    assert (state ≠ .i)
    pure (.i, state == .m)

/-- The loop of `sendInvalidates`. -/
structure Sending where
  line : Line
  reqWriteback : Bool := false
  sentInvs : Nat := 0

/-- One child in the loop. -/
def sendInvalidate (type : InvType) (r : Sending) (c : Nat) : Except Failure Sending :=
  let e := r.line.entry
  if c ∈ e.sharers then do
    let inval ← processInval type (r.line.child c)
    pure {
      line := { r.line with
        child := update r.line.child c inval.1
        entry := if type = .inv then { e with sharers := e.sharers.erase c } else e }
      reqWriteback := r.reqWriteback || inval.2
      sentInvs := r.sentInvs + 1 }
  else pure r

variable (kids : Nat)

/-- `MESITopCC::sendInvalidates`. -/
def sendInvalidates (line : Line) (type : InvType) : Except Failure (Line × Bool) :=
  if (type = .invx ∧ line.entry.isExclusive = false) ∨ line.entry.numSharers = 0 then
    pure (line, false)
  else do
    let r ← (List.range kids).foldlM (sendInvalidate type) { line }
    let e := r.line.entry
    assert (r.sentInvs = e.numSharers)
    match type with
    | .inv => pure ({ r.line with entry := { e with numSharers := 0 } }, r.reqWriteback)
    | .invx => do
      assert (e.exclusive = true ∧ e.numSharers = 1)
      pure ({ r.line with entry := { e with exclusive := false } }, r.reqWriteback)

/-- What a writeback does (`processWritebackOnAccess`, `processEviction`). -/
def writeback (r : Line × Bool) : Except Failure Line := do
  assert (r.2 = true → isExclusive r.1.state = true)
  pure (if r.2 then { r.1 with state := .m } else r.1)

/-! ## The directory -/

/-- A child is no sharer any more. -/
def Entry.drop (e : Entry) (c : Nat) : Entry :=
  { e with numSharers := e.numSharers - 1, sharers := e.sharers.erase c }

/-- A child becomes a sharer and gets the line in the given state. -/
def Line.share (l : Line) (c : Nat) (state : MESIState) : Line :=
  { l with
    child := update l.child c state
    entry := {
      numSharers := l.entry.numSharers + 1
      sharers := insert c l.entry.sharers
      exclusive := isExclusive state } }

/-- `MESITopCC::processAccess` after a PUT. -/
def topPut (l : Line) (c : Nat) : Except Failure Line := do
  assert (c ∈ l.entry.sharers)
  pure { l with child := update l.child c .i, entry := l.entry.drop c }

/-- `MESITopCC::processAccess` after a GETS. -/
def topGets (l : Line) (c : Nat) (noexcl : Bool) : Except Failure Line :=
  if l.entry.numSharers = 0 ∧ isExclusive l.state = true ∧ noexcl = false then pure (l.share c .e)
  else do
    assert (c ∉ l.entry.sharers)
    let r ← if l.entry.isExclusive then sendInvalidates kids l .invx else pure (l, false)
    assert (r.1.entry.isExclusive = false)
    writeback (r.1.share c .s, r.2)

/-- `MESITopCC::processAccess` after a GETX. -/
def topGetx (l : Line) (c : Nat) : Except Failure Line := do
  assert (isExclusive l.state = true)
  assert (c ∈ l.entry.sharers → l.entry.isExclusive = false)
  -- an upgrade: the other copies are invalidated, not this one
  let l := if c ∈ l.entry.sharers then { l with entry := l.entry.drop c } else l
  let r ← sendInvalidates kids l .inv
  assert (r.1.entry.numSharers + 1 = 1)
  writeback (r.1.share c .m, r.2)

/-- `MESITopCC::processAccess`. -/
def topAccess (l : Line) (c : Nat) (type : AccessType) (noexcl : Bool) : Except Failure Line :=
  match type with
  | .putx => do
    assert (l.entry.isExclusive = true)
    topPut l c
  | .puts => topPut l c
  | .gets => topGets kids l c noexcl
  | .getx => topGetx kids l c

/-! ## Accesses -/

def isPut (type : AccessType) : Bool := type == .puts || type == .putx

/-- `CheckForMESIRace`: the type of the access, none if it is skipped. -/
def checkForMESIRace (type : AccessType) (state initialState : MESIState) :
    Except Failure (Option AccessType) :=
  if state = initialState then pure (some type)
  else if isPut type then
    if state = .i then pure none
    else do
      assert (state = .s)
      pure (some .puts)
  else if type = .getx then do
    assert (initialState = .s ∧ state = .i)
    pure (some .getx)
  else .error .trueRace

/-- `MESIBottomCC::processAccess`: the state after it, none if the parent is asked. -/
def bottomAccess (type : AccessType) (state : MESIState) : Except Failure (Option MESIState) :=
  match type with
  | .puts => do
    assert (state ≠ .i)
    pure (some state)
  | .putx => do
    assert (isExclusive state = true)
    pure (some .m)
  | .gets => pure (if state = .i then none else some state)
  | .getx => pure (if isExclusive state then some .m else none)

/-- The state with which a memory answers (`SimpleMemory`, `MemoryTraces`). -/
def memoryAccess (type : AccessType) (noexcl : Bool) : MESIState :=
  match type with
  | .puts | .putx => .i
  | .gets => if noexcl then .s else .e
  | .getx => .m

/-- `processAccess` of the bottom controller of the shared cache, below the memory. -/
def sharedAccess (l : Line) (type : AccessType) (noexcl : Bool) : Except Failure Line := do
  let state ← bottomAccess type l.state
  let state := state.getD (memoryAccess type noexcl)
  assert (type = .getx → state = .m)
  pure { l with state }

/-- The shared cache takes up the request of a child, which then goes on. -/
def serve (l : Line) (c : Nat) (req : Req) : Except Failure Line := do
  let type ← checkForMESIRace req.type (l.child c) req.initialState
  let l ← type.elim (pure l) fun type => do
    let l ← sharedAccess l type req.noexcl
    topAccess kids l c type req.noexcl
  assert (isPut req.type = true → l.child c = .i)
  assert (req.type = .getx → l.child c = .m)
  pure { l with asked := update l.asked c none }

/-- What happens to a line next. -/
inductive Step where
  /-- The core of a child loads from the line or stores to it. -/
  | get (c : Nat) (store noexcl : Bool)
  /-- The child evicts the line. -/
  | put (c : Nat)
  /-- The shared cache takes up the request of a child. -/
  | serve (c : Nat)
  /-- A prefetcher asks the shared cache for the line. -/
  | prefetch
  /-- The shared cache evicts the line.  The line it gets next has a flag of its own. -/
  | evict (exclusive : Bool)
deriving DecidableEq, Repr

/-- The child asks the shared cache. -/
def ask (l : Line) (c : Nat) (type : AccessType) (noexcl : Bool) : Line :=
  { l with asked := update l.asked c (some { type, initialState := l.child c, noexcl }) }

/-- A step.  A child does nothing while it waits, and only then is it served. -/
def step (l : Line) (s : Step) : Except Failure Line :=
  match s with
  | .get c store noexcl =>
    if c < kids ∧ (l.asked c).isNone then do
      let type := if store then .getx else .gets
      let state ← bottomAccess type (l.child c)
      pure (state.elim (ask l c type noexcl) fun state =>
        { l with child := update l.child c state })
    else pure l
  | .put c =>
    if c < kids ∧ (l.asked c).isNone ∧ l.child c ≠ .i then
      pure (ask l c (if l.child c = .m then .putx else .puts) false)
    else pure l
  | .serve c => (l.asked c).elim (pure l) (serve kids l c)
  | .prefetch => sharedAccess l .gets false
  | .evict exclusive => do
    let r ← sendInvalidates kids l .inv
    let l ← writeback r
    -- the memory takes the line
    pure { l with state := .i, entry := { l.entry with exclusive } }

/-- A run, from a line that no cache has. -/
def run (steps : List Step) : Except Failure Line := steps.foldlM (step kids) {}

end Mesi

end Ramulator
