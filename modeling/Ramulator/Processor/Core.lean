/-
  Ramulator.Processor.Core

  A core (`Core` of Processor.h, Processor.cpp) and what it sends requests to.

  A core works through its trace: `bubble_cnt` instructions without memory
  access, then one request.  In a run with a single trace the requests wait in
  the core's queue; in a run with split traces the core reads its own trace
  file, of which the model has what `get_zsim_request` makes of each line.

  A core owns its L2 and L1 and shares the rest (`Uncore`).  The memory is
  given by its operations (`MemoryBase`), so that the cores can be put on top
  of any memory.  The members no constructor sets are in `Workload` with the
  trace.  Statistics that nothing else reads are left out.
-/

import Ramulator.Cache.Basic
import Ramulator.Processor.Window

namespace Ramulator

/-- `MemoryBase`: the operations of a memory.  `tick` also returns the requests
    whose callback ran, oldest first. -/
structure MemoryBase (τ : Type) where
  send : τ → Request → Except Abort (Bool × τ)
  pageAllocator : τ → Int → Int → Except Abort (Int × τ)
  tick : τ → Except Abort (List Request × τ)
  pendingRequests : τ → Nat

/-- The value of the option `core_org`. -/
inductive CpuType where
  | inOrder | outOrder | other
deriving DecidableEq, Repr

structure ProcessorConfig where
  /-- `has_core_caches`. -/
  coreCaches : Bool := false
  /-- `has_l3_cache`. -/
  l3Cache : Bool := false
  cpuType : CpuType := .outOrder
  pimModeEnabled : Bool := false
  /-- The size of `trace_list`. -/
  traceNum : Nat := 1
deriving DecidableEq, Repr

namespace ProcessorConfig

variable (cfg : ProcessorConfig)

def l1 : CacheConfig where
  size := 2 ^ 15
  assoc := 2 ^ 3
  blockSize := 2 ^ 6
  mshrEntryNum := 16
  level := .l1
  pimMode := cfg.pimModeEnabled

def l2 : CacheConfig where
  size := if cfg.pimModeEnabled then 2 ^ 6 else 2 ^ 18
  assoc := 2 ^ 3
  blockSize := 2 ^ 6
  mshrEntryNum := 16
  level := .l2
  pimMode := cfg.pimModeEnabled

/-- `l3_size`, `l3_assoc`, `l3_blocksz` and `mshr_per_bank` for every trace. -/
def llc : CacheConfig where
  size := 2 ^ 23
  assoc := 2 ^ 3
  blockSize := 2 ^ 6
  mshrEntryNum := 16 * cfg.traceNum
  level := .l3
  pimMode := cfg.pimModeEnabled

end ProcessorConfig

structure QueueEntry where
  bubbleCnt : Int
  reqAddr : Int
  reqType : RequestType
deriving DecidableEq, Repr

inductive ZsimLine where
  /-- An empty line ends the trace, as the end of the file does. -/
  | empty
  /-- A line that is not a record sets the address to -1. -/
  | malformed
  /-- A record; the type letter `P` leaves the type as it was. -/
  | record (bubbleCnt addr : Int) (type : Option RequestType)
deriving DecidableEq, Repr

/-- What the cores share. -/
structure Uncore (τ : Type) where
  cachesys : CacheSystem := {}
  llc : Cache := {}
  memory : τ

structure Core where
  clk : Int := 0
  retired : Int := 0
  id : Int
  splitTrace : Bool
  inFlightMemoryAccess : Nat := 0
  rqstQueue : List QueueEntry
  lockCore : Bool := false
  l2 : Cache := {}
  l1 : Cache := {}
  expectedLimitInsts : Int
  reachedLimit : Bool := false
  window : Window := {}
  bubbleCnt : Int
  reqAddr : Int := -1
  reqType : RequestType
  moreReqs : Bool := false
  last : Int := 0
  memoryAccessCycles : Int := 0
  cpuInst : Int := 0
  idleCycles : Int := 0
  tracePerCore : List ZsimLine

namespace Core

variable {τ : Type} (cfg : ProcessorConfig) (base : MemoryBase τ)

/-! ## The trace -/

def getZsimRequest (core : Core) : Core :=
  match core.tracePerCore with
  | [] => { core with moreReqs := false }
  | .empty :: rest => { core with moreReqs := false, tracePerCore := rest }
  | .malformed :: rest => { core with moreReqs := true, reqAddr := -1, tracePerCore := rest }
  | .record bubbleCnt addr type :: rest =>
    { core with moreReqs := true, bubbleCnt, reqAddr := addr
                reqType := type.getD core.reqType, tracePerCore := rest }

def popQueue (core : Core) : Core :=
  match core.rqstQueue with
  | [] => { core with moreReqs := false }
  | entry :: rest =>
    { core with moreReqs := true, bubbleCnt := entry.bubbleCnt, reqAddr := entry.reqAddr
                reqType := entry.reqType, rqstQueue := rest }

def nextSplit (core : Core) (u : Uncore τ) : Except Abort (Core × Uncore τ) := do
  let core := core.getZsimRequest
  let (addr, memory) ← base.pageAllocator u.memory core.reqAddr core.id
  pure ({ core with reqAddr := addr }, { u with memory })

def recordEnd (core : Core) : Core :=
  if core.moreReqs then core else { core with reachedLimit := true }

/-! ## Requests out -/

def send (core : Core) (u : Uncore τ) (req : Request) :
    Except Abort (Bool × Core × Uncore τ) :=
  if cfg.coreCaches then do
    let (accepted, l1, cachesys) ← core.l1.send cfg.l1 u.cachesys req
    pure (accepted, { core with l1 }, { u with cachesys })
  else if cfg.l3Cache then do
    let (accepted, llc, cachesys) ← u.llc.send cfg.llc u.cachesys req
    pure (accepted, core, { u with llc, cachesys })
  else do
    let (accepted, memory) ← base.send u.memory req
    pure (accepted, core, { u with memory })

def request (core : Core) (type : RequestType) : Request :=
  { addr := core.reqAddr, type, callback := .processorReceive, coreid := core.id }

/-- The request for an instruction: a read with a mark. -/
def instructionRequest (core : Core) : Request :=
  { core.request .read with instructionRequest := true }

/-- One more instruction, which may be the last one expected. -/
def countInst (core : Core) : Core :=
  let core := { core with cpuInst := core.cpuInst + 1 }
  if core.cpuInst = core.expectedLimitInsts then { core with reachedLimit := true } else core

/-! ## Out of order -/

/-- The bubbles of `tick_outOrder` with room for `slots` instructions in this
    cycle.  `none` ends the tick; otherwise the slots that are left. -/
def insertBubbles : Nat → Core → Except Abort (Option Nat × Core)
  | 0, core =>
    if 0 < core.bubbleCnt then pure (none, { core with idleCycles := core.idleCycles + 1 })
    else pure (some 0, core)
  | slots + 1, core =>
    if 0 < core.bubbleCnt then
      if core.window.isFull then pure (none, core)
      else do
        let window ← core.window.insert true (-1)
        insertBubbles slots (countInst { core with window, bubbleCnt := core.bubbleCnt - 1 })
    else pure (some (slots + 1), core)

/-- The core waits for its request to be accepted, and a read goes into the
    window; whether the request is done. -/
def issueRead (core : Core) (u : Uncore τ) : Except Abort (Bool × Core × Uncore τ) := do
  let (accepted, core, u) ← core.send cfg base u (core.request .read)
  if accepted then do
    let window ← core.window.insert false core.reqAddr
    pure (true, { core with window, cpuInst := core.cpuInst + 1 }, u)
  else pure (false, core, u)

def issueWrite (core : Core) (u : Uncore τ) : Except Abort (Bool × Core × Uncore τ) := do
  let (accepted, core, u) ← core.send cfg base u (core.request .write)
  pure (accepted, if accepted then { core with cpuInst := core.cpuInst + 1 } else core, u)

def issueOutOrder (core : Core) (u : Uncore τ) (slots : Nat) :
    Except Abort (Bool × Core × Uncore τ) :=
  match core.reqType with
  | .read =>
    if slots = 0 then pure (false, { core with idleCycles := core.idleCycles + 1 }, u)
    else if core.window.isFull then pure (false, core, u)
    else core.issueRead cfg base u
  | .write => core.issueWrite cfg base u
  | .instruction =>
    if slots = 0 then pure (false, { core with idleCycles := core.idleCycles + 1 }, u)
    else core.send cfg base u core.instructionRequest
  | _ => pure (true, core, u)

def nextRequest (core : Core) (u : Uncore τ) : Except Abort (Core × Uncore τ) :=
  if core.splitTrace then core.nextSplit base u else pure (core.popQueue, u)

def requestOutOrder (core : Core) (u : Uncore τ) (slots : Nat) :
    Except Abort (Core × Uncore τ) := do
  let (done, core, u) ← core.issueOutOrder cfg base u slots
  if done then do
    let (core, u) ← core.nextRequest base u
    pure (core.recordEnd, u)
  else pure (core, u)

/-- The core has nothing left to do, or is locked. -/
def isIdle (core : Core) : Bool :=
  (core.expectedLimitInsts = 0 && !core.moreReqs) || core.lockCore

def tickOutOrder (core : Core) (u : Uncore τ) : Except Abort (Core × Uncore τ) := do
  let (retired, window) ← core.window.retire
  let core := { core with window, retired := core.retired + retired }
  if core.isIdle then pure (core, u)
  else do
    let (slots, core) ← core.insertBubbles Window.ipc
    match slots with
    | none => pure (core, u)
    | some slots => core.requestOutOrder cfg base u slots

/-! ## In order -/

def retireBubbles : Nat → Core → Option Nat × Core
  | 0, core => if 0 < core.bubbleCnt then (none, core) else (some 0, core)
  | slots + 1, core =>
    if 0 < core.bubbleCnt then
      retireBubbles slots { core.countInst with
        bubbleCnt := core.bubbleCnt - 1, retired := core.retired + 1 }
    else (some (slots + 1), core)

def issueInstruction (core : Core) (u : Uncore τ) : Except Abort (Bool × Core × Uncore τ) := do
  let (accepted, core, u) ← core.send cfg base u core.instructionRequest
  pure (accepted, if accepted then
    { core with inFlightMemoryAccess := core.inFlightMemoryAccess + 1, lockCore := true }
    else core, u)

/-- The request of `tick_inOrder`.  The first of its two branches for a read
    counts the instruction and sends nothing; the second is never reached. -/
def issueInOrder (core : Core) (u : Uncore τ) (slots : Nat) :
    Except Abort (Bool × Core × Uncore τ) :=
  match core.reqType with
  | .read =>
    if slots = 0 then pure (false, core, u)
    else pure (true, { core with cpuInst := core.cpuInst + 1 }, u)
  | .write => core.issueWrite cfg base u
  | .instruction =>
    if slots = 0 then pure (false, core, u) else core.issueInstruction cfg base u
  | _ => pure (true, core, u)

def requestInOrder (core : Core) (u : Uncore τ) (slots : Nat) :
    Except Abort (Core × Uncore τ) := do
  let (done, core, u) ← core.issueInOrder cfg base u slots
  pure (if done then core.popQueue.recordEnd else core, u)

def tickInOrder (core : Core) (u : Uncore τ) : Except Abort (Core × Uncore τ) :=
  if core.isIdle || decide (1 ≤ core.inFlightMemoryAccess) then pure (core, u)
  else
    match core.retireBubbles Window.ipc with
    | (none, core) => pure (core, u)
    | (some slots, core) => core.requestInOrder cfg base u slots

def tick (core : Core) (u : Uncore τ) : Except Abort (Core × Uncore τ) :=
  let core := { core with clk := core.clk + 1 }
  match cfg.cpuType with
  | .inOrder => core.tickInOrder cfg base u
  | .outOrder => core.tickOutOrder cfg base u
  | .other => pure (core, u)

/-! ## Responses in -/

def blockMask : Int := Int.lnot ((cfg.l1.blockSize : Int) - 1)

def receive (core : Core) (req : Request) : Core :=
  let core := { core with window := core.window.setReady req.addr (blockMask cfg) }
  if req.arrive ≠ -1 ∧ core.last < req.depart then
    { core with
      memoryAccessCycles := core.memoryAccessCycles + (req.depart - max core.last req.arrive)
      last := req.depart }
  else core

/-- `callback` on the core's L2, and from there on its L1. -/
def callbackCaches (core : Core) (req : Request) : Except Abort Core := do
  let l2 ← core.l2.callback cfg.l2 req
  let l1 ← core.l1.callback cfg.l1 req
  pure { core with l2, l1 }

def finished (core : Core) : Bool := !core.moreReqs

end Core

end Ramulator
