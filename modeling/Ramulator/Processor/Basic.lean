/-
  Ramulator.Processor.Basic

  The processor (`Processor` of Processor.h, Processor.cpp): its cores, the
  cache system they share, and the way back of their requests.

  The callback a core puts into its requests is `Processor::receive`.  It is
  run by the cache system for a hit and by the memory for a read that is done.
-/

import Ramulator.Processor.Core

namespace Ramulator

open Outcome

/-- What a core starts from: its trace, and the members that no constructor
    sets. -/
structure Workload where
  /-- `get_split_trace`. -/
  splitTrace : Bool := false
  rqstQueue : List QueueEntry := []
  tracePerCore : List ZsimLine := []
  bubbleCnt : Int := 0
  reqType : RequestType := .read
  expectedLimitInsts : Int := 0

structure Processor (τ : Type) where
  cores : List Core
  uncore : Uncore τ

namespace Processor

variable {τ : Type} (cfg : ProcessorConfig) (base : MemoryBase τ)

def newCore (id : Int) (w : Workload) : Core where
  id := id
  splitTrace := w.splitTrace
  rqstQueue := w.rqstQueue
  expectedLimitInsts := w.expectedLimitInsts
  bubbleCnt := w.bubbleCnt
  reqType := w.reqType
  tracePerCore := w.tracePerCore

def addCore (p : Processor τ) (w : Workload) : Except Abort (Processor τ) := do
  let (core, uncore) ← (newCore p.cores.length w).nextRequest base p.uncore
  pure { cores := p.cores ++ [core], uncore }

/-- The processor at the end of its constructor.  In a run with a single trace
    the queues are what the trace was dealt out to. -/
def new (memory : τ) (workloads : List Workload) : Except Abort (Processor τ) :=
  workloads.foldlM (addCore base) { cores := [], uncore := { memory } }

/-! ## Callbacks -/

/-- `llc.callback`, if there is a shared cache. -/
def callbackLlc (req : Request) (llc : Cache) : Except Abort Cache :=
  if cfg.l3Cache then llc.callback cfg.llc req else pure llc

/-- `callback` on the caches of all cores, if they have caches. -/
def callbackCores (req : Request) (cores : List Core) : Except Abort (List Core) :=
  if cfg.coreCaches then cores.mapM (·.callbackCaches cfg req) else pure cores

def receive (p : Processor τ) (req : Request) : Except Abort (Processor τ) := do
  let llc ← callbackLlc cfg req p.uncore.llc
  let cores ← callbackCores cfg req p.cores
  let core ← Vec.at cores req.coreid
  pure { cores := cores.set req.coreid.toNat (core.receive cfg req)
         uncore := { p.uncore with llc } }

def runCallback (p : Processor τ) (req : Request) : Except Abort (Processor τ) :=
  match req.callback with
  | .none => pure p
  | .processorReceive => p.receive cfg req

/-! ## One cycle -/

def tickCachesys (p : Processor τ) : Except Abort (Processor τ) := do
  let sys := { p.uncore.cachesys with clk := p.uncore.cachesys.clk + 1 }
  let (waitList, memory) ← CacheSystem.sendWaiting base.send sys.clk sys.waitList p.uncore.memory
  let due := sys.dueHits
  let sys := { sys with waitList, hitList := sys.pendingHits }
  due.foldlM (runCallback cfg) { p with uncore := { p.uncore with cachesys := sys, memory } }

def tickCaches (p : Processor τ) : Except Abort (Processor τ) :=
  if cfg.coreCaches || cfg.l3Cache then p.tickCachesys cfg base else pure p

def tickCore (p : Processor τ) (i : Nat) : Except Abort (Processor τ) := do
  let core ← Vec.at p.cores i
  let (core, uncore) ← core.tick cfg base p.uncore
  pure { cores := p.cores.set i core, uncore }

def tick (p : Processor τ) : Except Abort (Processor τ) := do
  let p ← p.tickCaches cfg base
  (List.range p.cores.length).foldlM (tickCore cfg base) p

/-- `finished` without early exit. -/
def finished (p : Processor τ) : Bool := p.cores.all (·.finished)

def finishedEarly (p : Processor τ) : Bool := p.cores.any (·.finished)

def hasReachedLimit (p : Processor τ) : Bool := p.cores.all (·.reachedLimit)

/-- The memory ticks, and runs the callbacks of the reads that are done. -/
def tickMemory (p : Processor τ) : Except Abort (Processor τ) := do
  let (done, memory) ← base.tick p.uncore.memory
  done.foldlM (runCallback cfg) { p with uncore := { p.uncore with memory } }

end Processor

/-! ## A memory to try a core on -/

/-- A memory whose answers are given in advance; then it accepts everything. -/
def MemoryBase.scripted : MemoryBase (List Bool) where
  send answers _ := pure (answers.headD true, answers.tail)
  pageAllocator answers addr _ := pure (addr, answers)
  tick answers := pure ([], answers)
  pendingRequests _ := 0

theorem MemoryBase.scripted_ends (answers : List Bool) (req : Request) :
    Ends (MemoryBase.scripted.send answers req) (fun _ => True) (fun _ => False) :=
  Ends.pure trivial

end Ramulator
