/-
  Ramulator.Generic.Controller

  The queues of the controller of any standard, `Controller<T>` (Controller.h).

  The standard `T` comes in at four places of `tick`: the refresh scheduler
  enqueues its requests, the scheduler picks a request of the queue, the DRAM
  says whether the request is ready, and which command it needs next.  These
  answers are an argument of `tick` (`Decision`), so that a run is one for any
  standard, scheduler and row policy.  What the commands do to the DRAM is left
  out; it changes no queue.
-/

import Ramulator.Base

namespace Ramulator

namespace Generic

def queueMax : Nat := 32

structure Controller where
  clk : Int := 0
  readq : List Request := []
  writeq : List Request := []
  otherq : List Request := []
  pending : List Request := []
  writeMode : Bool := false

/-- What the standard answers in one cycle. -/
structure Decision where
  /-- The requests of the refresh scheduler. -/
  refreshes : List Request := []
  /-- The position of the request that is scheduled, if one is found and ready. -/
  head : Option Nat := none
  /-- Its next command is its last one. -/
  isLast : Bool := false

namespace Controller

def getQueue (c : Controller) : RequestType → List Request
  | .read => c.readq
  | .write => c.writeq
  | _ => c.otherq

def setQueue (c : Controller) (type : RequestType) (q : List Request) : Controller :=
  match type with
  | .read => { c with readq := q }
  | .write => { c with writeq := q }
  | _ => { c with otherq := q }

/-- `enqueue`; `none` if the queue is full. -/
def enqueue (c : Controller) (req : Request) : Option Controller :=
  if (c.getQueue req.type).length = queueMax then none
  else
    let req := { req with arrive := c.clk }
    let c := c.setQueue req.type (c.getQueue req.type ++ [req])
    if req.type = .read ∧ c.writeq.any (fun wreq => decide (req.addr = wreq.addr)) then
      let req := { req with depart := c.clk + 1 }
      some { c with pending := c.pending ++ [req], readq := c.readq.dropLast }
    else some c

/-- 1. Serve completed reads: the first one leaves `pending`. -/
def serveCompleted (c : Controller) : Controller :=
  match c.pending with
  | [] => c
  | req :: rest => if req.depart ≤ c.clk then { c with pending := rest } else c

/-- 2. Refresh scheduler: its requests have to find room. -/
def refresh (c : Controller) (req : Request) : Except Abort Controller :=
  match c.enqueue req with
  | none => throw .refreshEnqueue
  | some c => pure c

/-- 3. Should we schedule writes? -/
def updateWriteMode (c : Controller) : Controller :=
  if !c.writeMode then
    if 25 ≤ c.writeq.length ∨ c.readq.length = 0 then { c with writeMode := true } else c
  else
    if c.writeq.length ≤ 6 ∧ c.readq.length ≠ 0 then { c with writeMode := false } else c

def selectQueue (c : Controller) : RequestType :=
  if c.otherq.length ≠ 0 then .refresh
  else if c.writeMode then .write
  else .read

/-- The last command of a request: it leaves its queue, and a read is pending. -/
def finish (readLatency : Int) (c : Controller) (type : RequestType) (i : Nat) (req : Request) :
    Controller :=
  let c :=
    if req.type = .read then
      { c with pending := c.pending ++ [{ req with depart := c.clk + readLatency }] }
    else c
  c.setQueue type ((c.getQueue type).eraseIdx i)

/-- 4. Find the best command to schedule, if any. -/
def schedule (readLatency : Int) (d : Decision) (c : Controller) : Controller :=
  let type := c.selectQueue
  match d.head with
  | none => c
  | some i =>
    match (c.getQueue type)[i]? with
    | none => c
    | some req =>
      let req := { req with isFirstCommand := false }
      let c := c.setQueue type ((c.getQueue type).set i req)
      if d.isLast then c.finish readLatency type i req else c

def tick (readLatency : Int) (d : Decision) (c : Controller) : Except Abort Controller := do
  let c := { c with clk := c.clk + 1 }
  let c ← d.refreshes.foldlM refresh c.serveCompleted
  pure (c.updateWriteMode.schedule readLatency d)

end Controller

/-- What happens to a controller. -/
inductive Input where
  | enqueue (req : Request)
  | tick (d : Decision)

namespace Controller

def apply (readLatency : Int) (c : Controller) : Input → Except Abort Controller
  | .enqueue req => pure ((c.enqueue req).getD c)
  | .tick d => c.tick readLatency d

def run (readLatency : Int) (inputs : List Input) : Except Abort Controller :=
  inputs.foldlM (apply readLatency) {}

end Controller

end Generic

end Ramulator
