/-
  Ramulator.Hmc.Controller

  The vault controller, `Controller<HMC>` (HMC_Controller.h), with its refresh
  scheduler `Refresh<HMC>` (Refresh.h, Refresh.cpp).

  `Controller` is the state of one controller; `ControllerConfig` is what its
  constructor fixes.  The procedures follow the source: `receive` and `enqueue`
  take requests in, `tick` is one memory cycle, cut into the four steps the
  source numbers.  The statistics that no decision reads are left out.
  `cmdTrace` is the command trace the source writes with `record_cmd_trace`,
  newest command first and with the whole address vector.

  `tick` takes the value `junk` that is read where the source reads behind the
  end of an address vector; only a speculative victim is short enough for that.
-/

import Ramulator.Hmc.Spec
import Ramulator.Hmc.Packet
import Ramulator.Scheduler

namespace Ramulator

open HMC (Command)

structure Refresh where
  clk : Int := 0
  refreshed : Int := 0
deriving DecidableEq, Repr

structure Issued where
  clk : Int
  cmd : Command
  addrVec : AddrVec
deriving DecidableEq, Repr

structure ControllerConfig where
  hmc : HMC
  pimModeEnabled : Bool := false
  noDramLatency : Bool := false
  scheduler : SchedulerType := .frfcfsPriorHit
  rowpolicy : RowPolicyType := .opened

def queueMax : Nat := 32

structure Controller where
  clk : Int := 0
  channel : HMC.Tree
  rowtable : RowTable := []
  refresh : Refresh := {}
  readq : List Request := []
  writeq : List Request := []
  otherq : List Request := []
  pending : List Request := []
  writeMode : Bool := false
  responsePacketsBuffer : List Packet := []
  incomingPacketsBuffer : Int → Option Packet := fun _ => none
  cmdTrace : List Issued := []

namespace Controller

variable (cfg : ControllerConfig)

def new (id : Int) : Controller where
  channel := DRAM.new cfg.hmc.spec HMC.Level.vault id

/-! ## Queries -/

def getFirstCmd (junk : Int) (c : Controller) (req : Request) : Command :=
  let cmd := HMC.translate req.type
  if cfg.noDramLatency then cmd else c.channel.decode cfg.hmc.spec cmd (req.addrVec.data junk)

def isReadyCmd (junk : Int) (c : Controller) (cmd : Command) (addrVec : AddrVec) : Bool :=
  c.channel.check cfg.hmc.spec cmd (addrVec.data junk) c.clk

def isReady (junk : Int) (c : Controller) (req : Request) : Bool :=
  c.isReadyCmd cfg junk (c.getFirstCmd cfg junk req) req.addrVec

def isRowHit (junk : Int) (c : Controller) (req : Request) : Bool :=
  c.channel.checkRowHit cfg.hmc.spec (HMC.translate req.type) (req.addrVec.data junk)

def isRowOpen (junk : Int) (c : Controller) (req : Request) : Bool :=
  c.channel.checkRowOpen cfg.hmc.spec (HMC.translate req.type) (req.addrVec.data junk)

def view (junk : Int) (c : Controller) : View where
  isReady := c.isReady cfg junk
  isRowHit := c.isRowHit cfg junk
  isRowOpen := c.isRowOpen cfg junk

/-! ## Requests in -/

def getQueue (c : Controller) : RequestType → List Request
  | .read => c.readq
  | .write => c.writeq
  | _ => c.otherq

def setQueue (c : Controller) (type : RequestType) (q : List Request) : Controller :=
  match type with
  | .read => { c with readq := q }
  | .write => { c with writeq := q }
  | _ => { c with otherq := q }

/-- `enqueue`; `none` if the queue is full.  A read that finds a queued write
    to its address is served from it: it moves on to `pending`. -/
def enqueue (c : Controller) (req : Request) : Option Controller :=
  if !cfg.pimModeEnabled && decide ((c.getQueue req.type).length = queueMax) then none
  else
    let req := { req with arrive := c.clk }
    let c := c.setQueue req.type (c.getQueue req.type ++ [req])
    if req.type = .read ∧ c.writeq.any (fun wreq => decide (req.addr = wreq.addr)) then
      let req := { req with depart := c.clk + 1 }
      some { c with pending := c.pending ++ [req], readq := c.readq.dropLast }
    else some c

/-- `receive`.  The packet is passed by reference: its request keeps the burst
    count, and the buffered copy stays, also when the queue is full. -/
def receive (c : Controller) (packet : Packet) : Except Abort (Bool × Packet × Controller) :=
  if packet.type = .request then
    let req := { packet.req with
      burstCount := cfg.hmc.burstCount
      transactionBytes := cfg.hmc.payloadFlits * 16 }
    let packet := { packet with req }
    let c := { c with
      incomingPacketsBuffer := Function.update c.incomingPacketsBuffer req.reqid (some packet) }
    match c.enqueue cfg req with
    | some c => .ok (true, packet, c)
    | none => .ok (false, packet, c)
  else .error .packetType

/-! ## 1. Serve completed reads -/

def responseTo (reqPacket : Packet) (req : Request) : Packet :=
  let lng := if req.type = .write then 1 else 1 + cfg.hmc.payloadFlits
  Packet.mkResponse reqPacket.cub reqPacket.tag lng reqPacket.tailSlid reqPacket.cmd req

def formResponsePacket (c : Controller) (req : Request) : Except Abort (Packet × Controller) :=
  match c.incomingPacketsBuffer req.reqid with
  | none => .error .responseLookup
  | some reqPacket =>
    let packet := responseTo cfg reqPacket req
    if Packet.valid packet.cub Packet.cubBits ∧ Packet.valid packet.tag Packet.tagBits ∧
        Packet.valid packet.headerSlid Packet.slidBits then
      .ok (packet, { c with
        incomingPacketsBuffer := Function.update c.incomingPacketsBuffer req.reqid none })
    else .error .packetField

def respond (c : Controller) (req : Request) : Except Abort Controller := do
  let (packet, c) ← c.formResponsePacket cfg req
  pure { c with responsePacketsBuffer := c.responsePacketsBuffer ++ [packet] }

def updateServingRequests (junk : Int) (delta : Int) (c : Controller) (req : Request) :
    Except Abort Controller := do
  let channel ← c.channel.updateServingRequests cfg.hmc.spec (req.addrVec.data junk) delta c.clk
  pure { c with channel }

/-- A request that took longer than the forwarding shortcut was being served. -/
def endServing (junk : Int) (c : Controller) (req : Request) : Except Abort Controller :=
  if 1 < req.depart - req.arrive then c.updateServingRequests cfg junk (-1) req else pure c

/-- PIM mode: run the callback of the request at the head of `pending`. -/
def runCallback (c : Controller) (req : Request) (rest : List Request) :
    Except Abort (List Request × Controller) :=
  let req := { req with departHmc := c.clk }
  if req.type = .read ∨ req.type = .write then
    match c.incomingPacketsBuffer req.reqid with
    | none => throw .responseLookup
    | some _ =>
      pure ([req], { c with
        incomingPacketsBuffer := Function.update c.incomingPacketsBuffer req.reqid none
        pending := rest })
  else pure ([], { c with pending := req :: rest })

/-- The first step of `tick`; the requests whose callback runs come with the
    new state. -/
def serveCompleted (junk : Int) (c : Controller) : Except Abort (List Request × Controller) :=
  match c.pending with
  | [] => pure ([], c)
  | req :: rest =>
    if req.depart ≤ c.clk then do
      let c ← c.endServing cfg junk req
      if cfg.pimModeEnabled then c.runCallback req rest
      else do
        let c ← c.respond cfg req
        pure ([], { c with pending := rest })
    else pure ([], c)

/-! ## 2. Refresh -/

/-- The request of `refresh_target`: to the vault, with no component below. -/
def refreshRequest (vault : Int) : Request where
  addr := 0
  addrVec := [vault, -1, -1, -1, -1]
  coreid := 0
  type := .refresh

def tickRef (c : Controller) : Except Abort Controller :=
  let c := { c with refresh := { c.refresh with clk := c.refresh.clk + 1 } }
  if cfg.hmc.speed.nREFI ≤ c.refresh.clk - c.refresh.refreshed then
    match c.enqueue cfg (refreshRequest c.channel.val.id) with
    | none => .error .refreshEnqueue
    | some c => .ok { c with refresh := { c.refresh with refreshed := c.refresh.clk } }
  else .ok c

/-! ## 3. Write mode -/

/-- The third step of `tick`: `int(0.8 * 32)` is 25 and `int(0.2 * 32)` is 6. -/
def updateWriteMode (c : Controller) : Controller :=
  if !c.writeMode then
    if 25 ≤ c.writeq.length ∨ c.readq.length = 0 then { c with writeMode := true } else c
  else
    if c.writeq.length ≤ 6 ∧ c.readq.length ≠ 0 then { c with writeMode := false } else c

/-! ## 4. Schedule -/

def updateDram (junk : Int) (c : Controller) (cmd : Command) (addrVec : AddrVec) :
    Except Abort Controller :=
  if cfg.noDramLatency then
    -- still a bandwidth restriction: only the timing is updated
    if c.channel.updateTimingOk cfg.hmc.spec cmd (addrVec.data junk) c.clk then
      pure { c with
        channel := c.channel.updateTiming cfg.hmc.spec cmd (addrVec.data junk) c.clk }
    else throw .refreshPast
  else do
    let channel ← c.channel.update cfg.hmc.spec cmd (addrVec.data junk) c.clk
    let rowtable ← c.rowtable.update cfg.hmc.spec cmd addrVec c.clk junk
    pure { c with channel, rowtable }

def issueCmd (junk : Int) (c : Controller) (cmd : Command) (addrVec : AddrVec) :
    Except Abort Controller :=
  if c.isReadyCmd cfg junk cmd addrVec then do
    let c ← c.updateDram cfg junk cmd addrVec
    pure { c with cmdTrace := { clk := c.clk, cmd, addrVec } :: c.cmdTrace }
  else throw .notReady

/-- Precharge the victim of the row policy, if it names one. -/
def speculate (junk : Int) (c : Controller) : Except Abort Controller :=
  let victim := cfg.rowpolicy.getVictim (c.isReadyCmd cfg junk .pre) c.clk c.rowtable
  if victim = [] then pure c else c.issueCmd cfg junk .pre victim

def selectQueue (c : Controller) : RequestType :=
  if c.otherq.length ≠ 0 then .refresh
  else if c.writeMode then .write
  else .read

/-- Reads and writes are counted from their first command on. -/
def startServing (junk : Int) (c : Controller) (req : Request) : Except Abort Controller :=
  if req.type = .read ∨ req.type = .write then c.updateServingRequests cfg junk 1 req else pure c

/-- The first command for a request: it starts to be served. -/
def firstCommand (junk : Int) (c : Controller) (type : RequestType) (i : Nat) (req : Request) :
    Except Abort (Request × Controller) :=
  if req.isFirstCommand then do
    let req := { req with isFirstCommand := false }
    let c := c.setQueue type ((c.getQueue type).set i req)
    let c ← c.startServing cfg junk req
    pure (req, c)
  else pure (req, c)

/-- A write is done: the response is formed and it is no longer served. -/
def completeWrite (junk : Int) (c : Controller) (req : Request) : Except Abort Controller := do
  let c ← c.respond cfg req
  c.updateServingRequests cfg junk (-1) req

/-- After a column command of a request: count the burst down and, at its end,
    complete the request. -/
def countBurst (junk : Int) (c : Controller) (req : Request) :
    Except Abort (Request × Controller) :=
  match req.type with
  | .read =>
    let req := { req with burstCount := req.burstCount - 1 }
    if req.burstCount = 0 then
      let req := { req with depart := c.clk + cfg.hmc.readLatency }
      pure (req, { c with pending := c.pending ++ [req] })
    else pure (req, c)
  | .write =>
    let req := { req with burstCount := req.burstCount - 1 }
    if req.burstCount = 0 then do
      let c ← c.completeWrite cfg junk req
      pure (req, c)
    else pure (req, c)
  | _ => pure (req, c)

/-- Remove the request from its queue, or store its burst count. -/
def leaveQueue (c : Controller) (type : RequestType) (i : Nat) (req : Request) : Controller :=
  if req.burstCount = 0 then c.setQueue type ((c.getQueue type).eraseIdx i)
  else c.setQueue type ((c.getQueue type).set i req)

/-- What follows the last command of a request. -/
def finishBurst (junk : Int) (c : Controller) (type : RequestType) (i : Nat) (req : Request) :
    Except Abort Controller := do
  let (req, c) ← c.countBurst cfg junk req
  pure (c.leaveQueue type i req)

def serveHead (junk : Int) (c : Controller) (type : RequestType) (i : Nat) (req : Request) :
    Except Abort Controller := do
  let (req, c) ← c.firstCommand cfg junk type i req
  let cmd := c.getFirstCmd cfg junk req
  let c ← c.issueCmd cfg junk cmd req.addrVec
  if cmd = HMC.translate req.type then c.finishBurst cfg junk type i req else pure c

/-- Nothing could be scheduled for a request. -/
def noHead (junk : Int) (c : Controller) : Except Abort Controller :=
  if cfg.noDramLatency then pure c else c.speculate cfg junk

/-- The fourth step of `tick`. -/
def schedule (junk : Int) (c : Controller) : Except Abort Controller :=
  let type := c.selectQueue
  let (head, rowtable) := Scheduler.getHead cfg.hmc.spec (c.view cfg junk)
    (HMC.scope .pre) cfg.scheduler (c.getQueue type) c.rowtable
  let c := { c with rowtable }
  match head with
  | none => c.noHead cfg junk
  | some (i, req) =>
    if c.isReady cfg junk req then c.serveHead cfg junk type i req else c.noHead cfg junk

/-- `tick`: the requests whose callback ran, and the new state. -/
def tick (junk : Int) (c : Controller) : Except Abort (List Request × Controller) := do
  let c := { c with clk := c.clk + 1 }
  let (done, c) ← c.serveCompleted cfg junk
  let c ← c.tickRef cfg
  let c := c.updateWriteMode
  let c ← c.schedule cfg junk
  pure (done, c)

end Controller

end Ramulator
