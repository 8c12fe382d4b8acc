/-
  Ramulator.Generic.ChannelController

  The controller of a channel with its DRAM, `Controller<T>` (Controller.h), for
  any standard.

  `Generic.Controller` has the queues alone; `ChannelController` extends it by
  the DRAM tree, the row table and the refresh clock, and decides itself what
  `Decision` leaves open there.  `Device` is what the template parameter brings:
  the tables of the standard, and the two functions that are specialised for
  one (Controller.cpp): SALP looks for the subarray that `PRE_OTHER` closes, and
  TLDRAM turns the read it serves into a migration.

  `Refresh<T>` enqueues a refresh of every rank when it is time.  `Refresh<DSARP>`
  chooses banks and subarrays one by one unless it refreshes ranks; its choice in
  each cycle is an argument of `tick`.  The statistics that no decision reads are
  left out.  `junk` is read where the source reads behind the end of an address
  vector.
-/

import Ramulator.Scheduler
import Ramulator.Generic.Controller
import Ramulator.Generic.Salp
import Ramulator.Generic.Dsarp
import Ramulator.Generic.Tldram

namespace Ramulator

open List

namespace SALP

open Generic

/-- The first subarray but `id` that is open. -/
def otherOpened (bank : Tree) (id : Int) : Option Nat :=
  (List.range bank.arity).find? fun i =>
    decide (i ≠ id.toNat) && (bank.child? i).any fun sa => decide (sa.val.state = .opened)

/-- `get_offending_subarray`: subarray 0 if no other one is open. -/
def getOffendingSubarray (channel : Tree) (addrVec : AddrVec) : AddrVec :=
  let rank := channel.child? (addrVec.getD Level.rank 0).toNat
  let bank := rank.bind (·.child? (addrVec.getD Level.bank 0).toNat)
  let saId := (bank.bind (otherOpened · (addrVec.getD Level.subArray 0))).getD 0
  (addrVec.set Level.subArray saId).set Level.row (-1)

def getAddrVec (channel : Tree) (cmd : Command) (addrVec : AddrVec) : AddrVec :=
  if cmd = .preOther then getOffendingSubarray channel addrVec else addrVec

end SALP

namespace Generic

/-- What a standard brings to its controller. -/
structure Device where
  /-- `int(Level::MAX)`. -/
  levels : Nat
  spec : Spec Command State
  translate : RequestType → Command
  readLatency : Int
  nREFI : Int
  /-- `b_ref_rank`; only DSARP has standards that do not refresh ranks. -/
  bRefRank : Bool := true
  /-- `Controller<TLDRAM>::tick`: a read is served as a migration. -/
  migrates : Bool := false
  /-- `get_addr_vec`. -/
  getAddrVec : Tree → Command → AddrVec → AddrVec := fun _ _ addrVec => addrVec

/-- What the constructor of a controller fixes. -/
structure ChannelConfig where
  device : Device
  noDramLatency : Bool := false
  scheduler : SchedulerType := .frfcfsPriorHit
  rowpolicy : RowPolicyType := .opened

structure RefreshClock where
  clk : Int := 0
  refreshed : Int := 0
deriving DecidableEq, Repr

structure IssuedCmd where
  clk : Int
  cmd : Command
  addrVec : AddrVec
deriving DecidableEq, Repr

structure ChannelController extends Controller where
  channel : Tree
  rowtable : RowTable := []
  refreshClock : RefreshClock := {}
  /-- The command trace (`print_cmd_trace`), newest first. -/
  cmdTrace : List IssuedCmd := []

/-- What the refresh scheduler asks for: rank, bank and subarray. -/
abbrev RefreshTarget := Int × Int × Int

namespace ChannelController

variable (cfg : ChannelConfig)

def new (id : Int) : ChannelController where
  channel := DRAM.new cfg.device.spec 0 id

/-! ## Queries -/

def getFirstCmd (junk : Int) (c : ChannelController) (req : Request) : Command :=
  let cmd := cfg.device.translate req.type
  if cfg.noDramLatency then cmd
  else c.channel.decode cfg.device.spec cmd (req.addrVec.data junk)

def isReadyCmd (junk : Int) (c : ChannelController) (cmd : Command) (addrVec : AddrVec) : Bool :=
  c.channel.check cfg.device.spec cmd (addrVec.data junk) c.clk

def isReady (junk : Int) (c : ChannelController) (req : Request) : Bool :=
  let cmd := c.getFirstCmd cfg junk req
  c.isReadyCmd cfg junk cmd (cfg.device.getAddrVec c.channel cmd req.addrVec)

def isRowHit (junk : Int) (c : ChannelController) (req : Request) : Bool :=
  c.channel.checkRowHit cfg.device.spec (cfg.device.translate req.type) (req.addrVec.data junk)

def isRowOpen (junk : Int) (c : ChannelController) (req : Request) : Bool :=
  c.channel.checkRowOpen cfg.device.spec (cfg.device.translate req.type) (req.addrVec.data junk)

def view (junk : Int) (c : ChannelController) : View where
  isReady := c.isReady cfg junk
  isRowHit := c.isRowHit cfg junk
  isRowOpen := c.isRowOpen cfg junk

def getHead (junk : Int) (c : ChannelController) (type : RequestType) :
    Option (Nat × Request) × RowTable :=
  Scheduler.getHead cfg.device.spec (c.view cfg junk) (cfg.device.spec.scope .pre) cfg.scheduler
    (c.getQueue type) c.rowtable

/-! ## Requests in -/

def setQueue (c : ChannelController) (type : RequestType) (q : List Request) :
    ChannelController :=
  { c with toController := c.toController.setQueue type q }

/-- `enqueue`; `none` if the queue is full. -/
def enqueue (c : ChannelController) (req : Request) : Option ChannelController :=
  (c.toController.enqueue req).map fun queues => { c with toController := queues }

/-! ## 1. Serve completed reads -/

def updateServingRequests (junk : Int) (delta : Int) (c : ChannelController) (req : Request) :
    Except Abort ChannelController := do
  let channel ← c.channel.updateServingRequests cfg.device.spec (req.addrVec.data junk) delta c.clk
  pure { c with channel }

/-- A request that took longer than the forwarding shortcut was being served. -/
def endServing (junk : Int) (c : ChannelController) (req : Request) :
    Except Abort ChannelController :=
  if 1 < req.depart - req.arrive then c.updateServingRequests cfg junk (-1) req else pure c

/-- The first step of `tick`: the requests whose callback runs, and the new state. -/
def serveCompleted (junk : Int) (c : ChannelController) :
    Except Abort (List Request × ChannelController) :=
  match c.pending with
  | [] => pure ([], c)
  | req :: rest =>
    if req.depart ≤ c.clk then do
      let c ← c.endServing cfg junk req
      pure ([req], { c with pending := rest })
    else pure ([], c)

/-! ## 2. Refresh -/

def refreshRequest (id : Int) (target : RefreshTarget) : Request where
  addr := 0
  addrVec :=
    [id, target.1, target.2.1, target.2.2] ++ replicate (cfg.device.levels - 4) (-1)
  type := .refresh

def refreshTarget (c : ChannelController) (target : RefreshTarget) :
    Except Abort ChannelController :=
  match c.enqueue (refreshRequest cfg c.channel.val.id target) with
  | none => throw .refreshEnqueue
  | some c => pure c

/-- `inject_refresh`: every rank. -/
def injectRefresh (c : ChannelController) : Except Abort ChannelController := do
  let c ← ((List.range c.channel.arity).map fun (rank : Nat) => ((rank : Int), -1, -1)).foldlM
    (refreshTarget cfg) c
  pure { c with refreshClock := { c.refreshClock with refreshed := c.refreshClock.clk } }

/-- `tick_ref`; `targets` is what `Refresh<DSARP>` chooses. -/
def tickRef (targets : List RefreshTarget) (c : ChannelController) :
    Except Abort ChannelController :=
  let c := { c with refreshClock := { c.refreshClock with clk := c.refreshClock.clk + 1 } }
  if cfg.device.bRefRank then
    if cfg.device.nREFI ≤ c.refreshClock.clk - c.refreshClock.refreshed then c.injectRefresh cfg
    else pure c
  else targets.foldlM (refreshTarget cfg) c

/-! ## 3. Write mode -/

/-- The third step of `tick`. -/
def updateWriteMode (c : ChannelController) : ChannelController :=
  { c with toController := c.toController.updateWriteMode }

/-! ## 4. Schedule -/

def updateDram (junk : Int) (c : ChannelController) (cmd : Command) (addrVec : AddrVec) :
    Except Abort ChannelController :=
  if cfg.noDramLatency then
    -- still a bandwidth restriction: only the timing is updated
    if c.channel.updateTimingOk cfg.device.spec cmd (addrVec.data junk) c.clk then
      pure { c with
        channel := c.channel.updateTiming cfg.device.spec cmd (addrVec.data junk) c.clk }
    else throw .refreshPast
  else do
    let channel ← c.channel.update cfg.device.spec cmd (addrVec.data junk) c.clk
    let rowtable ← c.rowtable.update cfg.device.spec cmd addrVec c.clk junk
    pure { c with channel, rowtable }

def issueCmd (junk : Int) (c : ChannelController) (cmd : Command) (addrVec : AddrVec) :
    Except Abort ChannelController :=
  if c.isReadyCmd cfg junk cmd addrVec then do
    let c ← c.updateDram cfg junk cmd addrVec
    pure { c with cmdTrace := { clk := c.clk, cmd, addrVec } :: c.cmdTrace }
  else throw .notReady

/-- Precharge the victim of the row policy, if it names one. -/
def speculate (junk : Int) (c : ChannelController) : Except Abort ChannelController :=
  let victim := cfg.rowpolicy.getVictim (c.isReadyCmd cfg junk .pre) c.clk c.rowtable
  if victim = [] then pure c else c.issueCmd cfg junk .pre victim

/-- Nothing could be scheduled for a request; `Controller<TLDRAM>::tick` does not
    look at `no_DRAM_latency` here. -/
def noHead (junk : Int) (c : ChannelController) : Except Abort ChannelController :=
  if cfg.noDramLatency && !cfg.device.migrates then pure c else c.speculate cfg junk

/-- Reads and writes are counted from their first command on. -/
def startServing (junk : Int) (c : ChannelController) (req : Request) :
    Except Abort ChannelController :=
  if req.type = .read ∨ req.type = .write then c.updateServingRequests cfg junk 1 req else pure c

/-- The first command for a request: it starts to be served. -/
def firstCommand (junk : Int) (c : ChannelController) (type : RequestType) (i : Nat)
    (req : Request) : Except Abort (Request × ChannelController) :=
  if req.isFirstCommand then do
    let req := { req with isFirstCommand := false }
    let c := c.setQueue type ((c.getQueue type).set i req)
    let c ← c.startServing cfg junk req
    pure (req, c)
  else pure (req, c)

def migrate (c : ChannelController) (type : RequestType) (i : Nat) (req : Request) :
    Request × ChannelController :=
  if cfg.device.migrates && decide (req.type = .read) then
    let req := { req with type := .extension }
    (req, c.setQueue type ((c.getQueue type).set i req))
  else (req, c)

/-- A read, or what TLDRAM made of it, gets its completion time. -/
def complete (c : ChannelController) (req : Request) : ChannelController :=
  if req.type = .read ∨ (cfg.device.migrates ∧ req.type = .extension) then
    { c with pending := c.pending ++ [{ req with depart := c.clk + cfg.device.readLatency }] }
  else c

def completeWrite (junk : Int) (c : ChannelController) (req : Request) :
    Except Abort ChannelController :=
  if req.type = .write then c.updateServingRequests cfg junk (-1) req else pure c

/-- What follows the last command of a request: it leaves its queue. -/
def finishRequest (junk : Int) (c : ChannelController) (type : RequestType) (i : Nat)
    (req : Request) : Except Abort ChannelController := do
  let c ← (c.complete cfg req).completeWrite cfg junk req
  pure (c.setQueue type ((c.getQueue type).eraseIdx i))

def issueFor (junk : Int) (c : ChannelController) (type : RequestType) (i : Nat)
    (req : Request) : Except Abort ChannelController := do
  let cmd := c.getFirstCmd cfg junk req
  let c ← c.issueCmd cfg junk cmd (cfg.device.getAddrVec c.channel cmd req.addrVec)
  if cmd = cfg.device.translate req.type then c.finishRequest cfg junk type i req else pure c

def serveHead (junk : Int) (c : ChannelController) (type : RequestType) (i : Nat)
    (req : Request) : Except Abort ChannelController := do
  let (req, c) ← c.firstCommand cfg junk type i req
  let (req, c) := c.migrate cfg type i req
  c.issueFor cfg junk type i req

/-- The fourth step of `tick`. -/
def schedule (junk : Int) (c : ChannelController) : Except Abort ChannelController :=
  let type := c.selectQueue
  let (head, rowtable) := c.getHead cfg junk type
  let c := { c with rowtable }
  match head with
  | none => c.noHead cfg junk
  | some (i, req) =>
    if c.isReady cfg junk req then c.serveHead cfg junk type i req else c.noHead cfg junk

/-- `tick` up to the point where it asks the scheduler. -/
def prepare (junk : Int) (targets : List RefreshTarget) (c : ChannelController) :
    Except Abort ChannelController := do
  let c := { c with clk := c.clk + 1 }
  let served ← c.serveCompleted cfg junk
  let c ← served.2.tickRef cfg targets
  pure c.updateWriteMode

def tick (junk : Int) (targets : List RefreshTarget) (c : ChannelController) :
    Except Abort ChannelController := do
  let c ← c.prepare cfg junk targets
  c.schedule cfg junk

end ChannelController

/-- What happens to a controller. -/
inductive ChannelInput where
  | enqueue (req : Request)
  | tick (junk : Int) (targets : List RefreshTarget)

namespace ChannelController

def apply (cfg : ChannelConfig) (c : ChannelController) : ChannelInput →
    Except Abort ChannelController
  | .enqueue req => pure ((c.enqueue req).getD c)
  | .tick junk targets => c.tick cfg junk targets

def run (cfg : ChannelConfig) (id : Int) (inputs : List ChannelInput) :
    Except Abort ChannelController :=
  inputs.foldlM (apply cfg) (new cfg id)

end ChannelController

/-! ## The devices -/

/-- A chip of one of the standards.  The values of `SALP::Type` but MASA are left
    out. -/
inductive Chip where
  | ddr3 (org : OrgEntry) (speed : DDR3.SpeedEntry)
  | ddr4 (org : OrgEntry) (speed : DDR4.SpeedEntry)
  | masa (org : OrgEntry) (speed : SALP.SpeedEntry)
  | dsarp (type : DSARP.RefreshType) (org : OrgEntry) (speed : DSARP.SpeedEntry)
  | tldram (segmentRatio : Int) (org : OrgEntry) (speed : TLDRAM.SpeedEntry)

def Chip.device : Chip → Device
  | .ddr3 org speed =>
    { levels := DDR3.Level.max
      spec := DDR3.spec org speed
      translate := Generic.translate
      readLatency := speed.nCL + speed.nBL
      nREFI := speed.nREFI }
  | .ddr4 org speed =>
    { levels := DDR4.Level.max
      spec := DDR4.spec org speed
      translate := Generic.translate
      readLatency := speed.nCL + speed.nBL
      nREFI := speed.nREFI }
  | .masa org speed =>
    { levels := SALP.Level.max
      spec := SALP.spec org speed
      translate := Generic.translate
      readLatency := speed.nCL + speed.nBL
      nREFI := speed.nREFI
      getAddrVec := SALP.getAddrVec }
  | .dsarp type org speed =>
    { levels := DSARP.Level.max
      spec := DSARP.spec type org speed
      translate := DSARP.translate type
      readLatency := speed.nCL + speed.nBL
      nREFI := speed.nREFI
      bRefRank := decide (type = .refab) }
  | .tldram segmentRatio org speed =>
    { levels := TLDRAM.Level.max
      spec := TLDRAM.spec segmentRatio org speed
      translate := TLDRAM.translate
      readLatency := speed.nCL + speed.nBL
      nREFI := speed.nREFI
      migrates := true }

/-- The default scheduler is FRFCFS_PriorHit, the default row policy Opened. -/
def Chip.config (chip : Chip) : ChannelConfig where
  device := chip.device

def ddr3Chip : Chip := .ddr3 DDR3.org2GbX8 DDR3.speed1600K

def tldramChip : Chip := .tldram 16 TLDRAM.org2GbX8 TLDRAM.speed1600K

def readOf (addr : Int) (addrVec : AddrVec) : ChannelInput :=
  .enqueue { addr, addrVec, type := .read }

def writeOf (addr : Int) (addrVec : AddrVec) : ChannelInput :=
  .enqueue { addr, addrVec, type := .write }

/-- Cycles without an arrival and without a refresh. -/
def idle (n : Nat) : List ChannelInput := replicate n (.tick 0 [])

end Generic

end Ramulator
