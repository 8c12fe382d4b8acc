/-
  Ramulator.Hmc.Memory

  The memory system, `Memory<HMC>` (HMC_Memory.h), with the switch of its logic
  layers (LogicLayer.cpp).

  `send` takes a request from the host and `tick` is one memory cycle: every
  controller, then every logic layer, whose links and switch move packets.  In
  host mode a request travels in packets through a link and the switch; in PIM
  mode it goes to its vault at once.  What leaves the memory is logged in
  `events`: a packet that reaches `receive_packets`, and a callback that runs.

  A loop of the source runs over the indices of a vector.  The statistics and
  `requests_per_vault`, which nothing reads, are left out.
-/

import Mathlib.Data.Int.Bitwise
import Ramulator.Hmc.Controller
import Ramulator.Hmc.LogicLayer

namespace Ramulator

open List

inductive AddressingType where
  | roCoBaVa | roBaCoVa | roCoBaBgVa
deriving DecidableEq, Repr

inductive Translation where
  | none | random
deriving DecidableEq, Repr

structure MemoryConfig where
  ctrl : ControllerConfig
  /-- `stacks`. -/
  stackNumber : Nat := 1
  type : AddressingType := .roCoBaVa
  translation : Translation := .none
  /-- `LogicLayer::cub` of each stack: no constructor sets it. -/
  cub : Nat → Int
  /-- `ceil(flits * one_flit_cycles)`, a floating-point product. -/
  flitCycles : Int → Int
  /-- The values `lrand` returns, one after the other. -/
  lrand : Nat → Nat

/-- What leaves the memory. -/
inductive Event where
  /-- A data packet reaches `receive_packets`. -/
  | delivered (packet : Packet)
  /-- The callback of a request runs. -/
  | callback (req : Request)

structure Memory where
  clk : Int := 0
  memReqCount : Int := 0
  ctrls : List Controller
  logicLayers : List LogicLayer
  tagsPools : List (List Int)
  freePhysicalPages : List Int := []
  freePhysicalPagesRemaining : Nat := 0
  pageTranslation : Int × Int → Option Int := fun _ => none
  lrandCount : Nat := 0
  events : List Event := []

namespace MemoryConfig

variable (cfg : MemoryConfig)

def hmc : HMC := cfg.ctrl.hmc

def capacityPerStack : Nat :=
  HMC.channelWidth / 8 * cfg.hmc.org.vault * cfg.hmc.org.bankGroup * cfg.hmc.org.bank *
    cfg.hmc.org.row * cfg.hmc.org.column

def maxAddress : Nat := cfg.capacityPerStack * cfg.stackNumber

def txBits : Nat := Nat.log2 (HMC.prefetchSize * HMC.channelWidth / 8)

/-- `addr_bits`; a column address leaves out the bits of one prefetch. -/
def addrBits (level : Nat) : Nat :=
  if level = HMC.Level.column then
    Nat.log2 (cfg.hmc.org.count level) - Nat.log2 HMC.prefetchSize
  else Nat.log2 (cfg.hmc.org.count level)

end MemoryConfig

namespace Memory

variable (cfg : MemoryConfig)

def new : Memory where
  ctrls := (List.range (cfg.hmc.org.vault * cfg.stackNumber)).map
    fun c => Controller.new cfg.ctrl (c : Int)
  logicLayers := (List.range cfg.stackNumber).map
    fun i => { cub := cfg.cub i, hostLinks := replicate cfg.hmc.sourceLinks {} }
  tagsPools := replicate cfg.hmc.sourceLinks
    ((List.range cfg.hmc.maxTags).map fun i : Nat => (i : Int))
  freePhysicalPages :=
    match cfg.translation with
    | .none => []
    | .random => replicate (cfg.maxAddress >>> 12) (-1)
  freePhysicalPagesRemaining :=
    match cfg.translation with
    | .none => 0
    | .random => cfg.maxAddress >>> 12

/-! ## Addresses -/

def clearHigherBits (addr : Int) (mask : Nat) : Nat := (Int.land addr mask).toNat

/-- `slice_lower_bits`: the low bits, and the address without them. -/
def sliceLowerBits (addr bits : Nat) : Nat × Nat := (addr &&& ((1 <<< bits) - 1), addr >>> bits)

/-- The address vector of an address below the capacity. -/
def addrVec (addr : Nat) : AddrVec :=
  -- each transaction has 2 ^ txBits bytes
  let addr := addr >>> MemoryConfig.txBits
  let colBits := HMC.flitNumBits cfg.hmc.maxblock - MemoryConfig.txBits
  let (column, addr) := sliceLowerBits addr colBits
  let (vault, addr) := sliceLowerBits addr (cfg.addrBits HMC.Level.vault)
  match cfg.type with
  | .roCoBaVa =>
    let (bank, addr) := sliceLowerBits addr (cfg.addrBits HMC.Level.bank)
    let (bankGroup, addr) := sliceLowerBits addr (cfg.addrBits HMC.Level.bankGroup)
    let (columnMSB, addr) := sliceLowerBits addr (cfg.addrBits HMC.Level.column - colBits)
    let (row, _) := sliceLowerBits addr (cfg.addrBits HMC.Level.row)
    [vault, bankGroup, bank, row, (column ||| (columnMSB <<< colBits) : Nat)]
  | .roBaCoVa =>
    let (columnMSB, addr) := sliceLowerBits addr (cfg.addrBits HMC.Level.column - colBits)
    let (bank, addr) := sliceLowerBits addr (cfg.addrBits HMC.Level.bank)
    let (bankGroup, addr) := sliceLowerBits addr (cfg.addrBits HMC.Level.bankGroup)
    let (row, _) := sliceLowerBits addr (cfg.addrBits HMC.Level.row)
    [vault, bankGroup, bank, row, (column ||| (columnMSB <<< colBits) : Nat)]
  | .roCoBaBgVa =>
    let (bankGroup, addr) := sliceLowerBits addr (cfg.addrBits HMC.Level.bankGroup)
    let (bank, addr) := sliceLowerBits addr (cfg.addrBits HMC.Level.bank)
    let (columnMSB, addr) := sliceLowerBits addr (cfg.addrBits HMC.Level.column - colBits)
    let (row, _) := sliceLowerBits addr (cfg.addrBits HMC.Level.row)
    [vault, bankGroup, bank, row, (column ||| (columnMSB <<< colBits) : Nat)]

/-- The do-while loop of `page_allocator`: the next page that is free, or
    `start` again. -/
def searchPage (pages : List Int) (start : Nat) : Nat → Nat → Nat
  | 0, page => page
  | fuel + 1, page =>
    let page := (page + 1) % pages.length
    if page ≠ start ∧ pages.getD page (-1) ≠ -1 then searchPage pages start fuel page
    else page

def assignPage (m : Memory) (target : Int × Int) : Except Abort (Int × Memory) := do
  let page := cfg.lrand m.lrandCount % m.freePhysicalPages.length
  let m := { m with lrandCount := m.lrandCount + 1 }
  let owner ← Vec.at m.freePhysicalPages page
  if m.freePhysicalPagesRemaining = 0 then
    -- all pages are taken: share one
    if owner = -1 then throw .physicalPage
    else pure (page, { m with
      pageTranslation := Function.update m.pageTranslation target (some page) })
  else
    let page :=
      if owner = -1 then page
      else searchPage m.freePhysicalPages page m.freePhysicalPages.length page
    if m.freePhysicalPages.getD page 0 = -1 then
      pure (page, { m with
        pageTranslation := Function.update m.pageTranslation target (some page)
        freePhysicalPages := m.freePhysicalPages.set page target.1
        freePhysicalPagesRemaining := m.freePhysicalPagesRemaining - 1 })
    else throw .physicalPage

def pageOf (m : Memory) (target : Int × Int) : Except Abort (Int × Memory) :=
  match m.pageTranslation target with
  | some page => pure (page, m)
  | none => m.assignPage cfg target

def pageAllocator (m : Memory) (addr coreid : Int) : Except Abort (Int × Memory) :=
  match cfg.translation with
  | .none => pure (addr, m)
  | .random => do
      let (page, m) ← m.pageOf cfg (coreid, addr >>> 12)
      -- page << 12 | (addr & ((1 << 12) - 1))
      pure (page * 2 ^ 12 + addr % 2 ^ 12, m)

/-! ## Host side -/

def hostLink (m : Memory) (l : Nat) (s : Int) : Except Abort Link := do
  let layer ← Vec.at m.logicLayers l
  Vec.at layer.hostLinks s

def setLink (m : Memory) (l : Nat) (s : Int) (link : Link) : Memory :=
  { m with
    logicLayers := m.logicLayers.modify l
      fun layer => { layer with hostLinks := layer.hostLinks.set s.toNat link } }

def setCtrl (m : Memory) (v : Int) (ctrl : Controller) : Memory :=
  { m with ctrls := m.ctrls.set v.toNat ctrl }

def setPool (m : Memory) (s : Int) (pool : List Int) : Memory :=
  { m with tagsPools := m.tagsPools.set s.toNat pool }

/-- `assign_tag`; -1 if there is none left. -/
def assignTag (m : Memory) (slid : Int) : Except Abort (Int × Memory) := do
  let pool ← Vec.at m.tagsPools slid
  match pool with
  | [] => pure (-1, m)
  | tag :: rest => pure (tag, m.setPool slid rest)

def slidOf (req : Request) : Int :=
  (req.addr >>> HMC.flitNumBits cfg.hmc.maxblock) % cfg.hmc.sourceLinks

def requestPacket (req : Request) (tag : Int) : Except Abort Packet :=
  let packet := Packet.mkRequest (req.addr / cfg.capacityPerStack) req.addr tag
  match req.type with
  | .read => pure (packet 1 (slidOf cfg req) (readCmdMap 1) req)
  | .write =>
    let lng := 1 + cfg.hmc.payloadFlits
    pure (packet lng (slidOf cfg req) (writeCmdMap lng) req)
  | _ => throw .requestType

def formRequestPacket (m : Memory) (req : Request) : Except Abort (Packet × Memory) := do
  let (tag, m) ← m.assignTag (slidOf cfg req)
  let packet ← requestPacket cfg req tag
  if Packet.valid packet.cub Packet.cubBits ∧ Packet.valid packet.adrs Packet.adrsBits ∧
      Packet.valid packet.tag Packet.tagBits ∧ Packet.valid packet.tailSlid Packet.slidBits then
    pure (packet, m)
  else throw .packetField

/-- The request as `send` passes it on: numbered, its address cut and decoded. -/
def prepare (m : Memory) (req : Request) : Request :=
  let addr := clearHigherBits req.addr (cfg.maxAddress - 1)
  { req with
    initialAddr := req.addr
    reqid := m.memReqCount
    addr := addr
    addrVec := addrVec cfg addr
    arriveHmc := m.clk }

def vaultOf (req : Request) : Int := req.addrVec.getD HMC.Level.vault 0

/-- The end of `send` in PIM mode: the packet goes to its vault. -/
def sendToVault (m : Memory) (packet : Packet) : Except Abort (Bool × Memory) := do
  let ctrl ← Vec.at m.ctrls (vaultOf packet.req)
  let (_, _, ctrl) ← ctrl.receive cfg.ctrl packet
  pure (true, { m.setCtrl (vaultOf packet.req) ctrl with memReqCount := m.memReqCount + 1 })

/-- The end of `send` in host mode: to the link, if there is a tag and room. -/
def sendToLink (m : Memory) (packet : Packet) : Except Abort (Bool × Memory) :=
  if packet.tag = -1 then pure (false, m)
  else do
    let link ← m.hostLink 0 packet.tailSlid
    if packet.totalFlits ≤ link.slave.availableSpace then
      pure (true, { m.setLink 0 packet.tailSlid (link.receive packet) with
        memReqCount := m.memReqCount + 1 })
    else pure (false, m)

def send (m : Memory) (req : Request) : Except Abort (Bool × Memory) := do
  let (packet, m) ← m.formRequestPacket cfg (m.prepare cfg req)
  if cfg.ctrl.pimModeEnabled then m.sendToVault cfg packet else m.sendToLink packet

def receivePackets (m : Memory) (packet : Packet) : Except Abort Memory :=
  if packet.flowControl then pure m
  else if packet.type = .response then do
    let pool ← Vec.at m.tagsPools packet.headerSlid
    let req := { packet.req with departHmc := m.clk }
    let m := m.setPool packet.headerSlid (pool ++ [packet.tag])
    pure { m with
      events := m.events ++ .delivered { packet with req } ::
        if req.type = .read then [.callback req] else [] }
  else throw .packetType

def pendingRequests (m : Memory) : Nat :=
  (m.ctrls.map fun ctrl =>
    ctrl.readq.length + ctrl.writeq.length + ctrl.otherq.length + ctrl.pending.length).sum

/-! ## One memory cycle -/

def tickCtrl (junk : Nat → Int) (m : Memory) (v : Nat) : Except Abort Memory := do
  let ctrl ← Vec.at m.ctrls v
  let (done, ctrl) ← ctrl.tick cfg.ctrl (junk v)
  pure { m.setCtrl v ctrl with events := m.events ++ done.map .callback }

/-- `send_via_link`, if a packet was sent. -/
def deliver (m : Memory) : Option Packet → Except Abort Memory
  | none => pure m
  | some packet => m.receivePackets packet

def tickLink (l : Nat) (m : Memory) (s : Nat) : Except Abort Memory := do
  let link ← m.hostLink l s
  let (sent, link) ← link.tick cfg.flitCycles
  (m.setLink l s link).deliver sent

/-- A vault takes the first packet of a link, or it stays, as `receive` left it. -/
def forwardTo (l : Nat) (m : Memory) (s : Nat) (link : Link) (packet : Packet)
    (rest : List Packet) : Except Abort (Bool × Memory) := do
  let ctrl ← Vec.at m.ctrls (vaultOf packet.req)
  let (accepted, packet, ctrl) ← ctrl.receive cfg.ctrl packet
  let m := m.setCtrl (vaultOf packet.req) ctrl
  if accepted then
    pure (true, m.setLink l s { link with
      slave.extractedTokenCount := link.slave.extractedTokenCount + packet.totalFlits
      slave.inputBuffer := rest })
  else pure (false, m.setLink l s { link with slave.inputBuffer := packet :: rest })

/-- The first loop of `Switch::tick`, for one link: at most one packet per vault
    and cycle.  A packet for another stack stays where it is. -/
def forward (l : Nat) (cub : Int) (state : List Int × Memory) (s : Nat) :
    Except Abort (List Int × Memory) := do
  let (usedVaults, m) := state
  let link ← m.hostLink l s
  match link.slave.inputBuffer with
  | [] => pure (usedVaults, m)
  | packet :: rest =>
    if packet.cub = cub ∧ vaultOf packet.req ∉ usedVaults then do
      let (accepted, m) ← m.forwardTo cfg l s link packet rest
      pure (if accepted then vaultOf packet.req :: usedVaults else usedVaults, m)
    else pure (usedVaults, m)

/-- The second loop of `Switch::tick`, for one vault: at most one packet per
    link and cycle. -/
def backward (l : Nat) (state : List Int × Memory) (v : Nat) :
    Except Abort (List Int × Memory) := do
  let (usedLinks, m) := state
  let ctrl ← Vec.at m.ctrls v
  match ctrl.responsePacketsBuffer with
  | [] => pure (usedLinks, m)
  | packet :: rest => do
      let link ← m.hostLink l packet.headerSlid
      if packet.headerSlid ∉ usedLinks ∧ packet.totalFlits ≤ link.master.availableSpace then
        let m := m.setLink l packet.headerSlid { link with
          master.outputBuffer := link.master.outputBuffer ++ [packet] }
        pure (packet.headerSlid :: usedLinks,
          m.setCtrl v { ctrl with responsePacketsBuffer := rest })
      else pure (usedLinks, m)

/-- `LogicLayer::tick`: the masters of the links, then the switch. -/
def tickLayer (m : Memory) (l : Nat) : Except Abort Memory := do
  let layer ← Vec.at m.logicLayers l
  let links := List.range layer.hostLinks.length
  let m ← links.foldlM (tickLink cfg l) m
  let (_, m) ← links.foldlM (forward cfg l layer.cub) ([], m)
  let (_, m) ← (List.range m.ctrls.length).foldlM (backward l) ([], m)
  pure m

def tick (junk : Nat → Int) (m : Memory) : Except Abort Memory := do
  let m := { m with clk := m.clk + 1 }
  let m ← (List.range m.ctrls.length).foldlM (tickCtrl cfg junk) m
  (List.range m.logicLayers.length).foldlM (tickLayer cfg) m

/-- A small stack: two vaults, two links, and one cycle per flit. -/
def smallStack (payloadFlits : Int) : MemoryConfig where
  ctrl := { hmc := { org := ⟨2, 1, 1, 4, 64⟩, speed := HMC.speedTable .hmc2500, maxblock := .b32,
                     sourceLinks := 2, payloadFlits } }
  cub := fun _ => 0
  flitCycles := fun flits => flits
  lrand := fun _ => 0

def stackOf4Gb (translation : Translation) : MemoryConfig where
  ctrl := { hmc := { org := HMC.orgTable .gb4, speed := HMC.speedTable .hmc2500, maxblock := .b64
                     sourceLinks := 2, payloadFlits := 4 } }
  translation := translation
  cub := fun _ => 0
  flitCycles := fun flits => flits
  lrand := fun n => 5 * n

end Memory

end Ramulator
