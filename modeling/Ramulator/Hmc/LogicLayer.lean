/-
  Ramulator.Hmc.LogicLayer

  The links between the host and a stack (LogicLayer.h, LogicLayer.cpp).

  A link has a slave, which takes packets in for the switch, and a master, which
  sends packets out.  The master is not run by a clock of its own: `Link.tick`
  is one memory cycle and hands back the packet that `send_via_link` passes on
  in it, if there is one.  Every link is in host source mode, so sending takes
  no tokens.
-/

import Ramulator.Hmc.Packet

namespace Ramulator

def bufferMax : Int := 32

structure LinkSlave where
  extractedTokenCount : Int := 0
  inputBuffer : List Packet := []

structure LinkMaster where
  outputBuffer : List Packet := []
  availableTokenCount : Int := bufferMax
  clk : Int := 0
  nextPacketClk : Int := 0

structure Link where
  slave : LinkSlave := {}
  master : LinkMaster := {}

structure LogicLayer where
  cub : Int
  hostLinks : List Link

def LinkSlave.availableSpace (slave : LinkSlave) : Int := bufferMax - slave.inputBuffer.length

def LinkMaster.availableSpace (master : LinkMaster) : Int :=
  bufferMax - master.outputBuffer.length

namespace Link

/-- `leftmostbit`; shifting a negative number right never ends in zero. -/
def leftmostbit (val : Int) : Except Abort Int :=
  if val = 0 then .ok 0
  else if val < 0 then .error .loops
  else .ok (2 ^ val.toNat.log2)

def receive (link : Link) (packet : Packet) : Link :=
  let link := { link with
    master.availableTokenCount := link.master.availableTokenCount + packet.rtc }
  if packet.flowControl then link
  else { link with slave.inputBuffer := link.slave.inputBuffer ++ [packet] }

def returnTokens (link : Link) : Except Abort (Int × Link) := do
  let rtc ← leftmostbit link.slave.extractedTokenCount
  pure (rtc, { link with
    slave.extractedTokenCount := link.slave.extractedTokenCount - rtc })

def busy (flitCycles : Int → Int) (link : Link) (flits : Int) : Link :=
  { link with master.nextPacketClk := link.master.clk + flitCycles flits }

def sendFlowControl (flitCycles : Int → Int) (link : Link) :
    Except Abort (Option Packet × Link) :=
  if 0 < link.slave.extractedTokenCount then do
    let (rtc, link) ← link.returnTokens
    let tretPacket := Packet.mkTret rtc
    pure (some tretPacket, link.busy flitCycles tretPacket.totalFlits)
  else pure (none, link.busy flitCycles 1)

def send (flitCycles : Int → Int) (link : Link) : Except Abort (Option Packet × Link) :=
  match link.master.outputBuffer with
  | [] => link.sendFlowControl flitCycles
  | packet :: rest =>
    if packet.totalFlits ≤ link.master.availableTokenCount then do
      let (rtc, link) ← { link with master.outputBuffer := rest }.returnTokens
      pure (some { packet with rtc }, link.busy flitCycles packet.totalFlits)
    else link.sendFlowControl flitCycles

def tick (flitCycles : Int → Int) (link : Link) : Except Abort (Option Packet × Link) :=
  let link := { link with master.clk := link.master.clk + 1 }
  if link.master.nextPacketClk ≤ link.master.clk then link.send flitCycles
  else pure (none, link)

end Link

end Ramulator
