/-
  Ramulator.Hmc.Packet

  The packets on the links of an HMC stack (Packet.h, Packet.cpp).

  A packet carries the header and tail fields of its kind and a copy of the
  request it was formed for.  The three constructors of the source leave the
  fields of the other kinds unset; they are zero here and nothing reads them.
-/

import Mathlib.Algebra.Order.Ring.Int
import Ramulator.Base

namespace Ramulator

inductive PacketType where
  | request | response | nullPacket | tret | retry
deriving DecidableEq, Repr

inductive PacketCommand where
  | wr16 | wr32 | wr48 | wr64 | wr80 | wr96 | wr112 | wr128 | wr256
  | rd16 | rd32 | rd48 | rd64 | rd80 | rd96 | rd112 | rd128 | rd256
deriving DecidableEq, Repr

/-- `write_cmd_map[lng]`: a key that is not in the map gets the zero command. -/
def writeCmdMap (lng : Int) : PacketCommand :=
  match lng with
  | 1 => .wr16
  | 2 => .wr32
  | 3 => .wr48
  | 4 => .wr64
  | 5 => .wr80
  | 6 => .wr96
  | 7 => .wr112
  | 8 => .wr128
  | 16 => .wr256
  | _ => .wr16

def readCmdMap (lng : Int) : PacketCommand :=
  match lng with
  | 1 => .rd16
  | 2 => .rd32
  | 3 => .rd48
  | 4 => .rd64
  | 5 => .rd80
  | 6 => .rd96
  | 7 => .rd112
  | 8 => .rd128
  | 16 => .rd256
  | _ => .wr16

structure Packet where
  type : PacketType
  cub : Int := 0
  adrs : Int := 0
  headerSlid : Int := 0
  tag : Int := 0
  lng : Int := 0
  cmd : PacketCommand := .wr16
  rtc : Int := 0
  tailSlid : Int := 0
  payloadFlits : Int := 0
  totalFlits : Int := 1
  flowControl : Bool := false
  req : Request
deriving DecidableEq, Repr

namespace Packet

/-- `Datafield::valid`: the value is below `1 << bit`; a negative one passes. -/
def valid (value : Int) (bit : Nat) : Bool := decide (value < 2 ^ bit)

def cubBits : Nat := 3
def slidBits : Nat := 3
def adrsBits : Nat := 34
def tagBits : Nat := 11

def mkRequest (cub adrs tag lng slid : Int) (cmd : PacketCommand) (req : Request) : Packet where
  type := .request
  cub := cub
  adrs := adrs
  tag := tag
  lng := lng
  cmd := cmd
  tailSlid := slid
  payloadFlits := lng - 1
  totalFlits := lng
  req := req

def mkResponse (cub tag lng slid : Int) (cmd : PacketCommand) (req : Request) : Packet where
  type := .response
  cub := cub
  headerSlid := slid
  tag := tag
  lng := lng
  cmd := cmd
  payloadFlits := lng - 1
  totalFlits := lng
  req := req

/-- `Packet(Type::TRET, RTC)`; its `req` is a default `Request`. -/
def mkTret (rtc : Int) : Packet where
  type := .tret
  rtc := rtc
  payloadFlits := 0
  totalFlits := 1
  flowControl := true
  req := { addr := 0, type := .read }

end Packet

end Ramulator
