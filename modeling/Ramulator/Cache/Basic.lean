/-
  Ramulator.Cache.Basic

  A cache and the lists its misses and hits wait in (Cache.h, Cache.cpp).

  `CacheSystem` makes L1 both the first and the last level, whatever the
  configuration says, so a miss in L1 goes to `wait_list` and no other level
  ever gets a request from it.

  The source keeps each set as a linked list and the MSHR entries hold
  iterators into these lists.  Here a list element is told apart by its number
  (`Line.node`), an iterator is a set and such a number, and following one
  whose element is gone aborts.
-/

import Mathlib.Data.Int.Bitwise
import Ramulator.Base

namespace Ramulator

inductive CacheLevel where
  | l1 | l2 | l3
deriving DecidableEq, Repr

structure CacheConfig where
  size : Nat
  assoc : Nat
  blockSize : Nat
  mshrEntryNum : Nat
  level : CacheLevel
  pimMode : Bool := false
deriving DecidableEq, Repr

namespace CacheConfig

variable (cfg : CacheConfig)

/-- `is_last_level`; the cache system sets `last_level` to L1. -/
def isLastLevel : Bool := cfg.level = .l1

def blockNum : Nat := cfg.size / (cfg.blockSize * cfg.assoc)

/-- `index_mask`, an unsigned int: all ones for no set at all. -/
def indexMask : Int := ((cfg.blockNum : Int) - 1) % 2 ^ 32

def indexOffset : Nat := Nat.log2 cfg.blockSize

def tagOffset : Nat := Nat.log2 cfg.blockNum + cfg.indexOffset

def latency : Int :=
  match cfg.level with
  | .l1 => 4
  | .l2 => if cfg.pimMode then 4 + 0 else 4 + 12
  | .l3 => if cfg.pimMode then 4 + 0 + 31 else 4 + 12 + 31

def getIndex (addr : Int) : Int :=
  Int.bmod (Int.land (addr >>> cfg.indexOffset) cfg.indexMask) (2 ^ 32)

def getTag (addr : Int) : Int := addr >>> cfg.tagOffset

/-- `align`: the address of a block. -/
def align (addr : Int) : Int := Int.land addr (Int.lnot (cfg.blockSize - 1))

end CacheConfig

/-- `Cache::Line`, with its list element. -/
structure Line where
  node : Nat
  addr : Int
  tag : Int
  /-- The value is not there yet. -/
  lock : Bool
  dirty : Bool
deriving DecidableEq, Repr

structure LineIter where
  index : Int
  node : Nat
deriving DecidableEq, Repr

structure Cache where
  cacheLines : Int → List Line := fun _ => []
  mshrEntries : List (Int × LineIter) := []
  /-- The number of list elements made so far. -/
  nodes : Nat := 0

/-- The lists shared by the caches: requests with the time they are due. -/
structure CacheSystem where
  clk : Int := 0
  waitList : List (Int × Request) := []
  hitList : List (Int × Request) := []

namespace Cache

variable (cfg : CacheConfig)

/-- `get_lines`; a set that is not there yet is made empty. -/
def getLines (c : Cache) (addr : Int) : List Line := c.cacheLines (cfg.getIndex addr)

def setLines (c : Cache) (index : Int) (lines : List Line) : Cache :=
  { c with cacheLines := Function.update c.cacheLines index lines }

def findTag (lines : List Line) (addr : Int) : Option Line :=
  lines.find? fun line => line.tag = cfg.getTag addr

def eraseLine (lines : List Line) (line : Line) : List Line :=
  lines.eraseP fun l => l.node = line.node

/-- Assign to a line through an iterator. -/
def modifyLine (c : Cache) (it : LineIter) (f : Line → Line) : Except Abort Cache :=
  if (c.cacheLines it.index).any fun line => line.node = it.node then
    pure (c.setLines it.index
      ((c.cacheLines it.index).map fun line => if line.node = it.node then f line else line))
  else throw .danglingIterator

def isHit (lines : List Line) (addr : Int) : Option Line :=
  (findTag cfg lines addr).filter fun line => !line.lock

def hitMshr (c : Cache) (addr : Int) : Option (Int × LineIter) :=
  c.mshrEntries.find? fun entry => cfg.align entry.1 = cfg.align addr

def allSetsLocked (lines : List Line) : Bool :=
  !decide (lines.length < cfg.assoc) && lines.all (·.lock)

def needEviction (lines : List Line) (addr : Int) : Except Abort Bool :=
  if (findTag cfg lines addr).isSome then throw .needEviction
  else pure (!decide (lines.length < cfg.assoc))

/-- `evict`.  There is no higher level to invalidate the line in. -/
def evict (c : Cache) (sys : CacheSystem) (index : Int) (victim : Line) :
    Except Abort (Cache × CacheSystem) :=
  let c := c.setLines index (eraseLine (c.cacheLines index) victim)
  if cfg.isLastLevel then
    let writeReq : Request := { addr := victim.addr, type := .write, coreid := 0 }
    pure (c, if victim.dirty then
      { sys with waitList := sys.waitList ++ [(sys.clk + cfg.latency, writeReq)] } else sys)
  else throw .nullPointer

/-- The new line of `allocate_line`, with the dirty bit `send` gives it. -/
def pushLine (c : Cache) (addr : Int) (dirty : Bool) : LineIter × Cache :=
  let index := cfg.getIndex addr
  let line : Line := { node := c.nodes, addr, tag := cfg.getTag addr, lock := true, dirty }
  (⟨index, c.nodes⟩, { c.setLines index (c.cacheLines index ++ [line]) with nodes := c.nodes + 1 })

/-- Make room for a new line; `none` if all lines are locked. -/
def makeRoom (c : Cache) (sys : CacheSystem) (addr : Int) :
    Except Abort (Option (Cache × CacheSystem)) := do
  let lines := c.getLines cfg addr
  let full ← needEviction cfg lines addr
  if full then
    match lines.find? fun line => !line.lock with
    | none => pure none
    | some victim => some <$> c.evict cfg sys (cfg.getIndex addr) victim
  else pure (some (c, sys))

/-- The end of a miss: an MSHR entry, and on to the next level or to `wait_list`. -/
def sendLower (c : Cache) (sys : CacheSystem) (req : Request) (dirty : Bool) :
    Except Abort (Bool × Cache × CacheSystem) :=
  let (newline, c) := c.pushLine cfg req.addr dirty
  let c := { c with mshrEntries := c.mshrEntries ++ [(req.addr, newline)] }
  if cfg.isLastLevel then
    pure (true, c, { sys with waitList := sys.waitList ++ [(sys.clk + cfg.latency, req)] })
  else throw .nullPointer

/-- A miss that finds no MSHR entry for its block. -/
def allocate (c : Cache) (sys : CacheSystem) (req : Request) (dirty : Bool) :
    Except Abort (Bool × Cache × CacheSystem) := do
  match ← c.makeRoom cfg sys req.addr with
  | none => pure (false, c, sys)
  | some (c, sys) => c.sendLower cfg sys req dirty

/-- A miss.  A write becomes a read of the block, and the line will be dirty. -/
def miss (c : Cache) (sys : CacheSystem) (req : Request) :
    Except Abort (Bool × Cache × CacheSystem) :=
  let dirty : Bool := req.type = .write
  let req := { req with type := .read }
  match c.hitMshr cfg req.addr with
  | some entry => do
      let c ← c.modifyLine entry.2 fun line => { line with dirty := dirty || line.dirty }
      pure (true, c, sys)
  | none =>
    if c.mshrEntries.length = cfg.mshrEntryNum then pure (false, c, sys)
    else if allSetsLocked cfg (c.getLines cfg req.addr) then pure (false, c, sys)
    else c.allocate cfg sys req dirty

/-- A hit: the line moves to the back of its set. -/
def hit (c : Cache) (sys : CacheSystem) (req : Request) (line : Line) : Cache × CacheSystem :=
  let index := cfg.getIndex req.addr
  let newline : Line := { node := c.nodes, addr := req.addr, tag := cfg.getTag req.addr
                          lock := false, dirty := line.dirty || decide (req.type = .write) }
  ({ c.setLines index (eraseLine (c.cacheLines index ++ [newline]) line) with
      nodes := c.nodes + 1 },
    { sys with hitList := sys.hitList ++ [(sys.clk + cfg.latency, req)] })

/-- `send`: whether the request is accepted. -/
def send (c : Cache) (sys : CacheSystem) (req : Request) :
    Except Abort (Bool × Cache × CacheSystem) :=
  if req.type = .read ∨ req.type = .write then
    match isHit cfg (c.getLines cfg req.addr) req.addr with
    | some line => pure (true, c.hit cfg sys req line)
    | none => c.miss cfg sys req
  else throw .requestType

def callback (c : Cache) (req : Request) : Except Abort Cache :=
  match c.hitMshr cfg req.addr with
  | none => pure c
  | some entry => do
      let c ← c.modifyLine entry.2 fun line => { line with lock := false }
      pure { c with mshrEntries :=
        c.mshrEntries.eraseP fun entry => cfg.align entry.1 = cfg.align req.addr }

end Cache

namespace CacheSystem

variable {τ : Type}

/-- The first loop of `CacheSystem::tick`; it ends at the first request that is not due. -/
def sendWaiting (send : τ → Request → Except Abort (Bool × τ)) (clk : Int) :
    List (Int × Request) → τ → Except Abort (List (Int × Request) × τ)
  | [], memory => pure ([], memory)
  | (time, req) :: rest, memory =>
    if time ≤ clk then do
      let (accepted, memory) ← send memory req
      let (waiting, memory) ← sendWaiting send clk rest memory
      pure (if accepted then waiting else (time, req) :: waiting, memory)
    else pure ((time, req) :: rest, memory)

def dueHits (sys : CacheSystem) : List Request :=
  (sys.hitList.filter fun hit => decide (hit.1 ≤ sys.clk)).map (·.2)

def pendingHits (sys : CacheSystem) : List (Int × Request) :=
  sys.hitList.filter fun hit => !decide (hit.1 ≤ sys.clk)

end CacheSystem

end Ramulator
