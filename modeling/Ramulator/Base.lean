/-
  Ramulator.Base

  Data shared by every component of the simulator: how a run can stop early,
  memory requests (Request.h) and address vectors.

  A failed `assert` ends the simulator, so a procedure that can reach one
  returns `Except Abort`; each assertion the model keeps has a constructor of
  its own, which is what lets a theorem say that this assertion never fails.
-/

import Mathlib.Data.Int.Notation
import Ramulator.Lib.Lists
import Ramulator.Lib.Outcome

namespace Ramulator

open Outcome

/-- The ways the modelled code stops the simulator. -/
inductive Abort where
  /-- `DRAM::update_timing`: `assert(past == clk)`. -/
  | refreshPast
  /-- `DRAM::update_serving_requests`: `assert(id == addr[level])`. -/
  | servingId
  /-- `DRAM::update_serving_requests`: `assert(delta == 1 || delta == -1)`. -/
  | servingDelta
  /-- `DRAM::update_serving_requests`: `assert(cur_serving_requests >= 0)`. -/
  | servingCount
  /-- `DRAM::update_serving_requests`: `assert(begin_of_serving != -1)`. -/
  | servingBegin
  /-- `DRAM::update_serving_requests`: `assert(delta == -1)`. -/
  | servingEnd
  /-- `Controller::issue_cmd`: `assert(is_ready(cmd, addr_vec))`. -/
  | notReady
  /-- `RowTable::update`: `assert(match != table.end())`. -/
  | rowMatch
  /-- `RowTable::update`: `assert(match->second.row == row)`. -/
  | rowEqual
  /-- `RowTable::update`: `assert(n_rm > 0)`. -/
  | rowRemoved
  /-- `Refresh::refresh_target`: `assert(res)`. -/
  | refreshEnqueue
  /-- `Refresh::early_inject_refresh`:
      `assert(req.addr_vec[level_chan] == ctrl->channel->id)`. -/
  | refreshChannel
  /-- The lookup of a request's packet in `incoming_packets_buffer`. -/
  | responseLookup
  /-- A packet field that does not fit its bits. -/
  | packetField
  /-- A packet that is not of the expected type. -/
  | packetType
  /-- A request of a type the receiver does not serve. -/
  | requestType
  /-- `Memory::page_allocator`: the chosen page is not in the state it must be in. -/
  | physicalPage
  /-- `Cache::need_eviction`: `assert(false)`. -/
  | needEviction
  /-- `Window::insert` and `Window::retire`: `assert(load <= depth)`. -/
  | windowLoad
  /-- A null pointer is followed. -/
  | nullPointer
  /-- An iterator is followed whose element was erased. -/
  | danglingIterator
  /-- A vector is indexed outside its bounds. -/
  | outOfBounds
  /-- A loop that does not end. -/
  | loops
deriving DecidableEq, Repr

def Abort.isRowTable : Abort → Bool
  | .rowMatch | .rowEqual | .rowRemoved => true
  | _ => false

/-- The assertions of `DRAM::update_serving_requests`, and its way down the tree. -/
def Abort.isServing : Abort → Bool
  | .servingId | .servingDelta | .servingCount | .servingBegin | .servingEnd
  | .outOfBounds => true
  | _ => false

def Vec.at {α : Type} (xs : List α) (i : Int) : Except Abort α :=
  if i < 0 then .error .outOfBounds
  else
    match xs[i.toNat]? with
    | some x => .ok x
    | none => .error .outOfBounds

theorem Vec.at_ends_of {α : Type} {xs : List α} {i : Int} {E : Abort → Prop}
    (hout : i < 0 ∨ (xs.length : Int) ≤ i → E .outOfBounds) :
    Ends (Vec.at xs i) (fun x => 0 ≤ i ∧ xs[i.toNat]? = some x) E := by
  unfold Vec.at
  refine Ends.ite (fun hi => hout (Or.inl hi)) (fun hi => ?_)
  split
  · next x hx => exact ⟨by omega, hx⟩
  · next hnone =>
    have hle := List.getElem?_eq_none_iff.mp hnone
    exact hout (Or.inr (by omega))

theorem Vec.at_ends {α : Type} (xs : List α) (i : Int) :
    Ends (Vec.at xs i) (fun x => 0 ≤ i ∧ xs[i.toNat]? = some x) (fun e => e = .outOfBounds) :=
  Vec.at_ends_of (fun _ => rfl)

inductive RequestType where
  | read | write | refresh | powerdown | selfrefresh | extension | instruction
deriving DecidableEq, Repr

/-- The callback stored in a request: none, or `Processor::receive`. -/
inductive Callback where
  | none | processorReceive
deriving DecidableEq, Repr

/-- `vector<int>`: the components of an address, from the root level down. -/
abbrev AddrVec := List Int

/-- `addr_vec.data()`; a cell past the end of the vector holds the arbitrary value `junk`. -/
def AddrVec.data (v : AddrVec) (junk : Int) : Nat → Int := fun i => v.getD i junk

structure Request where
  isFirstCommand : Bool := true
  addr : Int
  addrVec : AddrVec := []
  reqid : Int := -1
  coreid : Int := -1
  initialAddr : Int := 0
  instructionRequest : Bool := false
  type : RequestType
  arrive : Int := -1
  depart : Int := 0
  arriveHmc : Int := 0
  departHmc : Int := 0
  burstCount : Int := 0
  transactionBytes : Int := 0
  callback : Callback := .none
deriving DecidableEq, Repr

end Ramulator
