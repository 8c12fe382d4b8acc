/-
  Ramulator.Processor.Trace

  Reading a trace file (`Trace` of Processor.h, Processor.cpp).

  A file is the list of its lines and a line the list of its characters.
  `get_zsim_request` splits a line at white space, looks for the first type
  letter, and reads the numbers around it with `stoi` and `stoul`.  It has its
  results in reference parameters (`Regs`): a line that is not a record
  sets the address to -1 and leaves the others as an earlier line left them.

  The PISA format is modelled from the fields of a record on: `get_pisa_request`
  has no checks, and a line with other fields ends the simulator.
-/

import Ramulator.Processor.Core

namespace Ramulator

open Outcome List

namespace Trace

/-! ## Text -/

/-- `isspace`: the blank and the control characters from tab to return. -/
def isSpace (c : Char) : Bool := c.toNat = 32 ∨ (9 ≤ c.toNat ∧ c.toNat ≤ 13)

def splitStr (s : List Char) : List (List Char) := (s.splitOnP isSpace).filter (· ≠ [])

/-- The number a string starts with, if it starts with a digit. -/
def digits (s : List Char) : Option Nat :=
  match s.takeWhile Char.isDigit with
  | [] => none
  | ds => some (ds.foldl (fun n c => 10 * n + (c.toNat - '0'.toNat)) 0)

/-- Whether a number is negative, and the string after its sign. -/
def sign : List Char → Bool × List Char
  | '-' :: s => (true, s)
  | '+' :: s => (false, s)
  | s => (false, s)

/-- `stoi` with base ten; `none` is an exception. -/
def stoi (s : List Char) : Option Int := do
  let n ← digits (sign s).2
  let v : Int := if (sign s).1 then -n else n
  if -2 ^ 31 ≤ v ∧ v < 2 ^ 31 then some v else none

/-- `stoul` with base ten, which negates a negative number modulo 2 ^ 64. -/
def stoul (s : List Char) : Option Nat := do
  let n ← digits (sign s).2
  if n < 2 ^ 64 then some (if (sign s).1 then (2 ^ 64 - n) % 2 ^ 64 else n) else none

def toUnsigned (v : Int) : Nat := (v % 2 ^ 32).toNat

def toLong (n : Nat) : Int := if n < 2 ^ 63 then n else n - 2 ^ 64

/-! ## Records of zsim -/

/-- The fields of a record that are used (`line` of Processor.h).  The type
    letter `P` names no type. -/
structure Record where
  processorId : Nat
  cycleNum : Int
  addr : Int
  type : Option RequestType
deriving DecidableEq, Repr

inductive Line where
  | empty
  | malformed
  | record (r : Record)
deriving DecidableEq, Repr

def typeOf : List Char → Option (Option RequestType)
  | ['L'] => some (some .read)
  | ['S'] => some (some .write)
  | ['I'] => some (some .instruction)
  | ['P'] => some none
  | _ => none

/-- The cycle field; a dash is none. -/
def cyclesOf (s : List Char) : Option Nat :=
  if s = ['-'] then some 0 else (stoi s).map toUnsigned

/-- The record with its type letter at `i`.  A check that fails and an exception
    have the same effect (`none`). -/
def recordAt (split : List (List Char)) (i : Nat) : Option Record := do
  let _ ← stoi (split.getD (i - 3) [])
  let processorId ← stoi (split.getD (i - 2) [])
  if 512 < toUnsigned processorId then none
  else do
    let cycleNum ← cyclesOf (split.getD (i - 1) [])
    let addr ← stoul (split.getD (i + 1) [])
    some { processorId := toUnsigned processorId, cycleNum, addr := toLong addr
           type := (typeOf (split.getD i [])).join }

/-- The record among the fields of a line. -/
def recordOf (split : List (List Char)) : Option Record :=
  -- the first type letter; position 0 if there is none
  let typePosition := (split.findIdx? fun s => (typeOf s).isSome).getD 0
  if 5 ≤ split.length ∧ 3 ≤ typePosition ∧ typePosition + 1 < split.length then
    recordAt split typePosition
  else none

/-- What `get_zsim_request` makes of a line. -/
def parse (line : List Char) : Line :=
  if line = [] then .empty
  else
    match recordOf (splitStr line) with
    | some r => .record r
    | none => .malformed

example : parse "7 3 12 L 4096".toList = .record ⟨3, 12, 4096, some .read⟩ := by decide

example : parse "7 3 - S 18446744073709551615".toList = .record ⟨3, 0, -1, some .write⟩ := by
  decide

theorem parse_eq_empty_iff (line : List Char) : parse line = .empty ↔ line = [] := by
  unfold parse
  constructor
  · intro h
    by_contra hne
    rw [if_neg hne] at h
    split at h
    · cases h
    · cases h
  · intro h
    rw [if_pos h]

theorem typeOf_join (s : List Char) (type : RequestType) (h : (typeOf s).join = some type) :
    type = .read ∨ type = .write ∨ type = .instruction := by
  unfold typeOf at h
  split at h
  · exact Or.inl (Option.some.inj h).symm
  · exact Or.inr (Or.inl (Option.some.inj h).symm)
  · exact Or.inr (Or.inr (Option.some.inj h).symm)
  · cases h
  · cases h

theorem recordAt_type {split : List (List Char)} {i : Nat} {r : Record}
    (h : recordAt split i = some r) : r.type = (typeOf (split.getD i [])).join := by
  obtain ⟨_, _, h⟩ := Option.bind_eq_some_iff.mp h
  obtain ⟨processorId, _, h⟩ := Option.bind_eq_some_iff.mp h
  split at h
  · cases h
  · obtain ⟨cycleNum, _, h⟩ := Option.bind_eq_some_iff.mp h
    obtain ⟨addr, _, h⟩ := Option.bind_eq_some_iff.mp h
    rw [← Option.some.inj h]

theorem parse_type {line : List Char} {r : Record} (h : parse line = .record r)
    {type : RequestType} (htype : r.type = some type) :
    type = .read ∨ type = .write ∨ type = .instruction := by
  unfold parse at h
  split at h
  · cases h
  · split at h
    · next r' hr =>
      cases h
      unfold recordOf at hr
      dsimp only at hr
      split at hr
      · rw [recordAt_type hr] at htype
        exact typeOf_join _ type htype
      · cases hr
    · cases h

/-! ## The requests of a file -/

/-- The reference parameters of `get_zsim_request`. -/
structure Regs where
  bubbleCnt : Int
  reqAddr : Int
  reqType : RequestType
  cpuId : Nat
deriving DecidableEq, Repr

def Regs.load (regs : Regs) (r : Record) : Regs where
  bubbleCnt := r.cycleNum
  reqAddr := r.addr
  reqType := r.type.getD regs.reqType
  cpuId := r.processorId

/-- `get_zsim_request`; `none` is the result false. -/
def getZsimRequest (regs : Regs) (line : List Char) : Option Regs :=
  match parse line with
  | .empty => none
  | .malformed => some { regs with reqAddr := -1 }
  | .record r => some (regs.load r)

theorem getZsimRequest_reqAddr (regs : Regs) (addr : Int) (line : List Char) :
    getZsimRequest { regs with reqAddr := addr } line = getZsimRequest regs line := by
  unfold getZsimRequest
  split
  · rfl
  · rfl
  · rfl

theorem getZsimRequest_eq_none_iff (regs : Regs) (line : List Char) :
    getZsimRequest regs line = none ↔ line = [] := by
  rw [← parse_eq_empty_iff]
  unfold getZsimRequest
  split
  · next h => simp [h]
  · next h => simp [h]
  · next h => simp [h]

def regsAfter (regs : Regs) (file : List (List Char)) : Regs :=
  file.foldl (fun regs line => (getZsimRequest regs line).getD regs) regs

/-- The line is a request: the result is true, with another address than -1. -/
def Accepts (line : List Char) : Prop :=
  ∃ regs out, getZsimRequest regs line = some out ∧ out.reqAddr ≠ -1

def typeField (line : List Char) : List Char :=
  (splitStr line).getD (((splitStr line).findIdx? fun s => (typeOf s).isSome).getD 0) []

theorem typeOf_eq_some_none {s : List Char} (h : typeOf s = some none) : s = ['P'] := by
  unfold typeOf at h
  split at h
  · cases h
  · cases h
  · cases h
  · rfl
  · cases h

theorem recordOf_type_eq_none_iff {line : List Char} {r : Record}
    (h : recordOf (splitStr line) = some r) : r.type = none ↔ typeField line = ['P'] := by
  unfold recordOf at h
  dsimp only at h
  split at h
  · next hfields =>
    have htype : r.type = (typeOf (typeField line)).join := recordAt_type h
    constructor
    · intro hnone
      rw [hnone] at htype
      -- position 0 stands for no letter, so there is one
      cases hpos : (splitStr line).findIdx? fun s => (typeOf s).isSome with
      | none =>
        rw [hpos] at hfields
        simp at hfields
      | some i =>
        obtain ⟨hlt, hletter, -⟩ := List.findIdx?_eq_some_iff_getElem.mp hpos
        have hfield : typeField line = (splitStr line)[i] := by
          rw [typeField, hpos]
          simp [hlt]
        obtain ⟨type, hsome⟩ := Option.isSome_iff_exists.mp hletter
        rw [hfield, hsome] at htype
        rw [hfield]
        refine typeOf_eq_some_none ?_
        rw [hsome]
        exact congrArg some htype.symm
    · intro hletter
      rw [htype, hletter]
      rfl
  · cases h

/-- What `get_zsim_request` returns for a line that it accepts is a function of
    that line alone, whatever stands before it, if and only if its type letter is not
    `P`: the letter is accepted and leaves the type of an earlier line. -/
theorem getZsimRequest_lineLocal_iff (regs : Regs) (line : List Char) (haccepts : Accepts line) :
    (∀ before before' out out', getZsimRequest (regsAfter regs before) line = some out →
      getZsimRequest (regsAfter regs before') line = some out' → out = out') ↔
        typeField line ≠ ['P'] := by
  obtain ⟨regs₀, out₀, hout₀, haddr⟩ := haccepts
  -- an accepted line holds a record
  obtain ⟨r, hparse⟩ : ∃ r, parse line = .record r := by
    unfold getZsimRequest at hout₀
    cases hparse : parse line with
    | empty =>
      rw [hparse] at hout₀
      cases hout₀
    | malformed =>
      rw [hparse] at hout₀
      cases hout₀
      exact absurd rfl haddr
    | record r => exact ⟨r, rfl⟩
  have hread : ∀ regs, getZsimRequest regs line = some (regs.load r) := by
    intro regs
    rw [getZsimRequest, hparse]
  have hrecord : recordOf (splitStr line) = some r := by
    unfold parse at hparse
    split at hparse
    · cases hparse
    · split at hparse
      · next hr =>
        cases hparse
        exact hr
      · cases hparse
  rw [ne_eq, ← recordOf_type_eq_none_iff hrecord]
  simp only [hread, Option.some.injEq]
  constructor
  · intro hlocal hnone
    have heq := hlocal ["0 0 0 L 1".toList] ["0 0 0 S 1".toList] _ _ rfl rfl
    have htypes : (some RequestType.read : Option RequestType) = some .write := by
      have hload := congrArg Regs.reqType heq
      simp only [Regs.load, hnone, Option.getD_none] at hload
      exact congrArg some hload
    cases htypes
  · rintro hsome before before' out out' rfl rfl
    obtain ⟨type, htype⟩ := Option.ne_none_iff_exists'.mp hsome
    simp only [Regs.load, htype, Option.getD_some]

/-- A line with the letter `L`. -/
theorem getZsimRequest_lineLocal_iff_load : typeField "7 3 12 L 4096".toList = ['L'] ∧
      ∀ before before' out out',
        getZsimRequest (regsAfter ⟨0, -1, .read, 0⟩ before) "7 3 12 L 4096".toList = some out →
        getZsimRequest (regsAfter ⟨0, -1, .read, 0⟩ before') "7 3 12 L 4096".toList = some out' →
          out = out' :=
  ⟨by decide, (getZsimRequest_lineLocal_iff ⟨0, -1, .read, 0⟩ "7 3 12 L 4096".toList
    ⟨⟨0, -1, .read, 0⟩, ⟨12, 4096, .read, 3⟩, by decide, by decide⟩).mpr (by decide)⟩

/-- The same prefetch is a read after a load and a write after a store. -/
theorem prefetch_keeps_earlier_type :
    getZsimRequest (regsAfter ⟨0, -1, .read, 0⟩ ["7 3 5 L 64".toList]) "7 3 12 P 4096".toList =
        some ⟨12, 4096, .read, 3⟩ ∧
      getZsimRequest (regsAfter ⟨0, -1, .read, 0⟩ ["7 3 5 S 64".toList]) "7 3 12 P 4096".toList =
        some ⟨12, 4096, .write, 3⟩ := by
  decide

def requests (regs : Regs) : List (List Char) → List Regs
  | [] => []
  | line :: file =>
    match parse line with
    | .empty => []
    | .malformed => requests regs file
    | .record r => regs.load r :: requests (regs.load r) file

theorem requests_reqAddr (regs : Regs) (addr : Int) (file : List (List Char)) :
    requests { regs with reqAddr := addr } file = requests regs file := by
  induction file with
  | nil => rfl
  | cons line file ih =>
    unfold requests
    split
    · rfl
    · exact ih
    · rfl

/-- No record with another address than -1 stands before the first empty line. -/
def Silent (file : List (List Char)) : Prop :=
  ∀ line ∈ file.takeWhile (· ≠ []), ∀ r, parse line = .record r → r.addr = -1

theorem silent_cons (line : List Char) (file : List (List Char)) : Silent (line :: file) ↔
      line = [] ∨ (∀ r, parse line = .record r → r.addr = -1) ∧ Silent file := by
  unfold Silent
  by_cases hline : line = []
  · simp [hline]
  · rw [takeWhile_cons, if_pos (by simpa using hline), forall_mem_cons, or_iff_right hline]

theorem requests_eq_nil_iff (regs : Regs) (file : List (List Char)) :
    (requests regs file).filter (·.reqAddr ≠ -1) = [] ↔ Silent file := by
  induction file generalizing regs with
  | nil => simp [requests, Silent]
  | cons line file ih =>
    rw [silent_cons, ← parse_eq_empty_iff]
    unfold requests
    cases hline : parse line with
    | empty => simp
    | malformed => simpa using ih regs
    | record r =>
      rw [filter_cons]
      by_cases haddr : r.addr = -1
      · rw [if_neg (by simp [Regs.load, haddr]), ih]
        simp [haddr]
      · rw [if_pos (by simp [Regs.load, haddr])]
        simp [haddr]

/-- What the core of a split trace reads of a line. -/
def Line.zsimLine : Line → ZsimLine
  | .empty => .empty
  | .malformed => .malformed
  | .record r => .record r.cycleNum r.addr r.type

/-! ## Records of PISA -/

inductive PisaLine where
  | empty
  | record (processorId cycleNum : Nat) (load : Bool) (addr : Nat)
deriving DecidableEq, Repr

/-- The vector `instructions`, with the last cycle of every processor. -/
def instructions : List Nat := replicate 256 0

/-- `get_pisa_request`; the bubbles are the cycles since the last record of the processor. -/
def getPisaRequest (instructions : List Nat) :
    PisaLine → Except Abort (Option (Regs × List Nat))
  | .empty => pure none
  | .record processorId cycleNum load addr => do
      let last ← Vec.at instructions processorId
      pure (some ({
        bubbleCnt := toUnsigned ((cycleNum : Int) - last)
        reqAddr := toLong addr
        reqType := if load then .read else .write
        cpuId := 0 }, instructions.set processorId cycleNum))

def PisaLine.Known : PisaLine → Prop
  | .empty => True
  | .record processorId _ _ _ => processorId < 256

instance (line : PisaLine) : Decidable line.Known :=
  match line with
  | .empty => inferInstanceAs (Decidable True)
  | .record processorId _ _ _ => inferInstanceAs (Decidable (processorId < 256))

theorem getPisaRequest_ends {instructions : List Nat} (hlength : instructions.length = 256)
    {line : PisaLine} {E : Abort → Prop} (hout : ¬ line.Known → E .outOfBounds) :
    Ends (getPisaRequest instructions line)
      (fun out => ∀ regs instructions', out = some (regs, instructions') →
        instructions'.length = 256) E := by
  cases line with
  | empty =>
    intro regs instructions' h
    cases h
  | record processorId cycleNum load addr =>
    have hid : (processorId : Int) < 0 ∨ (instructions.length : Int) ≤ processorId →
        E .outOfBounds := by
      intro hbad
      rw [hlength] at hbad
      exact hout (by show ¬ processorId < 256; omega)
    apply Ends.bind (Vec.at_ends_of hid)
    rintro last - regs instructions' h
    cases h
    rw [length_set, hlength]

def pisaRequests (instructions : List Nat) : List PisaLine → List Regs
  | [] => []
  | line :: file =>
    match getPisaRequest instructions line with
    | .ok (some (regs, instructions)) => regs :: pisaRequests instructions file
    | _ => []

end Trace

end Ramulator
