/-
  Ramulator.Processor.TraceRecords

  The records that zsim writes and `get_zsim_request` reads.

  With `pim_trace` the cores write the trace themselves (`OOOCore::bbl` of
  ooo_core.cpp): a record for every load, store and instruction fetch, with its
  byte address.  Otherwise the memory controller writes it (`MemoryTraces::access`
  of mem_ctrls.cpp): a record for every request that misses in the caches, with
  the number of its line.

  Numbers are written in decimal and `std::endl` ends a record.  The timing that
  `bbl` computes and the statistics of both are left out.
-/

import Mathlib.Data.List.TakeWhile
import Ramulator.Processor.Trace

namespace Ramulator

open List

variable {r : Trace.Record} {n : Nat}

namespace Trace

/-! ## Lines and fields -/

/-- The lines of a text; what follows the last newline is one unless it is empty. -/
def getlines (text : List Char) : List (List Char) :=
  let pieces := text.splitOnP (· = '\n')
  if pieces.getLast? = some [] then pieces.dropLast else pieces

variable {line : List Char}

theorem getlines_append (hline : ∀ c ∈ line, c ≠ '\n') (rest : List Char) :
    getlines (line ++ '\n' :: rest) = line :: getlines rest := by
  have hsplit : (line ++ '\n' :: rest).splitOnP (· = '\n') = line :: rest.splitOnP (· = '\n') :=
    splitOnP_append_cons_of_forall_mem (by simpa using hline) _ (by simp) rest
  have hne := splitOnP_ne_nil (fun c => decide (c = '\n')) rest
  obtain ⟨piece, pieces, hpieces⟩ := exists_cons_of_ne_nil hne
  simp only [getlines, hsplit, hpieces, List.getLast?_cons_cons, dropLast_cons_cons]
  split <;> rfl

def IsField (w : List Char) : Prop := w ≠ [] ∧ ∀ c ∈ w, isSpace c = false

theorem splitStr_field {w : List Char} (hw : IsField w) (s : List Char) :
    splitStr (w ++ ' ' :: s) = w :: splitStr s := by
  unfold splitStr
  rw [splitOnP_append_cons_of_forall_mem hw.2 ' ' (by decide) s, filter_cons,
    if_pos (by simpa using hw.1)]

theorem splitStr_char {c : Char} (hc : isSpace c = false) (s : List Char) :
    splitStr (c :: ' ' :: s) = [c] :: splitStr s :=
  splitStr_field (w := [c]) ⟨by simp, by simpa using hc⟩ s

theorem splitStr_space (s : List Char) : splitStr (' ' :: s) = splitStr s := by
  unfold splitStr
  rw [← nil_append (' ' :: s),
    splitOnP_append_cons_of_forall_mem (by simp) ' ' (by decide) s]
  rfl

theorem splitStr_last {w : List Char} (hw : IsField w) : splitStr w = [w] := by
  unfold splitStr
  rw [splitOnP_eq_singleton hw.2, filter_cons, if_pos (by simpa using hw.1)]
  rfl

theorem recordOf_eq_some_iff {t c n l a : List Char} {more : List (List Char)}
    (ht : typeOf t = none) (hc : typeOf c = none) (hn : typeOf n = none) (hl : (typeOf l).isSome) :
    recordOf (t :: c :: n :: l :: a :: more) = some r ↔
      (∃ thread, stoi t = some thread) ∧ ∃ processor, stoi c = some processor ∧
        toUnsigned processor ≤ 512 ∧ ∃ cycles, cyclesOf n = some cycles ∧ ∃ addr,
          stoul a = some addr ∧
            r = ⟨toUnsigned processor, cycles, toLong addr, (typeOf l).join⟩ := by
  have hfind : (t :: c :: n :: l :: a :: more).findIdx? (fun s => (typeOf s).isSome) = some 3 := by
    simp [List.findIdx?_cons, ht, hc, hn, hl]
  have hlen : 5 ≤ (t :: c :: n :: l :: a :: more).length := by simp
  have hat : recordOf (t :: c :: n :: l :: a :: more) =
      recordAt (t :: c :: n :: l :: a :: more) 3 := by
    simp only [recordOf, hfind, Option.getD_some]
    exact if_pos ⟨hlen, Nat.le_refl 3, by omega⟩
  rw [hat]
  unfold recordAt
  simp only [Option.bind_eq_bind, Option.bind_eq_some_iff, Option.ite_none_left_eq_some,
    Option.some.injEq]
  constructor
  · rintro ⟨thread, hthread, processor, hprocessor, hle, cycles, hcycles, addr, haddr, rfl⟩
    exact ⟨⟨thread, hthread⟩, processor, hprocessor, by omega, cycles, hcycles, addr, haddr, rfl⟩
  · rintro ⟨⟨thread, hthread⟩, processor, hprocessor, hle, cycles, hcycles, addr, haddr, rfl⟩
    exact ⟨thread, hthread, processor, hprocessor, by omega, cycles, hcycles, addr, haddr, rfl⟩

/-! ## Decimal numbers -/

/-- `<<` of an unsigned number. -/
def dec (n : Nat) : List Char := Nat.toDigits 10 n

theorem isDigit_iff (c : Char) : c.isDigit = true ↔ 48 ≤ c.toNat ∧ c.toNat ≤ 57 := by
  simp only [Char.isDigit, Bool.and_eq_true, decide_eq_true_eq, ge_iff_le, UInt32.le_iff_toNat_le]
  rfl

theorem isDigit_of_mem_dec {c : Char} (h : c ∈ dec n) : c.isDigit = true :=
  Nat.isDigit_of_mem_toDigits (by decide) (by decide) h

section

variable (n : Nat)

theorem exists_dec : ∃ c s, dec n = c :: s ∧ 48 ≤ c.toNat ∧ c.toNat ≤ 57 := by
  obtain ⟨c, s, hdec⟩ := exists_cons_of_ne_nil (Nat.toDigits_ne_nil (b := 10) (n := n))
  refine ⟨c, s, hdec, (isDigit_iff c).mp (isDigit_of_mem_dec (n := n) ?_)⟩
  rw [dec, hdec]
  exact mem_cons_self

theorem isField_dec : IsField (dec n) := by
  refine ⟨Nat.toDigits_ne_nil, fun c hc => ?_⟩
  have hdigit := (isDigit_iff c).mp (isDigit_of_mem_dec hc)
  simp only [isSpace, decide_eq_false_iff_not]
  omega

theorem digits_dec : digits (dec n) = some n := by
  have hall : (dec n).takeWhile Char.isDigit = dec n :=
    takeWhile_eq_self_iff.mpr (fun c hc => isDigit_of_mem_dec hc)
  obtain ⟨c, s, hdec, -⟩ := exists_dec n
  have hvalue := Nat.ofDigitChars_ten_toDigits (n := n)
  rw [Nat.ofDigitChars_eq_foldl] at hvalue
  unfold digits
  rw [hall]
  split
  · next hnil =>
    rw [hdec] at hnil
    cases hnil
  · exact congrArg some hvalue

theorem sign_dec : sign (dec n) = (false, dec n) := by
  obtain ⟨c, s, hdec, hlow, -⟩ := exists_dec n
  rw [hdec]
  unfold sign
  split
  · next heq =>
    cases heq
    exact absurd hlow (by decide)
  · next heq =>
    cases heq
    exact absurd hlow (by decide)
  · rfl

theorem typeOf_dec : typeOf (dec n) = none := by
  obtain ⟨c, s, hdec, -, hhigh⟩ := exists_dec n
  rw [hdec]
  unfold typeOf
  split
  all_goals first
    | rfl
    | next heq =>
      cases heq
      exact absurd hhigh (by decide)

theorem stoi_dec : stoi (dec n) = if n < 2 ^ 31 then some (n : Int) else none := by
  unfold stoi
  rw [sign_dec, digits_dec, Option.bind_eq_bind, Option.bind_some]
  simp only [Bool.false_eq_true, if_false]
  by_cases h : n < 2 ^ 31
  · rw [if_pos h, if_pos (by omega)]
  · rw [if_neg h, if_neg (by omega)]

theorem stoul_dec : stoul (dec n) = if n < 2 ^ 64 then some n else none := by
  simp [stoul, sign_dec, digits_dec]

end

theorem toUnsigned_natCast (h : n < 2 ^ 31) : toUnsigned n = n := by
  unfold toUnsigned
  omega

theorem cyclesOf_dec (n : Nat) : cyclesOf (dec n) = if n < 2 ^ 31 then some n else none := by
  have hne : dec n ≠ ['-'] := by
    obtain ⟨c, s, hdec, hlow, -⟩ := exists_dec n
    rw [hdec]
    rintro h
    cases h
    exact absurd hlow (by decide)
  unfold cyclesOf
  rw [if_neg hne, stoi_dec]
  split_ifs with hlt
  · rw [Option.map_some, toUnsigned_natCast hlt]
  · rfl

theorem getZsimRequest_of_recordOf (hline : line ≠ []) (h : recordOf (splitStr line) = some r)
    (regs : Regs) : getZsimRequest regs line = some (regs.load r) := by
  unfold getZsimRequest parse
  rw [if_neg hline, h]

theorem getZsimRequest_of_none (hline : line ≠ []) (h : recordOf (splitStr line) = none)
    (regs : Regs) : getZsimRequest regs line = some { regs with reqAddr := -1 } := by
  unfold getZsimRequest parse
  rw [if_neg hline, h]

end Trace

namespace Zsim

open Trace

/-! ## The cores -/

/-- What a core traces. -/
inductive Access where
  | load (addr size : Nat)
  | store (addr size : Nat)
  | fetch (addr : Nat)
deriving DecidableEq, Repr

namespace Access

def addr : Access → Nat
  | load addr _ | store addr _ | fetch addr => addr

def type : Access → RequestType
  | load _ _ => .read
  | store _ _ => .write
  | fetch _ => .instruction

/-- The count that the record has: fetches have none. -/
def count (n : Nat) : Access → Nat
  | fetch _ => 0
  | _ => n

end Access

/-- The record of a load or a store, up to its end. -/
def memRecord (letter : Char) (threadIdx coreIdx previousInstr addr size : Nat) : List Char :=
  dec threadIdx ++ ' ' :: (dec coreIdx ++ ' ' :: (dec previousInstr ++
    ' ' :: letter :: ' ' :: (dec addr ++ ' ' :: dec size)))

/-- The record of an instruction fetch: a dash, and two blanks before the letter. -/
def fetchRecord (threadIdx coreIdx addr : Nat) : List Char :=
  dec threadIdx ++ ' ' :: (dec coreIdx ++ ' ' :: '-' :: ' ' ::
    ' ' :: 'I' :: ' ' :: (dec addr ++ ' ' :: ['6', '4']))

def record (threadIdx coreIdx previousInstr : Nat) : Access → List Char
  | .load addr size => memRecord 'L' threadIdx coreIdx previousInstr addr size
  | .store addr size => memRecord 'S' threadIdx coreIdx previousInstr addr size
  | .fetch addr => fetchRecord threadIdx coreIdx addr

theorem splitStr_memRecord {letter : Char} (hletter : isSpace letter = false)
    (threadIdx coreIdx previousInstr addr size : Nat) :
    splitStr (memRecord letter threadIdx coreIdx previousInstr addr size) =
      [dec threadIdx, dec coreIdx, dec previousInstr, [letter], dec addr, dec size] := by
  unfold memRecord
  rw [splitStr_field (isField_dec _), splitStr_field (isField_dec _),
    splitStr_field (isField_dec _), splitStr_char hletter, splitStr_field (isField_dec _),
    splitStr_last (isField_dec _)]

theorem splitStr_fetchRecord (threadIdx coreIdx addr : Nat) :
    splitStr (fetchRecord threadIdx coreIdx addr) =
      [dec threadIdx, dec coreIdx, ['-'], ['I'], dec addr, ['6', '4']] := by
  unfold fetchRecord
  rw [splitStr_field (isField_dec _), splitStr_field (isField_dec _), splitStr_char (by decide),
    splitStr_space, splitStr_char (by decide), splitStr_field (isField_dec _),
    splitStr_last ⟨by simp, by simp [isSpace]⟩]

theorem recordOf_record {threadIdx coreIdx previousInstr : Nat} {access : Access}
    (hthread : threadIdx < 2 ^ 31) (hcore : coreIdx ≤ 512) (hcount : previousInstr < 2 ^ 31)
    (haddr : access.addr < 2 ^ 63) :
    recordOf (splitStr (record threadIdx coreIdx previousInstr access)) =
      some ⟨coreIdx, access.count previousInstr, access.addr, some access.type⟩ := by
  have hthread' : stoi (dec threadIdx) = some (threadIdx : Int) := by
    rw [stoi_dec, if_pos hthread]
  have hcore' : stoi (dec coreIdx) = some (coreIdx : Int) := by
    rw [stoi_dec, if_pos (by omega)]
  have hcount' : cyclesOf (dec previousInstr) = some previousInstr := by
    rw [cyclesOf_dec, if_pos hcount]
  have haddr' : stoul (dec access.addr) = some access.addr := by
    rw [stoul_dec, if_pos (by omega)]
  have hunsigned : toUnsigned coreIdx = coreIdx := toUnsigned_natCast (by omega)
  have hlong : toLong access.addr = access.addr := by
    unfold toLong
    rw [if_pos haddr]
  cases access with
  | load addr size =>
    rw [record, splitStr_memRecord (by decide),
      recordOf_eq_some_iff (typeOf_dec _) (typeOf_dec _) (typeOf_dec _) rfl]
    exact ⟨⟨_, hthread'⟩, _, hcore', by omega, _, hcount', _, haddr', by rw [hunsigned, hlong]; rfl⟩
  | store addr size =>
    rw [record, splitStr_memRecord (by decide),
      recordOf_eq_some_iff (typeOf_dec _) (typeOf_dec _) (typeOf_dec _) rfl]
    exact ⟨⟨_, hthread'⟩, _, hcore', by omega, _, hcount', _, haddr', by rw [hunsigned, hlong]; rfl⟩
  | fetch addr =>
    rw [record, splitStr_fetchRecord, recordOf_eq_some_iff (typeOf_dec _) (typeOf_dec _) rfl rfl]
    exact ⟨⟨_, hthread'⟩, _, hcore', by omega, 0, rfl, _, haddr', by rw [hunsigned, hlong]; rfl⟩

theorem newline_notMem_dec (n : Nat) : '\n' ∉ dec n :=
  fun h => absurd (isDigit_of_mem_dec h) (by decide)

theorem newline_notMem_memRecord (letter : Char) (hletter : letter ≠ '\n')
    (threadIdx coreIdx previousInstr addr size : Nat) :
    '\n' ∉ memRecord letter threadIdx coreIdx previousInstr addr size := by
  simp [memRecord, newline_notMem_dec, hletter.symm]

theorem newline_notMem_record (threadIdx coreIdx previousInstr : Nat) (access : Access) :
    '\n' ∉ record threadIdx coreIdx previousInstr access := by
  cases access with
  | load addr size => exact newline_notMem_memRecord 'L' (by decide) _ _ _ _ _
  | store addr size => exact newline_notMem_memRecord 'S' (by decide) _ _ _ _ _
  | fetch addr => simp [record, fetchRecord, newline_notMem_dec]

/-- A record in a trace file is one line, and the reader finds in it the core, the
    count, the type and the address that the writer put there. -/
theorem getZsimRequest_record (threadIdx coreIdx previousInstr : Nat) (access : Access)
    (hthread : threadIdx < 2 ^ 31) (hcore : coreIdx ≤ 512) (hcount : previousInstr < 2 ^ 31)
    (haddr : access.addr < 2 ^ 63) (rest : List Char) (regs : Regs) :
    ∃ line, getlines (record threadIdx coreIdx previousInstr access ++ '\n' :: rest) =
        line :: getlines rest ∧ getZsimRequest regs line = some
        { bubbleCnt := access.count previousInstr
          reqAddr := access.addr
          reqType := access.type
          cpuId := coreIdx } := by
  have hrecord := recordOf_record hthread hcore hcount haddr
  refine ⟨record threadIdx coreIdx previousInstr access, getlines_append ?_ rest, ?_⟩
  · rintro c hc rfl
    exact newline_notMem_record threadIdx coreIdx previousInstr access hc
  · refine getZsimRequest_of_recordOf ?_ hrecord regs
    intro hnil
    rw [hnil] at hrecord
    cases hrecord

/-- A store, and a fetch from the last address that fits. -/
theorem getZsimRequest_record_written : (record 3 2 7 (.store 4096 8) = "3 2 7 S 4096 8".toList ∧
      ∃ line, getlines (record 3 2 7 (.store 4096 8) ++ '\n' :: []) = [line] ∧
        getZsimRequest ⟨0, 0, .read, 0⟩ line = some ⟨7, 4096, .write, 2⟩) ∧
    (record 3 2 7 (.fetch (2 ^ 63 - 1)) = "3 2 -  I 9223372036854775807 64".toList ∧
      ∃ line, getlines (record 3 2 7 (.fetch (2 ^ 63 - 1)) ++ '\n' :: []) = [line] ∧
        getZsimRequest ⟨0, 0, .read, 0⟩ line = some ⟨0, 2 ^ 63 - 1, .instruction, 2⟩) :=
  ⟨⟨by decide, getZsimRequest_record 3 2 7 (.store 4096 8) (by decide) (by decide) (by decide)
      (by decide) [] _⟩,
    ⟨by decide, getZsimRequest_record 3 2 7 (.fetch (2 ^ 63 - 1)) (by decide) (by decide)
      (by decide) (by decide) [] _⟩⟩

/-! ## A whole trace -/

/-- What `bbl` goes through: micro-operations, and the lines it fetches. -/
inductive Event where
  /-- `UOP_GENERAL`, `UOP_STORE_ADDR` or `UOP_FENCE`. -/
  | other
  | access (a : Access)
deriving DecidableEq, Repr

/-- The members of `OOOCore` that the trace depends on, with `pim_trace` set. -/
structure OOOCore where
  threadIdx : Nat
  coreIdx : Nat
  instrTrace : Bool := true
  ptrace : Bool := true
  previousInstr : Nat := 0
  tracefile : List Char := []

namespace OOOCore

def write (core : OOOCore) (a : Access) : OOOCore :=
  { core with
    tracefile := core.tracefile ++
      (record core.threadIdx core.coreIdx core.previousInstr a ++ ['\n']) }

def bbl (core : OOOCore) : Event → OOOCore
  | .other => if core.ptrace then { core with previousInstr := core.previousInstr + 1 } else core
  | .access (.load addr size) =>
    -- a load that is predicated off
    if addr = 2 ^ 64 - 1 then core
    else
      let core := if core.ptrace then core.write (.load addr size) else core
      { core with previousInstr := 0 }
  | .access (.store addr size) =>
    let core := if core.ptrace then core.write (.store addr size) else core
    { core with previousInstr := 0 }
  | .access (.fetch addr) =>
    if core.instrTrace && core.ptrace then core.write (.fetch addr) else core

def run (core : OOOCore) (events : List Event) : OOOCore := events.foldl bbl core

def request (coreIdx n : Nat) (a : Access) : Regs where
  bubbleCnt := a.count n
  reqAddr := a.addr
  reqType := a.type
  cpuId := coreIdx

/-- The requests that a trace should hold, `n` instructions after the last load or store. -/
def requestsOf (coreIdx : Nat) (n : Nat) : List Event → List Regs
  | [] => []
  | .other :: events => requestsOf coreIdx (n + 1) events
  | .access (.fetch addr) :: events =>
    request coreIdx n (.fetch addr) :: requestsOf coreIdx n events
  | .access a :: events => request coreIdx n a :: requestsOf coreIdx 0 events

theorem requests_record {threadIdx coreIdx : Nat} {a : Access} (hthread : threadIdx < 2 ^ 31)
    (hcore : coreIdx ≤ 512) (hcount : n < 2 ^ 31) (haddr : a.addr < 2 ^ 63) (rest : List Char)
    (regs : Regs) : requests regs (getlines (record threadIdx coreIdx n a ++ '\n' :: rest)) =
      request coreIdx n a :: requests (request coreIdx n a) (getlines rest) := by
  have hrecord := recordOf_record hthread hcore hcount haddr
  have hparse : parse (record threadIdx coreIdx n a) =
      .record ⟨coreIdx, a.count n, a.addr, some a.type⟩ := by
    unfold parse
    rw [if_neg ?_, hrecord]
    intro hnil
    rw [hnil] at hrecord
    cases hrecord
  rw [getlines_append]
  · rw [requests, hparse]
    rfl
  · rintro c hc rfl
    exact newline_notMem_record threadIdx coreIdx n a hc

/-- What one step adds to the trace file. -/
def written (core : OOOCore) : Event → List Char
  | .other => []
  | .access a => record core.threadIdx core.coreIdx core.previousInstr a ++ ['\n']

def counted (n : Nat) : Event → Nat
  | .other => n + 1
  | .access (.fetch _) => n
  | .access _ => 0

theorem bbl_eq {core : OOOCore} (htrace : core.ptrace = true) (hinstr : core.instrTrace = true)
    {e : Event} (haddr : ∀ a, e = .access a → a.addr < 2 ^ 63) : core.bbl e = { core with
      tracefile := core.tracefile ++ core.written e
      previousInstr := counted core.previousInstr e } := by
  unfold bbl
  split
  · simp [htrace, written, counted]
  · next addr size =>
    have hlt : addr < 2 ^ 63 := haddr _ rfl
    rw [if_neg (by omega)]
    simp [htrace, write, written, counted]
  · simp [htrace, write, written, counted]
  · simp [htrace, hinstr, write, written, counted]

/-- Reading a trace back gives the accesses of the core in order: a load or a store
    with the instructions since the last load or store, a fetch with the count 0. -/
theorem requests_run {c : OOOCore} (htrace : c.ptrace = true)
    (hinstr : c.instrTrace = true) (hthread : c.threadIdx < 2 ^ 31)
    (hcore : c.coreIdx ≤ 512) {events : List Event}
    (haddr : ∀ a, .access a ∈ events → a.addr < 2 ^ 63)
    (hcount : c.previousInstr + events.length < 2 ^ 31) (regs : Regs) :
    ∃ text, (c.run events).tracefile = c.tracefile ++ text ∧
      requests regs (getlines text) = requestsOf c.coreIdx c.previousInstr events := by
  induction events generalizing c regs with
  | nil => exact ⟨[], (append_nil _).symm, rfl⟩
  | cons e events ih =>
    have hstep := bbl_eq htrace hinstr (e := e) (fun a ha => haddr a (ha ▸ mem_cons_self))
    rw [length_cons] at hcount
    have hcounted : counted c.previousInstr e ≤ c.previousInstr + 1 := by
      unfold counted
      split <;> omega
    -- the rest of the trace, from the state that `e` leaves
    have hrest : ∀ regs, ∃ text,
        ((c.bbl e).run events).tracefile = c.tracefile ++ c.written e ++ text ∧
          requests regs (getlines text) =
            requestsOf c.coreIdx (counted c.previousInstr e) events := by
      intro regs
      rw [hstep]
      exact ih (c := { c with
          tracefile := c.tracefile ++ c.written e
          previousInstr := counted c.previousInstr e })
        htrace hinstr hthread hcore (fun a ha => haddr a (mem_cons_of_mem _ ha))
        (show counted c.previousInstr e + events.length < 2 ^ 31 by omega) regs
    cases e with
    | other =>
      obtain ⟨text, htext, hrequests⟩ := hrest regs
      refine ⟨text, ?_, hrequests⟩
      rw [written, append_nil] at htext
      exact htext
    | access a =>
      obtain ⟨text, htext, hrequests⟩ := hrest (request c.coreIdx c.previousInstr a)
      refine ⟨c.written (.access a) ++ text, ?_, ?_⟩
      · rw [← append_assoc]
        exact htext
      · rw [written, append_assoc, singleton_append,
          requests_record hthread hcore (by omega) (haddr a mem_cons_self), hrequests]
        cases a <;> rfl

theorem requests_run_two : ∃ text, (({ threadIdx := 0, coreIdx := 1 } : OOOCore).run
        [.other, .access (.load 64 8), .access (.store 128 8)]).tracefile = [] ++ text ∧
      requests ⟨0, 0, .read, 0⟩ (getlines text) = [⟨1, 64, .read, 1⟩, ⟨0, 128, .write, 1⟩] := by
  refine requests_run rfl rfl (by decide) (by decide) ?_ (by decide) _
  intro a ha
  simp only [mem_cons, reduceCtorEq, false_or, not_mem_nil, or_false, Event.access.injEq] at ha
  rcases ha with rfl | rfl <;> decide

end OOOCore

/-! ## The memory controller -/

inductive AccessType where
  | gets | getx | puts | putx
deriving DecidableEq, Repr

inductive MESIState where
  | i | s | e | m
deriving DecidableEq, Repr

structure MemReq where
  lineAddr : Nat
  type : AccessType
  cycle : Nat := 0
  coreId : Nat := 0
  ifetch : Bool := false
  noexcl : Bool := false
  prefetch : Bool := false
  prefetchTrace : Bool := false
deriving DecidableEq, Repr

/-- A request for data that an instruction waits for. -/
def MemReq.IsDemand (req : MemReq) : Prop :=
  (req.type = .gets ∨ req.type = .getx) ∧ req.ifetch = false ∧ req.prefetch = false ∧
    req.prefetchTrace = false

instance (req : MemReq) : Decidable req.IsDemand := instDecidableAnd

structure MemoryTraces where
  latency : Nat := 1
  printTrace : Int := 1
  previousInstr : Nat → Nat := fun _ => 0
  substract : Nat → Int := fun _ => 0
  threadIdx : Nat → Nat := fun _ => 0
  tracefile : List Char := []

def maxCores : Nat := 1024

def toInt64 (n : Nat) : Int := toLong (n % 2 ^ 64)

/-- `<<` of a signed number. -/
def decInt (v : Int) : List Char := if v < 0 then '-' :: dec (-v).toNat else dec v.toNat

namespace MemoryTraces

/-- `substract[coreId]` with this request counted, unless it is a prefetch. -/
def substracted (m : MemoryTraces) (req : MemReq) : Int :=
  m.substract req.coreId + if req.prefetchTrace || req.prefetch then 0 else 1

def pinstr (m : MemoryTraces) (req : MemReq) : Int :=
  let pinstr := toInt64 (m.previousInstr req.coreId)
  if pinstr - m.substracted req ≤ 0 then 0 else pinstr - m.substracted req

def substractAfter (m : MemoryTraces) (req : MemReq) : Int :=
  let pinstr := toInt64 (m.previousInstr req.coreId)
  if pinstr - m.substracted req ≤ 0 then m.substracted req - pinstr else 0

def record (m : MemoryTraces) (req : MemReq) (letter : Char) : List Char :=
  dec (m.threadIdx req.coreId) ++ ' ' :: (dec req.coreId ++ ' ' :: (decInt (m.pinstr req) ++
    ' ' :: (if req.prefetchTrace || req.prefetch then 'P' else letter) :: ' ' :: dec req.lineAddr))

/-- What `access` does for a trace, but for instruction fetches. -/
def trace (m : MemoryTraces) (req : MemReq) (letter : Char) : MemoryTraces :=
  if m.printTrace ≠ 0 ∧ req.ifetch = false then
    { m with
      tracefile := m.tracefile ++ (m.record req letter ++ ['\n'])
      previousInstr := Function.update m.previousInstr req.coreId 0
      substract := Function.update m.substract req.coreId (m.substractAfter req) }
  else m

/-- `access`: the controller, the state of the line and the cycle of the response;
    `none` if an assertion fails. -/
def access (m : MemoryTraces) (req : MemReq) : Option (MemoryTraces × MESIState × Nat) :=
  let respCycle := (req.cycle + m.latency) % 2 ^ 64
  if req.coreId ≤ maxCores ∧ req.cycle < respCycle then
    match req.type with
    | .putx | .puts => some (m, .i, respCycle)
    | .gets => some (m.trace req 'L', if req.noexcl then .s else .e, respCycle)
    | .getx => some (m.trace req 'S', .m, respCycle)
  else none

def InLine (l : Nat) (addr : Int) : Prop := 64 * (l : Int) ≤ addr ∧ addr < 64 * (l : Int) + 64

def requestType (req : MemReq) : RequestType := if req.type = .gets then .read else .write

instance (l : Nat) (addr : Int) : Decidable (InLine l addr) := instDecidableAnd

theorem pinstr_nonneg (m : MemoryTraces) (req : MemReq) : 0 ≤ m.pinstr req := by
  unfold pinstr
  dsimp only
  split <;> omega

theorem decInt_pinstr (m : MemoryTraces) (req : MemReq) :
    decInt (m.pinstr req) = dec (m.pinstr req).toNat := by
  have hnonneg := m.pinstr_nonneg req
  unfold decInt
  rw [if_neg (by omega)]

variable {m : MemoryTraces} {req : MemReq}

theorem splitStr_record (hdemand : req.IsDemand) {letter : Char}
    (hletter : isSpace letter = false) : splitStr (m.record req letter) =
      [dec (m.threadIdx req.coreId), dec req.coreId, dec (m.pinstr req).toNat, [letter],
        dec req.lineAddr] := by
  obtain ⟨-, -, hprefetch, hprefetchTrace⟩ := hdemand
  unfold record
  rw [decInt_pinstr, hprefetch, hprefetchTrace, splitStr_field (isField_dec _),
    splitStr_field (isField_dec _), splitStr_field (isField_dec _)]
  rw [Bool.or_self, if_neg Bool.false_ne_true, splitStr_char hletter, splitStr_last (isField_dec _)]

def letter (req : MemReq) : Char := if req.type = .gets then 'L' else 'S'

theorem typeOf_letter (req : MemReq) : typeOf [letter req] = some (some (requestType req)) := by
  unfold letter requestType
  split <;> rfl

theorem isSpace_letter (req : MemReq) : isSpace (letter req) = false := by
  unfold letter
  split <;> rfl

/-- The reader's record of a demand request; it needs the thread and the count to
    fit an `int`. -/
theorem recordOf_record_iff (hdemand : req.IsDemand) (hcore : req.coreId ≤ 512) :
    recordOf (splitStr (m.record req (letter req))) = some r ↔
      m.threadIdx req.coreId < 2 ^ 31 ∧ m.pinstr req < 2 ^ 31 ∧ req.lineAddr < 2 ^ 64 ∧
        r = ⟨req.coreId, m.pinstr req, toLong req.lineAddr, some (requestType req)⟩ := by
  have hnonneg := m.pinstr_nonneg req
  have hunsigned : toUnsigned req.coreId = req.coreId := toUnsigned_natCast (by omega)
  rw [splitStr_record hdemand (isSpace_letter req), recordOf_eq_some_iff (typeOf_dec _)
    (typeOf_dec _) (typeOf_dec _) (by rw [typeOf_letter]; rfl)]
  rw [stoi_dec, stoi_dec, cyclesOf_dec, stoul_dec, typeOf_letter]
  simp only [Option.ite_none_right_eq_some, Option.some.injEq]
  constructor
  · rintro ⟨⟨-, hthread, -⟩, -, ⟨-, rfl⟩, -, -, ⟨hcount, rfl⟩, -, ⟨haddr, rfl⟩, rfl⟩
    refine ⟨hthread, by omega, haddr, ?_⟩
    rw [hunsigned, Int.toNat_of_nonneg hnonneg]
    rfl
  · rintro ⟨hthread, hcount, haddr, rfl⟩
    refine ⟨⟨_, hthread, rfl⟩, _, ⟨by omega, rfl⟩, by omega, _, ⟨by omega, rfl⟩, _,
      ⟨haddr, rfl⟩, ?_⟩
    rw [hunsigned, Int.toNat_of_nonneg hnonneg]
    rfl

theorem newline_notMem_record (hdemand : req.IsDemand) : '\n' ∉ m.record req (letter req) := by
  obtain ⟨-, -, hprefetch, hprefetchTrace⟩ := hdemand
  have hletter : '\n' ≠ letter req := by
    unfold letter
    split <;> decide
  simp [record, decInt_pinstr, newline_notMem_dec, hprefetch, hprefetchTrace, hletter]

theorem access_tracefile (hdemand : req.IsDemand) (htrace : m.printTrace ≠ 0)
    {out : MemoryTraces × MESIState × Nat} (haccess : m.access req = some out) :
    out.1.tracefile = m.tracefile ++ (m.record req (letter req) ++ ['\n']) := by
  obtain ⟨htype, hifetch, -, -⟩ := hdemand
  unfold access at haccess
  dsimp only at haccess
  rw [Option.ite_none_right_eq_some] at haccess
  rcases htype with htype | htype
  · rw [htype] at haccess
    obtain rfl := Option.some.inj haccess.2
    simp [trace, htrace, hifetch, letter, htype]
  · rw [htype] at haccess
    obtain rfl := Option.some.inj haccess.2
    simp [trace, htrace, hifetch, letter, htype]

theorem inLine_toLong_iff (l : Nat) : InLine l (toLong l) ↔ l = 0 := by
  unfold InLine toLong
  split <;> omega

/-- The record that a demand request leaves is in its line only for line 0, because
    the controller writes the number of the line. -/
theorem access_inLine_iff (m : MemoryTraces) (req : MemReq) (hdemand : req.IsDemand)
    (htrace : m.printTrace ≠ 0) (hcore : req.coreId ≤ 512)
    (out : MemoryTraces × MESIState × Nat) (haccess : m.access req = some out) :
    ∃ line, out.1.tracefile = m.tracefile ++ (line ++ ['\n']) ∧ '\n' ∉ line ∧
      ∀ regs, (∃ regs', getZsimRequest regs line = some regs' ∧
          regs'.reqType = requestType req ∧ InLine req.lineAddr regs'.reqAddr) ↔
        m.threadIdx req.coreId < 2 ^ 31 ∧ m.pinstr req < 2 ^ 31 ∧ req.lineAddr = 0 := by
  refine ⟨m.record req (letter req), access_tracefile hdemand htrace haccess,
    newline_notMem_record hdemand, fun regs => ?_⟩
  have hline : m.record req (letter req) ≠ [] := by simp [record]
  constructor
  · rintro ⟨regs', hregs', -, hin⟩
    cases hrecord : recordOf (splitStr (m.record req (letter req))) with
    | none =>
      -- the reader gives up: address -1 is in no line
      rw [getZsimRequest_of_none hline hrecord] at hregs'
      obtain rfl := Option.some.inj hregs'
      have hlow : 64 * (req.lineAddr : Int) ≤ -1 := hin.1
      omega
    | some r =>
      rw [getZsimRequest_of_recordOf hline hrecord] at hregs'
      obtain rfl := Option.some.inj hregs'
      obtain ⟨hthread, hcount, -, rfl⟩ := (recordOf_record_iff hdemand hcore).mp hrecord
      exact ⟨hthread, hcount, (inLine_toLong_iff _).mp hin⟩
  · rintro ⟨hthread, hcount, hzero⟩
    have hrecord := (recordOf_record_iff (m := m) hdemand hcore).mpr
      ⟨hthread, hcount, by omega, rfl⟩
    exact ⟨_, getZsimRequest_of_recordOf hline hrecord regs, rfl, (inLine_toLong_iff _).mpr hzero⟩

/-- A controller in the middle of a trace. -/
def underWay : MemoryTraces where
  previousInstr := fun core => core + 7
  substract := fun core => core - 3
  threadIdx := fun core => core + 1
  tracefile := "6 5 0 L 2\n".toList

/-- A store of core 5 to line 0. -/
theorem access_inLine_iff_zero :
    ∃ line, (underWay.trace { lineAddr := 0, type := .getx, coreId := 5 } 'S').tracefile =
        underWay.tracefile ++ (line ++ ['\n']) ∧ line = "6 5 9 S 0".toList ∧
      ∃ regs', getZsimRequest ⟨0, 0, .read, 0⟩ line = some regs' ∧ regs'.reqType = .write ∧
        InLine 0 regs'.reqAddr := by
  obtain ⟨line, htracefile, -, hiff⟩ := access_inLine_iff underWay
    { lineAddr := 0, type := .getx, coreId := 5 } (by decide) (by decide) (by decide) _ rfl
  have hline : line = "6 5 9 S 0".toList :=
    append_cancel_right (append_cancel_left (htracefile.symm.trans (by decide)))
  exact ⟨line, htracefile, hline, (hiff _).mpr (by decide)⟩

/-- A read of line 1, the bytes 64 to 127, is recorded as a read of byte 1. -/
theorem line_one_read_as_byte_one :
    ∃ out, ({} : MemoryTraces).access { lineAddr := 1, type := .gets } = some out ∧
      out.1.tracefile = "0 0 0 L 1\n".toList ∧
      getZsimRequest ⟨0, 0, .write, 0⟩ "0 0 0 L 1".toList = some ⟨0, 1, .read, 0⟩ ∧ ¬InLine 1 1 :=
  ⟨_, rfl, by decide, by decide, by decide⟩

end MemoryTraces

end Zsim

end Ramulator
