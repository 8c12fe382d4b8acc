/-
  Ramulator.Processor.TraceFiles

  Reading the other two text formats: `get_unfiltered_request` and
  `get_dramtrace_request` of `Trace` (Processor.cpp).

  Here a file is its characters, and the stream knows how far it has been read.
  `getline` sets the end-of-file state when it reaches the end of the file before
  a newline.  Both functions test that state after `getline` and before they look
  at the line, so the last line of a file is dropped unless a newline ends it.
-/

import Ramulator.Processor.Trace

namespace Ramulator

open List

namespace Trace

/-! ## Streams -/

structure Stream where
  content : List Char
  rest : List Char
  eof : Bool := false
deriving DecidableEq, Repr

/-- A file that has just been opened. -/
def Stream.open (content : List Char) : Stream := { content, rest := content }

/-- `getline`: the line, without its newline, and the stream after it. -/
def getline (s : Stream) : List Char × Stream :=
  -- nothing is read from a stream that is at its end
  if s.eof then ([], s)
  else
    (s.rest.takeWhile (· != '\n'), { s with
        rest := (s.rest.dropWhile (· != '\n')).tail
        eof := (s.rest.dropWhile (· != '\n')).isEmpty })

/-! ## Numbers and type letters -/

/-- The value of a digit, in the bases up to sixteen. -/
def digitOf (c : Char) : Option Nat :=
  if c.isDigit then some (c.toNat - '0'.toNat)
  else if 'a'.toNat ≤ c.toNat ∧ c.toNat ≤ 'f'.toNat then some (c.toNat - 'a'.toNat + 10)
  else if 'A'.toNat ≤ c.toNat ∧ c.toNat ≤ 'F'.toNat then some (c.toNat - 'A'.toNat + 10)
  else none

def isDigitOf (base : Nat) (c : Char) : Bool := (digitOf c).any (· < base)

/-- The base of a number, and the string after `0x`.  With base zero the number
    says its base. -/
def baseOf (base : Nat) (s : List Char) : Nat × List Char :=
  if (base = 0 ∨ base = 16) ∧ s[0]? = some '0' ∧ (s[1]? = some 'x' ∨ s[1]? = some 'X') ∧
      s[2]?.any (isDigitOf 16) then (16, s.drop 2)
  else if base = 0 then (if s[0]? = some '0' then 8 else 10, s)
  else (base, s)

/-- `stoul(s, &pos, base)`: the number and `pos`; `none` is an exception. -/
def stoulWith (base : Nat) (s : List Char) : Option (Nat × Nat) :=
  let signed := sign (s.dropWhile isSpace)
  let based := baseOf base signed.2
  let ds := based.2.takeWhile (isDigitOf based.1)
  let n := ds.foldl (fun n c => based.1 * n + (digitOf c).getD 0) 0
  if ds = [] ∨ 2 ^ 64 ≤ n then none
  else
    some (if signed.1 then (2 ^ 64 - n) % 2 ^ 64 else n,
      s.length - (based.2.drop ds.length).length)

def findFirstNotOf (s : List Char) (pos : Nat) : Option Nat :=
  ((s.drop pos).findIdx? (· ≠ ' ')).map (pos + ·)

/-- The type of a request; a line without a letter is a read, and another letter
    fails an assertion. -/
def typeAt (line : List Char) (pos : Nat) : Option RequestType :=
  match (findFirstNotOf line pos).bind fun pos => (line.drop pos).head? with
  | none | some 'R' => some .read
  | some 'W' => some .write
  | some _ => none

/-- What `get_unfiltered_request` makes of a line: `bubble_cnt`, `req_addr` and
    `req_type`. -/
def unfilteredOf (line : List Char) : Option (Int × Int × RequestType) := do
  let bubbleCnt ← stoulWith 10 line
  let pos ← findFirstNotOf line (bubbleCnt.2 + 1)
  let reqAddr ← stoulWith 0 (line.drop pos)
  let reqType ← typeAt line (pos + reqAddr.2)
  some (toLong bubbleCnt.1, toLong reqAddr.1, reqType)

def dramtraceOf (line : List Char) : Option (Int × RequestType) := do
  let reqAddr ← stoulWith 16 line
  let reqType ← typeAt line (reqAddr.2 + 1)
  some (toLong reqAddr.1, reqType)

example : unfilteredOf "3 0x40  W".toList = some (3, 64, .write) := by decide

example : dramtraceOf "0x40".toList = some (64, .read) := by decide

/-! ## Calls -/

variable {α : Type}

/-- A call: it returns false, or true and a request, or it ends the simulator. -/
def getRequest (parse : List Char → Option α) (rewinds : Bool) (s : Stream) :
    Option (Option α × Stream) :=
  let next := getline s
  if next.2.eof then some (none, if rewinds then Stream.open s.content else next.2)
  else (parse next.1).map fun r => (some r, next.2)

/-- `get_unfiltered_request`, which starts over unless in PIM mode. -/
def getUnfilteredRequest (pimModeEnabled : Bool) :
    Stream → Option (Option (Int × Int × RequestType) × Stream) :=
  getRequest unfilteredOf (!pimModeEnabled)

def getDramtraceRequest : Stream → Option (Option (Int × RequestType) × Stream) :=
  getRequest dramtraceOf false

/-- Repeated calls return true with exactly these requests, then false. -/
def Reads (get : Stream → Option (Option α × Stream)) : Stream → List α → Prop
  | s, [] => ∃ s', get s = some (none, s')
  | s, r :: rs => ∃ s', get s = some (some r, s') ∧ Reads get s' rs

def fileOf (ended : Bool) : List (List Char) → List Char
  | [] => []
  | [line] => if ended then line ++ ['\n'] else line
  | line :: lines => line ++ '\n' :: fileOf ended lines

/-! ## Every line but the last -/

variable {parse : List Char → Option α} {rewinds : Bool} {content line : List Char}

theorem getRequest_line (hline : '\n' ∉ line) {r : α} (hr : parse line = some r)
    (rest : List Char) : getRequest parse rewinds { content, rest := line ++ '\n' :: rest } =
      some (some r, { content, rest }) := by
  have hall : ∀ c ∈ line, (c != '\n') = true :=
    fun c hc => bne_iff_ne.mpr fun h => hline (h ▸ hc)
  simp [getRequest, getline, takeWhile_append_of_pos hall, dropWhile_append_of_pos hall, hr]

theorem getRequest_last (hline : '\n' ∉ line) :
    ∃ s', getRequest parse rewinds { content, rest := line } = some (none, s') := by
  have hall : ∀ c ∈ line, (c != '\n') = true :=
    fun c hc => bne_iff_ne.mpr fun h => hline (h ▸ hc)
  have hend : line.dropWhile (· != '\n') = [] := by
    rw [← append_nil line, dropWhile_append_of_pos hall, dropWhile_nil]
  exact ⟨_, by simp only [getRequest, getline, hend]; rfl⟩

theorem reads_iff {lines : List (List Char)} {rs : List α} (ended : Bool)
    (hparse : Forall₂ (fun line r => parse line = some r) lines rs)
    (hlines : ∀ line ∈ lines, '\n' ∉ line) :
    Reads (getRequest parse rewinds) { content, rest := fileOf ended lines } rs ↔
      ended = true ∨ lines = [] := by
  induction hparse with
  | nil => exact iff_of_true (getRequest_last not_mem_nil) (.inr rfl)
  | @cons line r lines rs hr hrest ih =>
    rw [forall_mem_cons] at hlines
    -- a call that finds the newline yields `r` and leaves the other lines
    have hcall : ∀ rest, Reads (getRequest parse rewinds)
        { content, rest := line ++ '\n' :: rest } (r :: rs) ↔
          Reads (getRequest parse rewinds) { content, rest } rs := by
      intro rest
      simp [Reads, getRequest_line hlines.1 hr]
    cases lines with
    | cons line' lines =>
      rw [fileOf, hcall, ih hlines.2]
      · simp
      · simp
    | nil =>
      cases ended with
      | true => simpa [fileOf] using (hcall []).trans (ih hlines.2)
      | false =>
        have hlast : ∃ s', getRequest parse rewinds { content, rest := line } = some (none, s') :=
          getRequest_last hlines.1
        obtain ⟨s', hlast⟩ := hlast
        simp [Reads, fileOf, hlast]

/-- For a file of well-formed lines, in PIM mode: the calls return true once for
    each line, with its request, exactly if a newline ends the last line. -/
theorem reads_lines_iff (ended : Bool) (lines : List (List Char))
    (hlines : ∀ line ∈ lines, '\n' ∉ line) :
    (∀ rs, Forall₂ (fun line r => unfilteredOf line = some r) lines rs →
      (Reads (getUnfilteredRequest true) (.open (fileOf ended lines)) rs ↔
        ended = true ∨ lines = [])) ∧
    (∀ rs, Forall₂ (fun line r => dramtraceOf line = some r) lines rs →
      (Reads getDramtraceRequest (.open (fileOf ended lines)) rs ↔ ended = true ∨ lines = [])) :=
  ⟨fun _ hparse => reads_iff ended hparse hlines, fun _ hparse => reads_iff ended hparse hlines⟩

theorem reads_lines_two : Reads (getUnfilteredRequest true) (.open "3 64\n0 0x80 W\n".toList)
      [(3, 64, .read), (0, 128, .write)] ∧
    Reads getDramtraceRequest (.open "40\n0x80 W\n".toList) [(64, .read), (128, .write)] :=
  ⟨((reads_lines_iff true ["3 64".toList, "0 0x80 W".toList] (by decide)).1 _
      (.cons (by decide) (.cons (by decide) .nil))).mpr (.inl rfl),
    ((reads_lines_iff true ["40".toList, "0x80 W".toList] (by decide)).2 _
      (.cons (by decide) (.cons (by decide) .nil))).mpr (.inl rfl)⟩

theorem last_line_dropped : unfilteredOf "3 64".toList = some (3, 64, .read) ∧
    (getUnfilteredRequest true (.open "3 64".toList)).map (·.1) = some none ∧
    dramtraceOf "40".toList = some (64, .read) ∧
    (getDramtraceRequest (.open "40".toList)).map (·.1) = some none := by
  decide

end Trace

end Ramulator
