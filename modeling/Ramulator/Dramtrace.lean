/-
  Ramulator.Dramtrace

  The main loop of a run with a DRAM trace, `run_dramtrace` (Main.cpp).

  In every round the loop reads the next request of the trace, unless the last one
  still waits, offers it to the memory and ticks the memory.  A window counts the
  reads in flight: it is entered by a read that is taken and left by a callback.  The
  counters and the latencies, which nothing reads, are left out.
-/

import Ramulator.Logged
import Ramulator.PrivateL1.Steps
import Ramulator.Processor.TraceFiles

namespace Ramulator

open Outcome List

/-! ## The loop -/

/-- How the simulator is ended: by the memory, by an assertion of the window, or at a
    line that is not a request. -/
inductive DramtraceFailure where
  | memory (abort : Abort)
  | windowFull | windowEmpty | malformedLine
deriving DecidableEq, Repr

/-- A limit of -1 is none. -/
structure OutstandingReqWindow where
  inflightReq : Int := 0
  inflightLimit : Int := -1
deriving DecidableEq, Repr

namespace OutstandingReqWindow

section

variable (w : OutstandingReqWindow)

def isUnlimited : Bool := w.inflightLimit == -1

def isFull : Bool := !w.isUnlimited && w.inflightLimit == w.inflightReq

def isEmpty : Bool := w.inflightReq == 0

def insert : Except DramtraceFailure OutstandingReqWindow :=
  if w.isUnlimited then pure w
  else if w.isFull then .error .windowFull
  else pure { w with inflightReq := w.inflightReq + 1 }

def retire : Except DramtraceFailure OutstandingReqWindow :=
  if w.isUnlimited then pure w
  else if w.isEmpty then .error .windowEmpty
  else pure { w with inflightReq := w.inflightReq - 1 }

end

/-- The window counts `n` reads, not more than the limit. -/
def Holds (limit : Int) (n : Nat) (w : OutstandingReqWindow) : Prop :=
  w.inflightLimit = limit ∧ (limit ≠ -1 → w.inflightReq = n) ∧ (0 ≤ limit → n ≤ limit)

variable {limit : Int} {n : Nat} {w : OutstandingReqWindow}

theorem Holds.insert_ends (h : w.Holds limit n) (hfull : w.isFull = false) :
    Ends w.insert (Holds limit (n + 1)) fun _ => False := by
  obtain ⟨hlimit, hreq, hle⟩ := h
  apply Ends.ite
  · intro hunlimited
    have := beq_iff_eq.mp hunlimited
    exact ⟨hlimit, by omega, by omega⟩
  · intro hlimited
    have hroom : limit ≠ w.inflightReq := by
      simp_all [isFull]
    rw [if_neg (by simp [hfull])]
    refine ⟨hlimit, fun hne => ?_, fun hpos => ?_⟩
    · simp [hreq hne]
    · have := hreq (by omega)
      have := hle hpos
      omega

theorem retire_ends (h : w.Holds limit (n + 1)) : Ends w.retire (Holds limit n) fun _ => False := by
  obtain ⟨hlimit, hreq, hle⟩ := h
  apply Ends.ite
  · intro hunlimited
    have := beq_iff_eq.mp hunlimited
    exact ⟨hlimit, by omega, by omega⟩
  · intro hlimited
    have hne : limit ≠ -1 := by simpa [isUnlimited, hlimit] using hlimited
    have := hreq hne
    rw [if_neg (by simp [isEmpty]; omega)]
    exact ⟨hlimit, fun _ => by simp only; omega, by omega⟩

theorem retire_all_ends (done : List Request) (h : w.Holds limit (done.length + n)) :
    Ends (done.foldlM (fun window _ => window.retire) w) (Holds limit n) fun _ => False := by
  induction done generalizing w with
  | nil =>
    rw [length_nil, Nat.zero_add] at h
    exact h
  | cons r done ih =>
    rw [length_cons, Nat.succ_add] at h
    rw [foldlM_cons]
    exact (retire_ends h).bind fun w' hw' => ih hw'

end OutstandingReqWindow

/-- The variables of the loop; `ended` is `end`. -/
structure Dramtrace (τ : Type) where
  trace : Trace.Stream
  memory : τ
  window : OutstandingReqWindow
  stall : Bool := false
  ended : Bool := false
  addr : Int := 0
  type : RequestType := .read

namespace Dramtrace

section

variable {τ : Type} (base : MemoryBase τ) (s : Dramtrace τ)

def fetch : Except DramtraceFailure (Dramtrace τ) :=
  if s.ended || s.stall then pure s
  else
    match Trace.getDramtraceRequest s.trace with
    | none => .error .malformedLine
    | some (none, trace) => pure { s with trace, ended := true }
    | some (some r, trace) => pure { s with trace, addr := r.1, type := r.2 }

def req : Request := { addr := s.addr, type := s.type, coreid := 0 }

/-- The window after `send`; a write is posted. -/
def enter (accepted : Bool) : Except DramtraceFailure OutstandingReqWindow :=
  if accepted && s.type == .read then s.window.insert else pure s.window

def offer : Except DramtraceFailure (Dramtrace τ) :=
  if s.ended then pure s
  else if s.window.isFull then pure { s with stall := true }
  else do
    let sent ← (base.send s.memory s.req).mapError .memory
    let window ← s.enter sent.1
    pure { s with memory := sent.2, window, stall := !sent.1 }

def tick : Except DramtraceFailure (Dramtrace τ) := do
  let ticked ← (base.tick s.memory).mapError .memory
  -- `read_complete`, for every callback
  let window ← ticked.1.foldlM (fun window _ => window.retire) s.window
  pure { s with memory := ticked.2, window }

def round : Except DramtraceFailure (Dramtrace τ) := do
  let s ← s.fetch
  let s ← s.offer base
  s.tick base

def finished : Bool := s.ended && base.pendingRequests s.memory == 0

/-- At most `n` rounds. -/
def rounds : Nat → Dramtrace τ → Except DramtraceFailure (Dramtrace τ)
  | 0, s => pure s
  | n + 1, s => if s.finished base then pure s else s.round base >>= rounds n

/-- `run_dramtrace` with the option `inflight_limit`, up to `n` rounds. -/
def runDramtrace (memory : τ) (limit : Int) (file : List Char) (n : Nat) :
    Except DramtraceFailure (Dramtrace τ) :=
  rounds base n { trace := .open file, memory, window := { inflightLimit := limit } }

end

/-! ## What a round does -/

/-- A memory of which only the interface is known, with any `pending_requests`. -/
def counting (o : Oracle) (pending : FreeMemory → Nat) : MemoryBase FreeMemory :=
  { o.base with pendingRequests := pending }

/-- The requests that were taken. -/
def taken (s : Dramtrace (Logged FreeMemory)) : List (Int × RequestType) :=
  s.memory.accepted.map fun req => (req.addr, req.type)

/-- The window counts the reads in flight. -/
def Counted (limit : Int) (s : Dramtrace (Logged FreeMemory)) : Prop :=
  s.window.Holds limit s.memory.memory.inFlight.length

/-- The requests that were taken, those that wait, and those that are not read yet make
    up the trace. -/
def OnTrace (rs : List (Int × RequestType)) (s : Dramtrace (Logged FreeMemory))
    (waits : List (Int × RequestType)) : Prop :=
  if s.ended then rs = s.taken ∧ s.stall = false
  else ∃ rest, rs = s.taken ++ waits ++ rest ∧
    Trace.Reads Trace.getDramtraceRequest s.trace rest

def Inv (limit : Int) (rs : List (Int × RequestType)) (s : Dramtrace (Logged FreeMemory)) : Prop :=
  Counted limit s ∧ OnTrace rs s (if s.stall then [(s.addr, s.type)] else [])

variable {o : Oracle} {pending : FreeMemory → Nat} {limit : Int} {rs : List (Int × RequestType)}
  {s : Dramtrace (Logged FreeMemory)}

theorem fetch_ends (h : Inv limit rs s) :
    Ends s.fetch (fun s' => Counted limit s' ∧ OnTrace rs s' [(s'.addr, s'.type)])
      fun _ => False := by
  obtain ⟨hcounted, htrace⟩ := h
  apply Ends.ite
  · intro hskip
    refine ⟨hcounted, ?_⟩
    cases hended : s.ended <;> simp_all [OnTrace]
  · intro hfetch
    simp only [Bool.or_eq_true, not_or, Bool.not_eq_true] at hfetch
    obtain ⟨hended, hstall⟩ := hfetch
    simp only [OnTrace, hended, hstall, Bool.false_eq_true, if_false, append_nil] at htrace
    obtain ⟨rest, hrs, hreads⟩ := htrace
    cases rest with
    | nil =>
      obtain ⟨trace, hcall⟩ := hreads
      rw [append_nil] at hrs
      rw [hcall]
      exact ⟨hcounted, hrs, hstall⟩
    | cons r rest =>
      obtain ⟨trace, hcall, hrest⟩ := hreads
      rw [hcall]
      refine ⟨hcounted, ?_⟩
      simp only [OnTrace, hended, Bool.false_eq_true, if_false]
      exact ⟨rest, hrs.trans (by simp [taken]), hrest⟩

theorem offer_ends (h : Counted limit s) (htrace : OnTrace rs s [(s.addr, s.type)]) :
    Ends (s.offer (counting o pending).logged) (Inv limit rs) fun _ => False := by
  apply Ends.ite
  · intro hended
    refine ⟨h, ?_⟩
    simpa [OnTrace, hended] using htrace
  · intro hended
    simp only [OnTrace, hended, if_false] at htrace
    obtain ⟨rest, hrs, hreads⟩ := htrace
    -- a request that is not taken waits
    have hwaits : ∀ m : FreeMemory, m.inFlight = s.memory.memory.inFlight →
        Inv limit rs { s with memory := ⟨m, s.memory.accepted⟩, stall := true } := by
      intro m hm
      refine ⟨by rw [Counted, hm]; exact h, ?_⟩
      simp only [OnTrace, hended, if_false, if_true]
      exact ⟨rest, hrs, hreads⟩
    apply Ends.ite
    · exact fun _ => hwaits _ rfl
    · intro hfull
      obtain ⟨accepted, m, hsend, hm⟩ : ∃ accepted m,
          (counting o pending).logged.send s.memory s.req = .ok (accepted,
              ⟨m, if accepted then s.memory.accepted ++ [s.req] else s.memory.accepted⟩) ∧
          m.inFlight = if accepted && decide (s.type = .read) then
            s.memory.memory.inFlight ++ [s.req] else s.memory.memory.inFlight :=
        ⟨_, _, rfl, rfl⟩
      rw [hsend]
      cases accepted with
      | false => exact hwaits m hm
      | true =>
        -- a read that is taken enters the window, and is in flight
        have hwindow : Ends (s.enter true)
            (OutstandingReqWindow.Holds limit m.inFlight.length) fun _ => False := by
          rw [hm, enter]
          by_cases hread : s.type = .read
          · simpa [hread] using h.insert_ends (by simpa using hfull)
          · simp only [hread, decide_false, Bool.and_false, Bool.false_eq_true, if_false,
              beq_iff_eq, Bool.and_eq_true, and_false]
            exact h
        apply hwindow.bind
        intro w hw
        refine ⟨hw, ?_⟩
        simp only [OnTrace, hended, if_false, Bool.not_true, Bool.false_eq_true, append_nil]
        exact ⟨rest, hrs.trans (by simp [taken, req]), hreads⟩

theorem tick_ends (h : Inv limit rs s) :
    Ends (s.tick (counting o pending).logged) (Inv limit rs) fun _ => False := by
  obtain ⟨hwindow, htrace⟩ := h
  obtain ⟨done, m, htick, hperm⟩ : ∃ done m, (counting o pending).logged.tick s.memory =
      .ok (done, ⟨m, s.memory.accepted⟩) ∧ (done ++ m.inFlight).Perm s.memory.memory.inFlight :=
    ⟨_, _, rfl, takeReads_perm _ _⟩
  rw [Counted, ← hperm.length_eq, length_append] at hwindow
  rw [tick, htick]
  exact (OutstandingReqWindow.retire_all_ends done hwindow).bind fun w hw => ⟨hw, htrace⟩

theorem rounds_ends (n : Nat) (h : Inv limit rs s) :
    Ends (rounds (counting o pending).logged n s) (Inv limit rs) fun _ => False := by
  induction n generalizing s with
  | zero => exact h
  | succ n ih =>
    apply Ends.ite
    · exact fun _ => h
    · intro _
      have hround : Ends (s.round (counting o pending).logged) (Inv limit rs) fun _ => False :=
        (fetch_ends h).bind fun s₁ hs₁ => (offer_ends hs₁.1 hs₁.2).bind fun s₂ hs₂ => tick_ends hs₂
      exact hround.bind fun s' hs' => ih hs'

/-- Whatever the memory takes and returns, and when: no assertion of the window fails,
    the requests of the trace are taken in their order, none left out and none twice,
    and with a limit no more reads are in flight than it allows.  When the loop is left
    the whole trace was taken, and if the memory has no pending requests only when every
    read was returned, every read has come back. -/
theorem runDramtrace_in_order (o : Oracle) (pending : FreeMemory → Nat) (limit : Int)
    {file : List Char} {rs : List (Int × RequestType)}
    (hreads : Trace.Reads Trace.getDramtraceRequest (.open file) rs) (n : Nat) :
    ∃ s, runDramtrace (counting o pending).logged ⟨{}, []⟩ limit file n = .ok s ∧ s.taken <+: rs ∧
      (0 ≤ limit → s.memory.memory.inFlight.length ≤ limit) ∧
      (s.finished (counting o pending).logged = true → s.taken = rs ∧
        ((∀ m, pending m = 0 → m.inFlight = []) → s.memory.memory.inFlight = [])) := by
  have hnew : Inv limit rs
      { trace := .open file, memory := ⟨{}, []⟩, window := { inflightLimit := limit } } :=
    ⟨⟨rfl, fun _ => rfl, fun hpos => hpos⟩, rs, rfl, hreads⟩
  obtain ⟨s, hrun, hwindow, htrace⟩ := (rounds_ends (o := o) n hnew).exists_ok
  refine ⟨s, hrun, ?_, hwindow.2.2, fun hfinished => ?_⟩
  · unfold OnTrace at htrace
    split at htrace
    · exact htrace.1 ▸ prefix_refl _
    · obtain ⟨rest, hrs, -⟩ := htrace
      rw [append_assoc] at hrs
      exact ⟨_, hrs.symm⟩
  · obtain ⟨hended, hpending⟩ := Bool.and_eq_true_iff.mp hfinished
    rw [OnTrace, if_pos hended] at htrace
    exact ⟨htrace.1.symm, fun hall => hall _ (beq_iff_eq.mp hpending)⟩

/-- A memory that refuses the first request and returns reads in two of its calls. -/
def slowStart : Oracle where
  accepts n _ := decide (n ≠ 0)
  translates _ addr _ := addr
  returns n := if n ∈ [5, 9] then [0] else []

/-- A read that is refused first, a write, and a read. -/
theorem runDramtrace_three : Trace.Reads Trace.getDramtraceRequest (.open "40\n80 W\nC0\n".toList)
      [(64, .read), (128, .write), (192, .read)] ∧
    ∃ s, runDramtrace (counting slowStart fun m => m.inFlight.length).logged ⟨{}, []⟩ 1
        "40\n80 W\nC0\n".toList 9 = .ok s ∧
      s.finished (counting slowStart fun m => m.inFlight.length).logged = true ∧
      s.taken = [(64, .read), (128, .write), (192, .read)] ∧ s.memory.memory.inFlight = [] := by
  have hparse : Forall₂ (fun line r => Trace.dramtraceOf line = some r)
      ["40".toList, "80 W".toList, "C0".toList] [(64, .read), (128, .write), (192, .read)] :=
    .cons (by decide) (.cons (by decide) (.cons (by decide) .nil))
  have hreads : Trace.Reads Trace.getDramtraceRequest (.open "40\n80 W\nC0\n".toList)
      [(64, .read), (128, .write), (192, .read)] :=
    (Trace.reads_iff true hparse (by decide)).mpr (.inl rfl)
  obtain ⟨s, hrun, -, -, hend⟩ :=
    runDramtrace_in_order slowStart (fun m => m.inFlight.length) 1 hreads 9
  have heval : (runDramtrace (counting slowStart fun m => m.inFlight.length).logged ⟨{}, []⟩ 1
      "40\n80 W\nC0\n".toList 9).toOption.map
        (·.finished (counting slowStart fun m => m.inFlight.length).logged) = some true := by
    decide +kernel
  obtain ⟨s', hrun', hfinished⟩ := exists_ok_of_map heval
  obtain rfl : s' = s := Except.ok.inj (hrun'.symm.trans hrun)
  obtain ⟨htaken, hback⟩ := hend hfinished
  exact ⟨hreads, s', hrun, hfinished, htaken, hback fun m hm => eq_nil_of_length_eq_zero hm⟩

end Dramtrace

end Ramulator
