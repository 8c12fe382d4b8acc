/-
  Ramulator.Processor.Execution

  An out-of-order core executes its queue.

  A core is run alone: it ticks, `receive` is called on it with any request,
  and the memory below it is any memory, which may change between the ticks
  (`CoreRun`).  Beside the core the run keeps what the core did (`CoreEvent`):
  the bubbles it put into its window and the requests that were accepted, in
  order.

  What a core does is a prefix of what its queue says (`QueueEntry.trace`): for
  each entry its bubbles and then its request.  The invariant (`Follows`) says
  that what was done and what is pending make up the queue.
-/

import Ramulator.Logged

namespace Ramulator

open Outcome List

variable {τ : Type} {bubbleCnt : Int} {type : RequestType} {window : Window} {core' : Core}
  {n : Nat}

/-- What a core does: it inserts a bubble, or a request of it is accepted. -/
inductive CoreEvent where
  | bubble
  | sent (req : Request)
deriving DecidableEq

def CoreEvent.request : CoreEvent → Option Request
  | .bubble => none
  | .sent req => some req

/-! ## What the queue says -/

namespace QueueEntry

/-- The types the trace files have. -/
def Sendable (e : QueueEntry) : Prop :=
  e.reqType = .read ∨ e.reqType = .write ∨ e.reqType = .instruction

instance (e : QueueEntry) : Decidable e.Sendable :=
  inferInstanceAs (Decidable (_ ∨ _ ∨ _))

/-- The request of an entry.  An instruction is fetched by a marked read. -/
def request (id : Int) (e : QueueEntry) : Request where
  addr := e.reqAddr
  type := if e.reqType = .instruction then .read else e.reqType
  callback := .processorReceive
  coreid := id
  instructionRequest := e.reqType = .instruction

def trace (id : Int) (e : QueueEntry) : List CoreEvent :=
  replicate e.bubbleCnt.toNat .bubble ++ [.sent (e.request id)]

def insts (e : QueueEntry) : Nat := if e.reqType = .instruction then 0 else 1

theorem filterMap_request_trace (id : Int) (es : List QueueEntry) :
    (es.flatMap (trace id)).filterMap CoreEvent.request = es.map (request id) := by
  induction es with
  | nil => rfl
  | cons e es ih =>
    rw [flatMap_cons, filterMap_append, ih, map_cons, trace,
      filterMap_append, filterMap_replicate_of_none rfl]
    rfl

end QueueEntry

/-- What a split trace says; a line that is no record is a request to -1 of the type before. -/
def splitEntries (bubbleCnt : Int) (type : RequestType) : List ZsimLine → List QueueEntry
  | [] => []
  | .empty :: _ => []
  | .malformed :: lines => ⟨bubbleCnt, -1, type⟩ :: splitEntries 0 type lines
  | .record bubbleCnt addr type' :: lines =>
    ⟨bubbleCnt, addr, type'.getD type⟩ :: splitEntries 0 (type'.getD type) lines

theorem splitEntries_trace (hzero : bubbleCnt.toNat = 0) (type : RequestType)
    (lines : List ZsimLine) (id : Int) :
    (splitEntries bubbleCnt type lines).flatMap (QueueEntry.trace id) =
      (splitEntries 0 type lines).flatMap (QueueEntry.trace id) := by
  unfold splitEntries
  split
  · rfl
  · rfl
  · simp [QueueEntry.trace, QueueEntry.request, hzero]
  · rfl

theorem splitEntries_sendable {lines : List ZsimLine}
    (h : ∀ e ∈ splitEntries 0 type lines, e.Sendable) :
    ∀ e ∈ splitEntries bubbleCnt type lines, e.Sendable := by
  unfold splitEntries at h ⊢
  split
  · exact h
  · exact h
  · obtain ⟨hfirst, hrest⟩ := forall_mem_cons.mp h
    exact forall_mem_cons.mpr ⟨hfirst, hrest⟩
  · exact h

namespace Core

variable {cfg : ProcessorConfig} {base : MemoryBase τ} {core : Core} {u : Uncore (Logged τ)}
  {E : Abort → Prop}

def current (core : Core) : QueueEntry := ⟨core.bubbleCnt, core.reqAddr, core.reqType⟩

def upcoming (core : Core) (bubbleCnt : Int) : List QueueEntry :=
  if core.splitTrace then splitEntries bubbleCnt core.reqType core.tracePerCore
  else core.rqstQueue

/-- The entries that are not done, the one the core works on first. -/
def pending (core : Core) : List QueueEntry :=
  if core.moreReqs then core.current :: core.upcoming 0 else []

theorem upcoming_whole (hwhole : core.splitTrace = false) (bubbleCnt : Int) :
    core.upcoming bubbleCnt = core.rqstQueue := by
  rw [upcoming, hwhole, if_neg Bool.false_ne_true]

/-- Bubbles that are used up do not matter for what comes next. -/
theorem upcoming_trace {id : Int} (hzero : bubbleCnt.toNat = 0) :
    (core.upcoming bubbleCnt).flatMap (QueueEntry.trace id) =
      (core.upcoming 0).flatMap (QueueEntry.trace id) := by
  unfold upcoming
  split
  · exact splitEntries_trace hzero _ _ id
  · rfl

theorem upcoming_sendable (h : ∀ e ∈ core.upcoming 0, e.Sendable) :
    ∀ e ∈ core.upcoming bubbleCnt, e.Sendable := by
  unfold upcoming at h ⊢
  split
  · next hsplit =>
    rw [if_pos hsplit] at h
    exact splitEntries_sendable h
  · next hwhole =>
    rw [if_neg hwhole] at h
    exact h

theorem pending_popQueue (hwhole : core.splitTrace = false) :
    core.popQueue.pending = core.rqstQueue := by
  unfold popQueue
  split
  · next hnil => rw [hnil]; rfl
  · next hcons =>
    rw [hcons, pending, if_pos rfl, upcoming, hwhole]
    rfl

theorem pending_getZsimRequest (hsplit : core.splitTrace = true) :
    core.getZsimRequest.pending = core.upcoming core.bubbleCnt := by
  rw [upcoming, hsplit, if_pos rfl]
  unfold getZsimRequest
  split
  · next hlines => rw [hlines]; rfl
  · next hlines => rw [hlines]; rfl
  · next hlines =>
    rw [hlines, pending, if_pos rfl, upcoming, hsplit, if_pos rfl]
    rfl
  · next hlines =>
    rw [hlines, pending, if_pos rfl, upcoming, hsplit, if_pos rfl]
    rfl

theorem pending_recordEnd (core : Core) : core.recordEnd.pending = core.pending := by
  unfold recordEnd
  split <;> rfl

/-! ## A tick with what it does -/

/-- `tick_outOrder` with the bubbles it puts into the window and the requests it has accepted. -/
def tickOutOrderTraced (cfg : ProcessorConfig) (base : MemoryBase τ) (core : Core)
    (u : Uncore (Logged τ)) : Except Abort (List CoreEvent × Core × Uncore (Logged τ)) := do
  let (retired, window) ← core.window.retire
  let core := { core with window, retired := core.retired + retired }
  if core.isIdle then pure ([], core, u)
  else do
    let (slots, core') ← core.insertBubbles Window.ipc
    let bubbles := replicate (core'.window.load - core.window.load) .bubble
    match slots with
    | none => pure (bubbles, core', u)
    | some slots => do
        let (core', u') ← core'.requestOutOrder cfg base.logged u slots
        pure (bubbles ++ (u'.memory.accepted.drop u.memory.accepted.length).map .sent, core', u')

def tickTraced (cfg : ProcessorConfig) (base : MemoryBase τ) (core : Core)
    (u : Uncore (Logged τ)) : Except Abort (List CoreEvent × Core × Uncore (Logged τ)) :=
  match cfg.cpuType with
  | .outOrder => tickOutOrderTraced cfg base { core with clk := core.clk + 1 } u
  | _ => do
      let out ← core.tick cfg base.logged u
      pure ([], out)

theorem tickTraced_tick :
    Sim (fun a b => a.2 = b) (core.tickTraced cfg base u) (core.tick cfg base.logged u) := by
  unfold tickTraced
  split
  · next hout =>
    unfold tick
    rw [hout]
    apply Sim.bind_same
    intro out
    apply Sim.ite
    · intro _
      exact Sim.pure rfl
    · intro _
      apply Sim.bind_same
      rintro ⟨slots, core'⟩
      cases slots with
      | none => exact Sim.pure rfl
      | some slots => exact Sim.map_left _ (fun _ => rfl)
  · exact Sim.map_left _ (fun _ => rfl)

/-! ## What the parts of a tick do -/

theorem countInst_eq (core : Core) :
    ∃ limit, core.countInst = { core with cpuInst := core.cpuInst + 1, reachedLimit := limit } := by
  unfold countInst
  dsimp only
  split
  · exact ⟨true, rfl⟩
  · exact ⟨core.reachedLimit, rfl⟩

structure Bubbled (core : Core) (n : Nat) (core' : Core) : Prop where
  eq : ∃ window limit idle, core' = { core with
    window, bubbleCnt := core.bubbleCnt - n, cpuInst := core.cpuInst + n
    reachedLimit := limit, idleCycles := idle }
  window : core'.window.WF
  load : core'.window.load = core.window.load + n
  le : n ≤ core.bubbleCnt.toNat

theorem Bubbled.none (h : core.window.WF) : Bubbled core 0 core where
  eq := ⟨core.window, core.reachedLimit, core.idleCycles, by simp⟩
  window := h
  load := rfl
  le := Nat.zero_le _

theorem Bubbled.cons (hpos : 0 < core.bubbleCnt) (hload : window.load = core.window.load + 1)
    (h : Bubbled (countInst { core with window, bubbleCnt := core.bubbleCnt - 1 }) n core') :
    Bubbled core (n + 1) core' := by
  obtain ⟨⟨window', limit, idle, heq⟩, hwf, hload', hle⟩ := h
  obtain ⟨limit', hcount⟩ := countInst_eq { core with window, bubbleCnt := core.bubbleCnt - 1 }
  rw [hcount] at heq hload' hle
  refine ⟨⟨window', limit, idle, ?_⟩, hwf, ?_, ?_⟩
  · rw [heq]
    dsimp only
    congr 1
    · push_cast
      omega
    · push_cast
      omega
  · dsimp only at hload'
    omega
  · dsimp only at hle
    omega

/-- The loop over the bubbles goes on to the request only after all of them. -/
theorem insertBubbles_spec (slots : Nat) (h : core.window.WF) : Ends (core.insertBubbles slots)
      (fun out => ∃ n, Bubbled core n out.2 ∧ (out.1 ≠ none → n = core.bubbleCnt.toNat))
      (fun _ => False) := by
  induction slots generalizing core with
  | zero =>
    unfold insertBubbles
    apply Ends.ite
    · intro _
      exact ⟨0, ⟨⟨core.window, core.reachedLimit, core.idleCycles + 1, by simp⟩, h, rfl,
        Nat.zero_le _⟩, fun hsome => absurd rfl hsome⟩
    · intro hpos
      exact ⟨0, .none h, fun _ => by omega⟩
  | succ slots ih =>
    unfold insertBubbles
    apply Ends.ite
    · intro hpos
      apply Ends.ite
      · intro _
        exact ⟨0, .none h, fun hsome => absurd rfl hsome⟩
      · intro hroom
        apply Ends.bind (Window.insert_ends h (h.load_lt (by simpa using hroom)) true (-1))
        rintro window ⟨hwf, hentries⟩
        have hload : window.load = core.window.load + 1 := by
          have := congrArg List.length hentries
          simpa [Window.entries] using this
        obtain ⟨limit, hcount⟩ :=
          countInst_eq { core with window, bubbleCnt := core.bubbleCnt - 1 }
        apply (ih (by rw [hcount]; exact hwf)).weaken
        rintro ⟨left, core'⟩ ⟨n, hn, hall⟩
        refine ⟨n + 1, hn.cons hpos hload, fun hsome => ?_⟩
        have := hall hsome
        rw [hcount] at this
        dsimp only at this
        omega
    · intro hpos
      exact ⟨0, .none h, fun _ => by omega⟩

theorem nextRequest_pending {u : Uncore τ}
    (hpages : core.splitTrace = true → ∀ m addr id, base.pageAllocator m addr id = .ok (addr, m)) :
    Ends (core.nextRequest base u) (fun out => core.MovedOn out.1 ∧ out.2 = u ∧
      out.1.pending = core.upcoming core.bubbleCnt) E := by
  unfold nextRequest
  apply Ends.ite
  · intro hsplit
    unfold nextSplit
    dsimp only
    rw [hpages hsplit]
    exact ⟨core.getZsimRequest_movedOn, rfl, pending_getZsimRequest hsplit⟩
  · intro hwhole
    have hwhole : core.splitTrace = false := by simpa using hwhole
    refine ⟨core.popQueue_movedOn, rfl, ?_⟩
    rw [upcoming_whole hwhole]
    exact pending_popQueue hwhole

theorem nextRequest_whole {u : Uncore τ} (hwhole : core.splitTrace = false) :
    Ends (core.nextRequest base u) (fun out => out = (core.popQueue, u)) E := by
  rw [nextRequest, hwhole]
  exact Ends.pure rfl

/-- The core and what is around it after the attempt to send the current entry. -/
inductive Issued (core : Core) (u : Uncore (Logged τ)) :
    Bool × Core × Uncore (Logged τ) → Prop
  | stalled (idle : Int) (memory : τ) :
      Issued core u (false, { core with idleCycles := idle },
        { u with memory := { u.memory with memory } })
  | sent {window : Window} (memory : τ) (hwf : window.WF) :
      Issued core u (true, { core with window, cpuInst := core.cpuInst + core.current.insts },
        { u with memory := ⟨memory, u.memory.accepted ++ [core.current.request core.id]⟩ })

inductive Answered (base : MemoryBase τ) (core : Core) (u : Uncore (Logged τ)) (req : Request) :
    Bool × Core × Uncore (Logged τ) → Prop
  | refused (memory : τ) (hsend : base.send u.memory.memory req = .ok (false, memory)) :
      Answered base core u req (false, core, { u with memory := { u.memory with memory } })
  | accepted (memory : τ) :
      Answered base core u req (true, core,
        { u with memory := ⟨memory, u.memory.accepted ++ [req]⟩ })

theorem send_logged (hcore : cfg.coreCaches = false) (hl3 : cfg.l3Cache = false)
    (hbase : ∀ m req, Ends (base.send m req) (fun _ => True) E) (req : Request) :
    Ends (core.send cfg base.logged u req) (Answered base core u req) E := by
  unfold send
  rw [if_neg (by simp [hcore]), if_neg (by simp [hl3])]
  -- the memory answers first, then its log is written
  apply Ends.bind (Q := fun out =>
    Answered base core u req (out.1, core, { u with memory := out.2 }))
  · apply Ends.bind (hbase u.memory.memory req).remember
    rintro ⟨accepted, memory⟩ ⟨hsend, -⟩
    cases accepted with
    | false => exact .refused memory hsend
    | true => exact .accepted memory
  · intro out hout
    exact hout

theorem request_current (htype : core.reqType = type) (hne : type ≠ .instruction) :
    core.current.request core.id = core.request type := by
  simp [request, QueueEntry.request, current, htype, hne]

theorem instructionRequest_current (htype : core.reqType = .instruction) :
    core.current.request core.id = core.instructionRequest := by
  simp [instructionRequest, request, QueueEntry.request, current, htype]

theorem insts_current (htype : core.reqType = type) (hne : type ≠ .instruction) :
    core.current.insts = 1 :=
  if_neg (by rw [current, htype]; exact hne)

section

variable (hsend : ∀ req, Ends (core.send cfg base.logged u req) (Answered base core u req) E)
include hsend

theorem issueRead_spec (h : core.window.WF) (hroom : core.window.isFull = false)
    (htype : core.reqType = .read) : Ends (core.issueRead cfg base.logged u) (Issued core u) E := by
  apply Ends.bind (hsend (core.request .read))
  intro out hout
  cases hout with
  | refused memory _ => exact .stalled core.idleCycles memory
  | accepted memory =>
    apply Ends.bind ((Window.insert_ends h (h.load_lt hroom) false core.reqAddr).weaken_abort
      (fun _ hfalse => hfalse.elim))
    rintro window ⟨hwf, -⟩
    have hsent : Issued core u _ := .sent memory hwf
    rw [request_current htype (by decide), insts_current htype (by decide)] at hsent
    exact hsent

theorem issueWrite_spec (h : core.window.WF) (htype : core.reqType = .write) :
    Ends (core.issueWrite cfg base.logged u) (Issued core u) E := by
  apply Ends.bind (hsend (core.request .write))
  intro out hout
  cases hout with
  | refused memory _ => exact .stalled core.idleCycles memory
  | accepted memory =>
    have hsent : Issued core u _ := .sent memory h
    rw [request_current htype (by decide), insts_current htype (by decide)] at hsent
    exact hsent

theorem issueOutOrder_spec (h : core.window.WF) (hsendable : core.current.Sendable) (slots : Nat) :
    Ends (core.issueOutOrder cfg base.logged u slots) (Issued core u) E := by
  have hstall (idle : Int) : Issued core u (false, { core with idleCycles := idle }, u) :=
    .stalled idle u.memory.memory
  unfold issueOutOrder
  split
  · next htype =>
    apply Ends.ite
    · intro _
      exact hstall (core.idleCycles + 1)
    intro _
    apply Ends.ite
    · intro _
      exact hstall core.idleCycles
    intro hroom
    exact issueRead_spec hsend h (by simpa using hroom) htype
  · next htype => exact issueWrite_spec hsend h htype
  · next htype =>
    apply Ends.ite
    · intro _
      exact hstall (core.idleCycles + 1)
    intro _
    apply (hsend core.instructionRequest).weaken
    intro out hout
    cases hout with
    | refused memory _ => exact .stalled core.idleCycles memory
    | accepted memory =>
      have hsent : Issued core u _ := .sent memory h
      rw [instructionRequest_current htype,
        show core.current.insts = 0 from if_pos htype, Int.natCast_zero, Int.add_zero]
        at hsent
      exact hsent
  · next hread hwrite hinst =>
    -- no entry has another type
    rcases hsendable with htype | htype | htype
    · exact absurd htype hread
    · exact absurd htype hwrite
    · exact absurd htype hinst

end

end Core

/-! ## Runs of a core -/

theorem MemoryBase.logged_pageAllocator (base : MemoryBase τ)
    (hpages : ∀ m addr id, base.pageAllocator m addr id = .ok (addr, m)) (l : Logged τ)
    (addr id : Int) : base.logged.pageAllocator l addr id = .ok (addr, l) := by
  show (base.pageAllocator l.memory addr id >>= _) = _
  rw [hpages]
  rfl

/-- A core, what is around it, and what it did, oldest first. -/
structure CoreRun (τ : Type) where
  core : Core
  uncore : Uncore (Logged τ)
  trace : List CoreEvent := []

inductive CoreOp (τ : Type) where
  | tick
  | receive (req : Request)
  /-- The memory goes on by itself. -/
  | memory (m : τ)

namespace CoreRun

variable {cfg : ProcessorConfig} {base : MemoryBase τ} {E : Abort → Prop} {id : Int}
  {split : Bool} {q : List QueueEntry} {st : CoreRun τ}

def accepted (st : CoreRun τ) : List Request := st.uncore.memory.accepted

def start (base : MemoryBase τ) (id : Int) (w : Workload) (memory : τ) :
    Except Abort (CoreRun τ) := do
  let (core, uncore) ← (Processor.newCore id w).nextRequest base.logged { memory := { memory } }
  pure { core, uncore }

def step (cfg : ProcessorConfig) (base : MemoryBase τ) (st : CoreRun τ) :
    CoreOp τ → Except Abort (CoreRun τ)
  | .tick => do
      let (events, core, uncore) ← st.core.tickTraced cfg base st.uncore
      pure { core, uncore, trace := st.trace ++ events }
  | .receive req => pure { st with core := st.core.receive cfg req }
  | .memory m =>
    pure { st with uncore := { st.uncore with memory := { st.uncore.memory with memory := m } } }

def run (cfg : ProcessorConfig) (base : MemoryBase τ) (id : Int) (w : Workload) (memory : τ)
    (ops : List (CoreOp τ)) : Except Abort (CoreRun τ) := do
  let st ← start base id w memory
  ops.foldlM (step cfg base) st

/-- What was done and what is pending is what the queue says, or the split trace. -/
structure Follows (split : Bool) (id : Int) (q : List QueueEntry) (st : CoreRun τ) : Prop where
  id_eq : st.core.id = id
  window : st.core.window.WF
  mode : st.core.splitTrace = split
  limit : st.core.expectedLimitInsts = 0
  unlocked : st.core.lockCore = false
  sendable : ∀ e ∈ st.core.pending, e.Sendable
  trace : st.trace ++ st.core.pending.flatMap (QueueEntry.trace id) =
    q.flatMap (QueueEntry.trace id)
  accepted : st.trace.filterMap CoreEvent.request = st.accepted
  cpuInst : st.core.cpuInst =
    st.trace.count .bubble + st.accepted.countP (fun req => !req.instructionRequest)

section

variable (h : Follows split id q st)
include h

theorem Follows.still (hwf : window.WF) (clk retired idle last cycles : Int) (memory : τ) :
    Follows split id q { st with
      core := { st.core with
        window, clk, retired, idleCycles := idle, last, memoryAccessCycles := cycles }
      uncore := { st.uncore with memory := { st.uncore.memory with memory } } } :=
  ⟨h.id_eq, hwf, h.mode, h.limit, h.unlocked, h.sendable, h.trace, h.accepted, h.cpuInst⟩

theorem Follows.bubbles (hmore : st.core.moreReqs = true) (hn : st.core.Bubbled n core') :
    Follows split id q { st with core := core', trace := st.trace ++ replicate n .bubble } := by
  obtain ⟨⟨window, limit, idle, rfl⟩, hwf, -, hle⟩ := hn
  refine ⟨h.id_eq, hwf, h.mode, h.limit, h.unlocked, ?_, ?_, ?_, ?_⟩
  · intro e he
    have hpending := h.sendable
    simp only [Core.pending, hmore, if_true, mem_cons] at he hpending
    rcases he with rfl | he
    · exact hpending st.core.current (Or.inl rfl)
    · exact hpending e (Or.inr he)
  · rw [← h.trace, append_assoc]
    have hsplit : replicate st.core.bubbleCnt.toNat CoreEvent.bubble =
        replicate n .bubble ++ replicate (st.core.bubbleCnt - n).toNat .bubble := by
      rw [replicate_append_replicate]
      congr 1
      omega
    simp only [Core.pending, hmore, if_true, flatMap_cons, QueueEntry.trace, Core.current,
      hsplit, append_assoc]
    rfl
  · show List.filterMap CoreEvent.request (st.trace ++ _) = st.accepted
    rw [filterMap_append, h.accepted, filterMap_replicate_of_none rfl, append_nil]
  · show st.core.cpuInst + n = _
    rw [h.cpuInst, count_append, count_replicate_self]
    push_cast
    exact Int.add_right_comm ..

/-- The request of the core was accepted, after all of its bubbles, and the core
    goes on to the next entry. -/
theorem Follows.sent (hmore : st.core.moreReqs = true) (hbubbles : st.core.bubbleCnt.toNat = 0)
    {memory : τ} (hwf : window.WF) (hmoved : Core.MovedOn
      { st.core with window, cpuInst := st.core.cpuInst + st.core.current.insts } core')
    (hpending : core'.pending = st.core.upcoming st.core.bubbleCnt) : Follows split id q {
      core := core'
      uncore := { st.uncore with memory :=
        ⟨memory, st.accepted ++ [st.core.current.request st.core.id]⟩ }
      trace := st.trace ++ [.sent (st.core.current.request st.core.id)] } := by
  have hold : st.core.pending = st.core.current :: st.core.upcoming 0 := if_pos hmore
  have hrest := h.trace
  have hsendable := h.sendable
  rw [hold] at hrest hsendable
  refine ⟨hmoved.id.trans h.id_eq, ?_, hmoved.splitTrace.trans h.mode,
    hmoved.limit.trans h.limit, hmoved.lockCore.trans h.unlocked, ?_, ?_, ?_, ?_⟩
  · rw [hmoved.window]
    exact hwf
  · rw [hpending]
    exact Core.upcoming_sendable (forall_mem_cons.mp hsendable).2
  · rw [hpending, Core.upcoming_trace hbubbles, ← hrest, flatMap_cons, QueueEntry.trace, ← h.id_eq]
    simp only [Core.current, hbubbles, replicate_zero, nil_append, append_assoc]
  · rw [filterMap_append, h.accepted]
    rfl
  · rw [hmoved.cpuInst]
    show st.core.cpuInst + (st.core.current.insts : Int) = _
    rw [h.cpuInst]
    show _ = ((st.trace ++ _).count .bubble : Int) + ((st.accepted ++ _).countP _ : Nat)
    rw [count_append, countP_append]
    by_cases hinst : st.core.reqType = .instruction
    · simp [QueueEntry.insts, QueueEntry.request, Core.current, hinst]
    · simp [QueueEntry.insts, QueueEntry.request, Core.current, hinst, Int.add_assoc]

end

section Run

variable (hout : cfg.cpuType = .outOrder) (hcore : cfg.coreCaches = false)
  (hl3 : cfg.l3Cache = false) (hbase : ∀ m req, Ends (base.send m req) (fun _ => True) E)
  (hpages : split = true → ∀ m addr id, base.pageAllocator m addr id = .ok (addr, m)) {w : Workload}

include hcore hl3 hbase hpages in
theorem Follows.request (h : Follows split id q st) (hmore : st.core.moreReqs = true)
    (hbubbles : st.core.bubbleCnt.toNat = 0) (slots : Nat) :
    Ends (st.core.requestOutOrder cfg base.logged st.uncore slots)
      (fun out => Follows split id q ⟨out.1, out.2,
        st.trace ++ (out.2.memory.accepted.drop st.accepted.length).map .sent⟩) E := by
  have hsendable : st.core.current.Sendable :=
    h.sendable _ (by rw [Core.pending, if_pos hmore]; exact mem_cons_self)
  apply Ends.bind
    (Core.issueOutOrder_spec (Core.send_logged hcore hl3 hbase) h.window hsendable slots)
  intro out hout
  cases hout with
  | stalled idle memory =>
    apply Ends.pure
    show Follows split id q ⟨_, _, st.trace ++ (st.accepted.drop st.accepted.length).map .sent⟩
    rw [drop_length, map_nil, append_nil]
    exact h.still h.window st.core.clk st.core.retired idle st.core.last
      st.core.memoryAccessCycles memory
  | @sent window memory hwf =>
    have hpages' : Core.splitTrace { st.core with
        window, cpuInst := st.core.cpuInst + st.core.current.insts } = true →
        ∀ m addr id, base.logged.pageAllocator m addr id = .ok (addr, m) := by
      intro hsplit
      exact base.logged_pageAllocator (hpages (h.mode.symm.trans hsplit))
    apply Ends.bind (Core.nextRequest_pending hpages')
    rintro ⟨core', u'⟩ ⟨hmoved, rfl, hpending⟩
    apply Ends.pure
    show Follows split id q
      ⟨_, _, st.trace ++ ((st.accepted ++ _).drop st.accepted.length).map .sent⟩
    rw [drop_left]
    exact h.sent hmore hbubbles hwf hmoved.recordEnd ((Core.pending_recordEnd core').trans hpending)

include hout hcore hl3 hbase hpages in
theorem Follows.tick (h : Follows split id q st) :
    Ends (st.step cfg base .tick) (Follows split id q) E := by
  apply Ends.bind (Q := fun out => Follows split id q ⟨out.2.1, out.2.2, st.trace ++ out.1⟩)
  · rw [Core.tickTraced, hout]
    apply Ends.bind ((Window.retire_ends h.window).weaken_abort (fun _ hfalse => hfalse.elim))
    rintro ⟨retired, window⟩ ⟨hwf, -⟩
    have h₁ := h.still hwf (st.core.clk + 1) (st.core.retired + retired) st.core.idleCycles
      st.core.last st.core.memoryAccessCycles st.uncore.memory.memory
    apply Ends.ite
    · intro _
      apply Ends.pure
      dsimp only
      rw [append_nil]
      exact h₁
    · intro hbusy
      have hmore : st.core.moreReqs = true := by
        have hlimit := h.limit
        simp only [Core.isIdle, hlimit, decide_true, Bool.true_and, Bool.or_eq_true,
          Bool.not_eq_true'] at hbusy
        cases hmore : st.core.moreReqs with
        | true => rfl
        | false => exact absurd (Or.inl hmore) hbusy
      apply Ends.bind ((Core.insertBubbles_spec Window.ipc h₁.window).weaken_abort
        (fun _ hfalse => hfalse.elim))
      rintro ⟨slots, core'⟩ ⟨n, hn, hall⟩
      have hload : core'.window.load - window.load = n := by
        have := hn.load
        dsimp only at this
        omega
      have h₂ := h₁.bubbles hmore hn
      cases slots with
      | none =>
        apply Ends.pure
        dsimp only
        rw [hload]
        exact h₂
      | some slots =>
        have hbubbles : core'.bubbleCnt.toNat = 0 := by
          obtain ⟨⟨_, _, _, rfl⟩, -, -, -⟩ := hn
          have := hall (fun hnone => by cases hnone)
          dsimp only at this ⊢
          omega
        have hmore' : core'.moreReqs = true := by
          obtain ⟨⟨_, _, _, rfl⟩, -, -, -⟩ := hn
          exact hmore
        apply Ends.bind (h₂.request hcore hl3 hbase hpages hmore' hbubbles slots)
        rintro ⟨core₃, u₃⟩ h₃
        apply Ends.pure
        dsimp only
        rw [hload, ← append_assoc]
        exact h₃
  · intro out hout
    exact hout

theorem Follows.receive (h : Follows split id q st) (req : Request) :
    Follows split id q { st with core := st.core.receive cfg req } := by
  have hwf := (Window.setReady_entries h.window req.addr (Core.blockMask cfg)).1
  unfold Core.receive
  dsimp only
  split
  · exact h.still hwf st.core.clk st.core.retired st.core.idleCycles _ _ st.uncore.memory.memory
  · exact h.still hwf st.core.clk st.core.retired st.core.idleCycles st.core.last
      st.core.memoryAccessCycles st.uncore.memory.memory

include hpages in
theorem follows_start (hmode : w.splitTrace = split) (hlimit : w.expectedLimitInsts = 0)
    (hsendable : ∀ e ∈ (Processor.newCore id w).upcoming w.bubbleCnt, e.Sendable) (memory : τ) :
    Ends (start base id w memory)
      (Follows split id ((Processor.newCore id w).upcoming w.bubbleCnt)) E := by
  have hpages' : (Processor.newCore id w).splitTrace = true →
      ∀ m addr id, base.logged.pageAllocator m addr id = .ok (addr, m) := by
    intro hsplit
    exact base.logged_pageAllocator (hpages (hmode.symm.trans hsplit))
  apply Ends.bind (Core.nextRequest_pending hpages')
  rintro ⟨core, u⟩ ⟨hmoved, rfl, hpending⟩
  apply Ends.pure
  dsimp only at hpending
  refine ⟨hmoved.id, ?_, hmoved.splitTrace.trans hmode, hmoved.limit.trans hlimit,
    hmoved.lockCore, ?_, ?_, rfl, ?_⟩
  · rw [hmoved.window]
    exact Window.WF.new
  · rw [hpending]
    exact hsendable
  · rw [hpending]
    rfl
  · rw [hmoved.cpuInst]
    rfl

include hout hcore hl3 hbase hpages in
theorem run_follows (hmode : w.splitTrace = split) (hlimit : w.expectedLimitInsts = 0)
    (hsendable : ∀ e ∈ (Processor.newCore id w).upcoming w.bubbleCnt, e.Sendable) (memory : τ)
    (ops : List (CoreOp τ)) : Ends (run cfg base id w memory ops)
      (Follows split id ((Processor.newCore id w).upcoming w.bubbleCnt)) E := by
  apply Ends.bind (follows_start hpages hmode hlimit hsendable memory)
  intro st hst
  apply Ends.foldlM ops hst
  intro st op _ h
  cases op with
  | tick => exact h.tick hout hcore hl3 hbase hpages
  | receive req => exact h.receive req
  | memory m =>
    exact h.still h.window st.core.clk st.core.retired st.core.idleCycles st.core.last
      st.core.memoryAccessCycles m

end Run

structure Executes (id : Int) (q : List QueueEntry) (st : CoreRun τ) : Prop where
  /-- The accepted requests are those of the queue, in order. -/
  accepted : st.accepted <+: q.map (QueueEntry.request id)
  /-- At the end they are all of them. -/
  finished : st.core.finished = true → st.accepted = q.map (QueueEntry.request id)
  /-- The bubbles of an entry come right before its request. -/
  trace : st.trace <+: q.flatMap (QueueEntry.trace id)
  sent : st.trace.filterMap CoreEvent.request = st.accepted
  cpuInst : st.core.cpuInst =
    st.trace.count .bubble + st.accepted.countP (fun req => !req.instructionRequest)

theorem Follows.trace_of_finished (h : Follows split id q st)
    (hfinished : st.core.finished = true) : st.trace = q.flatMap (QueueEntry.trace id) := by
  have hmore : st.core.moreReqs = false := by simpa [Core.finished] using hfinished
  have htrace := h.trace
  rw [Core.pending, hmore, if_neg Bool.false_ne_true, flatMap_nil, append_nil] at htrace
  exact htrace

theorem Follows.executes (h : Follows split id q st) : Executes id q st where
  accepted := by
    rw [← QueueEntry.filterMap_request_trace, ← h.trace, filterMap_append, h.accepted]
    exact prefix_append ..
  finished := by
    intro hfinished
    rw [← h.accepted, h.trace_of_finished hfinished, QueueEntry.filterMap_request_trace]
  trace := by
    rw [← h.trace]
    exact prefix_append ..
  sent := h.accepted
  cpuInst := h.cpuInst

/-- An out-of-order core executes its queue, whatever the memory accepts and
    whenever `receive` is called.  The run aborts only as a call of `send` may. -/
theorem run_executes_queue (hout : cfg.cpuType = .outOrder) (hcore : cfg.coreCaches = false)
    (hl3 : cfg.l3Cache = false) (hbase : ∀ m req, Ends (base.send m req) (fun _ => True) E)
    (w : Workload) (hwhole : w.splitTrace = false) (hlimit : w.expectedLimitInsts = 0)
    (hsendable : ∀ e ∈ w.rqstQueue, e.Sendable) (memory : τ) (ops : List (CoreOp τ)) :
    Ends (run cfg base id w memory ops) (fun st => Executes id w.rqstQueue st) E := by
  have hqueue : (Processor.newCore id w).upcoming w.bubbleCnt = w.rqstQueue :=
    Core.upcoming_whole hwhole w.bubbleCnt
  have hpages : false = true → ∀ m addr id, base.pageAllocator m addr id = .ok (addr, m) := by
    intro hsplit
    cases hsplit
  rw [← hqueue] at hsendable ⊢
  exact (run_follows hout hcore hl3 hbase hpages hwhole hlimit hsendable memory ops).weaken
    (fun _ h => h.executes)

def mixedQueue : List QueueEntry := [⟨5, 64, .read⟩, ⟨0, 128, .instruction⟩, ⟨1, 64, .write⟩]

/-- The read takes two ticks for its bubbles and one more because it is refused. -/
theorem run_executes_queue_mixed :
    ∃ st, run {} MemoryBase.scripted 0 { rqstQueue := mixedQueue } [false, true, false]
        [.tick, .tick, .tick, .receive { addr := 64, type := .read }, .tick, .tick, .tick] =
          .ok st ∧ st.accepted.length = 3 ∧ st.core.finished = true ∧ Executes 0 mixedQueue st := by
  obtain ⟨st, hrun, hlength, hfinished⟩ : ∃ st, run {} MemoryBase.scripted 0
      { rqstQueue := mixedQueue } [false, true, false]
      [.tick, .tick, .tick, .receive { addr := 64, type := .read }, .tick, .tick, .tick] =
        .ok st ∧ st.accepted.length = 3 ∧ st.core.finished = true := by
    have hmap : (run {} MemoryBase.scripted 0 { rqstQueue := mixedQueue } [false, true, false]
        [.tick, .tick, .tick, .receive { addr := 64, type := .read }, .tick, .tick,
          .tick]).toOption.map (fun st => (st.accepted.length, st.core.finished)) =
        some (3, true) := by decide +kernel
    obtain ⟨st, hrun, heq⟩ := exists_ok_of_map hmap
    exact ⟨st, hrun, congrArg Prod.fst heq, congrArg Prod.snd heq⟩
  refine ⟨st, hrun, hlength, hfinished, ?_⟩
  exact (run_executes_queue rfl rfl rfl MemoryBase.scripted_ends { rqstQueue := mixedQueue } rfl
    rfl (by decide) [false, true, false] _).result hrun

end CoreRun

end Ramulator
