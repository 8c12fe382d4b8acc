/-
  Ramulator.Processor.InOrder

  What an in-order core sends, and what it knows about its requests.

  The core is run on any memory and its accepted reads, instruction fetches
  among them, are answered in any order (`InOrderRun`).  Two things go wrong.

    * The first of the two branches of `tick_inOrder` for a read takes every
      read and sends nothing.  What is accepted by the end of the queue are its
      other entries (`Skips`).

    * `receive` neither takes the answered request off `inFlightMemoryAccess`
      nor unlocks the core.  So both agree with the requests on their way only
      until the first answer (`run_accounted_iff`), and after an instruction fetch the
      core stands still.

  So the queue is executed exactly if it has no read, and no fetch before its last
  entry (`run_executes_queue_iff`).
-/

import Ramulator.Processor.Execution

namespace Ramulator

open Outcome List

variable {τ : Type}

namespace Core

variable {cfg : ProcessorConfig} {base : MemoryBase τ} {core : Core} {u : Uncore (Logged τ)}
  {E : Abort → Prop}

/-- What a core has after it worked off bubbles. -/
def Worked (core core₁ : Core) (bubbleCnt : Int) : Prop :=
  ∃ clk retired cpuInst limit,
    core₁ = { core with clk, bubbleCnt, retired, cpuInst, reachedLimit := limit }

theorem retireBubbles_eq (slots : Nat) (core : Core) :
    ∃ bubbleCnt retired cpuInst limit, (core.retireBubbles slots).2 =
      { core with bubbleCnt, retired, cpuInst, reachedLimit := limit } ∧
      bubbleCnt.toNat + slots = core.bubbleCnt.toNat + (core.retireBubbles slots).1.getD 0 ∧
      bubbleCnt.toNat ≤ core.bubbleCnt.toNat := by
  induction slots generalizing core with
  | zero =>
    refine ⟨core.bubbleCnt, core.retired, core.cpuInst, core.reachedLimit, ?_⟩
    unfold retireBubbles
    split <;> exact ⟨rfl, rfl, le_refl _⟩
  | succ slots ih =>
    unfold retireBubbles
    split
    · next hpos =>
      obtain ⟨limit, hcount⟩ := core.countInst_eq
      rw [hcount]
      obtain ⟨bubbleCnt, retired, cpuInst, limit', heq, hleft, hle⟩ := ih _
      refine ⟨bubbleCnt, retired, cpuInst, limit', heq, ?_⟩
      dsimp only at hleft hle ⊢
      omega
    · exact ⟨core.bubbleCnt, core.retired, core.cpuInst, core.reachedLimit, rfl, rfl, le_refl _⟩

/-- The core and what is around it after the current entry had its turn. -/
inductive InOrderIssued (core : Core) (u : Uncore (Logged τ)) : Core × Uncore (Logged τ) → Prop
  /-- Nothing is sent. -/
  | skipped (cpuInst : Int) (hwrite : core.reqType ≠ .write)
      (hinst : core.reqType ≠ .instruction) : InOrderIssued core u ({ core with cpuInst }, u)
  | written (memory : τ) (htype : core.reqType = .write) :
      InOrderIssued core u ({ core with cpuInst := core.cpuInst + 1 },
        { u with memory := ⟨memory, u.memory.accepted ++ [core.current.request core.id]⟩ })
  | fetched (memory : τ) (htype : core.reqType = .instruction) :
      InOrderIssued core u ({ core with
          inFlightMemoryAccess := core.inFlightMemoryAccess + 1, lockCore := true },
        { u with memory := ⟨memory, u.memory.accepted ++ [core.current.request core.id]⟩ })

/-- A tick of an in-order core. -/
inductive InOrderTick (base : MemoryBase τ) (core : Core) (u : Uncore (Logged τ)) :
    Core × Uncore (Logged τ) → Prop
  | waits (hidle : core.isIdle = true ∨ 1 ≤ core.inFlightMemoryAccess) {core₁ : Core}
      (hworked : core.Worked core₁ core.bubbleCnt) : InOrderTick base core u (core₁, u)
  /-- Bubbles fill the cycle. -/
  | worked {core₁ : Core} {bubbleCnt : Int} (hworked : core.Worked core₁ bubbleCnt)
      (hless : bubbleCnt.toNat < core.bubbleCnt.toNat) : InOrderTick base core u (core₁, u)
  | refused {core₁ : Core} {bubbleCnt : Int} {req : Request} {memory : τ}
      (hworked : core.Worked core₁ bubbleCnt) (hle : bubbleCnt.toNat ≤ core.bubbleCnt.toNat)
      (hsend : base.send u.memory.memory req = .ok (false, memory)) :
      InOrderTick base core u (core₁, { u with memory := { u.memory with memory } })
  | issued {core₁ core₂ : Core} {bubbleCnt : Int} {u₂ : Uncore (Logged τ)}
      (hworked : core.Worked core₁ bubbleCnt) (hbusy : core.isIdle = false)
      (hfree : core.inFlightMemoryAccess = 0) (hissued : core₁.InOrderIssued u (core₂, u₂)) :
      InOrderTick base core u (core₂.popQueue.recordEnd, u₂)

theorem issueInOrder_spec
    (hsend : ∀ req, Ends (core.send cfg base.logged u req) (Answered base core u req) E)
    (slots : Nat) : Ends (core.issueInOrder cfg base.logged u slots) (fun out =>
      (slots = 0 ∧ out = (false, core, u)) ∨
      (∃ req memory, base.send u.memory.memory req = .ok (false, memory) ∧
        out = (false, core, { u with memory := { u.memory with memory } })) ∨
      (out.1 = true ∧ core.InOrderIssued u out.2)) E := by
  unfold issueInOrder
  split
  · next htype =>
    refine Ends.ite (fun hzero => Or.inl ⟨hzero, rfl⟩) fun _ => Or.inr (Or.inr ⟨rfl, ?_⟩)
    exact .skipped _ (by rw [htype]; decide) (by rw [htype]; decide)
  · next htype =>
    apply Ends.bind (hsend (core.request .write))
    intro out hout
    cases hout with
    | refused memory hrefused => exact Or.inr (Or.inl ⟨_, memory, hrefused, rfl⟩)
    | accepted memory =>
      rw [← request_current htype (by decide)]
      exact Or.inr (Or.inr ⟨rfl, .written memory htype⟩)
  · next htype =>
    refine Ends.ite (fun hzero => Or.inl ⟨hzero, rfl⟩) fun _ => ?_
    apply Ends.bind (hsend core.instructionRequest)
    intro out hout
    cases hout with
    | refused memory hrefused => exact Or.inr (Or.inl ⟨_, memory, hrefused, rfl⟩)
    | accepted memory =>
      rw [← instructionRequest_current htype]
      exact Or.inr (Or.inr ⟨rfl, .fetched memory htype⟩)
  · next _ hwrite hinst => exact Or.inr (Or.inr ⟨rfl, .skipped core.cpuInst hwrite hinst⟩)

theorem tick_inOrder (hin : cfg.cpuType = .inOrder) (hsend : ∀ (core : Core) req,
      Ends (core.send cfg base.logged u req) (Answered base core u req) E) :
    Ends (core.tick cfg base.logged u) (InOrderTick base core u) E := by
  unfold tick
  rw [hin]
  dsimp only
  unfold tickInOrder
  apply Ends.ite
  · intro hidle
    refine .waits ?_ ⟨core.clk + 1, core.retired, core.cpuInst, core.reachedLimit, rfl⟩
    simpa [isIdle] using hidle
  · intro hbusy
    obtain ⟨hidle, hfree⟩ : core.isIdle = false ∧ core.inFlightMemoryAccess = 0 := by
      simpa [isIdle] using hbusy
    obtain ⟨bubbleCnt, retired, cpuInst, limit, heq, hleft, hle⟩ :=
      retireBubbles_eq Window.ipc { core with clk := core.clk + 1 }
    have hipc : Window.ipc = 4 := rfl
    split
    · next core₁ hbubbles =>
      rw [hbubbles] at heq hleft
      refine .worked ⟨core.clk + 1, retired, cpuInst, limit, heq⟩ ?_
      simp only [Option.getD_none] at hleft
      omega
    · next slots core₁ hbubbles =>
      rw [hbubbles] at heq hleft
      simp only [Option.getD_some] at hleft
      have hworked : core.Worked core₁ bubbleCnt := ⟨core.clk + 1, retired, cpuInst, limit, heq⟩
      apply Ends.bind (issueInOrder_spec (hsend core₁) slots)
      rintro ⟨done, core₂, u₂⟩ (⟨hzero, hout⟩ | ⟨req, memory, hrefused, hout⟩ | ⟨hdone, hissued⟩)
      · cases hout
        exact .worked hworked (by omega)
      · cases hout
        exact .refused hworked hle hrefused
      · cases (hdone : done = true)
        exact .issued hworked hidle hfree hissued

end Core

/-! ## Runs -/

/-- An in-order core, what is around it, and its requests that wait for their
    answer. -/
structure InOrderRun (τ : Type) where
  core : Core
  uncore : Uncore (Logged τ)
  /-- Accepted reads whose `receive` has not happened, oldest first. -/
  outstanding : List Request := []
  /-- The calls of `receive`. -/
  answered : Nat := 0

inductive InOrderOp (τ : Type) where
  | tick
  /-- `receive` of an outstanding request, with its stamps. -/
  | answer (n : Nat) (arrive depart : Int)
  | memory (m : τ)

namespace InOrderRun

variable {cfg : ProcessorConfig} {base : MemoryBase τ} {E : Abort → Prop} {id : Int}
  {q : List QueueEntry} {st : InOrderRun τ} {outstanding : List Request} {core' : Core}
  {answered : Nat}

def accepted (st : InOrderRun τ) : List Request := st.uncore.memory.accepted

def start (base : MemoryBase τ) (id : Int) (w : Workload) (memory : τ) :
    Except Abort (InOrderRun τ) := do
  let (core, uncore) ← (Processor.newCore id w).nextRequest base.logged { memory := { memory } }
  pure { core, uncore }

def answer (cfg : ProcessorConfig) (st : InOrderRun τ) (n : Nat) (arrive depart : Int) :
    InOrderRun τ :=
  match st.outstanding[n]? with
  | none => st
  | some req =>
    { st with
      core := st.core.receive cfg { req with arrive, depart }
      outstanding := st.outstanding.eraseIdx n
      answered := st.answered + 1 }

def step (cfg : ProcessorConfig) (base : MemoryBase τ) (st : InOrderRun τ) :
    InOrderOp τ → Except Abort (InOrderRun τ)
  | .tick => do
      let (core, uncore) ← st.core.tick cfg base.logged st.uncore
      let sent := uncore.memory.accepted.drop st.accepted.length
      pure { st with
        core, uncore, outstanding := st.outstanding ++ sent.filter (·.type = .read) }
  | .answer n arrive depart => pure (st.answer cfg n arrive depart)
  | .memory m =>
    pure { st with uncore := { st.uncore with memory := { st.uncore.memory with memory := m } } }

def run (cfg : ProcessorConfig) (base : MemoryBase τ) (id : Int) (w : Workload) (memory : τ)
    (ops : List (InOrderOp τ)) : Except Abort (InOrderRun τ) := do
  let st ← start base id w memory
  ops.foldlM (step cfg base) st

/-! ## What is sent -/

def sends (id : Int) (es : List QueueEntry) : List Request :=
  (es.filter (·.reqType ≠ .read)).map (QueueEntry.request id)

theorem sends_cons (e : QueueEntry) (es : List QueueEntry) :
    sends id (e :: es) = sends id [e] ++ sends id es := by
  unfold sends
  rw [← map_append, ← filter_append, singleton_append]

/-- The entries that are done: only the last of them can be a fetch, and it locks the core. -/
def Locks (q : List QueueEntry) (core : Core) : Prop :=
  ∃ done, q.map (·.reqType) = done ++ core.pending.map (·.reqType) ∧
    (∀ t ∈ done.dropLast, t ≠ .instruction) ∧
    (core.lockCore = true ↔ done.getLast? = some .instruction)

/-- What was accepted and what is pending are the entries but the reads. -/
structure Skips (id : Int) (q : List QueueEntry) (core : Core) (accepted : List Request) :
    Prop where
  id_eq : core.id = id
  whole : core.splitTrace = false
  limit : core.expectedLimitInsts = 0
  sendable : ∀ e ∈ core.pending, e.Sendable
  sent : accepted ++ sends id core.pending = sends id q
  locks : Locks q core
  inFlight : 1 ≤ core.inFlightMemoryAccess → core.lockCore = true

variable {core core₁ : Core} {accepted : List Request}

theorem Skips.pending_eq (h : Skips id q core accepted) (hmore : core.moreReqs = true) :
    core.pending = core.current :: core.rqstQueue := by
  rw [Core.pending, if_pos hmore, Core.upcoming_whole h.whole]

theorem Skips.moreReqs (h : Skips id q core accepted) (hbusy : core.isIdle = false) :
    core.moreReqs = true ∧ core.lockCore = false := by
  simpa [Core.isIdle, h.limit] using hbusy

theorem Skips.worked (h : Skips id q core accepted) {bubbleCnt : Int}
    (hworked : core.Worked core₁ bubbleCnt) : Skips id q core₁ accepted := by
  obtain ⟨clk, retired, cpuInst, limit, rfl⟩ := hworked
  by_cases hmore : core.moreReqs = true
  · -- the bubbles of the current entry are all that changes in `pending`
    have hold := h.pending_eq hmore
    have hnew : Core.pending { core with clk, bubbleCnt, retired, cpuInst, reachedLimit := limit } =
        { core.current with bubbleCnt } :: core.rqstQueue := by
      rw [Core.pending, if_pos hmore]
      exact congrArg (_ :: ·) (Core.upcoming_whole h.whole 0)
    obtain ⟨hid, hwhole, hlimit, hsendable, hsent, hlocks, hflight⟩ := h
    unfold Locks at hlocks
    rw [hold] at hsendable hsent hlocks
    refine ⟨hid, hwhole, hlimit, ?_, ?_, ?_, hflight⟩
    · rw [hnew]
      obtain ⟨hcurrent, hrest⟩ := forall_mem_cons.mp hsendable
      exact forall_mem_cons.mpr ⟨hcurrent, hrest⟩
    · rw [hnew, ← hsent, sends_cons, sends_cons core.current]
      congr 2
      by_cases hread : core.reqType = .read <;>
        simp [sends, Core.current, QueueEntry.request, hread]
    · rw [Locks, hnew]
      exact hlocks
  · obtain ⟨hid, hwhole, hlimit, hsendable, hsent, hlocks, hflight⟩ := h
    unfold Locks at hlocks
    simp only [Core.pending, hmore] at hsendable hsent hlocks
    refine ⟨hid, hwhole, hlimit, ?_, ?_, ?_, hflight⟩
    · simp [Core.pending, hmore]
    · simpa [Core.pending, hmore] using hsent
    · simpa [Locks, Core.pending, hmore] using hlocks

theorem Locks.next (h : Locks q core) (hlock : core.lockCore = false)
    (hold : core.pending = core.current :: core'.pending)
    (hlock' : core'.lockCore = true ↔ core.reqType = .instruction) : Locks q core' := by
  obtain ⟨done, hq, hfetch, hlast⟩ := h
  refine ⟨done ++ [core.reqType], ?_, ?_, ?_⟩
  · rw [hq, hold, append_assoc]
    rfl
  · intro t ht
    rw [dropLast_concat] at ht
    obtain ⟨init, last, rfl⟩ := eq_nil_or_concat' done |>.resolve_left (ne_nil_of_mem ht)
    rw [dropLast_concat] at hfetch
    rw [hlock, List.getLast?_concat] at hlast
    rcases mem_append.mp ht with ht | ht
    · exact hfetch t ht
    · rw [mem_singleton.mp ht]
      exact fun heq => absurd (hlast.mpr (by rw [heq])) (by decide)
  · rw [hlock', List.getLast?_concat, Option.some.injEq]

theorem Skips.issued {u u' : Uncore (Logged τ)} (h : Skips id q core u.memory.accepted)
    (hmore : core.moreReqs = true) (hlock : core.lockCore = false)
    (hfree : core.inFlightMemoryAccess = 0) (hissued : core.InOrderIssued u (core', u')) :
    Skips id q core'.popQueue.recordEnd u'.memory.accepted := by
  have hcurrent : core.current.Sendable :=
    h.sendable _ (by rw [h.pending_eq hmore]; exact mem_cons_self)
  have hrequest (hne : core.reqType ≠ .read) :
      [core.current.request core.id] = sends id [core.current] := by
    rw [h.id_eq]
    simp [sends, Core.current, hne]
  -- all that differs is what is sent, and the lock
  have hnext : ∀ {sent : List Request}, core'.id = core.id → core'.splitTrace = core.splitTrace →
      core'.expectedLimitInsts = core.expectedLimitInsts → core'.rqstQueue = core.rqstQueue →
      sent = sends id [core.current] →
      (core'.lockCore = true ↔ core.reqType = .instruction) →
      (1 ≤ core'.inFlightMemoryAccess → core'.lockCore = true) →
      Skips id q core'.popQueue.recordEnd (u.memory.accepted ++ sent) := by
    intro sent hid hwhole hlimit hqueue hsent hlock' hflight
    have hmoved := core'.popQueue_movedOn.recordEnd
    have hnew : core'.popQueue.recordEnd.pending = core.rqstQueue := by
      rw [Core.pending_recordEnd, Core.pending_popQueue (hwhole.trans h.whole), hqueue]
    have hold := h.pending_eq hmore
    rw [← hnew] at hold
    refine ⟨(hmoved.id.trans hid).trans h.id_eq, (hmoved.splitTrace.trans hwhole).trans h.whole,
      (hmoved.limit.trans hlimit).trans h.limit, ?_, ?_, ?_, ?_⟩
    · exact fun e he => h.sendable e (mem_of_eq_cons_of_mem hold he)
    · rw [hsent, append_assoc, ← sends_cons, ← hold, h.sent]
    · exact h.locks.next hlock hold (by rw [hmoved.lockCore]; exact hlock')
    · rw [hmoved.inFlight, hmoved.lockCore]
      exact hflight
  cases hissued with
  | skipped cpuInst hwrite hinst =>
    have hread : core.reqType = .read := by
      rcases hcurrent with htype | htype | htype
      · exact htype
      · exact absurd htype hwrite
      · exact absurd htype hinst
    have hnone := hnext rfl rfl rfl rfl (show [] = sends id [core.current] by
      simp [sends, Core.current, hread]) (by simp [hlock, hread]) (by simp [hfree])
    rwa [append_nil] at hnone
  | written memory htype =>
    exact hnext rfl rfl rfl rfl (hrequest (by rw [htype]; decide)) (by simp [hlock, htype])
      (by simp [hfree])
  | fetched memory htype =>
    exact hnext rfl rfl rfl rfl (hrequest (by rw [htype]; decide)) (by simp [htype]) (fun _ => rfl)

theorem Skips.receive (h : Skips id q core accepted) (req : Request) :
    Skips id q (core.receive cfg req) accepted := by
  unfold Core.receive
  dsimp only
  split
  · exact ⟨h.id_eq, h.whole, h.limit, h.sendable, h.sent, h.locks, h.inFlight⟩
  · exact ⟨h.id_eq, h.whole, h.limit, h.sendable, h.sent, h.locks, h.inFlight⟩

/-! ## How long it takes -/

/-- The memory refuses at most `k` times in a row: every refusal costs patience. -/
structure Patient (base : MemoryBase τ) (k : Nat) (patience : τ → Nat) : Prop where
  bound : ∀ m, patience m ≤ k
  refused : ∀ m req m', base.send m req = .ok (false, m') → patience m' < patience m

/-- What the memory does by itself does not renew its patience. -/
def Wears (patience : τ → Nat) (st : InOrderRun τ) : InOrderOp τ → Prop
  | .memory m => patience m ≤ patience st.uncore.memory.memory
  | .tick | .answer _ _ _ => True

instance (patience : τ → Nat) (st : InOrderRun τ) : DecidablePred (Wears patience st)
  | .memory m => inferInstanceAs (Decidable (patience m ≤ patience st.uncore.memory.memory))
  | .tick | .answer _ _ _ => inferInstanceAs (Decidable True)

def ticks : List (InOrderOp τ) → Nat
  | [] => 0
  | .tick :: ops => ticks ops + 1
  | _ :: ops => ticks ops

/-- The cycles that entries need at most. -/
def work (k : Nat) (es : List QueueEntry) : Nat := (es.map fun e => e.bubbleCnt.toNat + k + 1).sum

/-- The cycles that are left at most, if the memory has some patience left. -/
def left (k patience : Nat) (core : Core) : Nat :=
  if core.moreReqs then core.bubbleCnt.toNat + patience + 1 + work k core.rqstQueue else 0

/-- An in-order core gets to the end of these, and sends them all. -/
def Executable (q : List QueueEntry) : Prop :=
  (∀ e ∈ q, e.reqType ≠ .read) ∧ ∀ e ∈ q.dropLast, e.reqType ≠ .instruction

instance (q : List QueueEntry) : Decidable (Executable q) := inferInstanceAs (Decidable (_ ∧ _))

theorem left_recordEnd (k patience : Nat) (core : Core) :
    left k patience core.recordEnd = left k patience core := by
  unfold Core.recordEnd
  split <;> rfl

theorem left_popQueue {k patience : Nat} (hle : patience ≤ k) (core : Core) :
    left k patience core.popQueue ≤ work k core.rqstQueue := by
  unfold Core.popQueue
  split
  · exact Nat.zero_le _
  · next e rest hqueue =>
    rw [hqueue, work, map_cons, sum_cons]
    show e.bubbleCnt.toNat + patience + 1 + work k rest ≤ _
    unfold work
    omega

theorem Skips.not_locked (h : Skips id q core accepted)
    (hfetch : ∀ e ∈ q.dropLast, e.reqType ≠ .instruction) (hmore : core.moreReqs = true) :
    core.lockCore = false := by
  obtain ⟨done, hq, -, hlast⟩ := h.locks
  rw [Bool.eq_false_iff, ne_eq, hlast]
  intro hdone
  have hmem : RequestType.instruction ∈ (q.map (·.reqType)).dropLast := by
    rw [hq, dropLast_append_of_ne_nil (by rw [h.pending_eq hmore]; exact cons_ne_nil _ _)]
    exact mem_append_left _ (mem_of_getLast? hdone)
  rw [← map_dropLast] at hmem
  obtain ⟨e, he, htype⟩ := mem_map.mp hmem
  exact hfetch e he htype

/-- A tick takes one of the cycles that are left. -/
theorem Skips.tick_left {u : Uncore (Logged τ)} {out : Core × Uncore (Logged τ)} {k : Nat}
    {patience : τ → Nat} (h : Skips id q core u.memory.accepted)
    (hfetch : ∀ e ∈ q.dropLast, e.reqType ≠ .instruction) (hpatient : Patient base k patience)
    (htick : core.InOrderTick base u out) :
    left k (patience out.2.memory.memory) out.1 ≤ left k (patience u.memory.memory) core - 1 := by
  by_cases hmore : core.moreReqs = true
  · have hlock := h.not_locked hfetch hmore
    have hleft : ∀ p, left k p core = core.bubbleCnt.toNat + p + 1 + work k core.rqstQueue :=
      fun p => if_pos hmore
    cases htick with
    | waits hidle hworked =>
      exfalso
      rcases hidle with hidle | hflight
      · simp [Core.isIdle, hmore, hlock] at hidle
      · rw [h.inFlight hflight] at hlock
        cases hlock
    | @worked _ bubbleCnt hworked hless =>
      obtain ⟨clk, retired, cpuInst, limit, rfl⟩ := hworked
      rw [hleft, left, if_pos hmore]
      dsimp only
      omega
    | @refused _ bubbleCnt _ memory hworked hle hsend =>
      obtain ⟨clk, retired, cpuInst, limit, rfl⟩ := hworked
      have := hpatient.refused _ _ _ hsend
      rw [hleft, left, if_pos hmore]
      dsimp only
      omega
    | @issued _ core₂ _ u₂ hworked hbusy hfree hissued =>
      obtain ⟨clk, retired, cpuInst, limit, rfl⟩ := hworked
      have hqueue : core₂.rqstQueue = core.rqstQueue := by cases hissued <;> rfl
      have hnext := left_popQueue (hpatient.bound u₂.memory.memory) core₂
      rw [hqueue] at hnext
      rw [hleft, left_recordEnd]
      dsimp only
      omega
  · cases htick with
    | waits _ hworked | worked hworked _ | refused hworked _ _ =>
      obtain ⟨clk, retired, cpuInst, limit, rfl⟩ := hworked
      rw [left, if_neg hmore]
      exact Nat.zero_le _
    | issued hworked hbusy hfree hissued => exact absurd (h.moreReqs hbusy).1 hmore

section Runs

variable (hin : cfg.cpuType = .inOrder) (hcore : cfg.coreCaches = false)
  (hl3 : cfg.l3Cache = false) (hbase : ∀ m req, Ends (base.send m req) (fun _ => True) E)
include hin hcore hl3 hbase

theorem Skips.step (h : Skips id q st.core st.accepted) (op : InOrderOp τ) :
    Ends (st.step cfg base op) (fun st' => Skips id q st'.core st'.accepted ∧
      ∀ k patience, Patient base k patience → Wears patience st op →
        (∀ e ∈ q.dropLast, e.reqType ≠ .instruction) →
        left k (patience st'.uncore.memory.memory) st'.core ≤
          left k (patience st.uncore.memory.memory) st.core - ticks [op]) E := by
  cases op with
  | tick =>
    apply Ends.bind (Core.tick_inOrder hin (fun _ => Core.send_logged hcore hl3 hbase))
    intro out htick
    refine Ends.pure ⟨?_, fun k patience hpatient _ hfetch => h.tick_left hfetch hpatient htick⟩
    cases htick with
    | waits _ hworked | worked hworked _ | refused hworked _ _ => exact h.worked hworked
    | issued hworked hbusy hfree hissued =>
      obtain ⟨hmore, hlock⟩ := h.moreReqs hbusy
      have h₁ := h.worked hworked
      obtain ⟨clk, retired, cpuInst, limit, rfl⟩ := hworked
      exact h₁.issued hmore hlock hfree hissued
  | answer n arrive depart =>
    apply Ends.pure
    unfold answer
    split
    · exact ⟨h, fun _ _ _ _ _ => le_refl _⟩
    · next req _ =>
      refine ⟨h.receive _, fun k patience _ _ _ => le_of_eq ?_⟩
      unfold left Core.receive
      dsimp only
      split <;> rfl
  | memory m =>
    refine ⟨h, fun k patience _ hwears _ => ?_⟩
    have hle : patience m ≤ patience st.uncore.memory.memory := hwears
    show left k (patience m) st.core ≤ left k _ st.core - 0
    unfold left
    split <;> omega

theorem run_skips (h : Skips id q st.core st.accepted) (ops : List (InOrderOp τ)) :
    Ends (ops.foldlM (step cfg base) st) (fun st' => Skips id q st'.core st'.accepted ∧
      ∀ k patience, Patient base k patience → Along (step cfg base) (Wears patience) ops st →
        (∀ e ∈ q.dropLast, e.reqType ≠ .instruction) →
        left k (patience st'.uncore.memory.memory) st'.core ≤
          left k (patience st.uncore.memory.memory) st.core - ticks ops) E := by
  induction ops generalizing st with
  | nil => exact ⟨h, fun _ _ _ _ _ => le_refl _⟩
  | cons op ops ih =>
    rw [foldlM_cons]
    refine Ends.bind (h.step hin hcore hl3 hbase op).remember ?_
    rintro st₁ ⟨hstep, h₁, hleft₁⟩
    refine (ih h₁).weaken fun st₂ h₂ => ⟨h₂.1, fun k patience hpatient hwears hfetch => ?_⟩
    have hfirst := hleft₁ k patience hpatient hwears.1 hfetch
    have hrest := h₂.2 k patience hpatient (hwears.2.result hstep) hfetch
    have hticks : ticks (op :: ops) = ticks [op] + ticks ops := by
      cases op <;> simp [ticks, Nat.add_comm]
    omega

end Runs

theorem sends_eq_iff (es : List QueueEntry) :
    sends id es = es.map (QueueEntry.request id) ↔ ∀ e ∈ es, e.reqType ≠ .read := by
  constructor
  · intro heq
    have hlength := congrArg List.length heq
    rw [sends, length_map, length_map] at hlength
    have hfilter := length_filter_eq_length_iff.mp hlength
    simpa using hfilter
  · intro hnone
    rw [sends, filter_eq_self.mpr (by simpa using hnone)]

/-- A core that is finished has sent all but the reads, and only its last entry can have
    been a fetch. -/
theorem Skips.finished (h : Skips id q core accepted) (hfinished : core.finished = true) :
    accepted = sends id q ∧ ∀ e ∈ q.dropLast, e.reqType ≠ .instruction := by
  have hmore : core.moreReqs = false := by simpa [Core.finished] using hfinished
  have hnone : core.pending = [] := by
    rw [Core.pending, hmore]
    rfl
  obtain ⟨done, hq, hfetch, -⟩ := h.locks
  have hsent := h.sent
  rw [hnone] at hsent hq
  rw [map_nil, append_nil] at hq
  refine ⟨by rw [← hsent]; exact (append_nil _).symm, fun e he => hfetch _ ?_⟩
  rw [← hq, ← map_dropLast]
  exact mem_map_of_mem he

/-- The core when its run starts. -/
def first (id : Int) (w : Workload) (memory : τ) : InOrderRun τ :=
  { core := (Processor.newCore id w).popQueue, uncore := { memory := { memory } } }

/-- An in-order core that is finished has sent its queue exactly if the queue is `Executable`:
    it has no read, and a fetch only at its end.  If it is, the core gets to its end: with a
    memory that refuses at most `k` times in a row it is finished after at most
    `work k w.rqstQueue` ticks. -/
theorem run_executes_queue_iff (hin : cfg.cpuType = .inOrder) (hcore : cfg.coreCaches = false)
    (hl3 : cfg.l3Cache = false) (hbase : ∀ m req, Ends (base.send m req) (fun _ => True) E)
    (w : Workload) (hwhole : w.splitTrace = false) (hlimit : w.expectedLimitInsts = 0)
    (hsendable : ∀ e ∈ w.rqstQueue, e.Sendable) (memory : τ) (ops : List (InOrderOp τ)) :
    Ends (run cfg base id w memory ops) (fun st => (st.core.finished = true →
        (st.accepted = w.rqstQueue.map (QueueEntry.request id) ↔ Executable w.rqstQueue)) ∧
      ∀ k patience, Patient base k patience →
        Along (step cfg base) (Wears patience) ops (first id w memory) →
        work k w.rqstQueue ≤ ticks ops → Executable w.rqstQueue → st.core.finished = true) E := by
  have hmoved := (Processor.newCore id w).popQueue_movedOn
  have hpending : (Processor.newCore id w).popQueue.pending = w.rqstQueue :=
    Core.pending_popQueue hwhole
  have hfirst : Skips id w.rqstQueue (first id w memory).core (first id w memory).accepted := by
    refine ⟨hmoved.id, hmoved.splitTrace.trans hwhole, hmoved.limit.trans hlimit, ?_, ?_, ?_, ?_⟩
    · exact hpending ▸ hsendable
    · exact congrArg (sends id) hpending
    · refine ⟨[], congrArg (List.map _) hpending.symm, fun _ ht => absurd ht not_mem_nil, ?_⟩
      rw [show (first id w memory).core.lockCore = false from hmoved.lockCore]
      simp
    · rw [show (first id w memory).core.inFlightMemoryAccess = 0 from hmoved.inFlight]
      omega
  apply Ends.bind (Q := fun st => st = first id w memory)
  · apply Ends.bind (Core.nextRequest_whole hwhole)
    rintro out rfl
    rfl
  · rintro st rfl
    refine (run_skips hin hcore hl3 hbase hfirst ops).weaken fun st h => ⟨fun hfinished => ?_,
      fun k patience hpatient hwears hticks hexecutable => ?_⟩
    · obtain ⟨hsent, hfetch⟩ := h.1.finished hfinished
      rw [hsent, sends_eq_iff]
      exact (and_iff_left hfetch).symm
    · have hleft := h.2 k patience hpatient hwears hexecutable.2
      have hwork : left k (patience memory) (first id w memory).core ≤ work k w.rqstQueue :=
        left_popQueue (hpatient.bound memory) (Processor.newCore id w)
      by_contra hmore
      have hmore : st.core.moreReqs = true := by simpa [Core.finished] using hmore
      rw [left, if_pos hmore] at hleft
      dsimp only [first] at hleft hwork
      omega

def inOrderConfig : ProcessorConfig := { cpuType := .inOrder }

/-- A memory that refuses every other request. -/
def everyOther : MemoryBase Bool where
  send accepts _ := pure (accepts, !accepts)
  pageAllocator accepts addr _ := pure (addr, accepts)
  tick accepts := pure ([], accepts)
  pendingRequests _ := 0

theorem everyOther_ends (accepts : Bool) (req : Request) :
    Ends (everyOther.send accepts req) (fun _ => True) (fun _ => False) := trivial

theorem everyOther_patient : Patient everyOther 1 (fun accepts => if accepts then 0 else 1) := by
  refine ⟨by decide, fun m req m' h => ?_⟩
  cases m with
  | true => cases h
  | false =>
    cases h
    decide

def writesAndFetch : List QueueEntry := [⟨5, 64, .write⟩, ⟨0, 128, .instruction⟩]

/-- Writes and a last instruction fetch are executed. -/
theorem run_executes_queue_iff_writes :
    ∃ st, run inOrderConfig everyOther 0 { rqstQueue := writesAndFetch } false
        (replicate 8 .tick ++ [.answer 0 7 9, .tick]) = .ok st ∧
      work 1 writesAndFetch = 9 ∧ st.core.finished = true ∧
      st.accepted = writesAndFetch.map (QueueEntry.request 0) := by
  have hmap : (run inOrderConfig everyOther 0 { rqstQueue := writesAndFetch } false
      (replicate 8 .tick ++ [.answer 0 7 9, .tick])).toOption.map (fun _ => ()) = some () := by
    decide +kernel
  obtain ⟨st, hrun, -⟩ := exists_ok_of_map hmap
  obtain ⟨hsent, hends⟩ := (run_executes_queue_iff rfl rfl rfl everyOther_ends
    { rqstQueue := writesAndFetch } rfl rfl (by decide) false _).result hrun
  have hwears : Along (step inOrderConfig everyOther) (Wears fun b => if b then 0 else 1)
      (replicate 8 .tick ++ [.answer 0 7 9, .tick])
      (first 0 { rqstQueue := writesAndFetch } false) := by decide +kernel
  have hfinished := hends 1 _ everyOther_patient hwears (by decide) (by decide)
  exact ⟨st, hrun, by decide, hfinished, (hsent hfinished).mpr (by decide)⟩

/-- A read is passed over without being sent. -/
theorem run_skips_read :
    ∃ st, run inOrderConfig MemoryBase.scripted 0 { rqstQueue := [⟨0, 64, .read⟩] } []
        [.tick] = .ok st ∧ st.core.finished = true ∧ st.accepted = [] ∧
      st.accepted ≠ [⟨0, 64, .read⟩].map (QueueEntry.request 0) := by
  have hmap : (run inOrderConfig MemoryBase.scripted 0 { rqstQueue := [⟨0, 64, .read⟩] } []
      [.tick]).toOption.map (fun st => (st.core.finished, st.accepted)) = some (true, []) := by
    decide +kernel
  obtain ⟨st, hrun, heq⟩ := exists_ok_of_map hmap
  have haccepted : st.accepted = [] := congrArg Prod.snd heq
  refine ⟨st, hrun, congrArg Prod.fst heq, haccepted, ?_⟩
  rw [haccepted]
  decide

/-! ## What is on its way -/

/-- `inFlightMemoryAccess` and `lock_core` are right about the requests on their way. -/
structure Accounted (st : InOrderRun τ) : Prop where
  inFlight : st.core.inFlightMemoryAccess = st.outstanding.length
  locked : st.core.lockCore = true ↔ ∃ req ∈ st.outstanding, req.instructionRequest = true
  free : st.outstanding = [] → st.core.inFlightMemoryAccess = 0 ∧ st.core.lockCore = false

/-- What the two members really count: every request there has been. -/
structure Counted (core : Core) (outstanding : List Request) (answered : Nat) : Prop where
  inFlight : core.inFlightMemoryAccess = outstanding.length + answered
  locked : core.lockCore = true ↔ 1 ≤ core.inFlightMemoryAccess
  fetches : ∀ req ∈ outstanding, req.instructionRequest = true

theorem Counted.accounted_iff (h : Counted st.core st.outstanding st.answered) :
    Accounted st ↔ st.answered = 0 := by
  have hcount := h.inFlight
  constructor
  · intro hacc
    have := hacc.inFlight
    omega
  · intro hzero
    have hlocked : st.core.lockCore = true ↔
        ∃ req ∈ st.outstanding, req.instructionRequest = true := by
      rw [h.locked, hcount, hzero, Nat.add_zero, Nat.one_le_iff_ne_zero, ← Nat.pos_iff_ne_zero,
        length_pos_iff_exists_mem]
      constructor
      · rintro ⟨req, hreq⟩
        exact ⟨req, hreq, h.fetches req hreq⟩
      · rintro ⟨req, hreq, -⟩
        exact ⟨req, hreq⟩
    refine ⟨by omega, hlocked, fun hnil => ?_⟩
    rw [hnil] at hcount hlocked
    refine ⟨by simpa [hzero] using hcount, ?_⟩
    simpa using hlocked

theorem Counted.of_eq (h : Counted core outstanding answered)
    (hflight : core'.inFlightMemoryAccess = core.inFlightMemoryAccess)
    (hlock : core'.lockCore = core.lockCore) : Counted core' outstanding answered :=
  ⟨hflight.trans h.inFlight, by rw [hlock, hflight]; exact h.locked, h.fetches⟩

theorem Counted.issued {u u' : Uncore (Logged τ)} (h : Counted core outstanding answered)
    (hissued : core.InOrderIssued u (core', u')) : Counted core'.popQueue.recordEnd (outstanding ++
      (u'.memory.accepted.drop u.memory.accepted.length).filter (·.type = .read)) answered := by
  have hmoved := core'.popQueue_movedOn.recordEnd
  cases hissued with
  | skipped cpuInst hwrite hinst =>
    rw [drop_length, filter_nil, append_nil]
    exact h.of_eq hmoved.inFlight hmoved.lockCore
  | written memory htype =>
    have hnone : [core.current.request core.id].filter (·.type = .read) = [] := by
      simp [QueueEntry.request, Core.current, htype]
    rw [drop_left, hnone, append_nil]
    exact h.of_eq hmoved.inFlight hmoved.lockCore
  | fetched memory htype =>
    have hone : [core.current.request core.id].filter (·.type = .read) =
        [core.current.request core.id] := by
      simp [QueueEntry.request, Core.current, htype]
    have hcount := h.inFlight
    rw [drop_left, hone]
    refine ⟨?_, ?_, ?_⟩
    · rw [hmoved.inFlight, length_append, length_singleton]
      show core.inFlightMemoryAccess + 1 = _
      omega
    · rw [hmoved.inFlight, hmoved.lockCore]
      exact ⟨fun _ => Nat.le_add_left 1 _, fun _ => rfl⟩
    · intro req hreq
      rcases mem_append.mp hreq with hreq | hreq
      · exact h.fetches req hreq
      · rw [mem_singleton.mp hreq]
        simp [QueueEntry.request, Core.current, htype]

theorem Counted.receive (h : Counted core outstanding answered) {n : Nat}
    (hn : n < outstanding.length) (req : Request) :
    Counted (core.receive cfg req) (outstanding.eraseIdx n) (answered + 1) := by
  have hcount := h.inFlight
  have hcounted : Counted core (outstanding.eraseIdx n) (answered + 1) := by
    refine ⟨?_, h.locked, fun r hr => h.fetches r (mem_of_mem_eraseIdx hr)⟩
    rw [length_eraseIdx_of_lt hn]
    omega
  unfold Core.receive
  dsimp only
  split
  · exact hcounted.of_eq rfl rfl
  · exact hcounted.of_eq rfl rfl

theorem Counted.step (hin : cfg.cpuType = .inOrder) (hcore : cfg.coreCaches = false)
    (hl3 : cfg.l3Cache = false) (hbase : ∀ m req, Ends (base.send m req) (fun _ => True) E)
    (h : Counted st.core st.outstanding st.answered) (op : InOrderOp τ) :
    Ends (st.step cfg base op) (fun st' => Counted st'.core st'.outstanding st'.answered) E := by
  cases op with
  | tick =>
    apply Ends.bind (Core.tick_inOrder hin (fun _ => Core.send_logged hcore hl3 hbase))
    intro out htick
    have hworked : ∀ {core₁ bubbleCnt}, st.core.Worked core₁ bubbleCnt →
        Counted core₁ st.outstanding st.answered := by
      rintro core₁ bubbleCnt ⟨clk, retired, cpuInst, limit, rfl⟩
      exact h.of_eq rfl rfl
    cases htick with
    | waits _ hcore₁ | worked hcore₁ _ | refused hcore₁ _ _ =>
      apply Ends.pure
      dsimp only
      rw [accepted, drop_length, filter_nil, append_nil]
      exact hworked hcore₁
    | issued hcore₁ _ _ hissued => exact (hworked hcore₁).issued hissued
  | answer n arrive depart =>
    apply Ends.pure
    unfold answer
    split
    · exact h
    · next req hreq => exact h.receive (List.getElem?_eq_some_iff.mp hreq).1 _
  | memory m => exact h

theorem start_counted (hbase : ∀ m addr id, Ends (base.pageAllocator m addr id) (fun _ => True) E)
    (w : Workload) (memory : τ) :
    Ends (start base id w memory) (fun st => Counted st.core st.outstanding st.answered) E := by
  have hnew {core : Core} (hmoved : (Processor.newCore id w).MovedOn core) : Counted core [] 0 := by
    refine ⟨hmoved.inFlight, ?_, fun req hreq => by cases hreq⟩
    rw [hmoved.inFlight, hmoved.lockCore]
    simp [Processor.newCore]
  apply Ends.bind (Q := fun out => Counted out.1 [] 0)
  · unfold Core.nextRequest
    apply Ends.ite
    · intro _
      apply Ends.bind (Q := fun _ => True)
      · apply Ends.bind (hbase memory _ _)
        intro _ _
        trivial
      · intro out _
        exact (hnew (Processor.newCore id w).getZsimRequest_movedOn).of_eq rfl rfl
    · intro _
      exact hnew (Processor.newCore id w).popQueue_movedOn
  · intro out hout
    exact hout

/-- In every run of an in-order core the two members agree with the requests that
    are on their way exactly until the first answer. -/
theorem run_accounted_iff (hin : cfg.cpuType = .inOrder) (hcore : cfg.coreCaches = false)
    (hl3 : cfg.l3Cache = false) (hbase : ∀ m req, Ends (base.send m req) (fun _ => True) E)
    (hpages : ∀ m addr id, Ends (base.pageAllocator m addr id) (fun _ => True) E)
    (w : Workload) (memory : τ) (ops : List (InOrderOp τ)) :
    Ends (run cfg base id w memory ops) (fun st => Accounted st ↔ st.answered = 0) E := by
  have hcounted : Ends (run cfg base id w memory ops)
      (fun st => Counted st.core st.outstanding st.answered) E := by
    apply Ends.bind (start_counted hpages w memory)
    intro st hst
    exact Ends.foldlM ops hst (fun st op _ h => h.step hin hcore hl3 hbase op)
  exact hcounted.weaken (fun _ h => h.accounted_iff)

/-- A fetch that is not answered. -/
theorem run_accounted_iff_fetch :
    ∃ st, run inOrderConfig MemoryBase.scripted 0 { rqstQueue := [⟨0, 64, .instruction⟩] } []
        [.tick] = .ok st ∧ st.outstanding.length = 1 ∧ Accounted st := by
  have hmap : (run inOrderConfig MemoryBase.scripted 0 { rqstQueue := [⟨0, 64, .instruction⟩] } []
      [.tick]).toOption.map (fun st => (st.outstanding.length, st.answered)) = some (1, 0) := by
    decide +kernel
  obtain ⟨st, hrun, heq⟩ := exists_ok_of_map hmap
  refine ⟨st, hrun, congrArg Prod.fst heq, ?_⟩
  exact ((run_accounted_iff (E := fun _ => False) rfl rfl rfl MemoryBase.scripted_ends
    (fun _ _ _ => Ends.pure trivial) _ _ _).result hrun).mpr (congrArg Prod.snd heq)

/-- After the answer to its fetch the core is still locked, counts a request on
    its way, and does not go on to the write. -/
theorem fetch_locks_for_ever : ∃ st, run inOrderConfig MemoryBase.scripted 0
        { rqstQueue := [⟨0, 64, .instruction⟩, ⟨0, 128, .write⟩] } []
        [.tick, .answer 0 1 9, .tick, .tick] = .ok st ∧
      st.outstanding = [] ∧ st.core.inFlightMemoryAccess = 1 ∧ st.core.lockCore = true ∧
      st.core.finished = false ∧ ¬ Accounted st := by
  have hmap : (run inOrderConfig MemoryBase.scripted 0
      { rqstQueue := [⟨0, 64, .instruction⟩, ⟨0, 128, .write⟩] } []
      [.tick, .answer 0 1 9, .tick, .tick]).toOption.map (fun st =>
        (st.outstanding, st.core.inFlightMemoryAccess, st.core.lockCore, st.core.finished)) =
      some ([], 1, true, false) := by decide +kernel
  obtain ⟨st, hrun, heq⟩ := exists_ok_of_map hmap
  obtain ⟨hnil, hflight, hlock, hfinished⟩ :
      st.outstanding = [] ∧ st.core.inFlightMemoryAccess = 1 ∧ st.core.lockCore = true ∧
        st.core.finished = false := by simpa using heq
  refine ⟨st, hrun, hnil, hflight, hlock, hfinished, fun hacc => ?_⟩
  have hfree := (hacc.free hnil).1
  omega

end InOrderRun

end Ramulator
