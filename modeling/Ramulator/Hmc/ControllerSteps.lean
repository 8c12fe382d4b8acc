/-
  Ramulator.Hmc.ControllerSteps

  What each procedure of the vault controller can do.

  For every procedure there is one lemma that says, without any assumption on
  the state, which results it can return and in which assertions it can fail
  (`Outcome.Ends`).  The invariants of later modules are derived from these
  lemmas and never unfold a procedure.  A predicate that the procedures of the
  last step keep (`IssueRule`) is kept by a whole tick (`tick_rule`).
-/

import Ramulator.Hmc.Controller

namespace Ramulator

open Outcome List Function

namespace Controller

variable {cfg : ControllerConfig} {c : Controller} {junk : Int} {req : Request} {E : Abort → Prop}

/-! ## Queues -/

@[simp] theorem getQueue_setQueue (c : Controller) (type : RequestType) (q : List Request) :
    (c.setQueue type q).getQueue type = q := by
  cases type <;> rfl

theorem setQueue_getQueue (c : Controller) (type : RequestType) :
    c.setQueue type (c.getQueue type) = c := by
  cases type <;> rfl

/-- The two ways a request enters: its queue, or `pending` if it is a read that
    a queued write serves. -/
theorem enqueue_cases {c' : Controller} (h : c.enqueue cfg req = some c') :
    (cfg.pimModeEnabled = false → (c.getQueue req.type).length ≠ queueMax) ∧
    (c' = c.setQueue req.type (c.getQueue req.type ++ [{ req with arrive := c.clk }]) ∨
      (req.type = .read ∧ (∃ w ∈ c.writeq, w.addr = req.addr) ∧ c' = { c with
          pending := c.pending ++ [{ req with arrive := c.clk, depart := c.clk + 1 }] })) := by
  simp only [enqueue] at h
  split at h
  · cases h
  · next hroom =>
    refine ⟨?_, ?_⟩
    · intro hpim
      simpa [hpim] using hroom
    · split at h
      · next hforward =>
        obtain ⟨htype, hany⟩ := hforward
        cases h
        refine Or.inr ⟨htype, ?_, ?_⟩
        · simp only [htype, setQueue, any_eq_true, decide_eq_true_eq] at hany
          obtain ⟨w, hw, heq⟩ := hany
          exact ⟨w, hw, heq.symm⟩
        · simp only [htype, setQueue, getQueue, dropLast_concat]
      · cases h
        exact Or.inl rfl

def withBurst (cfg : ControllerConfig) (req : Request) : Request :=
  { req with
    burstCount := cfg.hmc.burstCount
    transactionBytes := cfg.hmc.payloadFlits * 16 }

def buffered (c : Controller) (packet : Packet) : Controller :=
  { c with
    incomingPacketsBuffer :=
      update c.incomingPacketsBuffer packet.req.reqid (some packet) }

/-- `receive` buffers the packet and enqueues its request; it only insists on a
    request packet. -/
theorem receive_ends (cfg : ControllerConfig) (c : Controller) (packet : Packet) :
    Ends (c.receive cfg packet) (fun out => packet.type = .request ∧
        out.2.1 = { packet with req := withBurst cfg packet.req } ∧
        ((out.1 = true ∧
            (c.buffered out.2.1).enqueue cfg (withBurst cfg packet.req) = some out.2.2) ∨
          (out.1 = false ∧ (c.buffered out.2.1).enqueue cfg (withBurst cfg packet.req) = none ∧
            out.2.2 = c.buffered out.2.1))) (fun e => e = .packetType) := by
  unfold receive
  refine Ends.ite (fun htype => ?_) (fun _ => rfl)
  simp only
  split
  · next c' henq => exact ⟨htype, rfl, Or.inl ⟨rfl, henq⟩⟩
  · next henq => exact ⟨htype, rfl, Or.inr ⟨rfl, henq, rfl⟩⟩

theorem receive_frame (cfg : ControllerConfig) (c : Controller) {packet : Packet}
    (htype : packet.req.type = .read ∨ packet.req.type = .write) : Ends (c.receive cfg packet)
      (fun out => ∃ incomingPacketsBuffer readq writeq pending,
        out.2.2 = { c with incomingPacketsBuffer, readq, writeq, pending })
      (fun e => e = .packetType) := by
  refine (receive_ends cfg c packet).weaken ?_
  rintro out ⟨-, -, ⟨-, henq⟩ | ⟨-, -, hsame⟩⟩
  · obtain ⟨-, hqueue | ⟨-, -, hpending⟩⟩ := enqueue_cases henq
    · rw [hqueue]
      rcases htype with ht | ht <;> simp only [withBurst, ht] <;> exact ⟨_, _, _, _, rfl⟩
    · exact ⟨_, _, _, _, hpending⟩
  · exact ⟨_, _, _, _, hsame⟩

/-! ## Responses and serving counts -/

theorem updateServingRequests_ends (cfg : ControllerConfig) (c : Controller) (junk delta : Int)
    (req : Request) : Ends (c.updateServingRequests cfg junk delta req)
      (fun c' => ∃ channel, NodeTree.Rel Node.SameButStats c.channel channel ∧
        c' = { c with channel })
      (fun e => e.isServing = true) := by
  unfold updateServingRequests
  refine Ends.bind (DRAM.updateServingRequests_ends _ _ _ _ _) ?_
  intro channel hrel
  exact Ends.pure ⟨channel, hrel, rfl⟩

def responded (cfg : ControllerConfig) (c : Controller) (reqPacket : Packet) (req : Request) :
    Controller :=
  { c with
    incomingPacketsBuffer := update c.incomingPacketsBuffer req.reqid none
    responsePacketsBuffer := c.responsePacketsBuffer ++ [responseTo cfg reqPacket req] }

theorem respond_ends (cfg : ControllerConfig) (c : Controller) (req : Request) :
    Ends (c.respond cfg req)
      (fun c' => ∃ reqPacket, c.incomingPacketsBuffer req.reqid = some reqPacket ∧
        c' = c.responded cfg reqPacket req)
      (fun e => (e = .responseLookup ∧ c.incomingPacketsBuffer req.reqid = none) ∨
        e = .packetField) := by
  unfold respond formResponsePacket
  cases hlookup : c.incomingPacketsBuffer req.reqid with
  | none => exact Or.inl ⟨rfl, rfl⟩
  | some reqPacket =>
    simp only
    split
    · exact ⟨reqPacket, rfl, rfl⟩
    · exact Or.inr rfl

/-! ## The first step of a tick -/

/-- What the first step of a tick can do. -/
inductive Served (cfg : ControllerConfig) (c : Controller) :
    List Request → Controller → Prop
  /-- Nothing is due. -/
  | idle : Served cfg c [] c
  /-- PIM mode: the callback of a finished request runs. -/
  | callback {req rest channel} (hpim : cfg.pimModeEnabled = true)
      (hpending : c.pending = req :: rest) (hdue : req.depart ≤ c.clk)
      (hrel : NodeTree.Rel Node.SameButStats c.channel channel)
      (htype : req.type = .read ∨ req.type = .write)
      (hlookup : (c.incomingPacketsBuffer req.reqid).isSome) :
      Served cfg c [{ req with departHmc := c.clk }] { c with
        channel
        incomingPacketsBuffer := update c.incomingPacketsBuffer req.reqid none
        pending := rest }
  /-- PIM mode: a request of another type stays at the head of `pending`. -/
  | stuck {req rest channel} (hpim : cfg.pimModeEnabled = true)
      (hpending : c.pending = req :: rest) (hdue : req.depart ≤ c.clk)
      (hrel : NodeTree.Rel Node.SameButStats c.channel channel)
      (htype : ¬ (req.type = .read ∨ req.type = .write)) :
      Served cfg c [] { c with channel, pending := { req with departHmc := c.clk } :: rest }
  /-- Host mode: the response to a finished read is formed. -/
  | response {req rest channel reqPacket} (hpim : cfg.pimModeEnabled = false)
      (hpending : c.pending = req :: rest) (hdue : req.depart ≤ c.clk)
      (hrel : NodeTree.Rel Node.SameButStats c.channel channel)
      (hlookup : c.incomingPacketsBuffer req.reqid = some reqPacket) :
      Served cfg c [] { c.responded cfg reqPacket req with channel, pending := rest }

section

variable (cfg : ControllerConfig)

theorem endServing_ends (c : Controller) (junk : Int) (req : Request) :
    Ends (c.endServing cfg junk req)
      (fun c' => ∃ channel, NodeTree.Rel Node.SameButStats c.channel channel ∧
        c' = { c with channel })
      (fun e => e.isServing = true) := by
  refine Ends.ite (fun _ => updateServingRequests_ends cfg c junk (-1) req) (fun _ => ?_)
  exact ⟨c.channel, NodeTree.Rel.refl Node.SameButStats.refl _, rfl⟩

/-- The head of `pending` was not received, or its response is not a packet. -/
def ResponseFails (c : Controller) (e : Abort) : Prop :=
  (e = .responseLookup ∧ ∃ req rest, c.pending = req :: rest ∧
    c.incomingPacketsBuffer req.reqid = none) ∨ e = .packetField

section

variable (c : Controller)

theorem serveCompleted_ends (junk : Int) :
    Ends (c.serveCompleted cfg junk) (fun out => Served cfg c out.1 out.2)
      (fun e => e.isServing = true ∨ c.ResponseFails e) := by
  unfold serveCompleted
  split
  · exact .idle
  · next req rest hpending =>
    refine Ends.ite (fun hdue => ?_) (fun _ => .idle)
    refine Ends.bind ((endServing_ends cfg c junk req).weaken_abort (fun _ h => Or.inl h)) ?_
    rintro c₁ ⟨channel, hrel, rfl⟩
    refine Ends.ite (fun hpim => ?_) (fun hpim => ?_)
    · refine Ends.ite (fun htype => ?_) (fun htype => .stuck hpim hpending hdue hrel htype)
      dsimp only
      split
      · next hlookup => exact Or.inr (Or.inl ⟨rfl, req, rest, hpending, hlookup⟩)
      · next reqPacket hlookup =>
        exact .callback hpim hpending hdue hrel htype (by rw [hlookup]; rfl)
    · have hhost : cfg.pimModeEnabled = false := by simpa using hpim
      refine Ends.bind ((respond_ends cfg { c with channel } req).weaken_abort ?_) ?_
      · rintro e (⟨rfl, hlookup⟩ | rfl)
        · exact Or.inr (Or.inl ⟨rfl, req, rest, hpending, hlookup⟩)
        · exact Or.inr (Or.inr rfl)
      · rintro c' ⟨reqPacket, hlookup, rfl⟩
        exact .response hhost hpending hdue hrel hlookup

/-! ## Refresh and write mode -/

theorem tickRef_ends : Ends (c.tickRef cfg) (fun c' => ∃ refresh, c' = { c with refresh } ∨
        c' = { c with
          refresh
          otherq := c.otherq ++ [{ refreshRequest c.channel.val.id with arrive := c.clk }] })
      (fun e => e = .refreshEnqueue) := by
  unfold tickRef
  refine Ends.ite (fun _ => ?_) (fun _ => ⟨_, Or.inl rfl⟩)
  dsimp only
  split
  · rfl
  · next c' henq =>
    obtain ⟨-, rfl | ⟨htype, -⟩⟩ := enqueue_cases henq
    · exact ⟨_, Or.inr rfl⟩
    · cases htype

theorem updateWriteMode_eq : ∃ writeMode, c.updateWriteMode = { c with writeMode } := by
  unfold updateWriteMode
  split
  · split
    · exact ⟨_, rfl⟩
    · exact ⟨_, rfl⟩
  · split
    · exact ⟨_, rfl⟩
    · exact ⟨_, rfl⟩

/-! ## Issuing a command -/

theorem startServing_ends (junk : Int) (req : Request) : Ends (c.startServing cfg junk req)
      (fun c' => ∃ channel, NodeTree.Rel Node.SameButStats c.channel channel ∧
        c' = { c with channel })
      (fun e => e.isServing = true) := by
  refine Ends.ite (fun _ => updateServingRequests_ends cfg c junk 1 req) (fun _ => ?_)
  exact ⟨c.channel, NodeTree.Rel.refl Node.SameButStats.refl _, rfl⟩

def started (req : Request) : Request := { req with isFirstCommand := false }

theorem firstCommand_ends (junk : Int) {type : RequestType} {i : Nat}
    (hi : (c.getQueue type)[i]? = some req) : Ends (c.firstCommand cfg junk type i req)
      (fun out => ∃ channel, NodeTree.Rel Node.SameButStats c.channel channel ∧ out = (started req,
          { c.setQueue type ((c.getQueue type).set i (started req)) with channel }))
      (fun e => e.isServing = true) := by
  unfold firstCommand
  refine Ends.ite (fun _ => ?_) (fun hfirst => ?_)
  · refine Ends.bind (startServing_ends cfg _ junk _) ?_
    rintro c' ⟨channel, hrel, rfl⟩
    refine ⟨channel, ?_, rfl⟩
    cases type <;> exact hrel
  · have hsame : req = started req := by
      have hoff : req.isFirstCommand = false := by simpa using hfirst
      rw [started, ← hoff]
    have hset : (c.getQueue type).set i req = c.getQueue type := by
      obtain ⟨hlt, hget⟩ := List.getElem?_eq_some_iff.mp hi
      rw [← hget]
      exact set_getElem_self hlt
    refine ⟨c.channel, NodeTree.Rel.refl Node.SameButStats.refl _, ?_⟩
    rw [← hsame, hset, setQueue_getQueue]

theorem issueCmd_ends (junk : Int) (cmd : HMC.Command) (v : AddrVec) :
    Ends (c.issueCmd cfg junk cmd v) (fun c' => ∃ channel rowtable, c' = { c with
          channel, rowtable
          cmdTrace := { clk := c.clk, cmd, addrVec := v } :: c.cmdTrace } ∧
        (cfg.noDramLatency = false →
          c.channel.update cfg.hmc.spec cmd (v.data junk) c.clk = .ok channel ∧
          c.rowtable.update cfg.hmc.spec cmd v c.clk junk = .ok rowtable))
      (fun e => e = .notReady ∨ e = .refreshPast ∨ (cfg.noDramLatency = false ∧
        c.rowtable.update cfg.hmc.spec cmd v c.clk junk = .error e)) := by
  unfold issueCmd
  refine Ends.ite (fun _ => ?_) (fun _ => Or.inl rfl)
  unfold updateDram
  by_cases hlat : cfg.noDramLatency = true
  · rw [if_pos hlat]
    have hnot : ¬ cfg.noDramLatency = false := by simp [hlat]
    split
    · exact ⟨_, _, rfl, fun h => absurd h hnot⟩
    · exact Or.inr (Or.inl rfl)
  · rw [if_neg hlat]
    have hoff : cfg.noDramLatency = false := by simpa using hlat
    cases hupdate : c.channel.update cfg.hmc.spec cmd (v.data junk) c.clk with
    | error e =>
      have he : e = .refreshPast := by
        simp only [DRAM.update] at hupdate
        split at hupdate
        · cases hupdate
        · exact (Except.error.inj hupdate).symm
      exact Or.inr (Or.inl he)
    | ok channel =>
      cases htable : c.rowtable.update cfg.hmc.spec cmd v c.clk junk with
      | error e => exact Or.inr (Or.inr ⟨hoff, rfl⟩)
      | ok rowtable => exact ⟨channel, rowtable, rfl, fun _ => ⟨rfl, rfl⟩⟩

end

end

/-! ## The end of a burst -/

/-- What follows a column command: the request counts down, or is done. -/
inductive Counted (cfg : ControllerConfig) (c : Controller) (req : Request) :
    Request → Controller → Prop
  | more (htype : req.type = .read ∨ req.type = .write) (hmore : req.burstCount - 1 ≠ 0) :
      Counted cfg c req { req with burstCount := req.burstCount - 1 } c
  | read {req'} (htype : req.type = .read) (hdone : req.burstCount - 1 = 0)
      (hreq : req' = { req with
        burstCount := req.burstCount - 1, depart := c.clk + cfg.hmc.readLatency }) :
      Counted cfg c req req' { c with pending := c.pending ++ [req'] }
  | write {req' reqPacket channel} (htype : req.type = .write) (hdone : req.burstCount - 1 = 0)
      (hreq : req' = { req with burstCount := req.burstCount - 1 })
      (hlookup : c.incomingPacketsBuffer req.reqid = some reqPacket)
      (hrel : NodeTree.Rel Node.SameButStats c.channel channel) :
      Counted cfg c req req' { c.responded cfg reqPacket req' with channel }
  | other (htype : ¬ (req.type = .read ∨ req.type = .write)) : Counted cfg c req req c

theorem countBurst_ends (cfg : ControllerConfig) (c : Controller) (junk : Int) (req : Request) :
    Ends (c.countBurst cfg junk req) (fun out => Counted cfg c req out.1 out.2)
      (fun e => e.isServing = true ∨ (e = .responseLookup ∧ req.type = .write ∧
        c.incomingPacketsBuffer req.reqid = none) ∨ e = .packetField) := by
  unfold countBurst
  split
  · next htype =>
    refine Ends.ite (fun hdone => ?_) (fun hmore => ?_)
    · exact .read htype hdone rfl
    · exact .more (Or.inl htype) hmore
  · next htype =>
    refine Ends.ite (fun hdone => ?_) (fun hmore => ?_)
    · refine Ends.bind (Q := fun c' => ∃ reqPacket channel,
          c.incomingPacketsBuffer req.reqid = some reqPacket ∧
          NodeTree.Rel Node.SameButStats c.channel channel ∧
          c' = { c.responded cfg reqPacket
            { req with burstCount := req.burstCount - 1 } with channel }) ?_ ?_
      · unfold completeWrite
        refine Ends.bind ((respond_ends cfg c _).weaken_abort ?_) ?_
        · rintro e (⟨rfl, hlookup⟩ | rfl)
          · exact Or.inr (Or.inl ⟨rfl, htype, hlookup⟩)
          · exact Or.inr (Or.inr rfl)
        · rintro c₁ ⟨reqPacket, hlookup, rfl⟩
          refine (updateServingRequests_ends cfg _ junk (-1) _).imp ?_ (fun _ h => Or.inl h)
          rintro c' ⟨channel, hrel, rfl⟩
          exact ⟨reqPacket, channel, hlookup, hrel, rfl⟩
      · rintro c' ⟨reqPacket, channel, hlookup, hrel, rfl⟩
        exact .write htype hdone rfl hlookup hrel
    · exact .more (Or.inr htype) hmore
  · next hread hwrite =>
    refine .other ?_
    rintro (h | h)
    · exact hread h
    · exact hwrite h

theorem finishBurst_ends (cfg : ControllerConfig) (c : Controller) (junk : Int)
    (type : RequestType) (i : Nat) (req : Request) : Ends (c.finishBurst cfg junk type i req)
      (fun c' => ∃ req₁ c₁, Counted cfg c req req₁ c₁ ∧ c' = c₁.leaveQueue type i req₁)
      (fun e => e.isServing = true ∨ (e = .responseLookup ∧ req.type = .write ∧
        c.incomingPacketsBuffer req.reqid = none) ∨ e = .packetField) := by
  unfold finishBurst
  refine Ends.bind (countBurst_ends cfg c junk req) ?_
  rintro ⟨req₁, c₁⟩ hcounted
  exact ⟨req₁, c₁, hcounted, rfl⟩

/-! ## Steps that issue nothing -/

theorem setQueue_channel (c : Controller) (type : RequestType) (q : List Request) :
    (c.setQueue type q).channel = c.channel := by
  cases type <;> rfl

/-- Nothing is issued, and neither the row table nor the refresh scheduler is asked. -/
structure Quiet (c c' : Controller) : Prop where
  clk : c'.clk = c.clk
  trace : c'.cmdTrace = c.cmdTrace
  table : c'.rowtable = c.rowtable
  refresh : c'.refresh = c.refresh
  channel : NodeTree.Rel Node.SameButStats c.channel c'.channel

section Quiet

variable {c' : Controller} {done : List Request}

theorem Quiet.of_eq (hclk : c'.clk = c.clk) (htrace : c'.cmdTrace = c.cmdTrace)
    (htable : c'.rowtable = c.rowtable) (hrefresh : c'.refresh = c.refresh)
    (hchannel : c'.channel = c.channel) : Quiet c c' := by
  refine ⟨hclk, htrace, htable, hrefresh, ?_⟩
  rw [hchannel]
  exact NodeTree.Rel.refl Node.SameButStats.refl _

theorem Quiet.trans {c₁ c₂ c₃ : Controller} (h₁₂ : Quiet c₁ c₂) (h₂₃ : Quiet c₂ c₃) :
    Quiet c₁ c₃ where
  clk := h₂₃.clk.trans h₁₂.clk
  trace := h₂₃.trace.trans h₁₂.trace
  table := h₂₃.table.trans h₁₂.table
  refresh := h₂₃.refresh.trans h₁₂.refresh
  channel := h₁₂.channel.trans (fun _ _ _ h h' => h.trans h') h₂₃.channel

theorem Quiet.setQueue (c : Controller) (type : RequestType) (q : List Request) :
    Quiet c (c.setQueue type q) := by
  cases type <;> exact .of_eq rfl rfl rfl rfl rfl

theorem Quiet.started {channel : HMC.Tree}
    (hrel : NodeTree.Rel Node.SameButStats c.channel channel) (type : RequestType)
    (q : List Request) : Quiet c { c.setQueue type q with channel } :=
  have hset := Quiet.setQueue c type q
  ⟨hset.clk, hset.trace, hset.table, hset.refresh, hrel⟩

theorem Quiet.leaveQueue (c : Controller) (type : RequestType) (i : Nat) (req : Request) :
    Quiet c (c.leaveQueue type i req) := by
  unfold Controller.leaveQueue
  split
  · exact .setQueue ..
  · exact .setQueue ..

theorem Counted.quiet {req' : Request} (h : Counted cfg c req req' c') : Quiet c c' := by
  cases h with
  | more _ _ | read _ _ _ | other _ => exact .of_eq rfl rfl rfl rfl rfl
  | write _ _ _ _ hrel => exact ⟨rfl, rfl, rfl, rfl, hrel⟩

theorem Served.quiet (h : Served cfg c done c') : Quiet c c' := by
  cases h with
  | idle => exact .of_eq rfl rfl rfl rfl rfl
  | callback _ _ _ hrel | stuck _ _ _ hrel | response _ _ _ hrel =>
    exact ⟨rfl, rfl, rfl, rfl, hrel⟩

theorem Counted.otherq_eq {req' : Request} (h : Counted cfg c req req' c') :
    c'.otherq = c.otherq := by
  cases h <;> rfl

theorem Served.otherq_eq (h : Served cfg c done c') : c'.otherq = c.otherq := by
  cases h <;> rfl

end Quiet

/-! ## The fourth step of a tick -/

/-- Asking the scheduler leaves the row table as it is. -/
def Undisturbed (cfg : ControllerConfig) (junk : Int) (c : Controller) : Prop :=
  (Scheduler.getHead cfg.hmc.spec (c.view cfg junk) (HMC.scope .pre) cfg.scheduler
    (c.getQueue c.selectQueue) c.rowtable).2 = c.rowtable

theorem undisturbed_of_ne (hcap : cfg.scheduler ≠ .frfcfsCap) (junk : Int) (c : Controller) :
    c.Undisturbed cfg junk :=
  Scheduler.getHead_table hcap rfl

theorem schedule_cases (cfg : ControllerConfig) (c : Controller) (junk : Int) :
    ∃ rowtable, (c.Undisturbed cfg junk → rowtable = c.rowtable) ∧
      (∀ P, c.rowtable.Keys P → (∀ req ∈ c.getQueue c.selectQueue, P (req.addrVec.take 3)) →
        RowTable.Keys P rowtable) ∧ (c.schedule cfg junk = noHead cfg junk { c with rowtable } ∨
        ∃ i req, (c.getQueue c.selectQueue)[i]? = some req ∧ c.isReady cfg junk req = true ∧
          c.schedule cfg junk = serveHead cfg junk { c with rowtable } c.selectQueue i req) := by
  unfold Undisturbed
  cases hhead : Scheduler.getHead cfg.hmc.spec (c.view cfg junk) (HMC.scope .pre)
      cfg.scheduler (c.getQueue c.selectQueue) c.rowtable with
  | mk head rowtable =>
    refine ⟨rowtable, fun hsame => hsame,
      fun P hkeys hq => Scheduler.getHead_keys hkeys hq hhead, ?_⟩
    cases head with
    | none => exact Or.inl (by simp only [schedule, hhead])
    | some head =>
      obtain ⟨i, req⟩ := head
      by_cases hready : isReady cfg junk { c with rowtable } req = true
      · refine Or.inr ⟨i, req, Scheduler.getHead_some hhead, hready, ?_⟩
        simp only [schedule, hhead, hready, if_true]
      · refine Or.inl ?_
        simp only [schedule, hhead, if_neg hready]

/-- `tick` up to the point where it asks the scheduler. -/
def prepare (cfg : ControllerConfig) (junk : Int) (c : Controller) :
    Except Abort (List Request × Controller) := do
  let c := { c with clk := c.clk + 1 }
  let (done, c) ← c.serveCompleted cfg junk
  let c ← c.tickRef cfg
  pure (done, c.updateWriteMode)

theorem tick_eq_prepare (cfg : ControllerConfig) (c : Controller) (junk : Int) :
    c.tick cfg junk = c.prepare cfg junk >>= fun out =>
      out.2.schedule cfg junk >>= fun c => pure (out.1, c) := by
  simp only [tick, prepare, bind_assoc, pure_bind]

theorem prepare_ends (cfg : ControllerConfig) (c : Controller) (junk : Int) :
    Ends (c.prepare cfg junk)
      (fun out => ∃ c₁ refresh writeMode, Served cfg { c with clk := c.clk + 1 } out.1 c₁ ∧
        (out.2 = { c₁ with refresh, writeMode } ∨ out.2 = { c₁ with
          refresh, writeMode
          otherq := c₁.otherq ++ [{ refreshRequest c₁.channel.val.id with arrive := c₁.clk }] }))
      (fun e => (e.isServing = true ∨ ResponseFails { c with clk := c.clk + 1 } e) ∨
        e = .refreshEnqueue) := by
  refine Ends.bind ((serveCompleted_ends cfg _ junk).weaken_abort fun _ he => Or.inl he) ?_
  rintro ⟨done, c₁⟩ hserved
  refine Ends.bind ((tickRef_ends cfg c₁).weaken_abort fun _ he => Or.inr he) ?_
  rintro c₂ ⟨refresh, hc₂⟩
  obtain ⟨writeMode, hmode⟩ := updateWriteMode_eq c₂
  refine Ends.pure ⟨c₁, refresh, writeMode, hserved, ?_⟩
  rw [hmode]
  exact hc₂.imp (fun h => by rw [h]) (fun h => by rw [h])

/-! ## Rules for a tick -/

theorem tick_ends {P : List Request × Controller → Prop} {Q : List Request → Controller → Prop}
    (hprepare : Ends (c.prepare cfg junk) P E)
    (hschedule : ∀ out, P out → Ends (out.2.schedule cfg junk) (Q out.1) E) :
    Ends (c.tick cfg junk) (fun out => Q out.1 out.2) E := by
  rw [tick_eq_prepare]
  exact Ends.bind hprepare fun out hout => Ends.bind (hschedule out hout) fun _ h => Ends.pure h

/-- What the procedures of the fourth step have to keep: `I` holds before the
    command of the tick and `J` after it. -/
structure IssueRule (cfg : ControllerConfig) (junk : Int) (I J : Controller → Prop)
    (E : Abort → Prop) : Prop where
  idle : ∀ c, I c → J c
  first : ∀ c type i req, I c → (c.getQueue type)[i]? = some req → c.isReady cfg junk req = true →
    Ends (c.firstCommand cfg junk type i req) (fun out => I out.2) E
  issue : ∀ c type req, I c → req ∈ c.getQueue type →
    Ends (c.issueCmd cfg junk (c.getFirstCmd cfg junk req) req.addrVec) J E
  victim : ∀ c g e, I c → cfg.noDramLatency = false → cfg.rowpolicy ≠ .opened →
    (g, e) ∈ c.rowtable → Ends (c.issueCmd cfg junk .pre g) J E
  finish : ∀ c type i req, J c → (c.getQueue type)[i]? = some req → req.isFirstCommand = false →
    c.cmdTrace.head? = some ⟨c.clk, HMC.translate req.type, req.addrVec⟩ →
    Ends (c.finishBurst cfg junk type i req) J E

namespace IssueRule

variable {I J : Controller → Prop} {E : Abort → Prop} (rule : IssueRule cfg junk I J E)
include rule

theorem noHead (h : I c) : Ends (c.noHead cfg junk) J E := by
  refine Ends.ite (fun _ => rule.idle c h) fun hlat => Ends.ite (fun _ => rule.idle c h) ?_
  intro hvictim
  obtain ⟨e, hmem⟩ := RowPolicyType.getVictim_mem hvictim
  refine rule.victim c _ e h (by simpa using hlat) ?_ hmem
  intro hopened
  rw [hopened] at hvictim
  exact hvictim rfl

theorem serveHead (h : I c) {type : RequestType} {i : Nat} (hi : (c.getQueue type)[i]? = some req)
    (hready : c.isReady cfg junk req = true) : Ends (c.serveHead cfg junk type i req) J E := by
  refine Ends.bind (((rule.first c type i req h hi hready).and
    (firstCommand_ends cfg c junk hi)).weaken_abort fun _ he => he.1) ?_
  rintro _ ⟨h₁, channel, -, rfl⟩
  have hi₁ : (({ c.setQueue type ((c.getQueue type).set i (started req)) with
      channel } : Controller).getQueue type)[i]? = some (started req) := by
    cases type <;> exact getElem?_set_self (List.getElem?_eq_some_iff.mp hi).1
  refine Ends.bind (((rule.issue _ type (started req) h₁ (mem_of_getElem? hi₁)).and
    (issueCmd_ends cfg _ junk _ _)).weaken_abort fun _ he => he.1) ?_
  rintro _ ⟨h₂, channel₂, rowtable₂, rfl, -⟩
  refine Ends.ite (fun hlast => ?_) (fun _ => h₂)
  refine rule.finish _ type i (started req) h₂ ?_ rfl (by rw [← hlast]; rfl)
  rw [← hi₁]
  cases type <;> rfl

theorem schedule (hasked : ∀ rowtable, (c.Undisturbed cfg junk → rowtable = c.rowtable) →
      (∀ P, c.rowtable.Keys P → (∀ req ∈ c.getQueue c.selectQueue, P (req.addrVec.take 3)) →
        RowTable.Keys P rowtable) → I { c with rowtable }) : Ends (c.schedule cfg junk) J E := by
  obtain ⟨rowtable, hsame, hkeys, hcases⟩ := schedule_cases cfg c junk
  have h := hasked rowtable hsame hkeys
  rcases hcases with hnone | ⟨i, req, hi, hready, hserve⟩
  · rw [hnone]
    exact rule.noHead h
  · rw [hserve]
    refine rule.serveHead h ?_ hready
    rw [← hi]
    cases c.selectQueue <;> rfl

end IssueRule

/-- A tick keeps what its steps keep: `I` up to the command, `J` from there on. -/
theorem tick_rule {I J : List Request → Controller → Prop}
    (rule : ∀ done, IssueRule cfg junk (I done) (J done) E)
    (hserved : Ends (serveCompleted cfg junk { c with clk := c.clk + 1 })
      (fun out => I out.1 out.2) E)
    (hframe : ∀ done c refresh writeMode, I done c → I done { c with refresh, writeMode })
    (hrefresh : ∀ done c, I done c → I done { c with
      otherq := c.otherq ++ [{ refreshRequest c.channel.val.id with arrive := c.clk }] })
    (hfull : E .refreshEnqueue) (hasked : ∀ done c rowtable, I done c →
      (∀ P, c.rowtable.Keys P → (∀ req ∈ c.getQueue c.selectQueue, P (req.addrVec.take 3)) →
        RowTable.Keys P rowtable) → I done { c with rowtable }) :
    Ends (c.tick cfg junk) (fun out => J out.1 out.2) E := by
  refine tick_ends (P := fun out => I out.1 out.2) ?_ fun out h₃ =>
    (rule out.1).schedule fun rowtable _ hkeys => hasked out.1 out.2 rowtable h₃ hkeys
  refine Ends.bind hserved fun out h₁ => ?_
  refine Ends.bind ((tickRef_ends cfg out.2).weaken_abort ?_) ?_
  · rintro _ rfl
    exact hfull
  · rintro c₂ ⟨refresh, hc₂⟩
    obtain ⟨writeMode, hmode⟩ := updateWriteMode_eq c₂
    rw [hmode]
    rcases hc₂ with rfl | rfl
    · exact hframe out.1 out.2 refresh writeMode h₁
    · have h₂ := hframe out.1 _ refresh writeMode (hrefresh out.1 out.2 h₁)
      exact h₂

end Controller

end Ramulator
