/-
  Ramulator.Completions

  When the callback of a read runs.

  A read gets its completion time `depart` with its last column command, or when
  it finds a write to its address in the queue, and waits in `pending`.  A tick
  looks at the head of `pending` only.  The reads with a column command come in
  order and one in a cycle, so each of them is served in time.  A read that is
  served from the write queue is due in the next cycle; it is served then if it
  is alone in `pending`, and late if another read waits before it.

  What both controllers do with reads is told first, of the two queues alone
  (`Reads`): where a read goes when it arrives (`Enters`), what the scheduler does
  with it (`Departs`), and what a whole tick does (`Departures`, `OnSchedule`).
-/

import Ramulator.Lib.Due
import Ramulator.Generic.ChannelTiming
import Ramulator.Hmc.Protocol

namespace Ramulator

open Outcome List

/-- The tick at `clk` runs the callbacks that are due at `clk`; `mark` is what it notes. -/
structure OnSchedule (mark : Request → Request) (clk : Int) (pending done : List Request) :
    Prop where
  done_eq : done = (pending.filter fun req => decide (req.depart = clk)).map mark
  not_late : ∀ req ∈ pending, clk ≤ req.depart

variable {pending : List Request} {clk : Int}

theorem OnSchedule.depart_eq {mark : Request → Request} {done : List Request}
    (h : OnSchedule mark clk pending done) (hmark : ∀ req, (mark req).depart = req.depart) :
    ∀ req ∈ done, req.depart = clk := by
  intro req hreq
  rw [h.done_eq] at hreq
  obtain ⟨req', hreq', rfl⟩ := mem_map.mp hreq
  rw [hmark]
  simpa using (mem_filter.mp hreq').2

theorem OnSchedule.eq_clk {mark : Request → Request} {done : List Request}
    (h : OnSchedule mark clk pending done) (hmark : ∀ req, (mark req).depart = req.depart)
    {t : Int} {ts : List Int} (hdone : done.map Request.depart = t :: ts) : t = clk := by
  obtain ⟨req, hreq, rfl⟩ := exists_of_map_eq_cons hdone
  exact h.depart_eq hmark req hreq

/-- A read as it arrived, without what its service changes; where reads are served as
    migrations, an extension was a read. -/
def Request.origin (migrates : Bool) (req : Request) : Request :=
  { req with
    isFirstCommand := true, depart := 0, burstCount := 0
    type := if migrates && decide (req.type = .extension) then .read else req.type }

/-- What the reads of a controller need to know of it. -/
structure Reads where
  clk : Int
  readq : List Request
  pending : List Request

namespace Reads

def origins (migrates : Bool) (s : Reads) : List Request := s.readq.map (Request.origin migrates)

/-- A request is taken: a read is queued, or it finds a write to its address in the queue
    and departs in the next cycle. -/
def Enters (req : Request) (writeq : List Request) (s s' : Reads) : Prop :=
  s' = { s with readq :=
    s.readq ++ if req.type = .read then [{ req with arrive := s.clk }] else [] } ∨
  (req.type = .read ∧ (∃ w ∈ writeq, w.addr = req.addr) ∧ s' = { s with
    pending := s.pending ++ [{ req with arrive := s.clk, depart := s.clk + 1 }] })

/-- A read leaves its queue at `clk`: it is pending now, departs after `latency`, and
    `issued` says which command it left with. -/
def Leaves (migrates : Bool) (clk latency : Int) (issued : Request → Prop) (s s' : Reads) : Prop :=
  ∃ i, ∃ req ∈ s'.pending, (s.origins migrates)[i]? = some (req.origin migrates) ∧
    s'.origins migrates = (s.origins migrates).eraseIdx i ∧ req.depart = clk + latency ∧
    issued req

/-- A tick: a pending read that is not due stays, and no queued one is lost. -/
structure Departures (migrates : Bool) (latency : Int) (issued : Request → Prop) (s s' : Reads) :
    Prop where
  clk : s'.clk = s.clk + 1
  stays : ∀ req ∈ s.pending, s'.clk < req.depart → req ∈ s'.pending
  queued : s'.origins migrates = s.origins migrates ∨ Leaves migrates s'.clk latency issued s s'

/-- The reads are the same, but for the marks of their service. -/
structure Same (migrates : Bool) (s s' : Reads) : Prop where
  clk : s'.clk = s.clk
  pending : s'.pending = s.pending
  origins : s'.origins migrates = s.origins migrates

/-- The scheduler: at most one read gets its completion time, `latency` from now. -/
structure Departs (migrates : Bool) (latency : Int) (issued : Request → Prop) (s s' : Reads) :
    Prop where
  clk : s'.clk = s.clk
  pending : s'.pending = s.pending ∨ ∃ req, (req.origin migrates).type = .read ∧
    req.depart = s.clk + latency ∧ s'.pending = s.pending ++ [req]
  queued : s'.origins migrates = s.origins migrates ∨ Leaves migrates s.clk latency issued s s'

/-- The pending reads depart in order, not before now and not after a read issued now, and
    only reads are queued. -/
structure InOrder (migrates : Bool) (latency : Int) (s : Reads) : Prop where
  onTime : Due.OnTime Request.depart s.clk (s.clk + latency) s.pending
  pending : ∀ req ∈ s.pending, (req.origin migrates).type = .read
  queued : ∀ req ∈ s.origins migrates, req.type = .read

/-- Time has passed, and what is not due yet is still pending. -/
structure Later (migrates : Bool) (latency : Int) (s s' : Reads) : Prop where
  inOrder : s'.InOrder migrates latency
  clk : s.clk ≤ s'.clk
  stays : ∀ req ∈ s.pending, s'.clk < req.depart → req ∈ s'.pending

variable {migrates : Bool} {latency : Int} {issued : Request → Prop} {s s₁ s₂ s₃ s' : Reads}
  {i : Nat} {req req' : Request} {q : List Request}

theorem origins_set (hi : q[i]? = some req) (h : req'.origin migrates = req.origin migrates) :
    origins migrates ⟨clk, q.set i req', pending⟩ = origins migrates ⟨clk, q, pending⟩ := by
  obtain ⟨hlt, hget⟩ := List.getElem?_eq_some_iff.mp hi
  have hself := set_getElem_self
    (show i < (q.map (Request.origin migrates)).length by simpa using hlt)
  rwa [getElem_map, hget, ← h, ← map_set] at hself

/-- A read with its completion time leaves the queue. -/
theorem Departs.of_leaves (hi : q[i]? = some req) (h : req'.origin migrates = req.origin migrates)
    (hread : (req.origin migrates).type = .read) (hdepart : req'.depart = clk + latency)
    (hissued : issued req') :
    Departs migrates latency issued ⟨clk, q, pending⟩ ⟨clk, q.eraseIdx i, pending ++ [req']⟩ := by
  have hat : (q.map (Request.origin migrates))[i]? = some (req'.origin migrates) := by
    rw [getElem?_map, hi, h]
    rfl
  refine ⟨rfl, Or.inr ⟨req', h ▸ hread, hdepart, rfl⟩, Or.inr ⟨i, req', ?_, hat, ?_, hdepart,
    hissued⟩⟩
  · exact mem_append_right _ (mem_singleton.mpr rfl)
  · exact (eraseIdx_map _ q i).symm

theorem Same.refl (s : Reads) : Same migrates s s := ⟨rfl, rfl, rfl⟩

theorem Same.trans (h₁₂ : Same migrates s₁ s₂) (h₂₃ : Same migrates s₂ s₃) : Same migrates s₁ s₃ :=
  ⟨h₂₃.clk.trans h₁₂.clk, h₂₃.pending.trans h₁₂.pending, h₂₃.origins.trans h₁₂.origins⟩

theorem Same.departs (h : Same migrates s s') : Departs migrates latency issued s s' :=
  ⟨h.clk, Or.inl h.pending, Or.inl h.origins⟩

theorem Departs.after (h₂₃ : Departs migrates latency issued s₂ s₃) (h₁₂ : Same migrates s₁ s₂) :
    Departs migrates latency issued s₁ s₃ := by
  obtain ⟨hclk, hpending, hqueued⟩ := h₂₃
  unfold Leaves at hqueued
  rw [h₁₂.clk] at hclk hpending hqueued
  rw [h₁₂.pending] at hpending
  rw [h₁₂.origins] at hqueued
  exact ⟨hclk, hpending, hqueued⟩

/-- A new controller has no reads. -/
theorem InOrder.new (migrates : Bool) (latency : Int) : InOrder migrates latency ⟨0, [], []⟩ :=
  ⟨Due.OnTime.nil _ _, fun _ h => absurd h not_mem_nil, fun _ h => absurd h not_mem_nil⟩

/-- The end of a tick, from what its first step left. -/
theorem InOrder.tick {t : Reads} (hlatency : 0 < latency) (h : InOrder migrates latency s)
    (hclk : t.clk = s.clk + 1) (hrest : t.pending = Due.rest Request.depart (s.clk + 1) s.pending)
    (horigins : t.origins migrates = s.origins migrates)
    (hdeparts : Departs migrates latency issued t s') :
    InOrder migrates latency s' ∧ Departures migrates latency issued s s' := by
  obtain ⟨hclk', hpending, hqueued⟩ := hdeparts
  unfold Leaves at hqueued
  rw [hclk] at hclk' hpending hqueued
  rw [hrest] at hpending
  rw [horigins] at hqueued
  refine ⟨⟨?_, ?_, ?_⟩, hclk', ?_, ?_⟩
  · rw [hclk']
    exact h.onTime.step hlatency (hpending.imp_right fun ⟨req, _, hreq⟩ => ⟨req, hreq⟩)
  · intro req hreq
    have hold : req ∈ Due.rest Request.depart (s.clk + 1) s.pending →
        (req.origin migrates).type = .read := fun hreq => h.pending req (Due.rest_subset hreq)
    rcases hpending with hsame | ⟨req', hread, -, hpush⟩
    · exact hold (hsame ▸ hreq)
    · rw [hpush, mem_append, mem_singleton] at hreq
      rcases hreq with hreq | rfl
      · exact hold hreq
      · exact hread
  · intro req hreq
    rcases hqueued with hsame | ⟨i, -, -, -, herase, -⟩
    · exact h.queued req (hsame ▸ hreq)
    · rw [herase] at hreq
      exact h.queued req (mem_of_mem_eraseIdx hreq)
  · intro req hreq hlater
    have hmem := Due.mem_rest hreq (hclk' ▸ hlater)
    rcases hpending with hsame | ⟨req', -, -, hpush⟩
    · exact hsame ▸ hmem
    · exact hpush ▸ mem_append_left _ hmem
  · unfold Leaves
    rwa [hclk']

theorem Departures.later (h : Departures migrates latency issued s s')
    (hs' : InOrder migrates latency s') : Later migrates latency s s' :=
  ⟨hs', by rw [h.clk]; omega, h.stays⟩

/-- An arrival; a read that is served from the write queue has to be alone. -/
theorem InOrder.enters {writeq : List Request} (hlatency : 0 < latency)
    (h : InOrder migrates latency s) (henters : Enters req writeq s s')
    (halone : req.type = .read → (∃ w ∈ writeq, w.addr = req.addr) → s.pending = []) :
    Later migrates latency s s' := by
  obtain rfl | ⟨htype, hwrite, rfl⟩ := henters
  · refine ⟨⟨h.onTime, h.pending, fun r hr => ?_⟩, le_refl _, fun r hr _ => hr⟩
    rw [origins, map_append, mem_append] at hr
    rcases hr with hr | hr
    · exact h.queued r hr
    · split at hr
      · next htype =>
        rw [mem_singleton.mp hr]
        simp [Request.origin, htype]
      · cases hr
  · rw [halone htype hwrite]
    refine ⟨⟨Due.OnTime.alone rfl hlatency, fun r hr => ?_, h.queued⟩, le_refl _, fun r hr _ => ?_⟩
    · rw [mem_singleton.mp hr]
      simp [Request.origin, htype]
    · rw [halone htype hwrite] at hr
      cases hr

/-- Reads in order of their departure are served one by one. -/
theorem InOrder.onSchedule (h : InOrder migrates latency s) (mark : Request → Request) :
    OnSchedule mark (s.clk + 1) s.pending
      ((Due.done Request.depart (s.clk + 1) s.pending).map mark) :=
  ⟨by rw [h.onTime.done_eq], h.onTime.later⟩

/-! Runs of any machine whose steps keep the reads in order. -/

section

variable {σ ι : Type} {step : σ → ι → Except Abort σ} {P : σ → ι → Prop} {reads : σ → Reads}
  (hstep : ∀ c x, (reads c).InOrder migrates latency → P c x →
    Yields (step c x) (fun c' => Later migrates latency (reads c) (reads c')))
  {c c₁ c₂ c₃ : σ}
include hstep

theorem InOrder.run {inputs : List ι} (h : (reads c).InOrder migrates latency)
    (halong : Along step P inputs c) :
    Yields (inputs.foldlM step c) (fun c' => Later migrates latency (reads c) (reads c')) := by
  refine halong.foldlM (I := fun c' => Later migrates latency (reads c) (reads c'))
    ⟨h, le_refl _, fun _ hreq _ => hreq⟩ ?_
  intro c₁ input _ h₁ hP
  refine (hstep c₁ input h₁.inOrder hP).weaken fun c₂ h₂ =>
    ⟨h₂.inOrder, h₁.clk.trans h₂.clk, fun req hreq hlater => ?_⟩
  exact h₂.stays req (h₁.stays req hreq (lt_of_le_of_lt h₂.clk hlater)) hlater

/-- Before and after the step `x` of a run. -/
theorem InOrder.around {before after : List ι} {x : ι} (h : (reads c).InOrder migrates latency)
    (halong : Along step P (before ++ x :: after) c) (hbefore : before.foldlM step c = .ok c₁)
    (hx : step c₁ x = .ok c₂) (hafter : after.foldlM step c₂ = .ok c₃) :
    (reads c₁).InOrder migrates latency ∧ Later migrates latency (reads c₂) (reads c₃) := by
  have h₁ := (InOrder.run hstep h halong.left).result hbefore
  obtain ⟨hP, hrest⟩ := halong.of_append hbefore
  have h₂ := (hstep c₁ x h₁.inOrder hP).result hx
  exact ⟨h₁.inOrder, (InOrder.run hstep h₂.inOrder (hrest.result hx)).result hafter⟩

end

end Reads

open Reads

/-! ## Any standard -/

namespace Generic.ChannelController

def reads (c : ChannelController) : Reads := ⟨c.clk, c.readq, c.pending⟩

/-- The requests whose callback the next `tick` runs, in its first step. -/
def callbacks (cfg : ChannelConfig) (junk : Int) (c : ChannelController) : List Request :=
  match serveCompleted cfg junk { c with clk := c.clk + 1 } with
  | .ok served => served.1
  | .error _ => []

def ForwardsAlone (c : ChannelController) : ChannelInput → Prop
  | .enqueue req => (c.getQueue req.type).length ≠ queueMax → req.type = .read →
      (∃ w ∈ c.writeq, w.addr = req.addr) → c.pending = []
  | .tick _ _ => True

instance (c : ChannelController) : DecidablePred c.ForwardsAlone
  | .enqueue req => inferInstanceAs (Decidable
      ((c.getQueue req.type).length ≠ queueMax → req.type = .read →
        (∃ w ∈ c.writeq, w.addr = req.addr) → c.pending = []))
  | .tick _ _ => inferInstanceAs (Decidable True)

/-- The newest command was issued for `req`, in this cycle, and is its last one. -/
def LastCommand (cfg : ChannelConfig) (c : ChannelController) (req : Request) : Prop :=
  ∃ addrVec, c.cmdTrace.head? = some ⟨c.clk, cfg.device.translate req.type, addrVec⟩

/-- What a tick does to the reads of a channel. -/
def TickDepartures (cfg : ChannelConfig) (c c' : ChannelController) : Prop :=
  Departures cfg.device.migrates cfg.device.readLatency (LastCommand cfg c') c.reads c'.reads

/-- At most one read leaves its queue, with its last command, in this cycle. -/
def IssuesRead (cfg : ChannelConfig) (c c' : ChannelController) : Prop :=
  Departs cfg.device.migrates cfg.device.readLatency (LastCommand cfg c') c.reads c'.reads

section Steps

variable {cfg : ChannelConfig} {junk : Int} {c c' : ChannelController} {req : Request}

/-- The procedure leaves clock and queues alone. -/
def KeepsQueues (x : Except Abort ChannelController) (c : ChannelController) : Prop :=
  Ends x (fun c' => c'.toController = c.toController) fun _ => True

theorem reads_eq (h : c'.toController = c.toController) : c'.reads = c.reads := by
  unfold reads
  rw [h]

theorem enqueue_enters (h : c.enqueue req = some c') :
    (c.getQueue req.type).length ≠ queueMax ∧ Enters req c.writeq c.reads c'.reads := by
  obtain ⟨queues, hqueues, rfl⟩ := Option.map_eq_some_iff.mp h
  simp only [Controller.enqueue] at hqueues
  split at hqueues
  · cases hqueues
  · next hroom =>
    refine ⟨hroom, ?_⟩
    split at hqueues
    · next hforward =>
      obtain ⟨htype, hany⟩ := hforward
      cases hqueues
      rw [htype] at hany
      obtain ⟨w, hw, heq⟩ := any_eq_true.mp hany
      refine Or.inr ⟨htype, ⟨w, hw, (of_decide_eq_true heq).symm⟩, ?_⟩
      rw [htype]
      exact congrArg (Reads.mk _ · _) dropLast_concat
    · cases hqueues
      left
      cases req.type <;> simp [reads, Controller.setQueue, Controller.getQueue]

section

variable (cfg : ChannelConfig) (c : ChannelController)

theorem updateServingRequests_keeps (junk delta : Int) (req : Request) :
    KeepsQueues (c.updateServingRequests cfg junk delta req) c := by
  refine (updateServingRequests_quiet cfg c junk delta req).yields ?_
  rintro _ ⟨channel, -, rfl⟩
  rfl

theorem serveCompleted_reads (junk : Int) : Yields (c.serveCompleted cfg junk)
      (fun out => out.1 = Due.done Request.depart c.clk c.pending ∧
        out.2.reads = ⟨c.clk, c.readq, Due.rest Request.depart c.clk c.pending⟩) := by
  unfold serveCompleted
  cases hpending : c.pending with
  | nil => exact ⟨rfl, by rw [reads, hpending]; rfl⟩
  | cons req rest =>
    by_cases hdue : req.depart ≤ c.clk
    · simp only [if_pos hdue, Due.rest, Due.done]
      have hends : KeepsQueues (c.endServing cfg junk req) c :=
        Ends.ite (fun _ => updateServingRequests_keeps cfg c junk (-1) req) fun _ => rfl
      exact Ends.bind hends fun c' h' => ⟨rfl, by simp [reads, h']⟩
    · simp only [if_neg hdue, Due.rest, Due.done]
      exact ⟨rfl, by rw [reads, hpending]⟩

theorem refreshTarget_reads (target : RefreshTarget) :
    Yields (c.refreshTarget cfg target) (fun c' => c'.reads = c.reads) := by
  unfold refreshTarget
  cases henqueue : c.enqueue (refreshRequest cfg c.channel.val.id target) with
  | none => trivial
  | some c' =>
    obtain ⟨-, hqueue | ⟨htype, -⟩⟩ := enqueue_enters henqueue
    · exact hqueue.trans (congrArg (Reads.mk _ · _) (append_nil _))
    · cases htype

theorem tickRef_reads (targets : List RefreshTarget) :
    Yields (c.tickRef cfg targets) (fun c' => c'.reads = c.reads) := by
  have hloop : ∀ (targets : List RefreshTarget) (c : ChannelController),
      Yields (targets.foldlM (refreshTarget cfg) c) (fun c' => c'.reads = c.reads) := by
    intro targets c
    refine Ends.foldlM targets rfl fun c₁ target _ h => ?_
    exact (refreshTarget_reads cfg c₁ target).weaken fun c₂ h' => h'.trans h
  refine Ends.ite (fun _ => Ends.ite (fun _ => ?_) fun _ => rfl) fun _ => hloop _ _
  exact Ends.bind (hloop _ _) fun c' h' => h'

theorem updateWriteMode_reads : c.updateWriteMode.reads = c.reads := by
  unfold updateWriteMode Controller.updateWriteMode
  split <;> split <;> rfl

theorem issueCmd_keeps (junk : Int) (cmd : Command) (v : AddrVec) :
    Yields (c.issueCmd cfg junk cmd v) (fun c' => c'.toController = c.toController ∧
      c'.cmdTrace = ⟨c.clk, cmd, v⟩ :: c.cmdTrace) := by
  refine Ends.ite (fun _ => ?_) fun _ => trivial
  refine Ends.bind (updateDram_frame cfg c junk cmd v) ?_
  rintro _ ⟨channel, rowtable, rfl, -, -⟩
  exact ⟨rfl, rfl⟩

theorem noHead_keeps (junk : Int) : KeepsQueues (c.noHead cfg junk) c := by
  refine Ends.ite (fun _ => rfl) fun _ => Ends.ite (fun _ => rfl) fun _ => ?_
  exact (issueCmd_keeps cfg c junk .pre _).weaken fun c' h' => h'.1

end

/-- The request that is served is the one that was chosen, but for its marks. -/
def Marked (cfg : ChannelConfig) (c : ChannelController) (type : RequestType) (i : Nat)
    (req : Request) (out : Request × ChannelController) : Prop :=
  Same cfg.device.migrates c.reads out.2.reads ∧ (out.2.getQueue type)[i]? = some out.1 ∧
    out.1.origin cfg.device.migrates = req.origin cfg.device.migrates

section

variable {type : RequestType} {i : Nat} (hi : (c.getQueue type)[i]? = some req)
include hi

theorem setQueue_marked {req' : Request}
    (h : req'.origin cfg.device.migrates = req.origin cfg.device.migrates) :
    Marked cfg c type i req (req', c.setQueue type ((c.getQueue type).set i req')) := by
  have hlt := (List.getElem?_eq_some_iff.mp hi).1
  refine ⟨?_, ?_, h⟩
  · cases type
    case read => exact ⟨rfl, rfl, origins_set hi h⟩
    all_goals exact Same.refl _
  · cases type <;> exact getElem?_set_self hlt

theorem firstCommand_marked :
    Yields (c.firstCommand cfg junk type i req) (Marked cfg c type i req) := by
  refine Ends.ite (fun _ => ?_) fun _ => ⟨Same.refl _, hi, rfl⟩
  have hstart : ∀ c req, KeepsQueues (startServing cfg junk c req) c := fun c req =>
    Ends.ite (fun _ => updateServingRequests_keeps cfg c junk 1 req) fun _ => rfl
  refine Ends.bind (hstart _ _) fun c' h' => ?_
  obtain ⟨hsame, hat, horigin⟩ : Marked cfg c type i req
      ({ req with isFirstCommand := false }, _) := setQueue_marked hi rfl
  exact ⟨by rw [reads_eq h']; exact hsame, by rw [h']; exact hat, horigin⟩

theorem migrate_marked : Marked cfg c type i req (c.migrate cfg type i req) := by
  unfold migrate
  split
  · next hmigrates =>
    rw [Bool.and_eq_true, decide_eq_true_eq] at hmigrates
    exact setQueue_marked hi (by simp [Request.origin, hmigrates])
  · exact ⟨Same.refl _, hi, rfl⟩

variable (hreads : ∀ req ∈ c.reads.origins cfg.device.migrates, req.type = .read)
include hreads

/-- Only reads are in the read queue. -/
theorem finishRequest_departs (hissued : LastCommand cfg c req) :
    Yields (c.finishRequest cfg junk type i req) (IssuesRead cfg c) := by
  have hwrite : ∀ c : ChannelController, Yields (c.completeWrite cfg junk req)
      (fun c' => c'.toController = c.toController ∧ (req.type ≠ .write → c' = c)) := by
    intro c
    refine Ends.ite (fun hwrite => ?_) fun _ => ⟨rfl, fun _ => rfl⟩
    exact (updateServingRequests_keeps cfg c junk (-1) req).weaken
      fun c' h' => ⟨h', fun hne => absurd hwrite hne⟩
  -- `complete` is for reads, and for what TLDRAM makes of them
  have hkind : (req.origin cfg.device.migrates).type = .read ↔
      req.type = .read ∨ (cfg.device.migrates ∧ req.type = .extension) := by
    simp only [Request.origin]
    cases cfg.device.migrates <;> cases req.type <;> simp
  refine Ends.bind (hwrite _) fun c' h' => ?_
  by_cases htype : type = .read
  · subst htype
    have hread := hreads _ (mem_map_of_mem (mem_of_getElem? hi))
    have hc' : c' = _ := h'.2 (by rcases hkind.mp hread with h | ⟨-, h⟩ <;> simp [h])
    rw [hc', complete, if_pos (hkind.mp hread)]
    exact Departs.of_leaves hi rfl hread rfl hissued
  · have hset : (c'.setQueue type ((c'.getQueue type).eraseIdx i)).reads = c'.reads := by
      cases type
      case read => exact absurd rfl htype
      all_goals rfl
    show IssuesRead cfg c (c'.setQueue type ((c'.getQueue type).eraseIdx i))
    rw [IssuesRead, hset, reads_eq h'.1, complete]
    split
    · next hcompletes =>
      exact ⟨rfl, Or.inr ⟨{ req with depart := c.clk + cfg.device.readLatency },
        hkind.mpr hcompletes, rfl, rfl⟩, Or.inl rfl⟩
    · exact ⟨rfl, Or.inl rfl, Or.inl rfl⟩

theorem issueFor_departs : Yields (c.issueFor cfg junk type i req) (IssuesRead cfg c) := by
  refine Ends.bind (issueCmd_keeps cfg c junk _ _) ?_
  rintro c' ⟨hsame, htrace⟩
  unfold IssuesRead
  rw [← reads_eq hsame] at hreads ⊢
  refine Ends.ite (fun hlast => ?_) fun _ => (Same.refl _).departs
  refine finishRequest_departs (by rw [hsame]; exact hi) hreads ?_
  rw [LastCommand, htrace, hsame, ← hlast]
  exact ⟨_, rfl⟩

end

theorem schedule_departs (hreads : ∀ req ∈ c.reads.origins cfg.device.migrates, req.type = .read) :
    Yields (c.schedule cfg junk) (IssuesRead cfg c) := by
  have hnone : ∀ rowtable, Yields (noHead cfg junk { c with rowtable }) (IssuesRead cfg c) := by
    intro rowtable
    refine (noHead_keeps cfg _ junk).weaken fun c' h' => ?_
    rw [IssuesRead, reads_eq h']
    exact (Same.refl _).departs
  simp only [schedule]
  cases hhead : c.getHead cfg junk c.selectQueue with
  | mk head rowtable =>
    cases head with
    | none => exact hnone rowtable
    | some head =>
      refine Ends.ite (fun _ => ?_) fun _ => hnone rowtable
      have hi : (c.getQueue c.selectQueue)[head.1]? = some head.2 := Scheduler.getHead_some hhead
      refine Ends.bind (firstCommand_marked (c := { c with rowtable }) hi) ?_
      rintro ⟨req₁, c₁⟩ ⟨h₁, hi₁, -⟩
      obtain ⟨h₂, hi₂, -⟩ : Marked cfg c₁ c.selectQueue head.1 req₁ _ := migrate_marked hi₁
      have hsame : Same cfg.device.migrates c.reads _ := h₁.trans h₂
      rw [← hsame.origins] at hreads
      exact (issueFor_departs hi₂ hreads).weaken fun c₃ h₃ => h₃.after hsame

section

variable (h : c.reads.InOrder cfg.device.migrates cfg.device.readLatency)
include h

theorem tick_inOrder (hlatency : 0 < cfg.device.readLatency) (targets : List RefreshTarget) :
    Yields (c.tick cfg junk targets)
      (fun c' => c'.reads.InOrder cfg.device.migrates cfg.device.readLatency ∧
        TickDepartures cfg c c' ∧
        OnSchedule (fun req => req) (c.clk + 1) c.pending (c.callbacks cfg junk)) := by
  unfold tick prepare
  simp only [bind_assoc, pure_bind]
  refine Ends.bind (serveCompleted_reads cfg { c with clk := c.clk + 1 } junk).remember ?_
  rintro ⟨done, c₁⟩ ⟨hserved, hdone, hreads₁⟩
  refine Ends.bind (tickRef_reads cfg c₁ targets) fun c₂ h₂ => ?_
  have hreads : c₂.updateWriteMode.reads = ⟨c.clk + 1, c.readq, Due.rest _ _ _⟩ :=
    (updateWriteMode_reads c₂).trans (h₂.trans hreads₁)
  refine (schedule_departs (c := c₂.updateWriteMode) ?_).weaken fun c₃ h₃ => ?_
  · rw [hreads]
    exact h.queued
  · rw [IssuesRead, hreads] at h₃
    obtain ⟨hinOrder, hdepartures⟩ : InOrder _ _ c₃.reads ∧ Departures _ _ _ c.reads c₃.reads :=
      h.tick hlatency (t := ⟨c.clk + 1, c.readq, _⟩) rfl rfl rfl h₃
    refine ⟨hinOrder, hdepartures, ?_⟩
    have hcallbacks : c.callbacks cfg junk =
        (Due.done Request.depart (c.clk + 1) c.pending).map fun req => req := by
      rw [callbacks, hserved, map_id']
      exact hdone
    rw [hcallbacks]
    exact h.onSchedule fun req => req

theorem callbacks_depart : ∀ req ∈ c.callbacks cfg junk, req.depart = c.clk + 1 := by
  intro req hreq
  unfold callbacks at hreq
  cases hserve : serveCompleted cfg junk { c with clk := c.clk + 1 } with
  | error e =>
    rw [hserve] at hreq
    cases hreq
  | ok served =>
    obtain ⟨hdone, -⟩ := (serveCompleted_reads cfg _ junk).result hserve
    rw [hserve] at hreq
    have hmem : req ∈ (Due.done Request.depart (c.clk + 1) c.pending).map id := by
      rw [map_id, ← show served.1 = _ from hdone]
      exact hreq
    exact (h.onSchedule id).depart_eq (fun _ => rfl) req hmem

theorem apply_later (hlatency : 0 < cfg.device.readLatency) {input : ChannelInput}
    (halone : c.ForwardsAlone input) : Yields (c.apply cfg input)
      (fun c' => Later cfg.device.migrates cfg.device.readLatency c.reads c'.reads) := by
  cases input with
  | tick junk targets =>
    exact (tick_inOrder h hlatency targets).weaken fun c' h' => h'.2.1.later h'.1
  | enqueue req =>
    show Later _ _ c.reads ((c.enqueue req).getD c).reads
    cases henqueue : c.enqueue req with
    | none => exact ⟨h, le_refl _, fun _ hreq _ => hreq⟩
    | some c' =>
      obtain ⟨hroom, henters⟩ := enqueue_enters henqueue
      exact h.enters hlatency henters (halone hroom)

end

end Steps

end Generic.ChannelController

/-! ## HMC -/

namespace Controller

def reads (c : Controller) : Reads := ⟨c.clk, c.readq, c.pending⟩

/-- A read that is served from the write queue finds no read pending.  In PIM
    mode no queue is full. -/
def ForwardsAlone (c : Controller) : Input → Prop
  | .receive packet => packet.req.type = .read →
      (∃ w ∈ c.writeq, w.addr = packet.req.addr) → c.pending = []
  | .tick _ | .takeResponse => True

instance (c : Controller) : DecidablePred c.ForwardsAlone
  | .receive packet => inferInstanceAs (Decidable (packet.req.type = .read →
      (∃ w ∈ c.writeq, w.addr = packet.req.addr) → c.pending = []))
  | .tick _ | .takeResponse => inferInstanceAs (Decidable True)

/-- The note of a tick in PIM mode. -/
def departsHmc (clk : Int) (req : Request) : Request := { req with departHmc := clk }

/-- The newest command was issued in this cycle and is a column command of a read. -/
def LastCommand (c : Controller) : Prop :=
  ∃ addrVec, c.cmdTrace.head? = some ⟨c.clk, HMC.translate .read, addrVec⟩

/-- What a tick does to the reads of a vault. -/
def TickDepartures (cfg : ControllerConfig) (c c' : Controller) : Prop :=
  Departures false cfg.hmc.readLatency (fun _ => c'.LastCommand) c.reads c'.reads

section Steps

variable {cfg : ControllerConfig} {junk : Int} {c c' : Controller} {req : Request}
  {type : RequestType} {i : Nat}

theorem receive_enters {packet packet' : Packet} {accepted : Bool}
    (h : c.receive cfg packet = .ok (accepted, packet', c')) :
    (accepted = true ∧ Enters (withBurst cfg packet.req) c.writeq c.reads c'.reads) ∨
      (accepted = false ∧ c'.reads = c.reads) := by
  obtain ⟨-, -, ⟨haccepted, henqueue⟩ | ⟨haccepted, -, hrefused⟩⟩ :=
    (receive_ends cfg c packet).result h
  · have henqueue : (c.buffered packet').enqueue cfg (withBurst cfg packet.req) = some c' :=
      henqueue
    obtain ⟨-, rfl | ⟨hread, hwrite, rfl⟩⟩ := enqueue_cases henqueue
    · refine Or.inl ⟨haccepted, Or.inl ?_⟩
      cases (withBurst cfg packet.req).type <;> simp [reads, setQueue, getQueue, buffered]
    · exact Or.inl ⟨haccepted, Or.inr ⟨hread, hwrite, rfl⟩⟩
  · have hrefused : c' = c.buffered packet' := hrefused
    subst hrefused
    exact Or.inr ⟨haccepted, rfl⟩

/-- At most one read leaves its queue, with a column command of this cycle. -/
def IssuesRead (cfg : ControllerConfig) (c c' : Controller) : Prop :=
  Departs false cfg.hmc.readLatency (fun _ => c'.LastCommand) c.reads c'.reads

theorem setQueue_reads (c : Controller) (htype : type ≠ .read) (q : List Request) :
    (c.setQueue type q).reads = c.reads := by
  cases type
  case read => exact absurd rfl htype
  all_goals rfl

theorem setQueue_same (req' : Request) (hi : (c.getQueue type)[i]? = some req)
    (h : req'.origin false = req.origin false) :
    Same false c.reads (c.setQueue type ((c.getQueue type).set i req')).reads := by
  by_cases htype : type = .read
  · subst htype
    exact ⟨rfl, rfl, origins_set hi h⟩
  · rw [setQueue_reads c htype]
    exact Same.refl _

/-- A read that is counted down stays in its queue, or it departs. -/
theorem Counted.issuesRead {req' : Request} (h : Counted cfg c req req' c')
    (hi : (c.getQueue type)[i]? = some req)
    (hread : type = .read → req.type = .read ∧ c.LastCommand) :
    IssuesRead cfg c (c'.leaveQueue type i req') := by
  by_cases htype : type = .read
  · subst htype
    obtain ⟨hread, hissued⟩ := hread rfl
    cases h with
    | more _ hmore =>
      rw [leaveQueue, if_neg hmore]
      exact (setQueue_same { req with burstCount := req.burstCount - 1 } hi rfl).departs
    | read _ hdone hreq =>
      have hzero : req'.burstCount = 0 := by
        rw [hreq]
        exact hdone
      rw [leaveQueue, if_pos hzero]
      exact Departs.of_leaves hi (by rw [hreq]; rfl) hread (by rw [hreq]) hissued
    | write htype _ _ _ _ =>
      rw [hread] at htype
      cases htype
    | other htype => exact absurd (Or.inl hread) htype
  · have hleave : (c'.leaveQueue type i req').reads = c'.reads := by
      unfold leaveQueue
      split <;> exact setQueue_reads c' htype _
    rw [IssuesRead, hleave]
    cases h with
    | read htype _ hreq =>
      exact ⟨rfl, Or.inr ⟨req', by rw [hreq]; exact htype, by rw [hreq]; rfl, rfl⟩, Or.inl rfl⟩
    | more _ _ | write _ _ _ _ _ | other _ => exact (Same.refl _).departs

section

variable (cfg : ControllerConfig) (c : Controller) (junk : Int)

theorem noHead_issuesRead : Yields (c.noHead cfg junk) (IssuesRead cfg c) := by
  have hsame : IssuesRead cfg c c := (Same.refl _).departs
  refine Ends.ite (fun _ => hsame) fun _ => Ends.ite (fun _ => hsame) fun _ => ?_
  refine (issueCmd_ends cfg c junk .pre _).yields ?_
  rintro _ ⟨channel, rowtable, rfl, -⟩
  exact (Same.refl _).departs

theorem serveHead_issuesRead (hi : (c.getQueue type)[i]? = some req)
    (hreads : ∀ req ∈ c.readq, req.type = .read) :
    Yields (c.serveHead cfg junk type i req) (IssuesRead cfg c) := by
  refine Ends.bind ((firstCommand_ends cfg c junk hi).ignore) ?_
  rintro _ ⟨channel, -, rfl⟩
  have hsame : Same false c.reads _ := setQueue_same (started req) hi rfl
  refine Ends.bind ((issueCmd_ends cfg _ junk _ _).ignore) ?_
  rintro _ ⟨channel₂, rowtable₂, rfl, -⟩
  refine Ends.ite (fun hlast => ?_) fun _ => hsame.departs
  refine (finishBurst_ends cfg _ junk type i (started req)).yields ?_
  rintro _ ⟨req₃, c₃, hcounted, rfl⟩
  refine (hcounted.issuesRead ?_ fun htype => ?_).after hsame
  · cases type <;> exact getElem?_set_self (List.getElem?_eq_some_iff.mp hi).1
  · subst htype
    have hread : (started req).type = .read := hreads req (mem_of_getElem? hi)
    exact ⟨hread, req.addrVec, by rw [hlast, hread]; rfl⟩

theorem schedule_issuesRead (hreads : ∀ req ∈ c.readq, req.type = .read) :
    Yields (c.schedule cfg junk) (IssuesRead cfg c) := by
  obtain ⟨rowtable, -, -, hnone | ⟨i, req, hi, -, hserve⟩⟩ := schedule_cases cfg c junk
  · rw [hnone]
    exact noHead_issuesRead cfg { c with rowtable } junk
  · rw [hserve]
    exact serveHead_issuesRead cfg { c with rowtable } junk hi hreads

end

section

variable (hpim : cfg.pimModeEnabled = true)
include hpim

/-- In PIM mode the first step runs the callback of the read at the head, if it
    is due. -/
theorem serveCompleted_reads (hreads : ∀ req ∈ c.pending, req.type = .read) :
    Yields (c.serveCompleted cfg junk)
      (fun out => out.1 = (Due.done Request.depart c.clk c.pending).map (departsHmc c.clk) ∧
        out.2.reads = ⟨c.clk, c.readq, Due.rest Request.depart c.clk c.pending⟩) := by
  unfold serveCompleted
  cases hpending : c.pending with
  | nil => exact ⟨rfl, by rw [reads, hpending]; rfl⟩
  | cons req rest =>
    have hread : req.type = .read := hreads req (mem_of_eq_cons hpending)
    by_cases hdue : req.depart ≤ c.clk
    · simp only [if_pos hdue, Due.rest, Due.done, hpim, if_true]
      refine Ends.bind ((endServing_ends cfg c junk req).ignore) ?_
      rintro _ ⟨channel, -, rfl⟩
      refine Ends.ite (fun _ => ?_) fun hother => absurd (Or.inl hread) hother
      dsimp only
      split
      · trivial
      · exact ⟨rfl, rfl⟩
    · simp only [if_neg hdue, Due.rest, Due.done]
      exact ⟨rfl, by rw [reads, hpending]⟩

variable (hlatency : 0 < cfg.hmc.readLatency) (h : c.reads.InOrder false cfg.hmc.readLatency)
include hlatency h

theorem tick_inOrder : Yields (c.tick cfg junk)
      (fun out => out.2.reads.InOrder false cfg.hmc.readLatency ∧ TickDepartures cfg c out.2 ∧
        OnSchedule (departsHmc (c.clk + 1)) (c.clk + 1) c.pending out.1) := by
  refine Ends.bind (serveCompleted_reads (c := { c with clk := c.clk + 1 }) hpim h.pending) ?_
  rintro ⟨done, c₁⟩ ⟨hdone, hreads₁⟩
  dsimp only at hdone hreads₁ ⊢
  refine Ends.bind ((tickRef_ends cfg c₁).ignore) ?_
  intro c₂ h₂
  have hreads₂ : c₂.reads = c₁.reads := by obtain ⟨refresh, rfl | rfl⟩ := h₂ <;> rfl
  obtain ⟨writeMode, hmode⟩ := updateWriteMode_eq c₂
  rw [hmode]
  have hreads : { c₂ with writeMode }.reads = ⟨c.clk + 1, c.readq, Due.rest _ _ _⟩ :=
    hreads₂.trans hreads₁
  refine Ends.bind (schedule_issuesRead cfg { c₂ with writeMode } junk ?_) fun c₃ h₃ => ?_
  · intro req hreq
    exact h.queued (req.origin false) (mem_map_of_mem (congrArg Reads.readq hreads ▸ hreq))
  · rw [IssuesRead, hreads] at h₃
    obtain ⟨hinOrder, hdepartures⟩ : InOrder _ _ c₃.reads ∧ Departures _ _ _ c.reads c₃.reads :=
      h.tick hlatency (t := ⟨c.clk + 1, c.readq, _⟩) rfl rfl rfl h₃
    refine Ends.pure ⟨hinOrder, hdepartures, ?_⟩
    rw [hdone]
    exact h.onSchedule _

theorem apply_later {input : Input} (halone : c.ForwardsAlone input) :
    Yields (c.apply cfg input) (fun c' => Later false cfg.hmc.readLatency c.reads c'.reads) := by
  have hsame : Later false cfg.hmc.readLatency c.reads c.reads :=
    ⟨h, le_refl _, fun _ hreq _ => hreq⟩
  cases input with
  | tick junk =>
    exact Ends.bind (tick_inOrder hpim hlatency h) fun out hout => hout.2.1.later hout.1
  | takeResponse => exact hsame
  | receive packet =>
    refine Ends.bind (Ends.ran _) ?_
    rintro ⟨accepted, packet', c'⟩ hreceive
    show Later _ _ c.reads c'.reads
    rcases receive_enters hreceive with ⟨-, henters⟩ | ⟨-, hrefused⟩
    · exact h.enters hlatency henters halone
    · rw [hrefused]
      exact hsame

end

end Steps

end Controller

/-! ## Runs -/

open Generic (ChannelConfig ChannelController ChannelInput RefreshTarget ddr3Chip)

/-- A read that is taken is queued, or departs in the next cycle.  If every read that is
    served from the write queue finds no read pending, a read that leaves its queue departs
    `readLatency` after its last command, stays pending until then, and is completed in the
    tick of its completion time; and reads are completed in the order of these: in the
    controller of any standard, and in a vault in PIM mode. -/
theorem reads_complete_on_schedule (junk junk' : Int) :
    (∀ (cfg : ChannelConfig) (id : Int) (before after : List ChannelInput)
      (targets : List RefreshTarget) (c c₁ c₂ : ChannelController), 0 < cfg.device.readLatency →
      Along (ChannelController.apply cfg) ChannelController.ForwardsAlone
        (before ++ .tick junk targets :: after) (ChannelController.new cfg id) →
      ChannelController.run cfg id before = .ok c → c.tick cfg junk targets = .ok c₁ →
      after.foldlM (ChannelController.apply cfg) c₁ = .ok c₂ →
        OnSchedule (fun req => req) (c.clk + 1) c.pending (c.callbacks cfg junk) ∧
        ChannelController.TickDepartures cfg c c₁ ∧
        (∀ req ∈ c₁.pending, c₂.clk < req.depart → req ∈ c₂.pending) ∧
        ∀ req ∈ c.callbacks cfg junk, ∀ req' ∈ c₂.callbacks cfg junk', req.depart < req'.depart) ∧
    (∀ (c c' : ChannelController) (req : Request), c.enqueue req = some c' →
      Enters req c.writeq c.reads c'.reads) ∧
    (∀ (cfg : ControllerConfig) (vault : Int) (before after : List Controller.Input)
      (c c₁ c₂ c₃ : Controller) (done done' : List Request),
      cfg.pimModeEnabled = true → 0 < cfg.hmc.readLatency →
      Along (Controller.apply cfg) Controller.ForwardsAlone (before ++ .tick junk :: after)
        (Controller.new cfg vault) →
      Controller.run cfg vault before = .ok c → c.tick cfg junk = .ok (done, c₁) →
      after.foldlM (Controller.apply cfg) c₁ = .ok c₂ → c₂.tick cfg junk' = .ok (done', c₃) →
        OnSchedule (Controller.departsHmc (c.clk + 1)) (c.clk + 1) c.pending done ∧
        Controller.TickDepartures cfg c c₁ ∧
        (∀ req ∈ c₁.pending, c₂.clk < req.depart → req ∈ c₂.pending) ∧
        ∀ req ∈ done, ∀ req' ∈ done', req.depart < req'.depart) ∧
    (∀ (cfg : ControllerConfig) (c c' : Controller) (packet packet' : Packet),
      c.receive cfg packet = .ok (true, packet', c') →
      Enters (Controller.withBurst cfg packet.req) c.writeq c.reads c'.reads) := by
  refine ⟨?_, fun c c' req h => (ChannelController.enqueue_enters h).2, ?_, ?_⟩
  · intro cfg id before after targets c c₁ c₂ hlatency halone hbefore htick hafter
    have hstep := fun (c : ChannelController) input (h : c.reads.InOrder _ _)
      (halone : c.ForwardsAlone input) => ChannelController.apply_later h hlatency halone
    obtain ⟨hc, hc₂⟩ := InOrder.around hstep (InOrder.new _ _) halone hbefore htick hafter
    obtain ⟨-, hdepartures, hdone⟩ :=
      (ChannelController.tick_inOrder hc hlatency targets).result htick
    refine ⟨hdone, hdepartures, hc₂.stays, fun req hreq req' hreq' => ?_⟩
    have hclk : c₁.clk = c.clk + 1 := hdepartures.clk
    have hclk₂ : c₁.clk ≤ c₂.clk := hc₂.clk
    rw [hdone.depart_eq (fun _ => rfl) req hreq,
      ChannelController.callbacks_depart hc₂.inOrder req' hreq']
    omega
  · intro cfg vault before after c c₁ c₂ c₃ done done' hpim hlatency halone hbefore htick hafter
      htick'
    have hstep := fun (c : Controller) input (h : c.reads.InOrder _ _)
      (halone : c.ForwardsAlone input) => Controller.apply_later hpim hlatency h halone
    have happly : c.apply cfg (.tick junk) = .ok c₁ := by
      simp only [Controller.apply, htick]
      rfl
    obtain ⟨hc, hc₂⟩ := InOrder.around hstep (InOrder.new _ _) halone hbefore happly hafter
    obtain ⟨-, hdepartures, hdone⟩ := (Controller.tick_inOrder hpim hlatency hc).result htick
    obtain ⟨-, -, hdone'⟩ := (Controller.tick_inOrder hpim hlatency hc₂.inOrder).result htick'
    refine ⟨hdone, hdepartures, hc₂.stays, fun req hreq req' hreq' => ?_⟩
    have hclk : c₁.clk = c.clk + 1 := hdepartures.clk
    have hclk₂ : c₁.clk ≤ c₂.clk := hc₂.clk
    rw [hdone.depart_eq (fun _ => rfl) req hreq, hdone'.depart_eq (fun _ => rfl) req' hreq']
    omega
  · intro cfg c c' packet packet' h
    rcases Controller.receive_enters h with ⟨-, henters⟩ | ⟨hfalse, -⟩
    · exact henters
    · cases hfalse

/-- A write to address 7, and two reads of it. -/
def writeSeven : Request := { addr := 7, addrVec := [0, 0, 0, 1, 0], reqid := 0, type := .write }

def readSeven (reqid : Int) : Request :=
  { addr := 7, addrVec := [0, 0, 0, 1, 0], reqid, type := .read }

def pimVault : ControllerConfig := { Controller.gb4Vault .opened with pimModeEnabled := true }

def receiveSeven (req : Request) : Controller.Input :=
  .receive (Packet.mkRequest 0 0 req.reqid 1 0 .rd64 req)

/-- DDR3: a read leaves its queue with the `RD` at 12 and is completed at 27.  A vault: a
    read is served from the write queue in the next tick. -/
theorem reads_complete_on_schedule_one : (∃ c c₁ c₂, ChannelController.run ddr3Chip.config 0
        (.enqueue (readSeven 1) :: replicate 11 (.tick 0 [])) = .ok c ∧
      c.tick ddr3Chip.config 0 [] = .ok c₁ ∧ (replicate 14 (.tick 0 [])).foldlM
        (ChannelController.apply ddr3Chip.config) c₁ = .ok c₂ ∧
      c.readq.length = 1 ∧ c₁.readq = [] ∧ c₁.pending.map Request.depart = [12 + 15] ∧
      c₂.clk + 1 = 27 ∧ (c₂.callbacks ddr3Chip.config 0).map Request.depart = [27] ∧
      ChannelController.TickDepartures ddr3Chip.config c c₁ ∧
      ∀ req ∈ c₁.pending, c₂.clk < req.depart → req ∈ c₂.pending) ∧
    ∃ c done c', Controller.run pimVault 0
        [receiveSeven writeSeven, receiveSeven (readSeven 1)] = .ok c ∧
      c.tick pimVault 0 = .ok (done, c') ∧ done.map Request.depart = [1] ∧
      OnSchedule (Controller.departsHmc (c.clk + 1)) (c.clk + 1) c.pending done := by
  constructor
  · have heval : (ChannelController.run ddr3Chip.config 0
        (.enqueue (readSeven 1) :: replicate 11 (.tick 0 [])) >>= fun c =>
          c.tick ddr3Chip.config 0 [] >>= fun c₁ =>
            (replicate 14 (.tick 0 [])).foldlM
              (ChannelController.apply ddr3Chip.config) c₁ >>= fun c₂ =>
                pure (c, c₁, c₂)).toOption.map
        (fun out => (out.1.readq.length, out.2.1.readq, out.2.1.pending.map Request.depart,
          out.2.2.clk + 1, (out.2.2.callbacks ddr3Chip.config 0).map Request.depart)) =
        some (1, [], [12 + 15], 27, [27]) := by decide +kernel
    obtain ⟨⟨c, c₁, c₂⟩, hrun, hfields⟩ := exists_ok_of_map heval
    obtain ⟨c', hc, hrest⟩ := bind_ok.mp hrun
    obtain ⟨c₁', htick, hrest⟩ := bind_ok.mp hrest
    obtain ⟨c₂', hafter, heq⟩ := bind_ok.mp hrest
    cases heq
    simp only [Prod.mk.injEq] at hfields
    obtain ⟨hqueued, hleft, hpending, hclk, hdone⟩ := hfields
    obtain ⟨-, hdepartures, hstays, -⟩ := (reads_complete_on_schedule 0 0).1
      ddr3Chip.config 0 _ _ [] c c₁ c₂ (by decide)
      (by decide +kernel) hc htick hafter
    exact ⟨c, c₁, c₂, hc, htick, hafter, hqueued, hleft, hpending, hclk, hdone, hdepartures, hstays⟩
  · have heval : (Controller.run pimVault 0
        [receiveSeven writeSeven, receiveSeven (readSeven 1)] >>= fun c =>
          c.tick pimVault 0 >>= fun out => out.2.tick pimVault 0 >>= fun out' =>
            pure (c, out, out')).toOption.map
        (fun out => out.2.1.1.map Request.depart) = some [1] := by decide +kernel
    obtain ⟨⟨c, ⟨done, c₁⟩, done', c₂⟩, hrun, hdone⟩ := exists_ok_of_map heval
    obtain ⟨c', hc, hrest⟩ := bind_ok.mp hrun
    obtain ⟨out, htick, hrest⟩ := bind_ok.mp hrest
    obtain ⟨out', htick', heq⟩ := bind_ok.mp hrest
    cases heq
    exact ⟨c, done, c₁, hc, htick, hdone, ((reads_complete_on_schedule 0 0).2.2.1 pimVault 0 _ []
      c c₁ c₁ c₂ done done' rfl (by decide) (by decide +kernel) hc htick rfl htick').1⟩

/-- Of two reads that are served from the write queue in the same cycle, the
    second one departs at 1 and is completed in the tick at 2. -/
theorem second_read_late : (∃ c, ChannelController.run ddr3Chip.config 0
        [.enqueue writeSeven, .enqueue (readSeven 1), .enqueue (readSeven 2), .tick 0 []] = .ok c ∧
      c.clk + 1 = 2 ∧ (c.callbacks ddr3Chip.config 0).map Request.depart = [1] ∧
      ¬ OnSchedule (fun req => req) (c.clk + 1) c.pending (c.callbacks ddr3Chip.config 0)) ∧
    ∃ c done c', Controller.run pimVault 0
        [receiveSeven writeSeven, receiveSeven (readSeven 1), receiveSeven (readSeven 2),
          .tick 0] = .ok c ∧
      c.tick pimVault 0 = .ok (done, c') ∧ c.clk + 1 = 2 ∧ done.map Request.depart = [1] ∧
      ¬ OnSchedule (Controller.departsHmc (c.clk + 1)) (c.clk + 1) c.pending done := by
  constructor
  · have heval : (ChannelController.run ddr3Chip.config 0
        [.enqueue writeSeven, .enqueue (readSeven 1), .enqueue (readSeven 2),
          .tick 0 []]).toOption.map
        (fun c => (c.clk + 1, (c.callbacks ddr3Chip.config 0).map Request.depart)) =
        some (2, [1]) := by decide +kernel
    obtain ⟨c, hc, hfields⟩ := exists_ok_of_map heval
    obtain ⟨hclk, hdone⟩ := Prod.mk.inj hfields
    refine ⟨c, hc, hclk, hdone, fun hschedule => ?_⟩
    have := hschedule.eq_clk (fun _ => rfl) hdone
    omega
  · have heval : (Controller.run pimVault 0
        [receiveSeven writeSeven, receiveSeven (readSeven 1), receiveSeven (readSeven 2),
          .tick 0] >>= fun c => c.tick pimVault 0 >>= fun out => pure (c, out)).toOption.map
        (fun out => (out.1.clk + 1, out.2.1.map Request.depart)) = some (2, [1]) := by
      decide +kernel
    obtain ⟨⟨c, done, c'⟩, hrun, hfields⟩ := exists_ok_of_map heval
    obtain ⟨c₀, hc, hrest⟩ := bind_ok.mp hrun
    obtain ⟨out, htick, heq⟩ := bind_ok.mp hrest
    cases heq
    obtain ⟨hclk, hdone⟩ := Prod.mk.inj hfields
    dsimp only at hclk hdone
    refine ⟨c, done, c', hc, htick, hclk, hdone, fun hschedule => ?_⟩
    have := hschedule.eq_clk (fun _ => rfl) hdone
    omega

end Ramulator
