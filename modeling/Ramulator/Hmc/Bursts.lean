/-
  Ramulator.Hmc.Bursts

  The column commands a vault issues for a request.

  A request enters its queue with `burst_count` column accesses to go, each
  column command takes one off, and the request leaves when none is left.
  `BurstRun` runs a vault and keeps, for each queued read and write, the commands
  that were issued on its behalf; `Pays` is the invariant that ties them to the
  count in the request.

  The payload of a packet is counted in flits of 16 bytes, a column access moves
  32, so a payload of `n` flits needs `⌈n / 2⌉` accesses.  `burst_count` is
  computed by an integer division below a `ceil`, so it is `⌊n / 2⌋`: the same for
  an even payload, one less for an odd one.
-/

import Ramulator.Hmc.Custody
import Ramulator.Hmc.Protocol

namespace Ramulator

open Outcome List
open Request (ident)

/-! ## Lists side by side -/

section SideBySide

variable {α β : Type} {R S : α → β → Prop} {xs : List α} {ys : List β}

theorem forall₂_imp_mem (h : Forall₂ R xs ys) (hRS : ∀ x, ∀ y ∈ ys, R x y → S x y) :
    Forall₂ S xs ys := by
  induction h with
  | nil => exact .nil
  | cons hhead htail ih =>
    refine .cons (hRS _ _ mem_cons_self hhead) (ih fun x y hy => ?_)
    exact hRS x y (mem_cons_of_mem _ hy)

theorem forall₂_eraseIdx (h : Forall₂ R xs ys) (i : Nat) :
    Forall₂ R (xs.eraseIdx i) (ys.eraseIdx i) := by
  induction h generalizing i with
  | nil => exact .nil
  | cons hhead htail ih =>
    cases i with
    | zero => exact htail
    | succ i => exact .cons hhead (ih i)

/-- The left side of one pair is replaced; the other pairs are only as related as
    they have to be. -/
theorem forall₂_set_left (h : Forall₂ R xs ys) {i : Nat} {x : α} {y : β} (hi : ys[i]? = some y)
    (hxy : S x y) (hRS : ∀ x, ∀ y ∈ ys.eraseIdx i, R x y → S x y) : Forall₂ S (xs.set i x) ys := by
  induction h generalizing i with
  | nil => cases hi
  | cons hhead htail ih =>
    cases i with
    | zero =>
      cases hi
      exact .cons hxy (forall₂_imp_mem htail hRS)
    | succ i =>
      refine .cons (hRS _ _ mem_cons_self hhead) (ih hi fun x y hy => ?_)
      exact hRS x y (mem_cons_of_mem _ hy)

theorem forall₂_getElem? (h : Forall₂ R xs ys) {i : Nat} {x : α} (hi : xs[i]? = some x) :
    ∃ y, ys[i]? = some y ∧ R x y := by
  induction h generalizing i with
  | nil => cases hi
  | cons hhead htail ih =>
    cases i with
    | zero =>
      cases hi
      exact ⟨_, rfl, hhead⟩
    | succ i => exact ih hi

end SideBySide

namespace HMC

/-! ## Column commands -/

def columnAccesses (hmc : HMC) : Int := (hmc.payloadFlits + 1) / 2

theorem burstCount_of_even {hmc : HMC} (h : hmc.payloadFlits % 2 = 0) :
    hmc.burstCount = hmc.columnAccesses := by
  have htwo : ((prefetchSize * channelWidth / 8 / bytesPerFlit : Nat) : Int) = 2 := rfl
  obtain ⟨k, hk⟩ : ∃ k, hmc.payloadFlits = 2 * k := ⟨hmc.payloadFlits / 2, by omega⟩
  rw [burstCount, columnAccesses, htwo, hk, Int.mul_tdiv_cancel_left k (by decide)]
  omega

theorem prereq_accessing {cmd x : Command} (hcmd : cmd = .rd ∨ cmd = .wr) {level : Nat} {t : Tree}
    {id : Int} (h : (HMC.prereq level cmd).bind (fun p => p t cmd id) = some x)
    (hx : isAccessing x = true) : x = cmd := by
  have hvault : prereqVaultRd t cmd id = some x → x = cmd := by
    unfold prereqVaultRd
    split
    all_goals
      intro hsome
      cases hsome
      try cases hx
  have hbank : prereqBankRd t cmd id = some x → x = cmd := by
    unfold prereqBankRd
    split
    · intro hsome
      cases hsome
      cases hx
    · split
      · intro hsome
        exact (Option.some.inj hsome).symm
      · intro hsome
        cases hsome
        cases hx
    · nofun
  rcases hcmd with rfl | rfl
  all_goals
    unfold HMC.prereq at h
    split at h
    all_goals first
      | exact hvault h
      | exact hbank h
      | cases h
      | simp_all

/-- What goes first for a read or a write is a column command only if it is the
    command itself. -/
theorem decode_accessing (hmc : HMC) {cmd : Command} (hcmd : cmd = .rd ∨ cmd = .wr)
    (addr : Nat → Int) (t : Tree) :
    isAccessing (t.decode hmc.spec cmd addr) = true → t.decode hmc.spec cmd addr = cmd := by
  induction t with
  | node n k f ih =>
    simp only [DRAM.decode]
    split
    · next x hx => exact prereq_accessing hcmd hx
    · split
      · exact fun _ => rfl
      · split
        · exact ih _
        · exact fun _ => rfl

end HMC

namespace Controller

open HMC (Command isAccessing)

variable {cfg : ControllerConfig} {c c' : Controller} {junk : Int} {req : Request}

theorem getFirstCmd_accessing (req : Request) (htype : req.type = .read ∨ req.type = .write) :
    isAccessing (c.getFirstCmd cfg junk req) = true ↔
      c.getFirstCmd cfg junk req = HMC.translate req.type := by
  have hcmd := translate_column htype
  constructor
  · unfold getFirstCmd
    dsimp only
    split
    · exact fun _ => rfl
    · exact HMC.decode_accessing cfg.hmc hcmd _ _
  · intro h
    rw [h]
    rcases hcmd with hcmd | hcmd
    · rw [hcmd]; rfl
    · rw [hcmd]; rfl

/-! ## What a tick does to the queues -/

theorem getQueue_setQueue_ne {type t : RequestType} (ht : t = .read ∨ t = .write) (hne : t ≠ type)
    (q : List Request) : (c.setQueue type q).getQueue t = c.getQueue t := by
  rcases ht with rfl | rfl
  · cases type <;> first | rfl | exact absurd rfl hne
  · cases type <;> first | rfl | exact absurd rfl hne

/-- A command went out for `req` at position `i` of a queue; the other queues are as before. -/
structure Advanced (c c' : Controller) (type : RequestType) (i : Nat) (req : Request)
    (cmd : Command) : Prop where
  trace : c'.cmdTrace.head?.map Issued.cmd = some cmd
  others : ∀ t, (t = .read ∨ t = .write) → t ≠ type → c'.getQueue t = c.getQueue t
  waits : req.type = .read ∨ req.type = .write → isAccessing cmd = false →
    c'.getQueue type = (c.getQueue type).set i (started req)
  counts : req.type = .read ∨ req.type = .write → isAccessing cmd = true →
    if req.burstCount - 1 = 0 then c'.getQueue type = (c.getQueue type).eraseIdx i
    else ∃ req', req'.ident = req.ident ∧ req'.burstCount = req.burstCount - 1 ∧
      c'.getQueue type = (c.getQueue type).set i req'

theorem leaveQueue_others {type t : RequestType} (ht : t = .read ∨ t = .write) (hne : t ≠ type)
    (i : Nat) : (c.leaveQueue type i req).getQueue t = c.getQueue t := by
  unfold leaveQueue
  split
  all_goals exact getQueue_setQueue_ne ht hne _

theorem serveHead_advances {type : RequestType} {i : Nat} (hi : (c.getQueue type)[i]? = some req) :
    Yields (c.serveHead cfg junk type i req) (fun c' => ∃ cmd, Advanced c c' type i req cmd) := by
  unfold serveHead
  refine Ends.bind ((firstCommand_ends cfg c junk hi).ignore) ?_
  rintro _ ⟨channel, -, rfl⟩
  obtain ⟨c₁, hc₁⟩ : ∃ c₁, c₁ =
      { c.setQueue type ((c.getQueue type).set i (started req)) with channel } := ⟨_, rfl⟩
  have hqueue : c₁.getQueue type = (c.getQueue type).set i (started req) := by
    rw [hc₁]
    cases type <;> rfl
  have hothers : ∀ t, (t = .read ∨ t = .write) → t ≠ type → c₁.getQueue t = c.getQueue t := by
    intro t ht hne
    have hset := getQueue_setQueue_ne (c := c) ht hne ((c.getQueue type).set i (started req))
    rw [← hset, hc₁]
    cases t <;> rfl
  dsimp only
  rw [← hc₁]
  refine Ends.bind ((issueCmd_ends cfg c₁ junk _ _).ignore) ?_
  rintro c₂ ⟨channel₂, rowtable₂, hc₂, -⟩
  have htrace₂ : c₂.cmdTrace.head?.map Issued.cmd =
      some (c₁.getFirstCmd cfg junk (started req)) := by
    rw [hc₂]
    rfl
  have hqueues₂ : ∀ t, c₂.getQueue t = c₁.getQueue t := by
    intro t
    rw [hc₂]
    cases t <;> rfl
  refine Ends.ite (fun hcolumn => ?_) (fun hother => ?_)
  · refine (finishBurst_ends cfg c₂ junk type i (started req)).yields ?_
    rintro c' ⟨req₁, c₃, hcounted, rfl⟩
    obtain ⟨hident, hqueues, htrace, hburst⟩ := hcounted.queues
    refine ⟨c₁.getFirstCmd cfg junk (started req), ?_, ?_, ?_, ?_⟩
    · rw [(Quiet.leaveQueue ..).trace, htrace, htrace₂]
    · intro t ht hne
      rw [leaveQueue_others ht hne, hqueues, hqueues₂, hothers t ht hne]
    · intro htype hnot
      rw [(getFirstCmd_accessing (started req) htype).mpr hcolumn] at hnot
      cases hnot
    · intro htype _
      have hcount : req₁.burstCount = req.burstCount - 1 := hburst htype
      have hq : c₃.getQueue type = (c.getQueue type).set i (started req) := by
        rw [hqueues, hqueues₂, hqueue]
      unfold leaveQueue
      rw [hcount, hq]
      split
      · rw [getQueue_setQueue, eraseIdx_set_eq]
      · exact ⟨req₁, hident, hcount, by rw [getQueue_setQueue, set_set]⟩
  · refine ⟨c₁.getFirstCmd cfg junk (started req), htrace₂, ?_, ?_, ?_⟩
    · intro t ht hne
      rw [hqueues₂, hothers t ht hne]
    · intro _ _
      rw [hqueues₂, hqueue]
    · intro htype haccess
      exact absurd ((getFirstCmd_accessing (started req) htype).mp haccess) hother

def picked (cfg : ControllerConfig) (junk : Int) (c : Controller) : Option Nat :=
  let (head, rowtable) := Scheduler.getHead cfg.hmc.spec (c.view cfg junk)
    (HMC.scope .pre) cfg.scheduler (c.getQueue c.selectQueue) c.rowtable
  match head with
  | none => none
  | some (i, req) => if isReady cfg junk { c with rowtable } req then some i else none

section

variable (cfg : ControllerConfig)

theorem schedule_picked (c : Controller) (junk : Int) : ∃ rowtable,
      (c.picked cfg junk = none ∧ c.schedule cfg junk = noHead cfg junk { c with rowtable }) ∨
      ∃ i req, c.picked cfg junk = some i ∧ (c.getQueue c.selectQueue)[i]? = some req ∧
        c.schedule cfg junk = serveHead cfg junk { c with rowtable } c.selectQueue i req := by
  cases hhead : Scheduler.getHead cfg.hmc.spec (c.view cfg junk) (HMC.scope .pre)
      cfg.scheduler (c.getQueue c.selectQueue) c.rowtable with
  | mk head rowtable =>
    refine ⟨rowtable, ?_⟩
    cases head with
    | none => exact Or.inl ⟨by simp only [picked, hhead], by simp only [schedule, hhead]⟩
    | some head =>
      obtain ⟨i, req⟩ := head
      by_cases hready : isReady cfg junk { c with rowtable } req = true
      · refine Or.inr ⟨i, req, ?_, Scheduler.getHead_some hhead, ?_⟩
        · simp only [picked, hhead, hready, if_true]
        · simp only [schedule, hhead, hready, if_true]
      · refine Or.inl ⟨?_, ?_⟩
        · simp only [picked, hhead, if_neg hready]
        · simp only [schedule, hhead, if_neg hready]

/-- The fourth step of a tick issues a command for the request it picks; if it
    picks none the queues stay. -/
theorem schedule_advances (c : Controller) (junk : Int) : Yields (c.schedule cfg junk)
      (fun c' => (c.picked cfg junk = none ∧ ∀ t, c'.getQueue t = c.getQueue t) ∨
        ∃ i req cmd, c.picked cfg junk = some i ∧ (c.getQueue c.selectQueue)[i]? = some req ∧
          Advanced c c' c.selectQueue i req cmd) := by
  obtain ⟨rowtable, ⟨hnone, heq⟩ | ⟨i, req, hpicked, hi, heq⟩⟩ := schedule_picked cfg c junk
  · have hsame : ∀ t, getQueue { c with rowtable } t = c.getQueue t := by
      intro t
      cases t <;> rfl
    rw [heq]
    refine Ends.ite (fun _ => Or.inl ⟨hnone, hsame⟩) (fun _ => ?_)
    refine Ends.ite (fun _ => Or.inl ⟨hnone, hsame⟩) (fun _ => ?_)
    refine (issueCmd_ends cfg _ junk _ _).yields ?_
    rintro c' ⟨channel', rowtable', rfl, -⟩
    refine Or.inl ⟨hnone, fun t => ?_⟩
    cases t <;> rfl
  · have hsame : getQueue { c with rowtable } c.selectQueue = c.getQueue c.selectQueue := by
      cases c.selectQueue <;> rfl
    rw [heq]
    refine (serveHead_advances (by rw [hsame, hi])).yields ?_
    rintro c' ⟨cmd, htrace, hothers, hwaits, hcounts⟩
    rw [hsame] at hwaits hcounts
    refine Or.inr ⟨i, req, cmd, hpicked, hi, htrace, ?_, hwaits, hcounts⟩
    intro t ht hne
    rw [hothers t ht hne]
    rcases ht with rfl | rfl <;> rfl

/-- The first three steps of a tick leave the reads and writes in their queues. -/
theorem prepare_queues (c : Controller) (junk : Int) : Yields (c.prepare cfg junk)
      (fun out => ∀ t, (t = .read ∨ t = .write) → out.2.getQueue t = c.getQueue t) := by
  unfold prepare
  refine Ends.bind ((serveCompleted_ends cfg _ junk).ignore) ?_
  rintro ⟨done, c₁⟩ hserved
  have h₁ : ∀ t, (t = .read ∨ t = .write) → c₁.getQueue t = c.getQueue t := by
    intro t ht
    cases hserved <;> rcases ht with rfl | rfl <;> rfl
  refine Ends.bind ((tickRef_ends cfg c₁).ignore) ?_
  rintro c₂ ⟨refresh, hc₂⟩
  obtain ⟨writeMode, hc₃⟩ := updateWriteMode_eq c₂
  refine Ends.pure (fun t ht => ?_)
  rw [← h₁ t ht, hc₃]
  rcases hc₂ with rfl | rfl <;> rcases ht with rfl | rfl <;> rfl

end

end Controller

open Controller

/-! ## Runs with tickets -/

structure Ticket where
  number : Nat
  request : Request
deriving DecidableEq

/-- A vault, the tickets in its queues, and the commands issued for a ticket, newest first. -/
structure BurstRun where
  controller : Controller
  reads : List Ticket := []
  writes : List Ticket := []
  /-- The number of tickets handed out. -/
  entered : Nat := 0
  log : List (Nat × HMC.Command) := []

namespace BurstRun

open HMC (Command isAccessing)

def queue (s : BurstRun) : RequestType → List Ticket
  | .read => s.reads
  | .write => s.writes
  | _ => []

def setQueue (s : BurstRun) (type : RequestType) (q : List Ticket) : BurstRun :=
  match type with
  | .read => { s with reads := q }
  | .write => { s with writes := q }
  | _ => s

/-- A read or a write that is now in its queue, so not a forwarded one, gets a
    ticket. -/
def enter (s : BurstRun) (req : Request) (c : Controller) : BurstRun :=
  if (req.type = .read ∨ req.type = .write) ∧
      (s.controller.getQueue req.type).length < (c.getQueue req.type).length then
    { s.setQueue req.type (s.queue req.type ++ [{ number := s.entered, request := req.ident }]) with
      controller := c, entered := s.entered + 1 }
  else { s with controller := c }

/-- The command for position `i` is logged under its ticket, which leaves with the request. -/
def account (s : BurstRun) (type : RequestType) (i : Nat) (c : Controller) : BurstRun :=
  match (s.queue type)[i]?, c.cmdTrace.head?.map Issued.cmd with
  | some ticket, some cmd =>
    let q := if (c.getQueue type).length < (s.controller.getQueue type).length
      then (s.queue type).eraseIdx i else s.queue type
    { s.setQueue type q with controller := c, log := (ticket.number, cmd) :: s.log }
  | _, _ => { s with controller := c }

def follow (cfg : ControllerConfig) (s : BurstRun) (input : Input) (c : Controller) : BurstRun :=
  match input with
  | .receive packet => s.enter packet.req c
  | .tick junk =>
    match s.controller.prepare cfg junk with
    | .ok (_, c₁) =>
      match c₁.picked cfg junk with
      | some i => s.account c₁.selectQueue i c
      | none => { s with controller := c }
    | .error _ => { s with controller := c }
  | .takeResponse => { s with controller := c }

def apply (cfg : ControllerConfig) (s : BurstRun) (input : Input) : Except Abort BurstRun := do
  let c ← s.controller.apply cfg input
  pure (s.follow cfg input c)

def run (cfg : ControllerConfig) (vault : Int) (inputs : List Input) : Except Abort BurstRun :=
  inputs.foldlM (apply cfg) { controller := Controller.new cfg vault }

def commandsOf (s : BurstRun) (n : Nat) : List Command :=
  (s.log.filter (fun e => e.1 = n)).map Prod.snd

def columnsOf (s : BurstRun) (n : Nat) : Nat := (s.commandsOf n).countP isAccessing

def tickets (s : BurstRun) : List Ticket := s.reads ++ s.writes

def Queued (s : BurstRun) (n : Nat) : Prop := ∃ t ∈ s.tickets, t.number = n

/-- Each request that entered gets `accesses` column commands in its queue and
    leaves with the last. -/
structure Bursts (s : BurstRun) (accesses : Int) : Prop where
  reads : s.reads.map Ticket.request = s.controller.readq.map ident
  writes : s.writes.map Ticket.request = s.controller.writeq.map ident
  atMost : ∀ n < s.entered, (s.columnsOf n : Int) ≤ accesses
  leaves : ∀ n < s.entered, s.Queued n ↔ (s.columnsOf n : Int) < accesses

variable {cfg : ControllerConfig} {s s' : BurstRun} {n : Nat}

theorem follow_controller (cfg : ControllerConfig) (s : BurstRun) (input : Input)
    (c : Controller) : (s.follow cfg input c).controller = c := by
  unfold follow
  split
  · unfold enter
    split <;> rfl
  · split
    · split
      · unfold account
        split <;> rfl
      · rfl
    · rfl
  · rfl

theorem run_controller (cfg : ControllerConfig) (vault : Int) (inputs : List Input) :
    Sim (fun s c => s.controller = c) (run cfg vault inputs) (Controller.run cfg vault inputs) := by
  refine Sim.foldlM inputs rfl ?_
  rintro s _ input rfl
  exact Sim.map_left _ (follow_controller cfg s input)

/-! ## What an input does to the tickets -/

variable {type : RequestType}

theorem queue_setQueue (s : BurstRun) (htype : type = .read ∨ type = .write) (q : List Ticket) :
    (s.setQueue type q).queue type = q := by
  rcases htype with rfl | rfl <;> rfl

theorem queue_setQueue_ne (s : BurstRun) {t : RequestType} (hne : t ≠ type) (q : List Ticket) :
    (s.setQueue type q).queue t = s.queue t := by
  cases type <;> cases t <;> first | rfl | exact absurd rfl hne

theorem queue_of_other (s : BurstRun) (htype : ¬ (type = .read ∨ type = .write)) :
    s.queue type = [] := by
  cases type with
  | read => exact absurd (Or.inl rfl) htype
  | write => exact absurd (Or.inr rfl) htype
  | refresh | powerdown | selfrefresh | extension | instruction => rfl

def SameQueues (c c' : Controller) : Prop :=
  ∀ t, (t = .read ∨ t = .write) → c'.getQueue t = c.getQueue t

/-- What an input can do. -/
inductive Step (cfg : ControllerConfig) (s : BurstRun) : BurstRun → Prop
  /-- No request comes or is served. -/
  | idle {c} (hsame : SameQueues s.controller c) : Step cfg s { s with controller := c }
  /-- A request enters its queue. -/
  | enters {req c} (htype : req.type = .read ∨ req.type = .write)
      (hburst : req.burstCount = cfg.hmc.burstCount)
      (hqueue : c.getQueue req.type = s.controller.getQueue req.type ++ [req])
      (hothers : ∀ t, (t = .read ∨ t = .write) → t ≠ req.type →
        c.getQueue t = s.controller.getQueue t) :
      Step cfg s { s.setQueue req.type
            (s.queue req.type ++ [{ number := s.entered, request := req.ident }]) with
          controller := c, entered := s.entered + 1 }
  /-- A request gets a command. -/
  | serves {type i req c cmd} (htype : type = .read ∨ type = .write)
      (hi : (s.controller.getQueue type)[i]? = some req)
      (hadvanced : Advanced s.controller c type i req cmd) : Step cfg s (s.account type i c)

theorem enter_step {packet : Packet} {out : Bool × Packet × Controller}
    (h : s.controller.receive cfg packet = .ok out) : Step cfg s (s.enter packet.req out.2.2) := by
  obtain ⟨accepted, packet', c⟩ := out
  obtain ⟨-, -, henqueue⟩ := (receive_ends cfg s.controller packet).result h
  dsimp only at henqueue ⊢
  have hbuffered : SameQueues s.controller (s.controller.buffered packet') := by
    rintro t (rfl | rfl) <;> rfl
  have hidle : SameQueues s.controller c → Step cfg s (s.enter packet.req c) := by
    intro hsame
    unfold enter
    rw [if_neg]
    · exact .idle hsame
    · rintro ⟨htype, hlt⟩
      rw [hsame _ htype] at hlt
      exact Nat.lt_irrefl _ hlt
  rcases henqueue with ⟨-, haccept⟩ | ⟨-, -, rfl⟩
  · obtain ⟨-, hqueued | ⟨-, -, rfl⟩⟩ := enqueue_cases haccept
    · have hothers : ∀ t, (t = .read ∨ t = .write) → t ≠ packet.req.type →
          c.getQueue t = s.controller.getQueue t := by
        intro t ht hne
        rw [hqueued, ← hbuffered t ht]
        exact getQueue_setQueue_ne ht hne _
      by_cases htype : packet.req.type = .read ∨ packet.req.type = .write
      · have hqueue : c.getQueue packet.req.type = s.controller.getQueue packet.req.type ++
            [{ withBurst cfg packet.req with arrive := s.controller.clk }] := by
          rw [hqueued, ← hbuffered _ htype]
          exact getQueue_setQueue _ _ _
        unfold enter
        rw [if_pos ⟨htype, by rw [hqueue, length_append]; exact Nat.lt_succ_self _⟩]
        exact @Step.enters cfg s { withBurst cfg packet.req with arrive := s.controller.clk } c
          htype rfl hqueue hothers
      · refine hidle fun t ht => hothers t ht ?_
        rintro rfl
        exact htype ht
    · exact hidle hbuffered
  · exact hidle hbuffered

theorem tick_step {junk : Int} {out : List Request × Controller}
    (h : s.controller.tick cfg junk = .ok out) : Step cfg s (s.follow cfg (.tick junk) out.2) := by
  rw [tick_eq_prepare] at h
  obtain ⟨⟨done, c₁⟩, hprepare, h⟩ := bind_ok.mp h
  obtain ⟨c, hschedule, h⟩ := bind_ok.mp h
  cases h
  have hsame : SameQueues s.controller c₁ := (prepare_queues cfg _ junk).result hprepare
  simp only [follow, hprepare]
  rcases (schedule_advances cfg c₁ junk).result hschedule with
    ⟨hnone, hqueues⟩ | ⟨i, req, cmd, hsome, hi, hadvanced⟩
  · rw [hnone]
    refine .idle fun t ht => ?_
    rw [hqueues, hsame t ht]
  · rw [hsome]
    by_cases htype : c₁.selectQueue = .read ∨ c₁.selectQueue = .write
    · refine .serves htype (by rw [← hsame _ htype, hi]) ⟨hadvanced.trace, ?_, ?_, ?_⟩
      · intro t ht hne
        rw [hadvanced.others t ht hne, hsame t ht]
      · rw [← hsame _ htype]
        exact hadvanced.waits
      · rw [← hsame _ htype]
        exact hadvanced.counts
    · -- a refresh is served
      simp only [account, queue_of_other s htype, getElem?_nil]
      refine .idle fun t ht => ?_
      rw [hadvanced.others t ht, hsame t ht]
      rintro rfl
      exact htype ht

theorem apply_step (cfg : ControllerConfig) (s : BurstRun) (input : Input) :
    Yields (s.apply cfg input) (Step cfg s) := by
  refine Ends.intro (fun s' h => ?_) (fun _ _ => trivial)
  obtain ⟨c, hc, h⟩ := bind_ok.mp h
  cases h
  cases input with
  | receive packet =>
    obtain ⟨out, hout, h⟩ := bind_ok.mp hc
    cases h
    exact enter_step hout
  | tick junk =>
    obtain ⟨out, hout, h⟩ := bind_ok.mp hc
    cases h
    exact tick_step hout
  | takeResponse =>
    cases hc
    refine .idle ?_
    rintro t (rfl | rfl) <;> rfl

/-! ## The tickets in the queues -/

section Tickets

variable {type : RequestType} {t : Ticket} {i : Nat}

section

variable (htype : type = .read ∨ type = .write)
include htype

theorem mem_tickets (ht : t ∈ s.queue type) : t ∈ s.tickets := by
  rcases htype with rfl | rfl
  · exact mem_append_left _ ht
  · exact mem_append_right _ ht

theorem tickets_append : (s.setQueue type (s.queue type ++ [t])).tickets.Perm (t :: s.tickets) := by
  rcases htype with rfl | rfl
  · exact (perm_append_comm.append_right _).trans (List.Perm.of_eq rfl)
  · exact (List.Perm.of_eq (append_assoc _ _ _).symm).trans perm_append_comm

theorem tickets_erase (hi : (s.queue type)[i]? = some t) :
    (t :: (s.setQueue type ((s.queue type).eraseIdx i)).tickets).Perm s.tickets := by
  obtain ⟨hlt, hget⟩ := List.getElem?_eq_some_iff.mp hi
  have hperm := getElem_cons_eraseIdx_perm hlt
  rw [hget] at hperm
  rcases htype with rfl | rfl
  · exact hperm.append_right s.writes
  · exact perm_middle.symm.trans (hperm.append_left s.reads)

end

@[simp]
theorem setQueue_log (s : BurstRun) (type : RequestType) (q : List Ticket) :
    (s.setQueue type q).log = s.log := by
  cases type <;> rfl

@[simp]
theorem setQueue_entered (s : BurstRun) (type : RequestType) (q : List Ticket) :
    (s.setQueue type q).entered = s.entered := by
  cases type <;> rfl

theorem setQueue_queue (s : BurstRun) (type : RequestType) :
    s.setQueue type (s.queue type) = s := by
  cases type <;> rfl

theorem account_eq {c : Controller} {cmd : Command} (hi : (s.queue type)[i]? = some t)
    (htrace : c.cmdTrace.head?.map Issued.cmd = some cmd) : s.account type i c =
      { s.setQueue type (if (c.getQueue type).length < (s.controller.getQueue type).length
          then (s.queue type).eraseIdx i else s.queue type) with
        controller := c, log := (t.number, cmd) :: s.log } := by
  simp only [account, hi, htrace]

end Tickets

/-! ## What was issued and what is to go -/

theorem commandsOf_cons {m : Nat} {cmd : Command} (hlog : s'.log = (n, cmd) :: s.log) :
    s'.commandsOf m = if n = m then cmd :: s.commandsOf m else s.commandsOf m := by
  unfold commandsOf
  rw [hlog, filter_cons]
  by_cases hn : n = m
  · simp [hn]
  · simp [hn]

theorem columnsOf_cons {m : Nat} {cmd : Command} (hlog : s'.log = (n, cmd) :: s.log) :
    s'.columnsOf m = s.columnsOf m + if n = m ∧ isAccessing cmd = true then 1 else 0 := by
  unfold columnsOf
  rw [commandsOf_cons hlog]
  by_cases hn : n = m
  · simp [hn, countP_cons]
  · simp [hn]

/-- A queued request has those column commands to go that were not issued. -/
structure Owes (accesses : Int) (s : BurstRun) (type : RequestType) (req : Request)
    (t : Ticket) : Prop where
  request : req.ident = t.request
  type : req.type = type
  paid : req.burstCount + s.columnsOf t.number = accesses
  more : 0 < req.burstCount

theorem Owes.congr {accesses : Int} {req : Request} {t : Ticket} (h : Owes accesses s type req t)
    (hcolumns : s'.columnsOf t.number = s.columnsOf t.number) : Owes accesses s' type req t :=
  ⟨h.request, h.type, by rw [hcolumns]; exact h.paid, h.more⟩

structure Pays (accesses : Int) (s : BurstRun) : Prop where
  queues : ∀ type, (type = .read ∨ type = .write) →
    Forall₂ (Owes accesses s type) (s.controller.getQueue type) (s.queue type)
  numbers : (s.tickets.map Ticket.number).Nodup
  known : ∀ t ∈ s.tickets, t.number < s.entered
  logged : ∀ e ∈ s.log, e.1 < s.entered
  left : ∀ n < s.entered, ¬ s.Queued n → (s.columnsOf n : Int) = accesses

theorem Pays.new (accesses : Int) {c : Controller} (hreads : c.readq = [])
    (hwrites : c.writeq = []) : Pays accesses { controller := c } where
  queues := by
    rintro type (rfl | rfl)
    · rw [getQueue, hreads]
      exact .nil
    · rw [getQueue, hwrites]
      exact .nil
  numbers := nodup_nil
  known t ht := nomatch ht
  logged e he := nomatch he
  left n hn := absurd hn (Nat.not_lt_zero n)

section Steps

variable {accesses : Int} {type : RequestType} {i : Nat} {req : Request} {t : Ticket}
  {c : Controller} {cmd : Command}

section

variable (h : Pays accesses s)
include h

theorem Pays.ticketAt (htype : type = .read ∨ type = .write)
    (hi : (s.controller.getQueue type)[i]? = some req) :
    ∃ t, (s.queue type)[i]? = some t ∧ Owes accesses s type req t :=
  forall₂_getElem? (h.queues type htype) hi

theorem Pays.number_ne (htype : type = .read ∨ type = .write) (hi : (s.queue type)[i]? = some t) :
    ∀ t' ∈ (s.setQueue type ((s.queue type).eraseIdx i)).tickets, t'.number ≠ t.number := by
  have hnodup := ((tickets_erase htype hi).map Ticket.number).nodup_iff.mpr h.numbers
  rw [map_cons, nodup_cons] at hnodup
  intro t' ht' heq
  exact hnodup.1 (heq ▸ mem_map_of_mem ht')

/-- No column command was issued for a request that is not there yet. -/
theorem Pays.columnsOf_new : s.columnsOf s.entered = 0 := by
  have hnone : s.log.filter (fun e => e.1 = s.entered) = [] := by
    refine filter_eq_nil_iff.mpr fun e he => ?_
    have hlt := h.logged e he
    simp only [decide_eq_true_eq]
    omega
  simp only [columnsOf, commandsOf, hnone, map_nil, countP_nil]

theorem Pays.enters (hpos : 0 < accesses) (htype : req.type = .read ∨ req.type = .write)
    (hburst : req.burstCount = accesses)
    (hqueue : c.getQueue req.type = s.controller.getQueue req.type ++ [req])
    (hothers : ∀ t, (t = .read ∨ t = .write) → t ≠ req.type →
      c.getQueue t = s.controller.getQueue t) : Pays accesses { s.setQueue req.type
          (s.queue req.type ++ [{ number := s.entered, request := req.ident }]) with
        controller := c, entered := s.entered + 1 } := by
  obtain ⟨t, ht⟩ : ∃ t : Ticket, t = { number := s.entered, request := req.ident } := ⟨_, rfl⟩
  obtain ⟨s', hs'⟩ : ∃ s', s' = { s.setQueue req.type (s.queue req.type ++ [t]) with
    controller := c, entered := s.entered + 1 } := ⟨_, rfl⟩
  rw [← ht, ← hs']
  have hlog : s'.log = s.log := by rw [hs', setQueue_log]
  have hcolumns : ∀ n, s'.columnsOf n = s.columnsOf n := by
    intro n
    rw [columnsOf, columnsOf, commandsOf, commandsOf, hlog]
  have hperm : s'.tickets.Perm (t :: s.tickets) := by
    rw [hs']
    exact tickets_append htype
  have hcontroller : s'.controller = c := by rw [hs']
  have hentered : s'.entered = s.entered + 1 := by rw [hs']
  refine ⟨?_, ?_, ?_, ?_, ?_⟩
  · intro type htype'
    rw [hcontroller]
    have hold := (h.queues type htype').imp fun _ _ howes => howes.congr (hcolumns _)
    by_cases hne : type = req.type
    · have hq : s'.queue type = s.queue type ++ [t] := by
        rw [hs', hne]
        exact queue_setQueue s htype _
      have howes : Owes accesses s' type req t :=
        ⟨by rw [ht], hne.symm, by rw [hcolumns, ht, h.columnsOf_new, hburst]; simp,
          by rw [hburst]; exact hpos⟩
      rw [hq, hne, hqueue, ← hne]
      exact rel_append hold (.cons howes .nil)
    · have hq : s'.queue type = s.queue type := by
        rw [hs']
        exact queue_setQueue_ne s hne _
      rw [hq, hothers type htype' hne]
      exact hold
  · rw [(hperm.map Ticket.number).nodup_iff, map_cons, nodup_cons]
    refine ⟨?_, h.numbers⟩
    intro hmem
    obtain ⟨t', ht', heq⟩ := mem_map.mp hmem
    have hlt := h.known t' ht'
    rw [heq, ht] at hlt
    exact Nat.lt_irrefl _ hlt
  · intro t' ht'
    rw [hentered]
    rcases mem_cons.mp (hperm.mem_iff.mp ht') with rfl | ht'
    · rw [ht]
      exact Nat.lt_succ_self _
    · exact Nat.lt_succ_of_lt (h.known t' ht')
  · intro e he
    rw [hentered]
    exact Nat.lt_succ_of_lt (h.logged e (hlog ▸ he))
  · intro n hn hqueued
    rw [hcolumns]
    have hne : n ≠ s.entered := by
      rintro rfl
      exact hqueued ⟨t, hperm.mem_iff.mpr mem_cons_self, by rw [ht]⟩
    rw [hentered] at hn
    refine h.left n (by omega) ?_
    rintro ⟨t', ht', heq⟩
    exact hqueued ⟨t', hperm.mem_iff.mpr (mem_cons_of_mem _ ht'), heq⟩

section

variable (htype : type = .read ∨ type = .write)
include htype

theorem Pays.logs (hit : (s.queue type)[i]? = some t) (hlog : s'.log = (t.number, cmd) :: s.log)
    (hentered : s'.entered = s.entered) (hnumbers : (s'.tickets.map Ticket.number).Nodup)
    (hsub : ∀ t' ∈ s'.tickets, t' ∈ s.tickets)
    (hstays : ∀ t' ∈ s.tickets, t'.number ≠ t.number → t' ∈ s'.tickets)
    (hqueues : ∀ type', (type' = .read ∨ type' = .write) →
      Forall₂ (Owes accesses s' type') (s'.controller.getQueue type') (s'.queue type'))
    (hleft : ¬ s'.Queued t.number → (s'.columnsOf t.number : Int) = accesses) :
    Pays accesses s' := by
  refine ⟨hqueues, hnumbers, fun t' ht' => hentered ▸ h.known t' (hsub t' ht'), ?_, ?_⟩
  · rw [hlog, hentered, forall_mem_cons]
    exact ⟨h.known t (mem_tickets htype (mem_of_getElem? hit)), h.logged⟩
  · intro n hn hqueued
    by_cases hnt : n = t.number
    · subst hnt
      exact hleft hqueued
    · rw [columnsOf_cons hlog, if_neg (fun hand => hnt hand.1.symm), Nat.add_zero]
      refine h.left n (hentered ▸ hn) ?_
      rintro ⟨t', ht', heq⟩
      exact hqueued ⟨t', hstays t' ht' (heq ▸ hnt), heq⟩

theorem Pays.keeps (hit : (s.queue type)[i]? = some t) {req' : Request}
    (hothers : ∀ t, (t = .read ∨ t = .write) → t ≠ type → c.getQueue t = s.controller.getQueue t)
    (hqueue : c.getQueue type = (s.controller.getQueue type).set i req')
    (howes : Owes accesses { s with controller := c, log := (t.number, cmd) :: s.log } type req'
      t) : Pays accesses { s with controller := c, log := (t.number, cmd) :: s.log } := by
  refine h.logs htype hit rfl rfl h.numbers (fun _ ht' => ht') (fun _ ht' _ => ht') ?_ ?_
  · have hcongr : ∀ {req type' t'}, t'.number ≠ t.number → Owes accesses s type' req t' →
        Owes accesses { s with controller := c, log := (t.number, cmd) :: s.log } type' req t' :=
      fun hne hold => hold.congr (by
        rw [columnsOf_cons rfl, if_neg (fun hand => hne hand.1.symm), Nat.add_zero])
    have hrest := h.number_ne htype hit
    intro type' htype'
    change Forall₂ _ (c.getQueue type') (s.queue type')
    by_cases hne : type' = type
    · subst hne
      rw [hqueue]
      refine forall₂_set_left (h.queues type' htype) hit howes fun _ t' ht' hold => ?_
      refine hcongr (hrest t' (mem_tickets htype ?_)) hold
      rw [queue_setQueue s htype]
      exact ht'
    · rw [hothers type' htype' hne]
      refine forall₂_imp_mem (h.queues type' htype') fun _ t' ht' hold => ?_
      refine hcongr (hrest t' (mem_tickets htype' ?_)) hold
      rw [queue_setQueue_ne s hne]
      exact ht'
  · exact fun hleft => absurd ⟨t, mem_tickets htype (mem_of_getElem? hit), rfl⟩ hleft

theorem Pays.leaves (hit : (s.queue type)[i]? = some t)
    (hothers : ∀ t, (t = .read ∨ t = .write) → t ≠ type → c.getQueue t = s.controller.getQueue t)
    (hqueue : c.getQueue type = (s.controller.getQueue type).eraseIdx i)
    (hlast : (s.columnsOf t.number : Int) + 1 = accesses) (hcmd : isAccessing cmd = true) :
    Pays accesses { s.setQueue type ((s.queue type).eraseIdx i) with
      controller := c, log := (t.number, cmd) :: s.log } := by
  obtain ⟨rest, hrest⟩ : ∃ rest, rest = s.setQueue type ((s.queue type).eraseIdx i) := ⟨_, rfl⟩
  have hperm := tickets_erase htype hit
  have hne_rest := h.number_ne htype hit
  have hnodup := (hperm.map Ticket.number).nodup_iff.mpr h.numbers
  rw [← hrest] at hperm hne_rest hnodup ⊢
  refine h.logs htype hit rfl (by rw [hrest, setQueue_entered]) (nodup_cons.mp hnodup).2
    (fun t' ht' => hperm.mem_iff.mp (mem_cons_of_mem _ ht')) ?_ ?_ ?_
  · intro t' ht' hne
    exact (mem_cons.mp (hperm.mem_iff.mpr ht')).resolve_left fun heq => hne (heq ▸ rfl)
  · intro type' htype'
    change Forall₂ _ (c.getQueue type') (rest.queue type')
    refine forall₂_imp_mem (R := Owes accesses s type') ?_ fun _ t' ht' hold => hold.congr ?_
    · by_cases hne : type' = type
      · subst hne
        rw [hqueue, hrest, queue_setQueue s htype]
        exact forall₂_eraseIdx (h.queues type' htype) i
      · rw [hothers type' htype' hne, hrest, queue_setQueue_ne s hne]
        exact h.queues type' htype'
    · have hne := hne_rest t' (mem_tickets htype' ht')
      rw [columnsOf_cons rfl, if_neg (fun hand => hne hand.1.symm), Nat.add_zero]
  · intro _
    rw [columnsOf_cons rfl, if_pos ⟨rfl, hcmd⟩, ← hlast]
    rfl

theorem Pays.serves (hi : (s.controller.getQueue type)[i]? = some req)
    (hadvanced : Advanced s.controller c type i req cmd) : Pays accesses (s.account type i c) := by
  obtain ⟨t, hit, howes⟩ := h.ticketAt htype hi
  have hreq : req.type = .read ∨ req.type = .write := howes.type ▸ htype
  have hlt : i < (s.controller.getQueue type).length := (List.getElem?_eq_some_iff.mp hi).1
  have hstays : ∀ req', c.getQueue type = (s.controller.getQueue type).set i req' →
      s.account type i c = { s with controller := c, log := (t.number, cmd) :: s.log } := by
    intro req' hqueue
    rw [account_eq hit hadvanced.trace, hqueue, length_set, if_neg (Nat.lt_irrefl _),
      setQueue_queue]
  have hcolumns : columnsOf { s with controller := c, log := (t.number, cmd) :: s.log } t.number =
      s.columnsOf t.number + if t.number = t.number ∧ isAccessing cmd = true then 1 else 0 :=
    columnsOf_cons rfl
  cases hcmd : isAccessing cmd with
  | false =>
    have hqueue := hadvanced.waits hreq hcmd
    rw [hstays _ hqueue]
    refine h.keeps htype hit hadvanced.others hqueue ⟨howes.request, howes.type, ?_, howes.more⟩
    rw [hcolumns, hcmd, if_neg (by simp), Nat.add_zero]
    exact howes.paid
  | true =>
    have hcounts := hadvanced.counts hreq hcmd
    have hpaid := howes.paid
    have hmore := howes.more
    split at hcounts
    · next hdone =>
      rw [account_eq hit hadvanced.trace, hcounts, if_pos]
      · exact h.leaves htype hit hadvanced.others hcounts (by omega) hcmd
      · rw [length_eraseIdx, if_pos hlt]
        omega
    · obtain ⟨req', hident, hburst, hqueue⟩ := hcounts
      rw [hstays _ hqueue]
      refine h.keeps htype hit hadvanced.others hqueue
        ⟨hident.trans howes.request, ?_, ?_, by omega⟩
      · rw [Request.type_eq_of_ident hident, howes.type]
      · rw [hcolumns, hcmd, if_pos ⟨rfl, rfl⟩, hburst]
        push_cast
        omega

end

end

theorem Pays.step (h : Pays cfg.hmc.burstCount s) (hpos : 0 < cfg.hmc.burstCount)
    (hstep : Step cfg s s') : Pays cfg.hmc.burstCount s' := by
  cases hstep with
  | idle hsame =>
    refine ⟨fun type htype => ?_, h.numbers, h.known, h.logged, h.left⟩
    rw [hsame type htype]
    exact (h.queues type htype).imp fun _ _ howes => howes.congr rfl
  | enters htype hburst hqueue hothers => exact h.enters hpos htype hburst hqueue hothers
  | serves htype hi hadvanced => exact h.serves htype hi hadvanced

theorem Pays.stays_away (h : Pays accesses s) (hstep : Step cfg s s') (hn : n < s.entered)
    (hleft : ¬ s.Queued n) : n < s'.entered ∧ ¬ s'.Queued n ∧ s'.commandsOf n = s.commandsOf n := by
  cases hstep with
  | idle hsame => exact ⟨hn, hleft, rfl⟩
  | enters htype hburst hqueue hothers =>
    refine ⟨Nat.lt_succ_of_lt hn, ?_, ?_⟩
    · rintro ⟨t', ht', heq⟩
      rcases mem_cons.mp ((tickets_append htype).mem_iff.mp ht') with rfl | ht'
      · exact Nat.lt_irrefl _ (heq ▸ hn)
      · exact hleft ⟨t', ht', heq⟩
    · simp only [commandsOf, setQueue_log]
  | serves htype hi hadvanced =>
    obtain ⟨t, hit, -⟩ := h.ticketAt htype hi
    have hne : t.number ≠ n := fun heq =>
      hleft ⟨t, mem_tickets htype (mem_of_getElem? hit), heq⟩
    rw [account_eq hit hadvanced.trace]
    refine ⟨by simpa only [setQueue_entered] using hn, ?_, ?_⟩
    · rintro ⟨t', ht', heq⟩
      refine hleft ⟨t', ?_, heq⟩
      split at ht'
      · exact (tickets_erase htype hit).mem_iff.mp (mem_cons_of_mem _ ht')
      · rw [setQueue_queue] at ht'
        exact ht'
    · rw [commandsOf_cons rfl, if_neg hne]

theorem Pays.run_stays_away (hpos : 0 < cfg.hmc.burstCount) (more : List Input)
    (h : Pays cfg.hmc.burstCount s) (hn : n < s.entered) (hleft : ¬ s.Queued n)
    (hrun : more.foldlM (apply cfg) s = .ok s') : s'.commandsOf n = s.commandsOf n := by
  have hends : Yields (more.foldlM (apply cfg) s) (fun s₁ => Pays cfg.hmc.burstCount s₁ ∧
      n < s₁.entered ∧ ¬ s₁.Queued n ∧ s₁.commandsOf n = s.commandsOf n) := by
    refine Ends.foldlM more ⟨h, hn, hleft, rfl⟩ ?_
    rintro s₁ input - ⟨hpays, hn₁, hleft₁, hsame⟩
    refine (apply_step cfg s₁ input).weaken fun s₂ hstep => ?_
    obtain ⟨hn₂, hleft₂, hsame₂⟩ := hpays.stays_away hstep hn₁ hleft₁
    exact ⟨hpays.step hpos hstep, hn₂, hleft₂, hsame₂.trans hsame⟩
  exact (hends.result hrun).2.2.2

theorem Pays.bursts (h : Pays accesses s) : s.Bursts accesses := by
  have hrequests : ∀ type, (type = .read ∨ type = .write) →
      (s.queue type).map Ticket.request = (s.controller.getQueue type).map ident := by
    intro type htype
    have heq : Forall₂ Eq ((s.controller.getQueue type).map ident)
        ((s.queue type).map Ticket.request) := by
      rw [forall₂_map_left_iff, forall₂_map_right_iff]
      exact (h.queues type htype).imp fun _ _ howes => howes.request
    rw [forall₂_eq_eq_eq] at heq
    exact heq.symm
  have hqueued : ∀ n, s.Queued n → (s.columnsOf n : Int) < accesses := by
    rintro n ⟨t, ht, rfl⟩
    obtain ⟨type, htype, ht⟩ : ∃ type, (type = .read ∨ type = .write) ∧ t ∈ s.queue type := by
      rcases mem_append.mp ht with ht | ht
      · exact ⟨.read, Or.inl rfl, ht⟩
      · exact ⟨.write, Or.inr rfl, ht⟩
    obtain ⟨i, hi⟩ := mem_iff_getElem?.mp ht
    obtain ⟨req, -, howes⟩ := forall₂_getElem? (h.queues type htype).flip hi
    have hpaid := howes.paid
    have hmore := howes.more
    omega
  refine ⟨hrequests .read (Or.inl rfl), hrequests .write (Or.inr rfl), ?_, ?_⟩
  · intro n hn
    by_cases hq : s.Queued n
    · exact Int.le_of_lt (hqueued n hq)
    · exact Int.le_of_eq (h.left n hn hq)
  · intro n hn
    refine ⟨hqueued n, fun hlt => ?_⟩
    by_contra hq
    rw [h.left n hn hq] at hlt
    exact Int.lt_irrefl _ hlt

end Steps

/-! ## Whole runs -/

/-- If the payload has an even number of flits, each read and write that enters
    its queue gets the column commands its payload needs, leaves the queue at the
    last of them, and gets no command afterwards. -/
theorem run_bursts {vault : Int} {inputs : List Input} {c : Controller}
    (hpos : 1 ≤ cfg.hmc.payloadFlits) (heven : cfg.hmc.payloadFlits % 2 = 0)
    (hrun : Controller.run cfg vault inputs = .ok c) :
    ∃ s, run cfg vault inputs = .ok s ∧ s.controller = c ∧ s.Bursts cfg.hmc.columnAccesses ∧
      ∀ more s', run cfg vault (inputs ++ more) = .ok s' →
        ∀ n < s.entered, ¬ s.Queued n → s'.commandsOf n = s.commandsOf n := by
  have hcount : cfg.hmc.burstCount = cfg.hmc.columnAccesses := HMC.burstCount_of_even heven
  have hburst : 0 < cfg.hmc.burstCount := by
    rw [hcount, HMC.columnAccesses]
    omega
  obtain ⟨s, hs, hcontroller⟩ := (run_controller cfg vault inputs).exists_left hrun
  have hpays : Pays cfg.hmc.burstCount s := by
    refine (Ends.foldlM (E := fun _ => True) inputs (Pays.new _ rfl rfl) ?_).result hs
    rintro s₁ input - h₁
    exact (apply_step cfg s₁ input).weaken fun _ hstep => h₁.step hburst hstep
  refine ⟨s, hs, hcontroller, hcount ▸ hpays.bursts, ?_⟩
  intro more s' hmore n hn hleft
  rw [run, foldlM_append] at hmore
  obtain ⟨s₁, hs₁, hmore⟩ := bind_ok.mp hmore
  cases hs.symm.trans hs₁
  exact hpays.run_stays_away hburst more hn hleft hmore

/-- Two reads of four flits: the first one has left after two column commands,
    the second one waits for its row. -/
theorem run_bursts_rowConflict : ∃ s, run (gb4Vault .opened) 0 (rowConflict 40) = .ok s ∧
      s.commandsOf 0 = [.rd, .rd, .act] ∧ s.commandsOf 1 = [.pre] ∧
      s.Bursts (gb4Vault .opened).hmc.columnAccesses ∧
      ∀ more s', run (gb4Vault .opened) 0 (rowConflict 40 ++ more) = .ok s' →
        ∀ n < s.entered, ¬ s.Queued n → s'.commandsOf n = s.commandsOf n := by
  have hlog : (run (gb4Vault .opened) 0 (rowConflict 40)).toOption.map
      (fun s => (s.commandsOf 0, s.commandsOf 1)) = some ([.rd, .rd, .act], [.pre]) := by
    decide +kernel
  obtain ⟨s, hs, hlog⟩ := exists_ok_of_map hlog
  obtain ⟨c, hc, -⟩ : ∃ c, Controller.run (gb4Vault .opened) 0 (rowConflict 40) = .ok c ∧
      c.clk = 40 := exists_ok_of_map (f := Controller.clk) (by decide +kernel)
  obtain ⟨s₁, hs₁, -, hbursts, hafter⟩ := run_bursts (by decide) (by decide) hc
  cases hs.symm.trans hs₁
  exact ⟨s, hs, (Prod.ext_iff.mp hlog).1, (Prod.ext_iff.mp hlog).2, hbursts, hafter⟩

def payloadVault (payloadFlits : Int) : ControllerConfig :=
  { gb4Vault .opened with hmc := { (gb4Vault .opened).hmc with payloadFlits } }

/-- A read arrives, and `n` cycles pass. -/
def oneRead (n : Nat) : List Input := readOfRow 0 3 :: replicate n (.tick 0)

/-- A read of three flits leaves after one column command, it needs two; a read of
    one flit stays after the one it needs, and gets more. -/
theorem odd_payload_bursts :
    (∃ s, run (payloadVault 3) 0 (oneRead 30) = .ok s ∧ s.entered = 1 ∧ s.tickets = [] ∧
      s.columnsOf 0 = 1 ∧ ¬ s.Bursts (payloadVault 3).hmc.columnAccesses) ∧
    ∃ s, run (payloadVault 1) 0 (oneRead 30) = .ok s ∧ s.entered = 1 ∧
      s.columnsOf 0 = 3 ∧ ¬ s.Bursts (payloadVault 1).hmc.columnAccesses := by
  constructor
  · have hthree : (run (payloadVault 3) 0 (oneRead 30)).toOption.map
        (fun s => (s.entered, s.tickets, s.columnsOf 0)) = some (1, [], 1) := by decide +kernel
    obtain ⟨s, hs, hstate⟩ := exists_ok_of_map hthree
    simp only [Prod.mk.injEq] at hstate
    obtain ⟨hentered, htickets, hcolumns⟩ := hstate
    refine ⟨s, hs, hentered, htickets, hcolumns, fun hbursts => ?_⟩
    have hneeds : (payloadVault 3).hmc.columnAccesses = 2 := rfl
    obtain ⟨t, ht, -⟩ := (hbursts.leaves 0 (by omega)).mpr (by rw [hcolumns, hneeds]; decide)
    rw [htickets] at ht
    cases ht
  · have hone : (run (payloadVault 1) 0 (oneRead 30)).toOption.map
        (fun s => (s.entered, s.columnsOf 0)) = some (1, 3) := by decide +kernel
    obtain ⟨s, hs, hstate⟩ := exists_ok_of_map hone
    simp only [Prod.mk.injEq] at hstate
    obtain ⟨hentered, hcolumns⟩ := hstate
    refine ⟨s, hs, hentered, hcolumns, fun hbursts => ?_⟩
    have hneeds : (payloadVault 1).hmc.columnAccesses = 1 := rfl
    have hmost := hbursts.atMost 0 (by omega)
    rw [hcolumns, hneeds] at hmost
    exact absurd hmost (by decide)

end BurstRun

end Ramulator
