/-
  Ramulator.Generic.ChannelSteps

  What the steps of a channel controller keep.

  A cycle does three things that matter to the DRAM: it lets time pass and
  moves requests between queues (`Quiet`), it asks the scheduler, which may
  touch the row table, and it issues at most one command, for the request the
  scheduler chose or for the victim of the row policy (`Chosen`).
  `ChannelRule` collects what an invariant has to say about each of the three;
  `ChannelRule.run` then gives it after every run.
-/

import Ramulator.Generic.ChannelController

namespace Ramulator

open Outcome List

namespace Generic

variable {type : RequestType} {inputs : List ChannelInput} {i : Nat}

/-! ## Queues -/

def Device.QueueType (d : Device) (type reqType : RequestType) : Prop :=
  match type with
  | .read => reqType = .read ∨ (d.migrates = true ∧ reqType = .extension)
  | .write => reqType = .write
  | _ => reqType = .refresh

structure OfChannel (d : Device) (id : Int) (v : AddrVec) : Prop where
  length : v.length = d.levels
  channel : v.head? = some id

instance (d : Device) (id : Int) (v : AddrVec) : Decidable (OfChannel d id v) :=
  decidable_of_iff (v.length = d.levels ∧ v.head? = some id)
    ⟨fun ⟨hlength, hchannel⟩ => ⟨hlength, hchannel⟩, fun h => ⟨h.length, h.channel⟩⟩

def Queued (d : Device) (id : Int) (type : RequestType) (req : Request) : Prop :=
  d.QueueType type req.type ∧ OfChannel d id req.addrVec

/-- Every queue holds requests of its own kind. -/
def QueuesOk (d : Device) (id : Int) (c : Controller) : Prop :=
  ∀ type, ∀ req ∈ c.getQueue type, Queued d id type req

/-- What arrives: reads and writes of this channel. -/
def Arrives (d : Device) (id : Int) (req : Request) : Prop :=
  (req.type = .read ∨ req.type = .write) ∧ OfChannel d id req.addrVec

instance (d : Device) (id : Int) (req : Request) : Decidable (Arrives d id req) :=
  inferInstanceAs (Decidable (_ ∧ _))

/-- A predicate that looks at the address of a request, and at whether it is a
    refresh. -/
def AddressOnly (W : Request → Prop) : Prop :=
  ∀ req req' : Request, req'.addrVec = req.addrVec →
    (req'.type = .refresh ↔ req.type = .refresh) → W req → W req'

def QueuesWith (d : Device) (W : Request → Prop) (c : Controller) : Prop :=
  ∀ type, ∀ req ∈ c.getQueue type, d.QueueType type req.type ∧ W req

theorem ofChannel_addressOnly (d : Device) (id : Int) :
    AddressOnly fun req => OfChannel d id req.addrVec := by
  intro req req' haddr _ h
  rw [haddr]
  exact h

theorem queueType_self {d : Device} (h : type = .read ∨ type = .write ∨ type = .refresh) :
    d.QueueType type type := by
  rcases h with rfl | rfl | rfl
  · exact Or.inl rfl
  · rfl
  · rfl

namespace QueuesWith

variable {d : Device} {W : Request → Prop} {c c' : Controller}

section

variable (h : QueuesWith d W c) {req : Request}
include h

theorem frame (hread : c'.readq = c.readq) (hwrite : c'.writeq = c.writeq)
    (hother : c'.otherq = c.otherq) : QueuesWith d W c' := by
  have hqueue : c'.getQueue = c.getQueue := by
    funext type
    simp only [Controller.getQueue, hread, hwrite, hother]
  unfold QueuesWith
  rw [hqueue]
  exact h

theorem setQueue {q : List Request} (hq : ∀ req ∈ q, d.QueueType type req.type ∧ W req) :
    QueuesWith d W (c.setQueue type q) := by
  intro type' req hreq
  cases type <;> cases type' <;> first | exact hq req hreq | exact h _ req hreq

theorem set (hreq : d.QueueType type req.type ∧ W req) :
    QueuesWith d W (c.setQueue type ((c.getQueue type).set i req)) := by
  refine h.setQueue fun req' hreq' => ?_
  rcases mem_or_eq_of_mem_set hreq' with hmem | rfl
  · exact h type req' hmem
  · exact hreq

theorem eraseIdx (type : RequestType) (i : Nat) :
    QueuesWith d W (c.setQueue type ((c.getQueue type).eraseIdx i)) :=
  h.setQueue fun req' hreq' => h type req' (mem_of_mem_eraseIdx hreq')

theorem enqueue (hW : AddressOnly W) (htype : d.QueueType req.type req.type) (hreq : W req)
    (henqueue : c.enqueue req = some c') : QueuesWith d W c' := by
  have hpushed : QueuesWith d W (c.setQueue req.type
      (c.getQueue req.type ++ [{ req with arrive := c.clk }])) := by
    refine h.setQueue fun req' hreq' => ?_
    rcases mem_append.mp hreq' with hmem | hnew
    · exact h _ req' hmem
    · rw [mem_singleton.mp hnew]
      exact ⟨htype, hW req _ rfl Iff.rfl hreq⟩
  unfold Controller.enqueue at henqueue
  split at henqueue
  · cases henqueue
  · simp only at henqueue
    split at henqueue
    · -- the read is served from the write queue
      cases henqueue
      intro type req' hreq'
      cases type with
      | read => exact hpushed .read req' (dropLast_subset _ hreq')
      | write => exact hpushed .write req' hreq'
      | _ => exact hpushed .refresh req' hreq'
    · cases henqueue
      exact hpushed

end

end QueuesWith

/-! ## What a cycle does -/

/-- Time passed, requests moved and were counted; no command was issued. -/
structure Quiet (c c' : ChannelController) : Prop where
  clk : c.clk ≤ c'.clk
  cmdTrace : c'.cmdTrace = c.cmdTrace
  rowtable : c'.rowtable = c.rowtable
  channel : NodeTree.Rel Node.SameButStats c.channel c'.channel

theorem Quiet.of_eq {c c' : ChannelController} (hclk : c.clk ≤ c'.clk)
    (htrace : c'.cmdTrace = c.cmdTrace) (htable : c'.rowtable = c.rowtable)
    (hchannel : c'.channel = c.channel) : Quiet c c' := by
  refine ⟨hclk, htrace, htable, ?_⟩
  rw [hchannel]
  exact NodeTree.Rel.refl Node.SameButStats.refl _

theorem Quiet.refl (c : ChannelController) : Quiet c c := .of_eq (le_refl _) rfl rfl rfl

theorem Quiet.trans {c₁ c₂ c₃ : ChannelController} (h₁₂ : Quiet c₁ c₂) (h₂₃ : Quiet c₂ c₃) :
    Quiet c₁ c₃ where
  clk := h₁₂.clk.trans h₂₃.clk
  cmdTrace := h₂₃.cmdTrace.trans h₁₂.cmdTrace
  rowtable := h₂₃.rowtable.trans h₁₂.rowtable
  channel := h₁₂.channel.trans (fun _ _ _ h h' => h.trans h') h₂₃.channel

def Device.servedType (d : Device) (type : RequestType) : RequestType :=
  if d.migrates && decide (type = .read) then .extension else type

namespace ChannelController

/-- The row table after the scheduler was asked. -/
def asked (cfg : ChannelConfig) (junk : Int) (c : ChannelController) : ChannelController :=
  { c with rowtable := (c.getHead cfg junk c.selectQueue).2 }

def record (c : ChannelController) (cmd : Command) (addrVec : AddrVec) : ChannelController :=
  { c with cmdTrace := { clk := c.clk, cmd, addrVec } :: c.cmdTrace }

/-- The command that a cycle issues from `c`, if the scheduler was asked in `c₀`. -/
inductive Chosen (cfg : ChannelConfig) (junk : Int) (c₀ c : ChannelController) :
    Command → AddrVec → Prop where
  /-- For the request the scheduler chose. -/
  | request {i : Nat} {req : Request} {table : RowTable}
      (hhead : c₀.getHead cfg junk c₀.selectQueue = (some (i, req), table))
      (hready : c₀.isReady cfg junk req = true) {cmd : Command}
      (hcmd : cmd = c.getFirstCmd cfg junk { req with type := cfg.device.servedType req.type }) :
      Chosen cfg junk c₀ c cmd (cfg.device.getAddrVec c.channel cmd req.addrVec)
  /-- For the victim of the row policy. -/
  | victim {g : AddrVec} {e : RowEntry} (hpolicy : cfg.rowpolicy ≠ .opened)
      (hmem : (g, e) ∈ c.rowtable) : Chosen cfg junk c₀ c .pre g

end ChannelController

def TargetOk (cfg : ChannelConfig) (T : RefreshTarget → Prop) (c : ChannelController)
    (target : RefreshTarget) : Prop :=
  if cfg.device.bRefRank then ∃ rank < c.channel.arity, target = ((rank : Int), -1, -1)
  else T target

/-- What an invariant `I` needs, for requests with `W`, refreshes with `T` and cycles with `A`.
    Only the row table may abort outside of `E`. -/
structure ChannelRule (cfg : ChannelConfig) (W : Request → Prop) (T : RefreshTarget → Prop)
    (A : Int → ChannelController → Prop) (I : ChannelController → Prop) (E : Abort → Prop) :
    Prop where
  addressOnly : AddressOnly W
  refreshes : ∀ c target, I c → TargetOk cfg T c target →
    W (ChannelController.refreshRequest cfg c.channel.val.id target)
  quiet : ∀ c c', I c → Quiet c c' → I c'
  asked : ∀ junk c, A junk c → QueuesWith cfg.device W c.toController → I c → I (c.asked cfg junk)
  issue : ∀ junk c₀ c cmd v, A junk c₀ → QueuesWith cfg.device W c₀.toController → I c →
    Quiet (c₀.asked cfg junk) c → ChannelController.Chosen cfg junk c₀ c cmd v →
      c.isReadyCmd cfg junk cmd v = true →
        Ends (c.updateDram cfg junk cmd v) (fun c' => I (c'.record cmd v)) E
  abort : ∀ e, e.isRowTable = false → E e

/-! ## One cycle -/

namespace ChannelController

variable {cfg : ChannelConfig} {junk : Int} {c c' : ChannelController} {req : Request}

theorem isRowTable_eq_false_of_isServing {e : Abort} (h : e.isServing = true) :
    e.isRowTable = false := by
  cases e <;> first | rfl | cases h

theorem updateServingRequests_quiet (cfg : ChannelConfig) (c : ChannelController) (junk : Int)
    (delta : Int) (req : Request) : Ends (c.updateServingRequests cfg junk delta req)
      (fun c' => ∃ channel, NodeTree.Rel Node.SameButStats c.channel channel ∧
        c' = { c with channel })
      (fun e => e.isServing = true) := by
  have hends := DRAM.updateServingRequests_ends cfg.device.spec (req.addrVec.data junk) delta c.clk
    c.channel
  exact Ends.bind hends fun channel hrel => ⟨channel, hrel, rfl⟩

theorem Quiet.setQueue (c : ChannelController) (type : RequestType) (q : List Request) :
    Quiet c (c.setQueue type q) := by
  refine .of_eq (le_of_eq ?_) rfl rfl rfl
  cases type <;> rfl

structure Moves (d : Device) (W : Request → Prop) (c c' : ChannelController) : Prop where
  quiet : Quiet c c'
  queues : QueuesWith d W c.toController → QueuesWith d W c'.toController

variable {d : Device} {W : Request → Prop}

theorem Moves.refl (c : ChannelController) : Moves d W c c := ⟨Quiet.refl c, fun h => h⟩

theorem Moves.trans {c₁ c₂ c₃ : ChannelController} (h₁₂ : Moves d W c₁ c₂)
    (h₂₃ : Moves d W c₂ c₃) : Moves d W c₁ c₃ :=
  ⟨h₁₂.quiet.trans h₂₃.quiet, fun h => h₂₃.queues (h₁₂.queues h)⟩

theorem updateServingRequests_moves (cfg : ChannelConfig) (c : ChannelController) (junk : Int)
    (delta : Int) (req : Request) : Ends (c.updateServingRequests cfg junk delta req) (Moves d W c)
      (fun e => e.isServing = true) := by
  refine (updateServingRequests_quiet cfg c junk delta req).weaken ?_
  rintro _ ⟨channel, hrel, rfl⟩
  exact ⟨⟨le_refl _, rfl, rfl, hrel⟩, fun h => h⟩

theorem serveCompleted_moves (cfg : ChannelConfig) (c : ChannelController) (junk : Int) :
    Ends (c.serveCompleted cfg junk) (fun out => Moves d W c out.2)
      (fun e => e.isServing = true) := by
  unfold serveCompleted
  cases c.pending with
  | nil => exact Moves.refl c
  | cons req rest =>
    refine Ends.ite (fun _ => ?_) (fun _ => Moves.refl c)
    have hends : Ends (c.endServing cfg junk req) (Moves d W c) (fun e => e.isServing = true) :=
      Ends.ite (fun _ => updateServingRequests_moves cfg c junk (-1) req) (fun _ => Moves.refl c)
    exact Ends.bind hends fun c' h' => Ends.pure (h'.trans
      ⟨.of_eq (le_refl _) rfl rfl rfl, fun h => h.frame rfl rfl rfl⟩)

theorem enqueue_quiet (henqueue : c.enqueue req = some c') : Quiet c c' := by
  obtain ⟨queues, hqueues, rfl⟩ := Option.map_eq_some_iff.mp henqueue
  refine .of_eq (le_of_eq ?_) rfl rfl rfl
  unfold Controller.enqueue at hqueues
  split at hqueues
  · cases hqueues
  · simp only at hqueues
    split at hqueues <;> cases hqueues <;> cases req.type <;> rfl

theorem enqueue_moves (hW : AddressOnly W) (htype : d.QueueType req.type req.type) (hreq : W req)
    (henqueue : c.enqueue req = some c') : Moves d W c c' := by
  refine ⟨enqueue_quiet henqueue, fun h => ?_⟩
  obtain ⟨queues, hqueues, rfl⟩ := Option.map_eq_some_iff.mp henqueue
  exact h.enqueue hW htype hreq hqueues

theorem updateWriteMode_moves (c : ChannelController) : Moves d W c c.updateWriteMode := by
  have hmode : ∃ writeMode, c.updateWriteMode = { c with writeMode } := by
    unfold updateWriteMode Controller.updateWriteMode
    split
    · split
      · exact ⟨_, rfl⟩
      · exact ⟨c.writeMode, rfl⟩
    · split
      · exact ⟨_, rfl⟩
      · exact ⟨c.writeMode, rfl⟩
  obtain ⟨writeMode, hmode⟩ := hmode
  rw [hmode]
  exact ⟨.of_eq (le_refl _) rfl rfl rfl, fun h => h.frame rfl rfl rfl⟩

/-- The request that is served is the one that was chosen, but for its flag and
    its type. -/
structure ServedAs (d : Device) (req req' : Request) : Prop where
  addrVec : req'.addrVec = req.addrVec
  type : req'.type = d.servedType req.type

theorem firstCommand_moves (hW : AddressOnly W)
    (hreq : cfg.device.QueueType type req.type ∧ W req) : Ends (c.firstCommand cfg junk type i req)
      (fun out => Moves cfg.device W c out.2 ∧ out.1.addrVec = req.addrVec ∧ out.1.type = req.type)
      (fun e => e.isServing = true) := by
  refine Ends.ite (fun _ => ?_) (fun _ => ⟨Moves.refl c, rfl, rfl⟩)
  have hset : Moves cfg.device W c
      (c.setQueue type ((c.getQueue type).set i { req with isFirstCommand := false })) :=
    ⟨Quiet.setQueue .., fun h => h.set ⟨hreq.1, hW req _ rfl Iff.rfl hreq.2⟩⟩
  have hserving := Ends.ite (c := req.type = .read ∨ req.type = .write)
    (fun _ => updateServingRequests_moves (d := cfg.device) (W := W) cfg
      (c.setQueue type ((c.getQueue type).set i { req with isFirstCommand := false })) junk 1
      { req with isFirstCommand := false })
    (fun _ => Ends.pure (Moves.refl _))
  exact Ends.bind hserving fun c' h' => Ends.pure ⟨hset.trans h', rfl, rfl⟩

theorem migrate_moves (hW : AddressOnly W) (hreq : cfg.device.QueueType type req.type ∧ W req) :
    Moves cfg.device W c (c.migrate cfg type i req).2 ∧
      ServedAs cfg.device req (c.migrate cfg type i req).1 := by
  unfold migrate
  split
  · next hmigrates =>
    have hserved : cfg.device.servedType req.type = .extension := if_pos hmigrates
    rw [Bool.and_eq_true, decide_eq_true_eq] at hmigrates
    obtain ⟨hdevice, hread⟩ := hmigrates
    refine ⟨⟨Quiet.setQueue .., fun h => h.set ⟨?_, ?_⟩⟩, rfl, hserved.symm⟩
    · have hqueue := hreq.1
      rw [hread] at hqueue
      cases type with
      | read => exact Or.inr ⟨hdevice, rfl⟩
      | _ => cases hqueue
    · exact hW req _ rfl (by simp [hread]) hreq.2
  · next hmigrates => exact ⟨Moves.refl c, rfl, (if_neg hmigrates).symm⟩

theorem finishRequest_moves (cfg : ChannelConfig) (c : ChannelController) (junk : Int)
    (type : RequestType) (i : Nat) (req : Request) :
    Ends (c.finishRequest cfg junk type i req) (Moves d W c) (fun e => e.isServing = true) := by
  have hcomplete : Moves d W c (c.complete cfg req) := by
    unfold complete
    split
    · exact ⟨.of_eq (le_refl _) rfl rfl rfl, fun h => h.frame rfl rfl rfl⟩
    · exact Moves.refl c
  have hwrite : Ends ((c.complete cfg req).completeWrite cfg junk req) (Moves d W c)
      (fun e => e.isServing = true) :=
    Ends.ite (fun _ => (updateServingRequests_moves cfg _ junk (-1) req).weaken
        fun _ h => hcomplete.trans h)
      (fun _ => Ends.pure hcomplete)
  exact Ends.bind hwrite fun c' h' => Ends.pure
    (h'.trans ⟨Quiet.setQueue .., fun h => h.eraseIdx type i⟩)

end ChannelController

namespace ChannelRule

open ChannelController

variable {cfg : ChannelConfig} {W : Request → Prop} {T : RefreshTarget → Prop}
  {A : Int → ChannelController → Prop} {I : ChannelController → Prop} {E : Abort → Prop}
  {junk : Int} {c c' c₀ : ChannelController} {req : Request}

/-- The invariant together with what is known of the queues. -/
def Holds (cfg : ChannelConfig) (W : Request → Prop) (I : ChannelController → Prop)
    (c : ChannelController) : Prop :=
  I c ∧ QueuesWith cfg.device W c.toController

section

variable (rule : ChannelRule cfg W T A I E)
include rule

theorem serving (e : Abort) (he : e.isServing = true) : E e :=
  rule.abort e (isRowTable_eq_false_of_isServing he)

theorem moves (h : Holds cfg W I c) (hmoves : Moves cfg.device W c c') : Holds cfg W I c' :=
  ⟨rule.quiet c c' h.1 hmoves.quiet, hmoves.queues h.2⟩

theorem refreshTarget (h : Holds cfg W I c) {target : RefreshTarget}
    (htarget : TargetOk cfg T c target) : Ends (c.refreshTarget cfg target)
      (fun c' => Holds cfg W I c' ∧ c'.channel.arity = c.channel.arity) E := by
  unfold ChannelController.refreshTarget
  cases henqueue : c.enqueue (refreshRequest cfg c.channel.val.id target) with
  | none => exact rule.abort _ rfl
  | some c' =>
    have hmoves : Moves cfg.device W c c' :=
      enqueue_moves rule.addressOnly (queueType_self (Or.inr (Or.inr rfl)))
        (rule.refreshes c target h.1 htarget) henqueue
    exact ⟨rule.moves h hmoves, hmoves.quiet.channel.arity⟩

end

variable {targets : List RefreshTarget}

section

variable (rule : ChannelRule cfg W T A I E)
include rule

theorem refreshTargets (h : Holds cfg W I c)
    (htargets : ∀ target ∈ targets, TargetOk cfg T c target) :
    Ends (targets.foldlM (ChannelController.refreshTarget cfg) c) (Holds cfg W I) E := by
  have hloop := Ends.foldlM (I := fun c' => Holds cfg W I c' ∧ c'.channel.arity = c.channel.arity)
    (E := E) (f := ChannelController.refreshTarget cfg) targets ⟨h, rfl⟩
    (fun c' target hmem h' => by
      have htarget : TargetOk cfg T c' target := by
        unfold TargetOk
        rw [h'.2]
        exact htargets target hmem
      exact (rule.refreshTarget h'.1 htarget).weaken fun c'' h'' => ⟨h''.1, h''.2.trans h'.2⟩)
  exact hloop.weaken fun c' h' => h'.1

theorem tickRef (h : Holds cfg W I c)
    (htargets : cfg.device.bRefRank = false → ∀ target ∈ targets, T target) :
    Ends (c.tickRef cfg targets) (Holds cfg W I) E := by
  have hclock : ∀ (c : ChannelController) (refreshClock : RefreshClock),
      Moves cfg.device W c { c with refreshClock } :=
    fun c refreshClock => ⟨.of_eq (le_refl _) rfl rfl rfl, fun h => h⟩
  have h₁ := rule.moves h (hclock c { c.refreshClock with clk := c.refreshClock.clk + 1 })
  refine Ends.ite (fun hrank => Ends.ite (fun _ => ?_) (fun _ => h₁)) (fun hrank => ?_)
  · refine Ends.bind (rule.refreshTargets h₁ ?_) fun c' h' => rule.moves h' (hclock c' _)
    intro target htarget
    obtain ⟨rank, hrank', rfl⟩ := mem_map.mp htarget
    rw [TargetOk, if_pos hrank]
    exact ⟨rank, mem_range.mp hrank', rfl⟩
  · refine rule.refreshTargets h₁ fun target htarget => ?_
    rw [TargetOk, if_neg hrank]
    exact htargets (Bool.eq_false_of_not_eq_true hrank) target htarget

theorem prepare (h : Holds cfg W I c)
    (htargets : cfg.device.bRefRank = false → ∀ target ∈ targets, T target) :
    Ends (c.prepare cfg junk targets) (Holds cfg W I) E := by
  have htime : Moves cfg.device W c { c with clk := c.clk + 1 } :=
    ⟨.of_eq (Int.le_add_of_nonneg_right (by decide)) rfl rfl rfl, fun h => h.frame rfl rfl rfl⟩
  have hserve := (serveCompleted_moves (d := cfg.device) (W := W) cfg
    { c with clk := c.clk + 1 } junk).weaken_abort rule.serving
  refine Ends.bind hserve fun served h₁ => ?_
  refine Ends.bind (rule.tickRef (rule.moves h (htime.trans h₁)) htargets) fun c₂ h₂ => ?_
  exact rule.moves h₂ (updateWriteMode_moves c₂)

theorem issueCmd (hA : A junk c₀) (h₀ : QueuesWith cfg.device W c₀.toController)
    (h : Holds cfg W I c) (hquiet : Quiet (c₀.asked cfg junk) c) {cmd : Command} {v : AddrVec}
    (hchosen : Chosen cfg junk c₀ c cmd v) :
    Ends (c.issueCmd cfg junk cmd v) (Holds cfg W I) E := by
  refine Ends.ite (fun hready => ?_) (fun _ => rule.abort _ rfl)
  have hqueues : Yields (c.updateDram cfg junk cmd v)
      (fun c' => c'.toController = c.toController) := by
    refine Ends.ite (fun _ => Ends.ite (fun _ => rfl) fun _ => trivial) fun _ => ?_
    exact Ends.bind (Ends.ran _) fun _ _ => Ends.bind (Ends.ran _) fun _ _ => rfl
  have hissue := (rule.issue junk c₀ c cmd v hA h₀ h.1 hquiet hchosen hready).and hqueues
  refine Ends.bind (hissue.weaken_abort fun _ he => he.1) fun c' h' => ⟨h'.1, ?_⟩
  show QueuesWith cfg.device W c'.toController
  rw [h'.2]
  exact h.2

theorem noHead (hA : A junk c₀) (h₀ : Holds cfg W I c₀) :
    Ends ((c₀.asked cfg junk).noHead cfg junk) (Holds cfg W I) E := by
  have h : Holds cfg W I (c₀.asked cfg junk) := ⟨rule.asked junk c₀ hA h₀.2 h₀.1, h₀.2⟩
  refine Ends.ite (fun _ => h) fun _ => Ends.ite (fun _ => h) fun hvictim => ?_
  obtain ⟨e, hmem⟩ := RowPolicyType.getVictim_mem hvictim
  refine rule.issueCmd hA h₀.2 h (Quiet.refl _) (.victim ?_ hmem)
  intro hopened
  rw [hopened] at hvictim
  exact hvictim rfl

theorem serveHead (hA : A junk c₀) (h₀ : Holds cfg W I c₀) {table : RowTable}
    (hhead : c₀.getHead cfg junk c₀.selectQueue = (some (i, req), table))
    (hready : c₀.isReady cfg junk req = true) :
    Ends ((c₀.asked cfg junk).serveHead cfg junk c₀.selectQueue i req) (Holds cfg W I) E := by
  have h : Holds cfg W I (c₀.asked cfg junk) := ⟨rule.asked junk c₀ hA h₀.2 h₀.1, h₀.2⟩
  have hreq : cfg.device.QueueType c₀.selectQueue req.type ∧ W req :=
    h₀.2 _ _ (mem_of_getElem? (Scheduler.getHead_some hhead))
  refine Ends.bind ((firstCommand_moves rule.addressOnly hreq).weaken_abort rule.serving) ?_
  rintro ⟨req₁, c₁⟩ ⟨hmoves₁, haddr₁, htype₁⟩
  have hreq₁ : cfg.device.QueueType c₀.selectQueue req₁.type ∧ W req₁ :=
    ⟨by rw [htype₁]; exact hreq.1, rule.addressOnly req req₁ haddr₁ (by rw [htype₁]) hreq.2⟩
  obtain ⟨hmoves₂, haddr₂, htype₂⟩ :=
    migrate_moves (c := c₁) (i := i) rule.addressOnly hreq₁
  dsimp only at hmoves₁ haddr₁ htype₁ ⊢
  generalize c₁.migrate cfg c₀.selectQueue i req₁ = out at hmoves₂ haddr₂ htype₂ ⊢
  obtain ⟨req₂, c₂⟩ := out
  dsimp only at hmoves₂ haddr₂ htype₂ ⊢
  rw [haddr₁] at haddr₂
  rw [htype₁] at htype₂
  have hmoves := hmoves₁.trans hmoves₂
  have h₂ := rule.moves h hmoves
  have hcmd : c₂.getFirstCmd cfg junk req₂ =
      c₂.getFirstCmd cfg junk { req with type := cfg.device.servedType req.type } := by
    simp only [getFirstCmd, haddr₂, htype₂]
  unfold issueFor
  rw [haddr₂]
  refine Ends.bind (rule.issueCmd hA h₀.2 h₂ hmoves.quiet (.request hhead hready hcmd)) ?_
  intro c₃ h₃
  refine Ends.ite (fun _ => ?_) (fun _ => h₃)
  exact ((finishRequest_moves (d := cfg.device) (W := W) cfg c₃ junk _ i req₂).weaken_abort
    rule.serving).weaken fun c₄ h₄ => rule.moves h₃ h₄

theorem schedule (hA : A junk c) (h : Holds cfg W I c) :
    Ends (c.schedule cfg junk) (Holds cfg W I) E := by
  have hnoHead := rule.noHead hA h
  cases hhead : c.getHead cfg junk c.selectQueue with
  | mk head rowtable =>
    have hasked : c.asked cfg junk = { c with rowtable } := by
      rw [ChannelController.asked, hhead]
    rw [hasked] at hnoHead
    simp only [ChannelController.schedule, hhead]
    cases head with
    | none => exact hnoHead
    | some head =>
      obtain ⟨i, req⟩ := head
      refine Ends.ite (fun hready => ?_) (fun _ => hnoHead)
      have hserve := rule.serveHead hA h hhead hready
      rw [hasked] at hserve
      exact hserve

theorem tick (h : Holds cfg W I c)
    (htargets : cfg.device.bRefRank = false → ∀ target ∈ targets, T target)
    (hA : ∀ c', c.prepare cfg junk targets = .ok c' → A junk c') :
    Ends (c.tick cfg junk targets) (Holds cfg W I) E :=
  Ends.bind (rule.prepare h htargets).remember fun c' h' =>
    rule.schedule (hA c' h'.1) h'.2

end

end ChannelRule

/-! ## Runs -/

/-- What arrives satisfies `W`, and what the refresh scheduler chooses `T`. -/
def ChannelInput.With (cfg : ChannelConfig) (W : Request → Prop) (T : RefreshTarget → Prop) :
    ChannelInput → Prop
  | .enqueue req => (req.type = .read ∨ req.type = .write) ∧ W req
  | .tick _ targets => cfg.device.bRefRank = false → ∀ target ∈ targets, T target

namespace ChannelController

/-- A cycle meets `A` when it asks the scheduler. -/
def Asks (cfg : ChannelConfig) (A : Int → ChannelController → Prop) (c : ChannelController) :
    ChannelInput → Prop
  | .enqueue _ => True
  | .tick junk targets => Ends (c.prepare cfg junk targets) (A junk) (fun _ => True)

def Meets (cfg : ChannelConfig) (A : Int → ChannelController → Prop) (inputs : List ChannelInput)
    (c : ChannelController) : Prop :=
  Along (apply cfg) (Asks cfg A) inputs c

section Decidable

variable (cfg : ChannelConfig) (A : Int → ChannelController → Prop)
  [∀ junk, DecidablePred (A junk)]

instance (c : ChannelController) : DecidablePred (c.Asks cfg A)
  | .enqueue _ => inferInstanceAs (Decidable True)
  | .tick junk targets =>
    inferInstanceAs (Decidable (Ends (c.prepare cfg junk targets) (A junk) (fun _ => True)))

instance (inputs : List ChannelInput) : DecidablePred (Meets cfg A inputs) :=
  inferInstanceAs (DecidablePred (Along (apply cfg) (Asks cfg A) inputs))

end Decidable

theorem meets_true (cfg : ChannelConfig) (inputs : List ChannelInput) (c : ChannelController) :
    Meets cfg (fun _ _ => True) inputs c := by
  refine Along.of_forall (fun c input => ?_) inputs c
  cases input with
  | enqueue req => trivial
  | tick junk targets => exact Ends.intro (fun _ _ => trivial) fun _ _ => trivial

end ChannelController

namespace ChannelRule

open ChannelController

variable {cfg : ChannelConfig} {W : Request → Prop} {T : RefreshTarget → Prop}
  {A : Int → ChannelController → Prop} {I : ChannelController → Prop} {E : Abort → Prop} {id : Int}
  {c : ChannelController}

theorem apply (rule : ChannelRule cfg W T A I E) (h : Holds cfg W I c) {input : ChannelInput}
    (hinput : input.With cfg W T) (hasks : c.Asks cfg A input) :
    Ends (c.apply cfg input) (Holds cfg W I) E := by
  cases input with
  | tick junk targets => exact rule.tick h hinput fun c' hprepare => hasks.result hprepare
  | enqueue req =>
    cases henqueue : c.enqueue req with
    | none =>
      simp only [ChannelController.apply, henqueue]
      exact h
    | some c' =>
      simp only [ChannelController.apply, henqueue]
      refine rule.moves h (enqueue_moves rule.addressOnly (queueType_self ?_) hinput.2 henqueue)
      exact hinput.1.imp_right Or.inl

theorem new (hI : I (ChannelController.new cfg id)) :
    Holds cfg W I (ChannelController.new cfg id) := by
  refine ⟨hI, fun type req hreq => ?_⟩
  cases type <;> cases hreq

theorem run (rule : ChannelRule cfg W T A I E) (hI : I (ChannelController.new cfg id))
    (hok : ∀ input ∈ inputs, input.With cfg W T)
    (hmeets : Meets cfg A inputs (ChannelController.new cfg id)) :
    Ends (ChannelController.run cfg id inputs) (Holds cfg W I) E :=
  Along.foldlM hmeets (new hI) fun _ input hinput h hasks => rule.apply h (hok input hinput) hasks

end ChannelRule

/-! ## The shape of the tree -/

structure ChannelInv (cfg : ChannelConfig) (id : Int) (c : ChannelController) : Prop where
  shape : DRAM.WellShaped cfg.device.spec 0 id c.channel
  queues : QueuesOk cfg.device id c.toController

def ChannelInput.Ok (cfg : ChannelConfig) (id : Int) : ChannelInput → Prop
  | .enqueue req => Arrives cfg.device id req
  | .tick _ _ => True

instance (cfg : ChannelConfig) (id : Int) : DecidablePred (ChannelInput.Ok cfg id)
  | .enqueue req => inferInstanceAs (Decidable (Arrives cfg.device id req))
  | .tick _ _ => inferInstanceAs (Decidable True)

theorem ChannelInput.Ok.with {cfg : ChannelConfig} {id : Int} {input : ChannelInput}
    (h : input.Ok cfg id) :
    input.With cfg (fun req => OfChannel cfg.device id req.addrVec) (fun _ => True) := by
  cases input with
  | enqueue req => exact h
  | tick junk targets => exact fun _ _ _ => trivial

namespace ChannelController

variable {cfg : ChannelConfig} {id junk : Int} {c : ChannelController}

theorem updateDram_shape (h : DRAM.WellShaped cfg.device.spec 0 id c.channel) (cmd : Command)
    (v : AddrVec) : Yields (c.updateDram cfg junk cmd v)
      (fun c' => DRAM.WellShaped cfg.device.spec 0 id c'.channel) := by
  refine Ends.ite (fun _ => Ends.ite (fun _ => ?_) fun _ => trivial) fun _ => ?_
  · exact h.of_rel (fun _ _ hs => ⟨hs.level, hs.id⟩) (DRAM.updateTiming_rel ..)
  · refine Ends.bind (Ends.ran _) fun channel hupdate => ?_
    exact Ends.bind (Ends.ran _) fun rowtable _ => h.update hupdate

theorem Quiet.shape {c' : ChannelController} (hquiet : Quiet c c')
    (h : DRAM.WellShaped cfg.device.spec 0 id c.channel) :
    DRAM.WellShaped cfg.device.spec 0 id c'.channel :=
  h.of_rel (fun _ _ hs => ⟨hs.sameState.level, hs.sameState.id⟩) hquiet.channel

theorem refreshRequest_ofChannel (hlevels : 4 ≤ cfg.device.levels)
    (h : DRAM.WellShaped cfg.device.spec 0 id c.channel) (target : RefreshTarget) :
    OfChannel cfg.device id (refreshRequest cfg c.channel.val.id target).addrVec := by
  refine ⟨?_, ?_⟩
  · simp only [refreshRequest, length_append, length_cons, length_nil, length_replicate]
    omega
  · rw [h.val_id]
    rfl

theorem shape_rule (cfg : ChannelConfig) (id : Int) (hlevels : 4 ≤ cfg.device.levels) :
    ChannelRule cfg (fun req => OfChannel cfg.device id req.addrVec) (fun _ => True)
      (fun _ _ => True) (fun c => DRAM.WellShaped cfg.device.spec 0 id c.channel)
      (fun _ => True) where
  addressOnly := ofChannel_addressOnly cfg.device id
  refreshes _ target h _ := refreshRequest_ofChannel hlevels h target
  quiet _ _ h hquiet := Quiet.shape hquiet h
  asked _ _ _ _ h := h
  issue _ _ _ cmd v _ _ h _ _ _ := updateDram_shape h cmd v
  abort _ _ := trivial

theorem run_inv (hlevels : 4 ≤ cfg.device.levels) (hok : ∀ input ∈ inputs, input.Ok cfg id) :
    Yields (run cfg id inputs) (ChannelInv cfg id) := by
  exact ((shape_rule cfg id hlevels).run (DRAM.new_wellShaped _ _ _)
    (fun input hinput => (hok input hinput).with) (meets_true _ _ _)).weaken fun c h => ⟨h.1, h.2⟩

theorem prepare_inv (hlevels : 4 ≤ cfg.device.levels) (h : ChannelInv cfg id c)
    (targets : List RefreshTarget) : Yields (c.prepare cfg junk targets) (ChannelInv cfg id) :=
  ((shape_rule cfg id hlevels).prepare ⟨h.shape, h.queues⟩ fun _ _ _ => trivial).weaken
    fun _ h' => ⟨h'.1, h'.2⟩

/-- A state after a run, or where the next cycle asks the scheduler. -/
def Reaches (cfg : ChannelConfig) (id : Int) (inputs : List ChannelInput)
    (c : ChannelController) : Prop :=
  run cfg id inputs = .ok c ∨
    ∃ c₀ junk targets, run cfg id inputs = .ok c₀ ∧ c₀.prepare cfg junk targets = .ok c

theorem Reaches.inv (h : Reaches cfg id inputs c) (hlevels : 4 ≤ cfg.device.levels)
    (hok : ∀ input ∈ inputs, input.Ok cfg id) : ChannelInv cfg id c := by
  rcases h with hrun | ⟨c₀, junk, targets, hrun, hprepare⟩
  · exact (run_inv hlevels hok).result hrun
  · exact (prepare_inv hlevels ((run_inv hlevels hok).result hrun) targets).result hprepare

end ChannelController

end Generic

end Ramulator
