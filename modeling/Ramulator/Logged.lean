/-
  Ramulator.Logged

  A memory that remembers the requests it has accepted.

  `MemoryBase.logged` adds the log to any memory.  A processor on top of it
  does what it does on top of the memory itself (`run_logged`): the cores and
  caches see of a memory only what its operations return, so two memories whose
  operations agree step by step (`MemoryBase.Simulates`) give the same runs.
-/

import Ramulator.Runs

namespace Ramulator

open Outcome

variable {σ τ : Type} {R : σ → τ → Prop} {m' : τ}

/-- A memory, and the requests it has accepted, oldest first. -/
structure Logged (τ : Type) where
  memory : τ
  accepted : List Request := []

def MemoryBase.logged (base : MemoryBase τ) : MemoryBase (Logged τ) where
  send l req := do
    let (accepted, memory) ← base.send l.memory req
    pure (accepted, ⟨memory, if accepted then l.accepted ++ [req] else l.accepted⟩)
  pageAllocator l addr coreid := do
    let (addr, memory) ← base.pageAllocator l.memory addr coreid
    pure (addr, { l with memory })
  tick l := do
    let (done, memory) ← base.tick l.memory
    pure (done, { l with memory })
  pendingRequests l := base.pendingRequests l.memory

/-! ## Memories that agree -/

/-- The same output, and related states. -/
def SameOut {α : Type} (R : σ → τ → Prop) (a : α × σ) (b : α × τ) : Prop := a.1 = b.1 ∧ R a.2 b.2

/-- From related states the operations have the same outputs and keep the
    relation. -/
structure MemoryBase.Simulates (R : σ → τ → Prop) (base : MemoryBase σ) (base' : MemoryBase τ) :
    Prop where
  send : ∀ m m' req, R m m' → Sim (SameOut R) (base.send m req) (base'.send m' req)
  pageAllocator : ∀ m m' addr coreid, R m m' →
    Sim (SameOut R) (base.pageAllocator m addr coreid) (base'.pageAllocator m' addr coreid)
  tick : ∀ m m', R m m' → Sim (SameOut R) (base.tick m) (base'.tick m')

theorem MemoryBase.simulates_self (base : MemoryBase τ) : base.Simulates Eq base where
  send m m' req h := by
    subst h
    exact (Sim.refl _).imp (fun _ _ hout => ⟨congrArg Prod.fst hout, congrArg Prod.snd hout⟩)
  pageAllocator m m' addr coreid h := by
    subst h
    exact (Sim.refl _).imp (fun _ _ hout => ⟨congrArg Prod.fst hout, congrArg Prod.snd hout⟩)
  tick m m' h := by
    subst h
    exact (Sim.refl _).imp (fun _ _ hout => ⟨congrArg Prod.fst hout, congrArg Prod.snd hout⟩)

def Uncore.Rel (R : σ → τ → Prop) (u : Uncore σ) (u' : Uncore τ) : Prop :=
  u.cachesys = u'.cachesys ∧ u.llc = u'.llc ∧ R u.memory u'.memory

theorem Uncore.eq_of_rel {u u' : Uncore τ} (h : u.Rel Eq u') : u = u' := by
  cases u
  cases u'
  obtain ⟨rfl, rfl, rfl⟩ := h
  rfl

def Processor.Rel (R : σ → τ → Prop) (p : Processor σ) (p' : Processor τ) : Prop :=
  p.cores = p'.cores ∧ p.uncore.Rel R p'.uncore

/-- Where a core takes its requests from. -/
structure TraceSource where
  splitTrace : Bool
  rqstQueue : List QueueEntry
  tracePerCore : List ZsimLine

variable {cfg : ProcessorConfig} {base : MemoryBase σ} {base' : MemoryBase τ}

namespace Core

def source (core : Core) : TraceSource := ⟨core.splitTrace, core.rqstQueue, core.tracePerCore⟩

def withSource (core : Core) (s : TraceSource) : Core :=
  { core with
    splitTrace := s.splitTrace
    rqstQueue := s.rqstQueue
    tracePerCore := s.tracePerCore }

/-- `core` has become `out` without a look at what comes next, and `out'` is the
    same with `s` to come, on a related memory. -/
def Alike (core : Core) (s : TraceSource) (R : σ → τ → Prop) (out : Core × Uncore σ)
    (out' : Core × Uncore τ) : Prop :=
  out.1.source = core.source ∧ out.1.reqType = core.reqType ∧
    out'.1 = out.1.withSource s ∧ out.2.Rel R out'.2

variable {u : Uncore σ} {u' : Uncore τ}

section

variable (h : base.Simulates R base') (core : Core)
include h

theorem nextSplit_sim (hu : u.Rel R u') :
    Sim (SameOut (Uncore.Rel R)) (core.nextSplit base u) (core.nextSplit base' u') := by
  obtain ⟨hsys, hllc, hmem⟩ := hu
  apply Sim.bind (h.pageAllocator _ _ _ _ hmem)
  rintro ⟨addr, m⟩ ⟨addr', m'⟩ ⟨haddr, hm⟩
  cases haddr
  exact ⟨rfl, hsys, hllc, hm⟩

theorem nextRequest_sim (hu : u.Rel R u') :
    Sim (SameOut (Uncore.Rel R)) (core.nextRequest base u) (core.nextRequest base' u') := by
  apply Sim.ite
  · intro _
    exact nextSplit_sim h core hu
  · intro _
    exact Sim.pure ⟨rfl, hu⟩

theorem send_alike (s : TraceSource) (hu : u.Rel R u') (req : Request) :
    Sim (SameOut (Alike core s R)) (core.send cfg base u req)
      ((core.withSource s).send cfg base' u' req) := by
  obtain ⟨hsys, hllc, hmem⟩ := hu
  unfold send
  rw [hsys, hllc]
  apply Sim.ite
  · intro _
    apply Sim.bind_same
    rintro ⟨accepted, l1, cachesys⟩
    exact ⟨rfl, rfl, rfl, rfl, rfl, rfl, hmem⟩
  · intro _
    apply Sim.ite
    · intro _
      apply Sim.bind_same
      rintro ⟨accepted, llc, cachesys⟩
      exact ⟨rfl, rfl, rfl, rfl, rfl, rfl, hmem⟩
    · intro _
      apply Sim.bind (h.send _ _ req hmem)
      rintro ⟨accepted, m⟩ ⟨accepted', m'⟩ ⟨haccepted, hm⟩
      cases haccepted
      exact ⟨rfl, rfl, rfl, rfl, rfl, rfl, hm⟩

theorem issueRead_alike (s : TraceSource) (hu : u.Rel R u') :
    Sim (SameOut (Alike core s R)) (core.issueRead cfg base u)
      ((core.withSource s).issueRead cfg base' u') := by
  apply Sim.bind (send_alike h core s hu _)
  rintro ⟨accepted, core₁, u₁⟩ ⟨accepted', core₁', u₁'⟩ ⟨haccepted, hsource, htype, hcore, hu₁⟩
  cases haccepted
  cases hcore
  apply Sim.ite
  · intro _
    apply Sim.bind_same
    intro window
    exact ⟨rfl, hsource, htype, rfl, hu₁⟩
  · intro _
    exact ⟨rfl, hsource, htype, rfl, hu₁⟩

theorem issueWrite_alike (s : TraceSource) (hu : u.Rel R u') :
    Sim (SameOut (Alike core s R)) (core.issueWrite cfg base u)
      ((core.withSource s).issueWrite cfg base' u') := by
  apply Sim.bind (send_alike h core s hu _)
  rintro ⟨accepted, core₁, u₁⟩ ⟨accepted', core₁', u₁'⟩ ⟨haccepted, hsource, htype, hcore, hu₁⟩
  cases haccepted
  cases hcore
  cases accepted with
  | true => exact ⟨rfl, hsource, htype, rfl, hu₁⟩
  | false => exact ⟨rfl, hsource, htype, rfl, hu₁⟩

theorem issueOutOrder_alike (s : TraceSource) (hu : u.Rel R u') (slots : Nat) :
    Sim (SameOut (Alike core s R)) (core.issueOutOrder cfg base u slots)
      ((core.withSource s).issueOutOrder cfg base' u' slots) := by
  unfold issueOutOrder
  rw [show (core.withSource s).reqType = core.reqType from rfl]
  cases htype : core.reqType with
  | read =>
    apply Sim.ite
    · intro _
      exact ⟨rfl, rfl, htype.symm, rfl, hu⟩
    · intro _
      apply Sim.ite
      · intro _
        exact ⟨rfl, rfl, rfl, rfl, hu⟩
      · intro _
        exact issueRead_alike h core s hu
  | write => exact issueWrite_alike h core s hu
  | instruction =>
    apply Sim.ite
    · intro _
      exact ⟨rfl, rfl, htype.symm, rfl, hu⟩
    · intro _
      exact send_alike h core s hu _
  | _ => exact ⟨rfl, rfl, rfl, rfl, hu⟩

end

theorem Alike.same {core : Core} {out : Core × Uncore σ} {out' : Core × Uncore τ}
    (h : Alike core core.source R out out') : SameOut (Uncore.Rel R) out out' := by
  obtain ⟨hsource, -, hcore, hu⟩ := h
  rw [← hsource] at hcore
  exact ⟨hcore.symm, hu⟩

section

variable (h : base.Simulates R base') (core : Core)
include h

theorem issueOutOrder_sim (hu : u.Rel R u') (slots : Nat) :
    Sim (SameOut (SameOut (Uncore.Rel R))) (core.issueOutOrder cfg base u slots)
      (core.issueOutOrder cfg base' u' slots) :=
  (issueOutOrder_alike h core core.source hu slots).imp (fun _ _ hout => ⟨hout.1, hout.2.same⟩)

theorem issueWrite_sim (hu : u.Rel R u') :
    Sim (SameOut (SameOut (Uncore.Rel R))) (core.issueWrite cfg base u)
      (core.issueWrite cfg base' u') :=
  (issueWrite_alike h core core.source hu).imp (fun _ _ hout => ⟨hout.1, hout.2.same⟩)

theorem issueInstruction_sim (hu : u.Rel R u') :
    Sim (SameOut (SameOut (Uncore.Rel R))) (core.issueInstruction cfg base u)
      (core.issueInstruction cfg base' u') := by
  apply Sim.bind (send_alike h core core.source hu _)
  rintro ⟨accepted, core₁, u₁⟩ ⟨accepted', core₁', u₁'⟩ ⟨haccepted, hout⟩
  cases haccepted
  obtain ⟨hcore, hu₁⟩ := hout.same
  cases hcore
  exact ⟨rfl, rfl, hu₁⟩

theorem tickOutOrder_sim (hu : u.Rel R u') :
    Sim (SameOut (Uncore.Rel R)) (core.tickOutOrder cfg base u)
      (core.tickOutOrder cfg base' u') := by
  apply Sim.bind_same
  rintro ⟨retired, window⟩
  apply Sim.ite
  · intro _
    exact ⟨rfl, hu⟩
  · intro _
    apply Sim.bind_same
    rintro ⟨slots, core₁⟩
    cases slots with
    | none => exact ⟨rfl, hu⟩
    | some slots =>
      apply Sim.bind (issueOutOrder_sim h core₁ hu slots)
      rintro ⟨done, core₂, u₂⟩ ⟨done', core₂', u₂'⟩ ⟨hdone, hcore, hu₂⟩
      cases hdone
      cases hcore
      apply Sim.ite
      · intro _
        apply Sim.bind (nextRequest_sim h core₂ hu₂)
        rintro ⟨core₃, u₃⟩ ⟨core₃', u₃'⟩ ⟨hcore, hu₃⟩
        cases hcore
        exact ⟨rfl, hu₃⟩
      · intro _
        exact ⟨rfl, hu₂⟩

theorem issueInOrder_sim (hu : u.Rel R u') (slots : Nat) :
    Sim (SameOut (SameOut (Uncore.Rel R))) (core.issueInOrder cfg base u slots)
      (core.issueInOrder cfg base' u' slots) := by
  unfold issueInOrder
  cases core.reqType with
  | read =>
    apply Sim.ite
    · intro _
      exact ⟨rfl, rfl, hu⟩
    · intro _
      exact ⟨rfl, rfl, hu⟩
  | write => exact issueWrite_sim h core hu
  | instruction =>
    apply Sim.ite
    · intro _
      exact ⟨rfl, rfl, hu⟩
    · intro _
      exact issueInstruction_sim h core hu
  | _ => exact ⟨rfl, rfl, hu⟩

theorem tickInOrder_sim (hu : u.Rel R u') :
    Sim (SameOut (Uncore.Rel R)) (core.tickInOrder cfg base u) (core.tickInOrder cfg base' u') := by
  apply Sim.ite
  · intro _
    exact ⟨rfl, hu⟩
  · intro _
    obtain ⟨slots, core₁⟩ := core.retireBubbles Window.ipc
    cases slots with
    | none => exact ⟨rfl, hu⟩
    | some slots =>
      apply Sim.bind (issueInOrder_sim h core₁ hu slots)
      rintro ⟨done, core₂, u₂⟩ ⟨done', core₂', u₂'⟩ ⟨hdone, hcore, hu₂⟩
      cases hdone
      cases hcore
      exact ⟨rfl, hu₂⟩

theorem tick_sim (hu : u.Rel R u') :
    Sim (SameOut (Uncore.Rel R)) (core.tick cfg base u) (core.tick cfg base' u') := by
  unfold tick
  cases cfg.cpuType with
  | inOrder => exact tickInOrder_sim h _ hu
  | outOrder => exact tickOutOrder_sim h _ hu
  | other => exact ⟨rfl, hu⟩

end

end Core

theorem CacheSystem.sendWaiting_sim (h : base.Simulates R base') (clk : Int)
    (waitList : List (Int × Request)) {m : σ} (hm : R m m') :
    Sim (SameOut R) (CacheSystem.sendWaiting base.send clk waitList m)
      (CacheSystem.sendWaiting base'.send clk waitList m') := by
  induction waitList generalizing m m' with
  | nil => exact ⟨rfl, hm⟩
  | cons entry rest ih =>
    apply Sim.ite
    · intro _
      apply Sim.bind (h.send _ _ entry.2 hm)
      rintro ⟨accepted, m₁⟩ ⟨accepted', m₁'⟩ ⟨haccepted, hm₁⟩
      cases haccepted
      apply Sim.bind (ih hm₁)
      rintro ⟨waiting, m₂⟩ ⟨waiting', m₂'⟩ ⟨hwaiting, hm₂⟩
      cases hwaiting
      exact ⟨rfl, hm₂⟩
    · intro _
      exact ⟨rfl, hm⟩

namespace Processor

variable {p : Processor σ} {p' : Processor τ}

theorem addCore_sim (h : base.Simulates R base') (hp : p.Rel R p') (w : Workload) :
    Sim (Rel R) (p.addCore base w) (p'.addCore base' w) := by
  obtain ⟨hcores, hu⟩ := hp
  unfold addCore
  rw [hcores]
  apply Sim.bind (Core.nextRequest_sim h _ hu)
  rintro ⟨core, u⟩ ⟨core', u'⟩ ⟨hcore, hu⟩
  cases hcore
  exact ⟨rfl, hu⟩

theorem runCallback_sim (hp : p.Rel R p') (req : Request) :
    Sim (Rel R) (p.runCallback cfg req) (p'.runCallback cfg req) := by
  obtain ⟨hcores, hsys, hllc, hm⟩ := hp
  unfold runCallback
  cases req.callback with
  | none => exact ⟨hcores, hsys, hllc, hm⟩
  | processorReceive =>
    show Sim (Rel R) (p.receive cfg req) (p'.receive cfg req)
    unfold receive
    rw [hcores, hllc]
    apply Sim.bind_same
    intro llc
    apply Sim.bind_same
    intro cores
    apply Sim.bind_same
    intro core
    exact ⟨rfl, hsys, rfl, hm⟩

section

variable (h : base.Simulates R base')
include h

theorem tick_sim (hp : p.Rel R p') : Sim (Rel R) (p.tick cfg base) (p'.tick cfg base') := by
  have hcaches : Sim (Rel R) (p.tickCaches cfg base) (p'.tickCaches cfg base') := by
    apply Sim.ite
    · intro _
      obtain ⟨hcores, hsys, hllc, hm⟩ := hp
      unfold tickCachesys
      rw [hsys]
      apply Sim.bind (CacheSystem.sendWaiting_sim h _ _ hm)
      rintro ⟨waiting, m₁⟩ ⟨waiting', m₁'⟩ ⟨hwaiting, hm₁⟩
      cases hwaiting
      exact Sim.foldlM _ ⟨hcores, rfl, hllc, hm₁⟩ (fun _ _ req hq => runCallback_sim hq req)
    · intro _
      exact hp
  apply Sim.bind hcaches
  intro q q' hq
  rw [hq.1]
  apply Sim.foldlM _ hq
  rintro q q' i ⟨hcores, hu⟩
  unfold tickCore
  rw [hcores]
  apply Sim.bind_same
  intro core
  apply Sim.bind (Core.tick_sim h core hu)
  rintro ⟨core₁, u₁⟩ ⟨core₁', u₁'⟩ ⟨hcore, hu₁⟩
  cases hcore
  exact ⟨rfl, hu₁⟩

theorem tickMemory_sim (hp : p.Rel R p') :
    Sim (Rel R) (p.tickMemory cfg base) (p'.tickMemory cfg base') := by
  obtain ⟨hcores, hsys, hllc, hm⟩ := hp
  apply Sim.bind (h.tick _ _ hm)
  rintro ⟨done, m₁⟩ ⟨done', m₁'⟩ ⟨hdone, hm₁⟩
  cases hdone
  exact Sim.foldlM _ ⟨hcores, hsys, hllc, hm₁⟩ (fun _ _ req hq => runCallback_sim hq req)

theorem run_sim {m : σ} (hm : R m m') (workloads : List Workload) (cycles : List Cycle) :
    Sim (Rel R) (run cfg base m workloads cycles) (run cfg base' m' workloads cycles) := by
  have hnew : Sim (Rel R) (new base m workloads) (new base' m' workloads) :=
    Sim.foldlM workloads ⟨rfl, rfl, rfl, hm⟩ (fun _ _ w hp => addCore_sim h hp w)
  apply Sim.bind hnew
  intro p p' hp
  apply Sim.foldlM cycles hp
  intro p p' c hp
  cases c with
  | cpu => exact tick_sim h hp
  | mem => exact tickMemory_sim h hp

end

end Processor

/-! ## The log -/

theorem MemoryBase.logged_simulates (base : MemoryBase τ) :
    base.logged.Simulates (fun l m => l.memory = m) base where
  send l m req h := by
    subst h
    exact Sim.map_left _ (fun _ => ⟨rfl, rfl⟩)
  pageAllocator l m addr coreid h := by
    subst h
    exact Sim.map_left _ (fun _ => ⟨rfl, rfl⟩)
  tick l m h := by
    subst h
    exact Sim.map_left _ (fun _ => ⟨rfl, rfl⟩)

theorem run_logged (cfg : ProcessorConfig) (base : MemoryBase τ) (memory : τ)
    (workloads : List Workload) (cycles : List Cycle) : Sim (Processor.Rel fun l m => l.memory = m)
      (Processor.run cfg base.logged ⟨memory, []⟩ workloads cycles)
      (Processor.run cfg base memory workloads cycles) :=
  Processor.run_sim base.logged_simulates rfl workloads cycles

end Ramulator
