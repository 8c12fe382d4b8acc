/-
  Ramulator.Processor.Steps

  What a core can do in one cycle, and the invariant rules of a processor.

  A tick of a core, in order or out of order, is a sequence of small steps
  (`Core.Step`): it counts, retires instructions, inserts a bubble, sends a
  request, or moves on in its trace.  What every step keeps is kept by a tick
  of the core (`Core.tick_ends`) and by a cycle of the processor
  (`Processor.tickCores_ends`).
-/

import Ramulator.Processor.Basic

namespace Ramulator

open Outcome List

variable {core' : Core} {P : Nat → Core → Prop} {req : Request}

namespace Core

variable {τ : Type} {cfg : ProcessorConfig} {base : MemoryBase τ}

inductive Step (cfg : ProcessorConfig) (base : MemoryBase τ) (core : Core) (u : Uncore τ) :
    Core → Uncore τ → Prop
  /-- Counters, and what an instruction fetch locks.  Out of order, what retires
      is counted by the window. -/
  | count (clk retired : Int) (inFlightMemoryAccess : Nat) (lockCore reachedLimit : Bool)
      (bubbleCnt cpuInst idleCycles : Int)
      (hretired : cfg.cpuType = .outOrder → retired = core.retired) :
      Step cfg base core u { core with
        clk, retired, inFlightMemoryAccess, lockCore, reachedLimit, bubbleCnt, cpuInst
        idleCycles } u
  | retire {n : Nat} {window : Window} (hretire : core.window.retire = .ok (n, window)) :
      Step cfg base core u { core with window, retired := core.retired + n } u
  | bubble {window : Window} (hout : cfg.cpuType = .outOrder)
      (hroom : core.window.isFull = false)
      (hinsert : core.window.insert true (-1) = .ok window) :
      Step cfg base core u { core with window } u
  /-- A read is accepted and goes into the window. -/
  | read {core' : Core} {u' : Uncore τ} {window : Window} (hout : cfg.cpuType = .outOrder)
      (hbusy : core.isIdle = false)
      (htype : core.reqType = .read) (hroom : core.window.isFull = false)
      (hsend : core.send cfg base u (core.request .read) = .ok (true, core', u'))
      (hinsert : core'.window.insert false core'.reqAddr = .ok window) :
      Step cfg base core u { core' with window } u'
  /-- A read is refused. -/
  | refused {core' : Core} {u' : Uncore τ} (hbusy : core.isIdle = false)
      (htype : core.reqType = .read)
      (hsend : core.send cfg base u (core.request .read) = .ok (false, core', u')) :
      Step cfg base core u core' u'
  | write {core' : Core} {u' : Uncore τ} {accepted : Bool} (hbusy : core.isIdle = false)
      (htype : core.reqType = .write)
      (hsend : core.send cfg base u (core.request .write) = .ok (accepted, core', u')) :
      Step cfg base core u core' u'
  | instruction {core' : Core} {u' : Uncore τ} {accepted : Bool} (hbusy : core.isIdle = false)
      (htype : core.reqType = .instruction)
      (hsend : core.send cfg base u core.instructionRequest = .ok (accepted, core', u')) :
      Step cfg base core u core' u'
  | pop : Step cfg base core u core.popQueue u
  | split {core' : Core} {u' : Uncore τ} (hsplit : core.splitTrace = true)
      (hnext : core.nextSplit base u = .ok (core', u')) : Step cfg base core u core' u'

/-- All that stays as it is when a core moves on to its next request. -/
structure MovedOn (core core' : Core) : Prop where
  id : core'.id = core.id
  window : core'.window = core.window
  retired : core'.retired = core.retired
  l1 : core'.l1 = core.l1
  splitTrace : core'.splitTrace = core.splitTrace
  lockCore : core'.lockCore = core.lockCore
  inFlight : core'.inFlightMemoryAccess = core.inFlightMemoryAccess
  limit : core'.expectedLimitInsts = core.expectedLimitInsts
  cpuInst : core'.cpuInst = core.cpuInst

theorem popQueue_movedOn (core : Core) : core.MovedOn core.popQueue := by
  unfold popQueue
  split
  · exact ⟨rfl, rfl, rfl, rfl, rfl, rfl, rfl, rfl, rfl⟩
  · exact ⟨rfl, rfl, rfl, rfl, rfl, rfl, rfl, rfl, rfl⟩

theorem getZsimRequest_movedOn (core : Core) : core.MovedOn core.getZsimRequest := by
  unfold getZsimRequest
  split
  · exact ⟨rfl, rfl, rfl, rfl, rfl, rfl, rfl, rfl, rfl⟩
  · exact ⟨rfl, rfl, rfl, rfl, rfl, rfl, rfl, rfl, rfl⟩
  · exact ⟨rfl, rfl, rfl, rfl, rfl, rfl, rfl, rfl, rfl⟩
  · exact ⟨rfl, rfl, rfl, rfl, rfl, rfl, rfl, rfl, rfl⟩

theorem MovedOn.recordEnd {core : Core} (h : core.MovedOn core') :
    core.MovedOn core'.recordEnd := by
  unfold Core.recordEnd
  split
  · exact h
  · exact ⟨h.id, h.window, h.retired, h.l1, h.splitTrace, h.lockCore, h.inFlight, h.limit,
      h.cpuInst⟩

/-! ## Instructions that wait -/

def Waiting (core : Core) (addr : Int) : Prop := (false, addr) ∈ core.window.entries

def SameBlock (cfg : ProcessorConfig) (a b : Int) : Prop := cfg.l1.align a = cfg.l1.align b

instance (cfg : ProcessorConfig) (a b : Int) : Decidable (SameBlock cfg a b) :=
  inferInstanceAs (Decidable (_ = _))

section Window

variable {core : Core} {window : Window} {n : Nat} {ready : Bool} {a : Int}

theorem retire_waiting (hwf : core.window.WF) (h : core.window.retire = .ok (n, window)) :
    window.WF ∧ ∀ a, (false, a) ∈ window.entries → core.Waiting a := by
  obtain ⟨hwf', hentries, -⟩ := (Window.retire_ends hwf).result h
  refine ⟨hwf', fun a ha => ?_⟩
  rw [hentries] at ha
  exact mem_of_mem_drop ha

theorem insert_entries (hwf : core.window.WF) (hroom : core.window.isFull = false)
    (h : core.window.insert ready a = .ok window) :
    window.WF ∧ window.entries = core.window.entries ++ [(ready, a)] :=
  (Window.insert_ends hwf (hwf.load_lt hroom) ready a).result h

theorem insert_waiting (hwf : core.window.WF) (hroom : core.window.isFull = false)
    (h : core.window.insert ready a = .ok window) : window.WF ∧ ∀ a', (false, a') ∈ window.entries →
      core.Waiting a' ∨ (ready = false ∧ a' = a) := by
  obtain ⟨hwf', hentries⟩ := insert_entries hwf hroom h
  refine ⟨hwf', fun a' ha' => ?_⟩
  rw [hentries] at ha'
  rcases mem_append.mp ha' with ha' | ha'
  · exact Or.inl ha'
  · cases mem_singleton.mp ha'
    exact Or.inr ⟨rfl, rfl⟩

theorem receive_window (cfg : ProcessorConfig) (core : Core) (req : Request) :
    (core.receive cfg req).window = core.window.setReady req.addr (blockMask cfg) := by
  unfold receive
  dsimp only
  split
  · rfl
  · rfl

/-- After `receive`, the instructions that wait waited before, and not for the
    block that came. -/
theorem receive_waiting (cfg : ProcessorConfig) (hwf : core.window.WF) (req : Request) :
    (core.receive cfg req).window.WF ∧
      ∀ a, (core.receive cfg req).Waiting a → core.Waiting a ∧ ¬ SameBlock cfg a req.addr := by
  obtain ⟨hwf', hentries⟩ := Window.setReady_entries hwf req.addr (blockMask cfg)
  unfold Waiting
  rw [receive_window]
  refine ⟨hwf', fun a ha => ?_⟩
  rw [hentries] at ha
  obtain ⟨e, he, heq⟩ := mem_map.mp ha
  obtain ⟨hready, haddr⟩ := Prod.mk.inj heq
  rw [Bool.or_eq_false_iff] at hready
  subst haddr
  have hblock : ¬ (Int.land e.2 (blockMask cfg) = Int.land req.addr (blockMask cfg)) :=
    of_decide_eq_false hready.2
  refine ⟨?_, hblock⟩
  rw [← hready.1]
  exact he

end Window

section Tick

variable {I : Core → Uncore τ → Prop} {core : Core} {u : Uncore τ}

def Kept (cfg : ProcessorConfig) (base : MemoryBase τ) (I : Core → Uncore τ → Prop) : Prop :=
  ∀ core u core' u', I core u → Step cfg base core u core' u' → I core' u'

theorem recordEnd_kept (hstep : Kept cfg base I) (h : I core u) : I core.recordEnd u := by
  unfold recordEnd
  split
  · exact h
  · exact hstep _ _ _ _ h (.count core.clk core.retired core.inFlightMemoryAccess core.lockCore
      true core.bubbleCnt core.cpuInst core.idleCycles (fun _ => rfl))

theorem countInst_kept (hstep : Kept cfg base I) (h : I core u) : I core.countInst u := by
  have hcount := fun limit => hstep _ _ _ _ h (.count core.clk core.retired
    core.inFlightMemoryAccess core.lockCore limit core.bubbleCnt (core.cpuInst + 1)
    core.idleCycles (fun _ => rfl))
  unfold countInst
  dsimp only
  split
  · exact hcount true
  · exact hcount core.reachedLimit

theorem countInst_isIdle (core : Core) : core.countInst.isIdle = core.isIdle := by
  unfold countInst
  dsimp only
  split
  · rfl
  · rfl

theorem insertBubbles_ends (hstep : Kept cfg base I) (hout : cfg.cpuType = .outOrder)
    (slots : Nat) (h : I core u) (hbusy : core.isIdle = false) :
    Yields (core.insertBubbles slots) (fun out => I out.2 u ∧ out.2.isIdle = false) := by
  induction slots generalizing core with
  | zero =>
    unfold insertBubbles
    apply Ends.ite
    · intro _
      exact ⟨hstep _ _ _ _ h (.count core.clk core.retired core.inFlightMemoryAccess
        core.lockCore core.reachedLimit core.bubbleCnt core.cpuInst (core.idleCycles + 1)
        (fun _ => rfl)),
        hbusy⟩
    · intro _
      exact ⟨h, hbusy⟩
  | succ slots ih =>
    unfold insertBubbles
    apply Ends.ite
    · intro _
      apply Ends.ite
      · intro _
        exact ⟨h, hbusy⟩
      · intro hroom
        apply Ends.bind (Q := fun window => core.window.insert true (-1) = .ok window) (Ends.ran _)
        intro window hinsert
        have h₁ := hstep _ _ _ _ h (.bubble hout (by simpa using hroom) hinsert)
        have h₂ := hstep _ _ _ _ h₁ (.count core.clk core.retired core.inFlightMemoryAccess
          core.lockCore core.reachedLimit (core.bubbleCnt - 1) core.cpuInst core.idleCycles
          (fun _ => rfl))
        apply ih (countInst_kept hstep h₂)
        rw [countInst_isIdle]
        exact hbusy
    · intro _
      exact ⟨h, hbusy⟩

theorem send_memory {u' : Uncore τ} {accepted : Bool} (hcore : cfg.coreCaches = false)
    (hl3 : cfg.l3Cache = false) (h : core.send cfg base u req = .ok (accepted, core', u')) :
    core' = core ∧ ∃ memory, base.send u.memory req = .ok (accepted, memory) ∧
      u' = { u with memory } := by
  unfold send at h
  rw [if_neg (by simp [hcore]), if_neg (by simp [hl3])] at h
  obtain ⟨⟨accepted', memory⟩, hsend, heq⟩ := bind_ok.mp h
  cases heq
  exact ⟨rfl, memory, hsend, rfl⟩

/-- A send, for a postcondition that may use how it ended. -/
theorem send_ends (req : Request) :
    Yields (core.send cfg base u req) (fun out => core.send cfg base u req = .ok out) :=
  Ends.ran _

section

variable (hstep : Kept cfg base I)
include hstep

theorem issueWrite_ends (h : I core u) (hbusy : core.isIdle = false)
    (htype : core.reqType = .write) :
    Yields (core.issueWrite cfg base u) (fun out => I out.2.1 out.2.2) := by
  apply Ends.bind (send_ends (core.request .write))
  rintro ⟨accepted, core', u'⟩ hsend
  have h' := hstep _ _ _ _ h (.write hbusy htype hsend)
  apply Ends.pure
  dsimp only
  split
  · exact hstep _ _ _ _ h' (.count core'.clk core'.retired core'.inFlightMemoryAccess
      core'.lockCore core'.reachedLimit core'.bubbleCnt (core'.cpuInst + 1) core'.idleCycles
      (fun _ => rfl))
  · exact h'

theorem issueRead_ends (hout : cfg.cpuType = .outOrder) (h : I core u)
    (hbusy : core.isIdle = false) (htype : core.reqType = .read)
    (hroom : core.window.isFull = false) :
    Yields (core.issueRead cfg base u) (fun out => I out.2.1 out.2.2) := by
  apply Ends.bind (send_ends (core.request .read))
  rintro ⟨accepted, core', u'⟩ hsend
  cases accepted with
  | false => exact hstep _ _ _ _ h (.refused hbusy htype hsend)
  | true =>
    apply Ends.bind (Q := fun window => core'.window.insert false core'.reqAddr = .ok window)
      (Ends.ran _)
    intro window hinsert
    have h' := hstep _ _ _ _ h (.read hout hbusy htype hroom hsend hinsert)
    exact hstep _ _ _ _ h' (.count core'.clk core'.retired core'.inFlightMemoryAccess
      core'.lockCore core'.reachedLimit core'.bubbleCnt (core'.cpuInst + 1) core'.idleCycles
      (fun _ => rfl))

theorem issueOutOrder_ends (hout : cfg.cpuType = .outOrder) (h : I core u)
    (hbusy : core.isIdle = false) (slots : Nat) :
    Yields (core.issueOutOrder cfg base u slots) (fun out => I out.2.1 out.2.2) := by
  have hidle := hstep _ _ _ _ h (.count core.clk core.retired core.inFlightMemoryAccess
    core.lockCore core.reachedLimit core.bubbleCnt core.cpuInst (core.idleCycles + 1)
    (fun _ => rfl))
  unfold issueOutOrder
  split
  · next htype =>
    apply Ends.ite
    · intro _
      exact hidle
    · intro _
      apply Ends.ite
      · intro _
        exact h
      · intro hroom
        exact issueRead_ends hstep hout h hbusy htype (by simpa using hroom)
  · next htype => exact issueWrite_ends hstep h hbusy htype
  · next htype =>
    apply Ends.ite
    · intro _
      exact hidle
    · intro _
      apply (send_ends core.instructionRequest).imp
      · rintro ⟨accepted, core', u'⟩ hsend
        exact hstep _ _ _ _ h (.instruction hbusy htype hsend)
      · intro _ _
        trivial
  · exact h

theorem nextRequest_ends (h : I core u) :
    Yields (core.nextRequest base u) (fun out => I out.1 out.2) := by
  apply Ends.ite
  · intro hsplit
    apply Ends.intro
    · rintro ⟨core', u'⟩ hnext
      exact hstep _ _ _ _ h (.split hsplit hnext)
    · intro _ _
      trivial
  · intro _
    exact hstep _ _ _ _ h .pop

theorem tickOutOrder_ends (hout : cfg.cpuType = .outOrder) (h : I core u) :
    Yields (core.tickOutOrder cfg base u) (fun out => I out.1 out.2) := by
  apply Ends.bind (Q := fun out => core.window.retire = .ok out) (Ends.ran _)
  rintro ⟨n, window⟩ hretire
  have h₁ := hstep _ _ _ _ h (.retire hretire)
  dsimp only
  apply Ends.ite
  · intro _
    exact h₁
  · intro hbusy
    apply Ends.bind (insertBubbles_ends hstep hout Window.ipc h₁ (by simpa using hbusy))
    rintro ⟨slots, core₂⟩ ⟨h₂, hbusy₂⟩
    cases slots with
    | none => exact h₂
    | some slots =>
      apply Ends.bind (issueOutOrder_ends hstep hout h₂ hbusy₂ slots)
      rintro ⟨done, core₃, u₃⟩ h₃
      apply Ends.ite
      · intro _
        apply Ends.bind (nextRequest_ends hstep h₃)
        rintro ⟨core₄, u₄⟩ h₄
        exact recordEnd_kept hstep h₄
      · intro _
        exact h₃

theorem retireBubbles_kept (hin : cfg.cpuType = .inOrder) (slots : Nat) (h : I core u)
    (hbusy : core.isIdle = false) :
    I (core.retireBubbles slots).2 u ∧ (core.retireBubbles slots).2.isIdle = false := by
  induction slots generalizing core with
  | zero =>
    unfold retireBubbles
    split
    · exact ⟨h, hbusy⟩
    · exact ⟨h, hbusy⟩
  | succ slots ih =>
    unfold retireBubbles
    split
    · have h₁ := countInst_kept hstep h
      have h₂ := hstep _ _ _ _ h₁ (.count core.countInst.clk (core.retired + 1)
        core.countInst.inFlightMemoryAccess core.countInst.lockCore
        core.countInst.reachedLimit (core.bubbleCnt - 1) core.countInst.cpuInst
        core.countInst.idleCycles
        (fun hout => absurd (hin.symm.trans hout) (by decide)))
      apply ih h₂
      show core.countInst.isIdle = false
      rw [countInst_isIdle]
      exact hbusy
    · exact ⟨h, hbusy⟩

theorem issueInOrder_ends (h : I core u) (hbusy : core.isIdle = false) (slots : Nat) :
    Yields (core.issueInOrder cfg base u slots) (fun out => I out.2.1 out.2.2) := by
  unfold issueInOrder
  split
  · apply Ends.ite
    · intro _
      exact h
    · intro _
      exact hstep _ _ _ _ h (.count core.clk core.retired core.inFlightMemoryAccess
        core.lockCore core.reachedLimit core.bubbleCnt (core.cpuInst + 1) core.idleCycles
        (fun _ => rfl))
  · next htype => exact issueWrite_ends hstep h hbusy htype
  · next htype =>
    apply Ends.ite
    · intro _
      exact h
    · intro _
      apply Ends.bind (send_ends core.instructionRequest)
      rintro ⟨accepted, core', u'⟩ hsend
      have h' := hstep _ _ _ _ h (.instruction hbusy htype hsend)
      apply Ends.pure
      dsimp only
      split
      · exact hstep _ _ _ _ h' (.count core'.clk core'.retired
          (core'.inFlightMemoryAccess + 1) true core'.reachedLimit core'.bubbleCnt
          core'.cpuInst core'.idleCycles (fun _ => rfl))
      · exact h'
  · exact h

theorem tickInOrder_ends (hin : cfg.cpuType = .inOrder) (h : I core u) :
    Yields (core.tickInOrder cfg base u) (fun out => I out.1 out.2) := by
  unfold tickInOrder
  apply Ends.ite
  · intro _
    exact h
  · intro hgo
    have hbusy : core.isIdle = false := by
      simp only [Bool.or_eq_true, not_or, Bool.not_eq_true] at hgo
      exact hgo.1
    obtain ⟨h₁, hbusy₁⟩ := retireBubbles_kept hstep hin Window.ipc h hbusy
    split
    · next hout =>
      rw [hout] at h₁
      exact h₁
    · next slots core₁ hout =>
      rw [hout] at h₁ hbusy₁
      apply Ends.bind (issueInOrder_ends hstep h₁ hbusy₁ slots)
      rintro ⟨done, core₂, u₂⟩ h₂
      apply Ends.pure
      dsimp only
      split
      · exact recordEnd_kept hstep (hstep _ _ _ _ h₂ .pop)
      · exact h₂

theorem tick_ends (h : I core u) : Yields (core.tick cfg base u) (fun out => I out.1 out.2) := by
  have h₁ := hstep _ _ _ _ h (.count (core.clk + 1) core.retired core.inFlightMemoryAccess
    core.lockCore core.reachedLimit core.bubbleCnt core.cpuInst core.idleCycles (fun _ => rfl))
  unfold tick
  dsimp only
  split
  · next hin => exact tickInOrder_ends hstep hin h₁
  · next hout => exact tickOutOrder_ends hstep hout h₁
  · exact h₁

end

end Tick

end Core

namespace Processor

variable {τ : Type} {cfg : ProcessorConfig} {base : MemoryBase τ} {p p' : Processor τ}
  {cores : List Core} {i : Nat}

/-- One core changes; the others need to be looked at, too. -/
theorem forall_set_ne (hold : ∀ (j : Nat) core, j ≠ i → cores[j]? = some core → P j core)
    (hnew : P i core') : ∀ (j : Nat) core, (cores.set i core')[j]? = some core → P j core := by
  intro j core hj
  by_cases hij : i = j
  · subst hij
    have hlt : i < (cores.set i core').length := (List.getElem?_eq_some_iff.mp hj).1
    rw [length_set] at hlt
    rw [getElem?_set_self hlt] at hj
    cases hj
    exact hnew
  · rw [getElem?_set_ne hij] at hj
    exact hold j core (Ne.symm hij) hj

theorem forall_set (hold : ∀ (j : Nat) core, cores[j]? = some core → P j core) (hnew : P i core') :
    ∀ (j : Nat) core, (cores.set i core')[j]? = some core → P j core :=
  forall_set_ne (fun j core _ hj => hold j core hj) hnew

theorem forall_append (hold : ∀ (j : Nat) core, cores[j]? = some core → P j core)
    (hnew : P cores.length core') :
    ∀ (j : Nat) core, (cores ++ [core'])[j]? = some core → P j core := by
  intro j core hj
  by_cases hlt : j < cores.length
  · rw [getElem?_append_left hlt] at hj
    exact hold j core hj
  · have hbound := (List.getElem?_eq_some_iff.mp hj).1
    rw [length_append, length_singleton] at hbound
    have heq : j = cores.length := by omega
    subst heq
    rw [getElem?_concat_length] at hj
    cases hj
    exact hnew

section Tick

variable {I : Processor τ → Prop}

def Kept (cfg : ProcessorConfig) (base : MemoryBase τ) (I : Processor τ → Prop) : Prop :=
  ∀ p i core core' u', I p → p.cores[i]? = some core →
    core.Step cfg base p.uncore core' u' → I ⟨p.cores.set i core', u'⟩

theorem tickCore_ends (hstep : Kept cfg base I) (h : I p) (i : Nat) :
    Yields (p.tickCore cfg base i) I := by
  apply Ends.bind ((Vec.at_ends p.cores i).ignore)
  rintro core ⟨-, hcore⟩
  rw [Int.toNat_natCast] at hcore
  obtain ⟨hlt, hget⟩ := List.getElem?_eq_some_iff.mp hcore
  -- a step of the core is a step of the processor that holds it
  have hkept : Core.Kept cfg base (fun core u => I ⟨p.cores.set i core, u⟩) := by
    intro core u core' u' h hcorestep
    have hself : (p.cores.set i core)[i]? = some core := getElem?_set_self hlt
    have h' := hstep _ i core core' u' h hself hcorestep
    rwa [set_set] at h'
  have hself : p.cores.set i core = p.cores := by
    rw [← hget]
    exact set_getElem_self hlt
  have hinit : I ⟨p.cores.set i core, p.uncore⟩ := by
    rw [hself]
    exact h
  apply Ends.bind (Core.tick_ends hkept hinit)
  rintro ⟨core', u'⟩ h'
  exact h'

/-- The invariant rule for the cores in a cycle of the processor. -/
theorem tickCores_ends (hstep : Kept cfg base I) (h : I p) (is : List Nat) :
    Yields (is.foldlM (tickCore cfg base) p) I :=
  Ends.foldlM is h (fun _ i _ hp => tickCore_ends hstep hp i)

end Tick

/-! ## Callbacks -/

def CalledBack (cfg : ProcessorConfig) (req : Request) (core core' : Core) : Prop :=
  ∃ l2 l1, core' = { core with l2, l1 } ∧
    if cfg.coreCaches then core.l1.callback cfg.l1 req = .ok l1 else l1 = core.l1

theorem callbackCores_ends (req : Request) (cores : List Core) :
    Yields (callbackCores cfg req cores) (Forall₂ (CalledBack cfg req) cores) := by
  unfold callbackCores
  by_cases hcaches : cfg.coreCaches = true
  · rw [if_pos hcaches]
    apply Ends.mapM
    intro core _
    apply Ends.bind (Q := fun _ => True) (Ends.intro (fun _ _ => trivial) (fun _ _ => trivial))
    intro l2 _
    apply Ends.bind (Q := fun l1 => core.l1.callback cfg.l1 req = .ok l1) (Ends.ran _)
    intro l1 hl1
    exact ⟨l2, l1, rfl, by rw [if_pos hcaches]; exact hl1⟩
  · rw [if_neg hcaches]
    apply Ends.pure
    apply forall₂_same.mpr
    intro core _
    exact ⟨core.l2, core.l1, rfl, by rw [if_neg hcaches]⟩

/-- What `receive` does: the caches are called back, and the core of the request wakes. -/
structure Received (cfg : ProcessorConfig) (p : Processor τ) (req : Request)
    (p' : Processor τ) : Prop where
  memory : p'.uncore.memory = p.uncore.memory
  cachesys : p'.uncore.cachesys = p.uncore.cachesys
  length : p'.cores.length = p.cores.length
  cores : ∀ (i : Nat) core', p'.cores[i]? = some core' → ∃ core core₁, p.cores[i]? = some core ∧
    CalledBack cfg req core core₁ ∧
    core' = if (i : Int) = req.coreid then core₁.receive cfg req else core₁

theorem receive_ends (p : Processor τ) (req : Request) :
    Yields (p.receive cfg req) (Received cfg p req) := by
  unfold receive
  apply Ends.bind (Q := fun _ => True) (Ends.intro (fun _ _ => trivial) (fun _ _ => trivial))
  intro llc _
  apply Ends.bind (callbackCores_ends req p.cores)
  intro cores hcores
  apply Ends.bind ((Vec.at_ends cores req.coreid).ignore)
  rintro core ⟨hid, hcore⟩
  apply Ends.pure
  refine ⟨rfl, rfl, ?_, ?_⟩
  · show (cores.set req.coreid.toNat (core.receive cfg req)).length = p.cores.length
    rw [length_set, hcores.length_eq]
  intro i core' hi
  obtain ⟨n, hn⟩ := Int.eq_ofNat_of_zero_le hid
  rw [hn, Int.toNat_natCast] at hcore
  have hlt := (List.getElem?_eq_some_iff.mp hcore).1
  have hi : (cores.set n (core.receive cfg req))[i]? = some core' := by
    rw [← hi, hn, Int.toNat_natCast]
  -- the core of the request is taken from the list of the cores called back
  have hcalled : ∀ {j : Nat} {core₁}, cores[j]? = some core₁ →
      ∃ core, p.cores[j]? = some core ∧ CalledBack cfg req core core₁ := by
    intro j core₁ hj
    obtain ⟨hjlt, hjget⟩ := List.getElem?_eq_some_iff.mp hj
    have hjlt' : j < p.cores.length := by
      rw [hcores.length_eq]
      exact hjlt
    have hrel := hcores.get hjlt' hjlt
    rw [get_eq_getElem, get_eq_getElem, hjget] at hrel
    exact ⟨p.cores[j], getElem?_eq_getElem hjlt', hrel⟩
  by_cases heq : i = n
  · subst heq
    rw [getElem?_set_self hlt] at hi
    obtain ⟨core₀, hcore₀, hrel⟩ := hcalled hcore
    refine ⟨core₀, core, hcore₀, hrel, ?_⟩
    rw [if_pos hn.symm]
    exact (Option.some.inj hi).symm
  · rw [getElem?_set_ne (Ne.symm heq)] at hi
    obtain ⟨core₀, hcore₀, hrel⟩ := hcalled hi
    refine ⟨core₀, core', hcore₀, hrel, ?_⟩
    rw [if_neg (by omega)]

/-- A core after `receive`: who waits in it waited before, and not for the
    request. -/
theorem Received.core (h : Received cfg p req p')
    (hwf : ∀ (i : Nat) core, p.cores[i]? = some core → core.window.WF)
    (hcore' : p'.cores[i]? = some core') :
    ∃ core l2 l1 memoryAccessCycles last, p.cores[i]? = some core ∧
      core' = { core with l2, l1, window := core'.window, memoryAccessCycles, last } ∧
      (if cfg.coreCaches then core.l1.callback cfg.l1 req = .ok l1 else l1 = core.l1) ∧
      core'.window.WF ∧ ∀ a, core'.Waiting a →
        core.Waiting a ∧ ¬ (req.coreid = i ∧ Core.SameBlock cfg a req.addr) := by
  obtain ⟨core, core₁, hcore, ⟨l2, l1, rfl, hl1⟩, rfl⟩ := h.cores i core' hcore'
  have hwf₁ : ({ core with l2, l1 } : Core).window.WF := hwf i core hcore
  by_cases hid : (i : Int) = req.coreid
  · rw [if_pos hid]
    obtain ⟨hwf', hwaiting⟩ := Core.receive_waiting cfg hwf₁ req
    obtain ⟨cycles, last, hframe⟩ : ∃ cycles last,
        Core.receive cfg { core with l2, l1 } req = { core with
          l2, l1, window := (Core.receive cfg { core with l2, l1 } req).window
          memoryAccessCycles := cycles, last := last } := by
      unfold Core.receive
      dsimp only
      split
      · exact ⟨_, _, rfl⟩
      · exact ⟨_, _, rfl⟩
    refine ⟨core, l2, l1, cycles, last, hcore, hframe, hl1, hwf', ?_⟩
    intro a ha
    obtain ⟨ha', hblock⟩ := hwaiting a ha
    exact ⟨ha', fun hand => hblock hand.2⟩
  · rw [if_neg hid]
    refine ⟨core, l2, l1, core.memoryAccessCycles, core.last, hcore, rfl, hl1, hwf₁, ?_⟩
    intro a ha
    exact ⟨ha, fun hand => hid hand.1.symm⟩

end Processor

end Ramulator
