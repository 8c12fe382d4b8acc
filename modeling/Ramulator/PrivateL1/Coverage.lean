/-
  Ramulator.PrivateL1.Coverage

  No instruction waits in vain.

  A read that finds a miss of its block under way sends nothing: it relies on
  the read of that miss.  And `Processor::receive` calls back the caches of all
  cores, so that an MSHR entry can go because of another core's request.  Still
  for each instruction that waits, and for each MSHR entry, there is a request
  of the same core and block that comes back (`Backed`, `run_loses_no_wakeup`): a
  callback ends only waits and misses of its own block, and it wakes all
  instructions of its core that wait for the block.
-/

import Ramulator.PrivateL1.Steps

namespace Ramulator

open Outcome List
open Ramulator.Core (SameBlock)

/-- Every instruction that waits and every miss has a request that comes back. -/
structure Backed (cfg : ProcessorConfig) (back : List Request) (p : Processor FreeMemory) :
    Prop where
  waiting : ∀ (i : Nat) core, p.cores[i]? = some core → ∀ a, core.Waiting a →
    ∃ r : Request, r.coreid = i ∧ SameBlock cfg a r.addr ∧
      (r ∈ p.uncore.cachesys.hitList.map (·.2) ∨ r ∈ p.outstanding ∨ r ∈ back)
  mshr : ∀ (i : Nat) core, p.cores[i]? = some core → ∀ e ∈ core.l1.mshrEntries,
    ∃ r : Request, r.coreid = i ∧ SameBlock cfg e.1 r.addr ∧ (r ∈ p.outstanding ∨ r ∈ back)

namespace Backed

variable {cfg : ProcessorConfig} {p p' : Processor FreeMemory} {back : List Request}
  {core core' : Core} {u' : Uncore FreeMemory} {i : Nat} {req : Request} {new : List (Bool × Int)}

/-- The core `i` goes on, and nothing that comes back is lost. -/
theorem set (h : Backed cfg [] p)
    (hhits : ∀ r ∈ p.uncore.cachesys.hitList.map (·.2), r ∈ u'.cachesys.hitList.map (·.2))
    (hreads : ∀ r ∈ p.outstanding, r ∈ Processor.outstanding ⟨p.cores.set i core', u'⟩)
    (hcore : p.cores[i]? = some core)
    (hwaiting : ∀ a, core'.Waiting a → core.Waiting a ∨ ∃ r : Request, r.coreid = i ∧
      SameBlock cfg a r.addr ∧ (r ∈ u'.cachesys.hitList.map (·.2) ∨
        r ∈ Processor.outstanding ⟨p.cores.set i core', u'⟩))
    (hmshr : ∀ e ∈ core'.l1.mshrEntries, e ∈ core.l1.mshrEntries ∨ ∃ r : Request,
      r.coreid = i ∧ SameBlock cfg e.1 r.addr ∧
        r ∈ Processor.outstanding ⟨p.cores.set i core', u'⟩) :
    Backed cfg [] ⟨p.cores.set i core', u'⟩ := by
  have hold : ∀ (j : Nat) core₁, p.cores[j]? = some core₁ → ∀ a, core₁.Waiting a →
      ∃ r : Request, r.coreid = j ∧ SameBlock cfg a r.addr ∧
        (r ∈ u'.cachesys.hitList.map (·.2) ∨
          r ∈ Processor.outstanding ⟨p.cores.set i core', u'⟩ ∨ r ∈ []) := by
    intro j core₁ hj a ha
    obtain ⟨r, hid, hblock, hr⟩ := h.waiting j core₁ hj a ha
    exact ⟨r, hid, hblock, hr.imp (hhits r) (Or.imp (hreads r) id)⟩
  have hold' : ∀ (j : Nat) core₁, p.cores[j]? = some core₁ → ∀ e ∈ core₁.l1.mshrEntries,
      ∃ r : Request, r.coreid = j ∧ SameBlock cfg e.1 r.addr ∧
        (r ∈ Processor.outstanding ⟨p.cores.set i core', u'⟩ ∨ r ∈ []) := by
    intro j core₁ hj e he
    obtain ⟨r, hid, hblock, hr⟩ := h.mshr j core₁ hj e he
    exact ⟨r, hid, hblock, hr.imp (hreads r) id⟩
  constructor
  · apply Processor.forall_set hold
    intro a ha
    rcases hwaiting a ha with ha | ⟨r, hid, hblock, hr⟩
    · exact hold i core hcore a ha
    · exact ⟨r, hid, hblock, hr.imp id Or.inl⟩
  · apply Processor.forall_set hold'
    intro e he
    rcases hmshr e he with he | ⟨r, hid, hblock, hr⟩
    · exact hold' i core hcore e he
    · exact ⟨r, hid, hblock, Or.inl hr⟩

/-- What waits in a window that has gone on waited before, or has come in. -/
theorem waiting_aged {n : Nat} (haged : Core.Aged cfg core core' n new) {a : Int}
    (ha : core'.Waiting a) : core.Waiting a ∨ (false, a) ∈ new := by
  unfold Core.Waiting at ha
  rw [haged.entries] at ha
  exact (mem_append.mp ha).imp mem_of_mem_drop id

/-- A core sends a request: it comes back, or the read of the miss it has joined does. -/
theorem sent {accepted : Bool} {cachesys : CacheSystem} (h : Backed cfg [] p)
    (hcore : p.cores[i]? = some core) (hid : core.id = i)
    (hsent : Cache.Sent cfg.l1 core.l1 p.uncore.cachesys req accepted core'.l1 cachesys)
    (hcoreid : req.coreid = core.id) (haged : Core.Aged cfg core core' 0 new)
    (hnew : new = [] ∨ (accepted = true ∧ new = [(false, req.addr)])) :
    Backed cfg [] ⟨p.cores.set i core', { p.uncore with cachesys }⟩ := by
  -- an address that has come in is that of the request, and it was accepted
  have hin : ∀ a, core'.Waiting a → core.Waiting a ∨ (accepted = true ∧ a = req.addr) := by
    intro a ha
    rcases waiting_aged haged ha with ha | ha
    · exact Or.inl ha
    · rcases hnew with rfl | ⟨haccepted, rfl⟩
      · cases ha
      · cases mem_singleton.mp ha
        exact Or.inr ⟨haccepted, rfl⟩
  generalize hl1 : core'.l1 = l1' at hsent
  cases hsent with
  | hit hmem htag hlock =>
    have hhits : ∀ r ∈ p.uncore.cachesys.hitList.map (·.2), r ∈
        (p.uncore.cachesys.hitList ++ [(p.uncore.cachesys.clk + cfg.l1.latency, req)]).map
          (·.2) := by
      intro r hr
      rw [map_append]
      exact mem_append_left _ hr
    refine h.set hhits (fun _ hr => hr) hcore ?_ ?_
    · intro a ha
      refine (hin a ha).imp id ?_
      rintro ⟨-, rfl⟩
      refine ⟨req, hcoreid.trans hid, rfl, Or.inl ?_⟩
      exact mem_map_of_mem (mem_append_right _ mem_cons_self)
    · intro e he
      rw [hl1] at he
      exact Or.inl he
  | @merged entry hmiss hentry hblock =>
    refine h.set (fun _ hr => hr) (fun _ hr => hr) hcore ?_ ?_
    · intro a ha
      refine (hin a ha).imp id ?_
      rintro ⟨-, rfl⟩
      obtain ⟨r, hrid, hrblock, hr⟩ := h.mshr i core hcore entry hentry
      rcases hr with hr | hr
      · exact ⟨r, hrid, hblock.symm.trans hrblock, Or.inr hr⟩
      · cases hr
    · intro e he
      rw [hl1] at he
      exact Or.inl he
  | refused =>
    refine h.set (fun _ hr => hr) (fun _ hr => hr) hcore ?_ ?_
    · intro a ha
      refine (hin a ha).imp id ?_
      rintro ⟨haccepted, -⟩
      cases haccepted
    · intro e he
      rw [hl1] at he
      exact Or.inl he
  | @missed victim hmiss hfresh hnum habsent hroom =>
    have hperm := Processor.outstanding_missed p (p.cores.set i core') cfg.l1 victim
      (p.uncore.cachesys.clk + cfg.l1.latency) req
    have hfetch := hperm.mem_iff.mpr mem_cons_self
    have hgrow := fun r hr => hperm.mem_iff.mpr (mem_cons_of_mem (a := r) _ hr)
    refine h.set (fun _ hr => hr) hgrow hcore ?_ ?_
    · intro a ha
      refine (hin a ha).imp id ?_
      rintro ⟨-, rfl⟩
      exact ⟨{ req with type := .read }, hcoreid.trans hid, rfl, Or.inr hfetch⟩
    · intro e he
      rw [hl1] at he
      refine (mem_append.mp he).imp id ?_
      intro he
      cases mem_singleton.mp he
      exact ⟨{ req with type := .read }, hcoreid.trans hid, rfl, hfetch⟩

/-- A callback ends what it covers: the waits of its core for its block, and
    the misses of the block. -/
theorem callback (hcaches : cfg.coreCaches = true) (hp : p.Sound cfg)
    (h : Backed cfg (req :: back) p) (hreceived : Processor.Received cfg p req p') :
    Backed cfg back p' := by
  have hreads : p'.outstanding = p.outstanding := by
    unfold Processor.outstanding
    rw [hreceived.cachesys, hreceived.memory]
  constructor
  · intro i core' hcore' a ha
    obtain ⟨core, hcore, -, -, -, hentries⟩ := hreceived.ok hcaches hp hcore'
    unfold Core.Waiting at ha
    rw [hentries] at ha
    obtain ⟨⟨ready, a'⟩, he, heq⟩ := mem_map.mp ha
    obtain ⟨hready, rfl⟩ := Prod.mk.inj heq
    rw [Bool.or_eq_false_iff] at hready
    dsimp only at hready
    obtain ⟨rfl, hother⟩ := hready
    have hother : ¬ (req.coreid = i ∧ SameBlock cfg a' req.addr) := of_decide_eq_false hother
    obtain ⟨r, hid, hblock, hr⟩ := h.waiting i core hcore a' he
    refine ⟨r, hid, hblock, ?_⟩
    rw [hreads, hreceived.cachesys]
    rcases hr with hr | hr | hr
    · exact Or.inl hr
    · exact Or.inr (Or.inl hr)
    · rcases mem_cons.mp hr with rfl | hr
      · exact absurd ⟨hid, hblock⟩ hother
      · exact Or.inr (Or.inr hr)
  · intro i core' hcore' e he
    obtain ⟨core, hcore, -, hcalled, -⟩ := hreceived.ok hcaches hp hcore'
    -- an entry that is left is not one of the block
    have hleft : e ∈ core.l1.mshrEntries ∧ ¬ SameBlock cfg e.1 req.addr := by
      have hblocks := (hp.cores i core hcore).l1.blocks
      generalize core'.l1 = l1' at hcalled he
      cases hcalled with
      | none hnone => exact ⟨he, hnone e he⟩
      | unlocked hentry hblock =>
        have he := (Keyed.mem_eraseP_iff hblocks).mp he
        exact he
    obtain ⟨r, hid, hblock, hr⟩ := h.mshr i core hcore e hleft.1
    refine ⟨r, hid, hblock, ?_⟩
    rw [hreads]
    rcases hr with hr | hr
    · exact Or.inl hr
    · rcases mem_cons.mp hr with rfl | hr
      · exact absurd hblock hleft.2
      · exact Or.inr hr

theorem rule (hcaches : cfg.coreCaches = true) :
    CycleRule cfg (fun _ _ _ => True) (Backed cfg []) (fun _ back => Backed cfg back) where
  moved := by
    intro p i core core' u' hp h hcore hmoved hok'
    cases hmoved with
    | own hid hl1 haged hnew =>
      refine h.set (fun _ hr => hr) (fun _ hr => hr) hcore ?_ ?_
      · intro a ha
        rcases waiting_aged haged ha with ha | ha
        · exact Or.inl ha
        · cases hnew _ ha
      · intro e he
        rw [hl1] at he
        exact Or.inl he
    | sent hid hsent hcoreid hback haged hnew =>
      exact h.sent hcore (hp.cores i core hcore).id hsent hcoreid haged hnew
  hits := by
    intro p due u' hp h hoffered
    refine ⟨fun i core hcore a ha => ?_, fun i core hcore e he => ?_⟩
    · obtain ⟨r, hid, hblock, hr⟩ := h.waiting i core hcore a ha
      refine ⟨r, hid, hblock, ?_⟩
      rcases hr with hr | hr | hr
      · rcases mem_append.mp (hoffered.hits.mem_iff.mp hr) with hr | hr
        · exact Or.inr (Or.inr hr)
        · exact Or.inl hr
      · exact Or.inr (Or.inl (hoffered.reads.mem_iff.mpr hr))
      · cases hr
    · obtain ⟨r, hid, hblock, hr⟩ := h.mshr i core hcore e he
      rcases hr with hr | hr
      · exact ⟨r, hid, hblock, Or.inl (hoffered.reads.mem_iff.mpr hr)⟩
      · cases hr
  returns := by
    intro p done u' hp h hreturned
    have hreads : ∀ r ∈ p.outstanding, r ∈ Processor.outstanding ⟨p.cores, u'⟩ ∨ r ∈ done := by
      intro r hr
      unfold Processor.outstanding
      rw [hreturned.cachesys]
      rcases mem_append.mp hr with hr | hr
      · exact Or.inl (mem_append_left _ hr)
      · rcases mem_append.mp (hreturned.inFlight.mem_iff.mpr hr) with hr | hr
        · exact Or.inr hr
        · exact Or.inl (mem_append_right _ hr)
    refine ⟨fun i core hcore a ha => ?_, fun i core hcore e he => ?_⟩
    · obtain ⟨r, hid, hblock, hr⟩ := h.waiting i core hcore a ha
      refine ⟨r, hid, hblock, ?_⟩
      rw [hreturned.cachesys]
      rcases hr with hr | hr | hr
      · exact Or.inl hr
      · exact Or.inr (hreads r hr)
      · cases hr
    · obtain ⟨r, hid, hblock, hr⟩ := h.mshr i core hcore e he
      rcases hr with hr | hr
      · exact ⟨r, hid, hblock, hreads r hr⟩
      · cases hr
  callback hp h _ hreceived := h.callback hcaches hp hreceived
  done h := h

end Backed

/-- **No wakeup is lost.**  In every run of cores with private L1s on any
    memory, each instruction that waits has a request of its core and block in
    `hit_list`, in `wait_list` or in the memory, and each MSHR entry has a read
    in `wait_list` or in the memory. -/
theorem run_loses_no_wakeup {cfg : ProcessorConfig} (hcaches : cfg.coreCaches = true) (o : Oracle)
    (workloads : List Workload) (cycles : List Cycle) {p : Processor FreeMemory}
    (hrun : Processor.run cfg o.base {} workloads cycles = .ok p) (i : Nat) {core : Core}
    (hcore : p.cores[i]? = some core) :
    (∀ a, core.Waiting a → ∃ r : Request, r.coreid = i ∧ SameBlock cfg a r.addr ∧
      (r ∈ p.uncore.cachesys.hitList.map (·.2) ∨ r.type = .read ∧
          (r ∈ p.uncore.cachesys.waitList.map (·.2) ∨ r ∈ p.uncore.memory.inFlight))) ∧
    ∀ e ∈ core.l1.mshrEntries, ∃ r : Request, r.coreid = i ∧ SameBlock cfg e.1 r.addr ∧
      r.type = .read ∧
      (r ∈ p.uncore.cachesys.waitList.map (·.2) ∨ r ∈ p.uncore.memory.inFlight) := by
  obtain ⟨p₀, hnew, hcycles⟩ := bind_ok.mp hrun
  have hinit : Yields (Processor.new o.base {} workloads)
      (fun p => p.Sound cfg ∧ Backed cfg [] p) := by
    apply Processor.new_ends
    · exact ⟨(fun i core hi => by cases hi), (fun i core hi => by cases hi)⟩
    · intro p core calls h hl1 hwindow
      constructor
      · apply Processor.forall_append h.waiting
        intro a ha
        unfold Core.Waiting at ha
        rw [hwindow] at ha
        cases ha
      · apply Processor.forall_append h.mshr
        intro e he
        rw [hl1] at he
        cases he
  obtain ⟨hp₀, h₀⟩ := hinit.result hnew
  obtain ⟨hp, h⟩ := ((Backed.rule hcaches).cycles_ends hcaches cycles hp₀ h₀
    (Processor.runMeets_true cfg o cycles p₀)).result hcycles
  -- where an outstanding read is
  have hreads : ∀ r ∈ p.outstanding, r.type = .read ∧
      (r ∈ p.uncore.cachesys.waitList.map (·.2) ∨ r ∈ p.uncore.memory.inFlight) := by
    intro r hr
    exact ⟨(hp.reads r hr).1, (mem_append.mp hr).imp mem_of_mem_filter id⟩
  constructor
  · intro a ha
    obtain ⟨r, hid, hblock, hr | hr | hr⟩ := h.waiting i core hcore a ha
    · exact ⟨r, hid, hblock, Or.inl hr⟩
    · exact ⟨r, hid, hblock, Or.inr (hreads r hr)⟩
    · cases hr
  · intro e he
    obtain ⟨r, hid, hblock, hr | hr⟩ := h.mshr i core hcore e he
    · exact ⟨r, hid, hblock, hreads r hr⟩
    · cases hr

/-- The second read of a block waits for the read of the first one's miss. -/
theorem run_loses_no_wakeup_merged : ∃ (p : Processor FreeMemory) (core : Core),
      Processor.run { coreCaches := true } (Oracle.eager []).base {}
        [{ rqstQueue := [⟨0, 0, .read⟩, ⟨0, 8, .read⟩] }] [.cpu, .cpu] = .ok p ∧
      p.cores[0]? = some core ∧ core.window.entries = [(false, 0), (false, 8)] ∧
      p.outstanding.length = 1 ∧
      ∃ r : Request, r.coreid = 0 ∧ SameBlock { coreCaches := true } 8 r.addr ∧
        (r ∈ p.uncore.cachesys.hitList.map (·.2) ∨ r.type = .read ∧
          (r ∈ p.uncore.cachesys.waitList.map (·.2) ∨ r ∈ p.uncore.memory.inFlight)) := by
  have heval : (Processor.run { coreCaches := true } (Oracle.eager []).base {}
      [{ rqstQueue := [⟨0, 0, .read⟩, ⟨0, 8, .read⟩] }] [.cpu, .cpu]).toOption.map
      (fun p => (p.cores.map fun core => core.window.entries, p.outstanding.length)) =
      some ([[(false, 0), (false, 8)]], 1) := by decide +kernel
  obtain ⟨p, hrun, heq⟩ := exists_ok_of_map heval
  obtain ⟨hwindows, hlength⟩ := Prod.mk.inj heq
  obtain ⟨core, hcore, hentries⟩ : ∃ core, p.cores[0]? = some core ∧
      core.window.entries = [(false, 0), (false, 8)] := by
    have hfirst := congrArg (·[0]?) hwindows
    rw [getElem?_map] at hfirst
    exact Option.map_eq_some_iff.mp hfirst
  have hwaiting : core.Waiting 8 := by
    unfold Core.Waiting
    rw [hentries]
    exact mem_cons_of_mem _ mem_cons_self
  exact ⟨p, core, hrun, hcore, hentries, hlength,
    (run_loses_no_wakeup rfl (Oracle.eager []) _ _ hrun 0 hcore).1 8 hwaiting⟩

end Ramulator
