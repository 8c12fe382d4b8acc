/-
  Ramulator.PrivateL1.Misses

  A miss waits for the memory, if no other callback for its block comes first.

  `Processor::receive` calls back the caches of every core, for hits and for
  what the memory returns alike, and a cache goes by the block alone.  So a hit
  of one core ends the miss of another core on the same block: the line is
  unlocked, and a later hit on it wakes the instructions that wait for the
  memory (`hit_ends_other_miss`).  In a run in which each callback that comes
  while an L1 has a miss on its block is the memory's answer to that L1's core
  (`Timely`), there is one outstanding read for each miss, and until the memory
  has returned it the line stays locked and the instructions wait
  (`misses_wait`).
-/

import Ramulator.PrivateL1.Steps

namespace Ramulator

open Outcome List
open Ramulator.Core (SameBlock)

/-- The callback of `r` comes for a miss of an L1 only from the memory, and for
    the core that has missed. -/
def Timely (cfg : ProcessorConfig) (src : Source) (p : Processor FreeMemory) (r : Request) :
    Prop :=
  ∀ x ∈ p.cores.zipIdx, ∀ e ∈ x.1.l1.mshrEntries,
    SameBlock cfg e.1 r.addr → src = .memory ∧ r.coreid = x.2

instance (cfg : ProcessorConfig) (src : Source) (p : Processor FreeMemory) (r : Request) :
    Decidable (Timely cfg src p r) :=
  inferInstanceAs (Decidable (∀ x ∈ p.cores.zipIdx, ∀ e ∈ x.1.l1.mshrEntries, _))

def TimelyRun (cfg : ProcessorConfig) (o : Oracle) (workloads : List Workload)
    (cycles : List Cycle) : Prop :=
  Ends (Processor.new o.base {} workloads) (Processor.RunMeets cfg o (Timely cfg) cycles)
    (fun _ => True)

instance (cfg : ProcessorConfig) (o : Oracle) (workloads : List Workload) (cycles : List Cycle) :
    Decidable (TimelyRun cfg o workloads cycles) :=
  inferInstanceAs (Decidable (Ends _ _ _))

def Request.isFor (cfg : ProcessorConfig) (i : Nat) (a : Int) (r : Request) : Bool :=
  decide (r.coreid = i ∧ SameBlock cfg a r.addr)

variable {cfg : ProcessorConfig} {o : Oracle} {p p' : Processor FreeMemory} {core core' : Core}
  {i : Nat} {req r : Request} {reads done due : List Request} {u' : Uncore FreeMemory}

theorem Timely.of_miss {src : Source} (h : Timely cfg src p r) (hcore : p.cores[i]? = some core)
    {e : Int × LineIter} (he : e ∈ core.l1.mshrEntries) (hblock : SameBlock cfg e.1 r.addr) :
    src = .memory ∧ r.coreid = i :=
  h (core, i) (mem_zipIdx_iff_getElem?.mpr hcore) e he hblock

theorem Request.isFor_iff {a : Int} :
    r.isFor cfg i a = true ↔ r.coreid = i ∧ SameBlock cfg a r.addr := decide_eq_true_iff

/-! ## One read for each miss -/

structure Core.Balanced (cfg : ProcessorConfig) (reads : List Request) (i : Nat) (core : Core) :
    Prop where
  one : ∀ e ∈ core.l1.mshrEntries, reads.countP (Request.isFor cfg i e.1) = 1
  miss : ∀ r ∈ reads, r.coreid = i → ∃ e ∈ core.l1.mshrEntries, SameBlock cfg e.1 r.addr

def Processor.Balanced (cfg : ProcessorConfig) (back : List Request) (p : Processor FreeMemory) :
    Prop :=
  ∀ (i : Nat) core, p.cores[i]? = some core → core.Balanced cfg (p.outstanding ++ back) i

namespace Core.Balanced

section

variable (h : core.Balanced cfg reads i)
include h

theorem perm {reads' : List Request} (hperm : reads'.Perm reads) : core.Balanced cfg reads' i where
  one e he := by rw [hperm.countP_eq]; exact h.one e he
  miss r hr hid := h.miss r (hperm.mem_iff.mp hr) hid

theorem congr (hmshr : core'.l1.mshrEntries = core.l1.mshrEntries) :
    core'.Balanced cfg reads i := by
  refine ⟨fun e he => ?_, fun r hr hid => ?_⟩
  · rw [hmshr] at he
    exact h.one e he
  · rw [hmshr]
    exact h.miss r hr hid

theorem other (hid : req.coreid ≠ i) : core.Balanced cfg (req :: reads) i := by
  refine ⟨fun e he => ?_, fun r hr hrid => ?_⟩
  · rw [countP_cons_of_neg (fun hfor => hid (Request.isFor_iff.mp hfor).1)]
    exact h.one e he
  · rcases mem_cons.mp hr with rfl | hr
    · exact absurd hrid hid
    · exact h.miss r hr hrid

theorem missed (hid : req.coreid = i)
    (hfresh : ∀ e ∈ core.l1.mshrEntries, ¬ SameBlock cfg e.1 req.addr) {it : LineIter}
    (hmshr : core'.l1.mshrEntries = core.l1.mshrEntries ++ [(req.addr, it)]) :
    core'.Balanced cfg (req :: reads) i := by
  refine ⟨fun e he => ?_, fun r hr hrid => ?_⟩
  · rw [hmshr] at he
    rcases mem_append.mp he with he | he
    · rw [countP_cons_of_neg (fun hfor => hfresh e he (Request.isFor_iff.mp hfor).2)]
      exact h.one e he
    · rw [mem_singleton.mp he, countP_cons_of_pos (Request.isFor_iff.mpr ⟨hid, rfl⟩)]
      -- a read for the block would have a miss
      have hnone : reads.countP (Request.isFor cfg i req.addr) = 0 := by
        rw [countP_eq_zero]
        intro r hr hfor
        obtain ⟨hrid, hblock⟩ := Request.isFor_iff.mp hfor
        obtain ⟨e, he, heblock⟩ := h.miss r hr hrid
        exact hfresh e he (heblock.trans hblock.symm)
      rw [hnone]
  · rw [hmshr]
    rcases mem_cons.mp hr with rfl | hr
    · exact ⟨(r.addr, it), mem_append_right _ mem_cons_self, rfl⟩
    · obtain ⟨e, he, hblock⟩ := h.miss r hr hrid
      exact ⟨e, mem_append_left _ he, hblock⟩

end

theorem unique (h : core.Balanced cfg (req :: reads) i) (hid : req.coreid = i)
    {e : Int × LineIter} (he : e ∈ core.l1.mshrEntries) (hblock : SameBlock cfg e.1 req.addr)
    (hr : r ∈ reads) (hrid : r.coreid = i) : ¬ SameBlock cfg e.1 r.addr := by
  intro hrblock
  have hone := h.one e he
  rw [countP_cons_of_pos (Request.isFor_iff.mpr ⟨hid, hblock⟩)] at hone
  have hpos : 0 < reads.countP (Request.isFor cfg i e.1) :=
    countP_pos_iff.mpr ⟨r, hr, Request.isFor_iff.mpr ⟨hrid, hrblock⟩⟩
  omega

theorem called (h : core.Balanced cfg (req :: reads) i) (hinv : Cache.Inv cfg.l1 core.l1)
    (hcalled : Cache.Called cfg.l1 core.l1 req core'.l1)
    (htimely : ∀ e ∈ core.l1.mshrEntries, SameBlock cfg e.1 req.addr → req.coreid = i) :
    core'.Balanced cfg reads i := by
  have hblocks := hinv.blocks
  -- a miss that goes on has its read among the others
  have hone : ∀ e ∈ core.l1.mshrEntries, ¬ SameBlock cfg e.1 req.addr →
      reads.countP (Request.isFor cfg i e.1) = 1 := by
    intro e he hblock
    have hone := h.one e he
    rwa [countP_cons_of_neg (fun hfor => hblock (Request.isFor_iff.mp hfor).2)] at hone
  generalize hl1 : core'.l1 = l1' at hcalled
  cases hcalled with
  | none hnone =>
    refine ⟨fun e he => ?_, fun r hr hid => ?_⟩
    · rw [hl1] at he
      exact hone e he (hnone e he)
    · rw [hl1]
      exact h.miss r (mem_cons_of_mem _ hr) hid
  | @unlocked entry hentry hblock =>
    have hmem : ∀ e, e ∈ core'.l1.mshrEntries ↔
        e ∈ core.l1.mshrEntries ∧ ¬ SameBlock cfg e.1 req.addr := by
      intro e
      rw [hl1]
      exact Keyed.mem_eraseP_iff hblocks
    refine ⟨fun e he => ?_, fun r hr hid => ?_⟩
    · obtain ⟨he, hother⟩ := (hmem e).mp he
      exact hone e he hother
    · obtain ⟨e, he, heblock⟩ := h.miss r (mem_cons_of_mem _ hr) hid
      refine ⟨e, (hmem e).mpr ⟨he, fun hsame => ?_⟩, heblock⟩
      exact h.unique (htimely e he hsame) he hsame hr hid heblock

end Core.Balanced

namespace Processor.Balanced

theorem moved (hp : p.Sound cfg) (h : p.Balanced cfg []) (hcore : p.cores[i]? = some core)
    (hmoved : core.Moved cfg p.uncore core' u') : Balanced cfg [] ⟨p.cores.set i core', u'⟩ := by
  unfold Balanced at h ⊢
  simp only [append_nil] at h ⊢
  cases hmoved with
  | own hid hl1 haged hnew => exact forall_set h ((h i core hcore).congr (by rw [hl1]))
  | @sent req _ _ _ hid hsent hcoreid hback haged hnew =>
    generalize hl1 : core'.l1 = l1' at hsent
    cases hsent with
    | hit => exact forall_set h ((h i core hcore).congr (by rw [hl1]; rfl))
    | merged => exact forall_set h ((h i core hcore).congr (by rw [hl1]; rfl))
    | refused => exact forall_set h ((h i core hcore).congr (by rw [hl1]))
    | missed hmiss hfresh hnum habsent hroom =>
      have hreqid : req.coreid = i := hcoreid.trans (hp.cores i core hcore).id
      intro j core₁ hj
      refine Core.Balanced.perm ?_ (outstanding_missed p _ _ _ _ req)
      revert j core₁
      apply forall_set_ne
      · intro j core₁ hne hj
        apply (h j core₁ hj).other
        intro heq
        apply hne
        have : (j : Int) = i := heq.symm.trans hreqid
        omega
      · exact (h i core hcore).missed hreqid hfresh (by rw [hl1]; rfl)

theorem offered (h : p.Balanced cfg []) (hoffered : Offered p.uncore due u') :
    Balanced cfg [] ⟨p.cores, u'⟩ :=
  fun i core hcore => (h i core hcore).perm (hoffered.reads.append_right [])

theorem returned (h : p.Balanced cfg []) (hreturned : Returned p.uncore done u') :
    Balanced cfg done ⟨p.cores, u'⟩ := by
  intro i core hcore
  apply (h i core hcore).perm
  unfold outstanding
  rw [hreturned.cachesys, append_nil, append_assoc]
  exact (perm_append_comm.trans hreturned.inFlight).append_left _

theorem called (hcaches : cfg.coreCaches = true) (hp : p.Sound cfg) {back : List Request}
    (h : p.Balanced cfg (req :: back)) (htimely : Timely cfg .memory p req)
    (hreceived : Received cfg p req p') : p'.Balanced cfg back := by
  intro i core' hcore'
  obtain ⟨core, hcore, -, hcalled, -⟩ := hreceived.ok hcaches hp hcore'
  unfold outstanding
  rw [hreceived.cachesys, hreceived.memory]
  have hbalanced := (h i core hcore).perm perm_middle.symm
  exact hbalanced.called (hp.cores i core hcore).l1 hcalled
    (fun e he hblock => (htimely.of_miss hcore he hblock).2)

end Processor.Balanced

theorem Timely.called_hit (hcaches : cfg.coreCaches = true) (hp : p.Sound cfg)
    (htimely : Timely cfg .hitList p req) (hreceived : Processor.Received cfg p req p')
    (hcore' : p'.cores[i]? = some core') :
    ∃ core, p.cores[i]? = some core ∧ core'.l1 = core.l1 := by
  obtain ⟨core, hcore, -, hcalled, -⟩ := hreceived.ok hcaches hp hcore'
  refine ⟨core, hcore, ?_⟩
  generalize core'.l1 = l1' at hcalled
  cases hcalled with
  | none => rfl
  | unlocked hentry hblock =>
    obtain ⟨hsrc, -⟩ := htimely.of_miss hcore hentry hblock
    cases hsrc

/-! ## A miss that waits -/

/-- What waits in `start` for a block still waits in `core`, by the number of the instruction. -/
def Core.KeepsWaiting (cfg : ProcessorConfig) (addr : Int) (start core : Core) : Prop :=
  ∀ (n : Nat) a, start.window.entries[n]? = some (false, a) → SameBlock cfg a addr →
    ∃ n' : Nat, core.retired + n' = start.retired + n ∧
      core.window.entries[n']? = some (false, a)

/-- The miss `e` of core `i` waits for its read `r`, or `r` was returned after `past`. -/
def Processor.Waits (cfg : ProcessorConfig) (i : Nat) (start : Core) (e : Int × LineIter)
    (r : Request) (past : List Request) (p : Processor FreeMemory) : Prop :=
  ∃ more, p.uncore.memory.returned = past ++ more ∧ (r ∈ more ∨
    ∃ core, p.cores[i]? = some core ∧ e ∈ core.l1.mshrEntries ∧ r ∈ p.outstanding ∧
      start.KeepsWaiting cfg e.1 core)

variable {start : Core} {e : Int × LineIter} {past : List Request}

theorem Core.KeepsWaiting.aged {n : Nat} {new : List (Bool × Int)}
    (hstart : cfg.cpuType ≠ .outOrder → start.window.entries = [])
    (h : start.KeepsWaiting cfg e.1 core) (haged : Core.Aged cfg core core' n new) :
    start.KeepsWaiting cfg e.1 core' := by
  intro m a hm hblock
  by_cases hout : cfg.cpuType = .outOrder
  · obtain ⟨k, hk, hentry⟩ := h m a hm hblock
    -- the first `n` are ready
    have hle : n ≤ k := by
      by_contra hlt
      have hmem : (false, a) ∈ core.window.entries.take n := by
        apply mem_of_getElem? (i := k)
        rw [getElem?_take_of_lt (by omega)]
        exact hentry
      cases haged.ready _ hmem
    have hretired := haged.retired hout
    refine ⟨k - n, by omega, ?_⟩
    have hlt := (List.getElem?_eq_some_iff.mp hentry).1
    rw [haged.entries, getElem?_append_left (by rw [length_drop]; omega), getElem?_drop]
    rw [Nat.add_sub_cancel' hle]
    exact hentry
  · rw [hstart hout] at hm
    cases hm

namespace Processor.Waits

theorem moved (hstart : cfg.cpuType ≠ .outOrder → start.window.entries = [])
    (h : p.Waits cfg i start e r past) {j : Nat} (hcore : p.cores[j]? = some core)
    (hmoved : core.Moved cfg p.uncore core' u') :
    Waits cfg i start e r past ⟨p.cores.set j core', u'⟩ := by
  obtain ⟨more, hmore, h⟩ := h
  -- the memory has returned nothing, no read is lost and no miss ended
  obtain ⟨hreturned, hreads, hmshr, n, new, haged⟩ : u'.memory.returned = p.uncore.memory.returned ∧
      (∀ r ∈ p.outstanding, r ∈ outstanding ⟨p.cores.set j core', u'⟩) ∧
      (∀ e ∈ core.l1.mshrEntries, e ∈ core'.l1.mshrEntries) ∧
      ∃ n new, Core.Aged cfg core core' n new := by
    cases hmoved with
    | own hid hl1 haged hnew =>
      refine ⟨rfl, fun _ hr => hr, fun e he => ?_, _, _, haged⟩
      rw [hl1]
      exact he
    | @sent req _ _ _ hid hsent hcoreid hback haged hnew =>
      generalize hl1 : core'.l1 = l1' at hsent
      cases hsent with
      | hit => exact ⟨rfl, fun _ hr => hr, fun e he => he, _, _, haged⟩
      | merged => exact ⟨rfl, fun _ hr => hr, fun e he => he, _, _, haged⟩
      | refused => exact ⟨rfl, fun _ hr => hr, fun e he => he, _, _, haged⟩
      | missed =>
        refine ⟨rfl, fun r hr => ?_, fun e he => mem_append_left _ he, _, _, haged⟩
        exact (outstanding_missed p _ _ _ _ req).mem_iff.mpr (mem_cons_of_mem _ hr)
  refine ⟨more, hreturned.trans hmore, h.imp id ?_⟩
  rintro ⟨core₁, hcore₁, he, hr, hkeeps⟩
  by_cases hij : i = j
  · subst hij
    rw [hcore] at hcore₁
    cases hcore₁
    exact ⟨core', getElem?_set_self (List.getElem?_eq_some_iff.mp hcore).1, hmshr e he,
      hreads r hr, hkeeps.aged hstart haged⟩
  · exact ⟨core₁, (getElem?_set_ne (Ne.symm hij)).trans hcore₁, he, hreads r hr, hkeeps⟩

theorem offered (h : p.Waits cfg i start e r past)
    (hoffered : Offered p.uncore due u') : Waits cfg i start e r past ⟨p.cores, u'⟩ := by
  obtain ⟨more, hmore, h⟩ := h
  refine ⟨more, hoffered.returned.trans hmore, h.imp id ?_⟩
  rintro ⟨core, hcore, he, hr, hkeeps⟩
  exact ⟨core, hcore, he, hoffered.reads.mem_iff.mpr hr, hkeeps⟩

/-- The memory returns the read of the miss, or others. -/
theorem returned (h : p.Waits cfg i start e r past)
    (hreturned : Returned p.uncore done u') : Waits cfg i start e r past ⟨p.cores, u'⟩ := by
  obtain ⟨more, hmore, h⟩ := h
  refine ⟨more ++ done, ?_, ?_⟩
  · rw [hreturned.returned, hmore, append_assoc]
  · rcases h with h | ⟨core, hcore, he, hr, hkeeps⟩
    · exact Or.inl (mem_append_left _ h)
    · rcases mem_append.mp hr with hr | hr
      · refine Or.inr ⟨core, hcore, he, ?_, hkeeps⟩
        unfold outstanding
        rw [hreturned.cachesys]
        exact mem_append_left _ hr
      · rcases mem_append.mp (hreturned.inFlight.mem_iff.mpr hr) with hr | hr
        · exact Or.inl (mem_append_right _ hr)
        · exact Or.inr ⟨core, hcore, he, mem_append_right _ hr, hkeeps⟩

theorem called (hcaches : cfg.coreCaches = true) (hp : p.Sound cfg)
    (h : p.Waits cfg i start e r past)
    (hother : ∀ core, p.cores[i]? = some core → e ∈ core.l1.mshrEntries → r ∈ p.outstanding →
      ¬ SameBlock cfg e.1 req.addr)
    (hreceived : Received cfg p req p') : p'.Waits cfg i start e r past := by
  obtain ⟨more, hmore, h⟩ := h
  refine ⟨more, by rw [hreceived.memory]; exact hmore, h.imp id ?_⟩
  rintro ⟨core, hcore, he, hr, hkeeps⟩
  have hblock := hother core hcore he hr
  have hlt : i < p'.cores.length := by
    rw [hreceived.length]
    exact (List.getElem?_eq_some_iff.mp hcore).1
  have hcore' : p'.cores[i]? = some p'.cores[i] := getElem?_eq_getElem hlt
  obtain ⟨core₁, hcore₁, -, hcalled, hretired, hentries⟩ := hreceived.ok hcaches hp hcore'
  rw [hcore] at hcore₁
  cases hcore₁
  refine ⟨p'.cores[i], hcore', ?_, ?_, ?_⟩
  · have hblocks := (hp.cores i core hcore).l1.blocks
    generalize p'.cores[i].l1 = l1' at hcalled
    cases hcalled with
    | none => exact he
    | unlocked hentry _ =>
      have hleft := (Keyed.mem_eraseP_iff hblocks).mpr ⟨he, hblock⟩
      exact hleft
  · unfold outstanding
    rw [hreceived.cachesys, hreceived.memory]
    exact hr
  · intro n a hn hablock
    obtain ⟨n', hn', hentry⟩ := hkeeps n a hn hablock
    refine ⟨n', by rw [hretired]; exact hn', ?_⟩
    rw [hentries, getElem?_map, hentry, Option.map_some]
    have hunmarked : decide (req.coreid = i ∧ SameBlock cfg a req.addr) = false :=
      decide_eq_false (fun hboth => hblock (hablock.symm.trans hboth.2))
    rw [hunmarked, Bool.or_false]

end Processor.Waits

/-! ## Runs -/

/-- The reads whose callbacks are still to be run, out of those of a cycle. -/
def Source.pending : Source → List Request → List Request
  | .hitList, _ => []
  | .memory, rs => rs

section

variable (hcaches : cfg.coreCaches = true)
include hcaches

theorem Processor.Balanced.callback (hp : p.Sound cfg) {src : Source} {rs : List Request}
    (h : p.Balanced cfg (src.pending (req :: rs))) (htimely : Timely cfg src p req)
    (hreceived : Received cfg p req p') : p'.Balanced cfg (src.pending rs) := by
  cases src with
  | memory => exact h.called hcaches hp htimely hreceived
  | hitList =>
    intro i core' hcore'
    obtain ⟨core, hcore, hl1⟩ := htimely.called_hit hcaches hp hreceived hcore'
    unfold outstanding
    rw [hreceived.cachesys, hreceived.memory]
    exact (h i core hcore).congr (by rw [hl1])

/-- In a timely run there is one outstanding read for each miss. -/
theorem balanced_rule : CycleRule cfg (Timely cfg) (Processor.Balanced cfg [])
      (fun src rs => Processor.Balanced cfg (src.pending rs)) where
  moved hp h hcore hmoved _ := h.moved hp hcore hmoved
  hits _ h hoffered := h.offered hoffered
  returns _ h hreturned := h.returned hreturned
  callback hp h htimely hreceived := h.callback hcaches hp htimely hreceived
  done {src} _ h := by
    cases src with
    | hitList => exact h
    | memory => exact h

theorem waits_rule (hid : r.coreid = i) (hblock : SameBlock cfg e.1 r.addr)
    (hstart : cfg.cpuType ≠ .outOrder → start.window.entries = []) : CycleRule cfg (Timely cfg)
      (fun p => p.Balanced cfg [] ∧ p.Waits cfg i start e r past)
      (fun src rs p => p.Balanced cfg (src.pending rs) ∧ p.Waits cfg i start e r past) where
  moved hp h hcore hmoved _ := ⟨h.1.moved hp hcore hmoved, h.2.moved hstart hcore hmoved⟩
  hits _ h hoffered := ⟨h.1.offered hoffered, h.2.offered hoffered⟩
  returns _ h hreturned := ⟨h.1.returned hreturned, h.2.returned hreturned⟩
  callback := by
    intro src req rs p p' hp h htimely hreceived
    refine ⟨h.1.callback hcaches hp htimely hreceived, h.2.called hcaches hp ?_ hreceived⟩
    -- a second read for the block would come back from the memory
    intro core hcore he hr hsame
    obtain ⟨rfl, hreqid⟩ := htimely.of_miss hcore he hsame
    have hbalanced := (h.1 i core hcore).perm perm_middle.symm
    exact hbalanced.unique hreqid he hsame (mem_append_left _ hr) hid hblock
  done {src} _ h := by
    cases src with
    | hitList => exact h
    | memory => exact h

end

theorem Processor.runMeets_append {T : Source → Processor FreeMemory → Request → Prop}
    {before after : List Cycle} (h : p.RunMeets cfg o T (before ++ after))
    (hp' : before.foldlM (Processor.cycle cfg o.base) p = .ok p') :
    p.RunMeets cfg o T before ∧ p'.RunMeets cfg o T after := by
  induction before generalizing p with
  | nil =>
    cases hp'
    exact ⟨trivial, h⟩
  | cons c cs ih =>
    obtain ⟨hc, hcs⟩ := h
    rw [foldlM_cons] at hp'
    obtain ⟨p₁, hp₁, hrest⟩ := bind_ok.mp hp'
    obtain ⟨hbefore, hafter⟩ := ih (hcs.result hp₁) hrest
    refine ⟨⟨hc, ?_⟩, hafter⟩
    rw [hp₁]
    exact hbefore

/-- At the end of the constructor there are no misses and no reads. -/
theorem new_balanced {workloads : List Workload}
    (hnew : Processor.new o.base {} workloads = .ok p) : p.Sound cfg ∧ p.Balanced cfg [] := by
  have hinit : Yields (Processor.new o.base {} workloads)
      (fun p => p.Sound cfg ∧ p.outstanding = [] ∧ p.Balanced cfg []) := by
    apply Processor.new_ends
    · exact ⟨rfl, fun i core hi => by cases hi⟩
    · rintro p core calls ⟨hnone, h⟩ hl1 hwindow
      refine ⟨hnone, Processor.forall_append h ⟨fun e he => ?_, fun r hr => ?_⟩⟩
      · rw [hl1] at he
        cases he
      · have hr : r ∈ p.outstanding ++ [] := hr
        rw [hnone] at hr
        cases hr
  obtain ⟨hsound, -, hbalanced⟩ := hinit.result hnew
  exact ⟨hsound, hbalanced⟩

/-- **Misses wait for the memory.**  Take a line that is locked in the L1 of
    core `i` at some time of a timely run.  There is then one outstanding read
    of the core for its block, and at any later time either the memory has
    returned that read, or the line is still locked and the instructions of the
    core that waited for the block still wait. -/
theorem misses_wait (hcaches : cfg.coreCaches = true) (o : Oracle) {workloads : List Workload}
    {before after : List Cycle} (htimely : TimelyRun cfg o workloads (before ++ after))
    (hp : Processor.run cfg o.base {} workloads before = .ok p)
    (hp' : Processor.run cfg o.base {} workloads (before ++ after) = .ok p')
    (hcore : p.cores[i]? = some core) {k : Int} {line : Line}
    (hline : line ∈ core.l1.cacheLines k) (hlock : line.lock = true) :
    ∃ r more, p.outstanding.filter (Request.isFor cfg i line.addr) = [r] ∧
      p'.uncore.memory.returned = p.uncore.memory.returned ++ more ∧
      (r ∈ more ∨ ∃ core', p'.cores[i]? = some core' ∧
        (∃ line' ∈ core'.l1.cacheLines k, line'.node = line.node ∧ line'.lock = true) ∧
        core.KeepsWaiting cfg line.addr core') := by
  obtain ⟨p₀, hnew, hbefore⟩ := bind_ok.mp hp
  obtain ⟨p₁, hnew', hall⟩ := bind_ok.mp hp'
  rw [hnew] at hnew'
  cases hnew'
  rw [foldlM_append] at hall
  obtain ⟨p₁, hbefore', hafter⟩ := bind_ok.mp hall
  rw [hbefore] at hbefore'
  cases hbefore'
  obtain ⟨hmeets, hmeets'⟩ := Processor.runMeets_append (htimely.result hnew) hbefore
  -- at the time of the miss
  obtain ⟨hsound₀, hbalanced₀⟩ := new_balanced hnew
  obtain ⟨hsound, hbalanced⟩ := ((balanced_rule hcaches).cycles_ends hcaches before hsound₀
    hbalanced₀ hmeets).result hbefore
  have hok := hsound.cores i core hcore
  obtain ⟨e, he, hiter, hblock⟩ := hok.l1.entry_of_locked hline hlock
  have hfor : Request.isFor cfg i line.addr = Request.isFor cfg i e.1 := by
    funext r
    apply decide_eq_decide.mpr
    exact and_congr_right (fun _ => ⟨hblock.trans, hblock.symm.trans⟩)
  have hone := (hbalanced i core hcore).one e he
  rw [append_nil, countP_eq_length_filter] at hone
  obtain ⟨r, hr⟩ := length_eq_one_iff.mp hone
  have hmem : r ∈ p.outstanding.filter (Request.isFor cfg i e.1) := mem_of_eq_cons hr
  obtain ⟨hout, hisfor⟩ := mem_filter.mp hmem
  obtain ⟨hid, hrblock⟩ := Request.isFor_iff.mp hisfor
  -- from there on
  have hwaits : p.Waits cfg i core e r p.uncore.memory.returned :=
    ⟨[], (append_nil _).symm, Or.inr ⟨core, hcore, he, hout, fun n a hn _ => ⟨n, rfl, hn⟩⟩⟩
  obtain ⟨hsound', -, more, hmore, hend⟩ :=
    ((waits_rule hcaches hid hrblock hok.inOrder).cycles_ends hcaches after hsound
      ⟨hbalanced, hwaits⟩ hmeets').result hafter
  refine ⟨r, more, by rw [hfor]; exact hr, hmore, hend.imp id ?_⟩
  rintro ⟨core', hcore', he', -, hkeeps⟩
  obtain ⟨line', hline', hnode, hlock', -⟩ := (hsound'.cores i core' hcore').l1.mshr e he'
  rw [hiter] at hline' hnode
  refine ⟨core', hcore', ⟨line', hline', hnode, hlock'⟩, ?_⟩
  intro n a hn hsame
  exact hkeeps n a hn (hsame.trans hblock.symm)

/-- Reads of one core, the first of which misses. -/
def oneMiss : List Workload := [{ rqstQueue := [⟨0, 0, .read⟩, ⟨0, 8, .read⟩] }]

/-- The miss of a core that is alone waits while the memory has not returned its
    read. -/
theorem misses_wait_alone :
    ∃ p p' core core', Processor.run { coreCaches := true } (Oracle.eager []).base {} oneMiss
        [.cpu, .cpu] = .ok p ∧
      Processor.run { coreCaches := true } (Oracle.eager []).base {} oneMiss
        ([.cpu, .cpu] ++ [.cpu, .cpu, .cpu, .mem]) = .ok p' ∧
      p.cores[0]? = some core ∧ p'.cores[0]? = some core' ∧
      core.window.entries = [(false, 0), (false, 8)] ∧
      core.KeepsWaiting { coreCaches := true } 0 core' := by
  have heval : (Processor.run { coreCaches := true } (Oracle.eager []).base {} oneMiss
      [.cpu, .cpu]).toOption.map (fun p => p.cores.map fun core =>
        ((core.l1.cacheLines 0).map fun line => (line.addr, line.lock), core.window.entries)) =
      some [([(0, true)], [(false, 0), (false, 8)])] := by decide +kernel
  have heval' : (Processor.run { coreCaches := true } (Oracle.eager []).base {} oneMiss
      ([.cpu, .cpu] ++ [.cpu, .cpu, .cpu, .mem])).toOption.map
      (fun p => p.uncore.memory.returned.length) = some 0 := by decide +kernel
  obtain ⟨p, hp, hcores⟩ := exists_ok_of_map heval
  obtain ⟨p', hp', hreturned⟩ := exists_ok_of_map heval'
  obtain ⟨core, hcore, hfields⟩ : ∃ core, p.cores[0]? = some core ∧
      ((core.l1.cacheLines 0).map fun line => (line.addr, line.lock), core.window.entries) =
        ([(0, true)], [(false, 0), (false, 8)]) := by
    have hfirst := congrArg (·[0]?) hcores
    rw [getElem?_map] at hfirst
    exact Option.map_eq_some_iff.mp hfirst
  obtain ⟨hlines, hentries⟩ := Prod.mk.inj hfields
  obtain ⟨line, hline, haddr⟩ : ∃ line ∈ core.l1.cacheLines 0, (line.addr, line.lock) = (0, true) :=
    exists_of_map_eq_cons hlines
  obtain ⟨haddr, hlock⟩ := Prod.mk.inj haddr
  have htimely : TimelyRun { coreCaches := true } (Oracle.eager []) oneMiss
      ([.cpu, .cpu] ++ [.cpu, .cpu, .cpu, .mem]) := by decide +kernel
  obtain ⟨r, more, -, hmore, hend⟩ :=
    misses_wait rfl (Oracle.eager []) htimely hp hp' hcore hline hlock
  have hnone : more = [] := by
    have hlength := congrArg List.length hmore
    rw [hreturned, length_append] at hlength
    exact eq_nil_of_length_eq_zero (by omega)
  rw [hnone] at hend
  rcases hend with hr | ⟨core', hcore', -, hkeeps⟩
  · cases hr
  · rw [haddr] at hkeeps
    exact ⟨p, p', core, core', hp, hp', hcore, hcore', hentries, hkeeps⟩

/-- Two cores read the same block, and the first one reads it again. -/
def sharedBlock : List Workload :=
  [{ rqstQueue := [⟨0, 0, .read⟩, ⟨32, 0, .read⟩] },
   { rqstQueue := [⟨28, 0, .read⟩, ⟨24, 8, .read⟩] }]

/-- The cycles up to some time; the memory returns the read of the first core. -/
def sharedCycles (n : Nat) : List Cycle :=
  replicate 6 .cpu ++ [.mem] ++ replicate n .cpu

/-- Of core 1: whether its lines of set 0 are locked and its reads in the window ready. -/
def sharedView (p : Processor FreeMemory) : Option (List Bool × List (Bool × Int)) :=
  (p.cores[1]?).map fun core => ((core.l1.cacheLines 0).map (·.lock),
    core.window.entries.filter fun e => decide (0 ≤ e.2))

/-- A hit of core 0 unlocks the line that core 1 has missed, and the next hit of
    core 1 wakes the instruction that waits for it.  The memory has returned
    nothing but the first read of core 0, and the read of core 1 is still
    outstanding. -/
theorem hit_ends_other_miss :
    ∃ p p', Processor.run { coreCaches := true } (Oracle.eager [0, 1, 2]).base {} sharedBlock
        (sharedCycles 4) = .ok p ∧
      Processor.run { coreCaches := true } (Oracle.eager [0, 1, 2]).base {} sharedBlock
        (sharedCycles 13) = .ok p' ∧ sharedView p = some ([true], [(false, 0)]) ∧
      p.uncore.memory.returned.map (·.coreid) = [0] ∧ sharedView p' = some ([false], [(true, 8)]) ∧
      p'.uncore.memory.returned.map (·.coreid) = [0] ∧ p'.outstanding.map (·.coreid) = [1] := by
  have heval : (Processor.run { coreCaches := true } (Oracle.eager [0, 1, 2]).base {} sharedBlock
      (sharedCycles 4)).toOption.map
      (fun p => (sharedView p, p.uncore.memory.returned.map (·.coreid))) =
      some (some ([true], [(false, 0)]), [0]) := by decide +kernel
  have heval' : (Processor.run { coreCaches := true } (Oracle.eager [0, 1, 2]).base {} sharedBlock
      (sharedCycles 13)).toOption.map
      (fun p => (sharedView p, p.uncore.memory.returned.map (·.coreid),
        p.outstanding.map (·.coreid))) = some (some ([false], [(true, 8)]), [0], [1]) := by
    decide +kernel
  obtain ⟨p, hp, heq⟩ := exists_ok_of_map heval
  obtain ⟨p', hp', heq'⟩ := exists_ok_of_map heval'
  obtain ⟨hview, hreturned⟩ := Prod.mk.inj heq
  obtain ⟨hview', hrest⟩ := Prod.mk.inj heq'
  obtain ⟨hreturned', hout⟩ := Prod.mk.inj hrest
  exact ⟨p, p', hp, hp', hview, hreturned, hview', hreturned', hout⟩

end Ramulator
