/-
  Ramulator.PrivateL1.Steps

  Processors whose cores have private L1s, on a memory that may do anything a
  memory may do.

  The memory decides by an oracle which requests it takes and which of the
  reads it has taken it returns next (`Oracle.base`); it returns a read as it
  was sent, and once.  A step of a core then is of one of two kinds
  (`Core.Moved`): its window goes on, or it sends a request to its L1, which
  may put it into the window.  An invariant of such a processor is given by
  what it needs of these steps and of the callbacks (`Rule`), and is true in
  every run (`Rule.run_ends`).
-/

import Mathlib.Data.List.Perm.Basic
import Ramulator.Cache.Invariant
import Ramulator.Runs

namespace Ramulator

open Outcome List

/-! ## A memory of which only the interface is known -/

/-- The decisions of a memory, by the number of calls it has had. -/
structure Oracle where
  accepts : Nat → Request → Bool
  translates : Nat → Int → Int → Int
  /-- The positions of the reads it returns, one after the other. -/
  returns : Nat → List Nat

/-- The reads the memory has taken, and what it has returned of them. -/
structure FreeMemory where
  calls : Nat := 0
  inFlight : List Request := []
  returned : List Request := []

def takeReads : List Nat → List Request → List Request × List Request
  | [], reads => ([], reads)
  | i :: is, reads =>
    match reads[i]? with
    | none => takeReads is reads
    | some r => (r :: (takeReads is (reads.eraseIdx i)).1, (takeReads is (reads.eraseIdx i)).2)

def Oracle.base (o : Oracle) : MemoryBase FreeMemory where
  send m req := pure (o.accepts m.calls req, { m with
    calls := m.calls + 1
    inFlight := if o.accepts m.calls req && decide (req.type = .read) then m.inFlight ++ [req]
      else m.inFlight })
  pageAllocator m addr coreid :=
    pure (o.translates m.calls addr coreid, { m with calls := m.calls + 1 })
  tick m := pure ((takeReads (o.returns m.calls) m.inFlight).1, {
    calls := m.calls + 1
    inFlight := (takeReads (o.returns m.calls) m.inFlight).2
    returned := m.returned ++ (takeReads (o.returns m.calls) m.inFlight).1 })
  pendingRequests m := m.inFlight.length

/-- A memory that takes every request, translates nothing and returns the first
    of its reads in the calls of a list. -/
def Oracle.eager (returning : List Nat) : Oracle where
  accepts _ _ := true
  translates _ addr _ := addr
  returns n := if n ∈ returning then [0] else []

/-- What is returned and what is left is what was there. -/
theorem takeReads_perm (is : List Nat) (reads : List Request) :
    ((takeReads is reads).1 ++ (takeReads is reads).2).Perm reads := by
  induction is generalizing reads with
  | nil => exact List.Perm.refl reads
  | cons i is ih =>
    unfold takeReads
    split
    · exact ih reads
    · next r hr =>
      obtain ⟨hlt, hget⟩ := List.getElem?_eq_some_iff.mp hr
      have hperm := getElem_cons_eraseIdx_perm hlt
      rw [hget] at hperm
      exact ((ih _).cons r).trans hperm

def CacheSystem.waitingReads (waitList : List (Int × Request)) : List Request :=
  (waitList.map (·.2)).filter fun req => decide (req.type = .read)

/-- The reads that the caches wait for: on the way to the memory, or in it. -/
def Processor.outstanding (p : Processor FreeMemory) : List Request :=
  CacheSystem.waitingReads p.uncore.cachesys.waitList ++ p.uncore.memory.inFlight

namespace CacheSystem

theorem waitingReads_append (xs ys : List (Int × Request)) :
    waitingReads (xs ++ ys) = waitingReads xs ++ waitingReads ys := by
  unfold waitingReads
  rw [map_append, filter_append]

/-- The first loop of `tick`: a read is taken by the memory, or waits on. -/
theorem sendWaiting_reads (o : Oracle) (clk : Int) (waitList : List (Int × Request))
    (m : FreeMemory) : Ends (sendWaiting o.base.send clk waitList m) (fun out =>
        (waitingReads out.1 ++ out.2.inFlight).Perm (waitingReads waitList ++ m.inFlight) ∧
        out.2.returned = m.returned) (fun _ => False) := by
  induction waitList generalizing m with
  | nil => exact ⟨List.Perm.refl _, rfl⟩
  | cons x rest ih =>
    obtain ⟨time, req⟩ := x
    unfold sendWaiting
    apply Ends.ite
    · intro _
      obtain ⟨accepted, m₁, hsend, hreturned, hreads⟩ : ∃ accepted m₁,
          o.base.send m req = .ok (accepted, m₁) ∧ m₁.returned = m.returned ∧
          (waitingReads (if accepted then [] else [(time, req)]) ++ m₁.inFlight).Perm
            (waitingReads [(time, req)] ++ m.inFlight) := by
        refine ⟨_, _, rfl, rfl, ?_⟩
        cases o.accepts m.calls req with
        | false => exact List.Perm.refl _
        | true =>
          by_cases hread : req.type = .read
          · simp [waitingReads, hread]
          · simp [waitingReads, hread]
      apply Ends.bind (Q := fun out => out = (accepted, m₁))
      · rw [hsend]
        exact Ends.pure rfl
      · rintro _ rfl
        apply Ends.bind (ih m₁)
        rintro ⟨waiting, m₂⟩ ⟨hperm, hreturned₂⟩
        refine Ends.pure ⟨?_, hreturned₂.trans hreturned⟩
        have hsplit : waitingReads (if accepted then waiting else (time, req) :: waiting) =
            waitingReads (if accepted then [] else [(time, req)]) ++ waitingReads waiting := by
          cases accepted with
          | true => rfl
          | false => exact waitingReads_append [(time, req)] waiting
        have hcons : waitingReads ((time, req) :: rest) =
            waitingReads [(time, req)] ++ waitingReads rest :=
          waitingReads_append [(time, req)] rest
        show (waitingReads (if accepted then waiting else (time, req) :: waiting) ++
          m₂.inFlight).Perm _
        rw [hsplit, hcons, append_assoc, append_assoc]
        calc waitingReads (if accepted then [] else [(time, req)]) ++
              (waitingReads waiting ++ m₂.inFlight)
            _ |>.Perm (waitingReads (if accepted then [] else [(time, req)]) ++
              (waitingReads rest ++ m₁.inFlight)) := hperm.append_left _
            _ |>.Perm (waitingReads rest ++
              (waitingReads (if accepted then [] else [(time, req)]) ++ m₁.inFlight)) :=
              perm_append_comm_assoc _ _ _
            _ |>.Perm (waitingReads rest ++ (waitingReads [(time, req)] ++ m.inFlight)) :=
              hreads.append_left _
            _ |>.Perm (waitingReads [(time, req)] ++ (waitingReads rest ++ m.inFlight)) :=
              perm_append_comm_assoc _ _ _
    · intro _
      exact ⟨List.Perm.refl _, rfl⟩

end CacheSystem

/-! ## The steps of a core -/

variable {cfg : ProcessorConfig} {o : Oracle} {core core' : Core} {u u' : Uncore FreeMemory}
  {i : Nat} {req : Request}

theorem ProcessorConfig.l1_proper (cfg : ProcessorConfig) : cfg.l1.Proper :=
  ⟨rfl, 3, 6, 15, rfl, rfl, rfl, by omega, by omega⟩

namespace Core

structure Ok (cfg : ProcessorConfig) (i : Nat) (core : Core) : Prop where
  id : core.id = i
  window : core.window.WF
  l1 : Cache.Inv cfg.l1 core.l1
  /-- Only `tick_outOrder` uses the window. -/
  inOrder : cfg.cpuType ≠ .outOrder → core.window.entries = []

/-- The window goes on: the first `n` instructions, which are ready, retire,
    and `new` ones come in. -/
structure Aged (cfg : ProcessorConfig) (core core' : Core) (n : Nat) (new : List (Bool × Int)) :
    Prop where
  retired : cfg.cpuType = .outOrder → core'.retired = core.retired + n
  ready : ∀ e ∈ core.window.entries.take n, e.1 = true
  entries : core'.window.entries = core.window.entries.drop n ++ new

inductive Moved (cfg : ProcessorConfig) (core : Core) (u : Uncore FreeMemory) :
    Core → Uncore FreeMemory → Prop
  | own {core' : Core} {n calls : Nat} {new : List (Bool × Int)} (hid : core'.id = core.id)
      (hl1 : core'.l1 = core.l1) (haged : Aged cfg core core' n new)
      (hnew : ∀ e ∈ new, e.1 = true) :
      Moved cfg core u core' { u with memory := { u.memory with calls } }
  /-- A request is sent; if it is an accepted read, it may go into the window. -/
  | sent {core' : Core} {req : Request} {accepted : Bool} {cachesys : CacheSystem}
      {new : List (Bool × Int)} (hid : core'.id = core.id)
      (hsent : Cache.Sent cfg.l1 core.l1 u.cachesys req accepted core'.l1 cachesys)
      (hcoreid : req.coreid = core.id) (hback : req.callback = .processorReceive)
      (haged : Aged cfg core core' 0 new)
      (hnew : new = [] ∨ (accepted = true ∧ new = [(false, req.addr)])) :
      Moved cfg core u core' { u with cachesys }

theorem Moved.stay {n : Nat} {new : List (Bool × Int)} (hid : core'.id = core.id)
    (hl1 : core'.l1 = core.l1) (haged : Aged cfg core core' n new)
    (hnew : ∀ e ∈ new, e.1 = true) : Moved cfg core u core' u := by
  have hmoved : Moved cfg core u core'
      { u with memory := { u.memory with calls := u.memory.calls } } := .own hid hl1 haged hnew
  exact hmoved

theorem Aged.refl (hretired : cfg.cpuType = .outOrder → core'.retired = core.retired)
    (hwindow : core'.window = core.window) : Aged cfg core core' 0 [] := by
  refine ⟨fun hout => ?_, fun e he => ?_, ?_⟩
  · rw [hretired hout, Nat.cast_zero, add_zero]
  · rw [take_zero] at he
    cases he
  · rw [hwindow, drop_zero, append_nil]

theorem Aged.insert {new : Bool × Int} (hretired : core'.retired = core.retired)
    (hentries : core'.window.entries = core.window.entries ++ [new]) :
    Aged cfg core core' 0 [new] := by
  refine ⟨fun _ => ?_, fun e he => ?_, ?_⟩
  · rw [hretired, Nat.cast_zero, add_zero]
  · rw [take_zero] at he
    cases he
  · rw [hentries, drop_zero]

theorem send_l1 {accepted : Bool} (hcaches : cfg.coreCaches = true)
    (h : core.send cfg o.base u req = .ok (accepted, core', u')) :
    ∃ l1 cachesys, core.l1.send cfg.l1 u.cachesys req = .ok (accepted, l1, cachesys) ∧
      core' = { core with l1 } ∧ u' = { u with cachesys } := by
  unfold send at h
  rw [if_pos hcaches] at h
  obtain ⟨⟨accepted', l1, cachesys⟩, hsend, heq⟩ := bind_ok.mp h
  cases heq
  exact ⟨l1, cachesys, hsend, rfl, rfl⟩

theorem Ok.send {accepted : Bool} (hcaches : cfg.coreCaches = true) (h : core.Ok cfg i)
    (hcoreid : req.coreid = core.id) (hback : req.callback = .processorReceive)
    (hsend : core.send cfg o.base u req = .ok (accepted, core', u')) :
    Moved cfg core u core' u' ∧ core'.Ok cfg i := by
  obtain ⟨l1, cachesys, hsent, rfl, rfl⟩ := send_l1 hcaches hsend
  obtain ⟨hsent, hinv⟩ := (h.l1.send_ends cfg.l1_proper u.cachesys req).result hsent
  exact ⟨.sent rfl hsent hcoreid hback (Aged.refl (fun _ => rfl) rfl) (Or.inl rfl),
    ⟨h.id, h.window, hinv, h.inOrder⟩⟩

theorem Ok.idle (h : core.Ok cfg i) (hid : core'.id = core.id) (hl1 : core'.l1 = core.l1)
    (hwindow : core'.window = core.window)
    (hretired : cfg.cpuType = .outOrder → core'.retired = core.retired) (calls : Nat) :
    Moved cfg core u core' { u with memory := { u.memory with calls } } ∧ core'.Ok cfg i := by
  refine ⟨.own hid hl1 (Aged.refl hretired hwindow) (fun e he => by cases he), ?_⟩
  refine ⟨hid.trans h.id, ?_, ?_, ?_⟩
  · rw [hwindow]
    exact h.window
  · rw [hl1]
    exact h.l1
  · rw [hwindow]
    exact h.inOrder

theorem nextSplit_frame (h : core.nextSplit o.base u = .ok (core', u')) :
    core'.id = core.id ∧ core'.l1 = core.l1 ∧ core'.window = core.window ∧
      core'.retired = core.retired ∧
      u' = { u with memory := { u.memory with calls := u.memory.calls + 1 } } := by
  obtain ⟨⟨addr, m⟩, halloc, heq⟩ := bind_ok.mp h
  cases halloc
  cases heq
  have hmoved := getZsimRequest_movedOn core
  exact ⟨hmoved.id, hmoved.l1, hmoved.window, hmoved.retired, rfl⟩

theorem Ok.step (hcaches : cfg.coreCaches = true) (h : core.Ok cfg i)
    (hstep : core.Step cfg o.base u core' u') : Moved cfg core u core' u' ∧ core'.Ok cfg i := by
  cases hstep with
  | count clk retired inFlight lock limit bubbles inst idle hretired =>
    have hok : Core.Ok cfg i { core with
        clk, retired, inFlightMemoryAccess := inFlight, lockCore := lock, reachedLimit := limit
        bubbleCnt := bubbles, cpuInst := inst, idleCycles := idle } :=
      ⟨h.id, h.window, h.l1, h.inOrder⟩
    exact ⟨.stay rfl rfl (Aged.refl hretired rfl) (fun e he => by cases he), hok⟩
  | @retire n window hretire =>
    obtain ⟨hwf, hentries, hready⟩ := (Window.retire_ends h.window).result hretire
    have haged : Aged cfg core { core with window, retired := core.retired + n } n [] :=
      ⟨fun _ => rfl, hready, by rw [append_nil]; exact hentries⟩
    refine ⟨.stay rfl rfl haged (fun e he => by cases he), ?_⟩
    refine ⟨h.id, hwf, h.l1, fun hin => ?_⟩
    show window.entries = []
    rw [hentries, h.inOrder hin, drop_nil]
  | @bubble window hout hroom hinsert =>
    obtain ⟨hwf, hentries⟩ := insert_entries h.window hroom hinsert
    have haged : Aged cfg core { core with window } 0 [(true, -1)] := Aged.insert rfl hentries
    refine ⟨.stay rfl rfl haged ?_, ?_⟩
    · intro e he
      rw [mem_singleton.mp he]
    · exact ⟨h.id, hwf, h.l1, fun hin => absurd hout hin⟩
  | @read core₁ u₁ window hout hbusy htype hroom hsend hinsert =>
    obtain ⟨l1, cachesys, hsent, rfl, rfl⟩ := send_l1 hcaches hsend
    obtain ⟨hsent, hinv⟩ := (h.l1.send_ends cfg.l1_proper u.cachesys _).result hsent
    obtain ⟨hwf, hentries⟩ := insert_entries h.window hroom hinsert
    exact ⟨.sent rfl hsent rfl rfl (Aged.insert rfl hentries) (Or.inr ⟨rfl, rfl⟩),
      ⟨h.id, hwf, hinv, fun hin => absurd hout hin⟩⟩
  | refused hbusy htype hsend => exact h.send hcaches rfl rfl hsend
  | write hbusy htype hsend => exact h.send hcaches rfl rfl hsend
  | instruction hbusy htype hsend => exact h.send hcaches rfl rfl hsend
  | pop =>
    have hmoved := popQueue_movedOn core
    exact h.idle hmoved.id hmoved.l1 hmoved.window (fun _ => hmoved.retired) u.memory.calls
  | split hsplit hnext =>
    obtain ⟨hid, hl1, hwindow, hretired, rfl⟩ := nextSplit_frame hnext
    exact h.idle hid hl1 hwindow (fun _ => hretired) _

end Core

/-! ## Callbacks -/

/-- Who runs a callback. -/
inductive Source where
  | hitList | memory
deriving DecidableEq, Repr

/-- What every run keeps: the cores are in order, and the callback of all that
    comes back is `Processor::receive`. -/
structure Processor.Sound (cfg : ProcessorConfig) (p : Processor FreeMemory) : Prop where
  cores : ∀ (i : Nat) core, p.cores[i]? = some core → core.Ok cfg i
  hits : ∀ x ∈ p.uncore.cachesys.hitList, x.2.callback = .processorReceive
  reads : ∀ r ∈ p.outstanding, r.type = .read ∧ r.callback = .processorReceive

/-- The first half of `CacheSystem::tick`; the hits that are `due` have left `hit_list`. -/
structure Offered (u : Uncore FreeMemory) (due : List Request) (u' : Uncore FreeMemory) :
    Prop where
  reads : (CacheSystem.waitingReads u'.cachesys.waitList ++ u'.memory.inFlight).Perm
    (CacheSystem.waitingReads u.cachesys.waitList ++ u.memory.inFlight)
  returned : u'.memory.returned = u.memory.returned
  hits : (u.cachesys.hitList.map (·.2)).Perm (due ++ u'.cachesys.hitList.map (·.2))

structure Returned (u : Uncore FreeMemory) (done : List Request) (u' : Uncore FreeMemory) :
    Prop where
  cachesys : u'.cachesys = u.cachesys
  inFlight : (done ++ u'.memory.inFlight).Perm u.memory.inFlight
  returned : u'.memory.returned = u.memory.returned ++ done

namespace Processor

/-- The processor when `CacheSystem::tick` gets to its second loop. -/
def offered (p : Processor FreeMemory) (waitList : List (Int × Request)) (memory : FreeMemory) :
    Processor FreeMemory :=
  let sys := { p.uncore.cachesys with clk := p.uncore.cachesys.clk + 1 }
  { p with uncore := { p.uncore with
      cachesys := { sys with waitList, hitList := sys.pendingHits }, memory } }

def nextHits (p : Processor FreeMemory) : List Request :=
  { p.uncore.cachesys with clk := p.uncore.cachesys.clk + 1 : CacheSystem }.dueHits

def CallbacksMeet (cfg : ProcessorConfig) (T : Source → Processor FreeMemory → Request → Prop)
    (src : Source) : List Request → Processor FreeMemory → Prop
  | [], _ => True
  | r :: rs, p =>
    T src p r ∧ Ends (p.runCallback cfg r) (CallbacksMeet cfg T src rs) (fun _ => True)

/-- The callbacks of a cycle meet a condition. -/
def CycleMeets (cfg : ProcessorConfig) (o : Oracle)
    (T : Source → Processor FreeMemory → Request → Prop) (p : Processor FreeMemory) :
    Cycle → Prop
  | .cpu => Ends (CacheSystem.sendWaiting o.base.send (p.uncore.cachesys.clk + 1)
      p.uncore.cachesys.waitList p.uncore.memory)
      (fun out => CallbacksMeet cfg T .hitList p.nextHits (p.offered out.1 out.2)) (fun _ => True)
  | .mem => Ends (o.base.tick p.uncore.memory)
      (fun out => CallbacksMeet cfg T .memory out.1
        { p with uncore := { p.uncore with memory := out.2 } }) (fun _ => True)

/-- The callbacks of some cycles meet a condition. -/
def RunMeets (cfg : ProcessorConfig) (o : Oracle)
    (T : Source → Processor FreeMemory → Request → Prop) :
    List Cycle → Processor FreeMemory → Prop
  | [], _ => True
  | c :: cs, p =>
    CycleMeets cfg o T p c ∧ Ends (p.cycle cfg o.base c) (RunMeets cfg o T cs) (fun _ => True)

section Decidable

variable {T : Source → Processor FreeMemory → Request → Prop}
  [∀ src p r, Decidable (T src p r)]

instance decidableCallbacksMeet (src : Source) :
    (rs : List Request) → DecidablePred (CallbacksMeet cfg T src rs)
  | [], _ => isTrue trivial
  | r :: rs, p =>
    have := decidableCallbacksMeet src rs
    inferInstanceAs (Decidable (T src p r ∧
      Ends (p.runCallback cfg r) (CallbacksMeet cfg T src rs) (fun _ => True)))

instance decidableCycleMeets (p : Processor FreeMemory) :
    (c : Cycle) → Decidable (CycleMeets cfg o T p c)
  | .cpu => inferInstanceAs (Decidable (Ends _ _ _))
  | .mem => inferInstanceAs (Decidable (Ends (o.base.tick p.uncore.memory)
      (fun out => CallbacksMeet cfg T .memory out.1
        { p with uncore := { p.uncore with memory := out.2 } }) (fun _ => True)))

instance decidableRunMeets : (cs : List Cycle) → DecidablePred (RunMeets cfg o T cs)
  | [], _ => isTrue trivial
  | c :: cs, p =>
    have := decidableRunMeets cs
    inferInstanceAs (Decidable (CycleMeets cfg o T p c ∧
      Ends (p.cycle cfg o.base c) (RunMeets cfg o T cs) (fun _ => True)))

end Decidable

theorem offered_of_sendWaiting {p : Processor FreeMemory} {waitList : List (Int × Request)}
    {memory : FreeMemory} (h : CacheSystem.sendWaiting o.base.send (p.uncore.cachesys.clk + 1)
      p.uncore.cachesys.waitList p.uncore.memory = .ok (waitList, memory)) :
    Offered p.uncore p.nextHits (p.offered waitList memory).uncore := by
  obtain ⟨hreads, hreturned⟩ := (CacheSystem.sendWaiting_reads o _ _ _).result h
  refine ⟨hreads, hreturned, ?_⟩
  have hperm := filter_append_perm
    (fun hit : Int × Request => decide (hit.1 ≤ p.uncore.cachesys.clk + 1))
    p.uncore.cachesys.hitList
  have hmap := (hperm.map (·.2)).symm
  rw [map_append] at hmap
  exact hmap

theorem returned_of_tick {p : Processor FreeMemory} {done : List Request} {memory : FreeMemory}
    (h : o.base.tick p.uncore.memory = .ok (done, memory)) :
    Returned p.uncore done { p.uncore with memory } := by
  cases h
  exact ⟨rfl, takeReads_perm _ _, rfl⟩

/-! ## What every run keeps -/

variable {p p' : Processor FreeMemory}

theorem waitingReads_missed (l1 : CacheConfig) (cachesys : CacheSystem) (victim : Option Line)
    (time : Int) (req : Request) :
    CacheSystem.waitingReads (cachesys.waitList ++ Cache.writtenBack l1 cachesys victim ++
        [(time, { req with type := .read })]) =
      CacheSystem.waitingReads cachesys.waitList ++ [{ req with type := .read }] := by
  have hnone : CacheSystem.waitingReads (Cache.writtenBack l1 cachesys victim) = [] := by
    cases victim with
    | none => rfl
    | some line =>
      show CacheSystem.waitingReads (if line.dirty then _ else []) = []
      split
      · rfl
      · rfl
  rw [CacheSystem.waitingReads_append, CacheSystem.waitingReads_append, hnone, append_nil]
  rfl

theorem outstanding_missed (p : Processor FreeMemory) (cores : List Core) (l1 : CacheConfig)
    (victim : Option Line) (time : Int) (req : Request) :
    (outstanding ⟨cores, { p.uncore with cachesys := { p.uncore.cachesys with
      waitList := p.uncore.cachesys.waitList ++ Cache.writtenBack l1 p.uncore.cachesys victim ++
        [(time, { req with type := .read })] } }⟩).Perm
      ({ req with type := .read } :: p.outstanding) := by
  unfold outstanding
  dsimp only
  rw [waitingReads_missed, append_assoc, singleton_append]
  exact perm_middle

theorem Sound.moved (h : p.Sound cfg) (hcore' : core'.Ok cfg i)
    (hmoved : core.Moved cfg p.uncore core' u') : Sound cfg ⟨p.cores.set i core', u'⟩ := by
  have hcores := forall_set h.cores hcore'
  cases hmoved with
  | own => exact ⟨hcores, h.hits, h.reads⟩
  | sent hid hsent hcoreid hback haged hnew =>
    generalize core'.l1 = l1' at hsent
    cases hsent with
    | hit hmem htag hlock =>
      refine ⟨hcores, fun x hx => ?_, h.reads⟩
      rcases mem_append.mp hx with hx | hx
      · exact h.hits x hx
      · rw [mem_singleton.mp hx]
        exact hback
    | merged => exact ⟨hcores, h.hits, h.reads⟩
    | refused => exact ⟨hcores, h.hits, h.reads⟩
    | missed hmiss hfresh hnum habsent hroom =>
      refine ⟨hcores, h.hits, fun r hr => ?_⟩
      rcases mem_cons.mp ((outstanding_missed p _ _ _ _ _).mem_iff.mp hr) with rfl | hr
      · exact ⟨rfl, hback⟩
      · exact h.reads r hr

theorem Sound.offered (h : p.Sound cfg) {due : List Request} (hoffered : Offered p.uncore due u') :
    Sound cfg ⟨p.cores, u'⟩ ∧ ∀ r ∈ due, r.callback = .processorReceive := by
  have hall : ∀ r ∈ due ++ u'.cachesys.hitList.map (·.2), r.callback = .processorReceive := by
    intro r hr
    obtain ⟨x, hx, rfl⟩ := mem_map.mp (hoffered.hits.mem_iff.mpr hr)
    exact h.hits x hx
  refine ⟨⟨h.cores, fun x hx => ?_, fun r hr => ?_⟩, fun r hr => ?_⟩
  · exact hall _ (mem_append_right _ (mem_map_of_mem hx))
  · exact h.reads r (hoffered.reads.mem_iff.mp hr)
  · exact hall r (mem_append_left _ hr)

theorem Sound.returned (h : p.Sound cfg) {done : List Request}
    (hreturned : Returned p.uncore done u') :
    Sound cfg ⟨p.cores, u'⟩ ∧ ∀ r ∈ done, r.callback = .processorReceive := by
  have hall : ∀ r ∈ done ++ u'.memory.inFlight,
      r.type = .read ∧ r.callback = .processorReceive := by
    intro r hr
    exact h.reads r (mem_append_right _ (hreturned.inFlight.mem_iff.mp hr))
  refine ⟨⟨h.cores, ?_, fun r hr => ?_⟩, fun r hr => ?_⟩
  · rw [hreturned.cachesys]
    exact h.hits
  · unfold outstanding at hr
    rw [hreturned.cachesys] at hr
    rcases mem_append.mp hr with hr | hr
    · exact h.reads r (mem_append_left _ hr)
    · exact hall r (mem_append_right _ hr)
  · exact (hall r (mem_append_left _ hr)).2

/-- A core after a callback: its L1 is called back, and if the request is its
    own, the window entries of the block are ready. -/
theorem Received.ok (hcaches : cfg.coreCaches = true) (h : p.Sound cfg)
    (hreceived : Received cfg p req p') (hcore' : p'.cores[i]? = some core') :
    ∃ core, p.cores[i]? = some core ∧ core'.Ok cfg i ∧
      Cache.Called cfg.l1 core.l1 req core'.l1 ∧ core'.retired = core.retired ∧
      core'.window.entries = core.window.entries.map fun e =>
        (e.1 || decide (req.coreid = i ∧ Core.SameBlock cfg e.2 req.addr), e.2) := by
  obtain ⟨core, core₁, hcore, ⟨l2, l1, rfl, hl1⟩, rfl⟩ := hreceived.cores i core' hcore'
  have hok := h.cores i core hcore
  rw [if_pos hcaches] at hl1
  obtain ⟨hcalled, hinv⟩ := (hok.l1.callback_ends req).result hl1
  refine ⟨core, hcore, ?_⟩
  by_cases hid : (i : Int) = req.coreid
  · rw [if_pos hid]
    obtain ⟨hwf, hentries⟩ := Window.setReady_entries hok.window req.addr (Core.blockMask cfg)
    have hframe : (Core.receive cfg { core with l2, l1 } req).id = core.id ∧
        (Core.receive cfg { core with l2, l1 } req).l1 = l1 ∧
        (Core.receive cfg { core with l2, l1 } req).retired = core.retired ∧
        (Core.receive cfg { core with l2, l1 } req).window =
          core.window.setReady req.addr (Core.blockMask cfg) := by
      unfold Core.receive
      dsimp only
      split
      · exact ⟨rfl, rfl, rfl, rfl⟩
      · exact ⟨rfl, rfl, rfl, rfl⟩
    obtain ⟨hid', hl1', hretired, hwindow⟩ := hframe
    rw [hl1', hretired, hwindow]
    refine ⟨⟨hid'.trans hok.id, ?_, ?_, ?_⟩, hcalled, rfl, ?_⟩
    · rw [hwindow]
      exact hwf
    · rw [hl1']
      exact hinv
    · intro hin
      rw [hwindow, hentries, hok.inOrder hin, map_nil]
    · rw [hentries]
      apply map_congr_left
      intro e _
      congr 2
      exact decide_eq_decide.mpr ⟨fun hblock => ⟨hid.symm, hblock⟩, fun hboth => hboth.2⟩
  · rw [if_neg hid]
    refine ⟨⟨hok.id, hok.window, hinv, hok.inOrder⟩, hcalled, rfl, ?_⟩
    have hne : ∀ a, decide (req.coreid = i ∧ Core.SameBlock cfg a req.addr) = false :=
      fun a => decide_eq_false (fun hboth => hid hboth.1.symm)
    simp only [hne, Bool.or_false]
    exact (map_id _).symm

theorem Sound.received (hcaches : cfg.coreCaches = true) (h : p.Sound cfg)
    (hreceived : Received cfg p req p') : p'.Sound cfg := by
  refine ⟨fun i core' hcore' => ?_, ?_, ?_⟩
  · obtain ⟨core, -, hok, -⟩ := hreceived.ok hcaches h hcore'
    exact hok
  · rw [hreceived.cachesys]
    exact h.hits
  · unfold outstanding
    rw [hreceived.cachesys, hreceived.memory]
    exact h.reads

end Processor

/-! ## The invariant rule -/

/-- What an invariant `I` needs of a cycle.  `J src rs` is true while the callbacks of `rs` are
    to be run, and each of them meets `T`. -/
structure CycleRule (cfg : ProcessorConfig) (T : Source → Processor FreeMemory → Request → Prop)
    (I : Processor FreeMemory → Prop) (J : Source → List Request → Processor FreeMemory → Prop) :
    Prop where
  moved : ∀ {p : Processor FreeMemory} {i : Nat} {core core' : Core} {u' : Uncore FreeMemory},
    p.Sound cfg → I p → p.cores[i]? = some core → core.Moved cfg p.uncore core' u' →
    core'.Ok cfg i → I ⟨p.cores.set i core', u'⟩
  hits : ∀ {p : Processor FreeMemory} {due : List Request} {u' : Uncore FreeMemory},
    p.Sound cfg → I p → Offered p.uncore due u' → J .hitList due ⟨p.cores, u'⟩
  returns : ∀ {p : Processor FreeMemory} {done : List Request} {u' : Uncore FreeMemory},
    p.Sound cfg → I p → Returned p.uncore done u' → J .memory done ⟨p.cores, u'⟩
  callback : ∀ {src : Source} {r : Request} {rs : List Request} {p p' : Processor FreeMemory},
    p.Sound cfg → J src (r :: rs) p → T src p r → Processor.Received cfg p r p' →
    J src rs p'
  done : ∀ {src : Source} {p : Processor FreeMemory}, J src [] p → I p

section Rule

variable {T : Source → Processor FreeMemory → Request → Prop} {I : Processor FreeMemory → Prop}
  {J : Source → List Request → Processor FreeMemory → Prop} {p : Processor FreeMemory}

namespace CycleRule

section

variable (hrule : CycleRule cfg T I J) (hcaches : cfg.coreCaches = true)
include hrule hcaches

theorem callbacks {src : Source} (rs : List Request)
    (hback : ∀ r ∈ rs, r.callback = .processorReceive) (hp : p.Sound cfg) (h : J src rs p)
    (hmeet : Processor.CallbacksMeet cfg T src rs p) :
    Yields (rs.foldlM (Processor.runCallback cfg) p) (fun p => p.Sound cfg ∧ I p) := by
  induction rs generalizing p with
  | nil => exact ⟨hp, hrule.done h⟩
  | cons r rs ih =>
    obtain ⟨hr, hrs⟩ := hmeet
    rw [foldlM_cons]
    apply Ends.bind (Q := fun p' => p.runCallback cfg r = .ok p') (Ends.ran _)
    intro p' hp'
    have hreceive : p.receive cfg r = .ok p' := by
      unfold Processor.runCallback at hp'
      rw [hback r mem_cons_self] at hp'
      exact hp'
    have hreceived := (Processor.receive_ends p r).result hreceive
    exact ih (fun r hr => hback r (mem_cons_of_mem _ hr)) (hp.received hcaches hreceived)
      (hrule.callback hp h hr hreceived) (hrs.result hp')

theorem kept : Processor.Kept cfg o.base (fun p => p.Sound cfg ∧ I p) := by
  rintro p i core core' u' ⟨hp, h⟩ hcore hstep
  obtain ⟨hmoved, hok⟩ := (hp.cores i core hcore).step hcaches hstep
  exact ⟨hp.moved hok hmoved, hrule.moved hp h hcore hmoved hok⟩

theorem cycle_ends (hp : p.Sound cfg) (h : I p) (c : Cycle) (hmeet : p.CycleMeets cfg o T c) :
    Yields (p.cycle cfg o.base c) (fun p => p.Sound cfg ∧ I p) := by
  cases c with
  | cpu =>
    show Ends (p.tick cfg o.base) _ _
    unfold Processor.tick
    apply Ends.bind (Q := fun p => p.Sound cfg ∧ I p)
    · unfold Processor.tickCaches
      rw [if_pos (by rw [hcaches]; rfl)]
      apply Ends.bind (Ends.ran _)
      rintro ⟨waitList, memory⟩ hsend
      have hoffered := Processor.offered_of_sendWaiting hsend
      obtain ⟨hp', hback⟩ := hp.offered hoffered
      exact hrule.callbacks hcaches _ hback hp' (hrule.hits hp h hoffered) (hmeet.result hsend)
    · rintro p₁ hp₁
      exact Processor.tickCores_ends (hrule.kept hcaches) hp₁ _
  | mem =>
    apply Ends.bind (Ends.ran _)
    rintro ⟨done, memory⟩ htick
    have hreturned := Processor.returned_of_tick htick
    obtain ⟨hp', hback⟩ := hp.returned hreturned
    cases htick
    exact hrule.callbacks hcaches _ hback hp' (hrule.returns hp h hreturned) hmeet

theorem cycles_ends (cs : List Cycle) (hp : p.Sound cfg) (h : I p) (hmeet : p.RunMeets cfg o T cs) :
    Yields (cs.foldlM (Processor.cycle cfg o.base) p) (fun p => p.Sound cfg ∧ I p) := by
  induction cs generalizing p with
  | nil => exact ⟨hp, h⟩
  | cons c cs ih =>
    obtain ⟨hc, hcs⟩ := hmeet
    rw [foldlM_cons]
    apply Ends.bind (Q := fun p' => p.cycle cfg o.base c = .ok p' ∧ p'.Sound cfg ∧ I p')
    · exact (hrule.cycle_ends hcaches hp h c hc).remember
    · rintro p' ⟨hok, hp', h'⟩
      exact ih hp' h' (hcs.result hok)

end

end CycleRule

theorem Processor.new_ends (o : Oracle) (workloads : List Workload)
    (hstart : I ⟨[], { memory := {} }⟩)
    (hadd : ∀ {p : Processor FreeMemory} {core : Core} {calls : Nat}, I p → core.l1 = {} →
      core.window = {} → I ⟨p.cores ++ [core],
        { p.uncore with memory := { p.uncore.memory with calls } }⟩) :
    Yields (Processor.new o.base {} workloads) (fun p => p.Sound cfg ∧ I p) := by
  have hempty : Sound cfg ⟨[], { memory := {} }⟩ :=
    ⟨(fun i core hi => by cases hi), (fun x hx => by cases hx), (fun r hr => by cases hr)⟩
  apply Ends.foldlM workloads ⟨hempty, hstart⟩
  rintro p w - ⟨hp, h⟩
  apply Ends.bind (Q := fun out : Core × Uncore FreeMemory => out.1.id = p.cores.length ∧
    out.1.l1 = {} ∧ out.1.window = {} ∧
    ∃ calls, out.2 = { p.uncore with memory := { p.uncore.memory with calls } })
  · unfold Core.nextRequest
    apply Ends.ite
    · intro _
      apply Ends.intro
      · rintro ⟨core, u⟩ hnext
        obtain ⟨hid, hl1, hwindow, -, hu⟩ := Core.nextSplit_frame hnext
        exact ⟨hid, hl1, hwindow, _, hu⟩
      · intro _ _
        trivial
    · intro _
      have hmoved := Core.popQueue_movedOn (newCore p.cores.length w)
      exact ⟨hmoved.id, hmoved.l1, hmoved.window, p.uncore.memory.calls, rfl⟩
  · rintro ⟨core, u⟩ ⟨hid, hl1, hwindow, calls, hu⟩
    dsimp only at hid hl1 hwindow hu
    subst hu
    have hok : core.Ok cfg p.cores.length := by
      refine ⟨hid, ?_, ?_, ?_⟩
      · rw [hwindow]
        exact Window.WF.new
      · rw [hl1]
        exact Cache.Inv.new _
      · intro _
        rw [hwindow]
        rfl
    exact ⟨⟨forall_append hp.cores hok, hp.hits, hp.reads⟩, hadd h hl1 hwindow⟩

end Rule

theorem Processor.runMeets_true (cfg : ProcessorConfig) (o : Oracle) (cs : List Cycle)
    (p : Processor FreeMemory) : p.RunMeets cfg o (fun _ _ _ => True) cs := by
  have hcallbacks : ∀ src rs (p : Processor FreeMemory),
      p.CallbacksMeet cfg (fun _ _ _ => True) src rs := by
    intro src rs
    induction rs with
    | nil => exact fun _ => trivial
    | cons r rs ih =>
      exact fun _ => ⟨trivial, Ends.intro (fun p' _ => ih p') (fun _ _ => trivial)⟩
  induction cs generalizing p with
  | nil => trivial
  | cons c cs ih =>
    refine ⟨?_, Ends.intro (fun p' _ => ih p') (fun _ _ => trivial)⟩
    cases c with
    | cpu => exact Ends.intro (fun _ _ => hcallbacks _ _ _) (fun _ _ => trivial)
    | mem => exact hcallbacks .memory _ _

end Ramulator
