/-
  Ramulator.Drain

  What is left of a run when its main loop is left.

  `run_cputrace` leaves its loop when every core has read its trace and
  `pending_requests` is zero.  The second test looks at the queues and at
  `pending` of the vaults, and at no other place a request can be in
  (`Drained` lists them).  In host mode a run is over before its last request
  has reached a vault (`run_leaves_request_in_link`).

  The two tests are enough where the vaults are the only such place: in PIM
  mode, without caches and without writes, since a write is answered through
  the links.
-/

import Ramulator.Hmc.Addresses
import Ramulator.Hmc.Requests
import Ramulator.Runs

namespace Ramulator

open Outcome List
open Ramulator.Core (SameBlock)
open Memory (InCapacity PimInv Every PagesOk)

/-- Every accepted request is done. -/
structure Drained (p : Processor Memory) : Prop where
  waitList : p.uncore.cachesys.waitList = []
  input : ∀ l s k, p.uncore.memory.link? l s = some k → k.slave.inputBuffer = []
  output : ∀ l s k, p.uncore.memory.link? l s = some k → k.master.outputBuffer = []
  vault : ∀ (v : Nat) (c : Controller), p.uncore.memory.ctrls[v]? = some c →
    c.readq = [] ∧ c.writeq = [] ∧ c.otherq = [] ∧ c.pending = []
  response : ∀ (v : Nat) (c : Controller), p.uncore.memory.ctrls[v]? = some c →
    c.responsePacketsBuffer = []
  window : ∀ (i : Nat) (core : Core), p.cores[i]? = some core →
    ∀ e ∈ core.window.entries, e.1 = true

/-! ## Traces that drain -/

/-- Not a write, and to an address of the memory. -/
def QueueEntry.Calm (cfg : MemoryConfig) (e : QueueEntry) : Prop :=
  e.reqType ≠ .write ∧ InCapacity cfg e.reqAddr

def ZsimLine.Calm (cfg : MemoryConfig) : ZsimLine → Prop
  | .empty => True
  | .malformed => cfg.translation = .random
  | .record _ addr type =>
    type ≠ some .write ∧ (cfg.translation = .random ∨ InCapacity cfg addr)

/-- A core that sends no write and no address beyond the capacity. -/
structure Workload.Calm (cfg : MemoryConfig) (w : Workload) : Prop where
  limit : w.expectedLimitInsts = 0
  queue : ∀ e ∈ w.rqstQueue, e.Calm cfg
  type : w.splitTrace = true → w.reqType ≠ .write
  trace : w.splitTrace = true → ∀ line ∈ w.tracePerCore, line.Calm cfg

structure Core.Calm (cfg : MemoryConfig) (core : Core) : Prop where
  wf : core.window.WF
  limit : core.expectedLimitInsts = 0
  queue : ∀ e ∈ core.rqstQueue, e.Calm cfg
  type : core.splitTrace = true → core.reqType ≠ .write
  trace : core.splitTrace = true → ∀ line ∈ core.tracePerCore, line.Calm cfg
  regs : core.moreReqs = true → core.reqType ≠ .write ∧ InCapacity cfg core.reqAddr

variable {cfg : RunConfig} {mem : MemoryConfig} {junk : Nat → Nat → Int} {p p' : Processor Memory}
  {core' : Core} {u' : Uncore Memory} {req : Request} {w : Workload} {i : Nat}

variable {core : Core}

section

variable (h : core.Calm mem)
include h

theorem Core.Calm.popQueue : core.popQueue.Calm mem := by
  unfold Core.popQueue
  split
  · exact ⟨h.wf, h.limit, h.queue, h.type, h.trace, fun hmore => by cases hmore⟩
  · next entry rest hqueue =>
    have hentry : entry.Calm mem := h.queue entry (mem_of_eq_cons hqueue)
    have hrest : ∀ e ∈ rest, e.Calm mem := fun e he =>
      h.queue e (mem_of_eq_cons_of_mem hqueue he)
    exact ⟨h.wf, h.limit, hrest, fun _ => hentry.1, h.trace, fun _ => hentry⟩

theorem Core.Calm.setWindow {window : Window} (hwf : window.WF) (retired : Int) :
    Core.Calm mem { core with window, retired } :=
  ⟨hwf, h.limit, h.queue, h.type, h.trace, h.regs⟩

theorem Core.Calm.busy (hbusy : core.isIdle = false) :
    core.reqType ≠ .write ∧ InCapacity mem core.reqAddr := by
  apply h.regs
  unfold Core.isIdle at hbusy
  rw [h.limit] at hbusy
  simpa using (Bool.or_eq_false_iff.mp hbusy).1

theorem Core.Calm.getZsimRequest (hsplit : core.splitTrace = true) :
    core.getZsimRequest.window = core.window ∧ core.getZsimRequest.id = core.id ∧
      core.getZsimRequest.expectedLimitInsts = 0 ∧
      (∀ e ∈ core.getZsimRequest.rqstQueue, e.Calm mem) ∧ core.getZsimRequest.reqType ≠ .write ∧
      (∀ line ∈ core.getZsimRequest.tracePerCore, line.Calm mem) ∧
      (core.getZsimRequest.moreReqs = true →
        mem.translation = .random ∨ InCapacity mem core.getZsimRequest.reqAddr) := by
  have htype := h.type hsplit
  have htrace := h.trace hsplit
  unfold Core.getZsimRequest
  split
  · next hnil =>
    exact ⟨rfl, rfl, h.limit, h.queue, htype, htrace, fun hmore => by cases hmore⟩
  · next rest hline =>
    refine ⟨rfl, rfl, h.limit, h.queue, htype, ?_, fun hmore => by cases hmore⟩
    intro line hmem
    exact htrace line (mem_of_eq_cons_of_mem hline hmem)
  · next rest hline =>
    have hcalm := htrace .malformed (mem_of_eq_cons hline)
    refine ⟨rfl, rfl, h.limit, h.queue, htype, ?_, fun _ => Or.inl hcalm⟩
    intro line hmem
    exact htrace line (mem_of_eq_cons_of_mem hline hmem)
  · next bubbleCnt addr type rest hline =>
    have hcalm : ZsimLine.Calm mem (.record bubbleCnt addr type) :=
      htrace _ (mem_of_eq_cons hline)
    refine ⟨rfl, rfl, h.limit, h.queue, ?_, ?_, fun _ => hcalm.2⟩
    · show type.getD core.reqType ≠ .write
      cases type with
      | none => exact htype
      | some type =>
        intro hwrite
        exact hcalm.1 (congrArg some hwrite)
    · intro line hmem
      exact htrace line (mem_of_eq_cons_of_mem hline hmem)

end

/-! ## The invariant -/

def ReadBack (r : Request) : Prop := r.type = .read ∧ r.callback = .processorReceive

/-- Nothing but reads, in vaults. -/
structure Quiet (mem : MemoryConfig) (p : Processor Memory) : Prop where
  pim : PimInv p.uncore.memory
  every : Every ReadBack p.uncore.memory
  pages : PagesOk mem p.uncore.memory
  waitList : p.uncore.cachesys.waitList = []
  core : ∀ (i : Nat) (core : Core), p.cores[i]? = some core → core.Calm mem ∧ core.id = i

/-- A request that a vault holds, or one of `extra`, will wake core `i` for the
    block of `a`. -/
def Awaited (cfg : ProcessorConfig) (m : Memory) (extra : List Request) (i : Nat) (a : Int) :
    Prop :=
  ∃ r, (m.Held r ∨ r ∈ extra) ∧ r.coreid = i ∧ SameBlock cfg a r.addr

/-- Every instruction that waits, waits for something. -/
def Covered (cfg : ProcessorConfig) (p : Processor Memory) (extra : List Request) : Prop :=
  ∀ (i : Nat) (core : Core), p.cores[i]? = some core → ∀ a, core.Waiting a →
    Awaited cfg p.uncore.memory extra i a

theorem coreid_eq_of_ident {r r' : Request} (h : r.ident = r'.ident) : r.coreid = r'.coreid := by
  have hid : r.ident.coreid = r'.ident.coreid := by rw [h]
  exact hid

theorem Quiet.local (h : Quiet mem p) (hc : Covered cfg.proc p []) (hcore : p.cores[i]? = some core)
    (hcalm : core'.Calm mem) (hid : core'.id = core.id)
    (hwaiting : ∀ a, core'.Waiting a → core.Waiting a) : Quiet mem ⟨p.cores.set i core', p.uncore⟩ ∧
      Covered cfg.proc ⟨p.cores.set i core', p.uncore⟩ [] := by
  obtain ⟨-, hcoreid⟩ := h.core i core hcore
  constructor
  · exact ⟨h.pim, h.every, h.pages, h.waitList,
      Processor.forall_set h.core ⟨hcalm, hid.trans hcoreid⟩⟩
  · exact Processor.forall_set hc (fun a ha => hc i core hcore a (hwaiting a ha))

theorem Quiet.send {k : Nat} {accepted : Bool} (hcaches : cfg.proc.coreCaches = false)
    (hl3 : cfg.proc.l3Cache = false) (hpim : mem.ctrl.pimModeEnabled = true)
    (hpow : mem.maxAddress = 2 ^ k) (h : Quiet mem p) (hc : Covered cfg.proc p [])
    (hcore : p.cores[i]? = some core)
    (hsend : core.send cfg.proc (Memory.base mem junk) p.uncore req = .ok (accepted, core', u'))
    (hread : ReadBack req) (hid : req.coreid = core.id) (haddr : InCapacity mem req.addr) :
    core' = core ∧ accepted = true ∧ ∀ core₁ : Core, core₁.Calm mem → core₁.id = core.id →
      (∀ a, core₁.Waiting a → core.Waiting a ∨ a = req.addr) →
      Quiet mem ⟨p.cores.set i core₁, u'⟩ ∧ Covered cfg.proc ⟨p.cores.set i core₁, u'⟩ [] := by
  obtain ⟨rfl, m', hsent, rfl⟩ := Core.send_memory hcaches hl3 hsend
  obtain ⟨haccepted, hpimsent⟩ := (Memory.sendPim_ends hpim _ _).result hsent
  obtain ⟨-, hcoreid⟩ := h.core i core' hcore
  have hprepared : ReadBack (p.uncore.memory.prepare mem req).ident := hread
  obtain ⟨hpim', hevery', -, -, ⟨r₀, hr₀, hident₀⟩, hkept⟩ :=
    h.pim.send h.every hpimsent hprepared
  have hpages' : PagesOk mem m' := by
    obtain ⟨hformed, -, -⟩ := hpimsent
    obtain ⟨s, -, -, pool, -, -, rfl⟩ := hformed.slid
    exact ⟨h.pages.size, h.pages.page⟩
  refine ⟨rfl, haccepted, fun core₁ hcalm hid₁ hwaiting => ?_⟩
  -- what was held is held, and so is the new request
  have hold : ∀ j a, Awaited cfg.proc p.uncore.memory [] j a → Awaited cfg.proc m' [] j a := by
    rintro j a ⟨r, hr | hr, hrid, hrblock⟩
    · obtain ⟨r', hr', hident⟩ := hkept r hr
      refine ⟨r', Or.inl hr', ?_, ?_⟩
      · rw [coreid_eq_of_ident hident]
        exact hrid
      · rw [Request.addr_eq_of_ident hident]
        exact hrblock
    · cases hr
  constructor
  · exact ⟨hpim', hevery', hpages', h.waitList,
      Processor.forall_set h.core ⟨hcalm, hid₁.trans hcoreid⟩⟩
  · apply Processor.forall_set (P := fun j core => ∀ a, core.Waiting a → Awaited cfg.proc m' [] j a)
    · intro j core₂ hj a ha
      exact hold j a (hc j core₂ hj a ha)
    · intro a ha
      rcases hwaiting a ha with ha | rfl
      · exact hold i a (hc i core' hcore a ha)
      · refine ⟨r₀, Or.inl hr₀, ?_, ?_⟩
        · rw [coreid_eq_of_ident hident₀]
          exact hid.trans hcoreid
        · have hsame : r₀.addr = req.addr := by
            rw [Request.addr_eq_of_ident hident₀]
            exact Memory.cutAddr_of_inCapacity hpow haddr
          rw [hsame]
          rfl

theorem Core.Calm.nextSplit {u : Uncore Memory} (h : core.Calm mem) (hpages : PagesOk mem u.memory)
    (hsplit : core.splitTrace = true)
    (hnext : core.nextSplit (Memory.base mem junk) u = .ok (core', u')) :
    core'.Calm mem ∧ core'.window = core.window ∧ core'.id = core.id ∧
      ∃ m', u' = { u with memory := m' } ∧ PagesOk mem m' ∧ u.memory.PagesOnly m' := by
  obtain ⟨⟨addr, m'⟩, halloc, heq⟩ := bind_ok.mp hnext
  cases heq
  obtain ⟨hpages', honly, hnone, hrandom⟩ :=
    (Memory.pageAllocator_ends hpages _ _).result halloc
  obtain ⟨hwindow, hid, hlimit, hqueue, htype, htrace, hregs⟩ := h.getZsimRequest hsplit
  have hwf : core.getZsimRequest.window.WF := by
    rw [hwindow]
    exact h.wf
  refine ⟨⟨hwf, hlimit, hqueue, fun _ => htype, fun _ => htrace, ?_⟩, hwindow, hid, m', rfl,
    hpages', honly⟩
  intro hmore
  refine ⟨htype, ?_⟩
  show InCapacity mem addr
  cases htrans : mem.translation with
  | random => exact hrandom htrans
  | none =>
    have haddr : addr = core.getZsimRequest.reqAddr := hnone htrans
    rw [haddr]
    rcases hregs hmore with hrand | hin
    · rw [htrans] at hrand
      cases hrand
    · exact hin

theorem Quiet.split (h : Quiet mem p) (hc : Covered cfg.proc p []) (hcore : p.cores[i]? = some core)
    (hcalm : core.Calm mem) (hsplit : core.splitTrace = true)
    (hnext : core.nextSplit (Memory.base mem junk) p.uncore = .ok (core', u')) :
    Quiet mem ⟨p.cores.set i core', u'⟩ ∧ Covered cfg.proc ⟨p.cores.set i core', u'⟩ [] := by
  obtain ⟨-, hcoreid⟩ := h.core i core hcore
  obtain ⟨hcalm', hwindow, hid, m', rfl, hpages, translation, pages, remaining, count, rfl⟩ :=
    hcalm.nextSplit h.pages hsplit hnext
  constructor
  · refine ⟨h.pim.frame rfl rfl rfl, ?_, hpages, h.waitList,
      Processor.forall_set h.core ⟨hcalm', hid.trans hcoreid⟩⟩
    exact ⟨h.every.input, h.every.held, h.every.response, h.every.output, h.every.callback⟩
  · apply Processor.forall_set hc
    intro a ha
    unfold Core.Waiting at ha
    rw [hwindow] at ha
    exact hc i core hcore a ha

/-- The conditions under which the two tests of the main loop are enough. -/
structure Drains (cfg : RunConfig) (mem : MemoryConfig) : Prop where
  coreCaches : cfg.proc.coreCaches = false
  l3Cache : cfg.proc.l3Cache = false
  pim : mem.ctrl.pimModeEnabled = true
  capacity : ∃ k, mem.maxAddress = 2 ^ k

theorem quiet_kept (hd : Drains cfg mem) : Processor.Kept cfg.proc (Memory.base mem junk)
      (fun p => Quiet mem p ∧ Covered cfg.proc p []) := by
  rintro p i core core' u' ⟨h, hc⟩ hcore hstep
  obtain ⟨k, hpow⟩ := hd.capacity
  obtain ⟨hcalm, hid⟩ := h.core i core hcore
  cases hstep with
  | count =>
    exact h.local hc hcore
      ⟨hcalm.wf, hcalm.limit, hcalm.queue, hcalm.type, hcalm.trace, hcalm.regs⟩ rfl
      (fun _ ha => ha)
  | @retire n window hretire =>
    obtain ⟨hwf, hwaiting⟩ := Core.retire_waiting hcalm.wf hretire
    exact h.local hc hcore (hcalm.setWindow hwf (core.retired + n)) rfl hwaiting
  | @bubble window hout hroom hinsert =>
    obtain ⟨hwf, hwaiting⟩ := Core.insert_waiting hcalm.wf hroom hinsert
    refine h.local hc hcore (hcalm.setWindow hwf core.retired) rfl (fun a ha => ?_)
    rcases hwaiting a ha with ha | ⟨hready, -⟩
    · exact ha
    · cases hready
  | @read core₁ u₁ window hout hbusy htype hroom hsend hinsert =>
    obtain ⟨rfl, -, hstep⟩ := h.send hd.coreCaches hd.l3Cache hd.pim hpow hc hcore hsend
      ⟨rfl, rfl⟩ rfl (hcalm.busy hbusy).2
    obtain ⟨hwf, hwaiting⟩ := Core.insert_waiting hcalm.wf hroom hinsert
    refine hstep _ (hcalm.setWindow hwf core₁.retired) rfl (fun a ha => ?_)
    rcases hwaiting a ha with ha | ⟨-, rfl⟩
    · exact Or.inl ha
    · exact Or.inr rfl
  | refused hbusy htype hsend =>
    obtain ⟨-, haccepted, -⟩ := h.send hd.coreCaches hd.l3Cache hd.pim hpow hc hcore hsend
      ⟨rfl, rfl⟩ rfl (hcalm.busy hbusy).2
    cases haccepted
  | write hbusy htype hsend => exact absurd htype (hcalm.busy hbusy).1
  | instruction hbusy htype hsend =>
    obtain ⟨rfl, -, hstep⟩ := h.send hd.coreCaches hd.l3Cache hd.pim hpow hc hcore hsend
      ⟨rfl, rfl⟩ rfl (hcalm.busy hbusy).2
    exact hstep _ hcalm rfl (fun _ ha => Or.inl ha)
  | pop =>
    have hmoved := core.popQueue_movedOn
    apply h.local hc hcore hcalm.popQueue hmoved.id
    intro a ha
    unfold Core.Waiting at ha
    rw [hmoved.window] at ha
    exact ha
  | split hsplit hnext => exact h.split hc hcore hcalm hsplit hnext

/-! ## A cycle of the memory -/

theorem Quiet.receive {rest : List Request} (h : Quiet mem p)
    (hc : Covered cfg.proc p (req :: rest)) (hreceived : Processor.Received cfg.proc p req p') :
    Quiet mem p' ∧ Covered cfg.proc p' rest := by
  have hwf : ∀ (i : Nat) core, p.cores[i]? = some core → core.window.WF :=
    fun i core hcore => (h.core i core hcore).1.wf
  constructor
  · refine ⟨?_, ?_, ?_, ?_, ?_⟩
    · rw [hreceived.memory]
      exact h.pim
    · rw [hreceived.memory]
      exact h.every
    · rw [hreceived.memory]
      exact h.pages
    · rw [hreceived.cachesys]
      exact h.waitList
    · intro i core' hcore'
      obtain ⟨core, l2, l1, cycles, last, hcore, hframe, -, hwf', -⟩ :=
        hreceived.core hwf hcore'
      obtain ⟨hcalm, hid⟩ := h.core i core hcore
      rw [hframe]
      exact ⟨⟨hwf', hcalm.limit, hcalm.queue, hcalm.type, hcalm.trace, hcalm.regs⟩, hid⟩
  · intro i core' hcore' a ha
    obtain ⟨core, l2, l1, cycles, last, hcore, -, -, -, hwaiting⟩ := hreceived.core hwf hcore'
    obtain ⟨ha₀, hother⟩ := hwaiting a ha
    obtain ⟨r, hr, hrid, hblock⟩ := hc i core hcore a ha₀
    rw [hreceived.memory]
    refine ⟨r, ?_, hrid, hblock⟩
    rcases hr with hr | hr
    · exact Or.inl hr
    · rcases mem_cons.mp hr with rfl | hr
      · exact absurd ⟨hrid, hblock⟩ hother
      · exact Or.inr hr

theorem Quiet.callbacks (done : List Request) (hdone : ∀ r ∈ done, r.callback = .processorReceive)
    (h : Quiet mem p) (hc : Covered cfg.proc p done) :
    Yields (done.foldlM (Processor.runCallback cfg.proc) p)
      (fun p' => Quiet mem p' ∧ Covered cfg.proc p' []) := by
  induction done generalizing p with
  | nil => exact ⟨h, hc⟩
  | cons req rest ih =>
    rw [foldlM_cons]
    have hrun : p.runCallback cfg.proc req = p.receive cfg.proc req := by
      unfold Processor.runCallback
      rw [hdone req mem_cons_self]
    rw [hrun]
    apply Ends.bind (Processor.receive_ends p req)
    intro p' hreceived
    obtain ⟨h', hc'⟩ := h.receive hc hreceived
    exact ih (fun r hr => hdone r (mem_cons_of_mem _ hr)) h' hc'

theorem mem_callbacksSince {m m' : Memory} {new : List Event} (h : m'.events = m.events ++ new)
    (req : Request) : req ∈ m.callbacksSince m' ↔ .callback req ∈ new := by
  unfold Memory.callbacksSince
  rw [h, drop_left, mem_filterMap]
  constructor
  · rintro ⟨e, he, heq⟩
    cases e with
    | delivered packet => cases heq
    | callback r =>
      cases heq
      exact he
  · intro hreq
    exact ⟨_, hreq, rfl⟩

theorem quiet_tickMemory (hd : Drains cfg mem) (h : Quiet mem p) (hc : Covered cfg.proc p []) :
    Yields (p.tickMemory cfg.proc (Memory.base mem junk))
      (fun p' => Quiet mem p' ∧ Covered cfg.proc p' []) := by
  apply Ends.bind (Q := fun out => (Memory.base mem junk).tick p.uncore.memory = .ok out)
    (Ends.ran _)
  rintro ⟨done, m'⟩ htick
  obtain ⟨m'', htick', heq⟩ := bind_ok.mp htick
  cases heq
  obtain ⟨hpim', hevery', new, hevents, hretained⟩ := h.pim.tick hd.pim h.every htick'
  have hmem := mem_callbacksSince hevents
  apply Quiet.callbacks
  · intro r hr
    have hback := hevery'.callback r (by
      rw [hevents]
      exact mem_append_right _ ((hmem r).mp hr))
    exact hback.2
  · exact ⟨hpim', hevery', h.pages.tick htick', h.waitList, h.core⟩
  · intro i core hcore a ha
    obtain ⟨r, hr | hr, hrid, hblock⟩ := hc i core hcore a ha
    · have hread : r.type = .read := by
        obtain ⟨v, c, hctrl, hheld⟩ := hr
        exact (h.every.held v c hctrl r hheld).1
      rcases hretained r hr with ⟨r', hr', hident⟩ | hwrite | ⟨req, hreq, hident⟩
      · refine ⟨r', Or.inl hr', ?_, ?_⟩
        · rw [coreid_eq_of_ident hident]
          exact hrid
        · rw [Request.addr_eq_of_ident hident]
          exact hblock
      · rw [hread] at hwrite
        cases hwrite
      · refine ⟨req, Or.inr ((hmem req).mpr hreq), ?_, ?_⟩
        · rw [coreid_eq_of_ident hident]
          exact hrid
        · rw [Request.addr_eq_of_ident hident]
          exact hblock
    · cases hr

/-! ## A run -/

theorem newCore_calm (h : w.Calm mem) (id : Int) : (Processor.newCore id w).Calm mem :=
  ⟨Window.WF.new, h.limit, h.queue, h.type, h.trace, fun hmore => by cases hmore⟩

theorem quiet_addCore (hw : w.Calm mem) (h : Quiet mem p) (hc : Covered cfg.proc p []) :
    Yields (p.addCore (Memory.base mem junk) w)
      (fun p' => Quiet mem p' ∧ Covered cfg.proc p' []) := by
  have hcalm := newCore_calm hw p.cores.length
  -- a core with an empty window waits for nothing
  have hadd : ∀ (core : Core) (m' : Memory), core.Calm mem → core.window.entries = [] →
      core.id = p.cores.length → PagesOk mem m' → p.uncore.memory.PagesOnly m' →
      Quiet mem ⟨p.cores ++ [core], { p.uncore with memory := m' }⟩ ∧
        Covered cfg.proc ⟨p.cores ++ [core], { p.uncore with memory := m' }⟩ [] := by
    rintro core m' hcore hempty hid hpages ⟨translation, pages, remaining, count, rfl⟩
    constructor
    · refine ⟨h.pim.frame rfl rfl rfl, ?_, hpages, h.waitList,
        Processor.forall_append h.core ⟨hcore, hid⟩⟩
      exact ⟨h.every.input, h.every.held, h.every.response, h.every.output, h.every.callback⟩
    · apply Processor.forall_append hc
      intro a ha
      unfold Core.Waiting at ha
      rw [hempty] at ha
      cases ha
  apply Ends.bind (Q := fun out => Quiet mem ⟨p.cores ++ [out.1], out.2⟩ ∧
      Covered cfg.proc ⟨p.cores ++ [out.1], out.2⟩ [])
  · apply Ends.ite
    · intro hsplit
      apply Ends.intro
      · rintro ⟨core, u⟩ hnext
        obtain ⟨hcore, hwindow, hid, m', rfl, hpages, honly⟩ :=
          hcalm.nextSplit h.pages hsplit hnext
        apply hadd core m' hcore _ hid hpages honly
        rw [hwindow]
        rfl
      · intro _ _
        trivial
    · intro _
      have hmoved := (Processor.newCore p.cores.length w).popQueue_movedOn
      have hentries := congrArg Window.entries hmoved.window
      exact hadd _ p.uncore.memory hcalm.popQueue hentries hmoved.id h.pages ⟨_, _, _, _, rfl⟩
  · rintro ⟨core, u⟩ hp'
    exact hp'

theorem Quiet.drained (h : Quiet mem p) (hc : Covered cfg.proc p [])
    (hpending : p.uncore.memory.pendingRequests = 0) : Drained p := by
  have hvault : ∀ (v : Nat) (c : Controller), p.uncore.memory.ctrls[v]? = some c →
      c.readq = [] ∧ c.writeq = [] ∧ c.otherq = [] ∧ c.pending = [] := by
    intro v c hctrl
    unfold Memory.pendingRequests at hpending
    have hzero := List.sum_eq_zero_iff_forall_eq_nat.mp hpending _
      (mem_map_of_mem (mem_of_getElem? hctrl))
    refine ⟨length_eq_zero_iff.mp ?_, length_eq_zero_iff.mp ?_,
      length_eq_zero_iff.mp ?_, length_eq_zero_iff.mp ?_⟩
    all_goals omega
  refine ⟨h.waitList, h.pim.input, ?_, hvault, ?_, ?_⟩
  · -- a response would belong to a read and to a write
    intro l s k hlink
    apply eq_nil_iff_forall_not_mem.mpr
    intro packet hpacket
    have hread := (h.every.output l s k hlink packet hpacket).1
    have hwrite := h.pim.output l s k hlink packet hpacket
    rw [show packet.req.type = .read from hread] at hwrite
    cases hwrite
  · intro v c hctrl
    apply eq_nil_iff_forall_not_mem.mpr
    intro packet hpacket
    have hread := (h.every.response v c hctrl packet hpacket).1
    have hwrite := h.pim.response v c hctrl packet hpacket
    rw [show packet.req.type = .read from hread] at hwrite
    cases hwrite
  · intro i core hcore e he
    by_contra hready
    have hwaiting : core.Waiting e.2 := by
      unfold Core.Waiting
      rw [← Bool.not_eq_true e.1 |>.mp hready]
      exact he
    obtain ⟨r, ⟨v, c, hctrl, hheld⟩ | hr, -⟩ := hc i core hcore e.2 hwaiting
    · obtain ⟨hreadq, hwriteq, -, hpend⟩ := hvault v c hctrl
      unfold Controller.held at hheld
      rw [hreadq, hwriteq, hpend] at hheld
      cases hheld
    · cases hr

/-- In PIM mode, without caches and without writes, a run that ends has nothing
    left to do.  The memory is as it was built, but for the pages that the
    constructor of the processor has given out. -/
theorem runCputrace_drained (hd : Drains cfg mem) (hspeedup : cfg.weightedSpeedup = false)
    (hearly : cfg.earlyExit = false) {m₀ : Memory} (hpages : PagesOk mem m₀)
    (hm₀ : (Memory.new mem).PagesOnly m₀) {workloads : List Workload}
    (hcalm : ∀ w ∈ workloads, w.Calm mem) {n : Nat}
    (hrun : runCputrace cfg (Memory.base mem junk) m₀ workloads n = .ok (some p)) : Drained p := by
  obtain ⟨proc, hnew, hloop⟩ := bind_ok.mp hrun
  have hinit : Quiet mem ⟨[], { memory := m₀ }⟩ ∧ Covered cfg.proc ⟨[], { memory := m₀ }⟩ [] := by
    obtain ⟨translation, pages, remaining, count, rfl⟩ := hm₀
    constructor
    · have hevery := Every.new ReadBack mem
      refine ⟨(PimInv.new mem).frame rfl rfl rfl, ?_, hpages, rfl, fun i core hcore => ?_⟩
      · exact ⟨hevery.input, hevery.held, hevery.response, hevery.output, hevery.callback⟩
      · cases hcore
    · intro i core hcore
      cases hcore
  have hproc : Quiet mem proc ∧ Covered cfg.proc proc [] :=
    (Ends.foldlM (I := fun p => Quiet mem p ∧ Covered cfg.proc p []) workloads hinit
      (fun p w hw hp => quiet_addCore (hcalm w hw) hp.1 hp.2)).result hnew
  have hcpu : ∀ p, Quiet mem p ∧ Covered cfg.proc p [] →
      Yields (p.tick cfg.proc (Memory.base mem junk))
        (fun p => Quiet mem p ∧ Covered cfg.proc p []) := by
    intro p hp
    apply Ends.bind (Q := fun p => Quiet mem p ∧ Covered cfg.proc p [])
    · unfold Processor.tickCaches
      rw [if_neg (by simp [hd.coreCaches, hd.l3Cache])]
      exact hp
    · intro p₁ hp₁
      exact Processor.tickCores_ends (quiet_kept hd) hp₁ _
  have hexit := (MainLoop.iterate_ends hcpu (fun p hp => quiet_tickMemory hd hp.1 hp.2) n
    (s := MainLoop.new cfg proc) hproc).result hloop p rfl
  obtain ⟨⟨hquiet, hcovered⟩, hleaves⟩ := hexit
  unfold MainLoop.leaves at hleaves
  rw [if_neg (by simp [hspeedup]), if_neg (by simp [hearly]), Bool.and_eq_true] at hleaves
  exact hquiet.drained hcovered (of_decide_eq_true hleaves.2)

/-- A run of one core without caches, until it is drained. -/
def singleRun (pim : Bool) : RunConfig where
  proc := { pimModeEnabled := pim }
  cpuPeriod := 250
  memPeriod := 800
  earlyExit := false

def smallStackIn (pim : Bool) : MemoryConfig :=
  { Memory.smallStack 4 with
    ctrl := { (Memory.smallStack 4).ctrl with pimModeEnabled := pim } }

def oneRead : Workload where
  rqstQueue := [⟨0, 64, .read⟩]

/-- One read to the small stack in PIM mode: the run ends, and it is drained. -/
theorem runCputrace_drained_oneRead :
    ∃ p, runCputrace (singleRun true) (Memory.base (smallStackIn true) fun _ _ => 0)
        (Memory.new (smallStackIn true)) [oneRead] 200 = .ok (some p) ∧
      p.uncore.memory.clk = 45 ∧ Drained p := by
  have hrun : (runCputrace (singleRun true) (Memory.base (smallStackIn true) fun _ _ => 0)
        (Memory.new (smallStackIn true)) [oneRead] 200).toOption.map
      (fun out => out.map fun p => p.uncore.memory.clk) = some (some 45) := by decide +kernel
  obtain ⟨out, hout, hmap⟩ := exists_ok_of_map hrun
  obtain ⟨p, rfl, hclk⟩ := Option.map_eq_some_iff.mp hmap
  have hd : Drains (singleRun true) (smallStackIn true) :=
    ⟨rfl, rfl, rfl, 11, by decide⟩
  have hcalm : ∀ w ∈ [oneRead], w.Calm (smallStackIn true) := by
    intro w hw
    rw [mem_singleton.mp hw]
    refine ⟨rfl, ?_, (fun h => by cases h), (fun h => by cases h)⟩
    intro e he
    rw [mem_singleton.mp he]
    exact ⟨by decide, by decide, by decide⟩
  exact ⟨p, hout, hclk, runCputrace_drained hd rfl rfl (PagesOk.new _) ⟨_, _, _, _, rfl⟩ hcalm hout⟩

/-- The same read in host mode: the run ends while it waits in the link. -/
theorem run_leaves_request_in_link :
    ∃ p, runCputrace (singleRun false) (Memory.base (smallStackIn false) fun _ _ => 0)
        (Memory.new (smallStackIn false)) [oneRead] 100 = .ok (some p) ∧
      p.cores.map (fun core => core.window.entries) = [[(false, 64)]] ∧
      (p.uncore.memory.link? 0 0).map (fun k => k.slave.inputBuffer.map (·.req.addr)) = some [64] ∧
      ¬ Drained p := by
  have hrun : (runCputrace (singleRun false) (Memory.base (smallStackIn false) fun _ _ => 0)
        (Memory.new (smallStackIn false)) [oneRead] 100).toOption.map
      (fun out => out.map fun p => (p.cores.map (fun core => core.window.entries),
        (p.uncore.memory.link? 0 0).map fun k => k.slave.inputBuffer.map (·.req.addr))) =
        some (some ([[(false, 64)]], some [64])) := by decide +kernel
  obtain ⟨out, hout, hmap⟩ := exists_ok_of_map hrun
  obtain ⟨p, rfl, hp⟩ := Option.map_eq_some_iff.mp hmap
  obtain ⟨hwindow, hinput⟩ := Prod.mk.inj hp
  refine ⟨p, hout, hwindow, hinput, ?_⟩
  intro hdrained
  -- the core still waits for the read
  match hcores : p.cores with
  | [] =>
    rw [hcores] at hwindow
    cases hwindow
  | core :: rest =>
    rw [hcores] at hwindow
    have hentries : core.window.entries = [(false, 64)] := (List.cons.inj hwindow).1
    have hready := hdrained.window 0 core (by rw [hcores]; rfl) (false, 64)
      (by rw [hentries]; exact mem_singleton.mpr rfl)
    cases hready

end Ramulator
