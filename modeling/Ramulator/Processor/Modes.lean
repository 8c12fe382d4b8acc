/-
  Ramulator.Processor.Modes

  One trace file in the two modes.

  In a run with split traces a core reads its file line by line.  In a run with
  a single trace the file is read at once, and the lines that are not records
  are left out of the queue.  A split trace does not leave them out: such a
  line is a request to the address -1 with what an earlier line left.

  So the two modes make one core do the same exactly if every line is a record,
  none has the address -1, and the first one names its type (`modes_agree_iff`):
  a first record without a type has the type of a variable that nothing has set,
  which is another one in each mode.
-/

import Ramulator.Processor.Dispatch
import Ramulator.Processor.Execution

namespace Ramulator

open Outcome List

variable {τ : Type}

/-! ## What the file says in each mode -/

namespace Trace

def lines (file : List (List Char)) : List ZsimLine := file.map fun line => (parse line).zsimLine

def Regs.entry (regs : Regs) : QueueEntry := ⟨regs.bubbleCnt, regs.reqAddr, regs.reqType⟩

def singleEntries (regs : Regs) (file : List (List Char)) : List QueueEntry :=
  ((requests regs file).filter (·.reqAddr ≠ -1)).map Regs.entry

def isGood (line : List Char) : Bool :=
  match parse line with
  | .record r => r.addr ≠ -1
  | _ => false

/-- What it takes that the modes agree; `type` and `type'` are the types before
    the first line. -/
def Agree (type type' : RequestType) (file : List (List Char)) : Prop :=
  (∀ line ∈ file, isGood line = true) ∧
    (type = type' ∨ ∀ line ∈ file.head?, ∀ r, parse line = .record r → r.type ≠ none)

theorem isGood_iff (line : List Char) :
    isGood line = true ↔ ∃ r, parse line = .record r ∧ r.addr ≠ -1 := by
  unfold isGood
  split
  · next r hr => simp [hr]
  · next hno =>
    constructor
    · intro h
      cases h
    · rintro ⟨r, hr, -⟩
      exact absurd hr (hno r)

section Entries

variable {regs : Regs} {type : RequestType} {bubbleCnt id : Int} {file : List (List Char)}

theorem length_splitEntries (hempty : [] ∉ file) :
    (splitEntries bubbleCnt type (lines file)).length = file.length := by
  induction file generalizing bubbleCnt type with
  | nil => rfl
  | cons line file ih =>
    obtain ⟨hline, hfile⟩ := not_or.mp (mt mem_cons.mpr hempty)
    show (splitEntries bubbleCnt type ((parse line).zsimLine :: lines file)).length = _
    cases hparse : parse line with
    | empty => exact absurd ((parse_eq_empty_iff line).mp hparse).symm hline
    | malformed => rw [Line.zsimLine, splitEntries, length_cons, ih hfile, length_cons]
    | record r => rw [Line.zsimLine, splitEntries, length_cons, ih hfile, length_cons]

theorem length_singleEntries (hempty : [] ∉ file) :
    (singleEntries regs file).length = file.countP isGood := by
  unfold singleEntries
  rw [length_map]
  induction file generalizing regs with
  | nil => rfl
  | cons line file ih =>
    obtain ⟨hline, hfile⟩ := not_or.mp (mt mem_cons.mpr hempty)
    rw [countP_cons]
    unfold requests isGood
    cases hparse : parse line with
    | empty => exact absurd ((parse_eq_empty_iff line).mp hparse).symm hline
    | malformed => exact ih hfile
    | record r =>
      rw [filter_cons]
      by_cases haddr : r.addr = -1
      · rw [if_neg (by simp [Regs.load, haddr]), ih hfile, if_neg (by simp [haddr])]
        rfl
      · rw [if_pos (by simp [Regs.load, haddr]), length_cons, ih hfile, if_pos (by simp [haddr])]
        rfl

theorem entries_cons {line : List Char} {r : Record} (hparse : parse line = .record r)
    (haddr : r.addr ≠ -1) : splitEntries bubbleCnt type (lines (line :: file)) =
        ⟨r.cycleNum, r.addr, r.type.getD type⟩ :: splitEntries 0 (r.type.getD type) (lines file) ∧
      singleEntries regs (line :: file) =
        ⟨r.cycleNum, r.addr, r.type.getD regs.reqType⟩ :: singleEntries (regs.load r) file := by
  constructor
  · show splitEntries bubbleCnt type ((parse line).zsimLine :: lines file) = _
    rw [hparse]
    rfl
  · unfold singleEntries
    rw [requests, hparse]
    show ((regs.load r :: requests (regs.load r) file).filter _).map _ = _
    rw [filter_cons, if_pos (by simp [Regs.load, haddr])]
    rfl

theorem entries_eq_of_type (hgood : ∀ line ∈ file, isGood line = true) :
    splitEntries bubbleCnt regs.reqType (lines file) = singleEntries regs file := by
  induction file generalizing bubbleCnt regs with
  | nil => rfl
  | cons line file ih =>
    obtain ⟨hline, hfile⟩ := forall_mem_cons.mp hgood
    obtain ⟨r, hparse, haddr⟩ := (isGood_iff line).mp hline
    obtain ⟨hsplit, hsingle⟩ := entries_cons hparse haddr
    have hrest : splitEntries 0 (regs.load r).reqType (lines file) =
        singleEntries (regs.load r) file := ih hfile
    rw [hsplit, hsingle]
    congr 1

theorem entries_eq_of_agree (h : Agree type regs.reqType file) :
    splitEntries bubbleCnt type (lines file) = singleEntries regs file := by
  obtain ⟨hgood, htype⟩ := h
  cases file with
  | nil => rfl
  | cons line file =>
    rcases htype with rfl | htyped
    · exact entries_eq_of_type hgood
    · obtain ⟨hline, hfile⟩ := forall_mem_cons.mp hgood
      obtain ⟨r, hparse, haddr⟩ := (isGood_iff line).mp hline
      obtain ⟨hsplit, hsingle⟩ := entries_cons hparse haddr
      obtain ⟨type', htype'⟩ := Option.ne_none_iff_exists'.mp (htyped line rfl r hparse)
      have hload : (regs.load r).reqType = type' := by rw [Regs.load, htype']; rfl
      rw [hsplit, hsingle, htype']
      congr 1
      rw [← hload]
      exact entries_eq_of_type hfile

/-- Requests to one address are different if their types are. -/
theorem request_type_injective {e e' : QueueEntry} (h : e.request id = e'.request id)
    (he : e.Sendable) (he' : e'.Sendable) : e.reqType = e'.reqType := by
  have htype := congrArg Request.type h
  have hinst := congrArg Request.instructionRequest h
  unfold QueueEntry.request at htype hinst
  rcases he with he | he | he <;> rcases he' with he' | he' | he' <;>
    simp [he, he'] at htype hinst ⊢

theorem agree_of_requests (hempty : [] ∉ file) (htype : (⟨0, 0, type⟩ : QueueEntry).Sendable)
    (hregs : (⟨0, 0, regs.reqType⟩ : QueueEntry).Sendable)
    (h : (splitEntries bubbleCnt type (lines file)).map (QueueEntry.request id) =
      (singleEntries regs file).map (QueueEntry.request id)) : Agree type regs.reqType file := by
  have hlength := congrArg List.length h
  rw [length_map, length_map, length_splitEntries hempty, length_singleEntries hempty] at hlength
  have hgood : ∀ line ∈ file, isGood line = true :=
    countP_eq_length.mp hlength.symm
  refine ⟨hgood, ?_⟩
  by_cases hfirst : ∀ line ∈ file.head?, ∀ r, parse line = .record r → r.type ≠ none
  · exact Or.inr hfirst
  · -- a first record without a type shows the type before it
    left
    push Not at hfirst
    obtain ⟨line, hhead, r, hparse, hnone⟩ := hfirst
    obtain ⟨rest, rfl⟩ := head?_eq_some_iff.mp hhead
    obtain ⟨r', hparse', haddr⟩ := (isGood_iff line).mp (hgood line mem_cons_self)
    rw [hparse] at hparse'
    cases hparse'
    obtain ⟨hsplit, hsingle⟩ := entries_cons hparse haddr
    rw [hsplit, hsingle, hnone] at h
    have hrequest : QueueEntry.request id ⟨r.cycleNum, r.addr, type⟩ =
        QueueEntry.request id ⟨r.cycleNum, r.addr, regs.reqType⟩ := (List.cons.inj h).1
    exact request_type_injective hrequest htype hregs

theorem splitEntries_lines_sendable (htype : (⟨0, 0, type⟩ : QueueEntry).Sendable) :
    ∀ e ∈ splitEntries bubbleCnt type (lines file), e.Sendable := by
  induction file generalizing bubbleCnt type with
  | nil =>
    intro e he
    cases he
  | cons line file ih =>
    show ∀ e ∈ splitEntries bubbleCnt type ((parse line).zsimLine :: lines file), e.Sendable
    cases hparse : parse line with
    | empty =>
      intro e he
      cases he
    | malformed => exact forall_mem_cons.mpr ⟨htype, ih htype⟩
    | record r =>
      have hrecord : (⟨0, 0, r.type.getD type⟩ : QueueEntry).Sendable := by
        cases hr : r.type with
        | none => exact htype
        | some type' => exact parse_type hparse hr
      exact forall_mem_cons.mpr ⟨hrecord, ih hrecord⟩

theorem singleEntries_sendable (hregs : (⟨0, 0, regs.reqType⟩ : QueueEntry).Sendable) :
    ∀ e ∈ singleEntries regs file, e.Sendable := by
  induction file generalizing regs with
  | nil =>
    intro e he
    cases he
  | cons line file ih =>
    unfold singleEntries requests
    cases hparse : parse line with
    | empty =>
      intro e he
      cases he
    | malformed => exact ih hregs
    | record r =>
      have hrecord : (⟨0, 0, (regs.load r).reqType⟩ : QueueEntry).Sendable := by
        show (⟨0, 0, r.type.getD regs.reqType⟩ : QueueEntry).Sendable
        cases hr : r.type with
        | none => exact hregs
        | some type' => exact parse_type hparse hr
      dsimp only
      rw [filter_cons]
      split
      · exact forall_mem_cons.mpr ⟨hrecord, ih hrecord⟩
      · exact ih hrecord

end Entries

end Trace

/-! ## The queue of a single core -/

def oneCore : DispatchConfig := { numberCores := 1, disablePerScheduling := true, hmc := none }

theorem zsim_oneCore {base : MemoryBase τ}
    (hpages : ∀ m addr id, base.pageAllocator m addr id = .ok (addr, m)) (memory : τ)
    (regs : Trace.Regs) (file : List (List Char)) :
    ∃ d, Dispatcher.zsim oneCore base memory regs file = .ok d ∧
      d.queues = [Trace.singleEntries regs file] := by
  have hends : Ends (Dispatcher.zsim oneCore base memory regs file)
      (fun d => d.queues = [Trace.singleEntries regs file]) (fun _ => False) := by
    refine Dispatcher.zsimLoop_ends (I := fun done d => d.queues = [done.map Trace.Regs.entry])
      ?_ file regs [] rfl
    intro done d regs h haddr
    rw [Dispatcher.dispatch, if_neg haddr, if_pos (by decide), Dispatcher.dispatchByProcessor,
      if_pos (by decide), hpages]
    have hcore : regs.cpuId % oneCore.numberCores = 0 := Nat.mod_one _
    rw [hcore]
    show Ends (Vec.at d.queues (0 : Nat) >>= _) _ _
    rw [h]
    apply Ends.pure
    show [done.map Trace.Regs.entry ++ [regs.entry]] = _
    rw [map_append]
    rfl
  cases hrun : Dispatcher.zsim oneCore base memory regs file with
  | ok d => exact ⟨d, rfl, hends.result hrun⟩
  | error e => exact (hends.abort hrun).elim

/-! ## The modes in lockstep -/

def ZsimLine.IsRecord : ZsimLine → Prop
  | .record _ addr _ => addr ≠ -1
  | _ => False

namespace Core

variable {cfg : ProcessorConfig} {base : MemoryBase τ} {core : Core} {u : Uncore τ}

def single (core : Core) : Core :=
  core.withSource ⟨false, splitEntries 0 core.reqType core.tracePerCore, []⟩

def OnRecords (core : Core) : Prop :=
  core.splitTrace = true ∧ ∀ line ∈ core.tracePerCore, line.IsRecord

/-- The core with the split trace on the left. -/
def Twins (core core' : Core) : Prop := core.OnRecords ∧ core' = core.single

/-- The cores are twins, and what is around them is the same. -/
def TwinsIn (out out' : Core × Uncore τ) : Prop := out.1.Twins out'.1 ∧ out.2 = out'.2

theorem Twins.ite {core' core₁ core₁' : Core} {c : Prop} [Decidable c] (h : Twins core core')
    (h₁ : Twins core₁ core₁') :
    Twins (if c then core else core₁) (if c then core' else core₁') := by
  by_cases hc : c
  · rw [if_pos hc, if_pos hc]
    exact h
  · rw [if_neg hc, if_neg hc]
    exact h₁

section

variable (h : core.OnRecords)
include h

theorem countInst_twins : Twins core.countInst core.single.countInst := by
  unfold countInst
  apply Twins.ite
  · exact ⟨h, rfl⟩
  · exact ⟨h, rfl⟩

/-- The next line of the trace is the next entry of the queue. -/
theorem getZsimRequest_twins : Twins core.getZsimRequest core.single.popQueue := by
  obtain ⟨hsplit, hlines⟩ := h
  unfold Twins getZsimRequest popQueue single OnRecords
  cases htrace : core.tracePerCore with
  | nil => exact ⟨⟨hsplit, (fun _ hline => by cases hline)⟩, rfl⟩
  | cons line rest =>
    rw [htrace] at hlines
    obtain ⟨hline, hrest⟩ := forall_mem_cons.mp hlines
    cases line with
    | empty => exact hline.elim
    | malformed => exact hline.elim
    | record bubbleCnt addr type => exact ⟨⟨hsplit, hrest⟩, rfl⟩

theorem recordEnd_twins : Twins core.recordEnd core.single.recordEnd := by
  unfold recordEnd
  apply Twins.ite
  · exact ⟨h, rfl⟩
  · exact ⟨h, rfl⟩

theorem receive_twins (req : Request) :
    Twins (core.receive cfg req) (core.single.receive cfg req) := by
  unfold receive
  apply Twins.ite
  · exact ⟨h, rfl⟩
  · exact ⟨h, rfl⟩

end

theorem insertBubbles_twins (slots : Nat) (h : core.OnRecords) :
    Sim (SameOut Twins) (core.insertBubbles slots) (core.single.insertBubbles slots) := by
  induction slots generalizing core with
  | zero =>
    apply Sim.ite
    · intro _
      exact ⟨rfl, h, rfl⟩
    · intro _
      exact ⟨rfl, h, rfl⟩
  | succ slots ih =>
    apply Sim.ite
    · intro _
      apply Sim.ite
      · intro _
        exact ⟨rfl, h, rfl⟩
      · intro _
        apply Sim.bind_same
        intro window
        have hnext : OnRecords { core with window, bubbleCnt := core.bubbleCnt - 1 } := h
        obtain ⟨hcount, hsingle⟩ := countInst_twins hnext
        have hrest := ih hcount
        rw [← hsingle] at hrest
        exact hrest
    · intro _
      exact ⟨rfl, h, rfl⟩

theorem Alike.twins {out out' : Core × Uncore τ} (h : core.OnRecords)
    (halike : Alike core core.single.source Eq out out') : TwinsIn out out' := by
  obtain ⟨hsource, htype, hcore, hu⟩ := halike
  have hsplit : out.1.splitTrace = core.splitTrace := congrArg TraceSource.splitTrace hsource
  have hlines : out.1.tracePerCore = core.tracePerCore := congrArg TraceSource.tracePerCore hsource
  have hqueue : core.single.source =
      ⟨false, splitEntries 0 out.1.reqType out.1.tracePerCore, []⟩ := by
    rw [htype, hlines]
    rfl
  refine ⟨⟨⟨hsplit.trans h.1, ?_⟩, ?_⟩, Uncore.eq_of_rel hu⟩
  · rw [hlines]
    exact h.2
  · rw [hcore, hqueue]
    rfl

theorem issueOutOrder_twins (h : core.OnRecords) (slots : Nat) :
    Sim (SameOut TwinsIn) (core.issueOutOrder cfg base u slots)
      (core.single.issueOutOrder cfg base u slots) :=
  (issueOutOrder_alike base.simulates_self core core.single.source ⟨rfl, rfl, rfl⟩ slots).imp
    (fun _ _ hout => ⟨hout.1, hout.2.twins h⟩)

section Next

variable (hpages : ∀ m addr id, base.pageAllocator m addr id = .ok (addr, m))

include hpages in
theorem nextRequest_twins (h : core.OnRecords) :
    Sim TwinsIn (core.nextRequest base u) (core.single.nextRequest base u) := by
  have hsplit : core.nextRequest base u = .ok (core.getZsimRequest, u) := by
    rw [nextRequest, if_pos h.1, nextSplit]
    dsimp only
    rw [hpages]
    rfl
  rw [hsplit]
  exact ⟨getZsimRequest_twins h, rfl⟩

include hpages in
theorem requestOutOrder_twins (h : core.OnRecords) (slots : Nat) :
    Sim TwinsIn (core.requestOutOrder cfg base u slots)
      (core.single.requestOutOrder cfg base u slots) := by
  apply Sim.bind (issueOutOrder_twins h slots)
  rintro ⟨done, core₁, u₁⟩ ⟨done', core₁', u₁'⟩ ⟨hdone, ⟨h₁, hcore⟩, hu⟩
  cases hdone
  cases hcore
  cases hu
  apply Sim.ite
  · intro _
    apply Sim.bind (nextRequest_twins hpages h₁)
    rintro ⟨core₂, u₂⟩ ⟨core₂', u₂'⟩ ⟨⟨h₂, hcore⟩, hu⟩
    cases hcore
    cases hu
    exact ⟨recordEnd_twins h₂, rfl⟩
  · intro _
    exact ⟨⟨h₁, rfl⟩, rfl⟩

end Next

theorem tickTraced_twins {u : Uncore (Logged τ)} (hout : cfg.cpuType = .outOrder)
    (hpages : ∀ m addr id, base.pageAllocator m addr id = .ok (addr, m)) (h : core.OnRecords) :
    Sim (SameOut TwinsIn) (core.tickTraced cfg base u) (core.single.tickTraced cfg base u) := by
  unfold tickTraced
  rw [hout]
  apply Sim.bind_same
  rintro ⟨retired, window⟩
  apply Sim.ite
  · intro _
    exact ⟨rfl, ⟨h, rfl⟩, rfl⟩
  · intro _
    have hretired : OnRecords
        { core with clk := core.clk + 1, window, retired := core.retired + retired } := h
    apply Sim.bind (insertBubbles_twins Window.ipc hretired)
    rintro ⟨slots, core₁⟩ ⟨slots', core₁'⟩ ⟨hslots, h₁, hcore⟩
    cases hslots
    cases hcore
    cases slots with
    | none => exact ⟨rfl, ⟨h₁, rfl⟩, rfl⟩
    | some slots =>
      apply Sim.bind (requestOutOrder_twins (base.logged_pageAllocator hpages) h₁ slots)
      rintro ⟨core₂, u₂⟩ ⟨core₂', u₂'⟩ ⟨h₂, hu⟩
      cases hu
      exact ⟨rfl, h₂, rfl⟩

end Core

/-! ## Runs in both modes -/

namespace CoreRun

variable {cfg : ProcessorConfig} {base : MemoryBase τ} {E : Abort → Prop} {id : Int}

/-- The cores are twins, and they did the same to the same memory. -/
structure Twins (st st' : CoreRun τ) : Prop where
  core : st.core.Twins st'.core
  uncore : st.uncore = st'.uncore
  trace : st.trace = st'.trace

/-- A core with the file as its own trace.  The other members are what no
    constructor sets. -/
def splitWorkload (w : Workload) (file : List (List Char)) : Workload :=
  { w with splitTrace := true, rqstQueue := [], tracePerCore := Trace.lines file }

def singleWorkload (w : Workload) (q : List QueueEntry) : Workload :=
  { w with splitTrace := false, rqstQueue := q, tracePerCore := [] }

theorem step_twins (hout : cfg.cpuType = .outOrder)
    (hpages : ∀ m addr id, base.pageAllocator m addr id = .ok (addr, m)) {st st' : CoreRun τ}
    (h : st.Twins st') (op : CoreOp τ) :
    Sim Twins (st.step cfg base op) (st'.step cfg base op) := by
  obtain ⟨core, u, trace⟩ := st
  obtain ⟨core', u', trace'⟩ := st'
  obtain ⟨⟨hcore, hsingle⟩, hu, htrace⟩ := h
  cases hsingle
  cases hu
  cases htrace
  cases op with
  | tick =>
    apply Sim.bind (Core.tickTraced_twins hout hpages hcore)
    rintro ⟨events, core₁, u₁⟩ ⟨events', core₁', u₁'⟩ ⟨hevents, h₁, hu⟩
    cases hevents
    cases hu
    exact ⟨h₁, rfl, rfl⟩
  | receive req => exact ⟨Core.receive_twins hcore req, rfl, rfl⟩
  | memory m => exact ⟨⟨hcore, rfl⟩, rfl, rfl⟩

/-- Where the file is as it must be, the modes go in lockstep. -/
theorem run_twins (hout : cfg.cpuType = .outOrder)
    (hpages : ∀ m addr id, base.pageAllocator m addr id = .ok (addr, m)) {w : Workload}
    {regs : Trace.Regs} {file : List (List Char)}
    (hagree : Trace.Agree w.reqType regs.reqType file) (memory : τ) (ops : List (CoreOp τ)) :
    Sim Twins (run cfg base id (splitWorkload w file) memory ops)
      (run cfg base id (singleWorkload w (Trace.singleEntries regs file)) memory ops) := by
  have hrecords : (Processor.newCore id (splitWorkload w file)).OnRecords := by
    refine ⟨rfl, ?_⟩
    intro zsim hzsim
    obtain ⟨line, hline, rfl⟩ := mem_map.mp hzsim
    obtain ⟨r, hparse, haddr⟩ := (Trace.isGood_iff line).mp (hagree.1 line hline)
    rw [hparse]
    exact haddr
  have hsingle : Processor.newCore id (singleWorkload w (Trace.singleEntries regs file)) =
      (Processor.newCore id (splitWorkload w file)).single := by
    rw [← Trace.entries_eq_of_agree hagree]
    rfl
  apply Sim.bind (R := Twins)
  · unfold start
    rw [hsingle]
    apply Sim.bind (Core.nextRequest_twins (base.logged_pageAllocator hpages) hrecords)
    rintro ⟨core, u⟩ ⟨core', u'⟩ ⟨hcore, hu⟩
    exact ⟨hcore, hu, rfl⟩
  · intro st st' h
    exact Sim.foldlM ops h (fun _ _ op h => step_twins hout hpages h op)

section Finished

variable (hout : cfg.cpuType = .outOrder) (hcore : cfg.coreCaches = false)
  (hl3 : cfg.l3Cache = false) (hbase : ∀ m req, Ends (base.send m req) (fun _ => True) E)
  (hpages : ∀ m addr id, base.pageAllocator m addr id = .ok (addr, m))
  {w : Workload} (hlimit : w.expectedLimitInsts = 0) (memory : τ) (ops : List (CoreOp τ))

include hout hcore hl3 hbase hpages hlimit

theorem run_split_finished (file : List (List Char))
    (htype : (⟨0, 0, w.reqType⟩ : QueueEntry).Sendable) :
    Ends (run cfg base id (splitWorkload w file) memory ops)
      (fun st => st.core.finished = true → st.trace =
        (splitEntries w.bubbleCnt w.reqType (Trace.lines file)).flatMap (QueueEntry.trace id))
      E := by
  have hlimit' : (splitWorkload w file).expectedLimitInsts = 0 := hlimit
  have hfollows : Ends (run cfg base id (splitWorkload w file) memory ops)
      (Follows true id (splitEntries w.bubbleCnt w.reqType (Trace.lines file))) E :=
    run_follows hout hcore hl3 hbase (fun _ => hpages) rfl hlimit'
      (Trace.splitEntries_lines_sendable htype) memory ops
  exact hfollows.weaken (fun _ h => h.trace_of_finished)

theorem run_single_finished {q : List QueueEntry} (hsendable : ∀ e ∈ q, e.Sendable) :
    Ends (run cfg base id (singleWorkload w q) memory ops)
      (fun st => st.core.finished = true → st.trace = q.flatMap (QueueEntry.trace id)) E := by
  have hlimit' : (singleWorkload w q).expectedLimitInsts = 0 := hlimit
  have hfollows : Ends (run cfg base id (singleWorkload w q) memory ops) (Follows false id q) E :=
    run_follows hout hcore hl3 hbase (fun _ => hpages) rfl hlimit' hsendable memory ops
  exact hfollows.weaken (fun _ h => h.trace_of_finished)

end Finished

/-- One out-of-order core without translation.  If the file is as it must be, the
    modes go in lockstep; and two runs to the end have done the same only then. -/
theorem modes_agree_iff (hout : cfg.cpuType = .outOrder) (hcore : cfg.coreCaches = false)
    (hl3 : cfg.l3Cache = false) (hbase : ∀ m req, Ends (base.send m req) (fun _ => True) E)
    (hpages : ∀ m addr id, base.pageAllocator m addr id = .ok (addr, m)) (w : Workload)
    (regs : Trace.Regs) (file : List (List Char)) (hempty : [] ∉ file) (memory : τ) :
    ∃ d q, Dispatcher.zsim oneCore base memory regs file = .ok d ∧ d.queues = [q] ∧
      (Trace.Agree w.reqType regs.reqType file → ∀ ops,
        Sim (fun st st' => st.trace = st'.trace ∧ st.uncore = st'.uncore)
          (run cfg base id (splitWorkload w file) memory ops)
          (run cfg base id (singleWorkload w q) memory ops)) ∧
      (w.expectedLimitInsts = 0 → (⟨0, 0, w.reqType⟩ : QueueEntry).Sendable →
        (⟨0, 0, regs.reqType⟩ : QueueEntry).Sendable → ∀ ops ops',
        Ends (run cfg base id (splitWorkload w file) memory ops) (fun st =>
          Ends (run cfg base id (singleWorkload w q) memory ops') (fun st' =>
            st.core.finished = true → st'.core.finished = true →
              (st.trace = st'.trace ↔ Trace.Agree w.reqType regs.reqType file)) E) E) := by
  obtain ⟨d, hzsim, hqueues⟩ := zsim_oneCore hpages memory regs file
  refine ⟨d, Trace.singleEntries regs file, hzsim, hqueues, ?_, ?_⟩
  · intro hagree ops
    exact (run_twins hout hpages hagree memory ops).imp (fun _ _ h => ⟨h.trace, h.uncore⟩)
  · intro hlimit htype hregs ops ops'
    apply (run_split_finished hout hcore hl3 hbase hpages hlimit memory ops file htype).weaken
    intro st hst
    apply (run_single_finished hout hcore hl3 hbase hpages hlimit memory ops'
      (Trace.singleEntries_sendable hregs)).weaken
    intro st' hst' hfinished hfinished'
    rw [hst hfinished, hst' hfinished']
    constructor
    · intro htrace
      have hrequests := congrArg (List.filterMap CoreEvent.request) htrace
      rw [QueueEntry.filterMap_request_trace, QueueEntry.filterMap_request_trace] at hrequests
      exact Trace.agree_of_requests hempty htype hregs hrequests
    · intro hagree
      rw [Trace.entries_eq_of_agree hagree]

/-- Two records in both modes.  The first request is refused once, and the second
    record has the type of the first. -/
theorem modes_agree_iff_two_records : ∃ d q st st',
      Dispatcher.zsim oneCore .scripted [false] Dispatcher.firstRegs
          ["0 0 1 L 64".toList, "0 0 0 P 128".toList] = .ok d ∧ d.queues = [q] ∧
        run {} .scripted 0 (splitWorkload {} ["0 0 1 L 64".toList, "0 0 0 P 128".toList]) [false]
          [.tick, .tick, .tick] = .ok st ∧
        run {} .scripted 0 (singleWorkload {} q) [false] [.tick, .tick, .tick] = .ok st' ∧
        st.core.finished = true ∧ st.accepted.length = 2 ∧ st.trace = st'.trace := by
  obtain ⟨d, q, hzsim, hqueues, hlockstep, -⟩ := @modes_agree_iff _ {} .scripted _ 0 rfl rfl
    rfl MemoryBase.scripted_ends (fun _ _ _ => rfl) {} Dispatcher.firstRegs
    ["0 0 1 L 64".toList, "0 0 0 P 128".toList] (by decide) [false]
  have hmap : (run {} .scripted 0 (splitWorkload {} ["0 0 1 L 64".toList, "0 0 0 P 128".toList])
      [false] [.tick, .tick, .tick]).toOption.map
        (fun st => (st.core.finished, st.accepted.length)) = some (true, 2) := by decide +kernel
  obtain ⟨st, hrun, heq⟩ := exists_ok_of_map hmap
  have hsim := hlockstep ⟨by decide, Or.inl rfl⟩ [.tick, .tick, .tick]
  rw [hrun] at hsim
  cases hrun' : run {} .scripted 0 (singleWorkload {} q) [false] [.tick, .tick, .tick] with
  | ok st' =>
    rw [hrun'] at hsim
    exact ⟨d, q, st, st', hzsim, hqueues, hrun, hrun', congrArg Prod.fst heq,
      congrArg Prod.snd heq, hsim.1⟩
  | error e =>
    rw [hrun'] at hsim
    exact hsim.elim

/-- A line with too few fields between two records: with a split trace the core
    sends a read to the address -1 for it. -/
theorem short_line_sent : ∃ d q st st', Dispatcher.zsim oneCore .scripted [] Dispatcher.firstRegs
          ["0 0 1 L 64".toList, "0 0 3 L".toList, "0 0 0 S 128".toList] = .ok d ∧ d.queues = [q] ∧
        run {} .scripted 0
          (splitWorkload {} ["0 0 1 L 64".toList, "0 0 3 L".toList, "0 0 0 S 128".toList]) []
          [.tick, .tick, .tick] = .ok st ∧
        run {} .scripted 0 (singleWorkload {} q) [] [.tick, .tick, .tick] = .ok st' ∧
        st.core.finished = true ∧ st'.core.finished = true ∧
        st.accepted.map (fun req => (req.addr, req.type)) =
          [(64, .read), (-1, .read), (128, .write)] ∧
        st'.accepted.map (fun req => (req.addr, req.type)) = [(64, .read), (128, .write)] := by
  have hqueue : (Dispatcher.zsim oneCore .scripted [] Dispatcher.firstRegs
      ["0 0 1 L 64".toList, "0 0 3 L".toList, "0 0 0 S 128".toList]).toOption.map (·.queues) =
        some [[⟨1, 64, .read⟩, ⟨0, 128, .write⟩]] := by decide +kernel
  have hsplit : (run {} .scripted 0
      (splitWorkload {} ["0 0 1 L 64".toList, "0 0 3 L".toList, "0 0 0 S 128".toList]) []
      [.tick, .tick, .tick]).toOption.map (fun st =>
        (st.core.finished, st.accepted.map (fun req => (req.addr, req.type)))) =
        some (true, [(64, .read), (-1, .read), (128, .write)]) := by decide +kernel
  have hsingle : (run {} .scripted 0 (singleWorkload {} [⟨1, 64, .read⟩, ⟨0, 128, .write⟩]) []
      [.tick, .tick, .tick]).toOption.map (fun st =>
        (st.core.finished, st.accepted.map (fun req => (req.addr, req.type)))) =
        some (true, [(64, .read), (128, .write)]) := by decide +kernel
  obtain ⟨d, hzsim, hqueues⟩ := exists_ok_of_map hqueue
  obtain ⟨st, hrun, heq⟩ := exists_ok_of_map hsplit
  obtain ⟨st', hrun', heq'⟩ := exists_ok_of_map hsingle
  exact ⟨d, _, st, st', hzsim, hqueues, hrun, hrun', congrArg Prod.fst heq, congrArg Prod.fst heq',
    congrArg Prod.snd heq, congrArg Prod.snd heq'⟩

end CoreRun

end Ramulator
