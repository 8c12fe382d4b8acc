/-
  Ramulator.Wakeup

  A read wakes the instruction that waits for it, if its address is one of the
  memory.

  `tick_outOrder` puts the address it has sent into the window, and
  `Core::receive` compares it with the address the callback comes with, block
  by block.  In between the request is in the memory, which cuts its address to
  the capacity.  So the entry of the window that was inserted for a read
  (`Core.entryOf`, by the log of the accepted requests) is marked by the
  callback of the read exactly for the addresses of the memory
  (`callback_wakes_iff`); for another one the core waits for ever
  (`callback_misses_window`).
-/

import Ramulator.Hmc.Log
import Ramulator.Logged

namespace Ramulator

open Outcome List
open Ramulator.Core (SameBlock)
open Memory (LogOk)

/-! ## The windows and the log -/

def Request.isReadOf (i : Int) (req : Request) : Bool :=
  decide (req.type = .read) && !req.instructionRequest && decide (req.coreid = i) &&
    decide (0 ≤ req.addr)

def readsOf (i : Int) (log : List Request) : List (Request × Nat) :=
  log.zipIdx.filter fun x => x.1.isReadOf i

/-- The entries of a window for reads; bubbles have no address. -/
def Window.reads (w : Window) : List (Bool × Int) := w.entries.filter fun e => decide (0 ≤ e.2)

def Core.Tracks (core : Core) (log : List Request) : Prop :=
  core.window.reads.map (·.2) <:+ (readsOf core.id log).map (·.1.addr)

/-- The entry that was inserted into the window for request number `n`, if it
    is still there. -/
def Core.entryOf (core : Core) (log : List Request) (n : Nat) : Option (Bool × Int) :=
  let reads := readsOf core.id log
  let entries := core.window.reads
  (((reads.drop (reads.length - entries.length)).zip entries).find? fun x => x.1.2 = n).map (·.2)

variable {cfg : ProcessorConfig} {mem : MemoryConfig} {junk : Nat → Nat → Int} {log : List Request}
  {core core' : Core} {i n : Nat} {req raw : Request} {u' : Uncore (Logged Memory)} {ready : Bool}
  {τ : Type} {a : Int}

theorem readsOf_append (i : Int) (log : List Request) (req : Request) : readsOf i (log ++ [req]) =
      readsOf i log ++ if req.isReadOf i then [(req, log.length)] else [] := by
  unfold readsOf
  rw [zipIdx_append, filter_append]
  simp [filter_cons]

theorem readsOf_append_of_not (i : Int) (log : List Request) (h : req.isReadOf i = false) :
    readsOf i (log ++ [req]) = readsOf i log := by
  rw [readsOf_append, h]
  simp

theorem getElem?_of_mem_readsOf {i : Int} (h : (raw, n) ∈ readsOf i log) : log[n]? = some raw :=
  mem_zipIdx_iff_getElem?.mp (mem_of_mem_filter h)

namespace Core

variable {window : Window}

theorem Tracks.retire (h : core.Tracks log) (hwf : core.window.WF)
    (hretire : core.window.retire = .ok (n, window)) :
    window.WF ∧ window.reads.map (·.2) <:+ (readsOf core.id log).map (·.1.addr) := by
  obtain ⟨hwf', hentries, -⟩ := (Window.retire_ends hwf).result hretire
  refine ⟨hwf', List.IsSuffix.trans ?_ h⟩
  unfold Window.reads
  rw [hentries]
  exact ((drop_suffix n core.window.entries).filter _).map _

theorem insert_reads (hwf : core.window.WF) (hroom : core.window.isFull = false)
    (h : core.window.insert ready a = .ok window) :
    window.WF ∧ window.reads = core.window.reads ++ if 0 ≤ a then [(ready, a)] else [] := by
  obtain ⟨hwf', hentries⟩ := insert_entries hwf hroom h
  refine ⟨hwf', ?_⟩
  unfold Window.reads
  rw [hentries, filter_append]
  simp [filter_cons]

theorem Tracks.read (h : core.Tracks log) (hreads : window.reads = core.window.reads ++
      if 0 ≤ core.reqAddr then [(ready, core.reqAddr)] else []) :
    window.reads.map (·.2) <:+ (readsOf core.id (log ++ [core.request .read])).map (·.1.addr) := by
  have hread : (core.request .read).isReadOf core.id = decide (0 ≤ core.reqAddr) := by
    unfold Request.isReadOf request
    simp
  obtain ⟨gone, hgone⟩ := h
  rw [readsOf_append, hreads, hread]
  by_cases hle : 0 ≤ core.reqAddr
  · rw [if_pos hle, if_pos (decide_eq_true hle), map_append, map_append, ← hgone]
    exact ⟨gone, by simp [request]⟩
  · rw [if_neg hle, if_neg (by simpa using hle), append_nil, append_nil]
    exact ⟨gone, hgone⟩

/-- What a callback does to an entry of the window. -/
def marked (cfg : ProcessorConfig) (req : Request) (e : Bool × Int) : Bool × Int :=
  (e.1 || decide (Int.land e.2 (blockMask cfg) = Int.land req.addr (blockMask cfg)), e.2)

theorem receive_reads (cfg : ProcessorConfig) (hwf : core.window.WF) (req : Request) :
    (core.receive cfg req).window.WF ∧
      (core.receive cfg req).window.reads = core.window.reads.map (marked cfg req) := by
  obtain ⟨hwf', hentries⟩ := Window.setReady_entries hwf req.addr (blockMask cfg)
  unfold Window.reads
  rw [receive_window, hentries, filter_map]
  exact ⟨hwf', rfl⟩

theorem receive_id (cfg : ProcessorConfig) (core : Core) (req : Request) :
    (core.receive cfg req).id = core.id := by
  unfold receive
  dsimp only
  split
  · rfl
  · rfl

theorem Tracks.receive (h : core.Tracks log) (cfg : ProcessorConfig) (hwf : core.window.WF)
    (req : Request) : (core.receive cfg req).Tracks log := by
  unfold Tracks
  rw [(receive_reads cfg hwf req).2, receive_id, map_map]
  exact h

theorem Tracks.entryOf (h : core.Tracks log) (hlog : log[n]? = some raw)
    (hentry : core.entryOf log n = some (ready, a)) : a = raw.addr := by
  have hlist : Forall₂ (fun (x : Request × Nat) (e : Bool × Int) => e.2 = x.1.addr)
      ((readsOf core.id log).drop ((readsOf core.id log).length - core.window.reads.length))
      core.window.reads := by
    have heq := suffix_iff_eq_drop.mp h
    rw [length_map, length_map, ← map_drop] at heq
    have hforall := forall₂_eq_eq_eq ▸ heq.symm
    exact (forall₂_map_left_iff.mp (forall₂_map_right_iff.mp hforall)).imp (fun _ _ hxe => hxe.symm)
  unfold Core.entryOf at hentry
  obtain ⟨⟨⟨raw', n'⟩, e⟩, hfind, he⟩ := Option.map_eq_some_iff.mp hentry
  have hnumber := find?_some hfind
  have hn : n' = n := of_decide_eq_true hnumber
  have hmem := mem_of_find?_eq_some hfind
  -- the entry is paired with the request of its number
  have hread := getElem?_of_mem_readsOf (mem_of_mem_drop (of_mem_zip hmem).1)
  rw [hn, hlog] at hread
  cases hread
  have haddr : e.2 = raw.addr := (forall₂_iff_zip.mp hlist).2 hmem
  cases he
  exact haddr

theorem entryOf_receive (cfg : ProcessorConfig) (hwf : core.window.WF) (req : Request)
    (log : List Request) (n : Nat) :
    (core.receive cfg req).entryOf log n = (core.entryOf log n).map (marked cfg req) := by
  unfold Core.entryOf
  dsimp only
  rw [(receive_reads cfg hwf req).2, receive_id, length_map, zip_map_right, find?_map]
  rw [Option.map_map, Option.map_map]
  rfl

end Core

/-! ## The processor and the log -/

def CoresOk (log : List Request) (cores : List Core) : Prop :=
  ∀ (i : Nat) core, cores[i]? = some core → core.id = i ∧ core.window.WF ∧ core.Tracks log

def FromCore (n : Nat) (req : Request) : Prop :=
  req.callback = .processorReceive ∧ ∃ i : Nat, req.coreid = i ∧ i < n

/-- The invariant of a run without caches. -/
structure Tracked (mem : MemoryConfig) (p : Processor (Logged Memory)) : Prop where
  log : LogOk mem p.uncore.memory.accepted p.uncore.memory.memory
  sender : ∀ raw ∈ p.uncore.memory.accepted, FromCore p.cores.length raw
  cores : CoresOk p.uncore.memory.accepted p.cores

variable {p p' : Processor (Logged Memory)}

theorem Tracked.local (h : Tracked mem p) (hcore : p.cores[i]? = some core)
    (hid : core'.id = core.id) (hwf : core'.window.WF) (htracks : core'.window.reads.map (·.2) <:+
      (readsOf core.id p.uncore.memory.accepted).map (·.1.addr)) :
    Tracked mem ⟨p.cores.set i core', p.uncore⟩ := by
  obtain ⟨hcoreid, -, -⟩ := h.cores i core hcore
  refine ⟨h.log, ?_, Processor.forall_set h.cores ⟨hid.trans hcoreid, hwf, ?_⟩⟩
  · rw [length_set]
    exact h.sender
  · unfold Core.Tracks
    rw [hid]
    exact htracks

/-- A core sends a request.  If the memory takes it, it is the last of the
    log. -/
theorem Tracked.send {accepted : Bool} (hcaches : cfg.coreCaches = false)
    (hl3 : cfg.l3Cache = false) (h : Tracked mem p) (hcore : p.cores[i]? = some core)
    (hsend : core.send cfg (Memory.base mem junk).logged p.uncore req = .ok (accepted, core', u'))
    (hid : req.coreid = core.id) (hback : req.callback = .processorReceive) : core' = core ∧
      u'.memory.accepted = (if accepted then p.uncore.memory.accepted ++ [req]
        else p.uncore.memory.accepted) ∧
      ∀ core₁ : Core, core₁.id = core.id → core₁.window.WF → core₁.Tracks u'.memory.accepted →
        Tracked mem ⟨p.cores.set i core₁, u'⟩ := by
  obtain ⟨rfl, l', hsent, rfl⟩ := Core.send_memory hcaches hl3 hsend
  obtain ⟨⟨accepted', m'⟩, hsent', heq⟩ := bind_ok.mp hsent
  cases heq
  obtain ⟨hcoreid, -, -⟩ := h.cores i core' hcore
  refine ⟨rfl, rfl, fun core₁ hid₁ hwf htracks => ⟨h.log.send hsent', ?_, ?_⟩⟩
  · intro raw hraw
    rw [length_set]
    dsimp only at hraw
    split at hraw
    · rcases mem_append.mp hraw with hraw | hraw
      · exact h.sender raw hraw
      · rw [mem_singleton.mp hraw]
        exact ⟨hback, i, hid.trans hcoreid, (List.getElem?_eq_some_iff.mp hcore).1⟩
    · exact h.sender raw hraw
  · apply Processor.forall_set_ne
    · intro j core₂ hne hj
      obtain ⟨hcoreid₂, hwf₂, htracks₂⟩ := h.cores j core₂ hj
      refine ⟨hcoreid₂, hwf₂, ?_⟩
      -- the request is not one of this core
      have hother : req.isReadOf core₂.id = false := by
        have hne' : ¬ req.coreid = core₂.id := by
          rw [hid, hcoreid, hcoreid₂]
          omega
        unfold Request.isReadOf
        simp [hne']
      unfold Core.Tracks
      dsimp only
      split
      · rw [readsOf_append_of_not _ _ hother]
        exact htracks₂
      · exact htracks₂
    · exact ⟨hid₁.trans hcoreid, hwf, htracks⟩

/-- A request that is no read for data leaves the windows as they are. -/
theorem Tracked.sendOther {accepted : Bool} (hcaches : cfg.coreCaches = false)
    (hl3 : cfg.l3Cache = false) (h : Tracked mem p) (hcore : p.cores[i]? = some core)
    (hsend : core.send cfg (Memory.base mem junk).logged p.uncore req = .ok (accepted, core', u'))
    (hid : req.coreid = core.id) (hback : req.callback = .processorReceive)
    (hother : accepted = true → req.isReadOf core.id = false) :
    Tracked mem ⟨p.cores.set i core', u'⟩ := by
  obtain ⟨rfl, hlog, hstep⟩ := h.send hcaches hl3 hcore hsend hid hback
  obtain ⟨-, hwf, htracks⟩ := h.cores i core' hcore
  apply hstep core' rfl hwf
  rw [hlog]
  unfold Core.Tracks
  split
  · next haccepted =>
    rw [readsOf_append_of_not _ _ (hother haccepted)]
    exact htracks
  · exact htracks

theorem nextSplit_fields {u : Uncore (Logged Memory)}
    (hlog : LogOk mem u.memory.accepted u.memory.memory)
    (hnext : core.nextSplit (Memory.base mem junk).logged u = .ok (core', u')) :
    core'.window = core.window ∧ core'.id = core.id ∧ u'.memory.accepted = u.memory.accepted ∧
      LogOk mem u'.memory.accepted u'.memory.memory := by
  obtain ⟨⟨addr, l'⟩, halloc, heq⟩ := bind_ok.mp hnext
  obtain ⟨⟨addr', m'⟩, halloc', heq'⟩ := bind_ok.mp halloc
  cases heq'
  cases heq
  obtain ⟨hpages, honly, -, -⟩ := (Memory.pageAllocator_ends hlog.pages _ _).result halloc'
  have hmoved := core.getZsimRequest_movedOn
  exact ⟨hmoved.window, hmoved.id, rfl, hlog.pagesOnly honly hpages⟩

theorem tracked_kept (hcaches : cfg.coreCaches = false) (hl3 : cfg.l3Cache = false) :
    Processor.Kept cfg (Memory.base mem junk).logged (Tracked mem) := by
  intro p i core core' u' h hcore hstep
  obtain ⟨hcoreid, hwf, htracks⟩ := h.cores i core hcore
  cases hstep with
  | count => exact h.local hcore rfl hwf htracks
  | @retire n window hretire =>
    obtain ⟨hwf', htracks'⟩ := htracks.retire hwf hretire
    exact h.local hcore rfl hwf' htracks'
  | @bubble window hout hroom hinsert =>
    obtain ⟨hwf', hreads⟩ := Core.insert_reads hwf hroom hinsert
    rw [if_neg (by omega), append_nil] at hreads
    have htracks' : window.reads.map (·.2) <:+
        (readsOf core.id p.uncore.memory.accepted).map (·.1.addr) := by
      rw [hreads]
      exact htracks
    exact h.local hcore rfl hwf' htracks'
  | @read core₁ u₁ window hout hbusy htype hroom hsend hinsert =>
    obtain ⟨rfl, hlog, hsent⟩ := h.send hcaches hl3 hcore hsend rfl rfl
    obtain ⟨hwf', hreads⟩ := Core.insert_reads hwf hroom hinsert
    apply hsent
    · rfl
    · exact hwf'
    · rw [hlog, if_pos rfl]
      exact htracks.read hreads
  | refused hbusy htype hsend =>
    exact h.sendOther hcaches hl3 hcore hsend rfl rfl (fun haccepted => by cases haccepted)
  | write hbusy htype hsend =>
    exact h.sendOther hcaches hl3 hcore hsend rfl rfl (fun _ => rfl)
  | instruction hbusy htype hsend =>
    exact h.sendOther hcaches hl3 hcore hsend rfl rfl (fun _ => rfl)
  | pop =>
    have hmoved := core.popQueue_movedOn
    apply h.local hcore hmoved.id
    · rw [hmoved.window]
      exact hwf
    · rw [hmoved.window]
      exact htracks
  | split hsplit hnext =>
    obtain ⟨hwindow, hid, hlog, hlogok⟩ := nextSplit_fields h.log hnext
    refine ⟨hlogok, ?_, ?_⟩
    · rw [hlog, length_set]
      exact h.sender
    · rw [hlog]
      refine Processor.forall_set h.cores ⟨hid.trans hcoreid, ?_, ?_⟩
      · rw [hwindow]
        exact hwf
      · unfold Core.Tracks
        rw [hwindow, hid]
        exact htracks

/-! ## Callbacks -/

theorem receive_noCaches {p : Processor τ} (hcaches : cfg.coreCaches = false)
    (hl3 : cfg.l3Cache = false) (hcore : p.cores[i]? = some core) (hid : req.coreid = i) :
    p.receive cfg req = .ok ⟨p.cores.set i (core.receive cfg req), p.uncore⟩ := by
  have hat : Vec.at p.cores req.coreid = .ok core := by
    unfold Vec.at
    rw [hid, if_neg (by omega), Int.toNat_natCast, hcore]
  unfold Processor.receive Processor.callbackLlc Processor.callbackCores
  rw [if_neg (by simp [hl3]), if_neg (by simp [hcaches])]
  refine bind_ok.mpr ⟨p.uncore.llc, rfl, bind_ok.mpr ⟨p.cores, rfl, bind_ok.mpr ⟨core, hat, ?_⟩⟩⟩
  rw [hid, Int.toNat_natCast]
  rfl

theorem runCallback_fromCore {p : Processor τ} (hcaches : cfg.coreCaches = false)
    (hl3 : cfg.l3Cache = false) (hfrom : FromCore p.cores.length req) :
    ∃ (i : Nat) (core : Core), req.coreid = i ∧ p.cores[i]? = some core ∧
      p.runCallback cfg req = .ok ⟨p.cores.set i (core.receive cfg req), p.uncore⟩ := by
  obtain ⟨hback, i, hid, hlt⟩ := hfrom
  refine ⟨i, p.cores[i], hid, getElem?_eq_getElem hlt, ?_⟩
  unfold Processor.runCallback
  rw [hback]
  exact receive_noCaches hcaches hl3 (getElem?_eq_getElem hlt) hid

theorem CoresOk.receive {cores : List Core} (h : CoresOk log cores) (cfg : ProcessorConfig)
    (hcore : cores[i]? = some core) (req : Request) :
    CoresOk log (cores.set i (core.receive cfg req)) := by
  obtain ⟨hid, hwf, htracks⟩ := h i core hcore
  apply Processor.forall_set h
  exact ⟨(Core.receive_id cfg core req).trans hid, (Core.receive_reads cfg hwf req).1,
    htracks.receive cfg hwf req⟩

theorem CoresOk.callbacks {p : Processor τ} (hcaches : cfg.coreCaches = false)
    (hl3 : cfg.l3Cache = false) (h : CoresOk log p.cores) (done : List Request)
    (hfrom : ∀ r ∈ done, FromCore p.cores.length r) :
    Yields (done.foldlM (Processor.runCallback cfg) p)
      (fun q => CoresOk log q.cores ∧ q.cores.length = p.cores.length ∧ q.uncore = p.uncore) := by
  apply Ends.foldlM (I := fun q : Processor τ => CoresOk log q.cores ∧
    q.cores.length = p.cores.length ∧ q.uncore = p.uncore) done ⟨h, rfl, rfl⟩
  rintro q r hr ⟨hq, hlength, huncore⟩
  have hfrom' : FromCore q.cores.length r := by
    rw [hlength]
    exact hfrom r hr
  obtain ⟨i, core, -, hcore, hrun⟩ := runCallback_fromCore hcaches hl3 hfrom'
  rw [hrun]
  refine ⟨hq.receive cfg hcore r, ?_, huncore⟩
  rw [length_set]
  exact hlength

theorem mem_events_of_callbacksSince {m m' : Memory} (h : req ∈ m.callbacksSince m') :
    .callback req ∈ m'.events := by
  obtain ⟨e, he, heq⟩ := mem_filterMap.mp h
  cases e with
  | delivered packet => cases heq
  | callback r =>
    cases heq
    exact mem_of_mem_drop he

theorem tick_traced {m m' : Memory} {done : List Request} (h : LogOk mem log m)
    (htick : (Memory.base mem junk).tick m = .ok (done, m')) :
    LogOk mem log m' ∧ ∀ r ∈ done, ∃ (n : Nat) (raw : Request), r.reqid = n ∧
      log[n]? = some raw ∧ Memory.Accepted mem raw r := by
  obtain ⟨m₁, htick', heq⟩ := bind_ok.mp htick
  cases heq
  have h' := h.tick htick'
  refine ⟨h', fun r hr => ?_⟩
  obtain ⟨n, raw, hn, hraw, haccepted⟩ := h'.every.callback r (mem_events_of_callbacksSince hr)
  exact ⟨n, raw, hn, hraw, haccepted.addr, haccepted.type, haccepted.coreid, haccepted.callback⟩

theorem FromCore.accepted (h : FromCore n raw) (haccepted : Memory.Accepted mem raw req) :
    FromCore n req := by
  obtain ⟨hback, i, hid, hlt⟩ := h
  exact ⟨haccepted.callback.trans hback, i, haccepted.coreid.trans hid, hlt⟩

/-! ## Runs -/

theorem tracked_tick (hcaches : cfg.coreCaches = false) (hl3 : cfg.l3Cache = false)
    (h : Tracked mem p) : Yields (p.tick cfg (Memory.base mem junk).logged) (Tracked mem) := by
  apply Ends.bind (Q := Tracked mem)
  · unfold Processor.tickCaches
    rw [if_neg (by simp [hcaches, hl3])]
    exact h
  · intro p₁ hp₁
    exact Processor.tickCores_ends (tracked_kept hcaches hl3) hp₁ _

theorem tracked_tickMemory (hcaches : cfg.coreCaches = false) (hl3 : cfg.l3Cache = false)
    (h : Tracked mem p) :
    Yields (p.tickMemory cfg (Memory.base mem junk).logged) (Tracked mem) := by
  apply Ends.bind (Q := fun out => (Memory.base mem junk).logged.tick p.uncore.memory = .ok out)
    (Ends.ran _)
  rintro ⟨done, l'⟩ htick
  obtain ⟨⟨done', m'⟩, htick', heq⟩ := bind_ok.mp htick
  cases heq
  obtain ⟨hlog, htraced⟩ := tick_traced h.log htick'
  have hfrom : ∀ r ∈ done, FromCore p.cores.length r := by
    intro r hr
    obtain ⟨n, raw, -, hraw, haccepted⟩ := htraced r hr
    exact (h.sender raw (mem_of_getElem? hraw)).accepted haccepted
  have hends := CoresOk.callbacks (p := ⟨p.cores, { p.uncore with
    memory := { p.uncore.memory with memory := m' } }⟩) hcaches hl3 h.cores done hfrom
  refine hends.yields ?_
  rintro ⟨cores, u⟩ ⟨hcores, hlength, rfl⟩
  refine ⟨hlog, ?_, hcores⟩
  rw [hlength]
  exact h.sender

theorem tracked_addCore (h : Tracked mem p) (w : Workload) :
    Yields (p.addCore (Memory.base mem junk).logged w) (Tracked mem) := by
  have hadd : ∀ (core : Core) (u' : Uncore (Logged Memory)), core.window = {} →
      core.id = p.cores.length → u'.memory.accepted = p.uncore.memory.accepted →
      LogOk mem u'.memory.accepted u'.memory.memory → Tracked mem ⟨p.cores ++ [core], u'⟩ := by
    intro core u' hwindow hid hlog hlogok
    refine ⟨hlogok, ?_, ?_⟩
    · rw [hlog]
      intro raw hraw
      obtain ⟨hback, i, hi, hlt⟩ := h.sender raw hraw
      refine ⟨hback, i, hi, ?_⟩
      rw [length_append]
      omega
    · rw [hlog]
      apply Processor.forall_append h.cores
      refine ⟨hid, ?_, ?_⟩
      · rw [hwindow]
        exact Window.WF.new
      · unfold Core.Tracks
        rw [hwindow]
        exact nil_suffix
  apply Ends.bind (Q := fun out => Tracked mem ⟨p.cores ++ [out.1], out.2⟩)
  · apply Ends.ite
    · intro _
      apply Ends.intro
      · rintro ⟨core, u'⟩ hnext
        obtain ⟨hwindow, hid, hlog, hlogok⟩ := nextSplit_fields h.log hnext
        exact hadd core u' hwindow hid hlog hlogok
      · intro _ _
        trivial
    · intro _
      have hmoved := (Processor.newCore p.cores.length w).popQueue_movedOn
      exact hadd _ p.uncore hmoved.window hmoved.id rfl h.log
  · rintro ⟨core, u'⟩ hp'
    exact hp'

theorem tracked_run (hcaches : cfg.coreCaches = false) (hl3 : cfg.l3Cache = false) {m₀ : Memory}
    (hm₀ : LogOk mem [] m₀) (workloads : List Workload) (cycles : List Cycle) :
    Yields (Processor.run cfg (Memory.base mem junk).logged ⟨m₀, []⟩ workloads cycles)
      (Tracked mem) := by
  apply Processor.run_ends
  · have hinit : Tracked mem ⟨[], { memory := ⟨m₀, []⟩ }⟩ := by
      refine ⟨hm₀, fun raw hraw => ?_, fun i core hcore => ?_⟩
      · cases hraw
      · cases hcore
    exact Ends.foldlM workloads hinit (fun _ w _ hp => tracked_addCore hp w)
  · intro p hp
    exact tracked_tick hcaches hl3 hp
  · intro p hp
    exact tracked_tickMemory hcaches hl3 hp

theorem sameBlock_iff (cfg : ProcessorConfig) (a b : Int) :
    SameBlock cfg a b ↔ a / 2 ^ 6 = b / 2 ^ 6 :=
  Bits.land_lnot_eq_iff a b 6

theorem entryOf_nonneg (h : core.entryOf log n = some (ready, a)) : 0 ≤ a := by
  obtain ⟨⟨x, e⟩, hfind, he⟩ := Option.map_eq_some_iff.mp h
  have hmem := (of_mem_zip (mem_of_find?_eq_some hfind)).2
  cases he
  exact of_decide_eq_true (mem_filter.mp hmem).2

/-- The callback of an accepted read, in any run without caches: it comes with
    the block of the window's address if and only if the address is one of the
    memory, and then marks the entry of the window for the read.  `accepted` is
    the log of the run. -/
theorem callback_wakes_iff {k : Nat} (hcaches : cfg.coreCaches = false)
    (hl3 : cfg.l3Cache = false) (hpow : mem.maxAddress = 2 ^ k) (hblock : 6 ≤ k) {m₀ : Memory}
    (hpages : Memory.PagesOk mem m₀) (hm₀ : (Memory.new mem).PagesOnly m₀)
    {workloads : List Workload} {cycles : List Cycle} {p q : Processor Memory}
    (hrun : Processor.run cfg (Memory.base mem junk) m₀ workloads cycles = .ok p)
    {before after : List Request} {r : Request} {m' : Memory}
    (htick : (Memory.base mem junk).tick p.uncore.memory = .ok (before ++ r :: after, m'))
    (hbefore : before.foldlM (Processor.runCallback cfg)
      ⟨p.cores, { p.uncore with memory := m' }⟩ = .ok q) :
    ∃ (accepted : List Request) (raw : Request) (i : Nat) (core : Core),
      Processor.run cfg (Memory.base mem junk).logged ⟨m₀, []⟩ workloads cycles =
        .ok ⟨p.cores, { p.uncore with memory := ⟨p.uncore.memory, accepted⟩ }⟩ ∧
      accepted[r.reqid.toNat]? = some raw ∧ raw.type = r.type ∧ raw.coreid = i ∧
      q.cores[i]? = some core ∧ core.Tracks accepted ∧
      q.runCallback cfg r = .ok ⟨q.cores.set i (core.receive cfg r), q.uncore⟩ ∧
      (0 ≤ raw.addr → (SameBlock cfg raw.addr r.addr ↔ raw.addr < mem.maxAddress)) ∧
      ∀ ready a, core.entryOf accepted r.reqid.toNat = some (ready, a) →
        a = raw.addr ∧ (core.receive cfg r).entryOf accepted r.reqid.toNat =
          some (ready || decide (raw.addr < mem.maxAddress), raw.addr) := by
  -- the same run with the log
  obtain ⟨⟨cores, ⟨cachesys, llc, ⟨m, accepted⟩⟩⟩, hlogged, hcores, hcachesys, hllc, hm⟩ :=
    (run_logged cfg (Memory.base mem junk) m₀ workloads cycles).exists_left hrun
  dsimp only at hcores hcachesys hllc hm
  subst hcores hcachesys hllc hm
  have htracked := (tracked_run hcaches hl3 ((LogOk.new mem).pagesOnly hm₀ hpages) workloads
    cycles).result hlogged
  obtain ⟨hlog, htraced⟩ := tick_traced htracked.log htick
  have hfrom : ∀ r' ∈ before ++ r :: after, FromCore p.cores.length r' := by
    intro r' hr'
    obtain ⟨n, raw, -, hraw, haccepted⟩ := htraced r' hr'
    exact (htracked.sender raw (mem_of_getElem? hraw)).accepted haccepted
  obtain ⟨n, raw, hn, hraw, haccepted⟩ :=
    htraced r (mem_append_right _ mem_cons_self)
  -- the callbacks before it
  obtain ⟨hcoresq, hlength, -⟩ := (CoresOk.callbacks (p := ⟨p.cores, { p.uncore with
    memory := m' }⟩) hcaches hl3 htracked.cores before
    (fun r' hr' => hfrom r' (mem_append_left _ hr'))).result hbefore
  have hfromq : FromCore q.cores.length r := by
    rw [hlength]
    exact hfrom r (mem_append_right _ mem_cons_self)
  obtain ⟨i, core, hid, hcore, hcallback⟩ := runCallback_fromCore hcaches hl3 hfromq
  obtain ⟨-, hwf, htracks⟩ := hcoresq i core hcore
  have hwakes : 0 ≤ raw.addr → (SameBlock cfg raw.addr r.addr ↔ raw.addr < mem.maxAddress) := by
    intro hnonneg
    rw [sameBlock_iff, haccepted.addr]
    exact Memory.cutAddr_block_iff hpow hblock hnonneg
  have hnat : r.reqid.toNat = n := by
    rw [hn, Int.toNat_natCast]
  rw [hnat]
  refine ⟨accepted, raw, i, core, hlogged, hraw, haccepted.type.symm,
    haccepted.coreid.symm.trans hid, hcore, htracks, hcallback, hwakes, ?_⟩
  intro ready a hentry
  have haddr := htracks.entryOf hraw hentry
  have hnonneg : 0 ≤ raw.addr := by
    rw [← haddr]
    exact entryOf_nonneg hentry
  refine ⟨haddr, ?_⟩
  have hmark : decide (Int.land raw.addr (Core.blockMask cfg) =
      Int.land r.addr (Core.blockMask cfg)) = decide (raw.addr < mem.maxAddress) :=
    decide_eq_decide.mpr (hwakes hnonneg)
  rw [Core.entryOf_receive cfg hwf, hentry, haddr, Option.map_some, Core.marked, hmark]

def readAt (addr : Int) : Workload where
  rqstQueue := [⟨0, addr, .read⟩]

def readRun (addr : Int) : Except Abort (Processor Memory) :=
  Processor.run {} (Memory.base (Memory.smallStack 4) fun _ _ => 0)
    (Memory.new (Memory.smallStack 4)) [readAt addr] (.cpu :: replicate 46 .mem)

/-- The read of address 64 wakes its instruction. -/
theorem callback_wakes_iff_readAt :
    ∃ (p : Processor Memory) (r : Request) (m' : Memory) (accepted : List Request) (i : Nat)
      (core : Core), readRun 64 = .ok p ∧
      (Memory.base (Memory.smallStack 4) fun _ _ => 0).tick p.uncore.memory = .ok ([r], m') ∧
      p.cores[i]? = some core ∧ core.entryOf accepted 0 = some (false, 64) ∧
      (core.receive {} r).entryOf accepted 0 = some (true, 64) := by
  have heval : (readRun 64 >>= fun p =>
      (Memory.base (Memory.smallStack 4) fun _ _ => 0).tick p.uncore.memory).toOption.map
        (fun out => out.1.map fun r => r.reqid) = some [0] := by decide +kernel
  have hlogeval : (Processor.run {} (Memory.base (Memory.smallStack 4) fun _ _ => 0).logged
      ⟨Memory.new (Memory.smallStack 4), []⟩ [readAt 64]
      (.cpu :: replicate 46 .mem)).toOption.map
        (fun p => p.cores.map fun core => core.entryOf p.uncore.memory.accepted 0) =
        some [some (false, 64)] := by decide +kernel
  obtain ⟨⟨done, m'⟩, hcycle, hids⟩ := exists_ok_of_map heval
  obtain ⟨p, hrun, htick⟩ := bind_ok.mp hcycle
  obtain ⟨r, hdone, hid⟩ := map_eq_singleton_iff.mp hids
  dsimp only at hdone
  subst hdone
  have hpow : (Memory.smallStack 4).maxAddress = 2 ^ 11 := by decide
  have hfirst : (Memory.base (Memory.smallStack 4) fun _ _ => 0).tick p.uncore.memory =
      .ok ([] ++ r :: [], m') := htick
  obtain ⟨accepted, raw, i, core, hlogged, hraw, -, -, hcore, -, -, -, hentry⟩ :=
    callback_wakes_iff rfl rfl hpow (by omega) (Memory.PagesOk.new _) ⟨_, _, _, _, rfl⟩ hrun
      hfirst rfl
  rw [hlogged] at hlogeval
  have hentries := Option.some.inj hlogeval
  have hself : core.entryOf accepted 0 = some (false, 64) :=
    mem_singleton.mp (hentries ▸ mem_map_of_mem (mem_of_getElem? hcore))
  rw [hid] at hentry
  obtain ⟨haddr, hwoken⟩ := hentry false 64 hself
  rw [← haddr] at hwoken
  exact ⟨p, r, m', accepted, i, core, hrun, htick, hcore, hself, hwoken⟩

/-- The read of address 2112, beyond the 2048 bytes of the small stack, comes
    back with address 64, and its instruction is not marked. -/
theorem callback_misses_window :
    ∃ (p q : Processor Memory) (r : Request) (m' : Memory), readRun 2112 = .ok p ∧
      (Memory.base (Memory.smallStack 4) fun _ _ => 0).tick p.uncore.memory = .ok ([r], m') ∧
      Processor.runCallback {} ⟨p.cores, { p.uncore with memory := m' }⟩ r = .ok q ∧
      r.type = .read ∧ r.addr = 64 ∧
      q.cores.map (fun core => core.window.entries) = [[(false, 2112)]] := by
  have heval : (readRun 2112 >>= fun p =>
      (Memory.base (Memory.smallStack 4) fun _ _ => 0).tick p.uncore.memory >>= fun out =>
      out.1.foldlM (Processor.runCallback {}) ⟨p.cores, { p.uncore with memory := out.2 }⟩ >>=
      fun q => pure (out.1.map (fun r => (r.type, r.addr)),
        q.cores.map fun core => core.window.entries)).toOption.map id =
        some ([(.read, 64)], [[(false, 2112)]]) := by decide +kernel
  obtain ⟨seen, hrun, rfl⟩ := exists_ok_of_map heval
  obtain ⟨p, hp, hrun⟩ := bind_ok.mp hrun
  obtain ⟨⟨done, m'⟩, htick, hrun⟩ := bind_ok.mp hrun
  obtain ⟨q, hq, hseen⟩ := bind_ok.mp hrun
  obtain ⟨hdone, hwindow⟩ := Prod.mk.inj (Except.ok.inj hseen)
  obtain ⟨r, rfl, hr⟩ := map_eq_singleton_iff.mp hdone
  obtain ⟨htype, haddr⟩ := Prod.mk.inj hr
  obtain ⟨q', hcallback, hq'⟩ := bind_ok.mp hq
  cases hq'
  exact ⟨p, q, r, m', hp, htick, hcallback, htype, haddr, hwindow⟩

end Ramulator
