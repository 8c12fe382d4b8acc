/-
  Ramulator.Hmc.Refreshes

  Refreshes of a vault do not pile up.

  Every `nREFI` cycles `inject_refresh` puts one refresh into `otherq`.  From
  then on `tick` schedules from `otherq` only, and with rows left open there
  are no speculative precharges, so nothing is issued but `PREA`, if a row is
  open, and `REF`.  Both wait for entries of earlier commands at the root of
  the vault alone, and no entry for them is longer than `nRFC`.
-/

import Mathlib.Data.List.Chain
import Ramulator.Hmc.VaultTiming

namespace Ramulator

open Outcome HMC List

/-! ## A queue with one request -/

namespace Scheduler

variable {C S : Type}

theorem getHead_singleton (spec : Spec C S) (view : View) (preScope : Nat)
    (type : SchedulerType) (req : Request) (table : RowTable) (hopen : view.isRowOpen req = false) :
    getHead spec view preScope type [req] table = (some (0, req), table) := by
  have hviolates : violatesHit view preScope [req] req = false := by simp [violatesHit, hopen]
  cases type with
  | fcfs | frfcfs | frfcfsCap => rfl
  | frfcfsPriorHit =>
    show (if view.isReady req && view.isRowHit req then (some (0, req), table)
      else bestOf spec view .frfcfs (([(0, req)] : List (Nat × Request)).filter fun itr =>
        !violatesHit view preScope [req] itr.2) table) = (some (0, req), table)
    split
    · rfl
    · rw [filter_cons, hviolates]
      rfl

end Scheduler

namespace Controller

variable {cfg : ControllerConfig} {vault junk time : Int} {c c' : Controller} {req : Request}

/-! ## The commands of a refresh -/

/-- The next command of a refresh: close the open rows, or refresh. -/
theorem firstCmd_refresh (h : TreeInv cfg vault c) (hlat : cfg.noDramLatency = false)
    (hreq : Admitted cfg.hmc vault .refresh req) (junk : Int) :
    (c.getFirstCmd cfg junk req = .prea ∧ ∃ p, c.banks p ≠ none) ∨
      (c.getFirstCmd cfg junk req = .ref ∧ ∀ p, c.banks p = none) := by
  have hfirst : c.getFirstCmd cfg junk req = if anyBankOpen c.channel then .prea else .ref := by
    rw [getFirstCmd_eq hlat, show req.type = .refresh from hreq.1]
    exact decode_refresh h.shape
  rw [hfirst]
  by_cases hany : anyBankOpen c.channel = true
  · rw [if_pos hany]
    exact Or.inl ⟨rfl, (anyBankOpen_iff h.tree).mp hany⟩
  · rw [if_neg hany]
    refine Or.inr ⟨rfl, fun p => ?_⟩
    by_contra hp
    exact hany ((anyBankOpen_iff h.tree).mpr ⟨p, hp⟩)

/-- The next command of a read or a write opens or closes a row, or is its column command. -/
theorem firstCmd_column (hpowerUp : c.channel.val.state = .powerUp)
    (hshape : DRAM.WellShaped cfg.hmc.spec Level.vault vault c.channel)
    (hlat : cfg.noDramLatency = false) (htype : req.type = .read ∨ req.type = .write)
    (hrange : InRange cfg.hmc vault req.addrVec) (junk : Int) :
    c.getFirstCmd cfg junk req ∈ [.act, .pre, .rd, .wr] ∧
      (anyBankOpen c.channel = false → c.getFirstCmd cfg junk req = .act) := by
  rw [getFirstCmd_eq hlat]
  have hcmd := translate_column htype
  obtain ⟨hcases, hact⟩ := decode_column_cases hpowerUp hshape hrange hcmd
  refine ⟨?_, hact⟩
  rcases hcases with hd | hd | hd <;> rw [hd]
  · simp
  · simp
  · rcases hcmd with hcmd | hcmd <;> simp [hcmd]

section

variable (hshape : DRAM.WellShaped cfg.hmc.spec Level.vault vault c.channel)
include hshape

theorem lt_next_of_not_ready {cmd : Command} {v : AddrVec} (hv : v = [vault, -1, -1, -1, -1])
    (hnot : c.isReadyCmd cfg junk cmd v = false) : c.clk < c.channel.val.next cmd := by
  have hlevel := hshape.val_level
  unfold isReadyCmd at hnot
  generalize c.channel = t at hnot hlevel ⊢
  obtain ⟨n, k, f⟩ := t
  rw [NodeTree.val_node] at hlevel ⊢
  rw [DRAM.check] at hnot
  split at hnot
  · next hwait => exact hwait.2
  · rw [hlevel, hv] at hnot
    simp [AddrVec.data] at hnot

theorem isRowOpen_refresh (hreq : Admitted cfg.hmc vault .refresh req) (junk : Int) :
    c.isRowOpen cfg junk req = false := by
  have hlevel := hshape.val_level
  obtain ⟨htype, hv⟩ := hreq
  unfold isRowOpen
  generalize c.channel = t at hlevel ⊢
  obtain ⟨n, k, f⟩ := t
  rw [NodeTree.val_node] at hlevel
  have hnone : cfg.hmc.spec.rowopen n.level (HMC.translate req.type) = none := by
    rw [hlevel, htype]
    rfl
  rw [DRAM.checkRowOpen, hnone]
  simp [hlevel, hv, AddrVec.data]

end

theorem admitted_vault {hmc : HMC} {type : RequestType} (hreq : Admitted hmc vault type req)
    (junk : Int) : req.addrVec.data junk Level.vault = vault := by
  rcases hreq.cases with ⟨-, hrange⟩ | ⟨-, haddr⟩
  · rw [data_eq_getD (by rw [hrange.length]; decide), hrange.vault]
  · rw [haddr]
    rfl

/-! ## The fourth step of a tick -/

/-- What serving a request does to the trace, `otherq` and the refresh clock. -/
structure Serves (cfg : ControllerConfig) (vault : Int) (c : Controller) (type : RequestType)
    (req : Request) (cmd : Command) (c' : Controller) : Prop where
  timed : Timed cfg vault c'
  tree : TreeInv cfg vault c'
  queues : QueueInv cfg vault c'
  clk : c'.clk = c.clk
  refresh : c'.refresh = c.refresh
  trace : c'.cmdTrace = { clk := c.clk, cmd, addrVec := req.addrVec } :: c.cmdTrace
  column : type = .read ∨ type = .write → cmd ≠ .ref ∧ c'.otherq = c.otherq
  refreshed : type = .refresh → (cmd = .prea ∧ ∃ p, c.banks p ≠ none) ∨
    (cmd = .ref ∧ ∀ p, c.banks p = none)
  otherq : type = .refresh → c.otherq = [req] → req.burstCount = 0 →
    c'.otherq = if cmd = .ref then [] else [started req]

theorem serveHead_serves (htree : TreeInv cfg vault c) (hqueues : QueueInv cfg vault c)
    (htimed : Timed cfg vault c) (hlat : cfg.noDramLatency = false) {type : RequestType} {i : Nat}
    (hi : (c.getQueue type)[i]? = some req) :
    Ends (c.serveHead cfg junk type i req) (fun c' => ∃ cmd, Serves cfg vault c type req cmd c')
      (fun e => e ≠ .refreshEnqueue) := by
  have hadmitted : Admitted cfg.hmc vault type (started req) :=
    (hqueues type req (mem_of_getElem? hi)).congr rfl rfl
  unfold serveHead
  refine Ends.bind ((firstCommand_ends cfg c junk hi).weaken_abort ?_) ?_
  · rintro e he rfl
    cases he
  rintro _ ⟨channel, hrel, rfl⟩
  -- the first command leaves the banks alone
  obtain ⟨c₁, hc₁⟩ : ∃ c₁, c₁ =
      { c.setQueue type ((c.getQueue type).set i (started req)) with channel } := ⟨_, rfl⟩
  have hquiet₁ : Quiet c c₁ := by
    rw [hc₁]
    exact .started hrel type _
  have htree₁ : TreeInv cfg vault c₁ := htree.frame hquiet₁.channel hquiet₁.trace
  have hqueues₁ : QueueInv cfg vault c₁ := by
    rw [hc₁]
    exact (hqueues.set hadmitted).frame rfl rfl rfl
  have hstate : c₁.banks = c.banks := by simp only [Controller.banks, hquiet₁.trace]
  have hotherq₁ : type = .refresh → c.otherq = [req] → i = 0 ∧ c₁.otherq = [started req] := by
    rintro rfl hone
    have hget : ([req] : List Request)[i]? = some req := by
      rw [← hone]
      exact hi
    have hzero : i = 0 := by
      have hlt := (List.getElem?_eq_some_iff.mp hget).1
      simpa using hlt
    refine ⟨hzero, ?_⟩
    rw [hc₁, hzero]
    show c.otherq.set 0 (started req) = [started req]
    rw [hone]
    rfl
  have hcolumn₁ : type = .read ∨ type = .write → c₁.otherq = c.otherq := by
    rw [hc₁]
    rintro (rfl | rfl) <;> rfl
  dsimp only
  rw [← hc₁]
  refine Ends.bind ((issueCmd_ends cfg c₁ junk _ _).weaken_abort ?_) ?_
  · rintro e (rfl | rfl | ⟨-, herror⟩)
    · simp
    · simp
    · rintro rfl
      exact absurd ((RowTable.update_ends _ _ _ _ _ _).abort herror) (by simp [Abort.isRowTable])
  rintro c₂ ⟨channel₂, rowtable₂, hc₂, hupdates⟩
  have hqueues₂ : QueueInv cfg vault c₂ := by
    rw [hc₂]
    exact hqueues₁.frame rfl rfl rfl
  have htree₂ : TreeInv cfg vault c₂ := by
    obtain ⟨k, hk, hlegal, haddr, -⟩ :
      LegalFor cfg vault c₁ (c₁.getFirstCmd cfg junk (started req)) (started req).addrVec :=
      firstCmd_legal htree₁ hlat hadmitted
    rw [hc₂]
    exact htree₁.issue hk hlegal haddr (hupdates hlat).1 rfl
  have htimed₂ : Timed cfg vault c₂ := by
    rw [hc₂]
    exact (htimed.quiet hquiet₁).issue (fun j => admitted_vault hadmitted j) (hupdates hlat).1
  have hcmd : type = .refresh →
      (c₁.getFirstCmd cfg junk (started req) = .prea ∧ ∃ p, c.banks p ≠ none) ∨
        (c₁.getFirstCmd cfg junk (started req) = .ref ∧ ∀ p, c.banks p = none) := by
    rintro rfl
    rw [← hstate]
    exact firstCmd_refresh htree₁ hlat hadmitted junk
  -- whatever follows the command is quiet; only `otherq` is of interest
  have hserves : ∀ c', Quiet c₂ c' → QueueInv cfg vault c' →
      (type = .read ∨ type = .write → c'.otherq = c₂.otherq) →
      (type = .refresh → c.otherq = [req] → req.burstCount = 0 → c'.otherq =
        if c₁.getFirstCmd cfg junk (started req) = .ref then [] else [started req]) →
      ∃ cmd, Serves cfg vault c type req cmd c' := by
    intro c' hquiet hqueues' hcolumn hother
    refine ⟨c₁.getFirstCmd cfg junk (started req), htimed₂.quiet hquiet,
      htree₂.frame hquiet.channel hquiet.trace, hqueues', ?_, ?_, ?_, ?_, hcmd, hother⟩
    · rw [hquiet.clk, hc₂]
      exact hquiet₁.clk
    · rw [hquiet.refresh, hc₂]
      exact hquiet₁.refresh
    · rw [hquiet.trace, hc₂]
      show _ :: c₁.cmdTrace = _
      rw [hquiet₁.trace, hquiet₁.clk]
      rfl
    · intro hkind
      obtain ⟨htype, hrange⟩ := hadmitted.column hkind
      refine ⟨fun href => ?_, ?_⟩
      · have hmem := (firstCmd_column htree₁.tree.powerUp htree₁.shape hlat htype hrange junk).1
        rw [href] at hmem
        simp at hmem
      · rw [hcolumn hkind, hc₂]
        exact hcolumn₁ hkind
  refine Ends.ite (fun hlast => ?_) (fun hmore => ?_)
  · refine (finishBurst_ends cfg c₂ junk type i (started req)).imp ?_ ?_
    · rintro c' ⟨req₃, c₃, hcounted, rfl⟩
      obtain ⟨hqueues₃, htype₃, haddr₃⟩ := hqueues₂.counted hcounted
      refine hserves _ (hcounted.quiet.trans (.leaveQueue c₃ type i req₃))
        (hqueues₃.leaveQueue (hadmitted.congr htype₃ haddr₃)) ?_ ?_
      · intro hkind
        rw [← hcounted.otherq_eq]
        unfold Controller.leaveQueue
        rcases hkind with rfl | rfl <;> split <;> rfl
      · rintro rfl hone hburst
        obtain ⟨hzero, hotherq⟩ := hotherq₁ rfl hone
        have href : c₁.getFirstCmd cfg junk (started req) = .ref := by
          have htype : (started req).type = .refresh := hadmitted.1
          rw [hlast, htype]
          rfl
        have hsame : req₃ = started req ∧ c₃.otherq = [started req] := by
          have htype : (started req).type = .refresh := hadmitted.1
          have hq : c₂.otherq = [started req] := by
            rw [hc₂]
            exact hotherq
          refine ⟨?_, hcounted.otherq_eq.trans hq⟩
          cases hcounted with
          | more hkind _ => simp [htype] at hkind
          | read hkind _ _ => simp [htype] at hkind
          | write hkind _ _ _ _ => simp [htype] at hkind
          | other _ => rfl
        have hdone : (started req).burstCount = 0 := hburst
        rw [if_pos href, hsame.1, Controller.leaveQueue, if_pos hdone, hzero]
        show c₃.otherq.eraseIdx 0 = []
        rw [hsame.2]
        rfl
    · rintro e (he | ⟨rfl, -⟩ | rfl)
      · rintro rfl
        cases he
      · simp
      · simp
  · refine hserves c₂ (.of_eq rfl rfl rfl rfl rfl) hqueues₂ (fun _ => rfl) ?_
    rintro rfl hone -
    have href : c₁.getFirstCmd cfg junk (started req) ≠ .ref := by
      have htype : (started req).type = .refresh := hadmitted.1
      rw [htype] at hmore
      exact hmore
    rw [if_neg href, hc₂]
    exact (hotherq₁ rfl hone).2

theorem schedule_refresh (hshape : DRAM.WellShaped cfg.hmc.spec Level.vault vault c.channel)
    (hone : c.otherq = [req]) (hreq : Admitted cfg.hmc vault .refresh req) (junk : Int) :
    c.schedule cfg junk = if c.isReady cfg junk req then c.serveHead cfg junk .refresh 0 req
      else c.noHead cfg junk := by
  have hselect : c.selectQueue = .refresh := by simp [selectQueue, hone]
  have hqueue : c.getQueue .refresh = [req] := hone
  have hhead := Scheduler.getHead_singleton cfg.hmc.spec (c.view cfg junk) (HMC.scope .pre)
    cfg.scheduler req c.rowtable (isRowOpen_refresh hshape hreq junk)
  simp only [schedule, hselect, hqueue, hhead]

theorem noHead_opened (hlat : cfg.noDramLatency = false) (hpolicy : cfg.rowpolicy = .opened)
    (c : Controller) (junk : Int) : c.noHead cfg junk = .ok c := by
  rw [noHead, if_neg (by simp [hlat]), speculate, hpolicy]
  rfl

/-! ## The invariant -/

def refTimes (c : Controller) : List Int :=
  (c.cmdTrace.filter fun i => decide (i.cmd = .ref)).map Issued.clk

/-- How long the queued refresh has been waiting at `time`, for `PREA` or for `REF`. -/
def Waiting (cfg : ControllerConfig) (c : Controller) (time : Int) : Prop :=
  ((∀ i ∈ c.cmdTrace, i.clk ≤ c.refresh.refreshed) ∧
      time ≤ c.refresh.refreshed + cfg.hmc.speed.nRFC) ∨
    ((∀ p, c.banks p = none) ∧
      (∀ i ∈ c.cmdTrace, i.clk ≤ c.refresh.refreshed + cfg.hmc.speed.nRFC) ∧
      time ≤ c.refresh.refreshed + 2 * cfg.hmc.speed.nRFC)

structure RefreshInv (cfg : ControllerConfig) (vault : Int) (c : Controller) (time : Int) :
    Prop where
  tree : TreeInv cfg vault c
  queues : QueueInv cfg vault c
  timed : Timed cfg vault c
  bursts : ∀ r ∈ c.otherq, r.burstCount = 0
  since : 0 ≤ c.refresh.refreshed ∧ c.refresh.refreshed ≤ c.clk
  queue : c.otherq = [] ∨ (c.otherq.length = 1 ∧ Waiting cfg c time)

theorem RefreshInv.new (cfg : ControllerConfig) (vault : Int) :
    RefreshInv cfg vault (Controller.new cfg vault) 1 where
  tree := (ProtocolInv.new cfg vault).banks.treeInv
  queues := (ProtocolInv.new cfg vault).queues
  timed := Timed.new cfg vault
  bursts r hr := by cases hr
  since := ⟨le_refl 0, le_refl 0⟩
  queue := Or.inl rfl

theorem Waiting.congr (h : Waiting cfg c time) (htrace : c'.cmdTrace = c.cmdTrace)
    (hrefresh : c'.refresh.refreshed = c.refresh.refreshed) : Waiting cfg c' time := by
  have hbanks : c'.banks = c.banks := by simp only [Controller.banks, htrace]
  unfold Waiting
  rw [htrace, hrefresh, hbanks]
  exact h

theorem RefreshInv.frame (h : RefreshInv cfg vault c time) (hqueues : QueueInv cfg vault c')
    (hrel : NodeTree.Rel Node.SameButStats c.channel c'.channel)
    (htrace : c'.cmdTrace = c.cmdTrace) (hclk : c.clk ≤ c'.clk)
    (hrefresh : c'.refresh.refreshed = c.refresh.refreshed) (hother : c'.otherq = c.otherq) :
    RefreshInv cfg vault c' time where
  tree := h.tree.frame hrel htrace
  queues := hqueues
  timed := h.timed.frame hrel htrace hclk
  bursts := by
    rw [hother]
    exact h.bursts
  since := by
    have := h.since
    rw [hrefresh]
    omega
  queue := by
    rw [hother]
    exact h.queue.imp_right (fun hw => ⟨hw.1, hw.2.congr htrace hrefresh⟩)

/-- `PREA` and `REF` wait at most `nRFC` cycles, and twice that is less than `nREFI`. -/
structure RefreshSpeed (s : SpeedEntry) : Prop where
  wait : ∀ cmd, cmd = .prea ∨ cmd = .ref → ∀ p, ∀ e ∈ vaultTiming s p, e.cmd = cmd → e.val ≤ s.nRFC
  pos : 0 < s.nRFC
  often : 2 * s.nRFC < s.nREFI

theorem speedTable_refresh (speed : Speed) : RefreshSpeed (speedTable speed) where
  wait := by
    rintro cmd (rfl | rfl) p <;> cases speed <;> cases p <;> decide
  pos := by cases speed <;> decide
  often := by cases speed <;> decide

/-! ## One tick -/

/-- The fourth step of a tick issues the `REF` of the queued refresh, or changes nothing. -/
structure Refreshes (c c' : Controller) : Prop where
  clk : c'.clk = c.clk
  refresh : c'.refresh = c.refresh
  issued : (c'.otherq.length = c.otherq.length ∧ c'.refTimes = c.refTimes) ∨
    (c.otherq.length = 1 ∧ c'.otherq = [] ∧ c'.refTimes = c.clk :: c.refTimes)

theorem refTimes_cons {i : Issued} (htrace : c'.cmdTrace = i :: c.cmdTrace) :
    c'.refTimes = if i.cmd = .ref then i.clk :: c.refTimes else c.refTimes := by
  unfold refTimes
  rw [htrace, filter_cons]
  by_cases href : i.cmd = .ref
  · simp [href]
  · simp [href]

theorem Refreshes.refl (c : Controller) : Refreshes c c := ⟨rfl, rfl, Or.inl ⟨rfl, rfl⟩⟩

/-- No refresh is queued: reads and writes are scheduled, and none is queued
    after. -/
theorem schedule_column (hlat : cfg.noDramLatency = false) (hpolicy : cfg.rowpolicy = .opened)
    (h : RefreshInv cfg vault c time) (hnone : c.otherq = []) :
    Ends (c.schedule cfg junk) (fun c' => RefreshInv cfg vault c' (c.clk + 1) ∧ Refreshes c c')
      (fun e => e ≠ .refreshEnqueue) := by
  have hkind : c.selectQueue = .read ∨ c.selectQueue = .write := by
    simp only [selectQueue, hnone]
    cases c.writeMode <;> simp
  obtain ⟨rowtable, -, -, hcases⟩ := schedule_cases cfg c junk
  -- the row table plays no part
  have htable : RefreshInv cfg vault { c with rowtable } time :=
    h.frame (h.queues.frame rfl rfl rfl) (NodeTree.Rel.refl Node.SameButStats.refl _) rfl
      (le_refl _) rfl rfl
  rcases hcases with hidle | ⟨i, req, hi, -, hserve⟩
  · rw [hidle, noHead_opened hlat hpolicy]
    exact ⟨⟨htable.tree, htable.queues, htable.timed, h.bursts, h.since, Or.inl hnone⟩, rfl, rfl,
      Or.inl ⟨rfl, rfl⟩⟩
  · have hi' : (({ c with rowtable } : Controller).getQueue c.selectQueue)[i]? = some req := by
      rcases hkind with ht | ht <;> rw [ht] at hi ⊢ <;> exact hi
    rw [hserve]
    refine (serveHead_serves htable.tree htable.queues htable.timed hlat hi').imp ?_
      (fun _ he => he)
    rintro c' ⟨cmd, hc'⟩
    obtain ⟨hcmd, hother⟩ := hc'.column hkind
    have hrefs : c'.refTimes = c.refTimes := by
      rw [refTimes_cons hc'.trace, if_neg hcmd]
      rfl
    refine ⟨⟨hc'.tree, hc'.queues, hc'.timed, ?_, ?_, Or.inl (hother.trans hnone)⟩, hc'.clk,
      hc'.refresh, Or.inl ⟨by rw [hother], hrefs⟩⟩
    · rw [hother]
      exact h.bursts
    · rw [hc'.refresh, hc'.clk]
      exact h.since

section

variable (hspeed : RefreshSpeed cfg.hmc.speed) (hlat : cfg.noDramLatency = false)
include hspeed hlat

theorem Waiting.next (h : RefreshInv cfg vault c c.clk) (hwaiting : Waiting cfg c c.clk)
    (hreq : Admitted cfg.hmc vault .refresh req) (hnot : c.isReady cfg junk req = false) :
    Waiting cfg c (c.clk + 1) := by
  have hpos := hspeed.pos
  have hsince := h.since
  have hlt : c.clk < c.channel.val.next (c.getFirstCmd cfg junk req) :=
    lt_next_of_not_ready h.timed.shape hreq.2 hnot
  have hcmd : c.getFirstCmd cfg junk req = .prea ∨ c.getFirstCmd cfg junk req = .ref :=
    (firstCmd_refresh h.tree hlat hreq junk).imp (fun h => h.1) (fun h => h.1)
  rcases hwaiting with ⟨htrace, -⟩ | ⟨hclosed, htrace, -⟩
  · have hnext := h.timed.next_le (hspeed.wait _ hcmd) htrace (by omega)
    exact Or.inl ⟨htrace, by omega⟩
  · have hnext := h.timed.next_le (hspeed.wait _ hcmd) htrace (by omega)
    exact Or.inr ⟨hclosed, htrace, by omega⟩

/-- One refresh is queued: it waits, or `PREA` is issued for it, or `REF`. -/
theorem schedule_waiting (hpolicy : cfg.rowpolicy = .opened) (h : RefreshInv cfg vault c c.clk)
    (hone : c.otherq = [req]) (hwaiting : Waiting cfg c c.clk) :
    Ends (c.schedule cfg junk) (fun c' => RefreshInv cfg vault c' (c.clk + 1) ∧ Refreshes c c')
      (fun e => e ≠ .refreshEnqueue) := by
  have hpos := hspeed.pos
  have hsince := h.since
  have hmem : req ∈ c.otherq := by simp [hone]
  have hreq : Admitted cfg.hmc vault .refresh req := h.queues .refresh req hmem
  have heq := schedule_refresh h.timed.shape hone hreq junk
  by_cases hready : c.isReady cfg junk req = true
  · rw [if_pos hready] at heq
    have hserves : Ends (c.schedule cfg junk)
        (fun c' => ∃ cmd, Serves cfg vault c .refresh req cmd c')
        (fun e => e ≠ .refreshEnqueue) := by
      rw [heq]
      exact serveHead_serves h.tree h.queues h.timed hlat (by simp [getQueue, hone])
    refine hserves.imp ?_ (fun _ he => he)
    rintro c' ⟨cmd, hc'⟩
    have hother := hc'.otherq rfl hone (h.bursts req hmem)
    have hsince' : 0 ≤ c'.refresh.refreshed ∧ c'.refresh.refreshed ≤ c'.clk := by
      rw [hc'.refresh, hc'.clk]
      exact hsince
    rcases hc'.refreshed rfl with ⟨rfl, hopen⟩ | ⟨rfl, -⟩
    · -- `PREA`: the rows are closed now, and were not before
      rw [if_neg (by simp)] at hother
      have hphase : (∀ i ∈ c.cmdTrace, i.clk ≤ c.refresh.refreshed) ∧
          c.clk ≤ c.refresh.refreshed + cfg.hmc.speed.nRFC := by
        rcases hwaiting with hfirst | ⟨hclosed, -⟩
        · exact hfirst
        · obtain ⟨p, hp⟩ := hopen
          exact absurd (hclosed p) hp
      have hclosed' : ∀ p, c'.banks p = none := by
        intro p
        simp only [Controller.banks, hc'.trace, filterMap_cons, toCmd]
        rfl
      have hrefs : c'.refTimes = c.refTimes := by
        rw [refTimes_cons hc'.trace, if_neg (by simp)]
      have hwaiting' : Waiting cfg c' (c.clk + 1) := by
        refine Or.inr ⟨hclosed', ?_, ?_⟩
        · rw [hc'.trace, hc'.refresh]
          intro i hi
          rcases mem_cons.mp hi with rfl | hi
          · exact hphase.2
          · have := hphase.1 i hi
            omega
        · rw [hc'.refresh]
          omega
      refine ⟨⟨hc'.tree, hc'.queues, hc'.timed, ?_, hsince',
        Or.inr ⟨by rw [hother]; rfl, hwaiting'⟩⟩, hc'.clk, hc'.refresh,
        Or.inl ⟨by rw [hother, hone]; rfl, hrefs⟩⟩
      intro r hr
      rw [hother, mem_singleton] at hr
      rw [hr]
      exact h.bursts req hmem
    · -- `REF`
      rw [if_pos rfl] at hother
      have hrefs : c'.refTimes = c.clk :: c.refTimes := by
        rw [refTimes_cons hc'.trace, if_pos rfl]
      refine ⟨⟨hc'.tree, hc'.queues, hc'.timed, ?_, hsince', Or.inl hother⟩, hc'.clk, hc'.refresh,
        Or.inr ⟨by rw [hone]; rfl, hother, hrefs⟩⟩
      intro r hr
      rw [hother] at hr
      cases hr
  · rw [if_neg hready] at heq
    have hnot : c.isReady cfg junk req = false := by simpa using hready
    have hnext := hwaiting.next hspeed hlat h hreq hnot
    rw [heq, noHead_opened hlat hpolicy]
    exact ⟨⟨h.tree, h.queues, h.timed, h.bursts, h.since, Or.inr ⟨by rw [hone]; rfl, hnext⟩⟩,
      .refl c⟩

theorem schedule_refreshes (hpolicy : cfg.rowpolicy = .opened) (h : RefreshInv cfg vault c c.clk) :
    Ends (c.schedule cfg junk) (fun c' => RefreshInv cfg vault c' (c.clk + 1) ∧ Refreshes c c')
      (fun e => e ≠ .refreshEnqueue) := by
  rcases h.queue with hnone | ⟨hlen, hwaiting⟩
  · exact schedule_column hlat hpolicy h hnone
  · obtain ⟨req, hone⟩ := length_eq_one_iff.mp hlen
    exact schedule_waiting hspeed hlat hpolicy h hone hwaiting

end

def Injects (cfg : ControllerConfig) (c : Controller) : Prop :=
  cfg.hmc.speed.nREFI ≤ c.refresh.clk + 1 - c.refresh.refreshed

instance (cfg : ControllerConfig) : DecidablePred (Injects cfg) :=
  fun _ => inferInstanceAs (Decidable (_ ≤ _))

theorem tickRef_idle (hnot : ¬ Injects cfg c) :
    c.tickRef cfg = .ok { c with refresh := { c.refresh with clk := c.refresh.clk + 1 } } :=
  if_neg hnot

theorem tickRef_injects (hinjects : Injects cfg c) (hnone : c.otherq = []) :
    c.tickRef cfg = .ok { c with
      refresh := ⟨c.refresh.clk + 1, c.refresh.clk + 1⟩
      otherq := [{ refreshRequest c.channel.val.id with arrive := c.clk }] } := by
  have henq : enqueue cfg { c with refresh := { c.refresh with clk := c.refresh.clk + 1 } }
      (refreshRequest c.channel.val.id) = some { c with
        refresh := { c.refresh with clk := c.refresh.clk + 1 }
        otherq := [{ refreshRequest c.channel.val.id with arrive := c.clk }] } := by
    simp [enqueue, refreshRequest, getQueue, setQueue, hnone, queueMax]
  simp only [tickRef, henq]
  exact if_pos hinjects

/-- A tick may inject a refresh, and may issue the `REF` of the one queued then. -/
structure TickRefreshes (cfg : ControllerConfig) (c c' : Controller) : Prop where
  clk : c'.clk = c.clk + 1
  refreshClk : c'.refresh.clk = c.refresh.clk + 1
  empty : Injects cfg c → c.otherq = []
  refreshed : c'.refresh.refreshed =
    if Injects cfg c then c.refresh.clk + 1 else c.refresh.refreshed
  issued : (c'.otherq.length = (if Injects cfg c then 1 else c.otherq.length) ∧
      c'.refTimes = c.refTimes) ∨
    ((Injects cfg c ∨ c.otherq.length = 1) ∧ c'.otherq = [] ∧
      c'.refTimes = (c.clk + 1) :: c.refTimes)

section

variable (hspeed : RefreshSpeed cfg.hmc.speed)
include hspeed

theorem RefreshInv.empty_of_injects (h : RefreshInv cfg vault c (c.clk + 1))
    (hclock : c.refresh.clk = c.clk) (hinjects : Injects cfg c) : c.otherq = [] := by
  rcases h.queue with hnone | ⟨-, hwaiting⟩
  · exact hnone
  · have hlate : cfg.hmc.speed.nREFI ≤ c.clk + 1 - c.refresh.refreshed := by
      rw [← hclock]
      exact hinjects
    have hpos := hspeed.pos
    have hoften := hspeed.often
    rcases hwaiting with ⟨-, htime⟩ | ⟨-, -, htime⟩
    · omega
    · omega

theorem tickRef_refreshes (h : RefreshInv cfg vault c c.clk) (hclock : c.refresh.clk + 1 = c.clk)
    (hempty : Injects cfg c → c.otherq = []) : Ends (c.tickRef cfg)
      (fun c' => RefreshInv cfg vault c' c'.clk ∧ c'.clk = c.clk ∧
        c'.refresh.clk = c.refresh.clk + 1 ∧ c'.refTimes = c.refTimes ∧
        c'.refresh.refreshed = (if Injects cfg c then c.refresh.clk + 1 else c.refresh.refreshed) ∧
        c'.otherq.length = (if Injects cfg c then 1 else c.otherq.length))
      (fun _ => False) := by
  have hpos := hspeed.pos
  have hsince := h.since
  by_cases hinjects : Injects cfg c
  · have htick := tickRef_injects hinjects (hempty hinjects)
    have hqueues := h.queues.tickRef h.timed.shape.val_id htick
    rw [htick]
    refine ⟨⟨h.tree.frame (NodeTree.Rel.refl Node.SameButStats.refl _) rfl, hqueues,
      h.timed.frame (NodeTree.Rel.refl Node.SameButStats.refl _) rfl (le_refl _), ?_, ?_,
      Or.inr ⟨rfl, Or.inl ⟨?_, ?_⟩⟩⟩, rfl, rfl, rfl, ?_, ?_⟩
    · intro r hr
      rw [mem_singleton.mp hr]
      rfl
    · show 0 ≤ c.refresh.clk + 1 ∧ c.refresh.clk + 1 ≤ c.clk
      omega
    · intro i hi
      have := (h.timed.clks i hi).2
      show i.clk ≤ c.refresh.clk + 1
      omega
    · show c.clk ≤ c.refresh.clk + 1 + cfg.hmc.speed.nRFC
      omega
    · rw [if_pos hinjects]
    · rw [if_pos hinjects]
      rfl
  · have htick := tickRef_idle hinjects
    have hqueues := h.queues.tickRef h.timed.shape.val_id htick
    rw [htick, if_neg hinjects, if_neg hinjects]
    exact ⟨h.frame hqueues (NodeTree.Rel.refl Node.SameButStats.refl _) rfl (le_refl _) rfl rfl,
      rfl, rfl, rfl, rfl, rfl⟩

theorem tick_refreshes (hlat : cfg.noDramLatency = false) (hpolicy : cfg.rowpolicy = .opened)
    (h : RefreshInv cfg vault c (c.clk + 1)) (hclock : c.refresh.clk = c.clk) :
    Ends (c.tick cfg junk)
      (fun out => RefreshInv cfg vault out.2 (out.2.clk + 1) ∧ TickRefreshes cfg c out.2)
      (fun e => e ≠ .refreshEnqueue) := by
  have hqueues₀ : QueueInv cfg vault { c with clk := c.clk + 1 } := h.queues.frame rfl rfl rfl
  have hempty := h.empty_of_injects hspeed hclock
  unfold tick
  refine Ends.bind ((serveCompleted_ends cfg _ junk).weaken_abort ?_) ?_
  · rintro e (he | ⟨rfl, -⟩ | rfl)
    · rintro rfl
      cases he
    · simp
    · simp
  rintro ⟨done, c₁⟩ hserved
  have hquiet := hserved.quiet
  have hother₁ : c₁.otherq = c.otherq := hserved.otherq_eq
  have hclk₁ : c₁.clk = c.clk + 1 := hquiet.clk
  have hrefresh₁ : c₁.refresh = c.refresh := hquiet.refresh
  have hrefs₁ : c₁.refTimes = c.refTimes := by
    unfold refTimes
    rw [hquiet.trace]
  have hinjects₁ : Injects cfg c₁ ↔ Injects cfg c := by
    unfold Injects
    rw [hrefresh₁]
  have h₁ : RefreshInv cfg vault c₁ c₁.clk := by
    rw [hclk₁]
    exact h.frame (hqueues₀.served hserved) hquiet.channel hquiet.trace
      (by rw [hclk₁]; omega) (by rw [hrefresh₁]) hother₁
  refine Ends.bind ((tickRef_refreshes hspeed h₁ (by rw [hrefresh₁, hclk₁, hclock]) ?_).weaken_abort
    (fun _ he => he.elim)) ?_
  · rw [hinjects₁, hother₁]
    exact hempty
  rintro c₂ ⟨h₂, hclk₂, hrefreshClk₂, hrefs₂, hrefreshed₂, hlen₂⟩
  simp only [hinjects₁, hother₁, hrefresh₁] at hrefreshed₂ hlen₂ hrefreshClk₂
  obtain ⟨writeMode, hmode⟩ := updateWriteMode_eq c₂
  rw [hmode]
  have h₃ : RefreshInv cfg vault { c₂ with writeMode } c₂.clk :=
    h₂.frame (h₂.queues.frame rfl rfl rfl) (NodeTree.Rel.refl Node.SameButStats.refl _) rfl
      (le_refl _) rfl rfl
  refine Ends.bind (schedule_refreshes hspeed hlat hpolicy h₃) ?_
  rintro c₄ ⟨h₄, hclk₄, hrefresh₄, hissued₄⟩
  have hclk : c₄.clk = c.clk + 1 := hclk₄.trans (hclk₂.trans hclk₁)
  have hrefresh : c₄.refresh = c₂.refresh := hrefresh₄
  refine Ends.pure ⟨?_, hclk, ?_, hempty, ?_, ?_⟩
  · rw [hclk₄]
    exact h₄
  · rw [hrefresh]
    exact hrefreshClk₂
  · rw [hrefresh]
    exact hrefreshed₂
  · have hrefs : refTimes { c₂ with writeMode } = c.refTimes := hrefs₂.trans hrefs₁
    have hclk₃ : ({ c₂ with writeMode } : Controller).clk = c.clk + 1 := hclk₂.trans hclk₁
    rcases hissued₄ with ⟨hlen, htimes⟩ | ⟨hlen, hnone, htimes⟩
    · exact Or.inl ⟨hlen.trans hlen₂, htimes.trans hrefs⟩
    · refine Or.inr ⟨?_, hnone, ?_⟩
      · by_cases hinjects : Injects cfg c
        · exact Or.inl hinjects
        · rw [if_neg hinjects] at hlen₂
          exact Or.inr (hlen₂.symm.trans hlen)
      · rw [htimes, hrefs, hclk₃]

end

/-! ## Runs -/

/-- A vault, and when `inject_refresh` ran in it, newest first. -/
structure Injecting where
  controller : Controller
  injected : List Int := []

namespace Injecting

/-- The log after an input: a tick in which `inject_refresh` runs is recorded. -/
def logged (cfg : ControllerConfig) (s : Injecting) : Input → List Int
  | .tick _ => if Injects cfg s.controller then (s.controller.clk + 1) :: s.injected else s.injected
  | .receive _ | .takeResponse => s.injected

def apply (cfg : ControllerConfig) (s : Injecting) (input : Input) : Except Abort Injecting := do
  let c ← s.controller.apply cfg input
  pure { controller := c, injected := s.logged cfg input }

def run (cfg : ControllerConfig) (vault : Int) (inputs : List Input) : Except Abort Injecting :=
  inputs.foldlM (apply cfg) { controller := Controller.new cfg vault }

theorem run_controller (cfg : ControllerConfig) (vault : Int) (inputs : List Input) :
    Sim (fun s c => s.controller = c) (run cfg vault inputs) (Controller.run cfg vault inputs) := by
  refine Sim.foldlM inputs rfl ?_
  rintro s _ input rfl
  exact Sim.map_left _ (fun _ => rfl)

/-- Every injection but that of a queued refresh has its `REF`, before the next injection. -/
structure Inv (cfg : ControllerConfig) (vault : Int) (s : Injecting) : Prop where
  refreshes : RefreshInv cfg vault s.controller (s.controller.clk + 1)
  clock : s.controller.refresh.clk = s.controller.clk
  newest : ∀ t, s.injected.head? = some t → t = s.controller.refresh.refreshed
  queued : s.controller.otherq ≠ [] → s.injected ≠ []
  apart : s.injected.IsChain (fun later earlier => earlier + cfg.hmc.speed.nREFI ≤ later)
  served : Forall₂ (fun t r => t ≤ r ∧ r < t + cfg.hmc.speed.nREFI)
    (s.injected.drop s.controller.otherq.length) s.controller.refTimes

variable {s : Injecting}

theorem Inv.new (cfg : ControllerConfig) (vault : Int) :
    Inv cfg vault { controller := Controller.new cfg vault } where
  refreshes := RefreshInv.new cfg vault
  clock := rfl
  newest t ht := by cases ht
  queued h := absurd rfl h
  apart := List.IsChain.nil
  served := Forall₂.nil

theorem Inv.frame (h : Inv cfg vault s) (hqueues : QueueInv cfg vault c')
    (hquiet : Quiet s.controller c') (hother : c'.otherq = s.controller.otherq) :
    Inv cfg vault { controller := c', injected := s.injected } where
  refreshes := by
    show RefreshInv cfg vault c' (c'.clk + 1)
    rw [hquiet.clk]
    exact h.refreshes.frame hqueues hquiet.channel hquiet.trace (le_of_eq hquiet.clk.symm)
      (by rw [hquiet.refresh]) hother
  clock := by
    show c'.refresh.clk = c'.clk
    rw [hquiet.refresh, hquiet.clk]
    exact h.clock
  newest t ht := by
    show t = c'.refresh.refreshed
    rw [hquiet.refresh]
    exact h.newest t ht
  queued hne := by
    refine h.queued ?_
    rw [← hother]
    exact hne
  apart := h.apart
  served := by
    have hrefs : c'.refTimes = s.controller.refTimes := by
      unfold refTimes
      rw [hquiet.trace]
    show Forall₂ _ (s.injected.drop c'.otherq.length) c'.refTimes
    rw [hother, hrefs]
    exact h.served

section

variable (hspeed : RefreshSpeed cfg.hmc.speed)
include hspeed

theorem Inv.tick (h : Inv cfg vault s) (hinv : RefreshInv cfg vault c' (c'.clk + 1))
    (htick : TickRefreshes cfg s.controller c') (junk : Int) :
    Inv cfg vault { controller := c', injected := s.logged cfg (.tick junk) } := by
  have hclk := htick.clk
  have hclock := h.clock
  have hsince := h.refreshes.since
  have hpos := hspeed.pos
  have hoften := hspeed.often
  -- the head of the log is the last injection, this tick's included
  have hnewest : ∀ t, (s.logged cfg (.tick junk)).head? = some t → t = c'.refresh.refreshed := by
    intro t ht
    rw [htick.refreshed]
    by_cases hinjects : Injects cfg s.controller
    · simp only [logged, if_pos hinjects, head?_cons, Option.some.injEq] at ht ⊢
      omega
    · simp only [logged, if_neg hinjects] at ht ⊢
      exact h.newest t ht
  have hqueued : (s.logged cfg (.tick junk)).drop
      (if Injects cfg s.controller then 1 else s.controller.otherq.length) =
        s.injected.drop s.controller.otherq.length := by
    by_cases hinjects : Injects cfg s.controller
    · simp only [logged, if_pos hinjects, htick.empty hinjects]
      rfl
    · simp only [logged, if_neg hinjects]
  have hlogged : Injects cfg s.controller ∨ s.controller.otherq.length = 1 →
      ∃ t older, s.logged cfg (.tick junk) = t :: older ∧
        older = s.injected.drop s.controller.otherq.length := by
    intro hone
    by_cases hinjects : Injects cfg s.controller
    · refine ⟨s.controller.clk + 1, s.injected, ?_, ?_⟩
      · simp only [logged, if_pos hinjects]
      · rw [htick.empty hinjects]
        rfl
    · have hlen : s.controller.otherq.length = 1 := hone.resolve_left hinjects
      have hne : s.injected ≠ [] := by
        refine h.queued ?_
        rintro hnil
        rw [hnil] at hlen
        cases hlen
      obtain ⟨t, older, ht⟩ := exists_cons_of_ne_nil hne
      refine ⟨t, older, ?_, ?_⟩
      · simp only [logged, if_neg hinjects]
        exact ht
      · rw [hlen, ht]
        rfl
  refine ⟨hinv, ?_, hnewest, ?_, ?_, ?_⟩
  · show c'.refresh.clk = c'.clk
    rw [htick.refreshClk, hclk, hclock]
  · intro hne
    rcases htick.issued with ⟨hlen, -⟩ | ⟨-, hnil, -⟩
    · have hpos' : 0 < c'.otherq.length := length_pos_iff.mpr hne
      have hone : Injects cfg s.controller ∨ s.controller.otherq.length = 1 := by
        by_cases hinjects : Injects cfg s.controller
        · exact Or.inl hinjects
        · rw [if_neg hinjects] at hlen
          rcases h.refreshes.queue with hnil | ⟨hone, -⟩
          · rw [hnil] at hlen
            simp at hlen
            exact absurd hlen hne
          · exact Or.inr hone
      obtain ⟨t, older, ht, -⟩ := hlogged hone
      show s.logged cfg (.tick junk) ≠ []
      rw [ht]
      simp
    · exact absurd hnil hne
  · show (s.logged cfg (.tick junk)).IsChain _
    by_cases hinjects : Injects cfg s.controller
    · simp only [logged, if_pos hinjects]
      have hdue : cfg.hmc.speed.nREFI ≤
          s.controller.refresh.clk + 1 - s.controller.refresh.refreshed := hinjects
      cases hlog : s.injected with
      | nil => exact List.IsChain.singleton _
      | cons t older =>
        have ht := h.newest t (by rw [hlog]; rfl)
        have hapart := h.apart
        rw [hlog] at hapart
        exact List.IsChain.cons_cons (by omega) hapart
    · simp only [logged, if_neg hinjects]
      exact h.apart
  · show Forall₂ _ ((s.logged cfg (.tick junk)).drop c'.otherq.length) c'.refTimes
    rcases htick.issued with ⟨hlen, htimes⟩ | ⟨hone, hnil, htimes⟩
    · rw [hlen, hqueued, htimes]
      exact h.served
    · obtain ⟨t, older, ht, holder⟩ := hlogged hone
      have hhead : t = c'.refresh.refreshed := hnewest t (by rw [ht]; rfl)
      have hinv' := hinv.since
      have hdue : c'.clk < c'.refresh.refreshed + cfg.hmc.speed.nREFI := by
        rw [htick.refreshed]
        split
        · omega
        · next hnot =>
          have : ¬ cfg.hmc.speed.nREFI ≤
            s.controller.refresh.clk + 1 - s.controller.refresh.refreshed := hnot
          omega
      rw [hnil, ht, htimes, holder]
      refine Forall₂.cons ?_ h.served
      omega

theorem apply_inv (hlat : cfg.noDramLatency = false) (hpolicy : cfg.rowpolicy = .opened)
    (h : Inv cfg vault s) {input : Input} (hok : input.Ok cfg vault) :
    Ends (s.apply cfg input) (Inv cfg vault) (fun e => e ≠ .refreshEnqueue) := by
  unfold Injecting.apply
  cases input with
  | receive _ | takeResponse =>
    refine Ends.bind ((apply_frame h.refreshes.queues hok (by nofun)).weaken_abort ?_) ?_
    · rintro e rfl
      simp
    · rintro _ ⟨hqueues, _, _, _, _, _, rfl⟩
      exact h.frame hqueues (.of_eq rfl rfl rfl rfl rfl) rfl
  | tick junk =>
    have happly : Ends (s.controller.apply cfg (.tick junk)) (fun c' =>
        RefreshInv cfg vault c' (c'.clk + 1) ∧ TickRefreshes cfg s.controller c')
        (fun e => e ≠ .refreshEnqueue) :=
      Ends.bind (tick_refreshes hspeed hlat hpolicy h.refreshes h.clock)
        (fun _ hout => Ends.pure hout)
    exact Ends.bind happly (fun c' hc' => Ends.pure (h.tick hspeed hc'.1 hc'.2 junk))

theorem run_inv (hlat : cfg.noDramLatency = false) (hpolicy : cfg.rowpolicy = .opened)
    {inputs : List Input} (hok : ∀ input ∈ inputs, input.Ok cfg vault) :
    Ends (run cfg vault inputs) (Inv cfg vault) (fun e => e ≠ .refreshEnqueue) :=
  Ends.foldlM inputs (Inv.new cfg vault)
    (fun _ input hinput h => apply_inv hspeed hlat hpolicy h (hok input hinput))

end

end Injecting

/-- Refreshes never back up.  After any run at most one is queued, and none when
    `inject_refresh` runs next, so its assertion never fails.  Injections are
    `nREFI` cycles apart, and each but that of the queued refresh has had its
    `REF` less than `nREFI` cycles after it. -/
theorem run_refresh_never_backs_up {speed : Speed}
    (hspeed : cfg.hmc.speed = speedTable speed) (hlat : cfg.noDramLatency = false)
    (hpolicy : cfg.rowpolicy = .opened)
    {inputs : List Input} (hok : ∀ input ∈ inputs, input.Ok cfg vault) :
    (∀ s, Injecting.run cfg vault inputs = .ok s → s.controller.otherq.length ≤ 1 ∧
      (Injects cfg s.controller → s.controller.otherq = []) ∧
      s.injected.IsChain (fun later earlier => earlier + cfg.hmc.speed.nREFI ≤ later) ∧
      Forall₂ (fun t r => t ≤ r ∧ r < t + cfg.hmc.speed.nREFI)
        (s.injected.drop s.controller.otherq.length) s.controller.refTimes) ∧
    ∀ e, Injecting.run cfg vault inputs = .error e → e ≠ .refreshEnqueue := by
  have hrefresh : RefreshSpeed cfg.hmc.speed := by
    rw [hspeed]
    exact speedTable_refresh speed
  have hrun := Injecting.run_inv hrefresh hlat hpolicy hok
  refine ⟨?_, fun e he => hrun.abort he⟩
  intro s hs
  have h := hrun.result hs
  refine ⟨?_, h.refreshes.empty_of_injects hrefresh h.clock, h.apart, h.served⟩
  rcases h.refreshes.queue with hnone | ⟨hone, -⟩
  · rw [hnone]
    exact Nat.zero_le 1
  · exact le_of_eq hone

/-! ## An idle vault -/

/-- The state of a vault without requests, one cycle later. -/
def idled (c : Controller) : Controller :=
  { c with
    clk := c.clk + 1, refresh := { c.refresh with clk := c.refresh.clk + 1 }, writeMode := true }

theorem tick_idle (hlat : cfg.noDramLatency = false) (hpolicy : cfg.rowpolicy = .opened)
    (hread : c.readq = []) (hwrite : c.writeq = []) (hother : c.otherq = [])
    (hpending : c.pending = []) (hnot : ¬ Injects cfg c) (junk : Int) :
    c.tick cfg junk = .ok ([], c.idled) := by
  have hserve : serveCompleted cfg junk { c with clk := c.clk + 1 } =
      .ok ([], { c with clk := c.clk + 1 }) := by
    simp only [serveCompleted, hpending]
    rfl
  have href : tickRef cfg { c with clk := c.clk + 1 } = .ok { c with
      clk := c.clk + 1, refresh := { c.refresh with clk := c.refresh.clk + 1 } } :=
    tickRef_idle hnot
  have hmode : updateWriteMode { c with
      clk := c.clk + 1, refresh := { c.refresh with clk := c.refresh.clk + 1 } } = c.idled := by
    cases c.writeMode <;> simp [updateWriteMode, idled, hread]
  have hschedule : c.idled.schedule cfg junk = .ok c.idled := by
    have hempty : ∀ type table, Scheduler.getHead cfg.hmc.spec (c.idled.view cfg junk)
        (HMC.scope .pre) type [] table = (none, table) := by
      intro type table
      cases type <;> rfl
    have hselect : c.idled.getQueue c.idled.selectQueue = [] := by
      have hq : c.idled.selectQueue = .write := by simp [selectQueue, idled, hother]
      rw [hq]
      exact hwrite
    simp only [schedule, hselect, hempty]
    exact noHead_opened hlat hpolicy _ junk
  refine bind_ok.mpr ⟨_, hserve, bind_ok.mpr ⟨_, href, bind_ok.mpr ⟨c.idled, ?_, rfl⟩⟩⟩
  show schedule cfg junk (updateWriteMode _) = .ok c.idled
  rw [hmode]
  exact hschedule

def idleAt (cfg : ControllerConfig) (vault : Int) (n : Nat) : Controller :=
  { Controller.new cfg vault with
    clk := n, refresh := { clk := n, refreshed := 0 }, writeMode := decide (n ≠ 0) }

theorem apply_idle (vault : Int) (hlat : cfg.noDramLatency = false)
    (hpolicy : cfg.rowpolicy = .opened) {n : Nat} (hn : (n : Int) + 1 < cfg.hmc.speed.nREFI) :
    ¬ Injects cfg (idleAt cfg vault n) ∧
      (idleAt cfg vault n).apply cfg (.tick 0) = .ok (idleAt cfg vault (n + 1)) := by
  have hnot : ¬ Injects cfg (idleAt cfg vault n) := by
    show ¬ cfg.hmc.speed.nREFI ≤ (n : Int) + 1 - 0
    omega
  have htick := tick_idle hlat hpolicy (c := idleAt cfg vault n) rfl rfl rfl rfl hnot 0
  have hnext : (idleAt cfg vault n).idled = idleAt cfg vault (n + 1) := by
    simp [idled, idleAt]
  rw [hnext] at htick
  exact ⟨hnot, bind_ok.mpr ⟨_, htick, rfl⟩⟩

theorem Injecting.run_after_idle (cfg : ControllerConfig) (vault : Int) (n : Nat)
    (inputs : List Input) (hlat : cfg.noDramLatency = false) (hpolicy : cfg.rowpolicy = .opened)
    (hn : (n : Int) < cfg.hmc.speed.nREFI) :
    Injecting.run cfg vault (replicate n (.tick 0) ++ inputs) =
      inputs.foldlM (Injecting.apply cfg) { controller := idleAt cfg vault n } := by
  refine foldlM_replicate_append (f := fun k => Injecting.mk (idleAt cfg vault k) []) ?_ inputs
  intro k hk
  obtain ⟨hnot, happly⟩ := apply_idle vault hlat hpolicy (show (k : Int) + 1 < _ by omega)
  refine bind_ok.mpr ⟨_, happly, ?_⟩
  simp only [Injecting.logged, if_neg hnot]
  rfl

theorem idle_rowConflict_ok (n k : Nat) : ∀ input ∈ replicate n (.tick 0) ++ rowConflict k,
    input.Ok (gb4Vault .opened) 0 := by
  intro input hinput
  rcases mem_append.mp hinput with hidle | hreads
  · rw [eq_of_mem_replicate hidle]
    trivial
  · exact rowConflict_ok .opened k input hreads

/-- Two reads arrive shortly before the first refresh is due.  It is injected
    after a row was opened, so `PREA` has to wait for the row and `REF` for `PREA`. -/
theorem run_refresh_never_backs_up_open_row :
    ∃ s, Injecting.run (gb4Vault .opened) 0 (replicate 9740 (.tick 0) ++ rowConflict 60) = .ok s ∧
      (s.injected, s.controller.cmdTrace.map fun i => (i.clk, i.cmd)) =
        ([9750], [(9792, .ref), (9775, .prea), (9741, .act)]) ∧ s.controller.otherq.length ≤ 1 ∧
      (Injects (gb4Vault .opened) s.controller → s.controller.otherq = []) ∧ s.injected.IsChain
        (fun later earlier => earlier + (gb4Vault .opened).hmc.speed.nREFI ≤ later) ∧
      Forall₂ (fun t r => t ≤ r ∧ r < t + (gb4Vault .opened).hmc.speed.nREFI)
        (s.injected.drop s.controller.otherq.length) s.controller.refTimes := by
  have hlog : ((rowConflict 60).foldlM (Injecting.apply (gb4Vault .opened))
      { controller := idleAt (gb4Vault .opened) 0 9740 }).toOption.map (fun s =>
        (s.injected, s.controller.cmdTrace.map fun i => (i.clk, i.cmd))) =
          some ([9750], [(9792, .ref), (9775, .prea), (9741, .act)]) := by decide +kernel
  rw [← Injecting.run_after_idle _ _ _ _ rfl rfl (by decide)] at hlog
  obtain ⟨s, hrun, hlog⟩ := exists_ok_of_map hlog
  have hspeed : (gb4Vault .opened).hmc.speed = speedTable .hmc2500 := rfl
  have hbounds := (run_refresh_never_backs_up hspeed rfl rfl (idle_rowConflict_ok 9740 60)).1
  exact ⟨s, hrun, hlog, hbounds s hrun⟩

end Controller

end Ramulator
