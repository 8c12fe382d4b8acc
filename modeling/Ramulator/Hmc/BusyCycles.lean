/-
  Ramulator.Hmc.BusyCycles

  The busy-cycle statistics of a vault are exact.

  `Metered` runs a vault and notes the cycles at whose end it has requests to
  serve; the refresh windows are read off the command trace.  `BusyInv` keeps
  the statistics of the root in step with both (`NodeStats.Meters`).

  What has to be excluded is a request that starts inside a refresh window.
  `REF` is issued with all banks closed, and `ACT` is blocked until the window
  is over.  So the banks stay closed, the first command of a request is `ACT`,
  and it is not ready.
-/

import Ramulator.Dram.Statistics
import Ramulator.Hmc.Refreshes

namespace Ramulator

open Outcome HMC NodeStats List

namespace HMC

/-! ## Closed banks -/

def KeepsClosed (n n' : Node Command State) : Prop := n.state = .closed → n'.state = .closed

theorem KeepsClosed.refl (n : Node Command State) : KeepsClosed n n := fun h => h

theorem closeBank_keepsClosed (t : Tree) : NodeTree.Rel KeepsClosed t (closeBank t) :=
  NodeTree.Rel.setVal KeepsClosed.refl (fun _ => rfl)

theorem closeAllBanks_keepsClosed (t : Tree) : NodeTree.Rel KeepsClosed t (closeAllBanks t) := by
  refine NodeTree.Rel.mapChildren KeepsClosed.refl ?_
  intro i bg _
  refine NodeTree.Rel.mapChildren KeepsClosed.refl ?_
  intro j bank _
  exact closeBank_keepsClosed bank

theorem anyBankOpen_of_rel {t t' : Tree} (hrel : NodeTree.Rel KeepsClosed t t')
    (h : anyBankOpen t = false) : anyBankOpen t' = false := by
  rw [← Bool.not_eq_true] at h ⊢
  intro hopen
  refine h ?_
  simp only [anyBankOpen, NodeTree.anyChild_eq_true, decide_eq_true_eq] at hopen ⊢
  obtain ⟨i, bg', hbg', j, bank', hbank', hstate'⟩ := hopen
  obtain ⟨bg, hbg, hrel₁⟩ := hrel.child_inv hbg'
  obtain ⟨bank, hbank, hrel₂⟩ := hrel₁.child_inv hbank'
  exact ⟨i, bg, hbg, j, bank, hbank, fun hstate => hstate' (hrel₂.val hstate)⟩

section Update

variable {hmc : HMC} {cmd : Command} {v : AddrVec} {addr : Nat → Int} {t : Tree}

/-- Of the commands a vault issues, only `ACT` opens a bank. -/
theorem lambda_keepsClosed (hcmd : (toCmd cmd v).isSome = true) (hact : cmd ≠ .act) (l : Nat)
    (f : Tree → Int → Tree) (hf : lambda l cmd = some f) (t : Tree) (id : Int) :
    NodeTree.Rel KeepsClosed t (f t id) := by
  unfold lambda at hf
  split at hf <;> cases hf
  -- the other transitions belong to commands that are never issued
  all_goals first
    | exact absurd rfl hact
    | exact NodeTree.Rel.refl KeepsClosed.refl t
    | exact closeBank_keepsClosed t
    | exact closeAllBanks_keepsClosed t
    | cases hcmd

theorem updateState_powerUp (hcmd : (toCmd cmd v).isSome = true)
    (hlevel : t.val.level = Level.vault) :
    (t.updateState hmc.spec cmd addr).val.state = t.val.state := by
  have happly : (DRAM.applyLambda hmc.spec cmd addr t).val.state = t.val.state := by
    unfold DRAM.applyLambda
    rw [hlevel]
    cases cmd <;> simp only [toCmd, Option.isSome_none, Bool.false_eq_true] at hcmd
    case prea => exact congrArg Node.state (NodeTree.val_mapChildren _ t)
    all_goals rfl
  have hdepth : hmc.spec.row - t.val.level = 2 + 1 := by
    rw [hlevel]
    rfl
  rw [DRAM.updateState, hdepth]
  simp only [DRAM.updateStateFrom]
  split
  · exact happly
  · rw [NodeTree.val_modifyChild]
    exact happly

variable {clk : Int} {t' : Tree}

theorem update_keepsClosed (hcmd : (toCmd cmd v).isSome = true) (hact : cmd ≠ .act)
    (h : t.update hmc.spec cmd addr clk = .ok t') : NodeTree.Rel KeepsClosed t t' := by
  have htrans : ∀ n₁ n₂ n₃ : Node Command State, KeepsClosed n₁ n₂ → KeepsClosed n₂ n₃ →
      KeepsClosed n₁ n₃ := fun _ _ _ h₁ h₂ hclosed => h₂ (h₁ hclosed)
  have hclk : NodeTree.Rel KeepsClosed t (t.setVal { t.val with curClk := clk }) :=
    NodeTree.Rel.setVal KeepsClosed.refl (fun hclosed => hclosed)
  have hstate : NodeTree.Rel KeepsClosed (t.setVal { t.val with curClk := clk })
      (DRAM.updateState hmc.spec cmd addr (t.setVal { t.val with curClk := clk })) :=
    DRAM.updateState_rel_of KeepsClosed.refl htrans
      (fun t f hf => lambda_keepsClosed hcmd hact _ f hf t) addr _
  rw [DRAM.update_ok h]
  refine (hclk.trans htrans hstate).trans htrans ?_
  refine (DRAM.updateTiming_rel hmc.spec cmd addr clk _).mono ?_
  intro n n' hsame hclosed
  rw [hsame.state]
  exact hclosed

theorem update_powerUp (hcmd : (toCmd cmd v).isSome = true) (hlevel : t.val.level = Level.vault)
    (h : t.update hmc.spec cmd addr clk = .ok t') : t'.val.state = t.val.state := by
  have htiming := DRAM.updateTiming_rel hmc.spec cmd addr clk
    (DRAM.updateState hmc.spec cmd addr (t.setVal { t.val with curClk := clk }))
  have hstate : (DRAM.updateState hmc.spec cmd addr
      (t.setVal { t.val with curClk := clk })).val.state = t.val.state := by
    rw [updateState_powerUp hcmd (by rw [NodeTree.val_setVal]; exact hlevel), NodeTree.val_setVal]
  rw [DRAM.update_ok h, htiming.val.state, hstate]

end Update

end HMC

namespace Controller

variable {cfg : ControllerConfig} {vault junk : Int} {c c' : Controller} {req : Request}
  {active : Finset Int} {time : Int} {cmd : Command} {v : AddrVec} {i : Nat}

/-! ## Refresh windows -/

noncomputable def refreshWindows (c : Controller) (len : Int) : Finset Int :=
  c.refTimes.toFinset.biUnion fun t => Finset.Ico t (t + len)

theorem mem_refreshWindows {len t : Int} : t ∈ c.refreshWindows len ↔
    ∃ i ∈ c.cmdTrace, i.cmd = .ref ∧ i.clk ≤ t ∧ t < i.clk + len := by
  simp only [refreshWindows, refTimes, Finset.mem_biUnion, mem_toFinset, mem_map,
    mem_filter, decide_eq_true_eq, Finset.mem_Ico]
  constructor
  · rintro ⟨_, ⟨i, ⟨hi, href⟩, rfl⟩, hin⟩
    exact ⟨i, hi, href, hin⟩
  · rintro ⟨i, hi, href, hin⟩
    exact ⟨i.clk, ⟨i, ⟨hi, href⟩, rfl⟩, hin⟩

theorem refreshWindows_cons {i : Issued} (htrace : c'.cmdTrace = i :: c.cmdTrace) (len : Int) :
    c'.refreshWindows len =
      if i.cmd = .ref then c.refreshWindows len ∪ Finset.Ico i.clk (i.clk + len)
      else c.refreshWindows len := by
  rw [refreshWindows, refTimes_cons htrace]
  split
  · rw [toFinset_cons, Finset.biUnion_insert, Finset.union_comm]
    rfl
  · rfl

theorem refreshWindows_congr (htrace : c'.cmdTrace = c.cmdTrace) (len : Int) :
    c'.refreshWindows len = c.refreshWindows len := by
  rw [refreshWindows, refreshWindows, refTimes, refTimes, htrace]

/-! ## The invariant -/

def NamesVault (vault : Int) (v : AddrVec) : Prop := ∀ junk, v.data junk Level.vault = vault

theorem NamesVault.take (h : NamesVault vault v) : NamesVault vault (v.take 3) := by
  intro junk
  rw [← h junk, AddrVec.data, AddrVec.data, getD_eq_getElem?_getD,
    getD_eq_getElem?_getD, getElem?_take_of_lt (by decide)]

structure BusyInv (cfg : ControllerConfig) (vault : Int) (active : Finset Int) (c : Controller)
    (time : Int) : Prop where
  timed : Timed cfg vault c
  queues : QueueInv cfg vault c
  keys : c.rowtable.Keys (NamesVault vault)
  trace : ∀ i ∈ c.cmdTrace, NamesVault vault i.addrVec
  powerUp : c.channel.val.state = .powerUp
  closed : time ∈ c.refreshWindows cfg.hmc.speed.nRFC → anyBankOpen c.channel = false
  meters : Meters c.channel.val.stats active (c.refreshWindows cfg.hmc.speed.nRFC) time

theorem BusyInv.new (cfg : ControllerConfig) (vault : Int) :
    BusyInv cfg vault ∅ (Controller.new cfg vault) 1 where
  timed := Timed.new cfg vault
  queues := (ProtocolInv.new cfg vault).queues
  keys kv hkv := by cases hkv
  trace i hi := by cases hi
  powerUp := rfl
  closed h := by
    obtain ⟨i, hi, -⟩ := mem_refreshWindows.mp h
    cases hi
  meters := Meters.new (by decide)

theorem BusyInv.frame (h : BusyInv cfg vault active c time)
    (hrel : NodeTree.Rel Node.SameButStats c.channel c'.channel)
    (htrace : c'.cmdTrace = c.cmdTrace) (hclk : c.clk ≤ c'.clk) (hqueues : QueueInv cfg vault c')
    (htable : c'.rowtable.Keys (NamesVault vault))
    (hmeters : Meters c'.channel.val.stats active (c.refreshWindows cfg.hmc.speed.nRFC) time) :
    BusyInv cfg vault active c' time where
  timed := h.timed.frame hrel htrace hclk
  queues := hqueues
  keys := htable
  trace := by
    rw [htrace]
    exact h.trace
  powerUp := by
    rw [hrel.val.sameState.state]
    exact h.powerUp
  closed hin := by
    rw [refreshWindows_congr htrace] at hin
    refine anyBankOpen_of_rel (hrel.mono ?_) (h.closed hin)
    intro n n' hsame hclosed
    rw [hsame.sameState.state]
    exact hclosed
  meters := by
    rw [refreshWindows_congr htrace]
    exact hmeters

theorem BusyInv.same (h : BusyInv cfg vault active c time) (hchannel : c'.channel = c.channel)
    (htrace : c'.cmdTrace = c.cmdTrace) (hclk : c.clk ≤ c'.clk)
    (hqueues : QueueInv cfg vault c') (htable : c'.rowtable = c.rowtable) :
    BusyInv cfg vault active c' time := by
  refine h.frame ?_ htrace hclk hqueues ?_ ?_
  · rw [hchannel]
    exact NodeTree.Rel.refl Node.SameButStats.refl _
  · rw [htable]
    exact h.keys
  · rw [hchannel]
    exact h.meters

theorem BusyInv.quiet (h : BusyInv cfg vault active c c.clk) (hquiet : Quiet c c')
    (hqueues : QueueInv cfg vault c')
    (hmeters : Meters c'.channel.val.stats active (c.refreshWindows cfg.hmc.speed.nRFC) c.clk) :
    BusyInv cfg vault active c' c'.clk := by
  have hkeys : c'.rowtable.Keys (NamesVault vault) := by
    rw [hquiet.table]
    exact h.keys
  rw [hquiet.clk]
  exact h.frame hquiet.channel hquiet.trace (le_of_eq hquiet.clk.symm) hqueues hkeys hmeters

theorem next_le_of_isReadyCmd (hclk : 0 ≤ c.clk) (hready : c.isReadyCmd cfg junk cmd v = true) :
    c.channel.val.next cmd ≤ c.clk := by
  unfold isReadyCmd at hready
  generalize c.channel = t at hready ⊢
  obtain ⟨n, k, f⟩ := t
  rw [NodeTree.val_node]
  rw [DRAM.check] at hready
  split at hready
  · cases hready
  · next hwait => omega

theorem BusyInv.not_in_window (h : BusyInv cfg vault active c c.clk)
    (hcmd : cmd = .act ∨ cmd = .ref) (hready : c.channel.val.next cmd ≤ c.clk) :
    c.clk ∉ c.refreshWindows cfg.hmc.speed.nRFC := by
  intro hin
  obtain ⟨i, hi, href, -, hlt⟩ := mem_refreshWindows.mp hin
  have hentry : (⟨cmd, 1, cfg.hmc.speed.nRFC, false, by decide, by decide⟩ :
      TimingEntry Command) ∈ vaultTiming cfg.hmc.speed .ref := by
    rcases hcmd with rfl | rfl
    · exact mem_cons_self
    · exact mem_cons_of_mem _ mem_cons_self
  have hallows := h.timed.allows_of_ready hready hentry rfl rfl rfl hi href (h.trace i hi 0)
  have hval : i.clk + cfg.hmc.speed.nRFC ≤ c.clk := hallows
  omega

/-! ## Serving requests -/

variable {refreshing : Finset Int}

theorem updateServingRequests_meters {delta : Int}
    (h : Meters c.channel.val.stats active refreshing c.clk) (hclk : 0 ≤ c.clk)
    (hstart : delta = 1 → c.channel.val.stats.endOfRefreshing ≤ c.clk) (req : Request) :
    Yields (c.updateServingRequests cfg junk delta req)
      (fun c' => Meters c'.channel.val.stats active refreshing c.clk) := by
  unfold updateServingRequests
  refine Ends.bind (Q := fun t => Meters t.val.stats active refreshing c.clk)
    (Ends.intro ?_ (fun _ _ => trivial)) (fun t ht => Ends.pure ht)
  intro t ht
  obtain ⟨hdelta, hserve⟩ := DRAM.updateServingRequests_root ht
  exact h.serve hdelta hclk (fun hone _ => hstart hone) hserve

theorem serveCompleted_meters (h : Meters c.channel.val.stats active refreshing c.clk)
    (hclk : 0 ≤ c.clk) : Yields (c.serveCompleted cfg junk)
      (fun out => Meters out.2.channel.val.stats active refreshing c.clk) := by
  unfold serveCompleted
  split
  · exact h
  · next req rest hpending =>
    refine Ends.ite (fun _ => ?_) (fun _ => h)
    have hend : Yields (c.endServing cfg junk req)
        (fun c' => Meters c'.channel.val.stats active refreshing c.clk) :=
      Ends.ite
        (fun _ => updateServingRequests_meters h hclk (fun hone => absurd hone (by decide)) req)
        (fun _ => h)
    refine Ends.bind hend ?_
    intro c₁ h₁
    refine Ends.ite (fun _ => ?_) (fun _ => ?_)
    · refine Ends.ite (fun _ => ?_) (fun _ => h₁)
      dsimp only
      split
      · trivial
      · exact h₁
    · refine Ends.bind ((respond_ends cfg c₁ req).ignore) ?_
      rintro c' ⟨reqPacket, -, rfl⟩
      exact h₁

variable {type : RequestType}

theorem firstCommand_meters (h : Meters c.channel.val.stats active refreshing c.clk)
    (hclk : 0 ≤ c.clk)
    (hstart : req.type = .read ∨ req.type = .write → c.channel.val.stats.endOfRefreshing ≤ c.clk) :
    Yields (c.firstCommand cfg junk type i req)
      (fun out => Meters out.2.channel.val.stats active refreshing c.clk) := by
  unfold firstCommand
  refine Ends.ite (fun _ => ?_) (fun _ => h)
  obtain ⟨c₀, hc₀⟩ : ∃ c₀, c₀ = c.setQueue type ((c.getQueue type).set i (started req)) := ⟨_, rfl⟩
  have hchannel₀ : c₀.channel = c.channel := by
    rw [hc₀]
    exact setQueue_channel c _ _
  have hclk₀ : c₀.clk = c.clk := by
    rw [hc₀]
    exact (Quiet.setQueue c _ _).clk
  have h₀ : Meters c₀.channel.val.stats active refreshing c₀.clk := by
    rw [hchannel₀, hclk₀]
    exact h
  show Ends ((c.setQueue type ((c.getQueue type).set i (started req))).startServing cfg junk
    (started req) >>= fun c' => pure (started req, c')) _ _
  rw [← hc₀, ← hclk₀]
  have hserving : Yields (c₀.startServing cfg junk (started req))
      (fun c' => Meters c'.channel.val.stats active refreshing c₀.clk) := by
    refine Ends.ite (fun htype => ?_) (fun _ => h₀)
    refine updateServingRequests_meters h₀ (by rw [hclk₀]; exact hclk) ?_ _
    intro _
    rw [hchannel₀, hclk₀]
    exact hstart htype
  exact Ends.bind hserving (fun c' hc' => Ends.pure hc')

theorem finishBurst_meters (h : Meters c.channel.val.stats active refreshing c.clk)
    (hclk : 0 ≤ c.clk) : Yields (c.finishBurst cfg junk type i req)
      (fun c' => Meters c'.channel.val.stats active refreshing c.clk) := by
  unfold finishBurst
  refine Ends.bind (Q := fun out => Meters out.2.channel.val.stats active refreshing c.clk) ?_ ?_
  · unfold countBurst
    split
    · exact Ends.ite (fun _ => h) (fun _ => h)
    · refine Ends.ite (fun _ => ?_) (fun _ => h)
      refine Ends.bind (Q := fun c' => Meters c'.channel.val.stats active refreshing c.clk) ?_
        (fun c' hc' => Ends.pure hc')
      unfold completeWrite
      refine Ends.bind ((respond_ends cfg c _).ignore) ?_
      rintro c₁ ⟨reqPacket, -, rfl⟩
      exact updateServingRequests_meters (c := c.responded cfg reqPacket _) h hclk
        (fun hone => absurd hone (by decide)) _
    · exact h
  · rintro ⟨req₁, c₁⟩ h₁
    refine Ends.pure ?_
    show Meters (c₁.leaveQueue type i req₁).channel.val.stats active refreshing c.clk
    unfold leaveQueue
    split <;> rw [setQueue_channel] <;> exact h₁

/-! ## Commands -/

/-- The speed entries: `ACT` waits at most `nRFC` cycles after any command. -/
structure WindowSpeed (s : SpeedEntry) : Prop where
  wait : ∀ p, ∀ e ∈ vaultTiming s p, e.cmd = .act → e.val ≤ s.nRFC
  nonneg : 0 ≤ s.nRFC

theorem speedTable_window (speed : Speed) : WindowSpeed (speedTable speed) where
  wait := by
    intro p
    cases speed <;> cases p <;> decide
  nonneg := by cases speed <;> decide

theorem BusyInv.issue_meters (hspeed : WindowSpeed cfg.hmc.speed)
    (h : BusyInv cfg vault active c c.clk) {channel : Tree} (hcmd : (toCmd cmd v).isSome = true)
    (hv : NamesVault vault v) (hnext : c.channel.val.next cmd ≤ c.clk)
    (hupdate : c.channel.update cfg.hmc.spec cmd (v.data junk) c.clk = .ok channel) :
    Meters channel.val.stats active (if cmd = .ref then c.refreshWindows cfg.hmc.speed.nRFC ∪
          Finset.Ico c.clk (c.clk + cfg.hmc.speed.nRFC)
        else c.refreshWindows cfg.hmc.speed.nRFC) c.clk := by
  have hlevel := h.timed.shape.val_level
  obtain ⟨n, hframe, hval⟩ := DRAM.update_root hupdate (by rw [hlevel, h.timed.shape.val_id, hv])
  have hstats : n.stats = c.channel.val.stats := hframe.stats
  by_cases href : cmd = .ref
  · subst href
    have hlevel' : n.level = Level.vault := hframe.level.trans hlevel
    have hprev : n.prev .ref ≠ [] := by
      have hlen : (n.prev .ref).length = 1 := by
        rw [show n.prev = c.channel.val.prev from hframe.prev, h.timed.tables.prev,
          History.recent_length, hlevel]
        rfl
      intro hnil
      rw [hnil] at hlen
      cases hlen
    have hrow : cfg.hmc.spec.timing n.level .ref = [] ++ entry .act cfg.hmc.speed.nRFC ::
        [entry .ref cfg.hmc.speed.nRFC, entry .pde 1] := by
      rw [hlevel']
      rfl
    have hrecord : (n.targetTiming cfg.hmc.spec .ref c.clk).stats =
        (n.recordRefresh c.clk (max (n.next .act) (c.clk + cfg.hmc.speed.nRFC))).stats := by
      refine Node.targetTiming_refresh hrow ?_ ?_ rfl rfl rfl hprev h.timed.clk
      · intro e he
        cases he
      · intro e he
        simp only [mem_cons, not_mem_nil, or_false] at he
        rcases he with rfl | rfl
        · rfl
        · rfl
    -- nothing blocks `ACT` for longer than the refresh itself
    have hact : n.next .act ≤ c.clk + cfg.hmc.speed.nRFC := by
      rw [show n.next = c.channel.val.next from hframe.next]
      refine h.timed.next_le hspeed.wait (fun i hi => (h.timed.clks i hi).2) ?_
      have := h.timed.clk
      have := hspeed.nonneg
      omega
    have hend : n.stats.endOfRefreshing ≤ c.clk := by
      rw [hstats]
      have hwindow := h.meters.window c.clk (le_refl _)
      have hout := h.not_in_window (Or.inr rfl) hnext
      by_contra hlt
      exact hout (hwindow.mpr (by omega))
    rw [if_pos rfl, hval, hrecord, max_eq_right hact]
    refine Meters.recordRefresh ?_ hspeed.nonneg hend
    rw [hstats]
    exact h.meters
  · have hrefreshing : cfg.hmc.spec.isRefreshing cmd = false := by
      cases cmd <;> first | rfl | exact absurd rfl href
    rw [if_neg href, hval, Node.targetTiming_stats hrefreshing, hstats]
    exact h.meters

/-- A command of a request, or a speculative precharge. -/
theorem BusyInv.issueCmd (hspeed : WindowSpeed cfg.hmc.speed) (hlat : cfg.noDramLatency = false)
    (h : BusyInv cfg vault active c c.clk) (hcmd : (toCmd cmd v).isSome = true)
    (hv : NamesVault vault v) (href : cmd = .ref → anyBankOpen c.channel = false) :
    Yields (c.issueCmd cfg junk cmd v) (fun c' => BusyInv cfg vault active c' c'.clk) := by
  have hready : ∀ c', c.issueCmd cfg junk cmd v = .ok c' → c.channel.val.next cmd ≤ c.clk := by
    intro c' hissue
    have hcheck : c.isReadyCmd cfg junk cmd v = true := by
      by_contra hnot
      rw [Controller.issueCmd, if_neg hnot] at hissue
      cases hissue
    exact next_le_of_isReadyCmd h.timed.clk hcheck
  refine ((issueCmd_ends cfg c junk cmd v).remember).yields ?_
  rintro c' ⟨hissue, channel, rowtable, rfl, hupdates⟩
  have hnext := hready _ hissue
  obtain ⟨hchannel, hrowtable⟩ := hupdates hlat
  have hkeys : rowtable.Keys (NamesVault vault) :=
    (h.keys.update cfg.hmc.spec cmd hv.take c.clk junk).result hrowtable
  have htimed : Timed cfg vault { c with
      channel, rowtable
      cmdTrace := { clk := c.clk, cmd, addrVec := v } :: c.cmdTrace } :=
    h.timed.issue hv hchannel
  refine ⟨htimed, h.queues.frame rfl rfl rfl, hkeys, ?_, ?_, ?_, ?_⟩
  · intro i hi
    rcases mem_cons.mp hi with rfl | hi
    · exact hv
    · exact h.trace i hi
  · exact (update_powerUp hcmd h.timed.shape.val_level hchannel).trans h.powerUp
  · intro hin
    rw [refreshWindows_cons rfl] at hin
    by_cases hact : cmd = .act
    · subst hact
      exact absurd hin (h.not_in_window (Or.inl rfl) hnext)
    · refine anyBankOpen_of_rel (update_keepsClosed hcmd hact hchannel) ?_
      by_cases hcase : cmd = .ref
      · exact href hcase
      · rw [if_neg hcase] at hin
        exact h.closed hin
  · rw [refreshWindows_cons rfl]
    exact h.issue_meters hspeed hcmd hv hnext hchannel

theorem BusyInv.firstCmd (h : BusyInv cfg vault active c time) (hlat : cfg.noDramLatency = false)
    (hreq : Admitted cfg.hmc vault type req) (junk : Int) :
    (toCmd (c.getFirstCmd cfg junk req) req.addrVec).isSome = true ∧
      (c.getFirstCmd cfg junk req = .ref → anyBankOpen c.channel = false) ∧
      (req.type = .read ∨ req.type = .write → anyBankOpen c.channel = false →
        c.getFirstCmd cfg junk req = .act) := by
  rcases hreq.cases with ⟨htype, hrange⟩ | ⟨htype, -⟩
  · obtain ⟨hmem, hact⟩ := Controller.firstCmd_column h.powerUp h.timed.shape hlat htype hrange junk
    refine ⟨?_, fun href => ?_, fun _ => hact⟩
    · simp only [mem_cons, not_mem_nil, or_false] at hmem
      rcases hmem with hd | hd | hd | hd <;> rw [hd] <;> rfl
    · rw [href] at hmem
      simp at hmem
  · rw [getFirstCmd_eq hlat, htype, show HMC.translate .refresh = Command.ref from rfl,
      decode_refresh h.timed.shape]
    refine ⟨?_, fun href => ?_, by simp⟩
    · split <;> rfl
    · by_contra hopen
      rw [if_pos (by simpa using hopen)] at href
      cases href

/-! ## One tick -/

/-- A request that may start is not inside a refresh window. -/
theorem BusyInv.end_le_of_ready (h : BusyInv cfg vault active c c.clk)
    (hlat : cfg.noDramLatency = false) (hreq : Admitted cfg.hmc vault type req)
    (hready : c.isReady cfg junk req = true) (htype : req.type = .read ∨ req.type = .write) :
    c.channel.val.stats.endOfRefreshing ≤ c.clk := by
  by_contra hlt
  have hin : c.clk ∈ c.refreshWindows cfg.hmc.speed.nRFC :=
    (h.meters.window c.clk (le_refl _)).mpr (by omega)
  have hact : c.getFirstCmd cfg junk req = .act :=
    (h.firstCmd hlat hreq junk).2.2 htype (h.closed hin)
  rw [isReady, hact] at hready
  exact h.not_in_window (Or.inl rfl) (next_le_of_isReadyCmd h.timed.clk hready) hin

theorem firstCommand_busy (hlat : cfg.noDramLatency = false) (h : BusyInv cfg vault active c c.clk)
    (hi : (c.getQueue type)[i]? = some req) (hready : c.isReady cfg junk req = true) :
    Yields (c.firstCommand cfg junk type i req)
      (fun out => BusyInv cfg vault active out.2 out.2.clk) := by
  have hreq := h.queues type req (mem_of_getElem? hi)
  refine ((firstCommand_meters h.meters h.timed.clk (h.end_le_of_ready hlat hreq hready)).and
    (firstCommand_ends cfg c junk hi)).yields ?_
  rintro _ ⟨hmeters, channel, hrel, rfl⟩
  have hqueues : QueueInv cfg vault (c.setQueue type ((c.getQueue type).set i (started req))) :=
    h.queues.set (hreq.congr rfl rfl)
  exact h.quiet (.started hrel type _) (hqueues.frame rfl rfl rfl) hmeters

theorem finishBurst_busy (h : BusyInv cfg vault active c c.clk)
    (hi : (c.getQueue type)[i]? = some req) : Yields (c.finishBurst cfg junk type i req)
      (fun c' => BusyInv cfg vault active c' c'.clk) := by
  refine ((finishBurst_meters h.meters h.timed.clk).and
    (finishBurst_ends cfg c junk type i req)).yields ?_
  rintro c' ⟨hmeters, req₁, c₁, hcounted, rfl⟩
  obtain ⟨hqueues, htype, haddr⟩ := h.queues.counted hcounted
  have hadmitted := (h.queues type req (mem_of_getElem? hi)).congr htype haddr
  exact h.quiet (hcounted.quiet.trans (.leaveQueue c₁ type i req₁))
    (hqueues.leaveQueue hadmitted) hmeters

theorem busy_rule (hspeed : WindowSpeed cfg.hmc.speed) (hlat : cfg.noDramLatency = false)
    (vault junk : Int) (active : Finset Int) :
    IssueRule cfg junk (fun c => BusyInv cfg vault active c c.clk)
      (fun c => BusyInv cfg vault active c c.clk) (fun _ => True) where
  idle _ h := h
  first _ _ _ _ h hi hready := firstCommand_busy hlat h hi hready
  issue c type req h hmem := by
    have hadmitted := h.queues type req hmem
    obtain ⟨hsome, hclosed, -⟩ := h.firstCmd hlat hadmitted junk
    exact h.issueCmd hspeed hlat hsome (admitted_vault hadmitted) hclosed
  victim _ _ _ h _ _ hmem :=
    h.issueCmd hspeed hlat rfl (h.keys _ hmem) (fun hcmd => by cases hcmd)
  finish _ _ _ _ h hi _ _ := finishBurst_busy h hi

theorem BusyInv.tickEnd (h : BusyInv cfg vault active c c.clk) : BusyInv cfg vault
      (if 0 < c.channel.val.stats.curServingRequests then insert c.clk active else active) c
      (c.clk + 1) where
  timed := h.timed
  queues := h.queues
  keys := h.keys
  trace := h.trace
  powerUp := h.powerUp
  closed hin := by
    obtain ⟨i, hi, href, -, hlt⟩ := mem_refreshWindows.mp hin
    have hle := (h.timed.clks i hi).2
    exact h.closed (mem_refreshWindows.mpr ⟨i, hi, href, hle, by omega⟩)
  meters := h.meters.tick

theorem tick_busy (hspeed : WindowSpeed cfg.hmc.speed) (hlat : cfg.noDramLatency = false)
    (h : BusyInv cfg vault active c (c.clk + 1)) :
    Yields (c.tick cfg junk) (fun out => BusyInv cfg vault active out.2 out.2.clk) := by
  have h₀ : BusyInv cfg vault active { c with clk := c.clk + 1 } (c.clk + 1) :=
    h.same rfl rfl (show c.clk ≤ c.clk + 1 by omega) (h.queues.frame rfl rfl rfl) rfl
  refine tick_rule (fun _ => busy_rule hspeed hlat vault junk active) ?_ ?_ ?_ trivial ?_
  · refine ((serveCompleted_meters (c := { c with clk := c.clk + 1 }) h₀.meters
      h₀.timed.clk).and (serveCompleted_ends cfg _ junk)).yields ?_
    rintro ⟨done, c₁⟩ ⟨hmeters, hserved⟩
    exact h₀.quiet hserved.quiet (h₀.queues.served hserved) hmeters
  · exact fun _ _ _ _ h => h.same rfl rfl (le_refl _) (h.queues.frame rfl rfl rfl) rfl
  · exact fun _ _ h => h.same rfl rfl (le_refl _) (h.queues.refreshed h.timed.shape.val_id) rfl
  · intro _ c₁ rowtable h₁ hkeys
    refine h₁.frame (NodeTree.Rel.refl Node.SameButStats.refl _) rfl (le_refl _)
      (h₁.queues.frame rfl rfl rfl) (hkeys _ h₁.keys fun req hreq => ?_) h₁.meters
    exact NamesVault.take (admitted_vault (h₁.queues _ req hreq))

/-! ## Runs -/

/-- A vault, and the cycles at whose end it had requests to serve. -/
structure Metered where
  controller : Controller
  active : Finset Int := ∅

namespace Metered

def logged (s : Metered) (c : Controller) : Input → Finset Int
  | .tick _ =>
    if 0 < c.channel.val.stats.curServingRequests then insert c.clk s.active else s.active
  | .receive _ | .takeResponse => s.active

def apply (cfg : ControllerConfig) (s : Metered) (input : Input) : Except Abort Metered := do
  let c ← s.controller.apply cfg input
  pure { controller := c, active := s.logged c input }

def run (cfg : ControllerConfig) (vault : Int) (inputs : List Input) : Except Abort Metered :=
  inputs.foldlM (apply cfg) { controller := Controller.new cfg vault }

theorem run_controller (cfg : ControllerConfig) (vault : Int) (inputs : List Input) :
    Sim (fun s c => s.controller = c) (run cfg vault inputs) (Controller.run cfg vault inputs) := by
  refine Sim.foldlM inputs rfl ?_
  rintro s _ input rfl
  exact Sim.map_left _ (fun _ => rfl)

/-- Between two ticks. -/
def Inv (cfg : ControllerConfig) (vault : Int) (s : Metered) : Prop :=
  BusyInv cfg vault s.active s.controller (s.controller.clk + 1)

theorem apply_inv {s : Metered} (hspeed : WindowSpeed cfg.hmc.speed)
    (hlat : cfg.noDramLatency = false) (h : Inv cfg vault s) {input : Input}
    (hok : input.Ok cfg vault) : Yields (s.apply cfg input) (Inv cfg vault) := by
  unfold Metered.apply
  cases input with
  | receive _ | takeResponse =>
    refine Ends.bind (apply_frame h.queues hok (by nofun)).ignore ?_
    rintro _ ⟨hqueues, _, _, _, _, _, rfl⟩
    exact h.same rfl rfl (le_refl _) hqueues rfl
  | tick junk =>
    have happly : Yields (s.controller.apply cfg (.tick junk))
        (fun c' => BusyInv cfg vault s.active c' c'.clk) :=
      Ends.bind (tick_busy hspeed hlat h) (fun _ hout => Ends.pure hout)
    exact Ends.bind happly (fun c' hc' => Ends.pure hc'.tickEnd)

theorem run_inv (hspeed : WindowSpeed cfg.hmc.speed) (hlat : cfg.noDramLatency = false)
    {inputs : List Input} (hok : ∀ input ∈ inputs, input.Ok cfg vault) :
    Yields (run cfg vault inputs) (Inv cfg vault) :=
  Ends.foldlM inputs (BusyInv.new cfg vault)
    (fun _ input hinput h => apply_inv hspeed hlat h (hok input hinput))

end Metered

/-- Whenever a vault serves no request, its statistics are exact: they count the
    cycles in which it served requests, the cycles of its refresh windows, and
    the cycles that were both; and `finish` computes how many were either. -/
theorem run_busy_cycles_exact {speed : Speed} (hspeed : cfg.hmc.speed = speedTable speed)
    (hlat : cfg.noDramLatency = false) {inputs : List Input}
    (hok : ∀ input ∈ inputs, input.Ok cfg vault) {s : Metered}
    (hrun : Metered.run cfg vault inputs = .ok s)
    (hidle : s.controller.channel.val.stats.curServingRequests = 0) :
    s.controller.channel.val.stats.activeCycles = s.active.card ∧
      s.controller.channel.val.stats.refreshCycles =
        (s.controller.refreshWindows cfg.hmc.speed.nRFC).card ∧
      s.controller.channel.val.stats.activeRefreshOverlapCycles =
        (s.active ∩ s.controller.refreshWindows cfg.hmc.speed.nRFC).card ∧
      ∀ dramCycles, (s.controller.channel.finish dramCycles).val.busyCycles =
        (s.active ∪ s.controller.refreshWindows cfg.hmc.speed.nRFC).card := by
  have hwindow : WindowSpeed cfg.hmc.speed := by
    rw [hspeed]
    exact speedTable_window speed
  have hinv := (Metered.run_inv hwindow hlat hok).result hrun
  have hexact := hinv.meters.exact_of_idle hidle
  refine ⟨(hexact 0).1, (hexact 0).2.1, (hexact 0).2.2.1, fun dramCycles => ?_⟩
  rw [DRAM.finish_val]
  exact (hexact dramCycles).2.2.2

theorem Metered.run_after_idle (cfg : ControllerConfig) (vault : Int) (n : Nat)
    (inputs : List Input) (hlat : cfg.noDramLatency = false) (hpolicy : cfg.rowpolicy = .opened)
    (hn : (n : Int) < cfg.hmc.speed.nREFI) :
    Metered.run cfg vault (replicate n (.tick 0) ++ inputs) =
      inputs.foldlM (Metered.apply cfg) { controller := idleAt cfg vault n } := by
  refine foldlM_replicate_append (f := fun k => Metered.mk (idleAt cfg vault k) ∅) ?_ inputs
  intro k hk
  have happly := (apply_idle vault hlat hpolicy (show (k : Int) + 1 < _ by omega)).2
  have hstats : (idleAt cfg vault (k + 1)).channel.val.stats = {} := rfl
  refine bind_ok.mpr ⟨_, happly, ?_⟩
  simp only [Metered.logged, hstats, lt_irrefl, if_false]
  rfl

/-- Two reads arrive shortly before the first refresh is due and have to wait for
    it: all 200 cycles of the refresh are among the 346 cycles they take. -/
theorem run_busy_cycles_exact_refresh :
    ∃ s, Metered.run (gb4Vault .opened) 0 (replicate 9740 (.tick 0) ++ rowConflict 350) = .ok s ∧
      s.controller.channel.val.stats.curServingRequests = 0 ∧ s.controller.refTimes = [9792] ∧
      s.controller.channel.val.stats.activeCycles = 346 ∧
      s.controller.channel.val.stats.activeRefreshOverlapCycles = 200 ∧
      s.controller.channel.val.stats.activeCycles = s.active.card ∧
      s.controller.channel.val.stats.refreshCycles =
        (s.controller.refreshWindows (gb4Vault .opened).hmc.speed.nRFC).card ∧
      s.controller.channel.val.stats.activeRefreshOverlapCycles =
        (s.active ∩ s.controller.refreshWindows (gb4Vault .opened).hmc.speed.nRFC).card ∧
      ∀ dramCycles, (s.controller.channel.finish dramCycles).val.busyCycles =
        (s.active ∪ s.controller.refreshWindows (gb4Vault .opened).hmc.speed.nRFC).card := by
  have hlog : ((rowConflict 350).foldlM (Metered.apply (gb4Vault .opened))
      { controller := idleAt (gb4Vault .opened) 0 9740 }).toOption.map (fun s =>
        (s.controller.channel.val.stats.curServingRequests, s.controller.refTimes,
          s.controller.channel.val.stats.activeCycles,
          s.controller.channel.val.stats.activeRefreshOverlapCycles)) =
          some (0, [9792], 346, 200) := by decide +kernel
  rw [← Metered.run_after_idle _ _ _ _ rfl rfl (by decide)] at hlog
  obtain ⟨s, hrun, hlog⟩ := exists_ok_of_map hlog
  obtain ⟨hidle, hrefs, hactive, hoverlap⟩ :
      s.controller.channel.val.stats.curServingRequests = 0 ∧ s.controller.refTimes = [9792] ∧
        s.controller.channel.val.stats.activeCycles = 346 ∧
        s.controller.channel.val.stats.activeRefreshOverlapCycles = 200 := by
    simpa only [Prod.mk.injEq] using hlog
  have hspeed : (gb4Vault .opened).hmc.speed = speedTable .hmc2500 := rfl
  have hexact := run_busy_cycles_exact hspeed rfl (idle_rowConflict_ok 9740 350) hrun hidle
  exact ⟨s, hrun, hidle, hrefs, hactive, hoverlap, hexact⟩

end Controller

end Ramulator
