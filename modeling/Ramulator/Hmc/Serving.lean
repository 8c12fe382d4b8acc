/-
  Ramulator.Hmc.Serving

  The requests a vault is serving, counted at every node of its tree.

  A request is counted from its first command on: by `update_serving_requests`
  with `1` when that command is issued, and with `-1` at the last burst of a
  write or when a finished read leaves `pending`.  A read that a queued write
  served is never counted; `tick` knows it by `depart - arrive`.

  `servingCount` says who is counted, by where the requests are.  `ServingInv`
  keeps it equal to the counter of each node.
-/

import Mathlib.Data.List.Perm.Subperm
import Ramulator.Dram.Serving
import Ramulator.Hmc.Protocol

namespace Ramulator

open Outcome List

/-! ## Counting in a list -/

section CountP

variable {α : Type} {l : List α} {i : Nat} {x : α}

theorem countP_set_add (hi : l[i]? = some x) (p : α → Bool) (y : α) :
    (l.set i y).countP p + (p x).toNat = l.countP p + (p y).toNat := by
  obtain ⟨hlt, rfl⟩ := List.getElem?_eq_some_iff.mp hi
  have hpos : p l[i] = true → 0 < l.countP p :=
    fun hp => countP_pos_iff.mpr ⟨_, getElem_mem hlt, hp⟩
  rw [countP_set hlt]
  cases hx : p l[i] with
  | true =>
    have := hpos hx
    cases hy : p y with
    | true => simp; omega
    | false => simp; omega
  | false =>
    cases hy : p y with
    | true => simp
    | false => simp

theorem countP_eraseIdx_add (hi : l[i]? = some x) (p : α → Bool) :
    (l.eraseIdx i).countP p + (p x).toNat = l.countP p := by
  obtain ⟨hlt, rfl⟩ := List.getElem?_eq_some_iff.mp hi
  have hperm := (getElem_cons_eraseIdx_perm hlt).countP_eq p
  rw [countP_cons] at hperm
  cases hx : p l[i] <;> simp [hx] at hperm ⊢
  · exact hperm
  · exact hperm

end CountP

namespace Controller

variable {cfg : ControllerConfig} {vault junk : Int} {c c' : Controller} {req : Request}
  {path : List Nat}

/-! ## Who is counted -/

def passes (path : List Nat) (req : Request) : Bool :=
  decide (Through (req.addrVec.data 0) HMC.Level.vault path)

def inService (path : List Nat) (req : Request) : Bool :=
  decide (req.type = .read ∨ req.type = .write) && !req.isFirstCommand && passes path req

/-- A finished read that was not served by a queued write. -/
def awaited (path : List Nat) (req : Request) : Bool :=
  decide (1 < req.depart - req.arrive) && passes path req

/-- The requests the vault serves at the node at the end of `path`. -/
def servingCount (c : Controller) (path : List Nat) : Nat :=
  (c.readq ++ c.writeq).countP (inService path) + c.pending.countP (awaited path)

variable {req' : Request}

theorem passes_congr (h : req'.addrVec = req.addrVec) : passes path req' = passes path req := by
  rw [passes, passes, h]

variable {type : RequestType}

theorem servingCount_setQueue (c : Controller) (htype : type = .read ∨ type = .write)
    (q : List Request) (path : List Nat) :
    (c.setQueue type q).servingCount path + (c.getQueue type).countP (inService path) =
      c.servingCount path + q.countP (inService path) := by
  rcases htype with rfl | rfl
  · simp only [servingCount, setQueue, getQueue, countP_append]
    omega
  · simp only [servingCount, setQueue, getQueue, countP_append]
    omega

theorem servingCount_setQueue_other (c : Controller) (htype : ¬ (type = .read ∨ type = .write))
    (q : List Request) (path : List Nat) :
    (c.setQueue type q).servingCount path = c.servingCount path := by
  cases type with
  | read => exact absurd (Or.inl rfl) htype
  | write => exact absurd (Or.inr rfl) htype
  | refresh | powerdown | selfrefresh | extension | instruction => rfl

variable {i : Nat}

theorem servingCount_set (c : Controller) (htype : type = .read ∨ type = .write)
    (hi : (c.getQueue type)[i]? = some req) (path : List Nat) :
    (c.setQueue type ((c.getQueue type).set i req')).servingCount path +
        (inService path req).toNat = c.servingCount path + (inService path req').toNat := by
  have hset := servingCount_setQueue c htype ((c.getQueue type).set i req') path
  have hcount := countP_set_add hi (inService path) req'
  omega

theorem servingCount_eraseIdx (c : Controller) (htype : type = .read ∨ type = .write)
    (hi : (c.getQueue type)[i]? = some req) (path : List Nat) :
    (c.setQueue type ((c.getQueue type).eraseIdx i)).servingCount path +
        (inService path req).toNat = c.servingCount path := by
  have hset := servingCount_setQueue c htype ((c.getQueue type).eraseIdx i) path
  have hcount := countP_eraseIdx_add hi (inService path)
  omega

/-! ## The tree -/

def Balance (t : HMC.Tree) (count : List Nat → Nat) : Prop :=
  ∀ path n, t.at? path = some n → n.val.stats.Serving (count path)

theorem Balance.of_rel {t t' : HMC.Tree} {count : List Nat → Nat} (h : Balance t count)
    (hrel : NodeTree.Rel Node.SameServing t t') : Balance t' count := by
  intro path n' hn'
  obtain ⟨n, hn, hsame⟩ := hrel.at?_inv hn'
  exact (h path n hn).of_same hsame.val

theorem Balance.new (hmc : HMC) (vault : Int) :
    Balance (DRAM.new hmc.spec HMC.Level.vault vault) (fun _ => 0) := by
  have hfresh : ∀ (depth level : Nat) (id : Int) (path : List Nat) (n : HMC.Tree),
      (DRAM.newFrom hmc.spec depth level id).at? path = some n → n.val.stats.Serving 0 := by
    intro depth level id path
    induction path generalizing depth level id with
    | nil =>
      intro n hn
      cases hn
      cases depth <;> exact ⟨rfl, fun h => absurd rfl h⟩
    | cons i path ih =>
      intro n hn
      obtain ⟨c, hc, hat⟩ := NodeTree.at?_cons_eq_some.mp hn
      cases depth with
      | zero => exact absurd (NodeTree.lt_arity_of_child? hc) (Nat.not_lt_zero i)
      | succ depth =>
        obtain ⟨hi, rfl⟩ := NodeTree.child?_eq_some_iff.mp hc
        exact ih depth (level + 1) _ n hat
  exact fun path n hn => hfresh _ _ _ path n hn

section Walk

variable {v : AddrVec} {t : HMC.Tree} {count : List Nat → Nat} {clk : Int}

theorem reaches_of_inRange (hrange : HMC.InRange cfg.hmc vault v) (junk : Int) :
    Reaches cfg.hmc.spec (v.data junk) HMC.Level.vault := by
  intro l _ hpos
  have hl : l = 0 ∨ l = 1 := by
    by_contra hne
    have hcount : 0 < if l + 1 < 3 then cfg.hmc.spec.count (l + 1) else 0 := hpos
    rw [if_neg (by omega)] at hcount
    omega
  rcases hl with rfl | rfl
  · rw [hrange.namesBank.data_bankGroup junk]
    have hgroup := hrange.bankGroup
    show _ ∧ _ < cfg.hmc.org.bankGroup
    omega
  · rw [hrange.namesBank.data_bank junk]
    have hbank := hrange.bank
    show _ ∧ _ < cfg.hmc.org.bank
    omega

/-- What lies behind the end of an address vector in range is not read. -/
theorem through_iff_passes (hshape : DRAM.WellShaped cfg.hmc.spec HMC.Level.vault vault t)
    (hrange : HMC.InRange cfg.hmc vault req.addrVec) {n : HMC.Tree} (hn : t.at? path = some n)
    (junk : Int) :
    Through (req.addrVec.data junk) HMC.Level.vault path ↔ passes path req = true := by
  have hlen : 0 + path.length < 3 := hshape.path_lt (show 0 < 3 by omega) hn
  rw [passes, decide_eq_true_iff]
  refine Through.congr (fun l _ hl => ?_)
  have hlevel : l ≤ 0 + path.length := hl
  have hl' : l < req.addrVec.length := by
    rw [hrange.length]
    show l < 5
    omega
  rw [HMC.data_eq_getD hl' junk, HMC.data_eq_getD hl' 0]

/-- The walk for one request: on its way every counter takes a step from
    `count` to `count'`, elsewhere the two agree. -/
theorem Balance.walk {count' : List Nat → Nat} {delta : Int} (h : Balance c.channel count)
    (hshape : DRAM.WellShaped cfg.hmc.spec HMC.Level.vault vault c.channel)
    (hrange : HMC.InRange cfg.hmc vault req.addrVec) (hdelta : delta = 1 ∨ delta = -1)
    (hon : ∀ path s, passes path req = true → NodeStats.Serving s (count path) →
      Ends (s.serve delta c.clk) (fun s' => s'.Serving (count' path)) (fun _ => False))
    (hoff : ∀ path, passes path req = false → count' path = count path) :
    Ends (c.updateServingRequests cfg junk delta req)
      (fun c' => ∃ channel, NodeTree.Rel Node.SameButStats c.channel channel ∧
        Balance channel count' ∧ c' = { c with channel }) (fun _ => False) := by
  have hvault : req.addrVec.data junk HMC.Level.vault = vault := by
    rw [HMC.data_eq_getD (by rw [hrange.length]; decide), hrange.vault]
  have hdeep : ∀ l, cfg.hmc.spec.bank < l → cfg.hmc.spec.arity l = 0 := by
    intro l hl
    have hl' : 2 < l := hl
    exact if_neg (show ¬ l + 1 < 3 by omega)
  have hnodes : Ends (c.channel.updateServingRequests cfg.hmc.spec (req.addrVec.data junk)
      delta c.clk) (fun t' => Balance t' count') (fun _ => False) := by
    refine DRAM.updateServingRequests_nodes (Q := fun path s => s.Serving (count' path)) hshape
      hdeep hvault (reaches_of_inRange hrange junk) hdelta ?_ ?_
    · intro path n hn hthrough
      exact hon path _ ((through_iff_passes hshape hrange hn junk).mp hthrough) (h path n hn)
    · intro path n hn hthrough
      rw [through_iff_passes hshape hrange hn junk, Bool.not_eq_true] at hthrough
      rw [hoff path hthrough]
      exact h path n hn
  unfold updateServingRequests
  refine Ends.bind ((hnodes.and (DRAM.updateServingRequests_ends _ _ _ _ _)).weaken_abort
    (fun _ he => he.1)) ?_
  intro channel hchannel
  exact Ends.pure ⟨channel, hchannel.2, hchannel.1, rfl⟩

theorem Balance.start (h : Balance c.channel count)
    (hshape : DRAM.WellShaped cfg.hmc.spec HMC.Level.vault vault c.channel)
    (hrange : HMC.InRange cfg.hmc vault req.addrVec) (hclk : 0 ≤ c.clk) :
    Ends (c.updateServingRequests cfg junk 1 req)
      (fun c' => ∃ channel, NodeTree.Rel Node.SameButStats c.channel channel ∧
        Balance channel (fun path => count path + (passes path req).toNat) ∧
        c' = { c with channel }) (fun _ => False) := by
  refine h.walk hshape hrange (Or.inl rfl) ?_ ?_
  · intro path s hpass hs
    rw [hpass]
    exact hs.start hclk
  · intro path hpass
    rw [hpass]
    rfl

theorem Balance.finish (h : Balance c.channel (fun path => count path + (passes path req).toNat))
    (hshape : DRAM.WellShaped cfg.hmc.spec HMC.Level.vault vault c.channel)
    (hrange : HMC.InRange cfg.hmc vault req.addrVec) :
    Ends (c.updateServingRequests cfg junk (-1) req)
      (fun c' => ∃ channel, NodeTree.Rel Node.SameButStats c.channel channel ∧
        Balance channel count ∧ c' = { c with channel }) (fun _ => False) := by
  refine h.walk hshape hrange (Or.inr rfl) ?_ ?_
  · intro path s hpass hs
    rw [hpass] at hs
    exact hs.finish c.clk
  · intro path hpass
    rw [hpass]
    rfl

end Walk

/-! ## The invariant -/

/-- What keeps the counters balanced: who is in the queues, and that a queued
    read has arrived. -/
structure ServingFrame (cfg : ControllerConfig) (vault : Int) (c : Controller) : Prop where
  shape : DRAM.WellShaped cfg.hmc.spec HMC.Level.vault vault c.channel
  queues : QueueInv cfg vault c
  pending : ∀ r ∈ c.pending, r.type = .read ∧ HMC.InRange cfg.hmc vault r.addrVec
  arrived : ∀ r ∈ c.readq, r.arrive ≤ c.clk
  clk : 0 ≤ c.clk

structure ServingInv (cfg : ControllerConfig) (vault : Int) (c : Controller) : Prop
    extends ServingFrame cfg vault c where
  balance : Balance c.channel c.servingCount

theorem ServingInv.new (cfg : ControllerConfig) (vault : Int) :
    ServingInv cfg vault (Controller.new cfg vault) where
  shape := DRAM.new_wellShaped _ _ _
  queues := (ProtocolInv.new cfg vault).queues
  pending r hr := by cases hr
  arrived r hr := by cases hr
  clk := le_refl 0
  balance := Balance.new cfg.hmc vault

section

variable (h : ServingFrame cfg vault c)
include h

theorem ServingFrame.serve {channel : HMC.Tree}
    (hrel : NodeTree.Rel Node.SameButStats c.channel channel) :
    ServingFrame cfg vault { c with channel } where
  shape := h.shape.of_rel (fun _ _ hs => ⟨hs.level, hs.id⟩) (hrel.mono (fun _ _ hs => hs.sameState))
  queues := h.queues.frame rfl rfl rfl
  pending := h.pending
  arrived := h.arrived
  clk := h.clk

theorem ServingFrame.setQueue {q : List Request} (hq : ∀ r ∈ q, Admitted cfg.hmc vault type r)
    (harrived : type = .read → ∀ r ∈ q, r.arrive ≤ c.clk) :
    ServingFrame cfg vault (c.setQueue type q) where
  shape := by
    rw [setQueue_channel]
    exact h.shape
  queues := h.queues.setQueue hq
  pending := by
    cases type <;> exact h.pending
  arrived := by
    cases type with
    | read => exact harrived rfl
    | write | refresh | powerdown | selfrefresh | extension | instruction => exact h.arrived
  clk := by
    cases type <;> exact h.clk

theorem ServingFrame.set (hi : (c.getQueue type)[i]? = some req) (htype : req'.type = req.type)
    (haddr : req'.addrVec = req.addrVec) (harrive : req'.arrive = req.arrive) :
    ServingFrame cfg vault (c.setQueue type ((c.getQueue type).set i req')) := by
  refine h.setQueue ?_ ?_
  · intro r hr
    rcases mem_or_eq_of_mem_set hr with hr | rfl
    · exact h.queues type r hr
    · exact (h.queues type req (mem_of_getElem? hi)).congr htype haddr
  · rintro rfl r hr
    rcases mem_or_eq_of_mem_set hr with hr | rfl
    · exact h.arrived r hr
    · rw [harrive]
      exact h.arrived req (mem_of_getElem? hi)

theorem ServingFrame.eraseIdx (type : RequestType) (i : Nat) :
    ServingFrame cfg vault (c.setQueue type ((c.getQueue type).eraseIdx i)) := by
  refine h.setQueue (fun r hr => h.queues type r (mem_of_mem_eraseIdx hr)) ?_
  rintro rfl r hr
  exact h.arrived r (mem_of_mem_eraseIdx hr)

end

section

variable (h : ServingInv cfg vault c)
include h

/-- The clock, the other queue and whatever is not counted may change. -/
theorem ServingInv.frame (hchannel : c'.channel = c.channel) (hread : c'.readq = c.readq)
    (hwrite : c'.writeq = c.writeq) (hother : ∀ r ∈ c'.otherq, Admitted cfg.hmc vault .refresh r)
    (hpending : c'.pending = c.pending) (hclk : c.clk ≤ c'.clk) : ServingInv cfg vault c' where
  shape := by
    rw [hchannel]
    exact h.shape
  queues := by
    have hsame : QueueInv cfg vault (c.setQueue .refresh c'.otherq) := h.queues.setQueue hother
    exact hsame.frame hread hwrite rfl
  pending := by
    rw [hpending]
    exact h.pending
  arrived := by
    intro r hr
    rw [hread] at hr
    have := h.arrived r hr
    omega
  clk := by
    have := h.clk
    omega
  balance := by
    have hcount : c'.servingCount = c.servingCount := by
      funext path
      simp only [servingCount, hread, hwrite, hpending]
    rw [hchannel, hcount]
    exact h.balance

/-! ## Requests in -/

theorem ServingInv.enqueue (hreq : Admitted cfg.hmc vault req.type { req with arrive := c.clk })
    (htype : req.type = .read ∨ req.type = .write) (hfirst : req.isFirstCommand = true)
    (henq : c.enqueue cfg req = some c') : ServingInv cfg vault c' := by
  have hrange : HMC.InRange cfg.hmc vault req.addrVec := by
    rcases htype with ht | ht <;> rw [ht] at hreq <;> exact hreq.2
  obtain ⟨-, rfl | ⟨hread, -, rfl⟩⟩ := enqueue_cases henq
  · -- a queued request is not counted before its first command
    have hcount : (c.setQueue req.type
        (c.getQueue req.type ++ [{ req with arrive := c.clk }])).servingCount = c.servingCount := by
      funext path
      have hset := servingCount_setQueue c htype
        (c.getQueue req.type ++ [{ req with arrive := c.clk }]) path
      have hnew : inService path { req with arrive := c.clk } = false := by
        simp [inService, hfirst]
      rw [countP_append, countP_singleton, hnew] at hset
      simpa using hset
    refine ⟨h.setQueue ?_ ?_, ?_⟩
    · exact forall_mem_concat (h.queues req.type) hreq
    · intro hread r hr
      rcases mem_append.mp hr with hr | hr
      · rw [hread] at hr
        exact h.arrived r hr
      · rw [mem_singleton.mp hr]
    · rw [hcount, setQueue_channel]
      exact h.balance
  · -- served by a queued write: `depart - arrive` is one
    refine ⟨⟨h.shape, h.queues.frame rfl rfl rfl, ?_, h.arrived, h.clk⟩, ?_⟩
    · exact forall_mem_concat h.pending ⟨hread, hrange⟩
    · have hcount : servingCount { c with pending :=
          c.pending ++ [{ req with arrive := c.clk, depart := c.clk + 1 }] } =
          c.servingCount := by
        funext path
        have hnew : awaited path { req with arrive := c.clk, depart := c.clk + 1 } = false := by
          simp [awaited]
        simp only [servingCount, countP_append, countP_singleton, hnew]
        simp
      rw [hcount]
      exact h.balance

theorem receive_serving {packet : Packet}
    (htype : packet.req.type = .read ∨ packet.req.type = .write)
    (hrange : HMC.InRange cfg.hmc vault packet.req.addrVec)
    (hfirst : packet.req.isFirstCommand = true) :
    Ends (c.receive cfg packet) (fun out => ServingInv cfg vault out.2.2)
      (fun e => e.isServing = false) := by
  refine (receive_ends cfg c packet).imp ?_ ?_
  · rintro out ⟨-, -, hcases⟩
    have hbuffered : ServingInv cfg vault (c.buffered out.2.1) :=
      h.frame rfl rfl rfl (h.queues .refresh) rfl (le_refl _)
    rcases hcases with ⟨-, henq⟩ | ⟨-, -, hsame⟩
    · exact hbuffered.enqueue (admitted_withBurst htype hrange _) htype hfirst henq
    · rw [hsame]
      exact hbuffered
  · rintro e rfl
    rfl

/-! ## Completed reads -/

theorem endServing_serving {rest : List Request} (hpending : c.pending = req :: rest) :
    Ends (c.endServing cfg junk req)
      (fun c' => ∃ channel, NodeTree.Rel Node.SameButStats c.channel channel ∧
        Balance channel (servingCount { c with pending := rest }) ∧ c' = { c with channel })
      (fun _ => False) := by
  have hrange := (h.pending req (by simp [hpending])).2
  have hcount : ∀ path, c.servingCount path =
      servingCount { c with pending := rest } path + (awaited path req).toNat := by
    intro path
    simp only [servingCount, hpending, countP_cons]
    cases awaited path req
    · simp
    · simp
      omega
  unfold endServing
  refine Ends.ite (fun hlong => ?_) (fun hshort => ?_)
  · refine Balance.finish ?_ h.shape hrange
    intro path n hn
    have hnode := h.balance path n hn
    have hawaited : awaited path req = passes path req := by simp [awaited, hlong]
    rwa [hcount, hawaited] at hnode
  · refine ⟨c.channel, NodeTree.Rel.refl Node.SameButStats.refl _, ?_, rfl⟩
    intro path n hn
    have hnode := h.balance path n hn
    have hawaited : awaited path req = false := by simp [awaited, hshort]
    rw [hcount, hawaited] at hnode
    exact hnode

theorem serveCompleted_serving :
    Ends (c.serveCompleted cfg junk) (fun out => ServingInv cfg vault out.2)
      (fun e => e.isServing = false) := by
  unfold serveCompleted
  split
  · exact h
  · next req rest hpending =>
    have hread := (h.pending req (by simp [hpending])).1
    refine Ends.ite (fun _ => ?_) (fun _ => h)
    refine Ends.bind ((endServing_serving h hpending).weaken_abort (fun _ he => he.elim)) ?_
    rintro c₁ ⟨channel, hrel, hbalance, rfl⟩
    have hrest : ∀ r ∈ rest, r.type = .read ∧ HMC.InRange cfg.hmc vault r.addrVec :=
      fun r hr => h.pending r (mem_of_eq_cons_of_mem hpending hr)
    have hframe := h.serve hrel
    have hinv : ServingInv cfg vault { c with channel, pending := rest } :=
      ⟨⟨hframe.shape, h.queues.frame rfl rfl rfl, hrest, h.arrived, h.clk⟩, hbalance⟩
    refine Ends.ite (fun _ => ?_) (fun _ => ?_)
    · refine Ends.ite (fun _ => ?_) (fun htype => absurd (Or.inl hread) htype)
      dsimp only
      split
      · rfl
      · exact hinv.frame rfl rfl rfl (h.queues .refresh) rfl (le_refl _)
    · refine Ends.bind ((respond_ends cfg _ req).weaken_abort ?_) ?_
      · rintro e (⟨rfl, -⟩ | rfl)
        · rfl
        · rfl
      · rintro c' ⟨reqPacket, -, rfl⟩
        exact hinv.frame rfl rfl rfl (h.queues .refresh) rfl (le_refl _)

/-! ## Commands -/

theorem firstCommand_balance (hi : (c.getQueue type)[i]? = some req) :
    Ends (c.firstCommand cfg junk type i req) (fun out => Balance out.2.channel
        (c.setQueue type ((c.getQueue type).set i (started req))).servingCount)
      (fun _ => False) := by
  have hadmitted := h.queues type req (mem_of_getElem? hi)
  obtain ⟨c₀, hc₀⟩ : ∃ c₀, c₀ = c.setQueue type ((c.getQueue type).set i (started req)) := ⟨_, rfl⟩
  have hchannel₀ : c₀.channel = c.channel := by
    rw [hc₀]
    exact setQueue_channel c _ _
  have hclk₀ : c₀.clk = c.clk := by
    rw [hc₀]
    cases type <;> rfl
  have hbalance₀ : Balance c₀.channel c.servingCount := by
    rw [hchannel₀]
    exact h.balance
  -- a refresh is not counted
  have hother : ¬ (type = .read ∨ type = .write) → c₀.servingCount = c.servingCount := by
    intro htype
    rw [hc₀]
    funext path
    exact servingCount_setQueue_other c htype _ path
  unfold firstCommand
  refine Ends.ite (fun hfirst => ?_) (fun hlater => ?_)
  · show Ends ((c.setQueue type ((c.getQueue type).set i (started req))).startServing cfg junk
      (started req) >>= fun c' => pure (started req, c')) _ _
    rw [← hc₀]
    refine Ends.bind (Q := fun c' => Balance c'.channel c₀.servingCount) ?_
      (fun c' hc' => Ends.pure hc')
    unfold startServing
    by_cases htype : type = .read ∨ type = .write
    · have hreq : req.type = type ∧ HMC.InRange cfg.hmc vault req.addrVec := by
        rcases htype with rfl | rfl <;> exact hadmitted
      have hcounted : ∀ path, c₀.servingCount path =
          c.servingCount path + (passes path (started req)).toNat := by
        intro path
        have hset : c₀.servingCount path + (inService path req).toNat =
            c.servingCount path + (inService path (started req)).toNat := by
          rw [hc₀]
          exact servingCount_set c htype hi path
        have hnot : inService path req = false := by simp [inService, hfirst]
        have hnow : inService path (started req) = passes path (started req) := by
          rcases htype with rfl | rfl <;> simp [inService, started, hreq.1]
        rw [hnot, hnow] at hset
        exact hset
      have hrw : (started req).type = .read ∨ (started req).type = .write := by
        rw [show (started req).type = type from hreq.1]
        exact htype
      rw [if_pos hrw]
      have hshape₀ : DRAM.WellShaped cfg.hmc.spec HMC.Level.vault vault c₀.channel := by
        rw [hchannel₀]
        exact h.shape
      have hpos : 0 ≤ c₀.clk := by
        rw [hclk₀]
        exact h.clk
      refine (hbalance₀.start hshape₀ (show HMC.InRange cfg.hmc vault (started req).addrVec from
        hreq.2) hpos).weaken ?_
      rintro c' ⟨channel, -, hbalance, rfl⟩
      intro path n hn
      rw [hcounted]
      exact hbalance path n hn
    · have hreq : req.type = .refresh := by
        cases type with
        | read => exact absurd (Or.inl rfl) htype
        | write => exact absurd (Or.inr rfl) htype
        | refresh | powerdown | selfrefresh | extension | instruction => exact hadmitted.1
      have hrw : ¬ ((started req).type = .read ∨ (started req).type = .write) := by
        rw [show (started req).type = .refresh from hreq]
        simp
      rw [if_neg hrw, hother htype]
      exact hbalance₀
  · have hsame : started req = req := by
      have hoff : req.isFirstCommand = false := by simpa using hlater
      rw [started, ← hoff]
    have hset : c₀ = c := by
      obtain ⟨hlt, hget⟩ := List.getElem?_eq_some_iff.mp hi
      rw [hc₀, hsame, ← hget, set_getElem_self hlt, setQueue_getQueue]
    rw [← hc₀, hset]
    exact h.balance

theorem firstCommand_serving (hi : (c.getQueue type)[i]? = some req) :
    Ends (c.firstCommand cfg junk type i req) (fun out => ServingInv cfg vault out.2)
      (fun _ => False) := by
  refine ((firstCommand_balance h hi).and (firstCommand_ends cfg c junk hi)).imp ?_
    (fun _ he => he.1)
  rintro _ ⟨hbalance, channel, hrel, rfl⟩
  have hset : ServingFrame cfg vault (c.setQueue type ((c.getQueue type).set i (started req))) :=
    h.set hi rfl rfl rfl
  refine ⟨hset.serve ?_, ?_⟩
  · rw [setQueue_channel]
    exact hrel
  · cases type <;> exact hbalance

theorem issueCmd_serving (hlat : cfg.noDramLatency = false) (cmd : HMC.Command) (v : AddrVec) :
    Ends (c.issueCmd cfg junk cmd v) (ServingInv cfg vault) (fun e => e.isServing = false) := by
  refine (issueCmd_ends cfg c junk cmd v).imp ?_ ?_
  · rintro c' ⟨channel, rowtable, rfl, hupdates⟩
    obtain ⟨hchannel, -⟩ := hupdates hlat
    exact ⟨⟨h.shape.update hchannel, h.queues.frame rfl rfl rfl, h.pending, h.arrived,
      h.clk⟩, h.balance.of_rel (DRAM.update_serving hchannel)⟩
  · rintro e (rfl | rfl | ⟨-, herror⟩)
    · rfl
    · rfl
    · have he := (RowTable.update_ends _ _ _ _ _ _).abort herror
      cases e <;> first | rfl | cases he

/-! ## The end of a burst -/

theorem ServingInv.goesOn (hi : (c.getQueue type)[i]? = some req)
    (hfirst : req.isFirstCommand = false) (hfirst' : req'.isFirstCommand = false)
    (htype : req'.type = req.type) (haddr : req'.addrVec = req.addrVec)
    (harrive : req'.arrive = req.arrive) :
    ServingInv cfg vault (c.setQueue type ((c.getQueue type).set i req')) := by
  have hcount : (c.setQueue type ((c.getQueue type).set i req')).servingCount = c.servingCount := by
    funext path
    by_cases hkind : type = .read ∨ type = .write
    · have hset : (c.setQueue type ((c.getQueue type).set i req')).servingCount path +
          (inService path req).toNat = c.servingCount path + (inService path req').toNat :=
        servingCount_set c hkind hi path
      have hsame : inService path req' = inService path req := by
        rw [inService, inService, htype, hfirst, hfirst', passes_congr haddr]
      rw [hsame] at hset
      omega
    · exact servingCount_setQueue_other c hkind _ path
  refine ⟨h.set hi htype haddr harrive, ?_⟩
  rw [hcount, setQueue_channel]
  exact h.balance

theorem ServingInv.count_of_leave (type : RequestType) (hi : (c.getQueue type)[i]? = some req)
    (hfirst : req.isFirstCommand = false) (hkind : type = .read ∨ type = .write) (path : List Nat) :
    c.servingCount path = (c.setQueue type ((c.getQueue type).eraseIdx i)).servingCount path +
        (passes path req).toNat := by
  have hadmitted := h.queues type req (mem_of_getElem? hi)
  have hcounted : inService path req = passes path req := by
    rcases hkind with rfl | rfl
    · simp [inService, hfirst, show req.type = .read from hadmitted.1]
    · simp [inService, hfirst, show req.type = .write from hadmitted.1]
  have herase := servingCount_eraseIdx c hkind hi path
  rw [hcounted] at herase
  exact herase.symm

theorem ServingInv.readDone (hi : c.readq[i]? = some req) (hfirst : req.isFirstCommand = false)
    (htype : req'.type = req.type) (haddr : req'.addrVec = req.addrVec)
    (hlong : 1 < req'.depart - req'.arrive) : ServingInv cfg vault
      ({ c with pending := c.pending ++ [req'] }.setQueue .read (c.readq.eraseIdx i)) := by
  have hadmitted : Admitted cfg.hmc vault .read req :=
    h.queues .read req (mem_of_getElem? hi)
  have hframe := h.eraseIdx .read i
  have hpending : ∀ r ∈ c.pending ++ [req'],
      r.type = .read ∧ HMC.InRange cfg.hmc vault r.addrVec := by
    refine forall_mem_concat h.pending ?_
    rw [htype, haddr]
    exact hadmitted
  refine ⟨⟨h.shape, hframe.queues.frame rfl rfl rfl, hpending, hframe.arrived, h.clk⟩, ?_⟩
  intro path n hn
  have hnode := h.balance path n hn
  have hleave := h.count_of_leave .read hi hfirst (Or.inl rfl) path
  have hawaited : awaited path req' = passes path req := by
    simp [awaited, hlong, passes_congr haddr]
  have hcount : servingCount ({ c with pending := c.pending ++ [req'] }.setQueue .read
      (c.readq.eraseIdx i)) path = c.servingCount path := by
    rw [hleave, ← hawaited]
    simp only [servingCount, setQueue, getQueue, countP_append, countP_singleton]
    cases awaited path req'
    · simp
    · simp
      omega
  rw [hcount]
  exact hnode

/-- The last burst of a write: it is answered and no longer counted. -/
theorem completeWrite_serving (hi : c.writeq[i]? = some req) (hfirst : req.isFirstCommand = false)
    (haddr : req'.addrVec = req.addrVec) : Ends (c.completeWrite cfg junk req')
      (fun c' => ServingInv cfg vault (c'.setQueue .write (c'.writeq.eraseIdx i)))
      (fun e => e.isServing = false) := by
  have hadmitted : Admitted cfg.hmc vault .write req :=
    h.queues .write req (mem_of_getElem? hi)
  have hrange : HMC.InRange cfg.hmc vault req'.addrVec := by
    rw [haddr]
    exact hadmitted.2
  have hbefore : Balance c.channel (fun path =>
      (c.setQueue .write (c.writeq.eraseIdx i)).servingCount path + (passes path req').toNat) := by
    intro path n hn
    have hleave := h.count_of_leave .write hi hfirst (Or.inr rfl) path
    have hnode := h.balance path n hn
    rwa [hleave, ← passes_congr haddr] at hnode
  unfold completeWrite
  refine Ends.bind ((respond_ends cfg c req').weaken_abort ?_) ?_
  · rintro e (⟨rfl, -⟩ | rfl)
    · rfl
    · rfl
  · rintro c₁ ⟨reqPacket, -, rfl⟩
    refine (Balance.finish (c := c.responded cfg reqPacket req') hbefore h.shape hrange).imp ?_
      (fun _ he => he.elim)
    rintro c' ⟨channel, hrel, hbalance, rfl⟩
    have hframe := (h.serve hrel).eraseIdx .write i
    exact ⟨⟨hframe.shape, hframe.queues.frame rfl rfl rfl, h.pending, h.arrived, h.clk⟩, hbalance⟩

theorem countBurst_serving (hlatency : 1 < cfg.hmc.readLatency)
    (hi : (c.getQueue type)[i]? = some req) (hfirst : req.isFirstCommand = false) :
    Ends (c.countBurst cfg junk req)
      (fun out => ServingInv cfg vault (out.2.leaveQueue type i out.1))
      (fun e => e.isServing = false) := by
  have hadmitted := h.queues type req (mem_of_getElem? hi)
  -- a request that is not done stays where it is
  have hmore : req.burstCount - 1 ≠ 0 → ServingInv cfg vault
      (c.leaveQueue type i { req with burstCount := req.burstCount - 1 }) := by
    intro hburst
    rw [leaveQueue, if_neg hburst]
    exact h.goesOn hi hfirst hfirst rfl rfl rfl
  unfold countBurst
  split
  · next htype =>
    have hkind : type = .read := by
      cases type <;> first | rfl | (rw [hadmitted.1] at htype; cases htype)
    subst hkind
    have harrive := h.arrived req (mem_of_getElem? hi)
    refine Ends.ite (fun hdone => ?_) (fun hburst => hmore hburst)
    refine Ends.pure ?_
    rw [leaveQueue, if_pos hdone]
    refine h.readDone hi hfirst rfl rfl ?_
    show 1 < c.clk + cfg.hmc.readLatency - req.arrive
    omega
  · next htype =>
    have hkind : type = .write := by
      cases type <;> first | rfl | (rw [hadmitted.1] at htype; cases htype)
    subst hkind
    refine Ends.ite (fun hdone => ?_) (fun hburst => hmore hburst)
    refine Ends.bind (completeWrite_serving h hi hfirst rfl) ?_
    intro c' hc'
    refine Ends.pure ?_
    rw [leaveQueue, if_pos hdone]
    exact hc'
  · next hread hwrite =>
    have hkind : ¬ (type = .read ∨ type = .write) := by
      rintro (rfl | rfl)
      · exact hread hadmitted.1
      · exact hwrite hadmitted.1
    refine Ends.pure ?_
    unfold leaveQueue
    split
    · refine ⟨h.eraseIdx type i, ?_⟩
      have hcount : (c.setQueue type ((c.getQueue type).eraseIdx i)).servingCount =
          c.servingCount := funext (servingCount_setQueue_other c hkind _)
      rw [hcount, setQueue_channel]
      exact h.balance
    · exact h.goesOn hi hfirst hfirst rfl rfl rfl

theorem finishBurst_serving (hlatency : 1 < cfg.hmc.readLatency)
    (hi : (c.getQueue type)[i]? = some req) (hfirst : req.isFirstCommand = false) :
    Ends (c.finishBurst cfg junk type i req) (ServingInv cfg vault)
      (fun e => e.isServing = false) := by
  unfold finishBurst
  exact Ends.bind (countBurst_serving h hlatency hi hfirst) (fun _ hout => Ends.pure hout)

/-! ## Ticks and runs -/

end

theorem serving_rule (junk : Int) (hlat : cfg.noDramLatency = false)
    (hlatency : 1 < cfg.hmc.readLatency) : IssueRule cfg junk (ServingInv cfg vault)
      (ServingInv cfg vault) (fun e => e.isServing = false) where
  idle _ h := h
  first _ _ _ _ h hi _ := (firstCommand_serving h hi).weaken_abort fun _ he => he.elim
  issue _ _ _ h _ := issueCmd_serving h hlat _ _
  victim _ _ _ h _ _ _ := issueCmd_serving h hlat _ _
  finish _ _ _ _ h hi hfirst _ := finishBurst_serving h hlatency hi hfirst

/-- One tick keeps the counters balanced, and no assertion of
    `update_serving_requests` fails. -/
theorem tick_serving (h : ServingInv cfg vault c) (hlat : cfg.noDramLatency = false)
    (hlatency : 1 < cfg.hmc.readLatency) :
    Ends (c.tick cfg junk) (fun out => ServingInv cfg vault out.2)
      (fun e => e.isServing = false) := by
  have h₀ : ServingInv cfg vault { c with clk := c.clk + 1 } :=
    h.frame rfl rfl rfl (h.queues .refresh) rfl (show c.clk ≤ c.clk + 1 by omega)
  refine tick_rule (fun _ => serving_rule junk hlat hlatency) (serveCompleted_serving h₀) ?_ ?_
    rfl ?_
  · exact fun _ _ _ _ h => h.frame rfl rfl rfl (h.queues .refresh) rfl (le_refl _)
  · refine fun _ c₁ h₁ => h₁.frame rfl rfl rfl ?_ rfl (le_refl _)
    exact (h₁.queues.refreshed h₁.shape.val_id) .refresh
  · exact fun _ _ _ h _ => h.frame rfl rfl rfl (h.queues .refresh) rfl (le_refl _)

/-- The packets that arrive carry new reads and writes with addresses in range. -/
def Input.New (cfg : ControllerConfig) (vault : Int) (input : Input) : Prop :=
  input.Ok cfg vault ∧ ∀ packet, input = .receive packet → packet.req.isFirstCommand = true

theorem apply_serving (h : ServingInv cfg vault c) (hlat : cfg.noDramLatency = false)
    (hlatency : 1 < cfg.hmc.readLatency) {input : Input} (hnew : input.New cfg vault) :
    Ends (c.apply cfg input) (ServingInv cfg vault) (fun e => e.isServing = false) := by
  cases input with
  | receive packet =>
    obtain ⟨⟨htype, hrange⟩, hfirst⟩ := hnew
    exact Ends.bind (receive_serving h htype hrange (hfirst packet rfl)) (fun out hout => hout)
  | tick junk => exact Ends.bind (tick_serving h hlat hlatency) (fun out hout => hout)
  | takeResponse => exact h.frame rfl rfl rfl (h.queues .refresh) rfl (le_refl _)

/-- After any run, every node of the tree counts the requests that pass through
    it and are being served: the queued ones whose first command was issued, and
    the finished reads that no queued write served.  No assertion of
    `update_serving_requests` fails on the way. -/
theorem run_serving_balanced {speed : HMC.Speed} (hspeed : cfg.hmc.speed = HMC.speedTable speed)
    (hlat : cfg.noDramLatency = false) {inputs : List Input}
    (hnew : ∀ input ∈ inputs, input.New cfg vault) :
    (∀ c, run cfg vault inputs = .ok c → ∀ path n, c.channel.at? path = some n →
        n.val.stats.curServingRequests = c.servingCount path) ∧
      ∀ e, run cfg vault inputs = .error e → e.isServing = false := by
  have hlatency : 1 < cfg.hmc.readLatency := by
    rw [HMC.readLatency, hspeed]
    cases speed <;> decide
  have hrun : Ends (run cfg vault inputs) (ServingInv cfg vault) (fun e => e.isServing = false) :=
    Ends.foldlM inputs (ServingInv.new cfg vault)
      (fun _ input hinput h => apply_serving h hlat hlatency (hnew input hinput))
  refine ⟨?_, fun e he => hrun.abort he⟩
  intro c hc path n hn
  exact ((hrun.result hc).balance path n hn).count

theorem rowConflict_new (rowpolicy : RowPolicyType) (n : Nat) :
    ∀ input ∈ rowConflict n, input.New (gb4Vault rowpolicy) 0 := by
  intro input hinput
  refine ⟨rowConflict_ok rowpolicy n input hinput, ?_⟩
  rintro packet rfl
  simp only [rowConflict, readOfRow, mem_cons, Input.receive.injEq, mem_replicate,
    reduceCtorEq, and_false, or_false] at hinput
  rcases hinput with rfl | rfl
  · rfl
  · rfl

/-- The two reads after 40 cycles: one is in `pending`, for the other its bank
    was precharged, and the bank counts both. -/
theorem run_serving_balanced_rowConflict : ∃ c, run (gb4Vault .opened) 0 (rowConflict 40) = .ok c ∧
      (c.readq.length, c.pending.length, c.servingCount [1, 1], c.servingCount [0]) = (1, 1, 2, 0) ∧
      ∀ path n, c.channel.at? path = some n →
        n.val.stats.curServingRequests = c.servingCount path := by
  have hcounts : (run (gb4Vault .opened) 0 (rowConflict 40)).toOption.map
      (fun c => (c.readq.length, c.pending.length, c.servingCount [1, 1], c.servingCount [0])) =
        some (1, 1, 2, 0) := by decide +kernel
  obtain ⟨c, hrun, hcounts⟩ := exists_ok_of_map hcounts
  have hspeed : (gb4Vault .opened).hmc.speed = HMC.speedTable .hmc2500 := rfl
  have hbalanced := (run_serving_balanced hspeed rfl (rowConflict_new .opened 40)).1
  exact ⟨c, hrun, hcounts, hbalanced c hrun⟩

end Controller

end Ramulator
