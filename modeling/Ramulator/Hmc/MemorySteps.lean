/-
  Ramulator.Hmc.MemorySteps

  What each procedure of the memory can do.

  One lemma per procedure of `Memory`, in the manner of the steps of a
  controller: it lists the ways the procedure can end, with the state it leaves.
  A memory cycle is a sequence of four kinds of steps: a controller ticks, the
  master of a link sends (`tickLink_ends`), the switch forwards the first packet
  of a link (`forward_ends`) or the first response of a vault (`backward_ends`).
-/

import Ramulator.Hmc.ControllerSteps
import Ramulator.Hmc.Memory

namespace Ramulator

open Outcome List

namespace Link

variable {link link' : Link}

def rtcOf (sent : Option Packet) : Int := (sent.map (·.rtc)).getD 0

structure Returned (link : Link) (sent : Option Packet) (link' : Link) : Prop where
  count : link.slave.extractedTokenCount = link'.slave.extractedTokenCount + rtcOf sent
  nonneg : 0 ≤ link.slave.extractedTokenCount → 0 ≤ link'.slave.extractedTokenCount

def Halved (link : Link) (sent : Option Packet) : Prop :=
  0 < link.slave.extractedTokenCount → link.slave.extractedTokenCount < 2 * rtcOf sent

/-- What the master of a link does in one cycle: it sends a data packet, a flow
    control packet or nothing. -/
inductive Ticked (link : Link) : Option Packet → Link → Prop
  | idle {sent link'} (hsent : ∀ p, sent = some p → p.flowControl = true)
      (hinput : link'.slave.inputBuffer = link.slave.inputBuffer)
      (houtput : link'.master.outputBuffer = link.master.outputBuffer) : Ticked link sent link'
  | data {packet rest rtc link'} (hbuffer : link.master.outputBuffer = packet :: rest)
      (hinput : link'.slave.inputBuffer = link.slave.inputBuffer)
      (houtput : link'.master.outputBuffer = rest) :
      Ticked link (some { packet with rtc }) link'

/-- The highest bit of a count is more than half of it. -/
theorem leftmostbit_ends (val : Int) : Ends (leftmostbit val)
    (fun rtc => rtc ≤ val ∧ (0 < val → val < 2 * rtc)) (fun e => e = .loops ∧ val < 0) := by
  refine Ends.ite (fun hzero => ?_) (fun hzero => Ends.ite (fun hneg => ⟨rfl, hneg⟩)
    (fun hneg => ?_))
  · refine ⟨?_, fun hpos => ?_⟩ <;> omega
  · obtain ⟨n, rfl⟩ := Int.eq_ofNat_of_zero_le (not_lt.mp hneg)
    have hle := Nat.log2_self_le (n := n) (by omega)
    have hlt := Nat.lt_log2_self (n := n)
    have hcast : ((2 ^ n.log2 : Nat) : Int) = 2 ^ n.log2 := Nat.cast_pow 2 _
    show (2 : Int) ^ n.log2 ≤ n ∧ (_ → (n : Int) < 2 * 2 ^ n.log2)
    rw [← hcast]
    refine ⟨?_, fun _ => ?_⟩ <;> omega

theorem returnTokens_ends (link : Link) : Ends link.returnTokens
    (fun out => ∃ rtc, out = (rtc, { link with
        slave.extractedTokenCount := link.slave.extractedTokenCount - rtc }) ∧
      rtc ≤ link.slave.extractedTokenCount ∧
      (0 < link.slave.extractedTokenCount → link.slave.extractedTokenCount < 2 * rtc))
    (fun e => e = .loops ∧ link.slave.extractedTokenCount < 0) :=
  Ends.bind (leftmostbit_ends _) (fun rtc hrtc => ⟨rtc, rfl, hrtc⟩)

section

variable (flitCycles : Int → Int)

theorem sendFlowControl_ends (link : Link) : Ends (link.sendFlowControl flitCycles)
      (fun out => ((∀ p, out.1 = some p → p.flowControl = true) ∧
          out.2.slave.inputBuffer = link.slave.inputBuffer ∧
          out.2.master.outputBuffer = link.master.outputBuffer) ∧
        Returned link out.1 out.2 ∧ Halved link out.1)
      (fun e => e = .loops ∧ link.slave.extractedTokenCount < 0) := by
  refine Ends.ite (fun _ => ?_) (fun hnone => ⟨⟨fun p hp => (by cases hp), rfl, rfl⟩,
    ⟨(add_zero _).symm, fun h => h⟩, fun hpos => absurd hpos hnone⟩)
  refine Ends.bind (returnTokens_ends link) ?_
  rintro _ ⟨rtc, rfl, hle, hhalf⟩
  refine ⟨⟨?_, rfl, rfl⟩, ⟨(sub_add_cancel _ _).symm, fun _ => sub_nonneg.mpr hle⟩, hhalf⟩
  intro p hp
  cases hp
  rfl

theorem send_ends (link : Link) : Ends (link.send flitCycles)
      (fun out => Ticked link out.1 out.2 ∧ Returned link out.1 out.2 ∧ Halved link out.1)
      (fun e => e = .loops ∧ link.slave.extractedTokenCount < 0) := by
  have hflow : Ends (link.sendFlowControl flitCycles)
      (fun out => Ticked link out.1 out.2 ∧ Returned link out.1 out.2 ∧ Halved link out.1)
      (fun e => e = .loops ∧ link.slave.extractedTokenCount < 0) := by
    refine (sendFlowControl_ends flitCycles link).weaken ?_
    rintro ⟨sent, link'⟩ ⟨⟨hsent, hinput, houtput⟩, htokens⟩
    exact ⟨.idle hsent hinput houtput, htokens⟩
  unfold send
  split
  · exact hflow
  · next packet rest hbuffer =>
    refine Ends.ite (fun _ => ?_) (fun _ => hflow)
    refine Ends.bind (returnTokens_ends _) ?_
    rintro _ ⟨rtc, rfl, hle, hhalf⟩
    exact ⟨.data hbuffer rfl rfl, ⟨(sub_add_cancel _ _).symm, fun _ => sub_nonneg.mpr hle⟩, hhalf⟩

theorem tick_ends (link : Link) : Ends (link.tick flitCycles)
      (fun out => Ticked link out.1 out.2 ∧ Returned link out.1 out.2)
      (fun e => e = .loops ∧ link.slave.extractedTokenCount < 0) := by
  refine Ends.ite (fun _ => ?_) (fun _ => ⟨.idle (fun p hp => by cases hp) rfl rfl,
    (add_zero _).symm, fun h => h⟩)
  refine (send_ends flitCycles _).weaken ?_
  rintro ⟨sent, link'⟩ ⟨hticked, htokens, -⟩
  refine ⟨?_, htokens.count, htokens.nonneg⟩
  cases hticked with
  | idle hsent hinput houtput => exact .idle hsent hinput houtput
  | data hbuffer hinput houtput => exact .data hbuffer hinput houtput

end

end Link

namespace Memory

variable {cfg : MemoryConfig} {m m' : Memory} {l s v : Nat} {c₀ : Controller}

/-! ## Links and controllers by index -/

def link? (m : Memory) (l s : Nat) : Option Link := m.logicLayers[l]?.bind (·.hostLinks[s]?)

theorem hostLink_ends (m : Memory) (l : Nat) (s : Int) :
    Ends (m.hostLink l s) (fun link => 0 ≤ s ∧ m.link? l s.toNat = some link)
      (fun e => e = .outOfBounds) := by
  unfold hostLink
  refine Ends.bind (Vec.at_ends m.logicLayers l) ?_
  rintro layer ⟨-, hlayer⟩
  refine (Vec.at_ends layer.hostLinks s).imp ?_ (fun _ he => he)
  rintro link ⟨hs, hlink⟩
  rw [Int.toNat_natCast] at hlayer
  exact ⟨hs, by rw [link?, hlayer, Option.bind_some, hlink]⟩

theorem link?_setLink {link₀ : Link} (h : m.link? l s = some link₀) (link : Link) (l' s' : Nat) :
    (m.setLink l s link).link? l' s' = if l' = l ∧ s' = s then some link else m.link? l' s' := by
  obtain ⟨layer, hlayer, hlink⟩ := Option.bind_eq_some_iff.mp h
  simp only [link?, setLink, Int.toNat_natCast, getElem?_modify]
  by_cases hl : l = l'
  · subst hl
    simp only [hlayer, Option.map_eq_map, Option.map_some, Option.bind_some, if_true]
    by_cases hs : s' = s
    · subst hs
      have hlt : s' < layer.hostLinks.length := (List.getElem?_eq_some_iff.mp hlink).1
      rw [getElem?_set_self hlt, if_pos ⟨trivial, rfl⟩]
    · rw [getElem?_set_ne (Ne.symm hs), if_neg (fun hand => hs hand.2)]
  · rw [if_neg (fun hand => hl hand.1.symm)]
    simp only [if_neg hl, Option.map_eq_map, Option.map_id']

theorem ctrls_setCtrl (h : m.ctrls[v]? = some c₀) (c : Controller) (v' : Nat) :
    (m.setCtrl v c).ctrls[v']? = if v' = v then some c else m.ctrls[v']? := by
  have hlt : v < m.ctrls.length := (List.getElem?_eq_some_iff.mp h).1
  simp only [setCtrl, Int.toNat_natCast]
  by_cases hv : v' = v
  · subst hv
    rw [getElem?_set_self hlt, if_pos rfl]
  · rw [getElem?_set_ne (Ne.symm hv), if_neg hv]

theorem forall_setLink {k₀ k' : Link} {P : Nat → Nat → Link → Prop}
    (hlink : m.link? l s = some k₀) (hold : ∀ l s k, m.link? l s = some k → P l s k)
    (hnew : P l s k') : ∀ l' s' k, (m.setLink l s k').link? l' s' = some k → P l' s' k := by
  intro l' s' k hk
  rw [link?_setLink hlink] at hk
  by_cases hls : l' = l ∧ s' = s
  · rw [if_pos hls, Option.some.injEq] at hk
    rw [← hk, hls.1, hls.2]
    exact hnew
  · rw [if_neg hls] at hk
    exact hold l' s' k hk

/-- The same for the packets of a buffer that has only packets that were there. -/
theorem forall_setLink_mem {k₀ k' : Link} {buffer : Link → List Packet}
    {P : Nat → Nat → Packet → Prop} (hlink : m.link? l s = some k₀)
    (hold : ∀ l s k, m.link? l s = some k → ∀ p ∈ buffer k, P l s p)
    (hsub : ∀ p ∈ buffer k', p ∈ buffer k₀) :
    ∀ l' s' k, (m.setLink l s k').link? l' s' = some k → ∀ p ∈ buffer k, P l' s' p :=
  forall_setLink hlink hold fun p hp => hold l s k₀ hlink p (hsub p hp)

theorem forall_setCtrl {c' : Controller} {P : Nat → Controller → Prop}
    (hctrl : m.ctrls[v]? = some c₀) (hold : ∀ v c, m.ctrls[v]? = some c → P v c) (hnew : P v c') :
    ∀ v' c, (m.setCtrl v c').ctrls[v']? = some c → P v' c := by
  intro v' c hc
  rw [ctrls_setCtrl hctrl] at hc
  by_cases hv : v' = v
  · rw [if_pos hv, Option.some.injEq] at hc
    rw [← hc, hv]
    exact hnew
  · rw [if_neg hv] at hc
    exact hold v' c hc

theorem link?_setLink_self {k₀ : Link} (hlink : m.link? l s = some k₀) (k' : Link) :
    (m.setLink l s k').link? l s = some k' := by
  rw [link?_setLink hlink, if_pos ⟨rfl, rfl⟩]

theorem ctrls_setCtrl_self (hctrl : m.ctrls[v]? = some c₀) (c' : Controller) :
    (m.setCtrl v c').ctrls[v]? = some c' := by
  rw [ctrls_setCtrl hctrl, if_pos rfl]

theorem ctrls_new {c : Controller} (h : (Memory.new cfg).ctrls[v]? = some c) :
    ∃ id, c = Controller.new cfg.ctrl id := by
  obtain ⟨n, -, hn⟩ := mem_map.mp (mem_of_getElem? h)
  exact ⟨n, hn.symm⟩

theorem link?_new {k : Link} (h : (Memory.new cfg).link? l s = some k) : k = {} := by
  obtain ⟨layer, hlayer, hlink⟩ := Option.bind_eq_some_iff.mp h
  obtain ⟨n, -, rfl⟩ := mem_map.mp (mem_of_getElem? hlayer)
  exact (mem_replicate.mp (mem_of_getElem? hlink)).2

/-! ## Packets out -/

/-- The state after `receive_packets`: the tag is back in its pool. -/
def received (m : Memory) (packet : Packet) (pool : List Int) : Memory :=
  { m.setPool packet.headerSlid (pool ++ [packet.tag]) with
    events := m.events ++ .delivered { packet with req.departHmc := m.clk } ::
      if packet.req.type = .read then [.callback { packet.req with departHmc := m.clk }] else [] }

theorem receivePackets_ends (m : Memory) (packet : Packet) : Ends (m.receivePackets packet)
      (fun m' => (packet.flowControl = true ∧ m' = m) ∨
        (packet.flowControl = false ∧ packet.type = .response ∧ ∃ pool,
          0 ≤ packet.headerSlid ∧ m.tagsPools[packet.headerSlid.toNat]? = some pool ∧
          m' = m.received packet pool)) (fun e => e = .outOfBounds ∨ e = .packetType) := by
  unfold receivePackets
  refine Ends.ite (fun hflow => Or.inl ⟨hflow, rfl⟩) (fun hflow => ?_)
  refine Ends.ite (fun htype => ?_) (fun _ => Or.inr rfl)
  refine Ends.bind ((Vec.at_ends m.tagsPools packet.headerSlid).weaken_abort
    (fun _ he => Or.inl he)) ?_
  rintro pool ⟨hslid, hpool⟩
  exact Or.inr ⟨by simpa using hflow, htype, pool, hslid, hpool, rfl⟩

/-- The master of a link ticks: its first packet reaches the host, or no packet
    moves. -/
inductive LinkTicked (m : Memory) (l s : Nat) : Memory → Prop
  | idle {link link' : Link} (hlink : m.link? l s = some link)
      (hinput : link'.slave.inputBuffer = link.slave.inputBuffer)
      (houtput : link'.master.outputBuffer = link.master.outputBuffer) :
      LinkTicked m l s (m.setLink l s link')
  | dropped {link link' : Link} {packet : Packet} {rest : List Packet}
      (hlink : m.link? l s = some link)
      (hbuffer : link.master.outputBuffer = packet :: rest)
      (hinput : link'.slave.inputBuffer = link.slave.inputBuffer)
      (houtput : link'.master.outputBuffer = rest) (hflow : packet.flowControl = true) :
      LinkTicked m l s (m.setLink l s link')
  | data {link link' : Link} {packet : Packet} {rest : List Packet} {rtc : Int}
      {pool : List Int} (hlink : m.link? l s = some link)
      (hbuffer : link.master.outputBuffer = packet :: rest)
      (hinput : link'.slave.inputBuffer = link.slave.inputBuffer)
      (houtput : link'.master.outputBuffer = rest) (htype : packet.type = .response)
      (hslid : 0 ≤ packet.headerSlid)
      (hpool : m.tagsPools[packet.headerSlid.toNat]? = some pool) :
      LinkTicked m l s ((m.setLink l s link').received { packet with rtc } pool)

theorem tickLink_ends (cfg : MemoryConfig) (l : Nat) (m : Memory) (s : Nat) :
    Ends (tickLink cfg l m s) (LinkTicked m l s)
      (fun e => e = .outOfBounds ∨ e = .packetType ∨ e = .loops) := by
  unfold tickLink
  refine Ends.bind ((hostLink_ends m l s).weaken_abort (fun _ he => Or.inl he)) ?_
  rintro link ⟨-, hlink⟩
  rw [Int.toNat_natCast] at hlink
  refine Ends.bind ((Link.tick_ends cfg.flitCycles link).weaken_abort
    (fun _ he => Or.inr (Or.inr he.1))) ?_
  rintro ⟨sent, link'⟩ ⟨hticked, -⟩
  cases hticked with
  | idle hsent hinput houtput =>
    cases sent with
    | none => exact .idle hlink hinput houtput
    | some packet =>
      refine (receivePackets_ends _ packet).imp ?_ ?_
      · rintro m' (⟨-, rfl⟩ | ⟨hflow, -⟩)
        · exact .idle hlink hinput houtput
        · rw [hsent packet rfl] at hflow
          cases hflow
      · rintro e (he | he)
        · exact Or.inl he
        · exact Or.inr (Or.inl he)
  | @data packet rest rtc link' hbuffer hinput houtput =>
    refine (receivePackets_ends _ _).imp ?_ ?_
    · rintro m' (⟨hflow, rfl⟩ | ⟨-, htype, pool, hslid, hpool, rfl⟩)
      · exact .dropped hlink hbuffer hinput houtput hflow
      · exact .data hlink hbuffer hinput houtput htype hslid hpool
    · rintro e (he | he)
      · exact Or.inl he
      · exact Or.inr (Or.inl he)

/-! ## The switch -/

inductive Forwarded (cfg : MemoryConfig) (m : Memory) (l s : Nat) : Memory → Prop
  | idle : Forwarded cfg m l s m
  | offered {link link' : Link} {packet packet' : Packet} {rest : List Packet} {v : Nat}
      {c c' : Controller} {accepted : Bool} (hlink : m.link? l s = some link)
      (hbuffer : link.slave.inputBuffer = packet :: rest) (hv : vaultOf packet.req = v)
      (hctrl : m.ctrls[v]? = some c)
      (hreceive : c.receive cfg.ctrl packet = .ok (accepted, packet', c'))
      (hinput : link'.slave.inputBuffer = if accepted then rest else packet' :: rest)
      (houtput : link'.master.outputBuffer = link.master.outputBuffer)
      (htokens : link'.slave.extractedTokenCount =
        link.slave.extractedTokenCount + if accepted then packet'.totalFlits else 0) :
      Forwarded cfg m l s ((m.setCtrl v c').setLink l s link')

theorem forward_ends (cfg : MemoryConfig) (l : Nat) (cub : Int) (used : List Int) (m : Memory)
    (s : Nat) : Ends (forward cfg l cub (used, m) s) (fun out => Forwarded cfg m l s out.2)
      (fun e => e = .outOfBounds ∨ e = .packetType) := by
  unfold forward
  refine Ends.bind ((hostLink_ends m l s).weaken_abort (fun _ he => Or.inl he)) ?_
  rintro link ⟨-, hlink⟩
  rw [Int.toNat_natCast] at hlink
  dsimp only
  split
  · exact .idle
  · next packet rest hbuffer =>
    refine Ends.ite (fun _ => ?_) (fun _ => .idle)
    refine Ends.bind (Q := fun out => Forwarded cfg m l s out.2) ?_ (fun out hout => Ends.pure hout)
    unfold forwardTo
    refine Ends.bind ((Vec.at_ends m.ctrls _).weaken_abort (fun _ he => Or.inl he)) ?_
    rintro c ⟨hv, hctrl⟩
    have hvault : ((vaultOf packet.req).toNat : Int) = vaultOf packet.req :=
      Int.toNat_of_nonneg hv
    refine Ends.bind (Q := fun out => c.receive cfg.ctrl packet = .ok out ∧
        vaultOf out.2.1.req = ((vaultOf packet.req).toNat : Int)) (Ends.intro ?_ ?_) ?_
    · intro out hout
      obtain ⟨-, hpacket, -⟩ := (Controller.receive_ends cfg.ctrl c packet).result hout
      refine ⟨hout, ?_⟩
      rw [hpacket, hvault]
      rfl
    · intro e he
      exact Or.inr ((Controller.receive_ends cfg.ctrl c packet).abort he)
    · rintro ⟨accepted, packet', c'⟩ ⟨hreceive, hvault'⟩
      dsimp only at hvault' ⊢
      rw [hvault']
      cases accepted with
      | true => exact .offered hlink hbuffer hvault.symm hctrl hreceive rfl rfl rfl
      | false =>
        exact .offered hlink hbuffer hvault.symm hctrl hreceive rfl rfl (add_zero _).symm

/-- The switch moves the first response of a vault to its link. -/
inductive Backward (m : Memory) (l v : Nat) : Memory → Prop
  | idle : Backward m l v m
  | moved {c : Controller} {packet : Packet} {rest : List Packet} {s : Nat} {link : Link}
      (hctrl : m.ctrls[v]? = some c) (hbuffer : c.responsePacketsBuffer = packet :: rest)
      (hs : packet.headerSlid = s) (hlink : m.link? l s = some link)
      (hroom : packet.totalFlits ≤ link.master.availableSpace) :
      Backward m l v ((m.setLink l s { link with
        master.outputBuffer := link.master.outputBuffer ++ [packet] }).setCtrl v
          { c with responsePacketsBuffer := rest })

theorem backward_ends (l : Nat) (used : List Int) (m : Memory) (v : Nat) :
    Ends (backward l (used, m) v) (fun out => Backward m l v out.2)
      (fun e => e = .outOfBounds) := by
  unfold backward
  refine Ends.bind (Vec.at_ends m.ctrls v) ?_
  rintro c ⟨-, hctrl⟩
  rw [Int.toNat_natCast] at hctrl
  dsimp only
  split
  · exact .idle
  · next packet rest hbuffer =>
    refine Ends.bind (hostLink_ends m l packet.headerSlid) ?_
    rintro link ⟨hs, hlink⟩
    refine Ends.ite (fun hroom => ?_) (fun _ => .idle)
    have hslid : packet.headerSlid = (packet.headerSlid.toNat : Int) :=
      (Int.toNat_of_nonneg hs).symm
    rw [hslid]
    exact .moved hctrl hbuffer hslid hlink hroom.2

/-! ## One memory cycle -/

/-- The steps a memory cycle is made of. -/
inductive Step (cfg : MemoryConfig) (junk : Nat → Int) (m : Memory) : Memory → Prop
  | clock : Step cfg junk m { m with clk := m.clk + 1 }
  | ctrl {v : Nat} {c c' : Controller} {done : List Request} (hctrl : m.ctrls[v]? = some c)
      (htick : c.tick cfg.ctrl (junk v) = .ok (done, c')) :
      Step cfg junk m { m.setCtrl v c' with events := m.events ++ done.map .callback }
  | link {l s : Nat} {m' : Memory} (h : LinkTicked m l s m') : Step cfg junk m m'
  | forward {l s : Nat} {m' : Memory} (h : Forwarded cfg m l s m') : Step cfg junk m m'
  | backward {l v : Nat} {m' : Memory} (h : Backward m l v m') : Step cfg junk m m'

/-- What a memory cycle can abort with. -/
inductive StepAbort (cfg : MemoryConfig) (junk : Nat → Int) (m : Memory) : Abort → Prop
  | outOfBounds : StepAbort cfg junk m .outOfBounds
  | packetType : StepAbort cfg junk m .packetType
  | loops : StepAbort cfg junk m .loops
  | ctrl {v : Nat} {c : Controller} {e : Abort} (hctrl : m.ctrls[v]? = some c)
      (htick : c.tick cfg.ctrl (junk v) = .error e) : StepAbort cfg junk m e

section Tick

variable {junk : Nat → Int} {I : Memory → Prop} {E : Abort → Prop}

section

variable (hstep : ∀ m m', I m → Step cfg junk m m' → I m')
  (habort : ∀ m e, I m → StepAbort cfg junk m e → E e)
include hstep habort

theorem tickCtrl_ends (h : I m) (v : Nat) : Ends (tickCtrl cfg junk m v) I E := by
  unfold tickCtrl
  refine Ends.bind ((Vec.at_ends m.ctrls v).weaken_abort ?_) ?_
  · rintro e rfl
    exact habort m _ h .outOfBounds
  · rintro c ⟨-, hctrl⟩
    rw [Int.toNat_natCast] at hctrl
    refine Ends.bind (Q := fun out => c.tick cfg.ctrl (junk v) = .ok out)
      (Ends.intro (fun _ hout => hout) (fun e he => habort m e h (.ctrl hctrl he))) ?_
    rintro ⟨done, c'⟩ htick
    exact hstep m _ h (.ctrl hctrl htick)

theorem tickLayer_ends (h : I m) (l : Nat) : Ends (tickLayer cfg m l) I E := by
  unfold tickLayer
  refine Ends.bind ((Vec.at_ends m.logicLayers l).imp (fun _ _ => trivial) ?_) ?_
  · rintro e rfl
    exact habort m _ h .outOfBounds
  intro layer _
  -- the masters of the links
  refine Ends.bind (Ends.foldlM (I := I) _ h (fun m s _ hm => ?_)) (fun m₁ h₁ => ?_)
  · refine (tickLink_ends cfg l m s).imp (fun m' h' => hstep m m' hm (.link h')) ?_
    rintro e (rfl | rfl | rfl)
    · exact habort m _ hm .outOfBounds
    · exact habort m _ hm .packetType
    · exact habort m _ hm .loops
  -- from links to vaults
  refine Ends.bind (Ends.foldlM (I := fun state => I state.2) _ h₁ (fun state s _ hm => ?_))
    (fun state₂ h₂ => ?_)
  · obtain ⟨used, m⟩ := state
    refine (forward_ends cfg l layer.cub used m s).imp
      (fun out h' => hstep m out.2 hm (.forward h')) ?_
    rintro e (rfl | rfl)
    · exact habort m _ hm .outOfBounds
    · exact habort m _ hm .packetType
  -- from vaults to links
  refine Ends.bind (Ends.foldlM (I := fun state => I state.2) _ h₂ (fun state v _ hm => ?_))
    (fun state₃ h₃ => Ends.pure h₃)
  obtain ⟨used, m⟩ := state
  refine (backward_ends l used m v).imp (fun out h' => hstep m out.2 hm (.backward h')) ?_
  rintro e rfl
  exact habort m _ hm .outOfBounds

/-- The invariant rule of a memory cycle: what every step keeps holds at its
    end. -/
theorem tick_ends (h : I m) : Ends (m.tick cfg junk) I E := by
  have hclock : I { m with clk := m.clk + 1 } := hstep m _ h .clock
  unfold tick
  refine Ends.bind (Ends.foldlM (I := I) _ hclock
    (fun m v _ hm => tickCtrl_ends hstep habort hm v)) (fun m₁ h₁ => ?_)
  exact Ends.foldlM _ h₁ (fun m l _ hm => tickLayer_ends hstep habort hm l)

end

end Tick

/-! ## Requests in -/

/-- A packet is formed for `req`, and its tag is out of the pool. -/
structure Formed (cfg : MemoryConfig) (m : Memory) (req : Request) (packet : Packet)
    (m' : Memory) : Prop where
  kind : req.type = .read ∨ req.type = .write
  type : packet.type = .request
  flowControl : packet.flowControl = false
  req_eq : packet.req = req
  slid : ∃ s : Nat, slidOf cfg req = s ∧ packet.tailSlid = s ∧ ∃ pool,
    m.tagsPools[s]? = some pool ∧ packet.tag = pool.headD (-1) ∧ m' = m.setPool s pool.tail
  totalFlits : packet.totalFlits = if req.type = .read then 1 else 1 + cfg.hmc.payloadFlits

theorem assignTag_ends (m : Memory) (slid : Int) : Ends (m.assignTag slid)
      (fun out => ∃ s : Nat, slid = s ∧ ∃ pool, m.tagsPools[s]? = some pool ∧
        out = (pool.headD (-1), m.setPool s pool.tail)) (fun e => e = .outOfBounds) := by
  unfold assignTag
  refine Ends.bind (Vec.at_ends m.tagsPools slid) ?_
  rintro pool ⟨hslid, hpool⟩
  obtain ⟨s, rfl⟩ := Int.eq_ofNat_of_zero_le hslid
  rw [Int.toNat_natCast] at hpool
  cases pool with
  | nil =>
    refine ⟨s, rfl, [], hpool, ?_⟩
    have hset : m.tagsPools.set s [] = m.tagsPools := by
      obtain ⟨hlt, hget⟩ := List.getElem?_eq_some_iff.mp hpool
      rw [← hget]
      exact set_getElem_self hlt
    simp [setPool, hset]
  | cons tag rest => exact ⟨s, rfl, _, hpool, rfl⟩

theorem requestPacket_ends (cfg : MemoryConfig) (req : Request) (tag : Int) :
    Ends (requestPacket cfg req tag)
      (fun packet => (req.type = .read ∨ req.type = .write) ∧ packet.type = .request ∧
        packet.flowControl = false ∧ packet.req = req ∧ packet.tailSlid = slidOf cfg req ∧
        packet.tag = tag ∧
        packet.totalFlits = if req.type = .read then 1 else 1 + cfg.hmc.payloadFlits)
      (fun e => e = .requestType) := by
  unfold requestPacket
  split
  · next htype => exact ⟨Or.inl htype, rfl, rfl, rfl, rfl, rfl, by rw [if_pos htype]; rfl⟩
  · next htype =>
    refine ⟨Or.inr htype, rfl, rfl, rfl, rfl, rfl, ?_⟩
    rw [if_neg (by rw [htype]; decide)]
    rfl
  · rfl

theorem formRequestPacket_ends (cfg : MemoryConfig) (m : Memory) (req : Request) :
    Ends (m.formRequestPacket cfg req) (fun out => Formed cfg m req out.1 out.2)
      (fun e => e = .outOfBounds ∨ e = .requestType ∨ e = .packetField) := by
  unfold formRequestPacket
  refine Ends.bind ((assignTag_ends m _).weaken_abort (fun _ he => Or.inl he)) ?_
  rintro _ ⟨s, hs, pool, hpool, rfl⟩
  refine Ends.bind ((requestPacket_ends cfg req _).weaken_abort (fun _ he => Or.inr (Or.inl he))) ?_
  rintro packet ⟨hkind, htype, hflow, hreq, hslid, htag, hflits⟩
  refine Ends.ite (fun _ => ?_) (fun _ => Or.inr (Or.inr rfl))
  exact ⟨hkind, htype, hflow, hreq, ⟨s, hs, hslid.trans hs, pool, hpool, htag, rfl⟩, hflits⟩

/-- The ways `send` ends in host mode.  The tag is gone in each of them. -/
inductive Sent (cfg : MemoryConfig) (m : Memory) (req : Request) : Bool → Memory → Prop
  /-- There is no tag. -/
  | noTag {packet m₁} (hformed : Formed cfg m (m.prepare cfg req) packet m₁)
      (htag : packet.tag = -1) : Sent cfg m req false m₁
  /-- There is no room in the link. -/
  | noRoom {packet m₁ link} {s : Nat} (hformed : Formed cfg m (m.prepare cfg req) packet m₁)
      (htag : packet.tag ≠ -1) (hs : packet.tailSlid = s) (hlink : m.link? 0 s = some link)
      (hroom : ¬ packet.totalFlits ≤ link.slave.availableSpace) : Sent cfg m req false m₁
  | accepted {packet m₁ link} {s : Nat} (hformed : Formed cfg m (m.prepare cfg req) packet m₁)
      (htag : packet.tag ≠ -1) (hs : packet.tailSlid = s) (hlink : m.link? 0 s = some link)
      (hroom : packet.totalFlits ≤ link.slave.availableSpace) :
      Sent cfg m req true { m₁.setLink 0 s (link.receive packet) with
        memReqCount := m.memReqCount + 1 }

theorem send_ends (hhost : cfg.ctrl.pimModeEnabled = false) (m : Memory) (req : Request) :
    Ends (m.send cfg req) (fun out => Sent cfg m req out.1 out.2)
      (fun e => e = .outOfBounds ∨ e = .requestType ∨ e = .packetField) := by
  unfold send
  refine Ends.bind (formRequestPacket_ends cfg m _) ?_
  rintro ⟨packet, m₁⟩ hformed
  dsimp only at hformed ⊢
  rw [if_neg (by simp [hhost])]
  obtain ⟨s, -, hs, pool, -, -, hm₁⟩ := hformed.slid
  refine Ends.ite (fun htag => .noTag hformed htag) (fun htag => ?_)
  refine Ends.bind ((hostLink_ends m₁ 0 packet.tailSlid).weaken_abort (fun _ he => Or.inl he)) ?_
  rintro link ⟨-, hlink⟩
  rw [hs, Int.toNat_natCast] at hlink
  have hlink' : m.link? 0 s = some link := by
    rw [← hlink, hm₁]
    rfl
  refine Ends.ite (fun hroom => ?_) (fun hroom => .noRoom hformed htag hs hlink' hroom)
  have hsent := Sent.accepted hformed htag hs hlink' hroom
  rw [hs]
  have hcount : m₁.memReqCount = m.memReqCount := by
    rw [hm₁]
    rfl
  rw [← hcount] at hsent
  exact hsent

/-! ## What a send finds -/

/-- The pool of the link that `send` takes for a request. -/
def poolOf (cfg : MemoryConfig) (m : Memory) (req : Request) : List Int :=
  m.tagsPools.getD (slidOf cfg (m.prepare cfg req)).toNat []

/-- The room in that link. -/
def spaceOf (cfg : MemoryConfig) (m : Memory) (req : Request) : Int :=
  ((m.link? 0 (slidOf cfg (m.prepare cfg req)).toNat).map (·.slave.availableSpace)).getD 0

def flitsOf (cfg : MemoryConfig) (req : Request) : Int :=
  if req.type = .read then 1 else 1 + cfg.hmc.payloadFlits

/-- In host mode, a tag for the request and room for its packet. -/
def FindsRoom (cfg : MemoryConfig) (m : Memory) (req : Request) : Prop :=
  cfg.ctrl.pimModeEnabled = true ∨
    ((poolOf cfg m req).headD (-1) ≠ -1 ∧ flitsOf cfg req ≤ spaceOf cfg m req)

instance (cfg : MemoryConfig) (m : Memory) (req : Request) : Decidable (FindsRoom cfg m req) :=
  inferInstanceAs (Decidable (_ ∨ _))

section

variable {req : Request} {packet : Packet} {accepted : Bool}

theorem poolOf_formed (hformed : Formed cfg m (m.prepare cfg req) packet m') :
    packet.tag = (poolOf cfg m req).headD (-1) ∧ ∃ s : Nat,
      slidOf cfg (m.prepare cfg req) = s ∧ m.tagsPools[s]? = some (poolOf cfg m req) ∧
      m' = m.setPool s (poolOf cfg m req).tail := by
  obtain ⟨s, hslid, -, pool, hpool, htag, hm'⟩ := hformed.slid
  have heq : poolOf cfg m req = pool := by
    rw [poolOf, hslid, Int.toNat_natCast, getD_eq_getElem?_getD, hpool, Option.getD_some]
  rw [heq]
  exact ⟨htag, s, hslid, hpool, hm'⟩

theorem spaceOf_formed {link : Link} (hformed : Formed cfg m (m.prepare cfg req) packet m')
    (hs : packet.tailSlid = s) (hlink : m.link? 0 s = some link) :
    spaceOf cfg m req = link.slave.availableSpace := by
  obtain ⟨s', hslid, htail, -⟩ := hformed.slid
  have heq : s' = s := Int.natCast_inj.mp (htail.symm.trans hs)
  rw [spaceOf, hslid, Int.toNat_natCast, heq, hlink]
  rfl

/-- In host mode `send` takes a request exactly if there is a tag and room. -/
theorem Sent.accepted_iff (h : Sent cfg m req accepted m') :
    accepted = true ↔ (poolOf cfg m req).headD (-1) ≠ -1 ∧ flitsOf cfg req ≤ spaceOf cfg m req := by
  cases h with
  | noTag hformed htag =>
    rw [(poolOf_formed hformed).1] at htag
    exact iff_of_false (by decide) fun h => h.1 htag
  | noRoom hformed htag hs hlink hroom =>
    rw [hformed.totalFlits, ← spaceOf_formed hformed hs hlink] at hroom
    exact iff_of_false (by decide) fun h => hroom h.2
  | accepted hformed htag hs hlink hroom =>
    rw [hformed.totalFlits, ← spaceOf_formed hformed hs hlink] at hroom
    rw [(poolOf_formed hformed).1] at htag
    exact iff_of_true rfl ⟨htag, hroom⟩

/-- In either mode. -/
theorem send_accepted_iff (hsend : m.send cfg req = .ok (accepted, m')) :
    accepted = true ↔ FindsRoom cfg m req := by
  by_cases hpim : cfg.ctrl.pimModeEnabled = true
  · unfold send at hsend
    obtain ⟨⟨packet, m₁⟩, -, hvault⟩ := bind_ok.mp hsend
    dsimp only at hvault
    rw [if_pos hpim] at hvault
    obtain ⟨ctrl, -, hvault⟩ := bind_ok.mp hvault
    obtain ⟨out, -, hvault⟩ := bind_ok.mp hvault
    cases hvault
    exact iff_of_true rfl (Or.inl hpim)
  · have hsent : Sent cfg m req accepted m' :=
      (send_ends (Bool.eq_false_iff.mpr hpim) m req).result hsend
    exact hsent.accepted_iff.trans (or_iff_right hpim).symm

end

end Memory

end Ramulator
