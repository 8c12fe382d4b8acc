/-
  Ramulator.Hmc.Conservation

  Host mode loses no request and delivers none twice.

  From `send` on, a request is handed from the link to a vault, from the vault
  to a response, from there to a link and to the host.  `MemInv` is the
  invariant of this journey: every accepted request is at exactly one `Spot`,
  once, on its own link or in its own vault, and the packets it travels in
  carry the link and the tag it was accepted with (`Ticket`).
-/

import Ramulator.Lib.Custody
import Ramulator.Hmc.Custody
import Ramulator.Hmc.MemorySteps

namespace Ramulator

open Outcome Custody Function List
open Request (ident)

namespace Memory

/-! ## Tickets and spots -/

/-- What the host knows of an accepted request: its lasting fields, its link
    and its tag. -/
structure Ticket where
  req : Request
  slid : Int
  tag : Int
deriving DecidableEq

def Ticket.ofRequest (p : Packet) : Ticket := ⟨p.req.ident, p.tailSlid, p.tag⟩

def Ticket.ofResponse (p : Packet) : Ticket := ⟨p.req.ident, p.headerSlid, p.tag⟩

/-- The packets that reached `receive_packets`, oldest first. -/
def deliveredPackets (m : Memory) : List Packet :=
  m.events.filterMap fun
    | .delivered p => some p
    | .callback _ => none

/-- The buffers and queues a request passes through, and the host. -/
inductive Place where
  | inputBuffer (l s : Nat)
  | readq (v : Nat)
  | writeq (v : Nat)
  | pending (v : Nat)
  | responsePacketsBuffer (v : Nat)
  | outputBuffer (l s : Nat)
  | delivered
deriving DecidableEq

def requestsAt (m : Memory) : Place → List Request
  | .inputBuffer l s => ((m.link? l s).map fun k => k.slave.inputBuffer.map (·.req)).getD []
  | .readq v => (m.ctrls[v]?.map fun c => c.readq).getD []
  | .writeq v => (m.ctrls[v]?.map fun c => c.writeq).getD []
  | .pending v => (m.ctrls[v]?.map fun c => c.pending).getD []
  | .responsePacketsBuffer v =>
    (m.ctrls[v]?.map fun c => c.responsePacketsBuffer.map (·.req)).getD []
  | .outputBuffer l s => ((m.link? l s).map fun k => k.master.outputBuffer.map (·.req)).getD []
  | .delivered => m.deliveredPackets.map (·.req)

def reqidsAt (m : Memory) (place : Place) : List Int := (m.requestsAt place).map (·.reqid)

/-- The places of a request: those of its own link and its own vault, and the
    host. -/
def Ticket.AtHome (t : Ticket) : Place → Prop
  | .inputBuffer l s => l = 0 ∧ t.slid = s
  | .outputBuffer _ s => t.slid = s
  | .readq v | .writeq v | .pending v | .responsePacketsBuffer v => vaultOf t.req = v
  | .delivered => True

def placeCount (m : Memory) (place : Place) (a : Request) : Nat :=
  ((m.requestsAt place).map ident).count a

/-- Where a request can be; the queues of a vault are one spot. -/
inductive Spot where
  | input (l s : Nat)
  | vault (v : Nat)
  | response (v : Nat)
  | output (l s : Nat)
  | delivered
deriving DecidableEq

def Place.spot : Place → Spot
  | .inputBuffer l s => .input l s
  | .readq v | .writeq v | .pending v => .vault v
  | .responsePacketsBuffer v => .response v
  | .outputBuffer l s => .output l s
  | .delivered => .delivered

def Spot.places : Spot → List Place
  | .input l s => [.inputBuffer l s]
  | .vault v => [.readq v, .writeq v, .pending v]
  | .response v => [.responsePacketsBuffer v]
  | .output l s => [.outputBuffer l s]
  | .delivered => [.delivered]

theorem mem_places {place : Place} {spot : Spot} : place ∈ spot.places ↔ place.spot = spot := by
  cases place <;> cases spot <;> simp [Place.spot, Spot.places]

def count (m : Memory) (spot : Spot) (a : Request) : Nat :=
  (spot.places.map (m.placeCount · a)).sum

def packetCount (ps : List Packet) (a : Request) : Nat := (ps.map (·.req.ident)).count a

theorem packetCount_cons (p : Packet) (ps : List Packet) (a : Request) :
    packetCount (p :: ps) a = packetCount ps a + [p.req.ident].count a := by
  simp only [packetCount, map_cons, count_cons, count_nil]
  omega

theorem packetCount_append (ps qs : List Packet) (a : Request) :
    packetCount (ps ++ qs) a = packetCount ps a + packetCount qs a := by
  simp only [packetCount, map_append, count_append]

variable {p : Packet}

theorem packetCount_pos {ps : List Packet} (h : p ∈ ps) : 0 < packetCount ps p.req.ident :=
  count_pos_iff.mpr (mem_map_of_mem h)

/-! ## The invariant -/

structure InputOk (tickets : List Ticket) (l s : Nat) (p : Packet) : Prop where
  layer : l = 0
  link : p.tailSlid = s
  kind : p.req.type = .read ∨ p.req.type = .write
  ticket : Ticket.ofRequest p ∈ tickets

structure ResponseOk (tickets : List Ticket) (p : Packet) : Prop where
  flowControl : p.flowControl = false
  ticket : Ticket.ofResponse p ∈ tickets

structure VaultOk (tickets : List Ticket) (v : Nat) (c : Controller) : Prop where
  inv : c.VaultInv
  home : ∀ r ∈ c.held, vaultOf r = v
  ticket : ∀ r ∈ c.held, ∀ q, c.incomingPacketsBuffer r.reqid = some q →
    ⟨r.ident, q.tailSlid, q.tag⟩ ∈ tickets
  response : ∀ p ∈ c.responsePacketsBuffer, ResponseOk tickets p ∧ vaultOf p.req = v

/-- What is logged for a delivered packet: a read runs its callback. -/
def logOf (p : Packet) : List Event :=
  .delivered p :: if p.req.type = .read then [.callback p.req] else []

/-- The invariant of the memory in host mode, with the tickets of all accepted
    requests. -/
structure MemInv (tickets : List Ticket) (m : Memory) : Prop where
  located : Located m.count (fun a => a ∈ tickets.map Ticket.req)
  ids : (tickets.map (·.req.reqid)).Nodup
  fresh : ∀ t ∈ tickets, t.req.reqid < m.memReqCount
  input : ∀ l s k, m.link? l s = some k → ∀ p ∈ k.slave.inputBuffer, InputOk tickets l s p
  output : ∀ l s k, m.link? l s = some k → ∀ p ∈ k.master.outputBuffer,
    ResponseOk tickets p ∧ p.headerSlid = s
  vault : ∀ v c, m.ctrls[v]? = some c → VaultOk tickets v c
  log : m.events = m.deliveredPackets.flatMap logOf
  delivered : ∀ p ∈ m.deliveredPackets, Ticket.ofResponse p ∈ tickets

variable {cfg : MemoryConfig} {tickets : List Ticket} {m m' : Memory} {l s v : Nat}
  {c' : Controller} {packet' : Packet} {req : Request} {k link' : Link} {junk : Nat → Int}
  {accepted : Bool}

variable {t : Ticket}

theorem MemInv.ticket_eq (h : MemInv tickets m) {t' : Ticket} (ht : t ∈ tickets)
    (ht' : t' ∈ tickets) (hid : t.req.reqid = t'.req.reqid) : t = t' :=
  inj_on_of_nodup_map h.ids ht ht' hid

theorem vaultOf_eq_of_ident {r r' : Request} (h : r.ident = r'.ident) : vaultOf r = vaultOf r' := by
  have haddr : r.ident.addrVec = r'.ident.addrVec := by rw [h]
  rw [vaultOf, vaultOf]
  exact congrArg (fun v : AddrVec => v.getD HMC.Level.vault 0) haddr

/-- The copies at the spots of links, vaults and the host, read off the state. -/
theorem count_input (hlink : m.link? l s = some k) :
    m.count (.input l s) = packetCount k.slave.inputBuffer := by
  funext a
  simp [count, Spot.places, placeCount, requestsAt, hlink, packetCount, Function.comp_def]

theorem count_output (hlink : m.link? l s = some k) :
    m.count (.output l s) = packetCount k.master.outputBuffer := by
  funext a
  simp [count, Spot.places, placeCount, requestsAt, hlink, packetCount, Function.comp_def]

theorem count_delivered (m : Memory) : m.count .delivered = packetCount m.deliveredPackets := by
  funext a
  simp [count, Spot.places, placeCount, requestsAt, packetCount, Function.comp_def]

variable {c : Controller}

theorem count_vault (hctrl : m.ctrls[v]? = some c) : m.count (.vault v) = c.heldCount := by
  funext a
  simp [count, Spot.places, placeCount, requestsAt, hctrl, Controller.heldCount, Controller.held]

theorem count_response (hctrl : m.ctrls[v]? = some c) :
    m.count (.response v) = packetCount c.responsePacketsBuffer := by
  funext a
  simp [count, Spot.places, placeCount, requestsAt, hctrl, packetCount, Function.comp_def]

/-! ## Changing one link or one controller -/

theorem count_setLink (hlink : m.link? l s = some k) (k' : Link) : (m.setLink l s k').count = update
      (update m.count (.input l s) (packetCount k'.slave.inputBuffer))
      (.output l s) (packetCount k'.master.outputBuffer) := by
  funext spot
  by_cases hout : spot = .output l s
  · subst hout
    rw [update_self, count_output (link?_setLink_self hlink k')]
  rw [update_of_ne hout]
  by_cases hin : spot = .input l s
  · subst hin
    rw [update_self, count_input (link?_setLink_self hlink k')]
  rw [update_of_ne hin]
  funext a
  cases spot with
  | input l' s' | output l' s' =>
    have hne : ¬ (l' = l ∧ s' = s) := by
      rintro ⟨rfl, rfl⟩
      contradiction
    simp [count, Spot.places, placeCount, requestsAt, link?_setLink hlink, hne]
  | vault v | response v | delivered => rfl

theorem count_setCtrl (hctrl : m.ctrls[v]? = some c) (c' : Controller) :
    (m.setCtrl v c').count = update (update m.count (.vault v) c'.heldCount)
      (.response v) (packetCount c'.responsePacketsBuffer) := by
  funext spot
  by_cases hresponse : spot = .response v
  · subst hresponse
    rw [update_self, count_response (ctrls_setCtrl_self hctrl c')]
  rw [update_of_ne hresponse]
  by_cases hvault : spot = .vault v
  · subst hvault
    rw [update_self, count_vault (ctrls_setCtrl_self hctrl c')]
  rw [update_of_ne hvault]
  funext a
  cases spot with
  | vault v' | response v' =>
    have hne : v' ≠ v := by
      rintro rfl
      contradiction
    simp [count, Spot.places, placeCount, requestsAt, ctrls_setCtrl hctrl, hne]
  | input l s | output l s | delivered => rfl

/-- A buffer that stays the same is not told apart. -/
theorem count_setLink_input (hlink : m.link? l s = some k)
    (houtput : link'.master.outputBuffer = k.master.outputBuffer) : (m.setLink l s link').count =
      update m.count (.input l s) (packetCount link'.slave.inputBuffer) := by
  rw [count_setLink hlink, update_comm (by nofun), houtput, ← count_output hlink, update_eq_self]

theorem count_setLink_output (hlink : m.link? l s = some k)
    (hinput : link'.slave.inputBuffer = k.slave.inputBuffer) : (m.setLink l s link').count =
      update m.count (.output l s) (packetCount link'.master.outputBuffer) := by
  rw [count_setLink hlink, hinput, ← count_input hlink, update_eq_self]

theorem count_setCtrl_vault (hctrl : m.ctrls[v]? = some c)
    (hresponses : c'.responsePacketsBuffer = c.responsePacketsBuffer) :
    (m.setCtrl v c').count = update m.count (.vault v) c'.heldCount := by
  rw [count_setCtrl hctrl, update_comm (by nofun), hresponses, ← count_response hctrl,
    update_eq_self]

theorem count_setCtrl_response (hctrl : m.ctrls[v]? = some c) (hheld : c'.heldCount = c.heldCount) :
    (m.setCtrl v c').count =
      update m.count (.response v) (packetCount c'.responsePacketsBuffer) := by
  rw [count_setCtrl hctrl, hheld, ← count_vault hctrl, update_eq_self]

/-! ## The steps of a memory cycle -/

theorem MemInv.ctrl (h : MemInv tickets m) {outs : List Packet} (hctrl : m.ctrls[v]? = some c)
    (hinv : c'.VaultInv) (hmoves : Controller.Moves cfg.ctrl c c' [] outs) :
    MemInv tickets (m.setCtrl v c') := by
  have hvault := h.vault v c hctrl
  have htransfer : Transfer m.count (m.setCtrl v c').count (.vault v) (.response v)
      (packetCount outs) := by
    rw [count_setCtrl hctrl]
    refine .of_update (by nofun) (fun a => ?_) fun a => ?_
    · rw [count_vault hctrl]
      exact hmoves.count a
    · rw [count_response hctrl, hmoves.responses, packetCount_append]
  have hvault' : VaultOk tickets v c' := by
    constructor
    · exact hinv
    · intro r hr
      obtain ⟨r₀, hr₀, hident⟩ := hmoves.mem_held hr
      rw [← vaultOf_eq_of_ident hident]
      exact hvault.home r₀ hr₀
    · intro r hr q hq
      obtain ⟨r₀, hr₀, hident⟩ := hmoves.mem_held hr
      rw [hmoves.kept r hr, ← Request.reqid_eq_of_ident hident] at hq
      rw [← hident]
      exact hvault.ticket r₀ hr₀ q hq
    · intro p hp
      rw [hmoves.responses] at hp
      rcases mem_append.mp hp with hp | hp
      · exact hvault.response p hp
      · obtain ⟨q, hq, hresponse⟩ := hmoves.out p hp
        obtain ⟨r₀, hr₀, hident⟩ := hmoves.mem_held_of_out hp
        have hticket := hvault.ticket r₀ hr₀ q (by rw [Request.reqid_eq_of_ident hident, hq])
        rw [hident] at hticket
        have hhome := hvault.home r₀ hr₀
        rw [vaultOf_eq_of_ident hident] at hhome
        refine ⟨⟨?_, ?_⟩, hhome⟩
        · rw [hresponse]
          rfl
        · rw [hresponse]
          exact hticket
  exact { h with
    located := h.located.transfer htransfer
    vault := forall_setCtrl hctrl h.vault hvault' }

theorem deliveredPackets_received (m : Memory) (packet : Packet) (pool : List Int) :
    (m.received packet pool).deliveredPackets =
      m.deliveredPackets ++ [{ packet with req.departHmc := m.clk }] := by
  have hcallbacks : ∀ reqs : List Request, (reqs.map Event.callback).filterMap (fun
      | .delivered p => some p
      | .callback _ => none) = ([] : List Packet) := by
    intro reqs
    induction reqs with
    | nil => rfl
    | cons r rs ih => exact ih
  simp only [received, setPool, deliveredPackets, filterMap_append, filterMap_cons]
  congr 2
  split
  · exact hcallbacks [_]
  · rfl

theorem count_received (m : Memory) (packet : Packet) (pool : List Int) :
    (m.received packet pool).count = update m.count .delivered
      (fun a => packetCount m.deliveredPackets a + [packet.req.ident].count a) := by
  funext spot
  cases spot with
  | delivered =>
    funext a
    rw [update_self, count_delivered, deliveredPackets_received, packetCount_append]
    rfl
  | input l s | output l s | vault v | response v => rfl

variable {packet : Packet} {rest : List Packet}

theorem transfer_delivered {link : Link} (hlink : m.link? l s = some link)
    (hbuffer : link.master.outputBuffer = packet :: rest)
    (hinput : link'.slave.inputBuffer = link.slave.inputBuffer)
    (houtput : link'.master.outputBuffer = rest) (rtc : Int) (pool : List Int) :
    Transfer m.count ((m.setLink l s link').received { packet with rtc } pool).count (.output l s)
      .delivered ([packet.req.ident].count ·) := by
  rw [count_received, count_setLink_output hlink hinput, houtput]
  refine .of_update (by nofun) (fun a => ?_) fun a => ?_
  · rw [count_output hlink, hbuffer, packetCount_cons]
  · rw [count_delivered]
    rfl

/-- The master of a link sends: a response goes from the link to the host. -/
theorem MemInv.link (h : MemInv tickets m) (hticked : LinkTicked m l s m') : MemInv tickets m' := by
  cases hticked with
  | @idle link link' hlink hinput houtput =>
    have hcount : (m.setLink l s link').count = m.count := by
      rw [count_setLink_output hlink hinput, houtput, ← count_output hlink, update_eq_self]
    exact { h with
      located := hcount ▸ h.located
      input := forall_setLink_mem hlink h.input fun p hp => hinput ▸ hp
      output := forall_setLink_mem hlink h.output fun p hp => houtput ▸ hp }
  | @dropped link link' packet rest hlink hbuffer hinput houtput hflow =>
    have hdata := (h.output l s link hlink packet (mem_of_eq_cons hbuffer)).1.flowControl
    rw [hflow] at hdata
    cases hdata
  | @data link link' packet rest rtc pool hlink hbuffer hinput houtput htype hslid hpool =>
    have hdelivered := deliveredPackets_received (m.setLink l s link') { packet with rtc } pool
    refine { h with
      located := h.located.transfer (transfer_delivered hlink hbuffer hinput houtput rtc pool)
      input := forall_setLink_mem hlink h.input fun p hp => hinput ▸ hp
      output := forall_setLink_mem hlink h.output fun p hp =>
        mem_of_eq_cons_of_mem hbuffer (houtput ▸ hp)
      log := ?_
      delivered := ?_ }
    · rw [hdelivered, flatMap_append, flatMap_singleton]
      show m.events ++ _ = m.deliveredPackets.flatMap logOf ++ _
      rw [← h.log]
      rfl
    · rw [hdelivered]
      exact forall_mem_concat h.delivered
        (h.output l s link hlink packet (mem_of_eq_cons hbuffer)).1.ticket

theorem MemInv.reqid_ne (h : MemInv tickets m) (hlink : m.link? l s = some k)
    (hp : p ∈ k.slave.inputBuffer) (hctrl : m.ctrls[v]? = some c) :
    ∀ r ∈ c.held, r.reqid ≠ p.req.reqid := by
  intro r hr hid
  have hvault := h.vault v c hctrl
  obtain ⟨q, hq⟩ := Option.isSome_iff_exists.mp (hvault.inv.known r hr)
  have heq := h.ticket_eq (hvault.ticket r hr q hq) (h.input l s k hlink p hp).ticket hid
  have hident : r.ident = p.req.ident := congrArg Ticket.req heq
  -- the same request would be at two spots
  have hinput : 0 < m.count (.input l s) p.req.ident := by
    rw [count_input hlink]
    exact packetCount_pos hp
  have hheld : 0 < m.count (.vault v) p.req.ident := by
    rw [count_vault hctrl, ← hident]
    exact Controller.count_pos_of_mem hr
  have hspot := (h.located.unique hinput hheld).1
  cases hspot

theorem MemInv.received (h : MemInv tickets m) (hlink : m.link? l s = some k)
    (hp : packet ∈ k.slave.inputBuffer) (hv : vaultOf packet.req = v) (hctrl : m.ctrls[v]? = some c)
    (hreceived : Controller.Received cfg.ctrl c packet accepted packet' c') :
    VaultOk tickets v c' := by
  have hvault := h.vault v c hctrl
  have hticket := (h.input l s k hlink packet hp).ticket
  have hnew := h.reqid_ne hlink hp hctrl
  -- a request of the new state is the new one or was there before
  have hheld : ∀ r ∈ c'.held, r.ident = packet.req.ident ∨ ∃ r₀ ∈ c.held, r₀.ident = r.ident := by
    intro r hr
    have hpos := Controller.count_pos_of_mem hr
    rw [hreceived.count] at hpos
    by_cases hcount : 0 < c.heldCount r.ident
    · exact Or.inr (Controller.mem_held_of_count hcount)
    · left
      cases accepted with
      | false =>
        simp only [Bool.false_eq_true, if_false] at hpos
        omega
      | true =>
        have hone : 0 < [packet.req.ident].count r.ident := by
          simp only [if_true] at hpos
          omega
        exact mem_singleton.mp (count_pos_iff.mp hone)
  constructor
  · exact hreceived.inv
  · intro r hr
    rcases hheld r hr with hident | ⟨r₀, hr₀, hident⟩
    · rw [vaultOf_eq_of_ident hident, hv]
    · rw [← vaultOf_eq_of_ident hident]
      exact hvault.home r₀ hr₀
  · intro r hr q hq
    rw [hreceived.incoming] at hq
    rcases hheld r hr with hident | ⟨r₀, hr₀, hident⟩
    · rw [Request.reqid_eq_of_ident hident, Function.update_self, Option.some.injEq] at hq
      rw [hident, ← hq, hreceived.packet_eq]
      exact hticket
    · have hne : r.reqid ≠ packet.req.reqid := by
        rw [← Request.reqid_eq_of_ident hident]
        exact hnew r₀ hr₀
      rw [Function.update_of_ne hne, ← Request.reqid_eq_of_ident hident] at hq
      rw [← hident]
      exact hvault.ticket r₀ hr₀ q hq
  · rw [hreceived.responses]
    exact hvault.response

theorem transfer_accepted {link : Link} (hlink : m.link? l s = some link)
    (hctrl : m.ctrls[v]? = some c)
    (hreceived : Controller.Received cfg.ctrl c packet true packet' c')
    (hbuffer : link.slave.inputBuffer = packet :: rest) (hinput : link'.slave.inputBuffer = rest)
    (houtput : link'.master.outputBuffer = link.master.outputBuffer) :
    Transfer m.count ((m.setCtrl v c').setLink l s link').count (.input l s) (.vault v)
      ([packet.req.ident].count ·) := by
  have hlink₁ : (m.setCtrl v c').link? l s = some link := hlink
  rw [count_setLink_input hlink₁ houtput, count_setCtrl_vault hctrl hreceived.responses,
    update_comm (by nofun), hinput]
  refine .of_update (by nofun) (fun a => ?_) fun a => ?_
  · rw [count_input hlink, hbuffer, packetCount_cons]
  · rw [count_vault hctrl]
    exact hreceived.count a

theorem count_refused {link : Link} (hlink : m.link? l s = some link) (hctrl : m.ctrls[v]? = some c)
    (hreceived : Controller.Received cfg.ctrl c packet false packet' c')
    (hbuffer : link.slave.inputBuffer = packet :: rest)
    (hinput : link'.slave.inputBuffer = packet' :: rest)
    (houtput : link'.master.outputBuffer = link.master.outputBuffer) :
    ((m.setCtrl v c').setLink l s link').count = m.count := by
  have hlink₁ : (m.setCtrl v c').link? l s = some link := hlink
  have hheld : c'.heldCount = m.count (.vault v) := by
    rw [count_vault hctrl]
    exact funext hreceived.count
  have hpackets : packetCount link'.slave.inputBuffer = m.count (.input l s) := by
    funext a
    rw [count_input hlink, hinput, hbuffer, packetCount_cons, packetCount_cons, hreceived.packet_eq]
    rfl
  rw [count_setLink_input hlink₁ houtput, count_setCtrl_vault hctrl hreceived.responses, hheld,
    update_eq_self, hpackets, update_eq_self]

/-- The switch forwards: a request goes from a link to its vault, or stays. -/
theorem MemInv.forward (h : MemInv tickets m) (hforward : Forwarded cfg m l s m') :
    MemInv tickets m' := by
  cases hforward with
  | idle => exact h
  | @offered link link' packet packet' rest v c c' accepted hlink hbuffer hv hctrl hreceive
      hinput houtput =>
    have hmem : packet ∈ link.slave.inputBuffer := mem_of_eq_cons hbuffer
    have hin := h.input l s link hlink packet hmem
    have hreceived : Controller.Received cfg.ctrl c packet accepted packet' c' :=
      ((h.vault v c hctrl).inv.receive hin.kind (h.reqid_ne hlink hmem hctrl)).result hreceive
    have hlink₁ : (m.setCtrl v c').link? l s = some link := hlink
    refine { h with
      located := ?_
      input := forall_setLink hlink₁ h.input fun p hp => ?_
      output := forall_setLink_mem hlink₁ h.output fun p hp => houtput ▸ hp
      vault := forall_setCtrl hctrl h.vault (h.received hlink hmem hv hctrl hreceived) }
    · cases accepted with
      | true =>
        exact h.located.transfer (transfer_accepted hlink hctrl hreceived hbuffer hinput houtput)
      | false => exact count_refused hlink hctrl hreceived hbuffer hinput houtput ▸ h.located
    · have hrest : p ∈ rest → InputOk tickets l s p := fun hp =>
        h.input l s link hlink p (mem_of_eq_cons_of_mem hbuffer hp)
      rw [hinput] at hp
      cases accepted with
      | true => exact hrest hp
      | false =>
        rcases mem_cons.mp hp with hp | hp
        · rw [hp, hreceived.packet_eq]
          exact ⟨hin.layer, hin.link, hin.kind, hin.ticket⟩
        · exact hrest hp

theorem transfer_responded {link : Link} (hlink : m.link? l s = some link)
    (hctrl : m.ctrls[v]? = some c) (hbuffer : c.responsePacketsBuffer = packet :: rest)
    (hinput : link'.slave.inputBuffer = link.slave.inputBuffer)
    (houtput : link'.master.outputBuffer = link.master.outputBuffer ++ [packet]) : Transfer m.count
      ((m.setLink l s link').setCtrl v { c with responsePacketsBuffer := rest }).count
      (.response v) (.output l s) ([packet.req.ident].count ·) := by
  have hctrl₁ : (m.setLink l s link').ctrls[v]? = some c := hctrl
  rw [count_setCtrl_response hctrl₁ (by rfl), count_setLink_output hlink hinput,
    update_comm (by nofun)]
  refine .of_update (by nofun) (fun a => ?_) fun a => ?_
  · rw [count_response hctrl, hbuffer, packetCount_cons]
  · rw [count_output hlink, houtput, packetCount_append]
    rfl

/-- The switch goes back: a response goes from a vault to its link. -/
theorem MemInv.backward (h : MemInv tickets m) (hbackward : Backward m l v m') :
    MemInv tickets m' := by
  cases hbackward with
  | idle => exact h
  | @moved c packet rest s link hctrl hbuffer hs hlink _ =>
    have hvault := h.vault v c hctrl
    have hresponse := (hvault.response packet (mem_of_eq_cons hbuffer)).1
    have hctrl₁ : (m.setLink l s { link with
      master.outputBuffer := link.master.outputBuffer ++ [packet] }).ctrls[v]? = some c := hctrl
    refine { h with
      located := h.located.transfer (transfer_responded hlink hctrl hbuffer rfl rfl)
      input := forall_setLink_mem hlink h.input fun p hp => hp
      output := forall_setLink hlink h.output
        (forall_mem_concat (h.output l s link hlink) ⟨hresponse, hs⟩)
      vault := forall_setCtrl hctrl₁ h.vault ?_ }
    obtain ⟨⟨hkinds, hnodup, hknown⟩, hhome, hticket, hresponses⟩ := hvault
    obtain ⟨hreads, hwrites, hothers, hpending⟩ := hkinds
    refine ⟨⟨⟨hreads, hwrites, hothers, hpending⟩, hnodup, hknown⟩, hhome, hticket, ?_⟩
    exact fun p hp => hresponses p (mem_of_eq_cons_of_mem hbuffer hp)

/-! ## Requests in -/

def ticketOf (cfg : MemoryConfig) (m : Memory) (req : Request) : Ticket :=
  let req := m.prepare cfg req
  let slid := slidOf cfg req
  ⟨req.ident, slid, (m.tagsPools.getD slid.toNat []).headD (-1)⟩

theorem ticketOf_formed (hformed : Formed cfg m (m.prepare cfg req) packet m') :
    Ticket.ofRequest packet = ticketOf cfg m req := by
  obtain ⟨s, hslid, htail, pool, hpool, htag, -⟩ := hformed.slid
  have hgetD : m.tagsPools.getD s [] = pool := by
    rw [getD_eq_getElem?_getD, hpool, Option.getD_some]
  simp only [Ticket.ofRequest, ticketOf, hformed.req_eq, htail, hslid, htag, Int.toNat_natCast,
    hgetD]

theorem MemInv.setPool (h : MemInv tickets m) (slid : Int) (pool : List Int) :
    MemInv tickets (m.setPool slid pool) :=
  ⟨h.located, h.ids, h.fresh, h.input, h.output, h.vault, h.log, h.delivered⟩

theorem MemInv.clock (h : MemInv tickets m) : MemInv tickets { m with clk := m.clk + 1 } :=
  ⟨h.located, h.ids, h.fresh, h.input, h.output, h.vault, h.log, h.delivered⟩

theorem InputOk.cons (h : InputOk tickets l s p) : InputOk (t :: tickets) l s p :=
  ⟨h.layer, h.link, h.kind, mem_cons_of_mem _ h.ticket⟩

theorem ResponseOk.cons (h : ResponseOk tickets p) : ResponseOk (t :: tickets) p :=
  ⟨h.flowControl, mem_cons_of_mem _ h.ticket⟩

theorem VaultOk.cons (h : VaultOk tickets v c) : VaultOk (t :: tickets) v c :=
  ⟨h.inv, h.home, fun r hr q hq => mem_cons_of_mem _ (h.ticket r hr q hq),
    fun p hp => ⟨(h.response p hp).1.cons, (h.response p hp).2⟩⟩

theorem MemInv.accept (h : MemInv tickets m) {link : Link}
    (hformed : Formed cfg m (m.prepare cfg req) packet m') (hs : packet.tailSlid = s)
    (hlink : m.link? 0 s = some link) : MemInv (ticketOf cfg m req :: tickets)
      { m'.setLink 0 s (link.receive packet) with memReqCount := m.memReqCount + 1 } := by
  obtain ⟨slid, -, -, pool, -, -, hm'⟩ := hformed.slid
  obtain ⟨link', hdef⟩ : ∃ link', link' = link.receive packet := ⟨_, rfl⟩
  have hflow : ¬ packet.flowControl = true := by
    rw [hformed.flowControl]
    decide
  have hinput : link'.slave.inputBuffer = link.slave.inputBuffer ++ [packet] := by
    rw [hdef, Link.receive, if_neg hflow]
  have houtput : link'.master.outputBuffer = link.master.outputBuffer := by
    rw [hdef, Link.receive, if_neg hflow]
  have hticket := ticketOf_formed hformed
  have hreq : (ticketOf cfg m req).req = packet.req.ident := by
    rw [← hticket]
    rfl
  have h' : MemInv tickets m' := by
    rw [hm']
    exact h.setPool _ _
  have hlink₁ : m'.link? 0 s = some link := by
    rw [hm']
    exact hlink
  have hinputs : ∀ l s k, m'.link? l s = some k → ∀ p ∈ k.slave.inputBuffer,
      InputOk (ticketOf cfg m req :: tickets) l s p :=
    fun l s k hk p hp => (h'.input l s k hk p hp).cons
  have houtputs : ∀ l s k, m'.link? l s = some k → ∀ p ∈ k.master.outputBuffer,
      ResponseOk (ticketOf cfg m req :: tickets) p ∧ p.headerSlid = s :=
    fun l s k hk p hp => ⟨(h'.output l s k hk p hp).1.cons, (h'.output l s k hk p hp).2⟩
  rw [← hdef]
  have hlater : ∀ t ∈ tickets, t.req.reqid ≠ (ticketOf cfg m req).req.reqid :=
    fun t ht => (h.fresh t ht).ne
  refine ⟨?_, ?_, ?_, ?_, ?_, fun v c hc => (h'.vault v c hc).cons, h'.log,
    fun p hp => mem_cons_of_mem _ (h'.delivered p hp)⟩
  · apply h'.located.enter (q := .input 0 s) (x := (ticketOf cfg m req).req)
    · intro hmem
      obtain ⟨t, ht, heq⟩ := mem_map.mp hmem
      exact hlater t ht (by rw [heq])
    · intro a
      rw [map_cons, mem_cons]
    · intro a
      show (m'.setLink 0 s link').count (.input 0 s) a = _
      rw [count_setLink_input hlink₁ houtput, update_self, hinput, packetCount_append,
        count_input hlink₁, hreq]
      simp [packetCount, count_singleton, eq_comm (a := packet.req.ident)]
    · intro spot hne a
      show (m'.setLink 0 s link').count spot a = _
      rw [count_setLink_input hlink₁ houtput, update_of_ne hne]
  · rw [map_cons, nodup_cons]
    refine ⟨fun hmem => ?_, h.ids⟩
    obtain ⟨t, ht, heq⟩ := mem_map.mp hmem
    exact hlater t ht heq
  · refine forall_mem_cons.mpr ⟨Int.lt_succ m.memReqCount, fun t ht => ?_⟩
    exact (h.fresh t ht).trans (Int.lt_succ _)
  · refine forall_setLink hlink₁ hinputs ?_
    rw [hinput]
    refine forall_mem_concat (hinputs 0 s link hlink₁) ⟨rfl, hs, ?_, ?_⟩
    · rw [hformed.req_eq]
      exact hformed.kind
    · rw [hticket]
      exact mem_cons_self
  · exact forall_setLink_mem hlink₁ houtputs fun p hp => houtput ▸ hp

theorem MemInv.send (h : MemInv tickets m) (hsent : Sent cfg m req accepted m') :
    MemInv (if accepted then ticketOf cfg m req :: tickets else tickets) m' := by
  cases hsent with
  | noTag hformed htag =>
    obtain ⟨slid, -, -, pool, -, -, hm'⟩ := hformed.slid
    rw [hm']
    exact h.setPool _ _
  | noRoom hformed htag hs hlink hroom =>
    obtain ⟨slid, -, -, pool, -, -, hm'⟩ := hformed.slid
    rw [hm']
    exact h.setPool _ _
  | accepted hformed htag hs hlink hroom => exact h.accept hformed hs hlink

/-! ## Runs -/

/-- What happens to the memory. -/
inductive Op where
  | send (req : Request)
  | tick (junk : Nat → Int)

/-- The memory, and the tickets of the requests it has accepted, newest first. -/
structure Session where
  memory : Memory
  tickets : List Ticket

def Session.step (cfg : MemoryConfig) (st : Session) : Op → Except Abort Session
  | .send req => do
      let (accepted, m) ← st.memory.send cfg req
      pure ⟨m, if accepted then ticketOf cfg st.memory req :: st.tickets else st.tickets⟩
  | .tick junk => do
      let m ← st.memory.tick cfg junk
      pure { st with memory := m }

/-- Any interleaving of `send` and `tick` from the start. -/
def session (cfg : MemoryConfig) (ops : List Op) : Except Abort Session :=
  ops.foldlM (Session.step cfg) ⟨Memory.new cfg, []⟩

theorem mem_getD_map {α β : Type} {o : Option α} {f : α → List β} {b : β}
    (h : b ∈ (o.map f).getD []) : ∃ a, o = some a ∧ b ∈ f a := by
  cases o with
  | none => cases h
  | some a => exact ⟨a, rfl, h⟩

theorem requestsAt_new (cfg : MemoryConfig) (place : Place) :
    (Memory.new cfg).requestsAt place = [] := by
  refine eq_nil_iff_forall_not_mem.mpr fun r hr => ?_
  cases place with
  | inputBuffer l s | outputBuffer l s =>
    obtain ⟨k, hk, hmem⟩ := mem_getD_map hr
    rw [link?_new hk] at hmem
    cases hmem
  | readq v | writeq v | pending v | responsePacketsBuffer v =>
    obtain ⟨c, hc, hmem⟩ := mem_getD_map hr
    obtain ⟨id, rfl⟩ := ctrls_new hc
    cases hmem
  | delivered => cases hr

theorem MemInv.new (cfg : MemoryConfig) : MemInv [] (Memory.new cfg) where
  located := by
    refine ⟨fun a ha => (by cases ha), fun a _ spot => ?_⟩
    simp [count, placeCount, requestsAt_new]
  ids := nodup_nil
  fresh t ht := by cases ht
  input l s k hk p hp := by
    rw [link?_new hk] at hp
    cases hp
  output l s k hk p hp := by
    rw [link?_new hk] at hp
    cases hp
  vault v c hc := by
    obtain ⟨id, rfl⟩ := ctrls_new hc
    exact ⟨.new cfg.ctrl id, fun _ hr => (by cases hr), fun _ hr => (by cases hr),
      fun _ hp => (by cases hp)⟩
  log := rfl
  delivered p hp := by cases hp

theorem MemInv.step (hhost : cfg.ctrl.pimModeEnabled = false) (h : MemInv tickets m)
    (hstep : Step cfg junk m m') : MemInv tickets m' := by
  cases hstep with
  | clock => exact h.clock
  | @ctrl v c c' done hctrl htick =>
    obtain ⟨hinv, outs, hmoves⟩ :=
      ((h.vault v c hctrl).inv.tick cfg.ctrl (junk v)).result htick
    have hdone : done = [] := hmoves.host hhost
    subst hdone
    have h' := h.ctrl hctrl hinv hmoves
    rw [map_nil, append_nil]
    exact h'
  | link hlink => exact h.link hlink
  | forward hforward => exact h.forward hforward
  | backward hbackward => exact h.backward hbackward

theorem MemInv.abort (h : MemInv tickets m) {e : Abort} (habort : StepAbort cfg junk m e) :
    e ≠ .responseLookup := by
  cases habort with
  | outOfBounds => decide
  | packetType => decide
  | loops => decide
  | @ctrl v c e hctrl htick =>
    exact ((h.vault v c hctrl).inv.tick cfg.ctrl (junk v)).abort htick

theorem step_memInv (hhost : cfg.ctrl.pimModeEnabled = false) {st : Session}
    (h : MemInv st.tickets st.memory) (op : Op) :
    Ends (st.step cfg op) (fun st' => MemInv st'.tickets st'.memory)
      (fun e => e ≠ .responseLookup) := by
  cases op with
  | send req =>
    refine Ends.bind ((send_ends hhost st.memory req).weaken_abort ?_) ?_
    · rintro e (rfl | rfl | rfl)
      · decide
      · decide
      · decide
    · intro out hsent
      exact h.send hsent
  | tick junk =>
    refine Ends.bind (tick_ends (fun m m' hm hstep => hm.step hhost hstep)
      (fun m e hm habort => hm.abort habort) h) ?_
    intro m' hm'
    exact hm'

theorem session_memInv (hhost : cfg.ctrl.pimModeEnabled = false) (ops : List Op) :
    Ends (session cfg ops) (fun st => MemInv st.tickets st.memory) (fun e => e ≠ .responseLookup) :=
  Ends.foldlM ops (MemInv.new cfg) (fun _ op _ h => step_memInv hhost h op)

/-! ## Where the requests are -/

theorem placeCount_le (m : Memory) (place : Place) (a : Request) :
    m.placeCount place a ≤ m.count place.spot a :=
  le_sum_of_mem (mem_map_of_mem (mem_places.mpr rfl))

theorem MemInv.one_place (h : MemInv tickets m) {a : Request} (ha : a ∈ tickets.map Ticket.req) :
    ∃ p, m.placeCount p a = 1 ∧ ∀ q, q ≠ p → m.placeCount q a = 0 := by
  obtain ⟨spot, hone, hzero⟩ := h.located.one a ha
  obtain ⟨p, -, hp, hrest⟩ := exists_one_of_sum hone
  refine ⟨p, hp, fun q hq => ?_⟩
  by_cases hspot : q.spot = spot
  · exact hrest q (mem_places.mpr hspot) hq
  · exact Nat.eq_zero_of_le_zero (hzero q.spot hspot ▸ placeCount_le m q a)

/-- A request is at its own link, in its own vault or at the host. -/
theorem MemInv.atHome (h : MemInv tickets m) (ht : t ∈ tickets) {place : Place} {r : Request}
    (hr : r ∈ m.requestsAt place) (hident : r.ident = t.req) : t.AtHome place := by
  have hvault : ∀ (v : Nat) c, m.ctrls[v]? = some c → r ∈ c.held → vaultOf t.req = v := by
    intro v c hc hheld
    rw [← hident]
    exact (h.vault v c hc).home r hheld
  cases place with
  | inputBuffer l s =>
    obtain ⟨k, hk, hmem⟩ := mem_getD_map hr
    obtain ⟨p, hp, rfl⟩ := mem_map.mp hmem
    have hin := h.input l s k hk p hp
    have heq : t = Ticket.ofRequest p :=
      h.ticket_eq ht hin.ticket (by rw [← hident]; rfl)
    rw [heq]
    exact ⟨hin.layer, hin.link⟩
  | outputBuffer l s =>
    obtain ⟨k, hk, hmem⟩ := mem_getD_map hr
    obtain ⟨p, hp, rfl⟩ := mem_map.mp hmem
    obtain ⟨hout, hslid⟩ := h.output l s k hk p hp
    have heq : t = Ticket.ofResponse p :=
      h.ticket_eq ht hout.ticket (by rw [← hident]; rfl)
    rw [heq]
    exact hslid
  | readq v | writeq v | pending v =>
    obtain ⟨c, hc, hmem⟩ := mem_getD_map hr
    exact hvault v c hc (by simp [Controller.held, hmem])
  | responsePacketsBuffer v =>
    obtain ⟨c, hc, hmem⟩ := mem_getD_map hr
    obtain ⟨p, hp, rfl⟩ := mem_map.mp hmem
    show vaultOf t.req = v
    rw [← hident]
    exact ((h.vault v c hc).response p hp).2
  | delivered => trivial

theorem MemInv.count_reqidsAt (h : MemInv tickets m) (ht : t ∈ tickets) (place : Place) :
    (m.reqidsAt place).count t.req.reqid = m.placeCount place t.req := by
  have hmem : ∀ r ∈ m.requestsAt place, r.ident ∈ tickets.map Ticket.req := by
    intro r hr
    have hpos : 0 < m.placeCount place r.ident :=
      count_pos_iff.mpr (mem_map_of_mem hr)
    have hle := placeCount_le m place r.ident
    exact h.located.mem (p := place.spot) (by omega)
  have heq : ∀ r ∈ m.requestsAt place, (r.reqid = t.req.reqid ↔ r.ident = t.req) := by
    intro r hr
    obtain ⟨t', ht', hreq⟩ := mem_map.mp (hmem r hr)
    constructor
    · intro hid
      have hsame : t' = t := by
        apply h.ticket_eq ht' ht
        rw [hreq]
        exact hid
      rw [← hreq, hsame]
    · intro hident
      rw [← hident]
      rfl
  unfold reqidsAt placeCount
  revert heq
  generalize m.requestsAt place = requests
  intro heq
  induction requests with
  | nil => rfl
  | cons r rs ih =>
    have hr := heq r mem_cons_self
    have hrs := ih (fun r' hr' => heq r' (mem_cons_of_mem _ hr'))
    simp only [map_cons, count_cons, hrs, beq_iff_eq, hr]

/-- Host mode conserves requests.  After any interleaving of `send` and `tick`,

      * an accepted request is at exactly one place, once, and that is one of its
        own link or its own vault, or the host;
      * the host receives accepted requests only, and each packet it receives
        runs the callback of its request right away if that is a read, and no
        other callback runs;

    and the lookup in `form_response_packet` does not fail. -/
theorem session_conserves_requests (hhost : cfg.ctrl.pimModeEnabled = false) (ops : List Op) :
    (∀ st, session cfg ops = .ok st →
      (∀ t ∈ st.tickets, ∃ p, t.AtHome p ∧ (st.memory.reqidsAt p).count t.req.reqid = 1 ∧
        ∀ q, q ≠ p → t.req.reqid ∉ st.memory.reqidsAt q) ∧
      (∀ d ∈ st.memory.deliveredPackets, ∃ t ∈ st.tickets, t.req = d.req.ident) ∧
      st.memory.events = st.memory.deliveredPackets.flatMap logOf) ∧
    ∀ e, session cfg ops = .error e → e ≠ .responseLookup := by
  have hends := session_memInv hhost ops
  refine ⟨fun st hst => ?_, fun e he => hends.abort he⟩
  have h : MemInv st.tickets st.memory := hends.result hst
  refine ⟨?_, ?_, h.log⟩
  · intro t ht
    obtain ⟨p, hone, hzero⟩ := h.one_place (mem_map_of_mem ht)
    have hpos : 0 < ((st.memory.requestsAt p).map ident).count t.req := by
      rw [show ((st.memory.requestsAt p).map ident).count t.req = 1 from hone]
      omega
    obtain ⟨r, hr, hident⟩ := mem_map.mp (count_pos_iff.mp hpos)
    refine ⟨p, h.atHome ht hr hident, ?_, ?_⟩
    · rw [h.count_reqidsAt ht, hone]
    · intro q hq hmem
      have hposq := count_pos_iff.mpr hmem
      rw [h.count_reqidsAt ht, hzero q hq] at hposq
      omega
  · intro d hd
    exact ⟨_, h.delivered d hd, rfl⟩

/-- A read and a write on their way: both have been delivered after 50 cycles,
    the write first. -/
theorem session_conserves_requests_readWrite :
    ∃ st, session (smallStack 4) (.send { addr := 0, type := .read } ::
        .send { addr := 32, type := .write } :: replicate 50 (.tick fun _ => 0)) = .ok st ∧
      (st.tickets.map (·.req.reqid), st.memory.reqidsAt .delivered) = ([1, 0], [1, 0]) ∧
      (∀ t ∈ st.tickets, ∃ p, t.AtHome p ∧ (st.memory.reqidsAt p).count t.req.reqid = 1 ∧
        ∀ q, q ≠ p → t.req.reqid ∉ st.memory.reqidsAt q) ∧
      (∀ d ∈ st.memory.deliveredPackets, ∃ t ∈ st.tickets, t.req = d.req.ident) ∧
      st.memory.events = st.memory.deliveredPackets.flatMap logOf := by
  have hrun : (session (smallStack 4) (.send { addr := 0, type := .read } ::
        .send { addr := 32, type := .write } ::
        replicate 50 (.tick fun _ => 0))).toOption.map
      (fun st => (st.tickets.map (·.req.reqid), st.memory.reqidsAt .delivered)) =
        some ([1, 0], [1, 0]) := by decide +kernel
  obtain ⟨st, hst, hids⟩ := exists_ok_of_map hrun
  exact ⟨st, hst, hids, (session_conserves_requests rfl _).1 st hst⟩

end Memory

end Ramulator
