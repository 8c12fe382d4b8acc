/-
  Ramulator.Hmc.LinkCapacity

  The capacity of the link buffers in host mode.

  `buffer_max` is a number of flits: it is what the master gets as the tokens of
  the other side.  But `available_space` takes the number of packets off it, so a
  packet is admitted although the packets before it have more flits than one each.
  The flits in a buffer stay within its capacity as long as a packet of more than
  one flit is never admitted: if there is no payload, or one that never fits.
-/

import Ramulator.Hmc.Conservation
import Ramulator.Hmc.Requests

namespace Ramulator

open Outcome List

namespace Packet

def flits (buffer : List Packet) : Int := (buffer.map (·.totalFlits)).sum

structure Fits (buffer : List Packet) : Prop where
  short : ∀ p ∈ buffer, p.totalFlits ≤ 1
  count : (buffer.countP fun p => decide (1 ≤ p.totalFlits) : Int) ≤ bufferMax

variable {buffer : List Packet}

theorem flits_le_countP (hshort : ∀ p ∈ buffer, p.totalFlits ≤ 1) :
    flits buffer ≤ buffer.countP fun p => decide (1 ≤ p.totalFlits) := by
  induction buffer with
  | nil => simp [flits]
  | cons p buffer ih =>
    have hp := hshort p mem_cons_self
    have hrest := ih fun q hq => hshort q (mem_cons_of_mem _ hq)
    unfold flits at hrest ⊢
    rw [map_cons, sum_cons, countP_cons]
    by_cases hone : 1 ≤ p.totalFlits
    · simp only [hone, decide_true, if_true]
      omega
    · simp only [hone, decide_false, Bool.false_eq_true, if_false]
      omega

theorem Fits.flits_le (h : Fits buffer) : flits buffer ≤ bufferMax :=
  le_trans (flits_le_countP h.short) h.count

theorem Fits.nil : Fits [] := ⟨by simp, by simp [bufferMax]⟩

theorem Fits.tail {p : Packet} (h : Fits (p :: buffer)) : Fits buffer := by
  refine ⟨fun q hq => h.short q (mem_cons_of_mem _ hq), ?_⟩
  have hcount := h.count
  rw [countP_cons] at hcount
  split at hcount <;> omega

theorem Fits.head {p p' : Packet} (h : Fits (p :: buffer)) (hflits : p'.totalFlits = p.totalFlits) :
    Fits (p' :: buffer) := by
  refine ⟨?_, ?_⟩
  · rw [forall_mem_cons, hflits]
    exact forall_mem_cons.mp h.short
  · have hcount := h.count
    rw [countP_cons] at hcount ⊢
    rw [hflits]
    exact hcount

theorem Fits.append {p : Packet} (h : Fits buffer) (hp : p.totalFlits ≤ 1)
    (hroom : p.totalFlits ≤ bufferMax - buffer.length) : Fits (buffer ++ [p]) := by
  refine ⟨?_, ?_⟩
  · exact forall_mem_concat h.short hp
  · have hcount := h.count
    have hlength := buffer.countP_le_length (p := fun p => decide (1 ≤ p.totalFlits))
    rw [countP_append, countP_singleton]
    by_cases hone : 1 ≤ p.totalFlits
    · simp only [hone, decide_true, if_true]
      omega
    · simp only [hone, decide_false, Bool.false_eq_true, if_false]
      omega

end Packet

open Packet

namespace Memory

variable {cfg : MemoryConfig} {tickets : List Ticket} {m m' : Memory} {l s v : Nat} {st : Session}

def WithinCapacity (m : Memory) : Prop :=
  ∀ layer ∈ m.logicLayers, ∀ link ∈ layer.hostLinks,
    flits link.slave.inputBuffer ≤ bufferMax ∧ flits link.master.outputBuffer ≤ bufferMax

/-- The length of the packets of requests and responses. -/
def DataFlits (cfg : MemoryConfig) (p : Packet) : Prop :=
  p.totalFlits = 1 ∨ p.totalFlits = 1 + cfg.hmc.payloadFlits

/-- A packet with payload is as short as one without, or fits no buffer. -/
def ShortPayload (cfg : MemoryConfig) : Prop :=
  cfg.hmc.payloadFlits ≤ 0 ∨ 32 ≤ cfg.hmc.payloadFlits

theorem DataFlits.short {p : Packet} (h : DataFlits cfg p) (hpayload : ShortPayload cfg)
    {n : Nat} (hroom : p.totalFlits ≤ bufferMax - n) : p.totalFlits ≤ 1 := by
  rcases h with h | h <;> rcases hpayload with hp | hp <;> unfold bufferMax at hroom <;> omega

structure Buffered (cfg : MemoryConfig) (m : Memory) : Prop where
  input : ∀ l s k, m.link? l s = some k → Fits k.slave.inputBuffer
  output : ∀ l s k, m.link? l s = some k → Fits k.master.outputBuffer
  response : ∀ (v : Nat) (c : Controller), m.ctrls[v]? = some c →
    ∀ p ∈ c.responsePacketsBuffer, DataFlits cfg p

theorem Buffered.setLink {k : Link} (h : Buffered cfg m) (hlink : m.link? l s = some k)
    (k' : Link) (hinput : Fits k'.slave.inputBuffer) (houtput : Fits k'.master.outputBuffer) :
    Buffered cfg (m.setLink l s k') where
  input := forall_setLink hlink h.input hinput
  output := forall_setLink hlink h.output houtput
  response := h.response

theorem Buffered.setCtrl {c c' : Controller} (h : Buffered cfg m) (hctrl : m.ctrls[v]? = some c)
    (hresponse : ∀ p ∈ c'.responsePacketsBuffer, DataFlits cfg p) :
    Buffered cfg (m.setCtrl v c') where
  input := h.input
  output := h.output
  response := forall_setCtrl hctrl h.response hresponse

theorem Buffered.sent {k k' : Link} {buffer : List Packet} (h : Buffered cfg m)
    (hlink : m.link? l s = some k) (hinput : k'.slave.inputBuffer = k.slave.inputBuffer)
    (houtput : k'.master.outputBuffer = buffer)
    (hbuffer : k.master.outputBuffer = buffer ∨ ∃ p, k.master.outputBuffer = p :: buffer) :
    Buffered cfg (m.setLink l s k') := by
  have hold := h.output l s k hlink
  refine h.setLink hlink _ ?_ ?_
  · rw [hinput]
    exact h.input l s k hlink
  · rw [houtput]
    rcases hbuffer with hbuffer | ⟨p, hbuffer⟩
    · exact hbuffer ▸ hold
    · rw [hbuffer] at hold
      exact hold.tail

theorem Buffered.link (h : Buffered cfg m) (hticked : LinkTicked m l s m') : Buffered cfg m' := by
  cases hticked with
  | idle hlink hinput houtput => exact h.sent hlink hinput houtput (Or.inl rfl)
  | dropped hlink hbuffer hinput houtput _ =>
    exact h.sent hlink hinput houtput (Or.inr ⟨_, hbuffer⟩)
  | data hlink hbuffer hinput houtput _ _ _ =>
    have hset := h.sent hlink hinput houtput (Or.inr ⟨_, hbuffer⟩)
    exact ⟨hset.input, hset.output, hset.response⟩

theorem Buffered.forward (h : Buffered cfg m) (hforward : Forwarded cfg m l s m')
    (hkind : ∀ k, m.link? l s = some k → ∀ p ∈ k.slave.inputBuffer,
      p.req.type = .read ∨ p.req.type = .write) : Buffered cfg m' := by
  cases hforward with
  | idle => exact h
  | @offered k k' packet packet' rest v c c' accepted hlink hbuffer hv hctrl hreceive hinput
      houtput =>
      have hold := h.input l s k hlink
      rw [hbuffer] at hold
      have hmem : packet ∈ k.slave.inputBuffer := mem_of_eq_cons hbuffer
      obtain ⟨-, hresponses, -⟩ := Controller.receive_held (hkind k hlink packet hmem) hreceive
      have hpacket : packet'.totalFlits = packet.totalFlits := by
        obtain ⟨-, hpacket, -⟩ := (Controller.receive_ends cfg.ctrl c packet).result hreceive
        dsimp only at hpacket
        rw [hpacket]
      have hset : Buffered cfg (m.setCtrl v c') := by
        refine h.setCtrl hctrl ?_
        rw [hresponses]
        exact h.response v c hctrl
      refine hset.setLink (k := k) hlink _ ?_ ?_
      · rw [hinput]
        cases accepted with
        | true => exact hold.tail
        | false => exact hold.head hpacket
      · rw [houtput]
        exact h.output l s k hlink

theorem Buffered.backward (h : Buffered cfg m) (hpayload : ShortPayload cfg)
    (hbackward : Backward m l v m') : Buffered cfg m' := by
  cases hbackward with
  | idle => exact h
  | @moved c packet rest s k hctrl hbuffer hs hlink hroom =>
    have hresponse := h.response v c hctrl
    rw [hbuffer, forall_mem_cons] at hresponse
    have hset := h.setLink hlink { k with
      master.outputBuffer := k.master.outputBuffer ++ [packet] } (h.input l s k hlink)
      ((h.output l s k hlink).append (hresponse.1.short hpayload hroom) hroom)
    exact hset.setCtrl (c := c) hctrl hresponse.2

theorem Buffered.step (hpayload : ShortPayload cfg) {junk : Nat → Int}
    (hinv : MemInv tickets m) (h : Buffered cfg m) (hstep : Step cfg junk m m') :
    Buffered cfg m' := by
  cases hstep with
  | clock => exact ⟨h.input, h.output, h.response⟩
  | @ctrl v c c' done hctrl htick =>
    obtain ⟨-, outs, hmoves⟩ := ((hinv.vault v c hctrl).inv.tick cfg.ctrl (junk v)).result htick
    have hset : Buffered cfg (m.setCtrl v c') := by
      refine h.setCtrl hctrl ?_
      rw [hmoves.responses]
      intro p hp
      rcases mem_append.mp hp with hp | hp
      · exact h.response v c hctrl p hp
      · -- a new response has the length its request asks for
        obtain ⟨q, -, hq⟩ := hmoves.out p hp
        rw [hq]
        unfold DataFlits Controller.responseTo Packet.mkResponse
        split
        · exact Or.inl rfl
        · exact Or.inr rfl
    exact ⟨hset.input, hset.output, hset.response⟩
  | link hticked => exact h.link hticked
  | @forward l s m' hforward =>
    exact h.forward hforward fun k hk p hp => (hinv.input l s k hk p hp).kind
  | backward hbackward => exact h.backward hpayload hbackward

theorem Buffered.send (hpayload : ShortPayload cfg) (h : Buffered cfg m) {req : Request}
    {accepted : Bool} (hsent : Sent cfg m req accepted m') : Buffered cfg m' := by
  have hpool : ∀ {packet m₁}, Formed cfg m (m.prepare cfg req) packet m₁ → Buffered cfg m₁ := by
    intro packet m₁ hformed
    obtain ⟨-, -, -, -, -, -, rfl⟩ := hformed.slid
    exact ⟨h.input, h.output, h.response⟩
  cases hsent with
  | noTag hformed _ => exact hpool hformed
  | noRoom hformed _ _ _ _ => exact hpool hformed
  | @accepted packet m₁ k s hformed htag hs hlink hroom =>
    have hflits : DataFlits cfg packet := by
      unfold DataFlits
      rw [hformed.totalFlits]
      split
      · exact Or.inl rfl
      · exact Or.inr rfl
    have hlink₁ : m₁.link? 0 s = some k := by
      obtain ⟨-, -, -, -, -, -, rfl⟩ := hformed.slid
      exact hlink
    have hinput : (k.receive packet).slave.inputBuffer = k.slave.inputBuffer ++ [packet] := by
      simp [Link.receive, hformed.flowControl]
    have houtput : (k.receive packet).master.outputBuffer = k.master.outputBuffer := by
      simp [Link.receive, hformed.flowControl]
    have hset := (hpool hformed).setLink hlink₁ (k.receive packet)
      (by rw [hinput]; exact (h.input 0 s k hlink).append (hflits.short hpayload hroom) hroom)
      (by rw [houtput]; exact h.output 0 s k hlink)
    exact ⟨hset.input, hset.output, hset.response⟩

theorem Buffered.new (cfg : MemoryConfig) : Buffered cfg (Memory.new cfg) := by
  refine ⟨fun l s k hk => ?_, fun l s k hk => ?_, fun v c hc p hp => ?_⟩
  · rw [link?_new hk]
    exact Fits.nil
  · rw [link?_new hk]
    exact Fits.nil
  · obtain ⟨id, rfl⟩ := ctrls_new hc
    cases hp

theorem step_buffered (hhost : cfg.ctrl.pimModeEnabled = false) (hpayload : ShortPayload cfg)
    (h : MemInv st.tickets st.memory ∧ Buffered cfg st.memory) (op : Op) : Yields (st.step cfg op)
      (fun st' => MemInv st'.tickets st'.memory ∧ Buffered cfg st'.memory) := by
  cases op with
  | send req =>
    refine Ends.bind ((send_ends hhost st.memory req).ignore) ?_
    intro out hsent
    exact ⟨h.1.send hsent, h.2.send hpayload hsent⟩
  | tick junk =>
    refine Ends.bind (tick_ends (E := fun _ => True)
      (I := fun m => MemInv st.tickets m ∧ Buffered cfg m)
      (fun m m' hm hstep => ⟨hm.1.step hhost hstep, hm.2.step hpayload hm.1 hstep⟩)
      (fun _ _ _ _ => trivial) h) ?_
    intro m' hm'
    exact hm'

theorem Buffered.withinCapacity (h : Buffered cfg m) : m.WithinCapacity := by
  intro layer hlayer link hlink
  obtain ⟨l, hl⟩ := mem_iff_getElem?.mp hlayer
  obtain ⟨s, hs⟩ := mem_iff_getElem?.mp hlink
  have hk : m.link? l s = some link := by rw [link?, hl, Option.bind_some, hs]
  exact ⟨(h.input l s link hk).flits_le, (h.output l s link hk).flits_le⟩

def writeAndReads : List Op :=
  .send { addr := 0, type := .write } :: replicate 31 (.send { addr := 0, type := .read })

def inputFlits (st : Session) : List Int :=
  st.memory.logicLayers.flatMap fun layer => layer.hostLinks.map (flits ·.slave.inputBuffer)

/-- With a payload that fits, the link takes them all: the write counts as one. -/
theorem inputFlits_writeAndReads : ∀ p ∈ List.range 31,
    (session (smallStack (p + 1)) writeAndReads).toOption.map inputFlits =
      some [(p : Int) + 33, 0] := by
  decide +kernel

theorem not_withinCapacity {n : Int} {ns : List Int} (h : inputFlits st = n :: ns)
    (hn : bufferMax < n) : ¬st.memory.WithinCapacity := by
  intro hcapacity
  have hmem : n ∈ inputFlits st := mem_of_eq_cons h
  obtain ⟨layer, hlayer, hmem⟩ := mem_flatMap.mp hmem
  obtain ⟨link, hlink, rfl⟩ := mem_map.mp hmem
  have := (hcapacity layer hlayer link hlink).1
  omega

/-- In host mode the flits in the buffers are within their capacity, for all memories
    with a payload of `p` flits and in every state of every run, exactly if a packet
    with payload is no longer than one without or is never admitted. -/
theorem withinCapacity_iff (p : Int) :
    (∀ (cfg : MemoryConfig) (ops : List Op) (st : Session), cfg.hmc.payloadFlits = p →
        cfg.ctrl.pimModeEnabled = false → session cfg ops = .ok st → st.memory.WithinCapacity) ↔
      p ≤ 0 ∨ 32 ≤ p := by
  constructor
  · intro h
    by_contra hp
    obtain ⟨k, hk⟩ := Int.eq_ofNat_of_zero_le (show 0 ≤ p - 1 by omega)
    obtain ⟨st, hrun, hflits⟩ := exists_ok_of_map
      (inputFlits_writeAndReads k (mem_range.mpr (by omega)))
    exact not_withinCapacity hflits (by unfold bufferMax; omega)
      (h (smallStack (k + 1)) writeAndReads st (show (k : Int) + 1 = p by omega) rfl hrun)
  · rintro hp cfg ops st rfl hhost hrun
    have hends : Yields (session cfg ops)
        (fun st => MemInv st.tickets st.memory ∧ Buffered cfg st.memory) :=
      Ends.foldlM ops ⟨MemInv.new cfg, Buffered.new cfg⟩ fun _ op _ h => step_buffered hhost hp h op
    exact (hends.result hrun).2.withinCapacity

/-- Seven writes of the default payload, four flits, are 35 flits, and the link has
    room for 32. -/
theorem seven_writes_exceed_capacity :
    ∃ st, session (smallStack 4) (replicate 7 (.send { addr := 0, type := .write })) =
        .ok st ∧ ¬st.memory.WithinCapacity := by
  have hrun : (session (smallStack 4)
      (replicate 7 (.send { addr := 0, type := .write }))).toOption.map inputFlits =
        some [35, 0] := by decide +kernel
  obtain ⟨st, hst, hflits⟩ := exists_ok_of_map hrun
  exact ⟨st, hst, not_withinCapacity hflits (by decide)⟩

end Memory

end Ramulator
