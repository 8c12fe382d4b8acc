/-
  Ramulator.Hmc.Tokens

  The tokens of a link in host mode.

  The switch counts the flits of the packets it takes out of the slave of a link
  in `extracted_token_count`, and the master of the link returns them, in each
  packet it sends, by the highest bit of the count.  A run here is any sequence
  of what moves packets: a request of the host, the tick of a controller or of a
  master, and the bodies of the two loops of `Switch::tick`, with any vaults and
  links marked as used.  A tick of the whole memory is such a run (`tick_reaches`).
-/

import Ramulator.Hmc.LinkCapacity

namespace Ramulator

open Outcome List Function

/-- What has gone through a link: the flits the switch has extracted, and the
    tokens the master has returned. -/
structure LinkCount where
  extracted : Int := 0
  returned : Int := 0

namespace Memory

/-- One step of a run. -/
inductive LinkOp where
  /-- The clock of the memory. -/
  | clock
  | send (req : Request)
  | ctrl (junk : Nat → Int) (v : Nat)
  | master (l s : Nat)
  | forward (l : Nat) (cub : Int) (used : List Int) (s : Nat)
  | backward (l : Nat) (used : List Int) (v : Nat)

structure Tokens where
  memory : Memory
  counts : Nat × Nat → LinkCount := fun _ => {}

namespace Tokens

variable {cfg : MemoryConfig} {st : Tokens} {m m' : Memory} {l s : Nat} {k k' : Link}
  {counts : Nat × Nat → LinkCount}

/-- `forward` and `tickLink` are counted by what leaves the input buffer and by
    the packet that is sent. -/
def step (cfg : MemoryConfig) (st : Tokens) : LinkOp → Except Abort Tokens
  | .clock => pure { st with memory.clk := st.memory.clk + 1 }
  | .send req => do
    let (_, memory) ← st.memory.send cfg req
    pure { st with memory }
  | .ctrl junk v => do
    let memory ← tickCtrl cfg junk st.memory v
    pure { st with memory }
  | .master l s => do
    let link ← st.memory.hostLink l s
    let (sent, _) ← link.tick cfg.flitCycles
    let memory ← tickLink cfg l st.memory s
    let count := st.counts (l, s)
    pure ⟨memory, update st.counts (l, s)
      { count with returned := count.returned + Link.rtcOf sent }⟩
  | .forward l cub used s => do
    let before ← st.memory.hostLink l s
    let (_, memory) ← forward cfg l cub (used, st.memory) s
    let after ← memory.hostLink l s
    let count := st.counts (l, s)
    pure ⟨memory, update st.counts (l, s) { count with extracted := count.extracted +
      (Packet.flits before.slave.inputBuffer - Packet.flits after.slave.inputBuffer) }⟩
  | .backward l used v => do
    let (_, memory) ← backward l (used, st.memory) v
    pure { st with memory }

def run (cfg : MemoryConfig) (ops : List LinkOp) : Except Abort Tokens :=
  ops.foldlM (step cfg) { memory := Memory.new cfg }

/-! ## The ticks -/

/-- There is a run from one memory to the other. -/
def Reaches (cfg : MemoryConfig) (m m' : Memory) : Prop :=
  ∀ counts, ∃ ops counts', List.foldlM (step cfg) ⟨m, counts⟩ ops = .ok ⟨m', counts'⟩

theorem Reaches.refl (m : Memory) : Reaches cfg m m := fun counts => ⟨[], counts, rfl⟩

theorem Reaches.step {m'' : Memory} (h : Reaches cfg m m') (op : LinkOp)
    (hop : ∀ counts, ∃ counts', Tokens.step cfg ⟨m', counts⟩ op = .ok ⟨m'', counts'⟩) :
    Reaches cfg m m'' := by
  intro counts
  obtain ⟨ops, counts₁, hops⟩ := h counts
  obtain ⟨counts₂, hop⟩ := hop counts₁
  refine ⟨ops ++ [op], counts₂, ?_⟩
  rw [foldlM_append, hops]
  exact (bind_pure _).trans hop

theorem Reaches.tickLink (h : Reaches cfg m m') (l s : Nat) :
    Yields (tickLink cfg l m' s) (Reaches cfg m) := by
  refine (Ends.ran _).weaken fun m'' htick => h.step (.master l s) fun counts => ?_
  obtain ⟨link, hlink, hrest⟩ := bind_ok.mp htick
  obtain ⟨⟨sent, link'⟩, htick', -⟩ := bind_ok.mp hrest
  refine ⟨_, bind_ok.mpr ⟨link, hlink, bind_ok.mpr ⟨_, htick', bind_ok.mpr ⟨m'', htick, rfl⟩⟩⟩⟩

theorem hostLink_eq {link : Link} (h : m.link? l s = some link) : m.hostLink l s = .ok link := by
  obtain ⟨layer, hlayer, hlink⟩ := Option.bind_eq_some_iff.mp h
  have hat : ∀ {α : Type} {xs : List α} {i : Nat} {x : α}, xs[i]? = some x →
      Vec.at xs i = .ok x := by
    intro α xs i x hx
    simp [Vec.at, hx]
  exact bind_ok.mpr ⟨layer, hat hlayer, hat hlink⟩

theorem Reaches.forward (h : Reaches cfg m m') (l : Nat) (cub : Int) (used : List Int) (s : Nat) :
    Yields (forward cfg l cub (used, m') s) (fun out => Reaches cfg m out.2) := by
  refine (forward_ends cfg l cub used m' s).remember.yields ?_
  rintro ⟨used', m''⟩ ⟨hrun, hforward⟩
  refine h.step (.forward l cub used s) fun counts => ?_
  obtain ⟨link, hlink, -⟩ := bind_ok.mp hrun
  obtain ⟨after, hafter⟩ : ∃ after, m''.hostLink l s = .ok after := by
    cases hforward with
    | idle => exact ⟨link, hlink⟩
    | offered hlink₁ => exact ⟨_, hostLink_eq (link?_setLink_self hlink₁ _)⟩
  exact ⟨_, bind_ok.mpr ⟨link, hlink, bind_ok.mpr ⟨_, hrun, bind_ok.mpr ⟨after, hafter, rfl⟩⟩⟩⟩

theorem Reaches.tickLayer (h : Reaches cfg m m') (l : Nat) :
    Yields (tickLayer cfg m' l) (Reaches cfg m) := by
  refine Ends.bind (Ends.ran _) fun layer _ => ?_
  refine Ends.bind (Ends.foldlM _ h fun m₁ s _ h₁ => h₁.tickLink l s) fun m₁ h₁ => ?_
  have hforward := Ends.foldlM (I := fun out : List Int × Memory => Reaches cfg m out.2)
    (E := fun _ => True) (List.range layer.hostLinks.length) (b := ([], m₁)) h₁
    fun out s _ h₂ => h₂.forward l layer.cub out.1 s
  refine Ends.bind hforward fun out h₂ => ?_
  have hbackward := Ends.foldlM (I := fun out : List Int × Memory => Reaches cfg m out.2)
    (E := fun _ => True) (List.range out.2.ctrls.length) (b := ([], out.2)) h₂
    (f := Memory.backward l) fun out v _ h₃ => (Ends.ran _).weaken fun out' hout => ?_
  · exact Ends.bind hbackward fun out h₃ => h₃
  · exact h₃.step (.backward l out.1 v) fun counts => ⟨counts, bind_ok.mpr ⟨out', hout, rfl⟩⟩

/-- A tick of the memory, with the links and the switches, is a run. -/
theorem tick_reaches (cfg : MemoryConfig) (junk : Nat → Int) (m : Memory) :
    Yields (m.tick cfg junk) (Reaches cfg m) := by
  have hclock : Reaches cfg m { m with clk := m.clk + 1 } :=
    (Reaches.refl m).step .clock fun counts => ⟨counts, rfl⟩
  refine Ends.bind (Ends.foldlM _ hclock fun m₁ v _ h₁ => ?_) fun m₁ h₁ =>
    Ends.foldlM _ h₁ fun m₂ l _ h₂ => h₂.tickLayer l
  exact (Ends.ran _).weaken fun m₂ htick => h₁.step (.ctrl junk v) fun counts =>
    ⟨counts, bind_ok.mpr ⟨m₂, htick, rfl⟩⟩

/-! ## Tokens -/

structure Balanced (count : LinkCount) (link : Link) : Prop where
  total : count.extracted = link.slave.extractedTokenCount + count.returned
  nonneg : 0 ≤ link.slave.extractedTokenCount

/-- Nothing that waits in the slave can take the count below zero. -/
structure Inv (counts : Nat × Nat → LinkCount) (m : Memory) : Prop where
  links : ∀ l s k, m.link? l s = some k → Balanced (counts (l, s)) k
  input : ∀ l s k, m.link? l s = some k → ∀ p ∈ k.slave.inputBuffer, 0 ≤ p.totalFlits

theorem Inv.new (cfg : MemoryConfig) : Inv (fun _ => {}) (Memory.new cfg) := by
  refine ⟨fun l s k hk => ?_, fun l s k hk => ?_⟩ <;> rw [link?_new hk]
  · exact ⟨rfl, le_refl _⟩
  · exact forall_mem_nil _

theorem Inv.setLink (h : Inv counts m) (hlink : m.link? l s = some k) {count : LinkCount}
    (hbalanced : Balanced count k') (hinput : ∀ p ∈ k'.slave.inputBuffer, 0 ≤ p.totalFlits) :
    Inv (update counts (l, s) count) (m.setLink l s k') := by
  refine ⟨fun l' s' k₁ hk => ?_, forall_setLink hlink h.input hinput⟩
  rw [link?_setLink hlink] at hk
  by_cases hls : l' = l ∧ s' = s
  · rw [if_pos hls, Option.some.injEq] at hk
    rw [hls.1, hls.2, update_self, ← hk]
    exact hbalanced
  · rw [if_neg hls] at hk
    rw [update_of_ne fun heq => hls (Prod.mk.inj heq)]
    exact h.links l' s' k₁ hk

theorem Inv.setLink_same (h : Inv counts m) (hlink : m.link? l s = some k)
    (htokens : k'.slave.extractedTokenCount = k.slave.extractedTokenCount)
    (hinput : ∀ p ∈ k'.slave.inputBuffer, 0 ≤ p.totalFlits) : Inv counts (m.setLink l s k') := by
  have hold := h.links l s k hlink
  have hkeep : Balanced (counts (l, s)) k' := ⟨htokens ▸ hold.total, htokens ▸ hold.nonneg⟩
  have hset := h.setLink hlink hkeep hinput
  rwa [update_eq_self] at hset

theorem Inv.send (hpayload : -1 ≤ cfg.hmc.payloadFlits) (h : Inv counts m) {req : Request}
    {accepted : Bool} (hsent : Sent cfg m req accepted m') : Inv counts m' := by
  have hpool : ∀ {packet m₁}, Formed cfg m (m.prepare cfg req) packet m₁ →
      m₁.logicLayers = m.logicLayers := by
    intro packet m₁ hformed
    obtain ⟨-, -, -, -, -, -, rfl⟩ := hformed.slid
    rfl
  have hsame : ∀ {m₁ : Memory}, m₁.logicLayers = m.logicLayers → Inv counts m₁ := by
    intro m₁ heq
    have hlink : ∀ l s, m₁.link? l s = m.link? l s := fun l s => by rw [link?, link?, heq]
    exact ⟨fun l s k hk => h.links l s k (hlink l s ▸ hk),
      fun l s k hk => h.input l s k (hlink l s ▸ hk)⟩
  cases hsent with
  | noTag hformed => exact hsame (hpool hformed)
  | noRoom hformed => exact hsame (hpool hformed)
  | @accepted packet m₁ k s hformed htag hs hlink hroom =>
    have hflits : 0 ≤ packet.totalFlits := by
      rw [hformed.totalFlits]
      split <;> omega
    have hlink₁ : m₁.link? 0 s = some k := by
      rw [link?, hpool hformed]
      exact hlink
    have hset : Inv counts (m₁.setLink 0 s (k.receive packet)) := by
      refine (hsame (hpool hformed)).setLink_same hlink₁ ?_ ?_
      · simp [Link.receive, hformed.flowControl]
      · have hold := h.input 0 s k hlink
        simpa [Link.receive, hformed.flowControl, or_imp, forall_and, hflits] using hold
    exact ⟨hset.links, hset.input⟩

theorem Inv.master (h : Inv counts m) (hlink : m.link? l s = some k) {sent : Option Packet}
    (htokens : Link.Returned k sent k') (hinput : k'.slave.inputBuffer = k.slave.inputBuffer) :
    Inv (update counts (l, s)
      { counts (l, s) with returned := (counts (l, s)).returned + Link.rtcOf sent })
      (m.setLink l s k') := by
  have hold := h.links l s k hlink
  refine h.setLink hlink ⟨?_, htokens.nonneg hold.nonneg⟩ (hinput ▸ h.input l s k hlink)
  have htotal := hold.total
  have hcount := htokens.count
  dsimp only
  omega

theorem Inv.forward (h : Inv counts m) (hlink : m.link? l s = some k)
    (hforward : Forwarded cfg m l s m') (hlink' : m'.link? l s = some k') :
    Inv (update counts (l, s) { counts (l, s) with extracted :=
      (counts (l, s)).extracted +
        (Packet.flits k.slave.inputBuffer - Packet.flits k'.slave.inputBuffer) }) m' := by
  have hold := h.links l s k hlink
  cases hforward with
  | idle =>
    cases hlink.symm.trans hlink'
    rw [sub_self, add_zero, update_eq_self]
    exact h
  | @offered k₁ k₂ packet packet' rest v c c' accepted hlink₁ hbuffer hv hctrl hreceive hinput
      houtput htokens =>
    cases hlink.symm.trans hlink₁
    have hlink : (m.setCtrl v c').link? l s = some k := hlink
    cases hlink'.symm.trans (link?_setLink_self hlink k₂)
    have hflits : packet'.totalFlits = packet.totalFlits := by
      obtain ⟨-, hpacket, -⟩ := (Controller.receive_ends cfg.ctrl c packet).result hreceive
      dsimp only at hpacket
      rw [hpacket]
    have hnonneg := h.input l s k hlink₁
    rw [hbuffer, forall_mem_cons] at hnonneg
    have hctrl : Inv counts (m.setCtrl v c') := ⟨h.links, h.input⟩
    refine hctrl.setLink hlink ?_ ?_
    · have htotal := hold.total
      have hcount := hold.nonneg
      constructor <;> rw [htokens]
      · rw [hinput, hbuffer]
        cases accepted <;> simp [Packet.flits, hflits] <;> omega
      · cases accepted <;> simp <;> omega
    · rw [hinput]
      cases accepted with
      | true => exact hnonneg.2
      | false => exact forall_mem_cons.mpr ⟨hflits ▸ hnonneg.1, hnonneg.2⟩

theorem Inv.backward (h : Inv counts m) {v : Nat} (hbackward : Backward m l v m') :
    Inv counts m' := by
  cases hbackward with
  | idle => exact h
  | @moved c packet rest s k hctrl hbuffer hs hlink hroom =>
    have hset : Inv counts (m.setLink l s { k with
        master.outputBuffer := k.master.outputBuffer ++ [packet] }) :=
      h.setLink_same hlink rfl (h.input l s k hlink)
    exact ⟨hset.links, hset.input⟩

theorem step_inv (hhost : cfg.ctrl.pimModeEnabled = false) (hpayload : -1 ≤ cfg.hmc.payloadFlits)
    (h : Inv st.counts st.memory) (op : LinkOp) :
    Yields (st.step cfg op) (fun st' => Inv st'.counts st'.memory) := by
  cases op with
  | clock => exact ⟨h.links, h.input⟩
  | send req =>
    refine Ends.bind ((send_ends hhost st.memory req).ignore) ?_
    exact fun out hsent => h.send hpayload hsent
  | ctrl junk v =>
    refine Ends.bind (Q := Inv st.counts) ?_ (fun m' hm' => hm')
    unfold tickCtrl
    refine Ends.bind (Ends.ran _) (fun c _ => Ends.bind (Ends.ran _) (fun out _ => ?_))
    exact ⟨h.links, h.input⟩
  | master l s =>
    refine Ends.bind ((hostLink_ends st.memory l s).remember.ignore) ?_
    rintro k ⟨hhostLink, -, hlink⟩
    refine Ends.bind ((Link.tick_ends cfg.flitCycles k).remember.weaken_abort fun _ _ => trivial) ?_
    rintro ⟨sent, k'⟩ ⟨htick, hticked, htokens⟩
    have hinput : k'.slave.inputBuffer = k.slave.inputBuffer := by
      cases hticked with
      | idle _ hinput => exact hinput
      | data _ hinput => exact hinput
    have hset := h.master hlink htokens hinput
    -- `tickLink` finds the same link and sends the same packet
    have hrun : tickLink cfg l st.memory s = (st.memory.setLink l s k').deliver sent := by
      unfold tickLink
      rw [hhostLink]
      show (k.tick cfg.flitCycles >>= _) = _
      rw [htick]
      rfl
    rw [hrun]
    refine Ends.bind (Q := fun m' => m'.logicLayers = (st.memory.setLink l s k').logicLayers) ?_
      (fun m' hm' => ?_)
    · cases sent with
      | none => rfl
      | some packet =>
        refine (receivePackets_ends _ packet).yields ?_
        rintro m' (⟨-, rfl⟩ | ⟨-, -, pool, -, -, rfl⟩) <;> rfl
    · have hsame : ∀ l' s', m'.link? l' s' = (st.memory.setLink l s k').link? l' s' :=
        fun l' s' => by rw [link?, link?, hm']
      exact ⟨fun l' s' k₁ hk => hset.links l' s' k₁ (hsame l' s' ▸ hk),
        fun l' s' k₁ hk => hset.input l' s' k₁ (hsame l' s' ▸ hk)⟩
  | forward l cub used s =>
    refine Ends.bind ((hostLink_ends st.memory l s).ignore) ?_
    rintro k ⟨-, hlink⟩
    refine Ends.bind ((forward_ends cfg l cub used st.memory s).weaken_abort fun _ _ => trivial) ?_
    rintro ⟨used', m'⟩ hforward
    refine Ends.bind ((hostLink_ends m' l s).ignore) ?_
    rintro k' ⟨-, hlink'⟩
    exact h.forward hlink hforward hlink'
  | backward l used v =>
    refine Ends.bind ((backward_ends l used st.memory v).ignore) ?_
    exact fun out hbackward => h.backward hbackward

/-- In host mode, and if no packet has fewer than zero flits, the flits extracted
    from a link are the tokens returned and those counted, which are never fewer
    than zero; and a `send` returns at least half of the tokens counted. -/
theorem run_tokens (hhost : cfg.ctrl.pimModeEnabled = false)
    (hpayload : -1 ≤ cfg.hmc.payloadFlits) (ops : List LinkOp) : Ends (run cfg ops)
      (fun st => ∀ l s link, st.memory.link? l s = some link → Balanced (st.counts (l, s)) link ∧
        (0 < link.slave.extractedTokenCount → Ends (link.send cfg.flitCycles)
          (fun out => out.2.slave.extractedTokenCount ≤ link.slave.extractedTokenCount -
            (link.slave.extractedTokenCount + 1) / 2) (fun _ => False))) (fun _ => True) := by
  have hinv : Yields (run cfg ops) (fun st => Inv st.counts st.memory) :=
    Ends.foldlM ops (Inv.new cfg) fun st op _ h => step_inv hhost hpayload h op
  refine hinv.weaken fun st h l s link hlink => ⟨h.links l s link hlink, fun hpos => ?_⟩
  refine (Link.send_ends cfg.flitCycles link).imp ?_ (fun e he => absurd he.2 (not_lt.mpr hpos.le))
  rintro ⟨sent, link'⟩ ⟨-, htokens, hhalf⟩
  have hcount := htokens.count
  have hmore := hhalf hpos
  dsimp only at hcount hmore ⊢
  omega

/-- A write of five flits is taken out and a flow control packet returns four of
    its tokens. -/
theorem run_tokens_write :
    ∃ st link, run (smallStack 4) [.send { addr := 0, type := .write }, .forward 0 0 [] 0,
        .master 0 0] = .ok st ∧ st.memory.link? 0 0 = some link ∧
      ((st.counts (0, 0)).extracted, (st.counts (0, 0)).returned,
        link.slave.extractedTokenCount) = (5, 4, 1) ∧ Balanced (st.counts (0, 0)) link := by
  have hrun : (show Except Abort (Tokens × Link) from do
      let st ← run (smallStack 4) [.send { addr := 0, type := .write }, .forward 0 0 [] 0,
        .master 0 0]
      let link ← st.memory.hostLink 0 0
      pure (st, link)).toOption.map (fun r => ((r.1.counts (0, 0)).extracted,
        (r.1.counts (0, 0)).returned, r.2.slave.extractedTokenCount)) = some (5, 4, 1) := by
    decide +kernel
  obtain ⟨r, hr, hvalue⟩ := exists_ok_of_map hrun
  obtain ⟨st, hst, hr⟩ := bind_ok.mp hr
  obtain ⟨link, hlink, hr⟩ := bind_ok.mp hr
  cases hr
  have hlink := ((hostLink_ends st.memory 0 0).result hlink).2
  exact ⟨st, link, hst, hlink, hvalue, ((run_tokens rfl (by decide) _).result hst 0 0 link hlink).1⟩

/-- With `payload_flits` at -2 a write has -1 flits, and takes the count below
    zero. -/
theorem negative_payload_tokens :
    ((run (smallStack (-2)) [.send { addr := 0, type := .write }, .forward 0 0 [] 0]).toOption.map
      fun st => (st.memory.link? 0 0).map (·.slave.extractedTokenCount)) = some (some (-1)) := by
  decide +kernel

end Tokens

end Memory

end Ramulator
