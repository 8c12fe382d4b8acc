/-
  Ramulator.Hmc.Requests

  What holds of every request in the memory.

  A request keeps its `ident` from the link to the callback, so a property of
  `ident`s that every accepted request has is true of every request anywhere in
  the memory, and of every request that is called back (`Every`).

  In PIM mode there is nothing on the links but the responses to writes
  (`PimInv`), and a read stays in its vault until its callback runs
  (`PimInv.tick`).
-/

import Ramulator.Hmc.Custody
import Ramulator.Hmc.MemorySteps

namespace Ramulator

open Outcome List
open Request (ident)

variable {r : Request}

namespace Controller

variable {cfg : ControllerConfig} {c c' : Controller} {done : List Request} {outs : List Packet}

theorem Moves.mem_held_of_done (h : Moves cfg c c' done outs) (hr : r ∈ done) :
    ∃ r₀ ∈ c.held, r₀.ident = r.ident := by
  have hpos : 0 < (done.map ident).count r.ident :=
    count_pos_iff.mpr (mem_map_of_mem hr)
  have hcount := h.count r.ident
  exact mem_held_of_count (by omega)

/-- What was held before is still held, answered or called back. -/
theorem Moves.cases_of_held (h : Moves cfg c c' done outs) (hr : r ∈ c.held) :
    (∃ r' ∈ c'.held, r'.ident = r.ident) ∨ (∃ p ∈ outs, p.req.ident = r.ident) ∨
      ∃ r' ∈ done, r'.ident = r.ident := by
  have hpos := count_pos_of_mem hr
  have hcount := h.count r.ident
  by_cases hheld : 0 < c'.heldCount r.ident
  · exact Or.inl (mem_held_of_count hheld)
  · by_cases houts : 0 < (outs.map (·.req.ident)).count r.ident
    · obtain ⟨p, hp, hident⟩ := mem_map.mp (count_pos_iff.mp houts)
      exact Or.inr (Or.inl ⟨p, hp, hident⟩)
    · have hdone : 0 < (done.map ident).count r.ident := by omega
      obtain ⟨r', hr', hident⟩ := mem_map.mp (count_pos_iff.mp hdone)
      exact Or.inr (Or.inr ⟨r', hr', hident⟩)

theorem mem_held_setQueue {type : RequestType} {q : List Request}
    (hr : r ∈ (c.setQueue type q).held) : r ∈ c.held ∨ r ∈ q := by
  unfold held at hr ⊢
  cases type with
  | read =>
    simp only [setQueue, mem_append] at hr ⊢
    tauto
  | write =>
    simp only [setQueue, mem_append] at hr ⊢
    tauto
  | refresh | powerdown | selfrefresh | extension | instruction => exact Or.inl hr

theorem receive_held {packet packet' : Packet} {accepted : Bool}
    (hkind : packet.req.type = .read ∨ packet.req.type = .write)
    (h : c.receive cfg packet = .ok (accepted, packet', c')) :
    packet'.req.ident = packet.req.ident ∧ c'.responsePacketsBuffer = c.responsePacketsBuffer ∧
      ∀ r ∈ c'.held, r ∈ c.held ∨ r.ident = packet.req.ident := by
  obtain ⟨-, hpacket, hcases⟩ := (receive_ends cfg c packet).result h
  dsimp only at hpacket hcases
  refine ⟨by rw [hpacket]; rfl, ?_⟩
  rcases hcases with ⟨-, henq⟩ | ⟨-, -, rfl⟩
  · obtain ⟨-, rfl | ⟨-, -, rfl⟩⟩ := enqueue_cases henq
    · refine ⟨(setQueue_buffers _ _ _).2, ?_⟩
      intro r hr
      rcases mem_held_setQueue hr with hr | hr
      · exact Or.inl hr
      · rcases mem_append.mp hr with hr | hr
        · exact Or.inl (mem_held_of_getQueue (c := c) hkind hr)
        · rw [mem_singleton.mp hr]
          exact Or.inr rfl
    · refine ⟨rfl, ?_⟩
      intro r hr
      simp only [held, mem_append, mem_singleton] at hr ⊢
      rcases hr with hr | hr | rfl
      · exact Or.inl (Or.inl hr)
      · exact Or.inl (Or.inr hr)
      · exact Or.inr rfl
  · exact ⟨rfl, fun r hr => Or.inl hr⟩

end Controller

namespace Memory

variable {cfg : MemoryConfig} {m m' m₀ : Memory} {l s v : Nat} {P : Request → Prop}

def Held (m : Memory) (r : Request) : Prop :=
  ∃ (v : Nat) (c : Controller), m.ctrls[v]? = some c ∧ r ∈ c.held

/-- `P` is true of every request in the memory and of every request that was
    called back. -/
structure Every (P : Request → Prop) (m : Memory) : Prop where
  input : ∀ l s k, m.link? l s = some k → ∀ p ∈ k.slave.inputBuffer, P p.req.ident
  held : ∀ (v : Nat) (c : Controller), m.ctrls[v]? = some c → ∀ r ∈ c.held, P r.ident
  response : ∀ (v : Nat) (c : Controller), m.ctrls[v]? = some c →
    ∀ p ∈ c.responsePacketsBuffer, P p.req.ident
  output : ∀ l s k, m.link? l s = some k → ∀ p ∈ k.master.outputBuffer, P p.req.ident
  callback : ∀ req, .callback req ∈ m.events → P req.ident

theorem Every.mono {Q : Request → Prop} (h : Every P m) (himp : ∀ r, P r → Q r) : Every Q m where
  input l s k hk p hp := himp _ (h.input l s k hk p hp)
  held v c hc r hr := himp _ (h.held v c hc r hr)
  response v c hc p hp := himp _ (h.response v c hc p hp)
  output l s k hk p hp := himp _ (h.output l s k hk p hp)
  callback req hreq := himp _ (h.callback req hreq)

/-- The vaults can answer, and links have only requests that vaults take. -/
structure Sound (m : Memory) : Prop where
  vault : ∀ (v : Nat) (c : Controller), m.ctrls[v]? = some c → c.VaultInv
  input : ∀ l s k, m.link? l s = some k → ∀ p ∈ k.slave.inputBuffer,
    p.req.type = .read ∨ p.req.type = .write

theorem Every.setLink {k k' : Link} (h : Every P m) (hlink : m.link? l s = some k)
    (hinput : ∀ p ∈ k'.slave.inputBuffer, P p.req.ident)
    (houtput : ∀ p ∈ k'.master.outputBuffer, P p.req.ident) : Every P (m.setLink l s k') where
  input := forall_setLink hlink h.input hinput
  held := h.held
  response := h.response
  output := forall_setLink hlink h.output houtput
  callback := h.callback

theorem Every.setCtrl {c c' : Controller} (h : Every P m) (hctrl : m.ctrls[v]? = some c)
    (hheld : ∀ r ∈ c'.held, P r.ident)
    (hresponse : ∀ p ∈ c'.responsePacketsBuffer, P p.req.ident) : Every P (m.setCtrl v c') where
  input := h.input
  held := forall_setCtrl hctrl h.held hheld
  response := forall_setCtrl hctrl h.response hresponse
  output := h.output
  callback := h.callback

theorem Every.log (h : Every P m) {new : List Event}
    (hnew : ∀ req, .callback req ∈ new → P req.ident) :
    Every P { m with events := m.events ++ new } where
  input := h.input
  held := h.held
  response := h.response
  output := h.output
  callback req hreq := by
    rcases mem_append.mp hreq with hreq | hreq
    · exact h.callback req hreq
    · exact hnew req hreq

theorem Every.frame (h : Every P m) (hctrls : m'.ctrls = m.ctrls)
    (hlayers : m'.logicLayers = m.logicLayers) (hevents : m'.events = m.events) : Every P m' where
  input := by
    unfold link?
    rw [hlayers]
    exact h.input
  held := by
    rw [hctrls]
    exact h.held
  response := by
    rw [hctrls]
    exact h.response
  output := by
    unfold link?
    rw [hlayers]
    exact h.output
  callback := by
    rw [hevents]
    exact h.callback

/-- What a tick of a link does to the packets: its output may lose the first one,
    and only that one may be called back. -/
theorem LinkTicked.shrinks (h : LinkTicked m l s m') :
    ∃ k k' new, m.link? l s = some k ∧ k'.slave.inputBuffer = k.slave.inputBuffer ∧
      k'.master.outputBuffer ⊆ k.master.outputBuffer ∧
      (∀ req, .callback req ∈ new → ∃ p ∈ k.master.outputBuffer, p.req.ident = req.ident) ∧
      m'.ctrls = m.ctrls ∧ m'.logicLayers = (m.setLink l s k').logicLayers ∧
      m'.memReqCount = m.memReqCount ∧ m'.events = m.events ++ new := by
  cases h with
  | @idle k k' hlink hinput houtput =>
    exact ⟨k, k', [], hlink, hinput, by rw [houtput]; exact List.Subset.refl _,
      (fun _ hreq => by cases hreq), rfl, rfl, rfl, (append_nil _).symm⟩
  | @dropped k k' packet rest hlink hbuffer hinput houtput hflow =>
    exact ⟨k, k', [], hlink, hinput, by rw [houtput, hbuffer]; exact subset_cons_self ..,
      (fun _ hreq => by cases hreq), rfl, rfl, rfl, (append_nil _).symm⟩
  | @data k k' packet rest rtc pool hlink hbuffer hinput houtput htype hslid hpool =>
    refine ⟨k, k', _, hlink, hinput, by rw [houtput, hbuffer]; exact subset_cons_self ..,
      ?_, rfl, rfl, rfl, rfl⟩
    intro req hreq
    refine ⟨packet, mem_of_eq_cons hbuffer, ?_⟩
    rcases mem_cons.mp hreq with hreq | hreq
    · cases hreq
    · split at hreq
      · cases mem_singleton.mp hreq
        rfl
      · cases hreq

theorem Every.link (h : Every P m) (hticked : LinkTicked m l s m') : Every P m' := by
  obtain ⟨k, k', new, hlink, hinput, houtput, hnew, hctrls, hlayers, -, hevents⟩ :=
    hticked.shrinks
  have hlinks : Every P (m.setLink l s k') := by
    apply h.setLink hlink
    · rw [hinput]
      exact h.input l s k hlink
    · intro p hp
      exact h.output l s k hlink p (houtput hp)
  have hlogged : Every P { m.setLink l s k' with events := m.events ++ new } := by
    apply hlinks.log
    intro req hreq
    obtain ⟨p, hp, hident⟩ := hnew req hreq
    rw [← hident]
    exact h.output l s k hlink p hp
  exact hlogged.frame hctrls hlayers hevents

theorem Every.forward (hsound : Sound m) (h : Every P m) (hforward : Forwarded cfg m l s m') :
    Every P m' := by
  cases hforward with
  | idle => exact h
  | @offered k k' packet packet' rest v c c' accepted hlink hbuffer hv hctrl hreceive hinput
      houtput =>
      have hmem : packet ∈ k.slave.inputBuffer := mem_of_eq_cons hbuffer
      have hpacket : P packet.req.ident := h.input l s k hlink packet hmem
      obtain ⟨hident, hresponses, hheld⟩ :=
        Controller.receive_held (hsound.input l s k hlink packet hmem) hreceive
      have hctrls : Every P (m.setCtrl v c') := by
        apply h.setCtrl hctrl
        · intro r hr
          rcases hheld r hr with hr | hr
          · exact h.held v c hctrl r hr
          · rw [hr]
            exact hpacket
        · rw [hresponses]
          exact h.response v c hctrl
      apply hctrls.setLink (k := k) hlink
      · have hrest : ∀ p ∈ rest, P p.req.ident := fun p hp =>
          h.input l s k hlink p (mem_of_eq_cons_of_mem hbuffer hp)
        rw [hinput]
        intro p hp
        split at hp
        · exact hrest p hp
        · rcases mem_cons.mp hp with rfl | hp
          · rw [hident]
            exact hpacket
          · exact hrest p hp
      · rw [houtput]
        exact h.output l s k hlink

theorem Every.backward (h : Every P m) (hbackward : Backward m l v m') : Every P m' := by
  cases hbackward with
  | idle => exact h
  | @moved c packet rest s k hctrl hbuffer hs hlink _ =>
    have hlinks : Every P (m.setLink l s { k with
        master.outputBuffer := k.master.outputBuffer ++ [packet] }) := by
      apply h.setLink hlink
      · exact h.input l s k hlink
      · exact forall_mem_concat (h.output l s k hlink)
          (h.response v c hctrl packet (mem_of_eq_cons hbuffer))
    apply hlinks.setCtrl (c := c) hctrl
    · exact h.held v c hctrl
    · intro p hp
      exact h.response v c hctrl p (mem_of_eq_cons_of_mem hbuffer hp)

variable {junk : Nat → Int}

theorem Every.step (hsound : Sound m) (h : Every P m) (hstep : Step cfg junk m m') :
    Every P m' := by
  cases hstep with
  | clock => exact ⟨h.input, h.held, h.response, h.output, h.callback⟩
  | @ctrl v c c' done hctrl htick =>
    obtain ⟨-, outs, hmoves⟩ := ((hsound.vault v c hctrl).tick cfg.ctrl (junk v)).result htick
    have hctrls : Every P (m.setCtrl v c') := by
      apply h.setCtrl hctrl
      · intro r hr
        obtain ⟨r₀, hr₀, hident⟩ := hmoves.mem_held hr
        rw [← hident]
        exact h.held v c hctrl r₀ hr₀
      · rw [hmoves.responses]
        intro p hp
        rcases mem_append.mp hp with hp | hp
        · exact h.response v c hctrl p hp
        · obtain ⟨r₀, hr₀, hident⟩ := hmoves.mem_held_of_out hp
          rw [← hident]
          exact h.held v c hctrl r₀ hr₀
    apply hctrls.log
    intro req hreq
    obtain ⟨r, hr, heq⟩ := mem_map.mp hreq
    cases heq
    obtain ⟨r₀, hr₀, hident⟩ := hmoves.mem_held_of_done hr
    rw [← hident]
    exact h.held v c hctrl r₀ hr₀
  | link hticked => exact h.link hticked
  | forward hforward => exact h.forward hsound hforward
  | backward hbackward => exact h.backward hbackward

/-! ## PIM mode -/

structure PimInv (m : Memory) : Prop where
  vault : ∀ (v : Nat) (c : Controller), m.ctrls[v]? = some c → c.VaultInv
  fresh : ∀ (v : Nat) (c : Controller), m.ctrls[v]? = some c → ∀ r ∈ c.held, r.reqid < m.memReqCount
  response : ∀ (v : Nat) (c : Controller), m.ctrls[v]? = some c →
    ∀ p ∈ c.responsePacketsBuffer, p.req.type = .write
  input : ∀ l s k, m.link? l s = some k → k.slave.inputBuffer = []
  output : ∀ l s k, m.link? l s = some k → ∀ p ∈ k.master.outputBuffer, p.req.type = .write

theorem PimInv.sound (h : PimInv m) : Sound m where
  vault := h.vault
  input l s k hk p hp := by
    rw [h.input l s k hk] at hp
    cases hp

theorem PimInv.setLink {k k' : Link} (h : PimInv m) (hlink : m.link? l s = some k)
    (hinput : k'.slave.inputBuffer = [])
    (houtput : ∀ p ∈ k'.master.outputBuffer, p.req.type = .write) : PimInv (m.setLink l s k') where
  vault := h.vault
  fresh := h.fresh
  response := h.response
  input := forall_setLink hlink h.input hinput
  output := forall_setLink hlink h.output houtput

theorem PimInv.setCtrl {c c' : Controller} (h : PimInv m) (hctrl : m.ctrls[v]? = some c)
    (hinv : c'.VaultInv) (hfresh : ∀ r ∈ c'.held, r.reqid < m.memReqCount)
    (hresponse : ∀ p ∈ c'.responsePacketsBuffer, p.req.type = .write) :
    PimInv (m.setCtrl v c') where
  vault := forall_setCtrl hctrl h.vault hinv
  fresh := forall_setCtrl hctrl h.fresh hfresh
  response := forall_setCtrl hctrl h.response hresponse
  input := h.input
  output := h.output

/-- The invariant does not look at the pools, the clock and the log. -/
theorem PimInv.frame (h : PimInv m) (hctrls : m'.ctrls = m.ctrls)
    (hlayers : m'.logicLayers = m.logicLayers) (hcount : m'.memReqCount = m.memReqCount) :
    PimInv m' where
  vault := by
    rw [hctrls]
    exact h.vault
  fresh := by
    rw [hctrls, hcount]
    exact h.fresh
  response := by
    rw [hctrls]
    exact h.response
  input := by
    unfold link?
    rw [hlayers]
    exact h.input
  output := by
    unfold link?
    rw [hlayers]
    exact h.output

theorem PimInv.link (h : PimInv m) (hticked : LinkTicked m l s m') : PimInv m' := by
  obtain ⟨k, k', -, hlink, hinput, houtput, -, hctrls, hlayers, hcount, -⟩ := hticked.shrinks
  have hlinks : PimInv (m.setLink l s k') := by
    apply h.setLink hlink
    · rw [hinput]
      exact h.input l s k hlink
    · intro p hp
      exact h.output l s k hlink p (houtput hp)
  exact hlinks.frame hctrls hlayers hcount

theorem PimInv.backward (h : PimInv m) (hbackward : Backward m l v m') : PimInv m' := by
  cases hbackward with
  | idle => exact h
  | @moved c packet rest s k hctrl hbuffer hs hlink _ =>
    have hpackets : ∀ p ∈ packet :: rest, p.req.type = .write := by
      rw [← hbuffer]
      exact h.response v c hctrl
    have hlinks : PimInv (m.setLink l s { k with
        master.outputBuffer := k.master.outputBuffer ++ [packet] }) := by
      apply h.setLink hlink
      · exact h.input l s k hlink
      · exact forall_mem_concat (h.output l s k hlink) (hpackets packet mem_cons_self)
    have hinv := h.vault v c hctrl
    apply hlinks.setCtrl (c := c) hctrl
    · exact ⟨⟨hinv.kinds.reads, hinv.kinds.writes, hinv.kinds.others, hinv.kinds.pending⟩,
        hinv.nodup, hinv.known⟩
    · exact h.fresh v c hctrl
    · intro p hp
      exact hpackets p (mem_cons_of_mem _ hp)

theorem PimInv.step (hpim : cfg.ctrl.pimModeEnabled = true) (h : PimInv m)
    (hstep : Step cfg junk m m') : PimInv m' := by
  cases hstep with
  | clock => exact h.frame rfl rfl rfl
  | @ctrl v c c' done hctrl htick =>
    obtain ⟨hinv, outs, hmoves⟩ := ((h.vault v c hctrl).tick cfg.ctrl (junk v)).result htick
    have hctrls : PimInv (m.setCtrl v c') := by
      apply h.setCtrl hctrl hinv
      · intro r hr
        obtain ⟨r₀, hr₀, hident⟩ := hmoves.mem_held hr
        rw [← Request.reqid_eq_of_ident hident]
        exact h.fresh v c hctrl r₀ hr₀
      · rw [hmoves.responses]
        intro p hp
        rcases mem_append.mp hp with hp | hp
        · exact h.response v c hctrl p hp
        · exact hmoves.pim hpim p hp
    exact hctrls.frame rfl rfl rfl
  | link hticked => exact h.link hticked
  | forward hforward =>
    cases hforward with
    | idle => exact h
    | @offered k k' packet packet' rest v c c' accepted hlink hbuffer =>
      rw [h.input _ _ k hlink] at hbuffer
      cases hbuffer
  | backward hbackward => exact h.backward hbackward

/-- A request that was held in `m₀` is still held, was a write that is answered,
    or was called back. -/
def Retained (m₀ : Memory) (r : Request) (m : Memory) (new : List Event) : Prop :=
  m₀.Held r → (∃ r', m.Held r' ∧ r'.ident = r.ident) ∨ r.type = .write ∨
    ∃ req, .callback req ∈ new ∧ req.ident = r.ident

theorem Retained.frame {new : List Event} (h : Retained m₀ r m new)
    (hheld : ∀ r, m.Held r → m'.Held r) {new' : List Event} (hnew : ∀ e ∈ new, e ∈ new') :
    Retained m₀ r m' new' := by
  intro hr
  rcases h hr with ⟨r', hr', hident⟩ | hwrite | ⟨req, hreq, hident⟩
  · exact Or.inl ⟨r', hheld r' hr', hident⟩
  · exact Or.inr (Or.inl hwrite)
  · exact Or.inr (Or.inr ⟨req, hnew _ hreq, hident⟩)

theorem Held.setCtrl {c c' : Controller} (h : m.Held r) (hctrl : m.ctrls[v]? = some c)
    (hheld : r ∈ c.held → r ∈ c'.held) : (m.setCtrl v c').Held r := by
  obtain ⟨v₀, c₀, hc₀, hr⟩ := h
  by_cases hv : v₀ = v
  · subst hv
    rw [hctrl] at hc₀
    cases hc₀
    exact ⟨v₀, c', ctrls_setCtrl_self hctrl c', hheld hr⟩
  · refine ⟨v₀, c₀, ?_, hr⟩
    rw [ctrls_setCtrl hctrl, if_neg hv]
    exact hc₀

theorem Retained.step {new : List Event} (hpim : cfg.ctrl.pimModeEnabled = true) (hinv : PimInv m)
    (hstep : Step cfg junk m m') (h : ∀ r, Retained m₀ r m new) :
    ∃ more, m'.events = m.events ++ more ∧ ∀ r, Retained m₀ r m' (new ++ more) := by
  have hsame : m'.events = m.events → (∀ r, m.Held r → m'.Held r) →
      ∃ more, m'.events = m.events ++ more ∧ ∀ r, Retained m₀ r m' (new ++ more) := by
    intro hevents hheld
    refine ⟨[], by rw [hevents, append_nil], fun r => ?_⟩
    exact (h r).frame hheld (fun e he => by rw [append_nil]; exact he)
  cases hstep with
  | clock => exact hsame rfl (fun _ hr => hr)
  | @ctrl v c c' done hctrl htick =>
    obtain ⟨-, outs, hmoves⟩ := ((hinv.vault v c hctrl).tick cfg.ctrl (junk v)).result htick
    refine ⟨done.map .callback, rfl, fun r hr₀ => ?_⟩
    rcases h r hr₀ with ⟨r₁, ⟨v₁, c₁, hc₁, hr₁⟩, hident⟩ | hwrite | ⟨req, hreq, hident⟩
    · by_cases hv : v₁ = v
      · subst hv
        rw [hctrl] at hc₁
        cases hc₁
        rcases hmoves.cases_of_held hr₁ with ⟨r₂, hr₂, hident₂⟩ | ⟨p, hp, hident₂⟩ |
            ⟨r₂, hr₂, hident₂⟩
        · exact Or.inl ⟨r₂, ⟨v₁, c', ctrls_setCtrl_self hctrl c', hr₂⟩, hident₂.trans hident⟩
        · -- only writes are answered
          have hwrite := hmoves.pim hpim p hp
          rw [Request.type_eq_of_ident (hident₂.trans hident)] at hwrite
          exact Or.inr (Or.inl hwrite)
        · exact Or.inr (Or.inr ⟨r₂, mem_append_right _ (mem_map_of_mem hr₂), hident₂.trans hident⟩)
      · refine Or.inl ⟨r₁, ⟨v₁, c₁, ?_, hr₁⟩, hident⟩
        show (m.setCtrl v c').ctrls[v₁]? = some c₁
        rw [ctrls_setCtrl hctrl, if_neg hv]
        exact hc₁
    · exact Or.inr (Or.inl hwrite)
    · exact Or.inr (Or.inr ⟨req, mem_append_left _ hreq, hident⟩)
  | link hticked =>
    cases hticked with
    | idle => exact hsame rfl (fun _ hr => hr)
    | dropped => exact hsame rfl (fun _ hr => hr)
    | data =>
      refine ⟨_, rfl, fun r => ?_⟩
      exact (h r).frame (fun _ hr => hr) (fun e he => mem_append_left _ he)
  | forward hforward =>
    cases hforward with
    | idle => exact hsame rfl (fun _ hr => hr)
    | @offered k k' packet packet' rest v c c' accepted hlink hbuffer =>
      rw [hinv.input _ _ k hlink] at hbuffer
      cases hbuffer
  | @backward l v m' hbackward =>
    cases hbackward with
    | idle => exact hsame rfl (fun _ hr => hr)
    | @moved c packet rest s k hctrl hbuffer hs hlink _ =>
      apply hsame rfl
      intro r hr
      have hr' : (m.setLink l s { k with
          master.outputBuffer := k.master.outputBuffer ++ [packet] }).Held r := hr
      exact hr'.setCtrl (c := c) hctrl (fun hheld => hheld)

/-- One cycle in PIM mode: a read is held until its callback runs. -/
theorem PimInv.tick (hpim : cfg.ctrl.pimModeEnabled = true) (h : PimInv m) (hevery : Every P m)
    (htick : m.tick cfg junk = .ok m') : PimInv m' ∧ Every P m' ∧
      ∃ new, m'.events = m.events ++ new ∧ ∀ r, Retained m r m' new := by
  have hends : Yields (m.tick cfg junk) (fun m' => PimInv m' ∧ Every P m' ∧
        ∃ new, m'.events = m.events ++ new ∧ ∀ r, Retained m r m' new) := by
    apply tick_ends (I := fun m' => PimInv m' ∧ Every P m' ∧
        ∃ new, m'.events = m.events ++ new ∧ ∀ r, Retained m r m' new)
    · rintro m₁ m₂ ⟨h₁, hevery₁, new, hevents, hretained⟩ hstep
      obtain ⟨more, hmore, hretained'⟩ := Retained.step hpim h₁ hstep hretained
      refine ⟨h₁.step hpim hstep, hevery₁.step h₁.sound hstep, new ++ more, ?_, hretained'⟩
      rw [hmore, hevents, append_assoc]
    · intro _ _ _ _
      trivial
    · refine ⟨h, hevery, [], (append_nil _).symm, ?_⟩
      intro r hr
      exact Or.inl ⟨r, hr, rfl⟩
  exact hends.result htick

/-! ## Requests in, PIM mode -/

/-- `send` in PIM mode: the vault of the request takes it. -/
inductive PimSent (cfg : MemoryConfig) (m : Memory) (req : Request) : Memory → Prop
  | mk {packet packet' : Packet} {m₁ : Memory} {v : Nat} {c c' : Controller}
      (hformed : Formed cfg m (m.prepare cfg req) packet m₁) (hctrl : m.ctrls[v]? = some c)
      (hreceive : c.receive cfg.ctrl packet = .ok (true, packet', c')) :
      PimSent cfg m req { m₁.setCtrl v c' with memReqCount := m.memReqCount + 1 }

theorem enqueue_isSome {cfg : ControllerConfig} (hpim : cfg.pimModeEnabled = true)
    (c : Controller) (req : Request) : (c.enqueue cfg req).isSome = true := by
  unfold Controller.enqueue
  rw [if_neg (by simp [hpim])]
  dsimp only
  split
  · rfl
  · rfl

theorem sendPim_ends (hpim : cfg.ctrl.pimModeEnabled = true) (m : Memory) (req : Request) :
    Yields (m.send cfg req) (fun out => out.1 = true ∧ PimSent cfg m req out.2) := by
  unfold send
  apply Ends.bind ((formRequestPacket_ends cfg m _).ignore)
  rintro ⟨packet, m₁⟩ hformed
  dsimp only at hformed ⊢
  rw [if_pos hpim]
  obtain ⟨s, -, -, pool, -, -, hm₁⟩ := hformed.slid
  apply Ends.bind ((Vec.at_ends m₁.ctrls _).ignore)
  rintro c ⟨hv, hctrl⟩
  obtain ⟨v, hvault⟩ := Int.eq_ofNat_of_zero_le hv
  rw [hvault, Int.toNat_natCast] at hctrl
  have hctrl' : m.ctrls[v]? = some c := by
    rw [← hctrl, hm₁]
    rfl
  apply Ends.bind (Q := fun out => c.receive cfg.ctrl packet = .ok out) (Ends.ran _)
  rintro ⟨accepted, packet', c'⟩ hreceive
  have haccepted : accepted = true := by
    obtain ⟨-, -, hcases⟩ := (Controller.receive_ends cfg.ctrl c packet).result hreceive
    rcases hcases with ⟨hacc, -⟩ | ⟨-, hnone, -⟩
    · exact hacc
    · have hsome := enqueue_isSome hpim (c.buffered packet')
        (Controller.withBurst cfg.ctrl packet.req)
      rw [hnone] at hsome
      cases hsome
  subst haccepted
  apply Ends.pure
  refine ⟨rfl, ?_⟩
  have hsent := PimSent.mk hformed hctrl' hreceive
  have hcount : m₁.memReqCount = m.memReqCount := by
    rw [hm₁]
    rfl
  rw [← hcount] at hsent
  dsimp only
  rw [hvault]
  exact hsent

theorem PimInv.send {req : Request} (h : PimInv m) (hevery : Every P m)
    (hsent : PimSent cfg m req m') (hreq : P (m.prepare cfg req).ident) :
    PimInv m' ∧ Every P m' ∧ m'.events = m.events ∧ m'.memReqCount = m.memReqCount + 1 ∧
      (∃ r, m'.Held r ∧ r.ident = (m.prepare cfg req).ident) ∧
      ∀ r, m.Held r → ∃ r', m'.Held r' ∧ r'.ident = r.ident := by
  obtain ⟨hformed, hctrl, hreceive⟩ := hsent
  rename_i packet packet' m₁ v c c'
  obtain ⟨s, -, -, pool, -, -, hm₁⟩ := hformed.slid
  have hkind : packet.req.type = .read ∨ packet.req.type = .write := by
    rw [hformed.req_eq]
    exact hformed.kind
  have hid : packet.req.reqid = m.memReqCount := by
    rw [hformed.req_eq]
    rfl
  have hnew : ∀ r ∈ c.held, r.reqid ≠ packet.req.reqid := by
    intro r hr heq
    have hlt := h.fresh v c hctrl r hr
    rw [heq, hid] at hlt
    omega
  have hends : Ends (c.receive cfg.ctrl packet)
      (fun out => Controller.Received cfg.ctrl c packet out.1 out.2.1 out.2.2)
      (fun e => e = .packetType) := (h.vault v c hctrl).receive hkind hnew
  have hreceived : Controller.Received cfg.ctrl c packet true packet' c' :=
    hends.result hreceive
  obtain ⟨-, hresponses, hheld⟩ := Controller.receive_held hkind hreceive
  subst hm₁
  have hident : packet.req.ident = (m.prepare cfg req).ident := by rw [hformed.req_eq]
  have hpools : PimInv { m.setPool s pool.tail with memReqCount := m.memReqCount + 1 } :=
    ⟨h.vault, fun v c hc r hr => Int.lt_add_one_of_le (Int.le_of_lt (h.fresh v c hc r hr)),
      h.response, h.input, h.output⟩
  have hpools' : Every P { m.setPool s pool.tail with memReqCount := m.memReqCount + 1 } :=
    ⟨hevery.input, hevery.held, hevery.response, hevery.output, hevery.callback⟩
  have hcount : ∀ r : Request, 0 < c'.heldCount r.ident → ∃ r',
      (({ m.setPool s pool.tail with memReqCount := m.memReqCount + 1 } : Memory).setCtrl v
        c').Held r' ∧ r'.ident = r.ident := by
    intro r hpos
    obtain ⟨r', hr', hident'⟩ := Controller.mem_held_of_count hpos
    exact ⟨r', ⟨v, c', ctrls_setCtrl_self hctrl c', hr'⟩, hident'⟩
  refine ⟨?_, ?_, rfl, rfl, ?_, ?_⟩
  · apply hpools.setCtrl (c := c) hctrl hreceived.inv
    · intro r hr
      rcases hheld r hr with hr | hr
      · exact hpools.fresh v c hctrl r hr
      · rw [Request.reqid_eq_of_ident hr, hid]
        exact Int.lt_add_one_of_le (Int.le_refl _)
    · rw [hresponses]
      exact h.response v c hctrl
  · apply hpools'.setCtrl (c := c) hctrl
    · intro r hr
      rcases hheld r hr with hr | hr
      · exact hevery.held v c hctrl r hr
      · rw [hr, hident]
        exact hreq
    · rw [hresponses]
      exact hevery.response v c hctrl
  · rw [← hident]
    apply hcount packet.req
    have hadd := hreceived.count packet.req.ident
    rw [if_pos rfl, count_singleton_self] at hadd
    omega
  · rintro r ⟨v₀, c₀, hc₀, hr⟩
    by_cases hv : v₀ = v
    · subst hv
      rw [hctrl] at hc₀
      cases hc₀
      apply hcount r
      have hadd := hreceived.count r.ident
      have hpos := Controller.count_pos_of_mem hr
      omega
    · refine ⟨r, ⟨v₀, c₀, ?_, hr⟩, rfl⟩
      show (m.setCtrl v c').ctrls[v₀]? = some c₀
      rw [ctrls_setCtrl hctrl, if_neg hv]
      exact hc₀

theorem PimInv.new (cfg : MemoryConfig) : PimInv (Memory.new cfg) where
  vault v c hc := by
    obtain ⟨id, rfl⟩ := ctrls_new hc
    exact Controller.VaultInv.new cfg.ctrl id
  fresh v c hc r hr := by
    obtain ⟨id, rfl⟩ := ctrls_new hc
    cases hr
  response v c hc p hp := by
    obtain ⟨id, rfl⟩ := ctrls_new hc
    cases hp
  input l s k hk := by rw [link?_new hk]
  output l s k hk p hp := by
    rw [link?_new hk] at hp
    cases hp

theorem Every.new (P : Request → Prop) (cfg : MemoryConfig) : Every P (Memory.new cfg) where
  input l s k hk p hp := by
    rw [link?_new hk] at hp
    cases hp
  held v c hc r hr := by
    obtain ⟨id, rfl⟩ := ctrls_new hc
    cases hr
  response v c hc p hp := by
    obtain ⟨id, rfl⟩ := ctrls_new hc
    cases hp
  output l s k hk p hp := by
    rw [link?_new hk] at hp
    cases hp
  callback req hreq := by cases hreq

end Memory

end Ramulator
