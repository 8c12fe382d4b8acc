/-
  Ramulator.Hmc.Log

  The requests in the memory, and the list of those it has accepted.

  A request gets its place in this list as its number.  Wherever it is in the
  memory, and when its callback runs, it is the request with that place
  (`Traced`), with the address cut to the capacity.  This is true in host mode
  and in PIM mode (`LogOk`).
-/

import Ramulator.Hmc.Addresses
import Ramulator.Hmc.Requests
import Ramulator.Hmc.Conservation

namespace Ramulator

open Outcome List

namespace Memory

variable {cfg : MemoryConfig} {m m' : Memory} {log : List Request} {req : Request}
  {junk : Nat → Int}

structure Accepted (cfg : MemoryConfig) (raw r : Request) : Prop where
  addr : r.addr = cutAddr cfg raw.addr
  type : r.type = raw.type
  coreid : r.coreid = raw.coreid
  callback : r.callback = raw.callback

def Traced (cfg : MemoryConfig) (log : List Request) (r : Request) : Prop :=
  ∃ (n : Nat) (raw : Request), r.reqid = n ∧ log[n]? = some raw ∧ Accepted cfg raw r

def Inv (cfg : MemoryConfig) (m : Memory) : Prop :=
  (cfg.ctrl.pimModeEnabled = true ∧ PimInv m) ∨
    (cfg.ctrl.pimModeEnabled = false ∧ ∃ tickets, MemInv tickets m)

structure LogOk (cfg : MemoryConfig) (log : List Request) (m : Memory) : Prop where
  count : m.memReqCount = log.length
  every : Every (Traced cfg log) m
  pages : PagesOk cfg m
  inv : Inv cfg m

theorem MemInv.sound {tickets : List Ticket} (h : MemInv tickets m) : Sound m where
  vault v c hc := (h.vault v c hc).inv
  input l s k hk p hp := (h.input l s k hk p hp).kind

theorem Inv.sound (h : Inv cfg m) : Sound m := by
  rcases h with ⟨-, h⟩ | ⟨-, tickets, h⟩
  · exact h.sound
  · exact h.sound

theorem Inv.step (h : Inv cfg m) (hstep : Step cfg junk m m') : Inv cfg m' := by
  rcases h with ⟨hpim, h⟩ | ⟨hhost, tickets, h⟩
  · exact Or.inl ⟨hpim, h.step hpim hstep⟩
  · exact Or.inr ⟨hhost, tickets, h.step hhost hstep⟩

theorem Inv.pagesOnly (h : Inv cfg m) (honly : m.PagesOnly m') : Inv cfg m' := by
  obtain ⟨translation, pages, remaining, count, rfl⟩ := honly
  rcases h with ⟨hpim, h⟩ | ⟨hhost, tickets, h⟩
  · exact Or.inl ⟨hpim, h.frame rfl rfl rfl⟩
  · exact Or.inr ⟨hhost, tickets, h.located, h.ids, h.fresh, h.input, h.output, h.vault, h.log,
      h.delivered⟩

theorem Inv.new (cfg : MemoryConfig) : Inv cfg (Memory.new cfg) := by
  cases hmode : cfg.ctrl.pimModeEnabled with
  | true => exact Or.inl ⟨hmode, PimInv.new cfg⟩
  | false => exact Or.inr ⟨hmode, [], MemInv.new cfg⟩

/-! ## A memory cycle -/

theorem memReqCount_step (hstep : Step cfg junk m m') : m'.memReqCount = m.memReqCount := by
  cases hstep with
  | clock => rfl
  | ctrl => rfl
  | link hticked => cases hticked <;> rfl
  | forward hforward => cases hforward <;> rfl
  | backward hbackward => cases hbackward <;> rfl

theorem LogOk.tick (h : LogOk cfg log m) (htick : m.tick cfg junk = .ok m') : LogOk cfg log m' := by
  have hends : Yields (m.tick cfg junk)
      (fun m' => m'.memReqCount = log.length ∧ Every (Traced cfg log) m' ∧ Inv cfg m') := by
    apply tick_ends
      (I := fun m' => m'.memReqCount = log.length ∧ Every (Traced cfg log) m' ∧ Inv cfg m')
    · rintro m₁ m₂ ⟨hcount, hevery, hinv⟩ hstep
      exact ⟨(memReqCount_step hstep).trans hcount, hevery.step hinv.sound hstep, hinv.step hstep⟩
    · intro _ _ _ _
      trivial
    · exact ⟨h.count, h.every, h.inv⟩
  obtain ⟨hcount, hevery, hinv⟩ := hends.result htick
  exact ⟨hcount, hevery, h.pages.tick htick, hinv⟩

/-! ## Requests in -/

theorem Traced.append {r : Request} (h : Traced cfg log r) (more : List Request) :
    Traced cfg (log ++ more) r := by
  obtain ⟨n, raw, hid, hlog, haccepted⟩ := h
  refine ⟨n, raw, hid, ?_, haccepted⟩
  rw [getElem?_append_left (List.getElem?_eq_some_iff.mp hlog).1]
  exact hlog

theorem traced_prepare (hcount : m.memReqCount = log.length) (req : Request) :
    Traced cfg (log ++ [req]) (m.prepare cfg req).ident :=
  ⟨log.length, req, hcount, getElem?_concat_length, rfl, rfl, rfl, rfl⟩

theorem Every.accept {P : Request → Prop} {packet : Packet} {link : Link} {s : Nat}
    (h : Every P m) (hformed : Formed cfg m (m.prepare cfg req) packet m')
    (hlink : m.link? 0 s = some link) (hreq : P (m.prepare cfg req).ident) :
    Every P { m'.setLink 0 s (link.receive packet) with memReqCount := m.memReqCount + 1 } := by
  obtain ⟨slid, -, -, pool, -, -, rfl⟩ := hformed.slid
  have hflow : ¬ packet.flowControl = true := by
    rw [hformed.flowControl]
    decide
  have hpools : Every P { m.setPool slid pool.tail with memReqCount := m.memReqCount + 1 } :=
    ⟨h.input, h.held, h.response, h.output, h.callback⟩
  have hinput : ∀ p ∈ (link.receive packet).slave.inputBuffer, P p.req.ident := by
    intro p hp
    rw [Link.receive, if_neg hflow] at hp
    rcases mem_append.mp hp with hp | hp
    · exact h.input 0 s link hlink p hp
    · rw [mem_singleton.mp hp, hformed.req_eq]
      exact hreq
  have houtput : ∀ p ∈ (link.receive packet).master.outputBuffer, P p.req.ident := by
    intro p hp
    rw [Link.receive, if_neg hflow] at hp
    exact h.output 0 s link hlink p hp
  exact hpools.setLink (k := link) hlink hinput houtput

theorem LogOk.setPool (h : LogOk cfg log m) (slid : Int) (pool : List Int) :
    LogOk cfg log (m.setPool slid pool) := by
  refine ⟨h.count, ⟨h.every.input, h.every.held, h.every.response, h.every.output,
    h.every.callback⟩, ⟨h.pages.size, h.pages.page⟩, ?_⟩
  rcases h.inv with ⟨hpim, hinv⟩ | ⟨hhost, tickets, hinv⟩
  · exact Or.inl ⟨hpim, hinv.frame rfl rfl rfl⟩
  · exact Or.inr ⟨hhost, tickets, hinv.setPool slid pool⟩

theorem LogOk.send {accepted : Bool} (h : LogOk cfg log m)
    (hsend : m.send cfg req = .ok (accepted, m')) :
    LogOk cfg (if accepted then log ++ [req] else log) m' := by
  have hevery : Every (Traced cfg (log ++ [req])) m := h.every.mono (fun r hr => hr.append [req])
  have hnew : Traced cfg (log ++ [req]) (m.prepare cfg req).ident := traced_prepare h.count req
  have hcount : m.memReqCount + 1 = ((log ++ [req]).length : Nat) := by
    rw [length_append, length_singleton, h.count]
    rfl
  rcases h.inv with ⟨hpim, hinv⟩ | ⟨hhost, tickets, hinv⟩
  · obtain ⟨haccepted, hsent⟩ := (sendPim_ends hpim m req).result hsend
    dsimp only at haccepted hsent
    obtain ⟨hinv', hevery', -, hcount', -, -⟩ := hinv.send hevery hsent hnew
    have hpages : PagesOk cfg m' := by
      obtain ⟨hformed, -, -⟩ := hsent
      obtain ⟨s, -, -, pool, -, -, rfl⟩ := hformed.slid
      exact ⟨h.pages.size, h.pages.page⟩
    rw [haccepted, if_pos rfl]
    exact ⟨hcount'.trans hcount, hevery', hpages, Or.inl ⟨hpim, hinv'⟩⟩
  · have hsent : Sent cfg m req accepted m' := (send_ends hhost m req).result hsend
    have hinv' := hinv.send hsent
    cases hsent with
    | noTag hformed htag =>
      obtain ⟨s, -, -, pool, -, -, rfl⟩ := hformed.slid
      exact h.setPool _ _
    | noRoom hformed htag hs hlink hroom =>
      obtain ⟨s, -, -, pool, -, -, rfl⟩ := hformed.slid
      exact h.setPool _ _
    | accepted hformed htag hs hlink hroom =>
      refine ⟨hcount, hevery.accept hformed hlink hnew, ?_, Or.inr ⟨hhost, _, hinv'⟩⟩
      obtain ⟨s, -, -, pool, -, -, rfl⟩ := hformed.slid
      exact ⟨h.pages.size, h.pages.page⟩

theorem LogOk.pagesOnly (h : LogOk cfg log m) (honly : m.PagesOnly m') (hpages : PagesOk cfg m') :
    LogOk cfg log m' := by
  have hinv := h.inv.pagesOnly honly
  obtain ⟨translation, pages, remaining, count, rfl⟩ := honly
  exact ⟨h.count, ⟨h.every.input, h.every.held, h.every.response, h.every.output,
    h.every.callback⟩, hpages, hinv⟩

theorem LogOk.new (cfg : MemoryConfig) : LogOk cfg [] (Memory.new cfg) :=
  ⟨rfl, Every.new _ cfg, PagesOk.new cfg, Inv.new cfg⟩

end Memory

end Ramulator
