/-
  Ramulator.Hmc.Custody

  What becomes of the requests in a vault.

  A vault holds a request in its read queue, its write queue or `pending`
  (`held`).  A tick lets go of a request in two ways only: a response is formed
  for it, or, in PIM mode, its callback runs.  `Moves` says so by counting: what
  is held after the tick, what was answered and what was called back is
  together what was held before.  A request is recognised by its `ident`, the
  fields that do not change on the way.
-/

import Mathlib.Data.List.Perm.Subperm
import Ramulator.Hmc.ControllerSteps

namespace Ramulator

open Outcome List Function

variable {r : Request} {i : Nat}

namespace Request

/-- What a request keeps on its way: all but the fields that record its
    progress. -/
def ident (req : Request) : Request :=
  { req with
    isFirstCommand := true, arrive := -1, depart := 0, departHmc := 0, burstCount := 0
    transactionBytes := 0 }

variable {r' : Request}

theorem reqid_eq_of_ident (h : r.ident = r'.ident) : r.reqid = r'.reqid := by
  have hid : r.ident.reqid = r'.ident.reqid := by rw [h]
  exact hid

theorem type_eq_of_ident (h : r.ident = r'.ident) : r.type = r'.type := by
  have htype : r.ident.type = r'.ident.type := by rw [h]
  exact htype

theorem addr_eq_of_ident (h : r.ident = r'.ident) : r.addr = r'.addr := by
  have haddr : r.ident.addr = r'.ident.addr := by rw [h]
  exact haddr

theorem addrVec_eq_of_ident (h : r.ident = r'.ident) : r.addrVec = r'.addrVec := by
  have hvec : r.ident.addrVec = r'.ident.addrVec := by rw [h]
  exact hvec

end Request

open Request (ident)

namespace Controller

def held (c : Controller) : List Request := c.readq ++ c.writeq ++ c.pending

def heldCount (c : Controller) (a : Request) : Nat := (c.held.map ident).count a

structure Kinds (c : Controller) : Prop where
  reads : ∀ r ∈ c.readq, r.type = .read
  writes : ∀ r ∈ c.writeq, r.type = .write
  others : ∀ r ∈ c.otherq, r.type = .refresh
  pending : ∀ r ∈ c.pending, r.type = .read

structure VaultInv (c : Controller) : Prop where
  kinds : Kinds c
  nodup : (c.held.map Request.reqid).Nodup
  known : ∀ r ∈ c.held, (c.incomingPacketsBuffer r.reqid).isSome

/-- From `c` to `c'` the vault lets go of the requests in `outs` and of `done`. -/
structure Moves (cfg : ControllerConfig) (c c' : Controller) (done : List Request)
    (outs : List Packet) : Prop where
  responses : c'.responsePacketsBuffer = c.responsePacketsBuffer ++ outs
  count : ∀ a, c'.heldCount a + (outs.map (·.req.ident)).count a + (done.map ident).count a =
    c.heldCount a
  kept : ∀ r ∈ c'.held, c'.incomingPacketsBuffer r.reqid = c.incomingPacketsBuffer r.reqid
  out : ∀ p ∈ outs, ∃ q, c.incomingPacketsBuffer p.req.reqid = some q ∧ p = responseTo cfg q p.req
  done_reads : ∀ r ∈ done, r.type = .read
  host : cfg.pimModeEnabled = false → done = []
  pim : cfg.pimModeEnabled = true → ∀ p ∈ outs, p.req.type = .write

variable {cfg : ControllerConfig} {c c' c₁ c₂ : Controller} {req req' : Request}
  {done : List Request} {outs : List Packet} {e : Abort}

/-! ## Counting -/

theorem mem_held_of_count {a : Request} (h : 0 < c.heldCount a) : ∃ r ∈ c.held, r.ident = a := by
  obtain ⟨r, hr, heq⟩ := mem_map.mp (count_pos_iff.mp h)
  exact ⟨r, hr, heq⟩

theorem count_pos_of_mem (h : r ∈ c.held) : 0 < c.heldCount r.ident :=
  count_pos_iff.mpr (mem_map_of_mem h)

variable {type : RequestType}

section

variable (c : Controller)

theorem heldCount_setQueue (htype : type = .read ∨ type = .write) (q : List Request) (a : Request) :
    (c.setQueue type q).heldCount a + ((c.getQueue type).map ident).count a =
      c.heldCount a + (q.map ident).count a := by
  rcases htype with rfl | rfl
  · simp only [heldCount, held, setQueue, getQueue, map_append, count_append]
    omega
  · simp only [heldCount, held, setQueue, getQueue, map_append, count_append]
    omega

theorem heldCount_setQueue_other (htype : ¬ (type = .read ∨ type = .write)) (q : List Request)
    (a : Request) : (c.setQueue type q).heldCount a = c.heldCount a := by
  cases type with
  | read => exact absurd (Or.inl rfl) htype
  | write => exact absurd (Or.inr rfl) htype
  | refresh | powerdown | selfrefresh | extension | instruction => rfl

theorem heldCount_set (hi : (c.getQueue type)[i]? = some req) (hident : req'.ident = req.ident)
    (a : Request) :
    (c.setQueue type ((c.getQueue type).set i req')).heldCount a = c.heldCount a := by
  have hmap : ((c.getQueue type).set i req').map ident = (c.getQueue type).map ident := by
    obtain ⟨hlt, hget⟩ := List.getElem?_eq_some_iff.mp hi
    have hlt' : i < ((c.getQueue type).map ident).length := by simpa using hlt
    have hself := set_getElem_self hlt'
    rw [getElem_map, hget] at hself
    rw [map_set, hident, hself]
  by_cases htype : type = .read ∨ type = .write
  · have h := heldCount_setQueue c htype ((c.getQueue type).set i req') a
    rw [hmap] at h
    omega
  · exact heldCount_setQueue_other c htype _ a

theorem heldCount_eraseIdx (htype : type = .read ∨ type = .write)
    (hi : (c.getQueue type)[i]? = some req) (a : Request) :
    (c.setQueue type ((c.getQueue type).eraseIdx i)).heldCount a + [req.ident].count a =
      c.heldCount a := by
  have h := heldCount_setQueue c htype ((c.getQueue type).eraseIdx i) a
  obtain ⟨hlt, hget⟩ := List.getElem?_eq_some_iff.mp hi
  have hperm := (getElem_cons_eraseIdx_perm hlt).map ident
  rw [hget, map_cons] at hperm
  have hcount := hperm.count_eq a
  rw [count_cons] at hcount
  rw [count_cons, count_nil]
  omega

end

/-! ## Moves -/

theorem Moves.of_same (hcount : ∀ a, c'.heldCount a = c.heldCount a)
    (hincoming : c'.incomingPacketsBuffer = c.incomingPacketsBuffer)
    (hresponses : c'.responsePacketsBuffer = c.responsePacketsBuffer) : Moves cfg c c' [] [] where
  responses := by rw [hresponses, append_nil]
  count a := hcount a
  kept r _ := by rw [hincoming]
  out p hp := by cases hp
  done_reads r hr := by cases hr
  host _ := rfl
  pim _ p hp := by cases hp

theorem Moves.mem_held (h : Moves cfg c c' done outs) (hr : r ∈ c'.held) :
    ∃ r₀ ∈ c.held, r₀.ident = r.ident := by
  have hpos := count_pos_of_mem hr
  have hcount := h.count r.ident
  exact mem_held_of_count (by omega)

theorem Moves.mem_held_of_out (h : Moves cfg c c' done outs) {p : Packet} (hp : p ∈ outs) :
    ∃ r₀ ∈ c.held, r₀.ident = p.req.ident := by
  have hpos : 0 < (outs.map (·.req.ident)).count p.req.ident :=
    count_pos_iff.mpr (mem_map_of_mem hp)
  have hcount := h.count p.req.ident
  exact mem_held_of_count (by omega)

theorem Moves.trans {done₁ done₂ : List Request} {outs₁ outs₂ : List Packet}
    (h₁ : Moves cfg c c₁ done₁ outs₁) (h₂ : Moves cfg c₁ c₂ done₂ outs₂) :
    Moves cfg c c₂ (done₁ ++ done₂) (outs₁ ++ outs₂) where
  responses := by rw [h₂.responses, h₁.responses, append_assoc]
  count a := by
    have hc₁ := h₁.count a
    have hc₂ := h₂.count a
    simp only [map_append, count_append]
    omega
  kept r hr := by
    obtain ⟨r₁, hr₁, hident⟩ := h₂.mem_held hr
    have hkept := h₁.kept r₁ hr₁
    rw [Request.reqid_eq_of_ident hident] at hkept
    rw [h₂.kept r hr, hkept]
  out p hp := by
    rcases mem_append.mp hp with hp | hp
    · exact h₁.out p hp
    · obtain ⟨q, hq, hresponse⟩ := h₂.out p hp
      obtain ⟨r₁, hr₁, hident⟩ := h₂.mem_held_of_out hp
      have hkept := h₁.kept r₁ hr₁
      rw [Request.reqid_eq_of_ident hident, hq] at hkept
      exact ⟨q, hkept.symm, hresponse⟩
  done_reads r hr := by
    rcases mem_append.mp hr with hr | hr
    · exact h₁.done_reads r hr
    · exact h₂.done_reads r hr
  host hhost := by rw [h₁.host hhost, h₂.host hhost, append_nil]
  pim hpim p hp := by
    rcases mem_append.mp hp with hp | hp
    · exact h₁.pim hpim p hp
    · exact h₂.pim hpim p hp

theorem VaultInv.of_moves (h : VaultInv c) (hmoves : Moves cfg c c' done outs)
    (hkinds : Kinds c') : VaultInv c' where
  kinds := hkinds
  nodup := by
    have hsub : (c'.held.map ident).Subperm (c.held.map ident) := by
      refine subperm_ext_iff.mpr (fun a _ => ?_)
      have hcount := hmoves.count a
      unfold heldCount at hcount
      omega
    obtain ⟨l, hperm, hsublist⟩ := hsub
    have hids := hperm.map Request.reqid
    have hids₀ := hsublist.map Request.reqid
    rw [map_map] at hids hids₀
    exact hids.nodup_iff.mp (h.nodup.sublist hids₀)
  known r hr := by
    obtain ⟨r₀, hr₀, hident⟩ := hmoves.mem_held hr
    have hknown := h.known r₀ hr₀
    rw [hmoves.kept r hr, ← Request.reqid_eq_of_ident hident]
    exact hknown

theorem VaultInv.kept_of_leave (h : VaultInv c) {r₀ : Request} (hr₀ : r₀ ∈ c.held)
    (hcount : ∀ a, c'.heldCount a + [r₀.ident].count a = c.heldCount a)
    (hincoming : c'.incomingPacketsBuffer = update c.incomingPacketsBuffer r₀.reqid none) :
    ∀ r ∈ c'.held, c'.incomingPacketsBuffer r.reqid = c.incomingPacketsBuffer r.reqid := by
  intro r hr
  have hne : r.reqid ≠ r₀.reqid := by
    intro heq
    have hpos := count_pos_of_mem hr
    have hleave := hcount r.ident
    -- the number is held once, so the two are the same request, held twice
    obtain ⟨r₁, hr₁, hident⟩ := mem_held_of_count (c := c) (a := r.ident) (by omega)
    have hsame : r₁ = r₀ := by
      refine inj_on_of_nodup_map h.nodup hr₁ hr₀ ?_
      rw [Request.reqid_eq_of_ident hident, heq]
    rw [hsame] at hident
    rw [← hident] at hleave hpos
    have honce : c.heldCount r₀.ident ≤ 1 := by
      have hnodup : (c.held.map ident).Nodup := by
        have hmap : ((c.held.map ident).map Request.reqid).Nodup := by
          rw [map_map]
          exact h.nodup
        exact List.Nodup.of_map _ hmap
      exact nodup_iff_count_le_one.mp hnodup _
    rw [count_singleton_self] at hleave
    omega
  rw [hincoming, update_of_ne hne]

/-! ## The steps of a tick -/

theorem heldCount_tail {rest : List Request} (hpending : c.pending = req :: rest)
    (hread : c'.readq = c.readq) (hwrite : c'.writeq = c.writeq) (hrest : c'.pending = rest)
    (a : Request) : c'.heldCount a + [req.ident].count a = c.heldCount a := by
  simp only [heldCount, held, hread, hwrite, hrest, hpending, map_append, map_cons,
    count_append, count_cons, count_nil]
  omega

theorem VaultInv.served (h : VaultInv c) (hserved : Served cfg c done c') :
    VaultInv c' ∧ c'.otherq = c.otherq ∧ ∃ outs, Moves cfg c c' done outs := by
  cases hserved with
  | idle => exact ⟨h, rfl, [], Moves.of_same (fun _ => rfl) rfl rfl⟩
  | @callback req rest channel hpim hpending hdue hrel htype hlookup =>
    have hmem : req ∈ c.held := by simp [held, hpending]
    have hread : req.type = .read := h.kinds.pending req (by simp [hpending])
    have hcount : ∀ a, heldCount { c with
        channel
        incomingPacketsBuffer := update c.incomingPacketsBuffer req.reqid none
        pending := rest } a + [req.ident].count a = c.heldCount a :=
      heldCount_tail hpending rfl rfl rfl
    have hmoves : Moves cfg c { c with
        channel
        incomingPacketsBuffer := update c.incomingPacketsBuffer req.reqid none
        pending := rest } [{ req with departHmc := c.clk }] [] :=
      { responses := (append_nil _).symm
        count := hcount
        kept := h.kept_of_leave hmem hcount rfl
        out := fun p hp => by cases hp
        done_reads := fun r hr => by
          rw [mem_singleton.mp hr]
          exact hread
        host := fun hhost => by
          rw [hhost] at hpim
          cases hpim
        pim := fun _ p hp => by cases hp }
    refine ⟨h.of_moves hmoves ⟨h.kinds.reads, h.kinds.writes, h.kinds.others, ?_⟩, rfl, [], hmoves⟩
    intro r hr
    exact h.kinds.pending r (mem_of_eq_cons_of_mem hpending hr)
  | @stuck req rest channel hpim hpending hdue hrel htype =>
    have hread : req.type = .read := h.kinds.pending req (by simp [hpending])
    exact absurd (Or.inl hread) htype
  | @response req rest channel reqPacket hpim hpending hdue hrel hlookup =>
    have hmem : req ∈ c.held := by simp [held, hpending]
    have hcount : ∀ a, heldCount { c.responded cfg reqPacket req with
        channel, pending := rest } a + [req.ident].count a = c.heldCount a :=
      heldCount_tail hpending rfl rfl rfl
    have hmoves : Moves cfg c { c.responded cfg reqPacket req with channel, pending := rest }
        [] [responseTo cfg reqPacket req] :=
      { responses := rfl
        count := hcount
        kept := h.kept_of_leave hmem hcount rfl
        out := fun p hp => by
          rw [mem_singleton.mp hp]
          exact ⟨reqPacket, hlookup, rfl⟩
        done_reads := fun r hr => by cases hr
        host := fun _ => rfl
        pim := fun hpim' => by
          rw [hpim] at hpim'
          cases hpim' }
    refine ⟨h.of_moves hmoves ⟨h.kinds.reads, h.kinds.writes, h.kinds.others, ?_⟩, rfl, _, hmoves⟩
    intro r hr
    exact h.kinds.pending r (mem_of_eq_cons_of_mem hpending hr)

def kindOf : RequestType → RequestType
  | .read => .read
  | .write => .write
  | _ => .refresh

theorem kindOf_eq_read (h : kindOf type = .read) : type = .read := by
  cases type <;> first | rfl | cases h

theorem kindOf_eq_write (h : kindOf type = .write) : type = .write := by
  cases type <;> first | rfl | cases h

theorem Kinds.getQueue (h : Kinds c) : ∀ r ∈ c.getQueue type, r.type = kindOf type := by
  cases type with
  | read => exact h.reads
  | write => exact h.writes
  | refresh | powerdown | selfrefresh | extension | instruction => exact h.others

theorem Kinds.setQueue (h : Kinds c) {q : List Request} (hq : ∀ r ∈ q, r.type = kindOf type) :
    Kinds (c.setQueue type q) := by
  cases type with
  | read => exact ⟨hq, h.writes, h.others, h.pending⟩
  | write => exact ⟨h.reads, hq, h.others, h.pending⟩
  | refresh | powerdown | selfrefresh | extension | instruction =>
    exact ⟨h.reads, h.writes, hq, h.pending⟩

theorem Kinds.set (h : Kinds c) (htype : req'.type = kindOf type) :
    Kinds (c.setQueue type ((c.getQueue type).set i req')) := by
  refine h.setQueue (fun r hr => ?_)
  rcases mem_or_eq_of_mem_set hr with hr | rfl
  · exact h.getQueue r hr
  · exact htype

theorem Kinds.eraseIdx (h : Kinds c) (type : RequestType) (i : Nat) :
    Kinds (c.setQueue type ((c.getQueue type).eraseIdx i)) :=
  h.setQueue fun r hr => h.getQueue r (mem_of_mem_eraseIdx hr)

theorem setQueue_buffers (c : Controller) (type : RequestType) (q : List Request) :
    (c.setQueue type q).incomingPacketsBuffer = c.incomingPacketsBuffer ∧
      (c.setQueue type q).responsePacketsBuffer = c.responsePacketsBuffer := by
  cases type <;> exact ⟨rfl, rfl⟩

theorem mem_held_of_getQueue (htype : type = .read ∨ type = .write) (hreq : req ∈ c.getQueue type) :
    req ∈ c.held := by
  rcases htype with rfl | rfl
  · exact mem_append_left _ (mem_append_left _ hreq)
  · exact mem_append_left _ (mem_append_right _ hreq)

theorem VaultInv.set (h : VaultInv c) (hi : (c.getQueue type)[i]? = some req) (req' : Request)
    (hident : req'.ident = req.ident) : VaultInv (c.setQueue type ((c.getQueue type).set i req')) ∧
      Moves cfg c (c.setQueue type ((c.getQueue type).set i req')) [] [] := by
  obtain ⟨hincoming, hresponses⟩ := setQueue_buffers c type ((c.getQueue type).set i req')
  have hmoves : Moves cfg c (c.setQueue type ((c.getQueue type).set i req')) [] [] :=
    Moves.of_same (heldCount_set c hi hident) hincoming hresponses
  refine ⟨h.of_moves hmoves (h.kinds.set ?_), hmoves⟩
  rw [Request.type_eq_of_ident hident]
  exact h.kinds.getQueue req (mem_of_getElem? hi)

theorem Counted.queues {req₁ : Request} (h : Counted cfg c req req₁ c') :
    req₁.ident = req.ident ∧ (∀ type, c'.getQueue type = c.getQueue type) ∧
      c'.cmdTrace = c.cmdTrace ∧
      (req.type = .read ∨ req.type = .write → req₁.burstCount = req.burstCount - 1) := by
  cases h with
  | more htype _ => exact ⟨rfl, fun _ => rfl, rfl, fun _ => rfl⟩
  | read htype _ hreq =>
    subst hreq
    exact ⟨rfl, fun type => by cases type <;> rfl, rfl, fun _ => rfl⟩
  | write htype _ hreq _ _ =>
    subst hreq
    exact ⟨rfl, fun type => by cases type <;> rfl, rfl, fun _ => rfl⟩
  | other htype => exact ⟨rfl, fun _ => rfl, rfl, fun h => absurd h htype⟩

/-- The end of a burst: the request stays, goes to `pending` or is answered. -/
theorem VaultInv.finish (h : VaultInv c) (hi : (c.getQueue type)[i]? = some req)
    (hcounted : Counted cfg c req req' c₁) : VaultInv (c₁.leaveQueue type i req') ∧
      ∃ outs, Moves cfg c (c₁.leaveQueue type i req') [] outs := by
  have hkind : req.type = kindOf type := h.kinds.getQueue req (mem_of_getElem? hi)
  cases hcounted with
  | more htype hmore =>
    rw [Controller.leaveQueue, if_neg hmore]
    obtain ⟨hinv, hmoves⟩ := h.set hi { req with burstCount := req.burstCount - 1 } rfl
    exact ⟨hinv, [], hmoves⟩
  | other htype =>
    have hother : ¬ (type = .read ∨ type = .write) := by
      rintro (rfl | rfl)
      · exact htype (Or.inl hkind)
      · exact htype (Or.inr hkind)
    unfold Controller.leaveQueue
    split
    · obtain ⟨hincoming, hresponses⟩ := setQueue_buffers c type ((c.getQueue type).eraseIdx i)
      have hmoves : Moves cfg c (c.setQueue type ((c.getQueue type).eraseIdx i)) [] [] :=
        Moves.of_same (heldCount_setQueue_other c hother _) hincoming hresponses
      exact ⟨h.of_moves hmoves (h.kinds.eraseIdx type i), [], hmoves⟩
    · obtain ⟨hinv, hmoves⟩ := h.set hi req rfl
      exact ⟨hinv, [], hmoves⟩
  | read htype hdone hreq =>
    have htype' : type = .read := kindOf_eq_read (hkind.symm.trans htype)
    subst htype' hreq
    rw [Controller.leaveQueue, if_pos hdone]
    have herase := heldCount_eraseIdx c (Or.inl rfl) hi
    have hmoves : Moves cfg c (setQueue { c with pending := c.pending ++ [{ req with
        burstCount := req.burstCount - 1, depart := c.clk + cfg.hmc.readLatency }] }
        .read (c.readq.eraseIdx i)) [] [] := by
      refine Moves.of_same (fun a => ?_) rfl rfl
      have ha := herase a
      simp only [heldCount, held, Controller.setQueue, Controller.getQueue, map_append,
        count_append, map_cons, map_nil] at ha ⊢
      have hsame : ident { req with
        burstCount := req.burstCount - 1, depart := c.clk + cfg.hmc.readLatency } =
          req.ident := rfl
      rw [hsame]
      omega
    have hkinds := h.kinds.eraseIdx .read i
    refine ⟨h.of_moves hmoves ⟨hkinds.reads, hkinds.writes, hkinds.others, ?_⟩, [], hmoves⟩
    exact forall_mem_concat h.kinds.pending htype
  | @write _ reqPacket channel htype hdone hreq hlookup hrel =>
    have htype' : type = .write := kindOf_eq_write (hkind.symm.trans htype)
    subst htype' hreq
    rw [Controller.leaveQueue, if_pos hdone]
    have herase := heldCount_eraseIdx c (Or.inr rfl) hi
    have hmem := mem_held_of_getQueue (Or.inr rfl) (mem_of_getElem? hi)
    have hmoves : Moves cfg c (setQueue { c.responded cfg reqPacket { req with
        burstCount := req.burstCount - 1 } with channel } .write (c.writeq.eraseIdx i)) []
        [responseTo cfg reqPacket { req with burstCount := req.burstCount - 1 }] :=
      { responses := rfl
        count := herase
        kept := h.kept_of_leave hmem herase rfl
        out := fun p hp => by
          rw [mem_singleton.mp hp]
          exact ⟨reqPacket, hlookup, rfl⟩
        done_reads := fun r hr => by cases hr
        host := fun _ => rfl
        pim := fun _ p hp => by
          rw [mem_singleton.mp hp]
          exact htype }
    have hkinds := h.kinds.eraseIdx .write i
    exact ⟨h.of_moves hmoves ⟨hkinds.reads, hkinds.writes, hkinds.others, hkinds.pending⟩, _,
      hmoves⟩

/-! ## One tick -/

/-- A step that touches neither the queues nor the buffers. -/
theorem VaultInv.frame (h : VaultInv c) (hread : c'.readq = c.readq)
    (hwrite : c'.writeq = c.writeq) (hpending : c'.pending = c.pending)
    (hothers : ∀ r ∈ c'.otherq, r.type = .refresh)
    (hincoming : c'.incomingPacketsBuffer = c.incomingPacketsBuffer)
    (hresponses : c'.responsePacketsBuffer = c.responsePacketsBuffer) :
    VaultInv c' ∧ Moves cfg c c' [] [] := by
  have hheld : c'.held = c.held := by simp only [held, hread, hwrite, hpending]
  have hmoves : Moves cfg c c' [] [] :=
    Moves.of_same (fun a => by rw [heldCount, hheld, heldCount]) hincoming hresponses
  refine ⟨h.of_moves hmoves ⟨?_, ?_, hothers, ?_⟩, hmoves⟩
  · rw [hread]
    exact h.kinds.reads
  · rw [hwrite]
    exact h.kinds.writes
  · rw [hpending]
    exact h.kinds.pending

theorem isServing_ne_responseLookup (h : e.isServing = true) : e ≠ .responseLookup := by
  rintro rfl
  cases h

theorem isRowTable_ne_responseLookup (h : e.isRowTable = true) : e ≠ .responseLookup := by
  rintro rfl
  cases h

/-- The vault after some steps of a tick that began in `c₀`. -/
def Kept (cfg : ControllerConfig) (c₀ : Controller) (done : List Request) (c : Controller) :
    Prop :=
  VaultInv c ∧ ∃ outs, Moves cfg c₀ c done outs

section

variable {c₀ : Controller} (h : Kept cfg c₀ done c)
include h

theorem Kept.moves (hstep : VaultInv c' ∧ Moves cfg c c' [] outs) : Kept cfg c₀ done c' := by
  obtain ⟨-, outs₀, hmoves⟩ := h
  have hall := hmoves.trans hstep.2
  rw [append_nil] at hall
  exact ⟨hstep.1, _, hall⟩

theorem issueCmd_kept (junk : Int) (cmd : HMC.Command) (v : AddrVec) :
    Ends (c.issueCmd cfg junk cmd v) (Kept cfg c₀ done) (fun e => e ≠ .responseLookup) := by
  refine (issueCmd_ends cfg c junk cmd v).imp ?_ ?_
  · rintro _ ⟨channel, rowtable, rfl, -⟩
    exact h.moves (h.1.frame rfl rfl rfl h.1.kinds.others rfl rfl)
  · rintro e (rfl | rfl | ⟨-, herror⟩)
    · nofun
    · nofun
    · exact isRowTable_ne_responseLookup ((RowTable.update_ends _ _ _ _ _ _).abort herror)

theorem finishBurst_kept (junk : Int) (hi : (c.getQueue type)[i]? = some req) :
    Ends (c.finishBurst cfg junk type i req) (Kept cfg c₀ done) (fun e => e ≠ .responseLookup) := by
  refine (finishBurst_ends cfg c junk type i req).imp ?_ ?_
  · rintro _ ⟨req₁, c₁, hcounted, rfl⟩
    obtain ⟨hinv, outs, hmoves⟩ := h.1.finish hi hcounted
    exact h.moves ⟨hinv, hmoves⟩
  · rintro e (he | ⟨rfl, htype, hnone⟩ | rfl)
    · exact isServing_ne_responseLookup he
    · -- a queued write came in with a packet
      have hmem := mem_of_getElem? hi
      have hkind := kindOf_eq_write ((h.1.kinds.getQueue _ hmem).symm.trans htype)
      have hknown := h.1.known _ (mem_held_of_getQueue (Or.inr hkind) hmem)
      rw [hnone] at hknown
      cases hknown
    · nofun

end

theorem kept_rule (cfg : ControllerConfig) (junk : Int) (c₀ : Controller) (done : List Request) :
    IssueRule cfg junk (Kept cfg c₀ done) (Kept cfg c₀ done) (fun e => e ≠ .responseLookup) where
  idle _ h := h
  first c type i req h hi _ := by
    refine (firstCommand_ends cfg c junk hi).imp ?_ fun _ he => isServing_ne_responseLookup he
    rintro _ ⟨channel, -, rfl⟩
    have hset := h.moves (h.1.set hi (started req) rfl)
    exact hset.moves (hset.1.frame rfl rfl rfl hset.1.kinds.others rfl rfl)
  issue _ _ _ h _ := issueCmd_kept h junk _ _
  victim _ _ _ h _ _ _ := issueCmd_kept h junk _ _
  finish _ _ _ _ h hi _ _ := finishBurst_kept h junk hi

/-- One tick: requests stay, are answered or called back, and no lookup for a response fails. -/
theorem VaultInv.tick (h : VaultInv c) (cfg : ControllerConfig) (junk : Int) :
    Ends (c.tick cfg junk) (fun out => VaultInv out.2 ∧ ∃ outs, Moves cfg c out.2 out.1 outs)
      (fun e => e ≠ .responseLookup) := by
  obtain ⟨h₀, hmoves₀⟩ : VaultInv { c with clk := c.clk + 1 } ∧
      Moves cfg c { c with clk := c.clk + 1 } [] [] :=
    h.frame rfl rfl rfl h.kinds.others rfl rfl
  refine tick_rule (kept_rule cfg junk c) ?_ ?_ ?_ (by nofun) ?_
  · refine (serveCompleted_ends cfg _ junk).imp ?_ ?_
    · intro out hserved
      obtain ⟨h₁, -, outs, hmoves⟩ := h₀.served hserved
      exact ⟨h₁, outs, hmoves₀.trans hmoves⟩
    · rintro e (he | ⟨rfl, req, rest, hpending, hnone⟩ | rfl)
      · exact isServing_ne_responseLookup he
      · have hmem : req ∈ c.held := mem_append_right _ (by
          rw [show c.pending = req :: rest from hpending]
          exact mem_cons_self)
        have hknown := h.known req hmem
        rw [show c.incomingPacketsBuffer req.reqid = none from hnone] at hknown
        cases hknown
      · nofun
  · exact fun done c₁ _ _ h₁ => h₁.moves (h₁.1.frame rfl rfl rfl h₁.1.kinds.others rfl rfl)
  · refine fun done c₁ h₁ => h₁.moves (h₁.1.frame rfl rfl rfl (fun r hr => ?_) rfl rfl)
    rcases mem_append.mp hr with hr | hr
    · exact h₁.1.kinds.others r hr
    · rw [mem_singleton.mp hr]
      rfl
  · exact fun done c₁ _ h₁ _ => h₁.moves (h₁.1.frame rfl rfl rfl h₁.1.kinds.others rfl rfl)

/-! ## Requests in -/

theorem VaultInv.new (cfg : ControllerConfig) (id : Int) : VaultInv (Controller.new cfg id) where
  kinds := by
    refine ⟨?_, ?_, ?_, ?_⟩
    all_goals
      intro r hr
      cases hr
  nodup := nodup_nil
  known r hr := by cases hr

/-- A request is added whose packet is there and whose number is new. -/
theorem VaultInv.of_add (h : VaultInv c) (hkinds : Kinds c')
    (hcount : ∀ a, c'.heldCount a = c.heldCount a + [req.ident].count a)
    (hincoming : c'.incomingPacketsBuffer = c.incomingPacketsBuffer)
    (hknown : (c.incomingPacketsBuffer req.reqid).isSome)
    (hnew : ∀ r ∈ c.held, r.reqid ≠ req.reqid) : VaultInv c' := by
  have hperm : (c'.held.map ident).Perm (req.ident :: c.held.map ident) := by
    refine perm_iff_count.mpr (fun a => ?_)
    have ha := hcount a
    simp only [heldCount, count_cons, count_nil] at ha ⊢
    omega
  have hids := hperm.map Request.reqid
  rw [map_map, map_cons, map_map] at hids
  refine ⟨hkinds, hids.nodup_iff.mpr (nodup_cons.mpr ⟨?_, h.nodup⟩), ?_⟩
  · intro hmem
    obtain ⟨r, hr, heq⟩ := mem_map.mp hmem
    exact hnew r hr heq
  · intro r hr
    rw [hincoming]
    have hmem := hids.mem_iff.mp (mem_map_of_mem hr)
    rcases mem_cons.mp hmem with heq | hold
    · rw [show r.reqid = req.reqid from heq]
      exact hknown
    · obtain ⟨r₀, hr₀, heq⟩ := mem_map.mp hold
      rw [show r.reqid = r₀.reqid from heq.symm]
      exact h.known r₀ hr₀

theorem VaultInv.enqueue (h : VaultInv c) (htype : req.type = .read ∨ req.type = .write)
    (hknown : (c.incomingPacketsBuffer req.reqid).isSome)
    (hnew : ∀ r ∈ c.held, r.reqid ≠ req.reqid) (henq : c.enqueue cfg req = some c') :
    VaultInv c' ∧ c'.responsePacketsBuffer = c.responsePacketsBuffer ∧
      c'.incomingPacketsBuffer = c.incomingPacketsBuffer ∧
      ∀ a, c'.heldCount a = c.heldCount a + [req.ident].count a := by
  obtain ⟨-, rfl | ⟨hread, -, rfl⟩⟩ := enqueue_cases henq
  · obtain ⟨hincoming, hresponses⟩ := setQueue_buffers c req.type
      (c.getQueue req.type ++ [{ req with arrive := c.clk }])
    have hcount : ∀ a, (c.setQueue req.type (c.getQueue req.type ++
        [{ req with arrive := c.clk }])).heldCount a = c.heldCount a + [req.ident].count a := by
      intro a
      have ha := heldCount_setQueue c htype
        (c.getQueue req.type ++ [{ req with arrive := c.clk }]) a
      rw [map_append, count_append] at ha
      have hsame : [({ req with arrive := c.clk } : Request)].map ident = [req.ident] := rfl
      rw [hsame] at ha
      omega
    have hkind : req.type = kindOf req.type := by
      rcases htype with ht | ht <;> rw [ht] <;> rfl
    refine ⟨h.of_add (h.kinds.setQueue ?_) hcount hincoming hknown hnew, hresponses, hincoming,
      hcount⟩
    exact forall_mem_concat h.kinds.getQueue hkind
  · have hcount : ∀ a, heldCount { c with
        pending := c.pending ++ [{ req with arrive := c.clk, depart := c.clk + 1 }] } a =
          c.heldCount a + [req.ident].count a := by
      intro a
      simp only [heldCount, held, map_append, count_append]
      exact (Nat.add_assoc _ _ _).symm
    refine ⟨h.of_add ⟨h.kinds.reads, h.kinds.writes, h.kinds.others, ?_⟩ hcount rfl hknown hnew,
      rfl, rfl, hcount⟩
    exact forall_mem_concat h.kinds.pending hread

/-- What `receive` does: the packet is kept, and the request is held or refused. -/
structure Received (cfg : ControllerConfig) (c : Controller) (packet : Packet)
    (accepted : Bool) (packet' : Packet) (c' : Controller) : Prop where
  packet_eq : packet' = { packet with req := withBurst cfg packet.req }
  inv : VaultInv c'
  responses : c'.responsePacketsBuffer = c.responsePacketsBuffer
  incoming : c'.incomingPacketsBuffer =
    update c.incomingPacketsBuffer packet.req.reqid (some packet')
  count : ∀ a, c'.heldCount a = c.heldCount a + if accepted then [packet.req.ident].count a else 0

theorem VaultInv.receive (h : VaultInv c) {packet : Packet}
    (htype : packet.req.type = .read ∨ packet.req.type = .write)
    (hnew : ∀ r ∈ c.held, r.reqid ≠ packet.req.reqid) :
    Ends (c.receive cfg packet) (fun out => Received cfg c packet out.1 out.2.1 out.2.2)
      (fun e => e = .packetType) := by
  refine (receive_ends cfg c packet).imp ?_ (fun _ he => he)
  rintro ⟨accepted, packet', c'⟩ ⟨-, hpacket, hcases⟩
  dsimp only at hpacket hcases ⊢
  have hid : packet'.req.reqid = packet.req.reqid := by
    rw [hpacket]
    rfl
  have hincoming : (c.buffered packet').incomingPacketsBuffer =
      update c.incomingPacketsBuffer packet.req.reqid (some packet') := by
    rw [← hid]
    rfl
  -- keeping the packet touches no other request
  have hbuffered : VaultInv (c.buffered packet') := by
    refine ⟨⟨h.kinds.reads, h.kinds.writes, h.kinds.others, h.kinds.pending⟩, h.nodup, ?_⟩
    intro r hr
    rw [hincoming, update_of_ne (hnew r hr)]
    exact h.known r hr
  rcases hcases with ⟨rfl, henq⟩ | ⟨rfl, -, rfl⟩
  · have hknown : ((c.buffered packet').incomingPacketsBuffer packet.req.reqid).isSome := by
      rw [hincoming, update_self]
      rfl
    have htype' : (withBurst cfg packet.req).type = .read ∨
        (withBurst cfg packet.req).type = .write := htype
    obtain ⟨h', hresponses, hincoming', hcount⟩ := hbuffered.enqueue htype' hknown hnew henq
    exact ⟨hpacket, h', hresponses, hincoming'.trans hincoming, hcount⟩
  · exact ⟨hpacket, hbuffered, rfl, hincoming, fun a => rfl⟩

end Controller

end Ramulator
