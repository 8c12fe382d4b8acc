/-
  Ramulator.Hmc.Tags

  The tags of the links in host mode.

  A link starts with all tags in its pool.  A tag goes out with the packet of a
  request and should come back with the response, so pool and outstanding tags
  together should always be all tags (`TagsConserved`).

  `send` takes the tag in `form_request_packet`, before it looks for room in the
  link, and if there is none it does not put the tag back: it is lost
  (`LosesTag`).  That is the only leak.  Tags are conserved in every state of a
  run if and only if no send of the run loses one (`states_tagsConserved_iff`).
-/

import Ramulator.Hmc.Conservation

namespace Ramulator

open Outcome Custody List
open Request (ident)

variable {s : Nat} {packet : Packet}

namespace Memory

/-! ## Pools and outstanding tags -/

def outstandingTickets (tickets : List Ticket) (m : Memory) (s : Nat) : List Ticket :=
  tickets.filter fun t => decide (t.slid = s ∧ t.req.reqid ∉ m.reqidsAt .delivered)

/-- Their tags. -/
def outstanding (tickets : List Ticket) (m : Memory) (s : Nat) : List Int :=
  (outstandingTickets tickets m s).map (·.tag)

def allTags (cfg : MemoryConfig) : List Int :=
  (List.range cfg.hmc.maxTags).map fun i : Nat => (i : Int)

def TagsConserved (cfg : MemoryConfig) (st : Session) : Prop :=
  ∀ s < cfg.hmc.sourceLinks,
    (st.memory.tagsPools.getD s [] ++ outstanding st.tickets st.memory s).Perm (allTags cfg)

/-- There is a tag for the request, but no room for its packet. -/
def LosesTag (cfg : MemoryConfig) (m : Memory) (req : Request) : Prop :=
  poolOf cfg m req ≠ [] ∧ spaceOf cfg m req < flitsOf cfg req

/-- A call that ends is not a send that loses a tag. -/
def KeepsTags (cfg : MemoryConfig) (st : Session) : Op → Prop
  | .send req => Ends (st.step cfg (.send req)) (fun _ => ¬ LosesTag cfg st.memory req)
      (fun _ => True)
  | .tick _ => True

instance (cfg : MemoryConfig) (st : Session) : DecidablePred (KeepsTags cfg st)
  | .send req => inferInstanceAs (Decidable (Ends (st.step cfg (.send req))
      (fun _ => ¬ (poolOf cfg st.memory req ≠ [] ∧
        spaceOf cfg st.memory req < flitsOf cfg req)) (fun _ => True)))
  | .tick _ => inferInstanceAs (Decidable True)

variable {cfg : MemoryConfig} {tickets : List Ticket} {m m' : Memory} {st : Session}
  {junk : Nat → Int} {pool : List Int} {t : Ticket}

theorem mem_allTags {i : Nat} (h : i < cfg.hmc.maxTags) : (i : Int) ∈ allTags cfg :=
  mem_map.mpr ⟨i, mem_range.mpr h, rfl⟩

theorem TagsConserved.frame (h : TagsConserved cfg ⟨m, tickets⟩)
    (hpools : m'.tagsPools = m.tagsPools) (hdelivered : m'.deliveredPackets = m.deliveredPackets) :
    TagsConserved cfg ⟨m', tickets⟩ := by
  intro s hs
  have hreqids : m'.reqidsAt .delivered = m.reqidsAt .delivered := by
    simp only [reqidsAt, requestsAt, hdelivered]
  have hout : outstanding tickets m' s = outstanding tickets m s := by
    simp only [outstanding, outstandingTickets, hreqids]
  show (m'.tagsPools.getD s [] ++ outstanding tickets m' s).Perm (allTags cfg)
  rw [hpools, hout]
  exact h s hs

theorem getD_set {pools : List (List Int)} (h : pools[s]? = some pool)
    (pool' : List Int) (s' : Nat) :
    (pools.set s pool').getD s' [] = if s' = s then pool' else pools.getD s' [] := by
  have hlt := (List.getElem?_eq_some_iff.mp h).1
  rw [getD_eq_getElem?_getD, getD_eq_getElem?_getD]
  by_cases hs : s' = s
  · subst hs
    rw [getElem?_set_self hlt, if_pos rfl, Option.getD_some]
  · rw [getElem?_set_ne (Ne.symm hs), if_neg hs]

/-! ## A delivery brings a tag back -/

theorem outstandingTickets_deliver (h : MemInv tickets m) (ht : t ∈ tickets) (hslid : t.slid = s)
    (hout : t.req.reqid ∉ m.reqidsAt .delivered)
    (hdelivered : m'.reqidsAt .delivered = m.reqidsAt .delivered ++ [t.req.reqid]) :
    (outstandingTickets tickets m s).Perm (t :: outstandingTickets tickets m' s) := by
  have hnodup : tickets.Nodup := List.Nodup.of_map _ h.ids
  have hmem : t ∈ outstandingTickets tickets m s :=
    mem_filter.mpr ⟨ht, decide_eq_true ⟨hslid, hout⟩⟩
  have herase : (outstandingTickets tickets m s).erase t = outstandingTickets tickets m' s := by
    have hfilter : (outstandingTickets tickets m s).Nodup := hnodup.filter _
    rw [hfilter.erase_eq_filter, outstandingTickets, filter_filter, outstandingTickets]
    apply filter_congr
    intro t' ht'
    have hids : t'.req.reqid = t.req.reqid ↔ t' = t :=
      ⟨fun hid => h.ticket_eq ht' ht hid, fun heq => by rw [heq]⟩
    rw [hdelivered]
    simp only [mem_append, mem_singleton, hids]
    by_cases heq : t' = t
    · simp [heq]
    · simp [heq]
  rw [← herase]
  exact perm_cons_erase hmem

theorem outstandingTickets_of_ne (h : MemInv tickets m) (ht : t ∈ tickets) (hslid : t.slid ≠ s)
    (hdelivered : m'.reqidsAt .delivered = m.reqidsAt .delivered ++ [t.req.reqid]) :
    outstandingTickets tickets m' s = outstandingTickets tickets m s := by
  apply filter_congr
  intro t' ht'
  rw [hdelivered]
  simp only [mem_append, mem_singleton, decide_eq_decide]
  constructor
  · rintro ⟨hs, hnot⟩
    exact ⟨hs, fun hmem => hnot (Or.inl hmem)⟩
  · rintro ⟨hs, hnot⟩
    refine ⟨hs, ?_⟩
    rintro (hmem | hid)
    · exact hnot hmem
    · rw [h.ticket_eq ht' ht hid] at hs
      exact hslid hs

/-- The master of a link sends: the tag is back in its pool. -/
theorem TagsConserved.link {l : Nat} (h : MemInv tickets m)
    (htags : TagsConserved cfg ⟨m, tickets⟩) (hticked : LinkTicked m l s m') :
    TagsConserved cfg ⟨m', tickets⟩ := by
  cases hticked with
  | idle hlink hinput houtput => exact htags.frame rfl rfl
  | dropped hlink hbuffer hinput houtput hflow => exact htags.frame rfl rfl
  | @data link link' packet rest rtc pool hlink hbuffer hinput houtput htype hslid hpool =>
    have hmem : packet ∈ link.master.outputBuffer := mem_of_eq_cons hbuffer
    obtain ⟨hresponse, -⟩ := h.output l s link hlink packet hmem
    have hticket := hresponse.ticket
    obtain ⟨s₀, hs₀⟩ := Int.eq_ofNat_of_zero_le hslid
    rw [hs₀, Int.toNat_natCast] at hpool
    have hslid₀ : (Ticket.ofResponse packet).slid = s₀ := hs₀
    -- the request is still on its way
    have hout : (Ticket.ofResponse packet).req.reqid ∉ m.reqidsAt .delivered := by
      intro hdel
      have hpos := count_pos_iff.mpr hdel
      rw [h.count_reqidsAt hticket] at hpos
      have hle := placeCount_le m .delivered (Ticket.ofResponse packet).req
      have houtput : 0 < m.count (.output l s) (Ticket.ofResponse packet).req := by
        rw [count_output hlink]
        exact packetCount_pos hmem
      have hdelivered : 0 < m.count .delivered (Ticket.ofResponse packet).req := by
        have : Place.delivered.spot = .delivered := rfl
        rw [this] at hle
        omega
      have hspot := (h.located.unique houtput hdelivered).1
      cases hspot
    obtain ⟨m₁, hm₁⟩ : ∃ m₁, m₁ = (m.setLink l s link').received { packet with rtc } pool :=
      ⟨_, rfl⟩
    have hdelivered : m₁.reqidsAt .delivered =
        m.reqidsAt .delivered ++ [(Ticket.ofResponse packet).req.reqid] := by
      rw [hm₁]
      simp only [reqidsAt, requestsAt, deliveredPackets_received, map_append]
      rfl
    have hpools : m₁.tagsPools = m.tagsPools.set s₀ (pool ++ [packet.tag]) := by
      rw [hm₁]
      show m.tagsPools.set packet.headerSlid.toNat _ = _
      rw [hs₀, Int.toNat_natCast]
    rw [← hm₁]
    intro s' hs'
    have hold := htags s' hs'
    show (m₁.tagsPools.getD s' [] ++ outstanding tickets m₁ s').Perm (allTags cfg)
    rw [hpools, getD_set hpool]
    by_cases hss : s' = s₀
    · subst hss
      have hperm := (outstandingTickets_deliver h hticket hslid₀ hout hdelivered).map
        (fun t : Ticket => t.tag)
      have hgetD : m.tagsPools.getD s' [] = pool := by
        rw [getD_eq_getElem?_getD, hpool, Option.getD_some]
      rw [if_pos rfl, append_assoc]
      refine List.Perm.trans ?_ hold
      show (pool ++ (packet.tag :: outstanding tickets m₁ s')).Perm
        (m.tagsPools.getD s' [] ++ outstanding tickets m s')
      rw [hgetD]
      exact hperm.symm.append_left pool
    · have hne : (Ticket.ofResponse packet).slid ≠ s' := by
        rw [hslid₀]
        intro heq
        exact hss (Int.natCast_inj.mp heq).symm
      have hsame : outstanding tickets m₁ s' = outstanding tickets m s' := by
        rw [outstanding, outstandingTickets_of_ne h hticket hne hdelivered, outstanding]
      rw [if_neg hss, hsame]
      exact hold

theorem TagsConserved.step (hhost : cfg.ctrl.pimModeEnabled = false) (h : MemInv tickets m)
    (htags : TagsConserved cfg ⟨m, tickets⟩) (hstep : Step cfg junk m m') :
    TagsConserved cfg ⟨m', tickets⟩ := by
  cases hstep with
  | clock => exact htags.frame rfl rfl
  | @ctrl v c c' done hctrl htick =>
    obtain ⟨-, outs, hmoves⟩ :=
      ((h.vault v c hctrl).inv.tick cfg.ctrl (junk v)).result htick
    have hdone : done = [] := hmoves.host hhost
    subst hdone
    refine htags.frame rfl ?_
    show deliveredPackets { m.setCtrl v c' with events := m.events ++ [] } = _
    rw [append_nil]
    rfl
  | link hlink => exact htags.link h hlink
  | forward hforward =>
    cases hforward with
    | idle => exact htags
    | offered => exact htags.frame rfl rfl
  | backward hbackward =>
    cases hbackward with
    | idle => exact htags
    | moved => exact htags.frame rfl rfl

/-! ## A send takes a tag out -/

variable {req : Request}

theorem MemInv.reqid_not_delivered (h : MemInv tickets m) (req : Request) :
    (ticketOf cfg m req).req.reqid ∉ m.reqidsAt .delivered := by
  intro hmem
  obtain ⟨r, hr, hid⟩ := mem_map.mp hmem
  obtain ⟨p, hp, rfl⟩ := mem_map.mp hr
  have hlt : p.req.reqid < m.memReqCount := h.fresh _ (h.delivered p hp)
  have heq : p.req.reqid = m.memReqCount := hid
  omega

theorem TagsConserved.accept {link : Link} (h : MemInv tickets m)
    (htags : TagsConserved cfg ⟨m, tickets⟩)
    (hformed : Formed cfg m (m.prepare cfg req) packet m') (htag : packet.tag ≠ -1) :
    TagsConserved cfg ⟨{ m'.setLink 0 s link with memReqCount := m.memReqCount + 1 },
      ticketOf cfg m req :: tickets⟩ := by
  obtain ⟨hhead, s₀, hs₀, hpool, hm'⟩ := poolOf_formed hformed
  obtain ⟨tag, rest, hcons⟩ : ∃ tag rest, poolOf cfg m req = tag :: rest := by
    cases hp : poolOf cfg m req with
    | nil =>
      rw [hp] at hhead
      exact absurd hhead htag
    | cons tag rest => exact ⟨tag, rest, rfl⟩
  have hticket : (ticketOf cfg m req).tag = tag := by
    show (poolOf cfg m req).headD (-1) = tag
    rw [hcons]
    rfl
  have hslid : (ticketOf cfg m req).slid = s₀ := hs₀
  have hnew : (ticketOf cfg m req).req.reqid ∉ m.reqidsAt .delivered :=
    h.reqid_not_delivered req
  have hpools : m'.tagsPools = m.tagsPools.set s₀ rest := by
    rw [hm', hcons]
    rfl
  have hdelivered : m'.reqidsAt .delivered = m.reqidsAt .delivered := by
    rw [hm']
    rfl
  intro s' hs'
  have hold := htags s' hs'
  show (m'.tagsPools.getD s' [] ++ outstanding (ticketOf cfg m req :: tickets) m' s').Perm
    (allTags cfg)
  have hout : outstanding (ticketOf cfg m req :: tickets) m' s' =
      if s' = s₀ then tag :: outstanding tickets m s' else outstanding tickets m s' := by
    simp only [outstanding, outstandingTickets, hdelivered, filter_cons]
    by_cases hss : s' = s₀
    · have hcond : (ticketOf cfg m req).slid = s' ∧
          (ticketOf cfg m req).req.reqid ∉ m.reqidsAt .delivered := by
        rw [hss]
        exact ⟨hslid, hnew⟩
      rw [if_pos (decide_eq_true hcond), if_pos hss, map_cons, hticket]
    · have hcond : ¬ ((ticketOf cfg m req).slid = s' ∧
          (ticketOf cfg m req).req.reqid ∉ m.reqidsAt .delivered) := by
        rintro ⟨heq, -⟩
        rw [hslid] at heq
        exact hss (Int.natCast_inj.mp heq).symm
      rw [if_neg (by simpa using hcond), if_neg hss]
  rw [hpools, getD_set hpool, hout]
  by_cases hss : s' = s₀
  · rw [if_pos hss, if_pos hss]
    have hgetD : m.tagsPools.getD s' [] = tag :: rest := by
      rw [hss, getD_eq_getElem?_getD, hpool, Option.getD_some, hcons]
    refine List.Perm.trans ?_ hold
    show (rest ++ tag :: outstanding tickets m s').Perm
      (m.tagsPools.getD s' [] ++ outstanding tickets m s')
    rw [hgetD]
    exact perm_middle
  · rw [if_neg hss, if_neg hss]
    exact hold

theorem setPool_self (h : m.tagsPools[s]? = some pool) : m.setPool s pool = m := by
  obtain ⟨hlt, hget⟩ := List.getElem?_eq_some_iff.mp h
  have hset : m.tagsPools.set s pool = m.tagsPools := by
    rw [← hget]
    exact set_getElem_self hlt
  simp only [setPool, Int.toNat_natCast, hset]

section

variable (hformed : Formed cfg m (m.prepare cfg req) packet m')
include hformed

theorem Formed.of_empty (hempty : poolOf cfg m req = []) : m' = m := by
  obtain ⟨-, s₀, -, hpool, hm'⟩ := poolOf_formed hformed
  rw [hempty] at hpool hm'
  rw [hm']
  exact setPool_self hpool

theorem Formed.not_conserved (hpool : poolOf cfg m req ≠ [])
    (hlink : slidOf cfg (m.prepare cfg req) < cfg.hmc.sourceLinks)
    (htags : TagsConserved cfg ⟨m, tickets⟩) : ¬ TagsConserved cfg ⟨m', tickets⟩ := by
  intro htags'
  obtain ⟨-, s₀, hs₀, hpool₀, hm'⟩ := poolOf_formed hformed
  rw [hs₀] at hlink
  have hs : s₀ < cfg.hmc.sourceLinks := by omega
  have hlen := (htags s₀ hs).length_eq
  have hlen' := (htags' s₀ hs).length_eq
  have hgetD : m.tagsPools.getD s₀ [] = poolOf cfg m req := by
    rw [getD_eq_getElem?_getD, hpool₀, Option.getD_some]
  have hgetD' : m'.tagsPools.getD s₀ [] = (poolOf cfg m req).tail := by
    rw [hm']
    show (m.tagsPools.set s₀ _).getD s₀ [] = _
    rw [getD_set hpool₀, if_pos rfl]
  have hout : outstanding tickets m' s₀ = outstanding tickets m s₀ := by
    rw [hm']
    rfl
  have hpos := length_pos_iff.mpr hpool
  dsimp only at hlen hlen'
  rw [hgetD, length_append] at hlen
  rw [hgetD', hout, length_append, length_tail] at hlen'
  omega

end

theorem slidOf_lt (hlinks : 0 < cfg.hmc.sourceLinks) (req : Request) :
    slidOf cfg req < cfg.hmc.sourceLinks :=
  Int.emod_lt_of_pos _ (by omega)

/-- The tags in a pool are no -1. -/
theorem TagsConserved.headD_iff (hlinks : 0 < cfg.hmc.sourceLinks)
    (htags : TagsConserved cfg ⟨m, tickets⟩) (req : Request) :
    (poolOf cfg m req).headD (-1) ≠ -1 ↔ poolOf cfg m req ≠ [] := by
  cases hpool : poolOf cfg m req with
  | nil => simp
  | cons tag rest =>
    refine iff_of_true ?_ (cons_ne_nil _ _)
    have hslid := slidOf_lt hlinks (m.prepare cfg req)
    have hmem : tag ∈ m.tagsPools.getD (slidOf cfg (m.prepare cfg req)).toNat [] := by
      rw [← poolOf, hpool]
      exact mem_cons_self
    have hall := (htags _ (by omega)).mem_iff.mp (mem_append_left _ hmem)
    obtain ⟨i, -, rfl⟩ := mem_map.mp hall
    simp

theorem TagsConserved.send_iff (hlinks : 0 < cfg.hmc.sourceLinks) {accepted : Bool}
    (h : MemInv tickets m) (htags : TagsConserved cfg ⟨m, tickets⟩)
    (hhost : cfg.ctrl.pimModeEnabled = false) (hsend : m.send cfg req = .ok (accepted, m')) :
    ¬ LosesTag cfg m req ↔ TagsConserved cfg
      ⟨m', if accepted then ticketOf cfg m req :: tickets else tickets⟩ := by
  have hsent : Sent cfg m req accepted m' := (send_ends hhost m req).result hsend
  have hiff := hsent.accepted_iff
  rw [htags.headD_iff hlinks] at hiff
  -- a refused send forms a packet and does nothing else
  have hrefused : ∀ packet, Formed cfg m (m.prepare cfg req) packet m' → accepted = false →
      (¬ LosesTag cfg m req ↔ TagsConserved cfg ⟨m', tickets⟩) := by
    rintro packet hformed rfl
    have hroom : poolOf cfg m req ≠ [] → spaceOf cfg m req < flitsOf cfg req := fun hpool =>
      not_le.mp fun hroom => absurd (hiff.mpr ⟨hpool, hroom⟩) (by decide)
    constructor
    · intro hkeeps
      have hempty : poolOf cfg m req = [] := not_not.mp fun hpool => hkeeps ⟨hpool, hroom hpool⟩
      rw [hformed.of_empty hempty]
      exact htags
    · rintro htags' ⟨hpool, -⟩
      exact hformed.not_conserved hpool (slidOf_lt hlinks _) htags htags'
  cases hsent with
  | noTag hformed htag => exact hrefused _ hformed rfl
  | noRoom hformed htag hs hlink hroom => exact hrefused _ hformed rfl
  | accepted hformed htag hs hlink hroom =>
    exact iff_of_true (fun hloses => absurd (hiff.mp rfl).2 (not_le.mpr hloses.2))
      (htags.accept h hformed htag)

theorem TagsConserved.new (cfg : MemoryConfig) : TagsConserved cfg ⟨Memory.new cfg, []⟩ := by
  intro s hs
  have hgetD : (Memory.new cfg).tagsPools.getD s [] = allTags cfg := by
    rw [getD_eq_getElem?_getD]
    show ((replicate cfg.hmc.sourceLinks (allTags cfg))[s]?).getD [] = _
    rw [getElem?_replicate, if_pos hs, Option.getD_some]
  show ((Memory.new cfg).tagsPools.getD s [] ++ []).Perm (allTags cfg)
  rw [hgetD, append_nil]

theorem TagsConserved.tick (hhost : cfg.ctrl.pimModeEnabled = false) (h : MemInv tickets m)
    (htags : TagsConserved cfg ⟨m, tickets⟩) (htick : m.tick cfg junk = .ok m') :
    TagsConserved cfg ⟨m', tickets⟩ := by
  have hends : Yields (m.tick cfg junk)
      (fun m' => MemInv tickets m' ∧ TagsConserved cfg ⟨m', tickets⟩) := by
    apply tick_ends (I := fun m => MemInv tickets m ∧ TagsConserved cfg ⟨m, tickets⟩)
    · intro m m' hm hstep
      exact ⟨hm.1.step hhost hstep, hm.2.step hhost hm.1 hstep⟩
    · intro _ _ _ _
      trivial
    · exact ⟨h, htags⟩
  exact (hends.result htick).2

theorem TagsConserved.step_iff (hlinks : 0 < cfg.hmc.sourceLinks)
    (hhost : cfg.ctrl.pimModeEnabled = false) (op : Op) (h : MemInv st.tickets st.memory)
    (htags : TagsConserved cfg st) :
    KeepsTags cfg st op ↔ Yields (st.step cfg op) (TagsConserved cfg) := by
  cases op with
  | tick junk =>
    refine iff_of_true trivial (Ends.bind (Ends.ran _) fun m' htick => ?_)
    exact htags.tick hhost h htick
  | send req =>
    show Ends (st.step cfg (.send req)) _ _ ↔ _
    cases hstep : st.step cfg (.send req) with
    | error e => exact iff_of_true trivial trivial
    | ok st' =>
      obtain ⟨⟨accepted, m'⟩, hsend, heq⟩ := bind_ok.mp hstep
      cases heq
      exact TagsConserved.send_iff hlinks h htags hhost hsend

/-- Tags are conserved in every state of a run if and only if no send of the run finds a
    tag and no room for its packet. -/
theorem states_tagsConserved_iff (hlinks : 0 < cfg.hmc.sourceLinks)
    (hhost : cfg.ctrl.pimModeEnabled = false) (ops : List Op) :
    (∀ st ∈ trail (Session.step cfg) ops ⟨Memory.new cfg, []⟩, TagsConserved cfg st) ↔
      Along (Session.step cfg) (KeepsTags cfg) ops ⟨Memory.new cfg, []⟩ :=
  (along_iff_trail (J := fun st => MemInv st.tickets st.memory)
    (fun _ op h => (step_memInv hhost h op).ignore)
    (fun _ op h htags => htags.step_iff hlinks hhost op h) ops (MemInv.new cfg)
    (TagsConserved.new cfg)).symm

/-- A read and a write with room for both, and the cycles until they are back. -/
theorem states_tagsConserved_iff_readWrite :
    0 < (smallStack 4).hmc.sourceLinks ∧ (smallStack 4).ctrl.pimModeEnabled = false ∧
    ∀ st ∈ trail (Session.step (smallStack 4)) (.send { addr := 0, type := .read } ::
        .send { addr := 32, type := .write } :: replicate 50 (.tick fun _ => 0))
      ⟨Memory.new (smallStack 4), []⟩, TagsConserved (smallStack 4) st :=
  ⟨by decide, rfl, (states_tagsConserved_iff (by decide) rfl _).mpr (by decide +kernel)⟩

/-- With the default payload a link has room for 28 writes.  The next one is
    refused and its tag, 28, is lost: no packet has it, and the pool starts at 29. -/
theorem refused_send_loses_tag :
    ∃ st, session (smallStack 4) (replicate 29 (.send { addr := 0, type := .write })) = .ok st ∧
      st.tickets.length = 28 ∧ ¬ TagsConserved (smallStack 4) st := by
  have hrun : (session (smallStack 4)
      (replicate 29 (.send { addr := 0, type := .write }))).toOption.map
      (fun st => (st.tickets.length, decide (((28 : Nat) : Int) ∈
        st.memory.tagsPools.getD 0 [] ++ outstanding st.tickets st.memory 0))) =
        some (28, false) := by decide +kernel
  obtain ⟨st, hst, hpair⟩ := exists_ok_of_map hrun
  obtain ⟨hlength, hnot⟩ := Prod.mk.inj hpair
  refine ⟨st, hst, hlength, fun htags => ?_⟩
  have hperm := htags 0 (by decide)
  have hlt : 28 < (smallStack 4).hmc.maxTags := by
    show 28 < 2 ^ 11
    omega
  exact of_decide_eq_false hnot (hperm.mem_iff.mpr (mem_allTags hlt))

end Memory

end Ramulator
