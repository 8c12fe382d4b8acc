/-
  Ramulator.Cache.Invariant

  The representation invariant of an L1.

  A set holds the lines of its index, no more than `assoc` of them and no tag
  twice (`SetOk`).  The locked lines are those the MSHR entries refer to, one
  entry each, and the entry of a line is for its block (`Inv`).  So the tag of
  a block that misses without an entry is in no set, which is what
  `need_eviction` asserts, and no iterator dangles: an eviction and a hit take
  out unlocked lines only.
-/

import Ramulator.Lib.Keyed
import Ramulator.Cache.Steps

namespace Ramulator

open Outcome List Function

variable {f : Line → Line}

namespace Cache

variable {cfg : CacheConfig} {c c' : Cache} {sys sys' : CacheSystem} {req : Request} {i addr : Int}
  {line x : Line} {nodes : Nat} {accepted : Bool}

/-! ## One set -/

structure SetOk (cfg : CacheConfig) (nodes : Nat) (i : Int) (lines : List Line) : Prop where
  placed : ∀ line ∈ lines, cfg.getIndex line.addr = i ∧ line.tag = cfg.getTag line.addr
  length : lines.length ≤ cfg.assoc
  tags : (lines.map (·.tag)).Nodup
  ids : (lines.map (·.node)).Nodup
  fresh : ∀ line ∈ lines, line.node < nodes

section Set

variable {nodes node : Nat} {i : Int} {lines : List Line} {line : Line}

section

variable (h : SetOk cfg nodes i lines)
include h

theorem SetOk.succ : SetOk cfg (nodes + 1) i lines :=
  ⟨h.placed, h.length, h.tags, h.ids, fun line hline => Nat.lt_succ_of_lt (h.fresh line hline)⟩

theorem SetOk.mem_eraseLine_iff : x ∈ eraseLine lines line ↔ x ∈ lines ∧ x.node ≠ line.node :=
  Keyed.mem_eraseP_iff h.ids

theorem SetOk.eq_of_node {y : Line} (hx : x ∈ lines) (hy : y ∈ lines) (hnode : x.node = y.node) :
    x = y :=
  inj_on_of_nodup_map h.ids hx hy hnode

theorem SetOk.eq_of_tag {y : Line} (hx : x ∈ lines) (hy : y ∈ lines) (htag : x.tag = y.tag) :
    x = y :=
  inj_on_of_nodup_map h.tags hx hy htag

theorem SetOk.eraseLine (line : Line) : SetOk cfg nodes i (eraseLine lines line) where
  placed x hx := h.placed x (mem_of_mem_eraseP hx)
  length := (eraseP_sublist.length_le).trans h.length
  tags := Keyed.nodup_eraseP h.tags _
  ids := Keyed.nodup_eraseP h.ids _
  fresh x hx := h.fresh x (mem_of_mem_eraseP hx)

theorem SetOk.length_eraseLine_lt (hline : line ∈ lines) :
    (Cache.eraseLine lines line).length < cfg.assoc := by
  have hlength : (Cache.eraseLine lines line).length = lines.length - 1 :=
    length_eraseP_of_mem hline (decide_eq_true rfl)
  have hpos := length_pos_of_mem hline
  have hle := h.length
  omega

theorem SetOk.push (hroom : lines.length < cfg.assoc) (hindex : cfg.getIndex line.addr = i)
    (htag : line.tag = cfg.getTag line.addr) (hnode : line.node = nodes)
    (habsent : ∀ x ∈ lines, x.tag ≠ line.tag) : SetOk cfg (nodes + 1) i (lines ++ [line]) where
  placed x hx := by
    rcases mem_append.mp hx with hx | hx
    · exact h.placed x hx
    · rw [mem_singleton.mp hx]
      exact ⟨hindex, htag⟩
  length := by
    rw [length_append, length_singleton]
    exact hroom
  tags := Keyed.nodup_append_singleton h.tags habsent
  ids := by
    apply Keyed.nodup_append_singleton h.ids
    intro x hx
    have hlt := h.fresh x hx
    omega
  fresh x hx := by
    rcases mem_append.mp hx with hx | hx
    · exact Nat.lt_succ_of_lt (h.fresh x hx)
    · rw [mem_singleton.mp hx]
      omega

end

theorem mem_modified :
    x ∈ modified node f lines ↔ ∃ y ∈ lines, (if y.node = node then f y else y) = x :=
  mem_map

theorem map_modified {α : Type} {g : Line → α} (hf : ∀ x, g (f x) = g x) (lines : List Line) :
    (modified node f lines).map g = lines.map g := by
  unfold modified
  rw [map_map]
  apply map_congr_left
  intro x _
  show g (if x.node = node then f x else x) = g x
  split
  · exact hf x
  · rfl

theorem SetOk.modified (h : SetOk cfg nodes i lines)
    (hnode : ∀ x, (f x).node = x.node) (haddr : ∀ x, (f x).addr = x.addr)
    (htag : ∀ x, (f x).tag = x.tag) : SetOk cfg nodes i (modified node f lines) where
  placed x hx := by
    obtain ⟨y, hy, rfl⟩ := mem_modified.mp hx
    split
    · rw [haddr, htag]
      exact h.placed y hy
    · exact h.placed y hy
  length := by
    unfold Cache.modified
    rw [length_map]
    exact h.length
  tags := by
    rw [map_modified htag]
    exact h.tags
  ids := by
    rw [map_modified hnode]
    exact h.ids
  fresh x hx := by
    obtain ⟨y, hy, rfl⟩ := mem_modified.mp hx
    split
    · rw [hnode]
      exact h.fresh y hy
    · exact h.fresh y hy

end Set

/-! ## The invariant -/

def Registered (entries : List (Int × LineIter)) (i : Int) (lines : List Line) : Prop :=
  ∀ line ∈ lines, line.lock = true → ∃ e ∈ entries, e.2 = ⟨i, line.node⟩

/-- The invariant of an L1. -/
structure Inv (cfg : CacheConfig) (c : Cache) : Prop where
  set : ∀ i, SetOk cfg c.nodes i (c.cacheLines i)
  mshr : ∀ e ∈ c.mshrEntries, ∃ line ∈ c.cacheLines e.2.index, line.node = e.2.node ∧
    line.lock = true ∧ cfg.align line.addr = cfg.align e.1
  locked : ∀ i, Registered c.mshrEntries i (c.cacheLines i)
  blocks : (c.mshrEntries.map fun e => cfg.align e.1).Nodup
  bound : c.mshrEntries.length ≤ cfg.mshrEntryNum

theorem Inv.new (cfg : CacheConfig) : Inv cfg {} where
  set i := ⟨(fun line hline => by cases hline), Nat.zero_le _, nodup_nil, nodup_nil,
    (fun line hline => by cases hline)⟩
  mshr e he := by cases he
  locked i line hline := by cases hline
  blocks := nodup_nil
  bound := Nat.zero_le _

variable {lines : List Line}

theorem forall_update {P : Int → List Line → Prop} {sets : Int → List Line}
    (hold : ∀ j, j ≠ i → P j (sets j)) (hnew : P i lines) :
    ∀ j, P j (update sets i lines j) := by
  intro j
  by_cases hj : j = i
  · subst hj
    rw [update_self]
    exact hnew
  · rw [update_of_ne hj]
    exact hold j hj

theorem Inv.entry_index (hp : cfg.Proper) (h : Inv cfg c) {e : Int × LineIter}
    (he : e ∈ c.mshrEntries) : e.2.index = cfg.getIndex e.1 := by
  obtain ⟨line, hline, -, -, hblock⟩ := h.mshr e he
  rw [← ((h.set _).placed line hline).1]
  exact ((hp.align_eq_iff _ _).mp hblock).1

theorem Inv.entry_of_locked (h : Inv cfg c) (hline : line ∈ c.cacheLines i)
    (hlock : line.lock = true) :
    ∃ e ∈ c.mshrEntries, e.2 = ⟨i, line.node⟩ ∧ cfg.align e.1 = cfg.align line.addr := by
  obtain ⟨e, he, hiter⟩ := h.locked i line hline hlock
  obtain ⟨line', hline', hnode, -, hblock⟩ := h.mshr e he
  rw [hiter] at hline' hnode
  have heq := (h.set i).eq_of_node hline' hline hnode
  subst heq
  exact ⟨e, he, hiter, hblock.symm⟩

theorem Inv.replace_unlocked (h : Inv cfg c) (victim : Option Line)
    (hvictim : ∀ line, victim = some line → line ∈ c.cacheLines i ∧ line.lock = false) (new : Line)
    (e : Int × LineIter) (he : e ∈ c.mshrEntries) :
    ∃ line ∈ update c.cacheLines i (without (c.cacheLines i) victim ++ [new])
        e.2.index, line.node = e.2.node ∧ line.lock = true ∧
        cfg.align line.addr = cfg.align e.1 := by
  obtain ⟨line, hline, hnode, hlock, hblock⟩ := h.mshr e he
  refine ⟨line, ?_, hnode, hlock, hblock⟩
  by_cases hi : e.2.index = i
  · rw [hi] at hline ⊢
    rw [update_self]
    apply mem_append_left
    cases victim with
    | none => exact hline
    | some v =>
      obtain ⟨hv, hvlock⟩ := hvictim v rfl
      refine (h.set i).mem_eraseLine_iff.mpr ⟨hline, fun hsame => ?_⟩
      have heq := (h.set i).eq_of_node hline hv hsame
      rw [heq, hvlock] at hlock
      cases hlock
  · rw [update_of_ne hi]
    exact hline

variable {victim : Option Line}

theorem mem_of_mem_without (h : x ∈ without lines victim) : x ∈ lines := by
  cases victim with
  | none => exact h
  | some v => exact mem_of_mem_eraseP h

theorem SetOk.without (h : SetOk cfg nodes i lines) (victim : Option Line) :
    SetOk cfg nodes i (Cache.without lines victim) := by
  cases victim with
  | none => exact h
  | some v => exact h.eraseLine v

theorem SetOk.length_without_lt (h : SetOk cfg nodes i lines) (hroom : Room cfg lines victim) :
    (Cache.without lines victim).length < cfg.assoc := by
  cases hroom with
  | free hfree => exact hfree
  | victim hfull hmem hlock => exact h.length_eraseLine_lt hmem

theorem Room.unlocked (h : Room cfg lines victim) (line : Line) (hline : victim = some line) :
    line ∈ lines ∧ line.lock = false := by
  cases h with
  | free => cases hline
  | victim hfull hmem hlock =>
    cases hline
    exact ⟨hmem, hlock⟩

section

variable (h : Inv cfg c)
include h

theorem Inv.hit (hmem : line ∈ c.getLines cfg req.addr) (htag : line.tag = cfg.getTag req.addr)
    (hlock : line.lock = false) : Inv cfg { c.setLines (cfg.getIndex req.addr)
        (eraseLine (c.getLines cfg req.addr) line ++ [hitLine cfg c req line]) with
      nodes := c.nodes + 1 } := by
  have hset := h.set (cfg.getIndex req.addr)
  refine ⟨?_, ?_, ?_, h.blocks, h.bound⟩
  · apply forall_update
    · intro j _
      exact (h.set j).succ
    · have hindex : cfg.getIndex (hitLine cfg c req line).addr = cfg.getIndex req.addr := rfl
      apply (hset.eraseLine line).push (hset.length_eraseLine_lt hmem) hindex rfl rfl
      intro x hx hsame
      obtain ⟨hx, hne⟩ := hset.mem_eraseLine_iff.mp hx
      exact hne (congrArg Line.node (hset.eq_of_tag hx hmem (hsame.trans htag.symm)))
  · refine h.replace_unlocked (some line) ?_ _
    intro line' hline'
    cases hline'
    exact ⟨hmem, hlock⟩
  · apply forall_update (P := Registered c.mshrEntries)
    · intro j _
      exact h.locked j
    · intro x hx hxlock
      rcases mem_append.mp hx with hx | hx
      · exact h.locked _ x (mem_of_mem_eraseP hx) hxlock
      · rw [mem_singleton.mp hx] at hxlock
        cases hxlock

theorem Inv.modified (i : Int) (node : Nat) (hnode : ∀ x, (f x).node = x.node)
    (haddr : ∀ x, (f x).addr = x.addr) (htag : ∀ x, (f x).tag = x.tag)
    (hlock : ∀ x, (f x).lock = x.lock) :
    Inv cfg (c.setLines i (modified node f (c.cacheLines i))) := by
  refine ⟨?_, ?_, ?_, h.blocks, h.bound⟩
  · apply forall_update
    · intro j _
      exact h.set j
    · exact (h.set i).modified hnode haddr htag
  · intro e he
    obtain ⟨line, hline, hlnode, hllock, hlblock⟩ := h.mshr e he
    by_cases hi : e.2.index = i
    · rw [hi] at hline
      refine ⟨if line.node = node then f line else line, ?_, ?_⟩
      · show _ ∈ update c.cacheLines i _ e.2.index
        rw [hi, update_self]
        exact mem_modified.mpr ⟨line, hline, rfl⟩
      · split
        · rw [hnode, hlock, haddr]
          exact ⟨hlnode, hllock, hlblock⟩
        · exact ⟨hlnode, hllock, hlblock⟩
    · refine ⟨line, ?_, hlnode, hllock, hlblock⟩
      show line ∈ update c.cacheLines i _ e.2.index
      rw [update_of_ne hi]
      exact hline
  · apply forall_update (P := Registered c.mshrEntries)
    · intro j _
      exact h.locked j
    · intro x hx hxlock
      obtain ⟨y, hy, rfl⟩ := mem_modified.mp hx
      split at hxlock
      · next hynode =>
        rw [if_pos hynode, hnode]
        rw [hlock] at hxlock
        exact h.locked i y hy hxlock
      · next hynode =>
        rw [if_neg hynode]
        exact h.locked i y hy hxlock

theorem Inv.missed (hfresh : ∀ entry ∈ c.mshrEntries, cfg.align entry.1 ≠ cfg.align req.addr)
    (hnum : c.mshrEntries.length ≠ cfg.mshrEntryNum)
    (habsent : ∀ line ∈ c.getLines cfg req.addr, line.tag ≠ cfg.getTag req.addr)
    (hroom : Room cfg (c.getLines cfg req.addr) victim) : Inv cfg (missed cfg c req victim) := by
  have hset := h.set (cfg.getIndex req.addr)
  refine ⟨?_, ?_, ?_, ?_, ?_⟩
  · apply forall_update
    · intro j _
      exact (h.set j).succ
    · have hindex : cfg.getIndex (missLine cfg c req).addr = cfg.getIndex req.addr := rfl
      apply (hset.without victim).push (hset.length_without_lt hroom) hindex rfl rfl
      intro x hx
      exact habsent x (mem_of_mem_without hx)
  · intro e he
    rcases mem_append.mp he with he | he
    · exact h.replace_unlocked _ hroom.unlocked _ e he
    · rw [mem_singleton.mp he]
      refine ⟨missLine cfg c req, ?_, rfl, rfl, rfl⟩
      show _ ∈ update c.cacheLines (cfg.getIndex req.addr) _ (cfg.getIndex req.addr)
      rw [update_self]
      exact mem_append_right _ (mem_singleton.mpr rfl)
  · apply forall_update (P := Registered (c.mshrEntries ++ [_]))
    · intro j _ line hline hlock
      obtain ⟨e, he, hiter⟩ := h.locked j line hline hlock
      exact ⟨e, mem_append_left _ he, hiter⟩
    · intro x hx hxlock
      rcases mem_append.mp hx with hx | hx
      · obtain ⟨e, he, hiter⟩ := h.locked _ x (mem_of_mem_without hx) hxlock
        exact ⟨e, mem_append_left _ he, hiter⟩
      · rw [mem_singleton.mp hx]
        exact ⟨_, mem_append_right _ (mem_singleton.mpr rfl), rfl⟩
  · exact Keyed.nodup_append_singleton h.blocks hfresh
  · show (c.mshrEntries ++ [_]).length ≤ cfg.mshrEntryNum
    rw [length_append, length_singleton]
    have hle := h.bound
    omega

theorem Inv.sent (hsent : Sent cfg c sys req accepted c' sys') : Inv cfg c' := by
  cases hsent with
  | hit hmem htag hlock => exact h.hit hmem htag hlock
  | merged hmiss hentry hblock =>
    exact h.modified _ _ (fun _ => rfl) (fun _ => rfl) (fun _ => rfl) (fun _ => rfl)
  | refused => exact h
  | missed hmiss hfresh hnum habsent hroom => exact h.missed hfresh hnum habsent hroom

/-- `callback` keeps the invariant: it unlocks the line of the entry it takes
    out. -/
theorem Inv.called (hcalled : Called cfg c req c') : Inv cfg c' := by
  cases hcalled with
  | none => exact h
  | @unlocked entry hentry hblock =>
    obtain ⟨unlocked, hunlocked, hunode, -, hublock⟩ := h.mshr entry hentry
    have hset := h.set entry.2.index
    refine ⟨?_, ?_, ?_, Keyed.nodup_eraseP h.blocks _, ?_⟩
    · apply forall_update
      · intro j _
        exact h.set j
      · exact hset.modified (fun _ => rfl) (fun _ => rfl) (fun _ => rfl)
    · intro e he
      obtain ⟨he, hother⟩ := (Keyed.mem_eraseP_iff h.blocks).mp he
      obtain ⟨line, hline, hnode, hlock, hlblock⟩ := h.mshr e he
      refine ⟨line, ?_, hnode, hlock, hlblock⟩
      show line ∈ update c.cacheLines entry.2.index _ e.2.index
      by_cases hi : e.2.index = entry.2.index
      · rw [hi] at hline ⊢
        rw [update_self]
        refine mem_modified.mpr ⟨line, hline, if_neg (fun hsame => hother ?_)⟩
        -- the line that is unlocked belongs to the block of the callback
        have heq := hset.eq_of_node hline hunlocked (hsame.trans hunode.symm)
        rw [← hlblock, heq, hublock, hblock]
      · rw [update_of_ne hi]
        exact hline
    · -- a line that is still locked has another entry
      have hkept : ∀ i, ∀ line ∈ c.cacheLines i, line.lock = true →
          (⟨i, line.node⟩ : LineIter) ≠ entry.2 →
          ∃ e ∈ c.mshrEntries.eraseP (fun e => decide (cfg.align e.1 = cfg.align req.addr)),
            e.2 = ⟨i, line.node⟩ := by
        intro i line hline hlock hne
        obtain ⟨e, he, hiter⟩ := h.locked i line hline hlock
        refine ⟨e, (Keyed.mem_eraseP_iff h.blocks).mpr ⟨he, fun hsame => hne ?_⟩, hiter⟩
        have heq : e = entry :=
          inj_on_of_nodup_map h.blocks he hentry (hsame.trans hblock.symm)
        rw [← hiter, heq]
      apply forall_update (P := Registered _)
      · intro j hj line hline hlock
        exact hkept j line hline hlock (fun heq => hj (congrArg LineIter.index heq))
      · intro x hx hxlock
        obtain ⟨y, hy, rfl⟩ := mem_modified.mp hx
        split at hxlock
        · cases hxlock
        · next hynode =>
          rw [if_neg hynode]
          exact hkept _ y hy hxlock (fun heq => hynode (congrArg LineIter.node heq))
    · exact (eraseP_sublist.length_le).trans h.bound

/-! ## What cannot happen -/

theorem Inv.lock_of_miss (hmiss : isHit cfg (c.getLines cfg addr) addr = none)
    (hline : line ∈ c.getLines cfg addr) (htag : line.tag = cfg.getTag addr) :
    line.lock = true := by
  obtain ⟨found, hfound⟩ : ∃ found, findTag cfg (c.getLines cfg addr) addr = some found := by
    apply Option.isSome_iff_exists.mp
    exact find?_isSome.mpr ⟨line, hline, decide_eq_true htag⟩
  have hftag := find?_some hfound
  have heq : found = line := (h.set _).eq_of_tag (mem_of_find?_eq_some hfound) hline
    ((of_decide_eq_true hftag).trans htag.symm)
  unfold isHit at hmiss
  rw [hfound, heq] at hmiss
  simpa using Option.filter_eq_none_iff.mp hmiss line rfl

end

theorem Inv.absent (hp : cfg.Proper) (h : Inv cfg c)
    (hmiss : isHit cfg (c.getLines cfg addr) addr = none)
    (hfresh : ∀ entry ∈ c.mshrEntries, cfg.align entry.1 ≠ cfg.align addr) :
    ∀ line ∈ c.getLines cfg addr, line.tag ≠ cfg.getTag addr := by
  intro line hline htag
  obtain ⟨hindex, hltag⟩ := (h.set _).placed line hline
  obtain ⟨e, he, -, hblock⟩ := h.entry_of_locked hline (h.lock_of_miss hmiss hline htag)
  apply hfresh e he
  rw [hblock]
  exact (hp.align_eq_iff _ _).mpr ⟨hindex, hltag.symm.trans htag⟩

/-- Of the assertions of `send` only the one about its argument can fail. -/
theorem Inv.send_ends (hp : cfg.Proper) (h : Inv cfg c) (sys : CacheSystem) (req : Request) :
    Ends (c.send cfg sys req)
      (fun out => Sent cfg c sys req out.1 out.2.1 out.2.2 ∧ Inv cfg out.2.1)
      (fun e => e = .requestType ∧ req.type ≠ .read ∧ req.type ≠ .write) := by
  refine (Cache.send_ends hp.isLastLevel c sys req).imp (fun _ hsent => ⟨hsent, h.sent hsent⟩) ?_
  rintro e (htype | ⟨-, entry, hentry, hdangling⟩ | ⟨-, hmiss, hmshr, line, hline, htag⟩)
  · exact htype
  · obtain ⟨line, hline, hnode, -⟩ := h.mshr entry hentry
    exact absurd hnode (hdangling line hline)
  · exact absurd htag (h.absent hp hmiss (hitMshr_none hmshr) line hline)

theorem Inv.callback_ends (h : Inv cfg c) (req : Request) :
    Ends (c.callback cfg req) (fun c' => Called cfg c req c' ∧ Inv cfg c') (fun _ => False) := by
  refine (Cache.callback_ends c req).imp (fun _ hcalled => ⟨hcalled, h.called hcalled⟩) ?_
  rintro e ⟨-, entry, hentry, hdangling⟩
  obtain ⟨line, hline, hnode, -⟩ := h.mshr entry hentry
  exact hdangling line hline hnode

def KeepsLocked (c c' : Cache) : Prop :=
  ∀ i, ∀ line ∈ c.cacheLines i, line.lock = true → ∃ line' ∈ c'.cacheLines i,
    line'.node = line.node

theorem keepsLocked_modified (c : Cache) (i : Int) (node : Nat) (hnode : ∀ x, (f x).node = x.node) :
    KeepsLocked c (c.setLines i (modified node f (c.cacheLines i))) := by
  intro j line hline _
  by_cases hj : j = i
  · subst hj
    refine ⟨if line.node = node then f line else line, ?_, ?_⟩
    · show _ ∈ update c.cacheLines j _ j
      rw [update_self]
      exact mem_modified.mpr ⟨line, hline, rfl⟩
    · split
      · exact hnode line
      · rfl
  · refine ⟨line, ?_, rfl⟩
    show line ∈ update c.cacheLines i _ j
    rw [update_of_ne hj]
    exact hline

theorem Inv.keepsLocked_replace (h : Inv cfg c) (victim : Option Line)
    (hvictim : ∀ line, victim = some line → line ∈ c.cacheLines i ∧ line.lock = false) (new : Line)
    {entries : List (Int × LineIter)} :
    KeepsLocked c ⟨update c.cacheLines i (without (c.cacheLines i) victim ++ [new]),
      entries, nodes⟩ := by
  intro j line hline hlock
  obtain ⟨e, he, hiter⟩ := h.locked j line hline hlock
  obtain ⟨line', hline', hnode, -⟩ := h.replace_unlocked _ hvictim new e he
  rw [hiter] at hline' hnode
  exact ⟨line', hline', hnode⟩

theorem Inv.keepsLocked_sent (h : Inv cfg c) (hsent : Sent cfg c sys req accepted c' sys') :
    KeepsLocked c c' := by
  cases hsent with
  | @hit line hmem htag hlock =>
    refine h.keepsLocked_replace (some line) ?_ _
    intro line' hline'
    cases hline'
    exact ⟨hmem, hlock⟩
  | merged => exact keepsLocked_modified c _ _ (fun _ => rfl)
  | refused => exact fun i line hline _ => ⟨line, hline, rfl⟩
  | missed hmiss hfresh hnum habsent hroom => exact h.keepsLocked_replace _ hroom.unlocked _

theorem keepsLocked_called (hcalled : Called cfg c req c') : KeepsLocked c c' := by
  cases hcalled with
  | none => exact fun i line hline _ => ⟨line, hline, rfl⟩
  | unlocked => exact keepsLocked_modified c _ _ (fun _ => rfl)

end Cache

/-! ## Runs -/

/-- What happens to an L1: a request, a callback, or a change of the lists it
    shares. -/
inductive L1Op where
  | send (req : Request)
  | callback (req : Request)
  | system (sys : CacheSystem)

structure L1 where
  cache : Cache := {}
  sys : CacheSystem := {}

namespace L1

variable {cfg : CacheConfig}

def step (cfg : CacheConfig) (l1 : L1) : L1Op → Except Abort L1
  | .send req => do
      let (_, cache, sys) ← l1.cache.send cfg l1.sys req
      pure ⟨cache, sys⟩
  | .callback req => do
      let cache ← l1.cache.callback cfg req
      pure { l1 with cache }
  | .system sys => pure { l1 with sys }

/-- Any interleaving of calls, on an empty cache. -/
def run (cfg : CacheConfig) (ops : List L1Op) : Except Abort L1 := ops.foldlM (step cfg) {}

theorem step_ends (hp : cfg.Proper) {l1 : L1} (h : Cache.Inv cfg l1.cache) (op : L1Op) :
    Ends (l1.step cfg op)
      (fun l1' => Cache.Inv cfg l1'.cache ∧ Cache.KeepsLocked l1.cache l1'.cache)
      (fun e => e = .requestType) := by
  cases op with
  | send req =>
    apply Ends.bind ((h.send_ends hp l1.sys req).weaken_abort (fun _ he => he.1))
    rintro ⟨accepted, cache, sys⟩ ⟨hsent, hinv⟩
    exact ⟨hinv, h.keepsLocked_sent hsent⟩
  | callback req =>
    apply Ends.bind ((h.callback_ends req).weaken_abort (fun _ he => he.elim))
    rintro cache ⟨hcalled, hinv⟩
    exact ⟨hinv, Cache.keepsLocked_called hcalled⟩
  | system sys => exact ⟨h, fun i line hline _ => ⟨line, hline, rfl⟩⟩

theorem run_inv (hp : cfg.Proper) (ops : List L1Op) :
    Ends (run cfg ops) (fun l1 => Cache.Inv cfg l1.cache) (fun e => e = .requestType) := by
  apply Ends.foldlM (I := fun l1 : L1 => Cache.Inv cfg l1.cache) ops (Cache.Inv.new cfg)
  intro l1 op _ h
  exact (step_ends hp h op).weaken (fun _ hout => hout.1)

structure RepOk (cfg : CacheConfig) (c : Cache) : Prop where
  sets : ∀ i, (c.cacheLines i).length ≤ cfg.assoc ∧ ((c.cacheLines i).map (·.tag)).Nodup
  /-- A line is locked iff exactly one entry refers to it, for its block. -/
  locked : ∀ i, ∀ line ∈ c.cacheLines i, (line.lock = true ↔
    ∃ e, c.mshrEntries.filter (fun e => decide (e.2 = ⟨i, line.node⟩)) = [e] ∧
      cfg.align e.1 = cfg.align line.addr)
  mshr : c.mshrEntries.length ≤ cfg.mshrEntryNum ∧ (c.mshrEntries.map fun e => cfg.align e.1).Nodup

theorem RepOk.of_inv {c : Cache} (h : Cache.Inv cfg c) : RepOk cfg c where
  sets i := ⟨(h.set i).length, (h.set i).tags⟩
  locked i line hline := by
    constructor
    · intro hlock
      obtain ⟨e, he, hiter, hblock⟩ := h.entry_of_locked hline hlock
      refine ⟨e, ?_, hblock⟩
      -- an entry that refers to the line has its block, and so is this one
      have honly : ∀ e' ∈ c.mshrEntries.filter (fun e => decide (e.2 = ⟨i, line.node⟩)),
          e' = e := by
        intro e' he'
        obtain ⟨hentry, hdecide⟩ := mem_filter.mp he'
        have hiter' : e'.2 = ⟨i, line.node⟩ := of_decide_eq_true hdecide
        obtain ⟨line', hline', hnode', -, hblock'⟩ := h.mshr e' hentry
        rw [hiter'] at hline' hnode'
        have heq := (h.set i).eq_of_node hline' hline hnode'
        subst heq
        exact inj_on_of_nodup_map h.blocks hentry he (hblock'.symm.trans hblock.symm)
      have hmem : e ∈ c.mshrEntries.filter (fun e => decide (e.2 = ⟨i, line.node⟩)) :=
        mem_filter.mpr ⟨he, decide_eq_true hiter⟩
      have hnodup := (List.Nodup.of_map _ h.blocks).filter (fun e => decide (e.2 = ⟨i, line.node⟩))
      exact perm_singleton.mp ((perm_ext_iff_of_nodup hnodup (nodup_singleton e)).mpr fun x =>
          ⟨fun hx => mem_singleton.mpr (honly x hx), fun hx => mem_singleton.mp hx ▸ hmem⟩)
    · rintro ⟨e, hfilter, -⟩
      have hmem : e ∈ c.mshrEntries.filter (fun e => decide (e.2 = ⟨i, line.node⟩)) := by
        rw [hfilter]
        exact mem_singleton.mpr rfl
      obtain ⟨he, hdecide⟩ := mem_filter.mp hmem
      have hiter : e.2 = ⟨i, line.node⟩ := of_decide_eq_true hdecide
      obtain ⟨line', hline', hnode', hlock', -⟩ := h.mshr e he
      rw [hiter] at hline' hnode'
      rw [← (h.set i).eq_of_node hline' hline hnode']
      exact hlock'
  mshr := ⟨h.bound, h.blocks⟩

/-- The representation invariant holds after every run, and the next step keeps
    every locked line in its set.  No assertion fails but that a request is a
    read or a write: not the one of `need_eviction`, and no iterator dangles. -/
theorem run_represents (hp : cfg.Proper) (ops : List L1Op) : Ends (run cfg ops)
      (fun l1 => RepOk cfg l1.cache ∧ ∀ op, Ends (l1.step cfg op)
        (fun l1' => Cache.KeepsLocked l1.cache l1'.cache) (fun e => e = .requestType))
      (fun e => e = .requestType) := by
  refine (run_inv hp ops).weaken (fun l1 h => ⟨RepOk.of_inv h, fun op => ?_⟩)
  exact (step_ends hp h op).weaken (fun _ hout => hout.2)

/-- A small L1: two sets of two lines. -/
def tiny : CacheConfig where
  size := 256
  assoc := 2
  blockSize := 64
  mshrEntryNum := 4
  level := .l1

theorem tiny_proper : tiny.Proper := ⟨rfl, 1, 6, 8, rfl, rfl, rfl, by omega, by omega⟩

/-- A write that misses, its callback, and two more blocks of the set. -/
theorem run_represents_tiny :
    ∃ l1, run tiny [.send { addr := 0, type := .write }, .callback { addr := 0, type := .read },
        .send { addr := 128, type := .read }, .send { addr := 256, type := .read }] = .ok l1 ∧
      (l1.cache.cacheLines 0).map (fun line => (line.addr, line.lock)) =
        [(128, true), (256, true)] ∧ RepOk tiny l1.cache := by
  have hrun : (run tiny [.send { addr := 0, type := .write },
      .callback { addr := 0, type := .read }, .send { addr := 128, type := .read },
      .send { addr := 256, type := .read }]).toOption.map
        (fun l1 => (l1.cache.cacheLines 0).map fun line => (line.addr, line.lock)) =
      some [(128, true), (256, true)] := by decide +kernel
  obtain ⟨l1, hl1, hlines⟩ := exists_ok_of_map hrun
  exact ⟨l1, hl1, hlines, ((run_represents tiny_proper _).result hl1).1⟩

end L1

end Ramulator
