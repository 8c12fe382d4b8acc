/-
  Ramulator.Cache.Recency

  The line an L1 evicts is the least recently used one that is not locked.

  A set is a list: an allocation puts its line at the back and a hit moves its
  line there, while a merge into a miss and a callback change lines where they
  are.  So a set is ordered by the last use of its lines (`SetAged`), and the
  first unlocked line is the one to go.
-/

import Ramulator.Cache.Dirty

namespace Ramulator

open Outcome List Function

namespace Cache

variable {cfg : CacheConfig} {c c' : Cache} {sys sys' : CacheSystem} {req : Request}
  {uses : List Int} {lines : List Line} {block : Int} {f : Line → Line} {accepted : Bool}
  {new victim : Line} {node : Nat}

structure SetAged (cfg : CacheConfig) (uses : List Int) (lines : List Line) : Prop where
  used : ∀ line ∈ lines, cfg.align line.addr ∈ uses
  order : lines.Pairwise fun x y =>
    uses.idxOf (cfg.align y.addr) < uses.idxOf (cfg.align x.addr)

section

variable (h : SetAged cfg uses lines)
include h

theorem SetAged.sublist {lines' : List Line} (hsub : lines'.Sublist lines) :
    SetAged cfg uses lines' :=
  ⟨fun line hline => h.used line (hsub.subset hline), h.order.sublist hsub⟩

section

variable (hne : ∀ line ∈ lines, cfg.align line.addr ≠ block)
include hne

theorem SetAged.use : SetAged cfg (block :: uses) lines where
  used line hline := mem_cons_of_mem _ (h.used line hline)
  order := by
    refine h.order.imp_of_mem fun {x y} hx hy hlt => ?_
    rw [idxOf_cons_ne _ (hne x hx).symm, idxOf_cons_ne _ (hne y hy).symm]
    exact Nat.succ_lt_succ hlt

theorem SetAged.push (hnew : cfg.align new.addr = block) :
    SetAged cfg (block :: uses) (lines ++ [new]) where
  used line hline := by
    rcases mem_append.mp hline with hline | hline
    · exact mem_cons_of_mem _ (h.used line hline)
    · rw [mem_singleton.mp hline, hnew]
      exact mem_cons_self
  order := by
    refine pairwise_append.mpr ⟨(h.use hne).order, pairwise_singleton _ _, ?_⟩
    intro x hx y hy
    rw [mem_singleton.mp hy, hnew, idxOf_cons_self, idxOf_cons_ne _ (hne x hx).symm]
    exact Nat.succ_pos _

end

theorem SetAged.modified (haddr : ∀ x, (f x).addr = x.addr) :
    SetAged cfg uses (modified node f lines) := by
  have hsame : ∀ x : Line, (if x.node = node then f x else x).addr = x.addr := by
    intro x
    split
    · exact haddr x
    · rfl
  refine ⟨fun line hline => ?_, pairwise_map.mpr (h.order.imp fun {x y} hlt => ?_)⟩
  · obtain ⟨y, hy, rfl⟩ := mem_modified.mp hline
    rw [hsame]
    exact h.used y hy
  · rw [hsame, hsame]
    exact hlt

/-- Of the unlocked lines the first one has not been used for the longest
    time. -/
theorem SetAged.first {line : Line} (hfirst : lines.find? (fun line => !line.lock) = some victim)
    (hline : line ∈ lines) (hlock : line.lock = false) (hne : line ≠ victim) :
    uses.idxOf (cfg.align line.addr) < uses.idxOf (cfg.align victim.addr) := by
  obtain ⟨-, front, back, rfl, hfront⟩ := find?_eq_some_iff_append.mp hfirst
  have horder := (pairwise_append.mp h.order).2.1
  rcases mem_append.mp hline with hmem | hmem
  · have hlocked := hfront line hmem
    simp [hlock] at hlocked
  · rcases mem_cons.mp hmem with heq | hmem
    · exact absurd heq hne
    · exact rel_of_pairwise_cons horder hmem

end

/-! ## Steps -/

/-- An accepted request uses its block, unless it only joins a miss that is under way. -/
def Uses (cfg : CacheConfig) (c : Cache) (req : Request) (accepted : Bool) : Bool :=
  accepted && ((isHit cfg (c.getLines cfg req.addr) req.addr).isSome ||
    (c.hitMshr cfg req.addr).isNone)

def usesAfter (cfg : CacheConfig) (c : Cache) (req : Request) (accepted : Bool)
    (uses : List Int) : List Int :=
  if Uses cfg c req accepted then cfg.align req.addr :: uses else uses

theorem uses_sent (hsent : Sent cfg c sys req accepted c' sys') :
    Uses cfg c req accepted = true ↔ c'.nodes = c.nodes + 1 := by
  cases hsent with
  | hit hmem htag hlock hhit => simp [Uses, hhit]
  | @merged entry hmiss hentry hblock =>
    have hmshr : (c.hitMshr cfg req.addr).isNone = false := by
      rw [← Option.not_isSome]
      simp only [Bool.not_eq_false']
      exact find?_isSome.mpr ⟨entry, hentry, decide_eq_true hblock⟩
    simp [Uses, hmiss, hmshr, setLines]
  | refused => simp [Uses]
  | missed hmiss hfresh hnum habsent hroom =>
    have hmshr : c.hitMshr cfg req.addr = none :=
      find?_eq_none.mpr fun entry hentry => by simpa using hfresh entry hentry
    simp [Uses, hmshr, missed]

def Aged (cfg : CacheConfig) (uses : List Int) (c : Cache) : Prop :=
  ∀ i, SetAged cfg uses (c.cacheLines i)

theorem Aged.modified (h : Aged cfg uses c) (i : Int) (node : Nat)
    (haddr : ∀ x, (f x).addr = x.addr) :
    Aged cfg uses (c.setLines i (Cache.modified node f (c.cacheLines i))) :=
  forall_update (P := fun _ => SetAged cfg uses) (fun j _ => h j) ((h i).modified haddr)

/-- The block that is used has no line but the one that comes to the back of its
    set. -/
theorem Aged.replace (hp : cfg.Proper) (h : Aged cfg uses c) (hinv : Inv cfg c) {rest : List Line}
    (hsub : rest.Sublist (c.getLines cfg req.addr))
    (habsent : ∀ line ∈ rest, line.tag ≠ cfg.getTag req.addr)
    (hnew : cfg.align new.addr = cfg.align req.addr) (j : Int) :
    SetAged cfg (cfg.align req.addr :: uses)
      (update c.cacheLines (cfg.getIndex req.addr) (rest ++ [new]) j) := by
  refine forall_update (P := fun _ => SetAged cfg _) (fun j hj => ?_) ?_ j
  · refine (h j).use fun line hline hblock => hj ?_
    rw [← ((hinv.set j).placed line hline).1]
    exact ((hp.align_eq_iff _ _).mp hblock).1
  · refine ((h _).sublist hsub).push (fun line hline hblock => ?_) hnew
    exact habsent line hline ((hinv.tag_iff hp (hsub.subset hline)).mpr hblock)

theorem Aged.sent (hp : cfg.Proper) (h : Aged cfg uses c) (hinv : Inv cfg c)
    (hsent : Sent cfg c sys req accepted c' sys') :
    Aged cfg (usesAfter cfg c req accepted uses) c' := by
  have huses := uses_sent hsent
  unfold usesAfter
  cases hsent with
  | @hit line hmem htag hlock =>
    rw [if_pos (huses.mpr rfl)]
    refine h.replace hp hinv eraseP_sublist (fun x hx hxtag => ?_) rfl
    obtain ⟨hx, hne⟩ := (hinv.set _).mem_eraseLine_iff.mp hx
    exact hne (congrArg Line.node ((hinv.set _).eq_of_tag hx hmem (hxtag.trans htag.symm)))
  | merged =>
    rw [if_neg fun hused => absurd (huses.mp hused) (Nat.lt_succ_self _).ne]
    exact h.modified _ _ fun _ => rfl
  | refused => exact h
  | @missed victim hmiss hfresh hnum habsent hroom =>
    rw [if_pos (huses.mpr rfl)]
    refine h.replace hp hinv ?_ (fun x hx => habsent x (mem_of_mem_without hx)) rfl
    cases victim with
    | none => exact List.Sublist.refl _
    | some v => exact eraseP_sublist

theorem Aged.called (h : Aged cfg uses c) (hcalled : Called cfg c req c') : Aged cfg uses c' := by
  cases hcalled with
  | none => exact h
  | unlocked => exact h.modified _ _ fun _ => rfl

/-! ## The victim -/

/-- The line of set `i` is gone, and nothing of its block has come instead. -/
def Evicts (c c' : Cache) (i : Int) (victim : Line) : Prop :=
  victim ∈ c.cacheLines i ∧ ∀ line ∈ c'.cacheLines i, line.tag ≠ victim.tag

/-- What a full set loses between `c` and `c'` is the unlocked line with the oldest use. -/
def EvictsLru (cfg : CacheConfig) (uses : List Int) (c c' : Cache) : Prop :=
  ∀ i victim, Evicts c c' i victim →
    cfg.assoc ≤ (c.cacheLines i).length ∧ victim.lock = false ∧
    (∀ line ∈ c.cacheLines i, cfg.align line.addr ∈ uses) ∧
    ∀ line ∈ c.cacheLines i, line.lock = false → line ≠ victim →
      uses.idxOf (cfg.align line.addr) < uses.idxOf (cfg.align victim.addr)

theorem Inv.evicts_replace (hinv : Inv cfg c) {i j : Int} {gone : Option Line}
    (hmem : ∀ line, gone = some line → line ∈ c.cacheLines i) {entries : List (Int × LineIter)}
    {nodes : Nat}
    (hevicts : Evicts c ⟨update c.cacheLines i (without (c.cacheLines i) gone ++ [new]),
      entries, nodes⟩ j victim) : j = i ∧ gone = some victim ∧ new.tag ≠ victim.tag := by
  obtain ⟨hvictim, hgone⟩ := hevicts
  by_cases hj : j = i
  · subst hj
    simp only [update_self] at hgone
    refine ⟨rfl, ?_, hgone new (mem_append_right _ (mem_singleton.mpr rfl))⟩
    cases gone with
    | none => exact absurd rfl (hgone victim (mem_append_left _ hvictim))
    | some line =>
      by_contra hne
      refine hgone victim (mem_append_left _ ?_) rfl
      refine (hinv.set j).mem_eraseLine_iff.mpr ⟨hvictim, fun hnode => hne ?_⟩
      rw [(hinv.set j).eq_of_node hvictim (hmem line rfl) hnode]
  · simp only [update_of_ne hj] at hgone
    exact absurd rfl (hgone victim hvictim)

theorem not_evicts_modified {i j : Int}
    (hevicts : Evicts c (c.setLines i (Cache.modified node f (c.cacheLines i))) j victim)
    (htag : ∀ x, (f x).tag = x.tag) : False := by
  obtain ⟨hvictim, hgone⟩ := hevicts
  have hsame : ∀ k, ((c.setLines i (Cache.modified node f (c.cacheLines i))).cacheLines k).map
      (·.tag) = (c.cacheLines k).map (·.tag) :=
    forall_update (P := fun k lines => lines.map (·.tag) = (c.cacheLines k).map (·.tag))
      (fun _ _ => rfl) (map_modified htag _)
  have htags : victim.tag ∈ (c.cacheLines j).map (·.tag) := mem_map_of_mem hvictim
  rw [← hsame j] at htags
  obtain ⟨line, hline, heq⟩ := mem_map.mp htags
  exact hgone line hline heq

theorem Aged.evictsLru (h : Aged cfg uses c) (hinv : Inv cfg c)
    (hsent : Sent cfg c sys req accepted c' sys') : EvictsLru cfg uses c c' := by
  intro i victim hevicts
  cases hsent with
  | @hit line hmem htag =>
    -- the new line has the tag of the line it replaces
    have hhit : ∀ l, some line = some l → l ∈ c.cacheLines _ := fun l hl => by cases hl; exact hmem
    obtain ⟨-, hgone, hnew⟩ := hinv.evicts_replace hhit hevicts
    cases hgone
    exact absurd htag.symm hnew
  | merged => exact (not_evicts_modified hevicts fun _ => rfl).elim
  | refused => exact absurd rfl (hevicts.2 victim hevicts.1)
  | missed hmiss hfresh hnum habsent hroom =>
    obtain ⟨rfl, hgone, -⟩ := hinv.evicts_replace (fun l hl => (hroom.unlocked l hl).1) hevicts
    cases hroom with
    | free => cases hgone
    | victim hfull hmem hlock hfirst =>
      cases hgone
      exact ⟨Nat.le_of_not_lt hfull, hlock, (h _).used, fun line hline hunlocked hne =>
        (h _).first hfirst hline hunlocked hne⟩

end Cache

/-! ## Runs -/

/-- An L1 with the blocks of its allocations and hits, the last one first. -/
structure Used where
  l1 : L1 := {}
  uses : List Int := []

namespace Used

variable {cfg : CacheConfig}

def step (cfg : CacheConfig) (st : Used) : L1Op → Except Abort Used
  | .send req => do
      let (accepted, cache, sys) ← st.l1.cache.send cfg st.l1.sys req
      pure ⟨⟨cache, sys⟩, st.l1.cache.usesAfter cfg req accepted st.uses⟩
  | .callback req => do
      let cache ← st.l1.cache.callback cfg req
      pure { st with l1 := { st.l1 with cache } }
  | .system sys => pure { st with l1 := { st.l1 with sys } }

def run (cfg : CacheConfig) (ops : List L1Op) : Except Abort Used := ops.foldlM (step cfg) {}

theorem run_aged (hp : cfg.Proper) (ops : List L1Op) :
    Ends (run cfg ops) (fun st => Cache.Inv cfg st.l1.cache ∧ st.l1.cache.Aged cfg st.uses)
      (fun e => e = .requestType) := by
  apply Ends.foldlM (I := fun st : Used => Cache.Inv cfg st.l1.cache ∧ st.l1.cache.Aged cfg st.uses)
    ops ⟨Cache.Inv.new cfg, fun i => ⟨forall_mem_nil _, List.Pairwise.nil⟩⟩
  rintro st op - ⟨hinv, haged⟩
  cases op with
  | send req =>
    apply Ends.bind ((hinv.send_ends hp st.l1.sys req).weaken_abort (fun _ he => he.1))
    rintro ⟨accepted, cache, sys⟩ ⟨hsent, hinv'⟩
    exact ⟨hinv', haged.sent hp hinv hsent⟩
  | callback req =>
    apply Ends.bind ((hinv.callback_ends req).weaken_abort (fun _ he => he.elim))
    rintro cache ⟨hcalled, hinv'⟩
    exact ⟨hinv', haged.called hcalled⟩
  | system sys => exact ⟨hinv, haged⟩

/-- Least recently used replacement: what a `send` evicts after any interleaving
    of calls is, of the unlocked lines of a full set, the one whose last
    allocation or hit is the oldest. -/
theorem run_evictsLru (hp : cfg.Proper) (ops : List L1Op) (req : Request) : Ends (run cfg ops)
      (fun st => Ends (st.l1.cache.send cfg st.l1.sys req)
        (fun out => Cache.EvictsLru cfg st.uses st.l1.cache out.2.1) (fun e => e = .requestType))
      (fun e => e = .requestType) := by
  refine (run_aged hp ops).weaken ?_
  rintro st ⟨hinv, haged⟩
  refine (hinv.send_ends hp st.l1.sys req).imp ?_ (fun _ he => he.1)
  rintro out ⟨hsent, -⟩
  exact haged.evictsLru hinv hsent

/-- Blocks 0 and 128 of one set are fetched and 0 is hit again: the fetch of 256
    evicts 128, though 0 was allocated before it. -/
theorem run_evictsLru_hit : ∃ st out, run L1.tiny [.send { addr := 0, type := .read },
        .callback { addr := 0, type := .read }, .send { addr := 128, type := .read },
        .callback { addr := 128, type := .read }, .send { addr := 0, type := .read }] = .ok st ∧
      st.l1.cache.send L1.tiny st.l1.sys { addr := 256, type := .read } = .ok out ∧
      st.uses = [0, 128, 0] ∧ (out.2.1.cacheLines 0).map (·.addr) = [0, 256] ∧
      Cache.EvictsLru L1.tiny st.uses st.l1.cache out.2.1 := by
  have hrun : (show Except Abort (Used × Bool × Cache × CacheSystem) from do
      let st ← run L1.tiny [.send { addr := 0, type := .read },
        .callback { addr := 0, type := .read }, .send { addr := 128, type := .read },
        .callback { addr := 128, type := .read }, .send { addr := 0, type := .read }]
      let out ← st.l1.cache.send L1.tiny st.l1.sys { addr := 256, type := .read }
      pure (st, out)).toOption.map (fun r =>
        (r.1.uses, (r.2.2.1.cacheLines 0).map (·.addr))) = some ([0, 128, 0], [0, 256]) := by
    decide +kernel
  obtain ⟨r, hr, hvalue⟩ := exists_ok_of_map hrun
  obtain ⟨st, hst, hr⟩ := bind_ok.mp hr
  obtain ⟨out, hout, hr⟩ := bind_ok.mp hr
  cases hr
  obtain ⟨huses, hlines⟩ := Prod.mk.inj hvalue
  exact ⟨st, out, hst, hout, huses, hlines,
    ((run_evictsLru L1.tiny_proper _ _).result hst).result hout⟩

end Used

end Ramulator
