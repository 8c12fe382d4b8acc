/-
  Ramulator.Cache.Dirty

  Dirty data is not lost.

  The record of a run (`L1Event`) has the writes an L1 has accepted and the
  writes it has put into `wait_list`, block by block.  A block that was written
  since its last write back is in its set, and dirty (`DirtyOk`).
-/

import Mathlib.Data.List.Induction
import Ramulator.Cache.Invariant

namespace Ramulator

open Outcome List Function

/-- A write to the block is accepted, or a write of it goes to `wait_list`. -/
inductive L1Event where
  | wrote (block : Int)
  | writtenBack (block : Int)
deriving DecidableEq, Repr

/-- A write to the block was accepted since the last write of it was put into
    `wait_list`. -/
def Unwritten (events : List L1Event) (block : Int) : Prop :=
  ∃ before after, events = before ++ .wrote block :: after ∧ .writtenBack block ∉ after

theorem Unwritten.of_append_singleton {events : List L1Event} {e : L1Event} {block : Int}
    (h : Unwritten (events ++ [e]) block) :
    e = .wrote block ∨ (e ≠ .writtenBack block ∧ Unwritten events block) := by
  obtain ⟨before, after, heq, hafter⟩ := h
  rcases eq_nil_or_concat after with rfl | ⟨init, last, rfl⟩
  · obtain ⟨-, hlast⟩ := append_inj' heq rfl
    exact Or.inl (singleton_inj.mp hlast)
  · rw [concat_eq_append, ← cons_append, ← append_assoc] at heq
    obtain ⟨hevents, hlast⟩ := append_inj' heq rfl
    have he : e = last := singleton_inj.mp hlast
    subst he
    rw [concat_eq_append] at hafter
    refine Or.inr ⟨fun hback => hafter ?_, before, init, hevents, fun hmem => hafter ?_⟩
    · rw [hback]
      exact mem_append_right _ (mem_singleton.mpr rfl)
    · exact mem_append_left _ hmem

theorem Unwritten.of_append {events more : List L1Event} {block : Int}
    (hmore : .wrote block ∉ more) (h : Unwritten (events ++ more) block) :
    .writtenBack block ∉ more ∧ Unwritten events block := by
  induction more using List.reverseRecOn with
  | nil =>
    rw [append_nil] at h
    refine ⟨fun hmem => ?_, h⟩
    cases hmem
  | append_singleton init e ih =>
    rw [← append_assoc] at h
    rcases h.of_append_singleton with rfl | ⟨hne, hinit⟩
    · exact absurd (mem_append_right _ (mem_singleton.mpr rfl)) hmore
    · obtain ⟨hback, hevents⟩ := ih (fun hmem => hmore (mem_append_left _ hmem)) hinit
      refine ⟨fun hmem => ?_, hevents⟩
      rcases mem_append.mp hmem with hmem | hmem
      · exact hback hmem
      · exact hne (mem_singleton.mp hmem).symm

variable {accepted : Bool}

namespace Cache

variable {cfg : CacheConfig} {c c' : Cache} {sys sys' : CacheSystem} {req : Request} {addr i : Int}
  {nodes : Nat}

/-- The line of the block of `addr` is there, and dirty. -/
def HasDirty (cfg : CacheConfig) (c : Cache) (addr : Int) : Prop :=
  ∃ line ∈ c.getLines cfg addr, cfg.align line.addr = cfg.align addr ∧ line.dirty = true

theorem HasDirty.congr (hp : cfg.Proper) {addr' : Int} (h : HasDirty cfg c addr)
    (hsame : cfg.align addr = cfg.align addr') : HasDirty cfg c addr' := by
  obtain ⟨line, hline, hblock, hdirty⟩ := h
  refine ⟨line, ?_, hblock.trans hsame, hdirty⟩
  unfold getLines
  rw [← ((hp.align_eq_iff _ _).mp hsame).1]
  exact hline

theorem Inv.tag_iff (hp : cfg.Proper) (h : Inv cfg c) {line : Line}
    (hline : line ∈ c.getLines cfg addr) :
    line.tag = cfg.getTag addr ↔ cfg.align line.addr = cfg.align addr := by
  obtain ⟨hindex, htag⟩ := (h.set _).placed line hline
  rw [hp.align_eq_iff, htag]
  constructor
  · intro heq
    exact ⟨hindex, heq⟩
  · intro hand
    exact hand.2

variable {entries : List (Int × LineIter)}

/-- An unlocked line goes and a line comes: a dirty line of another block
    stays. -/
theorem Inv.hasDirty_replace (h : Inv cfg c) (victim : Option Line) (new : Line)
    (hdirty : HasDirty cfg c addr) (hvictim : ∀ line, victim = some line →
      line ∈ c.cacheLines i ∧ (line.dirty = true → cfg.align line.addr ≠ cfg.align addr)) :
    HasDirty cfg ⟨update c.cacheLines i (without (c.cacheLines i) victim ++ [new]),
      entries, nodes⟩ addr := by
  obtain ⟨line, hline, hblock, hdirty⟩ := hdirty
  refine ⟨line, ?_, hblock, hdirty⟩
  show line ∈ update c.cacheLines i _ (cfg.getIndex addr)
  by_cases hi : cfg.getIndex addr = i
  · have hmem : line ∈ c.cacheLines i := hi ▸ hline
    rw [hi, update_self]
    apply mem_append_left
    cases victim with
    | none => exact hmem
    | some v =>
      obtain ⟨hv, hother⟩ := hvictim v rfl
      refine (h.set i).mem_eraseLine_iff.mpr ⟨hmem, fun hsame => ?_⟩
      have heq := (h.set i).eq_of_node hmem hv hsame
      rw [heq] at hblock hdirty
      exact hother hdirty hblock
  · rw [update_of_ne hi]
    exact hline

theorem hasDirty_new (lines : List Line) (new : Line) {sets : Int → List Line}
    (hi : cfg.getIndex addr = i) (hblock : cfg.align new.addr = cfg.align addr)
    (hdirty : new.dirty = true) :
    HasDirty cfg ⟨update sets i (lines ++ [new]), entries, nodes⟩ addr := by
  refine ⟨new, ?_, hblock, hdirty⟩
  show new ∈ update sets i _ (cfg.getIndex addr)
  rw [hi, update_self]
  exact mem_append_right _ (mem_singleton.mpr rfl)

theorem hasDirty_modified {node : Nat} {f : Line → Line} (haddr : ∀ x, (f x).addr = x.addr)
    (hf : ∀ x, x.dirty = true → (f x).dirty = true) (h : HasDirty cfg c addr) :
    HasDirty cfg { c.setLines i (modified node f (c.cacheLines i)) with
      mshrEntries := entries } addr := by
  obtain ⟨line, hline, hblock, hdirty⟩ := h
  by_cases hi : cfg.getIndex addr = i
  · have hmem : line ∈ c.cacheLines i := hi ▸ hline
    refine ⟨if line.node = node then f line else line, ?_, ?_⟩
    · show _ ∈ update c.cacheLines i _ (cfg.getIndex addr)
      rw [hi, update_self]
      exact mem_modified.mpr ⟨line, hmem, rfl⟩
    · split
      · rw [haddr]
        exact ⟨hblock, hf line hdirty⟩
      · exact ⟨hblock, hdirty⟩
  · refine ⟨line, ?_, hblock, hdirty⟩
    show line ∈ update c.cacheLines i _ (cfg.getIndex addr)
    rw [update_of_ne hi]
    exact hline

/-- A write that is accepted makes the line of its block dirty, and what was
    dirty stays so unless it is evicted. -/
theorem Inv.hasDirty_sent (hp : cfg.Proper) (h : Inv cfg c)
    (hsent : Sent cfg c sys req accepted c' sys') :
    (accepted = true → req.type = .write → HasDirty cfg c' req.addr) ∧
      ∀ addr, HasDirty cfg c addr → HasDirty cfg c' addr ∨
        ∃ victim : Line, victim.dirty = true ∧ cfg.align victim.addr = cfg.align addr ∧
          cfg.align addr ≠ cfg.align req.addr ∧
          sys'.waitList = sys.waitList ++ writtenBack cfg sys (some victim) ++
            [(sys.clk + cfg.latency, { req with type := .read })] := by
  cases hsent with
  | @hit line hmem htag hlock =>
    have hblock := (h.tag_iff hp hmem).mp htag
    refine ⟨fun _ hwrite => ?_, fun addr hdirty => Or.inl ?_⟩
    · refine hasDirty_new _ (hitLine cfg c req line) rfl rfl ?_
      show (line.dirty || decide (req.type = .write)) = true
      rw [hwrite, decide_eq_true rfl, Bool.or_true]
    · by_cases hsame : line.dirty = true ∧ cfg.align line.addr = cfg.align addr
      · have hnew : cfg.align req.addr = cfg.align addr := hblock.symm.trans hsame.2
        refine hasDirty_new _ (hitLine cfg c req line)
          ((hp.align_eq_iff _ _).mp hnew).1.symm hnew ?_
        show (line.dirty || decide (req.type = .write)) = true
        rw [hsame.1, Bool.true_or]
      · apply h.hasDirty_replace (some line) _ hdirty
        intro line' hline'
        cases hline'
        exact ⟨hmem, fun hd hb => hsame ⟨hd, hb⟩⟩
  | @merged entry hmiss hentry hblock =>
    refine ⟨fun _ hwrite => ?_, fun addr hdirty => Or.inl ?_⟩
    · obtain ⟨line, hline, hnode, -, hlblock⟩ := h.mshr entry hentry
      have hindex : cfg.getIndex req.addr = entry.2.index := by
        rw [h.entry_index hp hentry]
        exact ((hp.align_eq_iff _ _).mp hblock).1.symm
      refine ⟨{ line with dirty := decide (req.type = .write) || line.dirty }, ?_,
        hlblock.trans hblock, ?_⟩
      · show _ ∈ update c.cacheLines entry.2.index _ (cfg.getIndex req.addr)
        rw [hindex, update_self]
        exact mem_modified.mpr ⟨line, hline, if_pos hnode⟩
      · show (decide (req.type = .write) || line.dirty) = true
        rw [hwrite, decide_eq_true rfl, Bool.true_or]
    · refine hasDirty_modified (f := fun line =>
        { line with dirty := decide (req.type = .write) || line.dirty }) (fun _ => rfl) ?_ hdirty
      intro x hx
      show (decide (req.type = .write) || x.dirty) = true
      rw [hx, Bool.or_true]
  | refused => exact ⟨(fun haccepted => by cases haccepted), fun addr hdirty => Or.inl hdirty⟩
  | @missed victim hmiss hfresh hnum habsent hroom =>
    refine ⟨fun _ hwrite => ?_, fun addr hdirty => ?_⟩
    · exact hasDirty_new _ (missLine cfg c req) rfl rfl (decide_eq_true hwrite)
    · by_cases hgone : ∃ line, victim = some line ∧ line.dirty = true ∧
          cfg.align line.addr = cfg.align addr
      · obtain ⟨line, rfl, hldirty, hlblock⟩ := hgone
        refine Or.inr ⟨line, hldirty, hlblock, fun hsame => ?_, rfl⟩
        -- the block of the request had no line
        obtain ⟨hmem, -⟩ := hroom.unlocked line rfl
        exact habsent line hmem ((h.tag_iff hp hmem).mpr (hlblock.trans hsame))
      · refine Or.inl (h.hasDirty_replace victim _ hdirty ?_)
        intro line hline
        exact ⟨(hroom.unlocked line hline).1, fun hd hb => hgone ⟨line, hline, hd, hb⟩⟩

def Evicted (cfg : CacheConfig) (c c' : Cache) (addr : Int) : Prop :=
  (∃ line ∈ c.getLines cfg addr, cfg.align line.addr = cfg.align addr ∧ line.dirty = true) ∧
    ∀ line ∈ c'.getLines cfg addr, cfg.align line.addr ≠ cfg.align addr

theorem Inv.evicted_of_write (hp : cfg.Proper) (h : Inv cfg c)
    (hsent : Sent cfg c sys req accepted c' sys') : ∃ new, sys'.waitList = sys.waitList ++ new ∧
      ∀ x ∈ new, x.2.type = .write → Evicted cfg c c' x.2.addr := by
  cases hsent with
  | hit => exact ⟨[], (append_nil _).symm, fun x hx => by cases hx⟩
  | merged => exact ⟨[], (append_nil _).symm, fun x hx => by cases hx⟩
  | refused => exact ⟨[], (append_nil _).symm, fun x hx => by cases hx⟩
  | @missed victim hmiss hfresh hnum habsent hroom =>
    refine ⟨_, append_assoc _ _ _, fun x hx hwrite => ?_⟩
    rcases mem_append.mp hx with hx | hx
    · cases victim with
      | none => cases hx
      | some v =>
        obtain ⟨hmem, -⟩ := hroom.unlocked v rfl
        obtain ⟨hindex, hvtag⟩ := (h.set _).placed v hmem
        unfold writtenBack at hx
        dsimp only at hx
        split at hx
        · next hdirty =>
          rw [mem_singleton.mp hx]
          refine ⟨⟨v, ?_, rfl, hdirty⟩, fun line hline hblock => ?_⟩
          · show v ∈ c.cacheLines (cfg.getIndex v.addr)
            rw [hindex]
            exact hmem
          · have hline : line ∈ update c.cacheLines (cfg.getIndex req.addr)
                (eraseLine (c.getLines cfg req.addr) v ++ [missLine cfg c req])
                (cfg.getIndex v.addr) := hline
            rw [hindex, update_self] at hline
            rcases mem_append.mp hline with hline | hline
            · obtain ⟨hline, hne⟩ := (h.set _).mem_eraseLine_iff.mp hline
              obtain ⟨-, hltag⟩ := (h.set _).placed line hline
              have htag := ((hp.align_eq_iff _ _).mp hblock).2
              exact hne (congrArg Line.node ((h.set _).eq_of_tag hline hmem
                (hltag.trans (htag.trans hvtag.symm))))
            · rw [mem_singleton.mp hline] at hblock
              exact habsent v hmem ((h.tag_iff hp hmem).mpr hblock.symm)
        · cases hx
    · rw [mem_singleton.mp hx] at hwrite
      cases hwrite

end Cache

/-! ## Runs -/

structure Recorded where
  l1 : L1 := {}
  events : List L1Event := []

namespace Recorded

variable {cfg : CacheConfig} {st : Recorded} {req : Request}

def appendedWrites (cfg : CacheConfig) (sys sys' : CacheSystem) : List L1Event :=
  ((sys'.waitList.drop sys.waitList.length).filter fun x => decide (x.2.type = .write)).map
    fun x => .writtenBack (cfg.align x.2.addr)

def step (cfg : CacheConfig) (st : Recorded) : L1Op → Except Abort Recorded
  | .send req => do
      let (accepted, cache, sys) ← st.l1.cache.send cfg st.l1.sys req
      pure ⟨⟨cache, sys⟩, st.events ++ appendedWrites cfg st.l1.sys sys ++
        if accepted ∧ req.type = .write then [.wrote (cfg.align req.addr)] else []⟩
  | .callback req => do
      let cache ← st.l1.cache.callback cfg req
      pure { st with l1 := { st.l1 with cache } }
  | .system sys => pure { st with l1 := { st.l1 with sys } }

def run (cfg : CacheConfig) (ops : List L1Op) : Except Abort Recorded := ops.foldlM (step cfg) {}

/-- A block that was written since its last write back is there, and dirty. -/
def DirtyOk (cfg : CacheConfig) (st : Recorded) : Prop :=
  ∀ addr, Unwritten st.events (cfg.align addr) → Cache.HasDirty cfg st.l1.cache addr

theorem appendedWrites_eq {sys sys' : CacheSystem} {new : List (Int × Request)}
    (h : sys'.waitList = sys.waitList ++ new) :
    appendedWrites cfg sys sys' = (new.filter fun x => decide (x.2.type = .write)).map
      fun x => .writtenBack (cfg.align x.2.addr) := by
  unfold appendedWrites
  rw [h, drop_left]

theorem wrote_not_mem_appendedWrites (cfg : CacheConfig) (sys sys' : CacheSystem) (block : Int) :
    .wrote block ∉ appendedWrites cfg sys sys' := by
  intro hmem
  obtain ⟨x, -, heq⟩ := mem_map.mp hmem
  cases heq

theorem DirtyOk.send (hp : cfg.Proper) (h : DirtyOk cfg st) (hinv : Cache.Inv cfg st.l1.cache)
    {cache : Cache} {sys : CacheSystem}
    (hsent : Cache.Sent cfg st.l1.cache st.l1.sys req accepted cache sys) :
    DirtyOk cfg ⟨⟨cache, sys⟩, st.events ++ appendedWrites cfg st.l1.sys sys ++
      if accepted ∧ req.type = .write then [.wrote (cfg.align req.addr)] else []⟩ := by
  obtain ⟨hnew, hkept⟩ := hinv.hasDirty_sent hp hsent
  -- before the write of this request itself
  have hold : ∀ addr, Unwritten (st.events ++ appendedWrites cfg st.l1.sys sys) (cfg.align addr) →
      Cache.HasDirty cfg cache addr := by
    intro addr hunwritten
    obtain ⟨hback, hevents⟩ :=
      hunwritten.of_append (wrote_not_mem_appendedWrites cfg st.l1.sys sys _)
    rcases hkept addr (h addr hevents) with hdirty | ⟨victim, hvdirty, hvblock, -, hwait⟩
    · exact hdirty
    · rw [append_assoc] at hwait
      rw [appendedWrites_eq hwait] at hback
      refine absurd ?_ hback
      apply mem_map.mpr
      refine ⟨(st.l1.sys.clk + cfg.latency, { addr := victim.addr, type := .write, coreid := 0 }),
        mem_filter.mpr ⟨mem_append_left _ ?_, rfl⟩, congrArg L1Event.writtenBack hvblock⟩
      unfold Cache.writtenBack
      dsimp only
      rw [if_pos hvdirty]
      exact mem_singleton.mpr rfl
  intro addr hunwritten
  dsimp only at hunwritten ⊢
  split at hunwritten
  · next hwrite =>
    rcases hunwritten.of_append_singleton with hself | ⟨-, hunwritten⟩
    · exact (hnew hwrite.1 hwrite.2).congr hp (L1Event.wrote.inj hself)
    · exact hold addr hunwritten
  · rw [append_nil] at hunwritten
    exact hold addr hunwritten

theorem DirtyOk.callback (h : DirtyOk cfg st) {cache : Cache}
    (hcalled : Cache.Called cfg st.l1.cache req cache) :
    DirtyOk cfg { st with l1 := { st.l1 with cache } } := by
  intro addr hunwritten
  cases hcalled with
  | none => exact h addr hunwritten
  | unlocked =>
    exact Cache.hasDirty_modified (f := fun line => { line with lock := false })
      (fun _ => rfl) (fun _ hx => hx) (h addr hunwritten)

theorem run_dirtyOk (hp : cfg.Proper) (ops : List L1Op) :
    Ends (run cfg ops) (fun st => Cache.Inv cfg st.l1.cache ∧ DirtyOk cfg st)
      (fun e => e = .requestType) := by
  have hinit : DirtyOk cfg {} := by
    rintro addr ⟨before, after, heq, -⟩
    cases before with
    | nil => cases heq
    | cons _ _ => cases heq
  apply Ends.foldlM (I := fun st : Recorded => Cache.Inv cfg st.l1.cache ∧ DirtyOk cfg st) ops
    ⟨Cache.Inv.new cfg, hinit⟩
  rintro st op _ ⟨hinv, h⟩
  cases op with
  | send req =>
    apply Ends.bind ((hinv.send_ends hp st.l1.sys req).weaken_abort (fun _ he => he.1))
    rintro ⟨accepted, cache, sys⟩ ⟨hsent, hinv'⟩
    exact ⟨hinv', h.send hp hinv hsent⟩
  | callback req =>
    apply Ends.bind ((hinv.callback_ends req).weaken_abort (fun _ he => he.elim))
    rintro cache ⟨hcalled, hinv'⟩
    exact ⟨hinv', h.callback hcalled⟩
  | system sys => exact ⟨hinv, h⟩

/-- After every run a block that was written since its last write back is in its
    set and dirty, and the next request puts a write into `wait_list` only for a
    dirty line that it evicts. -/
theorem run_keeps_dirty (hp : cfg.Proper) (ops : List L1Op) : Ends (run cfg ops)
      (fun st => DirtyOk cfg st ∧ ∀ req, Ends (st.l1.cache.send cfg st.l1.sys req)
        (fun out => ∃ new, out.2.2.waitList = st.l1.sys.waitList ++ new ∧
          ∀ x ∈ new, x.2.type = .write → Cache.Evicted cfg st.l1.cache out.2.1 x.2.addr)
        (fun e => e = .requestType)) (fun e => e = .requestType) := by
  refine (run_dirtyOk hp ops).weaken (fun st hst => ⟨hst.2, fun req => ?_⟩)
  exact (hst.1.send_ends hp st.l1.sys req).imp (fun _ hout => hst.1.evicted_of_write hp hout.1)
    (fun _ he => he.1)

/-- A block is written, comes, and is evicted by the second of two others. -/
theorem run_keeps_dirty_tiny : ∃ st, run L1.tiny [.send { addr := 0, type := .write },
        .callback { addr := 0, type := .read }, .send { addr := 128, type := .read },
        .send { addr := 256, type := .read }] = .ok st ∧
      st.events = [.wrote 0, .writtenBack 0] ∧ DirtyOk L1.tiny st := by
  have hrun : (run L1.tiny [.send { addr := 0, type := .write },
      .callback { addr := 0, type := .read }, .send { addr := 128, type := .read },
      .send { addr := 256, type := .read }]).toOption.map (fun st => st.events) =
      some [.wrote 0, .writtenBack 0] := by decide +kernel
  obtain ⟨st, hst, hevents⟩ := exists_ok_of_map hrun
  exact ⟨st, hst, hevents, ((run_keeps_dirty L1.tiny_proper _).result hst).1⟩

end Recorded

end Ramulator
