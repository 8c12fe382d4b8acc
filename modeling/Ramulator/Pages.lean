/-
  Ramulator.Pages

  Random page allocation (`page_allocator` of HMC_Memory.h and Memory.h).

  Both memories have the same code and the same variables for it: the owner of
  each physical page, -1 if it has none, the number of pages without owner, and
  the table of the pages that were assigned.  `PagePool` is that part of a memory.

  A pair of core and virtual page that is not in the table gets a page without
  owner: the one that is drawn, or the next one from there, going round.  Once
  there is none left, pages are shared.
-/

import Mathlib.Data.List.Count
import Ramulator.Hmc.Memory

namespace Ramulator

open Outcome List Function

structure PagePool where
  freePhysicalPages : List Int
  freePhysicalPagesRemaining : Nat
  pageTranslation : Int × Int → Option Int := fun _ => none
  lrandCount : Nat := 0

namespace PagePool

variable (lrand : Nat → Nat)

def new (pages : Nat) : PagePool where
  freePhysicalPages := replicate pages (-1)
  freePhysicalPagesRemaining := pages

def assignPage (p : PagePool) (target : Int × Int) : Except Abort (Int × PagePool) := do
  let page := lrand p.lrandCount % p.freePhysicalPages.length
  let p := { p with lrandCount := p.lrandCount + 1 }
  let owner ← Vec.at p.freePhysicalPages page
  if p.freePhysicalPagesRemaining = 0 then
    -- all pages are taken: share one
    if owner = -1 then throw .physicalPage
    else pure (page, { p with
      pageTranslation := update p.pageTranslation target (some page) })
  else
    let page :=
      if owner = -1 then page
      else Memory.searchPage p.freePhysicalPages page p.freePhysicalPages.length page
    if p.freePhysicalPages.getD page 0 = -1 then
      pure (page, { p with
        pageTranslation := update p.pageTranslation target (some page)
        freePhysicalPages := p.freePhysicalPages.set page target.1
        freePhysicalPagesRemaining := p.freePhysicalPagesRemaining - 1 })
    else throw .physicalPage

def pageOf (p : PagePool) (target : Int × Int) : Except Abort (Int × PagePool) :=
  match p.pageTranslation target with
  | some page => pure (page, p)
  | none => p.assignPage lrand target

def pageAllocator (p : PagePool) (addr coreid : Int) : Except Abort (Int × PagePool) := do
  let (page, p) ← p.pageOf lrand (coreid, addr >>> 12)
  -- page << 12 | (addr & ((1 << 12) - 1))
  pure (page * 2 ^ 12 + addr % 2 ^ 12, p)

end PagePool

def Memory.pagePool (m : Memory) : PagePool where
  freePhysicalPages := m.freePhysicalPages
  freePhysicalPagesRemaining := m.freePhysicalPagesRemaining
  pageTranslation := m.pageTranslation
  lrandCount := m.lrandCount

/-- The same page, and the same page allocation afterwards. -/
def SamePages {σ : Type} (pool : σ → PagePool) (out : Int × σ) (out' : Int × PagePool) : Prop :=
  out.1 = out'.1 ∧ pool out.2 = out'.2

theorem Memory.pageAllocator_pagePool {cfg : MemoryConfig} (hrandom : cfg.translation = .random)
    (m : Memory) (addr coreid : Int) : Sim (SamePages pagePool) (m.pageAllocator cfg addr coreid)
      (m.pagePool.pageAllocator cfg.lrand addr coreid) := by
  have hpage (target : Int × Int) : Sim (SamePages pagePool) (m.pageOf cfg target)
      (m.pagePool.pageOf cfg.lrand target) := by
    unfold Memory.pageOf PagePool.pageOf
    show Sim _ _ (match m.pageTranslation target with | some page => _ | none => _)
    cases m.pageTranslation target with
    | some page => exact ⟨rfl, rfl⟩
    | none =>
      apply Sim.bind_same
      intro owner
      apply Sim.ite
      · intro _
        apply Sim.ite
        · intro _
          exact rfl
        · intro _
          exact ⟨rfl, rfl⟩
      · intro _
        apply Sim.ite
        · intro _
          exact ⟨rfl, rfl⟩
        · intro _
          exact rfl
  unfold Memory.pageAllocator PagePool.pageAllocator
  rw [hrandom]
  apply Sim.bind (hpage _)
  rintro ⟨page, m'⟩ ⟨page', p'⟩ ⟨rfl, hpool⟩
  exact ⟨rfl, hpool⟩

/-! ## The search -/

/-- From `start` on, `i` pages further, the search ends at a page without owner
    if there is one `k` pages from `start`. -/
theorem searchPage_from {pages : List Int} {start k : Nat} (hk : k < pages.length)
    (hfree : pages[(start + k) % pages.length]? = some (-1)) (hstart : start < pages.length)
    (fuel i : Nat) (hi : i < k) (hfuel : k ≤ i + fuel) :
    pages[Memory.searchPage pages start fuel ((start + i) % pages.length)]? = some (-1) := by
  induction fuel generalizing i with
  | zero => omega
  | succ fuel ih =>
    have hnext : ((start + i) % pages.length + 1) % pages.length =
        (start + (i + 1)) % pages.length := by
      rw [Nat.mod_add_mod]
      rfl
    have hpage : (start + (i + 1)) % pages.length < pages.length := Nat.mod_lt _ (by omega)
    unfold Memory.searchPage
    dsimp only
    rw [hnext]
    by_cases hk' : i + 1 = k
    · rw [hk', if_neg]
      · exact hfree
      · rw [getD_eq_getElem?_getD, hfree]
        simp
    · split
      · exact ih (i + 1) (by omega) (by omega)
      · next hstop =>
        -- it is not back at `start`, so the page is free
        have hne : (start + (i + 1)) % pages.length ≠ start := by
          intro heq
          have := Nat.sub_mod_eq_zero_of_mod_eq (heq.trans (Nat.mod_eq_of_lt hstart).symm)
          rw [Nat.add_sub_cancel_left, Nat.mod_eq_of_lt (by omega)] at this
          omega
        rw [getD_eq_getElem?_getD, getElem?_eq_getElem hpage] at hstop
        rw [getElem?_eq_getElem hpage]
        simpa [hne] using hstop

theorem searchPage_free {pages : List Int} {start : Nat} (hfree : (-1) ∈ pages)
    (hstart : start < pages.length) (howner : pages[start]? ≠ some (-1)) :
    pages[Memory.searchPage pages start pages.length start]? = some (-1) := by
  obtain ⟨f, hf, hget⟩ := mem_iff_getElem.mp hfree
  have hne : f ≠ start := by
    intro heq
    subst heq
    exact howner (List.getElem?_eq_some_iff.mpr ⟨hf, hget⟩)
  -- how far the page is from `start`, going round
  obtain ⟨k, hk, hpos, hmod⟩ : ∃ k, k < pages.length ∧ 0 < k ∧ (start + k) % pages.length = f := by
    by_cases hle : start ≤ f
    · refine ⟨f - start, by omega, by omega, ?_⟩
      rw [Nat.add_sub_cancel' hle, Nat.mod_eq_of_lt hf]
    · refine ⟨f + pages.length - start, by omega, by omega, ?_⟩
      rw [show start + (f + pages.length - start) = f + pages.length by omega,
        Nat.add_mod_right, Nat.mod_eq_of_lt hf]
  have hfree' : pages[(start + k) % pages.length]? = some (-1) := by
    rw [hmod, List.getElem?_eq_some_iff]
    exact ⟨hf, hget⟩
  have hsearch := searchPage_from hk hfree' hstart pages.length 0 hpos (by omega)
  rwa [Nat.add_zero, Nat.mod_eq_of_lt hstart] at hsearch

/-! ## One call -/

/-- What the calls keep: the counter counts, and the pages in the table have an
    owner. -/
structure PagePool.Pooled (pages : Nat) (p : PagePool) : Prop where
  length : p.freePhysicalPages.length = pages
  counted : p.freePhysicalPagesRemaining = p.freePhysicalPages.count (-1)
  owned : ∀ target page, p.pageTranslation target = some page →
    ∃ k : Nat, page = k ∧ ∃ owner, p.freePhysicalPages[k]? = some owner ∧ owner ≠ -1

namespace PagePool

variable {lrand : Nat → Nat} {pages : Nat} {p : PagePool} {owner : Int}

theorem Pooled.new (pages : Nat) : Pooled pages (new pages) where
  length := length_replicate
  counted := by
    show pages = (replicate pages (-1)).count (-1)
    rw [count_replicate_self]
  owned target page h := by cases h

theorem Pooled.enter (h : Pooled pages p) {k : Nat}
    (hk : p.freePhysicalPages[k]? = some owner) (howner : owner ≠ -1) (target : Int × Int)
    (count : Nat) : Pooled pages { p with
      pageTranslation := update p.pageTranslation target (some (k : Int))
      lrandCount := count } where
  length := h.length
  counted := h.counted
  owned := by
    intro target' page hpage
    by_cases ht : target' = target
    · subst ht
      dsimp only at hpage
      rw [update_self] at hpage
      cases hpage
      exact ⟨k, rfl, owner, hk, howner⟩
    · dsimp only at hpage
      rw [update_of_ne ht] at hpage
      exact h.owned target' page hpage

theorem Pooled.take (h : Pooled pages p) {k : Nat} (hk : p.freePhysicalPages[k]? = some (-1))
    (howner : owner ≠ -1) : Pooled pages { p with
      freePhysicalPages := p.freePhysicalPages.set k owner
      freePhysicalPagesRemaining := p.freePhysicalPagesRemaining - 1 } where
  length := by
    rw [length_set]
    exact h.length
  counted := by
    obtain ⟨hlt, hget⟩ := List.getElem?_eq_some_iff.mp hk
    show p.freePhysicalPagesRemaining - 1 = (p.freePhysicalPages.set k owner).count (-1)
    rw [count_set hlt, hget, h.counted]
    simp [howner]
  owned := by
    intro target page hpage
    obtain ⟨j, rfl, owner', hj, howner'⟩ := h.owned target page hpage
    have hne : k ≠ j := by
      intro heq
      rw [← heq, hk] at hj
      cases hj
      exact howner' rfl
    exact ⟨j, rfl, owner', by rw [getElem?_set_ne hne]; exact hj, howner'⟩

/-- `target` has the page `k` or gets it now; while pages are free no other pair has it. -/
structure Assigned (p : PagePool) (target : Int × Int) (k : Nat) (p' : PagePool) : Prop where
  table : p'.pageTranslation = update p.pageTranslation target (some (k : Int))
  kept : ∀ page, p.pageTranslation target = some page → page = k
  fresh : p.pageTranslation target = none → 0 < p.freePhysicalPagesRemaining →
    ∀ target' page, p.pageTranslation target' = some page → page ≠ k

theorem pageOf_assigned (h : Pooled pages p) (hpages : 0 < pages) {target : Int × Int}
    (hcore : 0 ≤ target.1) : Ends (p.pageOf lrand target)
      (fun out => Pooled pages out.2 ∧ ∃ k < pages, out.1 = (k : Int) ∧ Assigned p target k out.2)
      (fun _ => False) := by
  have hcore' : target.1 ≠ -1 := by omega
  have hin {k : Nat} {owner : Int} (hk : p.freePhysicalPages[k]? = some owner) : k < pages := by
    rw [← h.length]
    exact (List.getElem?_eq_some_iff.mp hk).1
  unfold pageOf
  cases htable : p.pageTranslation target with
  | some page =>
    obtain ⟨k, rfl, owner, hk, -⟩ := h.owned target page htable
    refine ⟨h, k, hin hk, rfl, ?_, ?_, ?_⟩
    · rw [← htable, update_eq_self]
    · intro page hpage
      rw [htable] at hpage
      exact (Option.some.inj hpage).symm
    · intro hnone
      rw [htable] at hnone
      cases hnone
  | none =>
    have hkept (k : Nat) (page : Int) (hpage : p.pageTranslation target = some page) :
        page = k := by
      rw [htable] at hpage
      cases hpage
    have hdraw : lrand p.lrandCount % p.freePhysicalPages.length <
        p.freePhysicalPages.length := Nat.mod_lt _ (by rw [h.length]; exact hpages)
    have hbounds : ((lrand p.lrandCount % p.freePhysicalPages.length : Nat) : Int) < 0 ∨
        (p.freePhysicalPages.length : Int) ≤
          (lrand p.lrandCount % p.freePhysicalPages.length : Nat) → False := by omega
    apply Ends.bind (Vec.at_ends_of hbounds)
    rintro owner ⟨-, howner⟩
    rw [Int.toNat_natCast] at howner
    apply Ends.ite
    · intro hnone
      -- no page is free, so the one that is drawn has an owner
      have htaken : (-1) ∉ p.freePhysicalPages :=
        count_eq_zero.mp (h.counted.symm.trans hnone)
      have hne : owner ≠ -1 := fun heq => htaken (heq ▸ mem_of_getElem? howner)
      rw [if_neg hne]
      refine ⟨h.enter howner hne target _, _, hin howner, rfl, rfl, hkept _, ?_⟩
      intro _ hpos
      dsimp only at hnone
      omega
    · intro hsome
      have hfree : (-1) ∈ p.freePhysicalPages := by
        apply count_pos_iff.mp
        rw [← h.counted]
        exact Nat.pos_of_ne_zero hsome
      dsimp only
      -- the page drawn, or the one that the search finds
      obtain ⟨k, hk, hget⟩ : ∃ k, (if owner = -1 then
          lrand p.lrandCount % p.freePhysicalPages.length
        else Memory.searchPage p.freePhysicalPages
          (lrand p.lrandCount % p.freePhysicalPages.length) p.freePhysicalPages.length
          (lrand p.lrandCount % p.freePhysicalPages.length)) = k ∧
          p.freePhysicalPages[k]? = some (-1) := by
        refine ⟨_, rfl, ?_⟩
        split
        · next heq => rw [howner, heq]
        · next hne =>
          apply searchPage_free hfree hdraw
          rw [howner]
          simpa using hne
      rw [hk, if_pos (by rw [getD_eq_getElem?_getD, hget]; rfl)]
      have howned : (p.freePhysicalPages.set k target.1)[k]? = some target.1 :=
        getElem?_set_self (List.getElem?_eq_some_iff.mp hget).1
      refine ⟨(h.take hget hcore').enter howned hcore' target _, k, hin hget, rfl, rfl, hkept k, ?_⟩
      intro _ _ target' page hpage heq
      obtain ⟨j, rfl, owner', hj, howner'⟩ := h.owned target' page hpage
      rw [Int.ofNat.inj heq, hget] at hj
      cases hj
      exact howner' rfl

end PagePool

/-! ## Sequences of calls -/

structure PageCall where
  addr : Int
  coreid : Int
  /-- `free_physical_pages_remaining` before the call. -/
  remaining : Nat
  phys : Int

namespace PageCall

/-- The pair of core and virtual page. -/
def target (x : PageCall) : Int × Int := (x.coreid, x.addr >>> 12)

def page (x : PageCall) : Int := x.phys / 2 ^ 12

end PageCall

def callPages {σ : Type} (alloc : σ → Int → Int → Except Abort (Int × σ)) (pool : σ → PagePool)
    (s : σ) : List (Int × Int) → Except Abort (List PageCall × σ)
  | [] => pure ([], s)
  | (addr, coreid) :: calls => do
      let (phys, s') ← alloc s addr coreid
      let (log, s') ← callPages alloc pool s' calls
      pure (⟨addr, coreid, (pool s).freePhysicalPagesRemaining, phys⟩ :: log, s')

def FirstFree (log : List PageCall) (target : Int × Int) : Prop :=
  ∃ before x after, log = before ++ x :: after ∧ x.target = target ∧ 0 < x.remaining ∧
    ∀ y ∈ before, y.target ≠ target

/-- What holds after calls of `page_allocator`. -/
structure PagesSound (maxAddress : Nat) (log : List PageCall) (p : PagePool) : Prop where
  /-- The counter is the number of free pages. -/
  counted : p.freePhysicalPagesRemaining = p.freePhysicalPages.count (-1)
  /-- While it is positive, the search from any page that is taken ends at a free
      one. -/
  found : 0 < p.freePhysicalPagesRemaining → ∀ start < p.freePhysicalPages.length,
    p.freePhysicalPages[start]? ≠ some (-1) →
      p.freePhysicalPages[Memory.searchPage p.freePhysicalPages start
        p.freePhysicalPages.length start]? = some (-1)
  /-- A pair has one page. -/
  same : ∀ x ∈ log, ∀ y ∈ log, x.target = y.target → x.page = y.page
  /-- Pairs that came when there were free pages have different ones. -/
  distinct : ∀ x ∈ log, ∀ y ∈ log, x.target ≠ y.target → FirstFree log x.target →
    FirstFree log y.target → x.page ≠ y.page
  /-- The addresses are in the memory and keep their offset. -/
  inside : ∀ x ∈ log, 0 ≤ x.phys ∧ x.phys < maxAddress ∧ x.phys % 2 ^ 12 = x.addr % 2 ^ 12

/-- What the calls keep, with the log of the calls so far. -/
structure Called (pages : Nat) (done : List PageCall) (p : PagePool) : Prop where
  pooled : p.Pooled pages
  logged : ∀ x ∈ done, ∃ k < pages, p.pageTranslation x.target = some (k : Int) ∧
    x.phys = k * 2 ^ 12 + x.addr % 2 ^ 12
  seen : ∀ target page, p.pageTranslation target = some page → ∃ x ∈ done, x.target = target
  fresh : ∀ before x after, done = before ++ x :: after → 0 < x.remaining →
    (∀ y ∈ before, y.target ≠ x.target) → ∀ y ∈ before, y.page ≠ x.page

theorem page_eq (k : Nat) (addr : Int) : ((k : Int) * 2 ^ 12 + addr % 2 ^ 12) / 2 ^ 12 = k := by
  omega

variable {done : List PageCall} {lrand : Nat → Nat} {pages maxAddress : Nat} {p : PagePool}
  {σ : Type}

theorem Called.page (h : Called pages done p) {x : PageCall} (hx : x ∈ done) :
    p.pageTranslation x.target = some x.page := by
  obtain ⟨k, -, htable, hphys⟩ := h.logged x hx
  rw [htable, PageCall.page, hphys, page_eq]

theorem Called.call (h : Called pages done p) (hpages : 0 < pages) (addr : Int) {coreid : Int}
    (hcore : 0 ≤ coreid) : Ends (p.pageAllocator lrand addr coreid) (fun out => Called pages
        (done ++ [⟨addr, coreid, p.freePhysicalPagesRemaining, out.1⟩]) out.2)
      (fun _ => False) := by
  apply Ends.bind (PagePool.pageOf_assigned h.pooled hpages hcore)
  rintro ⟨page, p'⟩ ⟨hpooled, k, hk, rfl, hassigned⟩
  apply Ends.pure
  have htable := hassigned.table
  dsimp only at htable ⊢
  refine ⟨hpooled, ?_, ?_, ?_⟩
  · intro x hx
    rcases mem_append.mp hx with hx | hx
    · obtain ⟨j, hj, hold, hphys⟩ := h.logged x hx
      refine ⟨j, hj, ?_, hphys⟩
      rw [htable]
      by_cases ht : x.target = (coreid, addr >>> 12)
      · rw [ht, update_self, hassigned.kept j (by rw [← ht]; exact hold)]
      · rw [update_of_ne ht]
        exact hold
    · rw [mem_singleton.mp hx]
      exact ⟨k, hk, by rw [htable]; exact update_self .., rfl⟩
  · intro target page hpage
    rw [htable] at hpage
    by_cases ht : target = (coreid, addr >>> 12)
    · exact ⟨_, mem_append_right _ (mem_singleton_self _), ht.symm⟩
    · rw [update_of_ne ht] at hpage
      obtain ⟨x, hx, hxt⟩ := h.seen target page hpage
      exact ⟨x, mem_append_left _ hx, hxt⟩
  · intro before x after hsplit hpos hfirst y hy
    rcases eq_nil_or_concat after with rfl | ⟨after', z, rfl⟩
    · -- the new call: its pair is not in the table, so its page is not either
      obtain ⟨rfl, hx⟩ := append_inj' hsplit rfl
      cases hx
      have hnone : p.pageTranslation (coreid, addr >>> 12) = none := by
        cases hpage : p.pageTranslation (coreid, addr >>> 12) with
        | none => rfl
        | some page =>
          obtain ⟨z, hz, hzt⟩ := h.seen _ page hpage
          exact absurd hzt (hfirst z hz)
      have hne := hassigned.fresh hnone hpos y.target y.page (h.page hy)
      rw [PageCall.page, PageCall.page, page_eq]
      exact hne
    · rw [concat_eq_append, ← cons_append, ← append_assoc] at hsplit
      exact h.fresh before x after' (append_inj' hsplit rfl).1 hpos hfirst y hy

theorem split_order {before before' after after' : List PageCall} {x y : PageCall}
    (h : before ++ x :: after = before' ++ y :: after') (hne : x ≠ y) :
    x ∈ before' ∨ y ∈ before := by
  rcases append_eq_append_iff.mp h with ⟨more, rfl, hmore⟩ | ⟨more, rfl, hmore⟩
  · cases more with
    | nil => exact absurd (List.cons.inj hmore).1 hne
    | cons z more =>
      rw [(List.cons.inj hmore).1]
      exact Or.inl (by simp)
  · cases more with
    | nil => exact absurd (List.cons.inj hmore).1.symm hne
    | cons z more =>
      rw [(List.cons.inj hmore).1]
      exact Or.inr (by simp)

theorem Called.sound (h : Called pages done p)
    (hmax : pages = maxAddress >>> 12) : PagesSound maxAddress done p where
  counted := h.pooled.counted
  found := by
    intro hpos start hstart howner
    apply searchPage_free _ hstart howner
    apply count_pos_iff.mp
    rw [← h.pooled.counted]
    exact hpos
  same := by
    intro x hx y hy heq
    have hpage := h.page hx
    rw [heq, h.page hy] at hpage
    exact (Option.some.inj hpage).symm
  distinct := by
    intro x hx y hy hne hfx hfy heq
    obtain ⟨before, x', after, hsplit, hx', hpos, hfirst⟩ := hfx
    obtain ⟨before', y', after', hsplit', hy', hpos', hfirst'⟩ := hfy
    have hmem : x' ∈ done := by
      rw [hsplit]
      simp
    have hmem' : y' ∈ done := by
      rw [hsplit']
      simp
    -- the first calls for the two pairs have their pages
    have hpage : x'.page = y'.page := by
      have hxp := h.page hmem
      have hyp := h.page hmem'
      rw [hx', h.page hx] at hxp
      rw [hy', h.page hy] at hyp
      rw [← Option.some.inj hxp, ← Option.some.inj hyp, heq]
    have hne' : x' ≠ y' := by
      intro heq'
      rw [← hx', ← hy', heq'] at hne
      exact hne rfl
    rcases split_order (hsplit.symm.trans hsplit') hne' with hin | hin
    · exact h.fresh before' y' after' hsplit' hpos' (by rw [hy']; exact hfirst') x' hin hpage
    · exact h.fresh before x' after hsplit hpos (by rw [hx']; exact hfirst) y' hin hpage.symm
  inside := by
    intro x hx
    obtain ⟨k, hk, -, hphys⟩ := h.logged x hx
    rw [hmax, Nat.shiftRight_eq_div_pow] at hk
    omega

theorem callPages_called {alloc : σ → Int → Int → Except Abort (Int × σ)} {pool : σ → PagePool}
    (halloc : ∀ s addr coreid, Sim (SamePages pool) (alloc s addr coreid)
      ((pool s).pageAllocator lrand addr coreid)) (hpages : 0 < pages) (calls : List (Int × Int))
    (hcalls : ∀ call ∈ calls, 0 ≤ call.2) {s : σ} (h : Called pages done (pool s)) :
    Ends (callPages alloc pool s calls) (fun out => Called pages (done ++ out.1) (pool out.2))
      (fun _ => False) := by
  induction calls generalizing s done with
  | nil =>
    apply Ends.pure
    rw [append_nil]
    exact h
  | cons call calls ih =>
    obtain ⟨addr, coreid⟩ := call
    obtain ⟨hcore, hrest⟩ := forall_mem_cons.mp hcalls
    apply Ends.bind ((halloc s addr coreid).ends (h.call hpages addr hcore))
    rintro ⟨phys, s₁⟩ ⟨⟨phys', p₁⟩, ⟨rfl, hpool⟩, h₁⟩
    dsimp only at hpool h₁ ⊢
    rw [← hpool] at h₁
    apply Ends.bind (ih hrest h₁)
    rintro ⟨log, s₂⟩ h₂
    apply Ends.pure
    rw [append_assoc, singleton_append] at h₂
    exact h₂

theorem callPages_sound {alloc : σ → Int → Int → Except Abort (Int × σ)} {pool : σ → PagePool}
    (halloc : ∀ s addr coreid,
      Sim (SamePages pool) (alloc s addr coreid) ((pool s).pageAllocator lrand addr coreid))
    (hmax : 2 ^ 12 ≤ maxAddress) {s : σ} (hs : pool s = PagePool.new (maxAddress >>> 12))
    (calls : List (Int × Int)) (hcalls : ∀ call ∈ calls, 0 ≤ call.2) :
    Ends (callPages alloc pool s calls) (fun out => PagesSound maxAddress out.1 (pool out.2))
      (fun _ => False) := by
  have hpages : 0 < maxAddress >>> 12 := by
    rw [Nat.shiftRight_eq_div_pow]
    exact Nat.div_pos hmax (by decide)
  have hstart : Called (maxAddress >>> 12) [] (pool s) := by
    rw [hs]
    refine ⟨PagePool.Pooled.new _, ?_, ?_, ?_⟩
    · intro x hx
      cases hx
    · intro target page hpage
      cases hpage
    · intro before x after hsplit
      simp at hsplit
  apply (callPages_called halloc hpages calls hcalls hstart).weaken
  rintro ⟨log, s'⟩ h
  rw [nil_append] at h
  exact h.sound rfl

end Ramulator
