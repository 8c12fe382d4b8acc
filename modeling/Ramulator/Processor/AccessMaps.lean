/-
  Ramulator.Processor.AccessMaps

  What the access-map prefetcher prefetches.

  An entry of the table serves one page from one reset to the next.  Its two maps
  stand for sets of lines: those that were accessed and those that were prefetched
  since the reset.  The searches consult the maps, so a line is prefetched once, not
  after its access, and along a stride that two earlier accesses have made; each
  search stops at its first prefetch.
-/

import Mathlib.Data.List.Nodup
import Ramulator.Processor.Prefetcher

namespace Ramulator

open List Function

namespace Zsim

/-! ## One access -/

namespace AmpmPage

theorem search_found (dir pageOffset : Int) (is : List Nat) (e : AmpmPage) :
    search dir pageOffset is 1 e = (e, []) := by
  cases is with
  | nil => rfl
  | cons i is => simp [search]

/-- What a search along `dir` leaves of an entry `e`: it has found at most one
    position, neither accessed nor prefetched, with the stride to it twice on the
    other side. -/
structure Searched (dir pageOffset : Int) (e e' : AmpmPage) (found : List Int) : Prop where
  page : e'.page = e.page
  accessMap : e'.accessMap = e.accessMap
  pfMap : ∀ o, e'.pfMap o = true ↔ e.pfMap o = true ∨ o ∈ found
  length : found.length ≤ 1
  nodup : found.Nodup
  inPage : ∀ x ∈ found, 0 ≤ x ∧ x ≤ 63
  fresh : ∀ x ∈ found, e.accessMap x = false ∧ e.pfMap x = false
  stride : ∀ x ∈ found, ∃ i : Nat, 0 < i ∧ x = pageOffset + dir * i ∧
    (0 ≤ pageOffset - dir * (2 * i) ∧ pageOffset - dir * (2 * i) ≤ 63) ∧
    e.accessMap (pageOffset - dir * i) = true ∧ e.accessMap (pageOffset - dir * (2 * i)) = true

theorem Searched.nothing (dir pageOffset : Int) (e : AmpmPage) :
    Searched dir pageOffset e e [] := by
  constructor <;> simp

theorem search_spec (dir pageOffset : Int) {is : List Nat} (his : ∀ i ∈ is, 0 < i) (e : AmpmPage) :
    Searched dir pageOffset e (search dir pageOffset is 0 e).1
      (search dir pageOffset is 0 e).2 := by
  induction is with
  | nil => exact Searched.nothing dir pageOffset e
  | cons i is ih =>
    have ih := ih fun j hj => his j (mem_cons_of_mem _ hj)
    simp only [search]
    split
    · exact Searched.nothing dir pageOffset e
    · next hcheck =>
      split
      · exact Searched.nothing dir pageOffset e
      · next hpf =>
        rw [if_neg (by omega)]
        split
        · exact ih
        · next haccessed =>
          split
          · exact ih
          · next hprefetched =>
            split
            · next hstride =>
              rw [search_found]
              refine ⟨rfl, rfl, fun o => ?_, le_refl 1, by simp, ?_, ?_, ?_⟩
              · by_cases ho : o = pageOffset + dir * i <;> simp [ho]
              all_goals
                intro x hx
                obtain rfl := mem_singleton.mp hx
              · omega
              · exact ⟨Bool.eq_false_iff.mpr haccessed, Bool.eq_false_iff.mpr hprefetched⟩
              · exact ⟨i, his i mem_cons_self, rfl, by omega, hstride⟩
            · exact ih

/-- What the two searches leave of an entry `e`. -/
structure Prefetched (pageOffset : Int) (e e' : AmpmPage) (found : List Int) : Prop where
  page : e'.page = e.page
  accessMap : e'.accessMap = e.accessMap
  pfMap : ∀ o, e'.pfMap o = true ↔ e.pfMap o = true ∨ o ∈ found
  nodup : found.Nodup
  above : (found.filter (pageOffset < ·)).length ≤ 1
  below : (found.filter (· < pageOffset)).length ≤ 1
  inPage : ∀ x ∈ found, 0 ≤ x ∧ x ≤ 63
  fresh : ∀ x ∈ found, e.accessMap x = false ∧ e.pfMap x = false
  stride : ∀ x ∈ found, ∃ i : Nat, 0 < i ∧
    ((x = pageOffset + i ∧ 0 ≤ pageOffset - 2 * i ∧ e.accessMap (pageOffset - i) = true ∧
        e.accessMap (pageOffset - 2 * i) = true) ∨
      (x = pageOffset - i ∧ pageOffset + 2 * i ≤ 63 ∧ e.accessMap (pageOffset + i) = true ∧
        e.accessMap (pageOffset + 2 * i) = true))

theorem prefetch_spec (e : AmpmPage) (pageOffset : Int) :
    Prefetched pageOffset e (e.prefetch pageOffset).1 (e.prefetch pageOffset).2 := by
  have hpos : ∀ i ∈ List.range' 1 16, 0 < i := by decide
  have hup := search_spec 1 pageOffset hpos e
  have hdown := search_spec (-1) pageOffset hpos (e.positive pageOffset).1
  change Prefetched pageOffset e ((e.positive pageOffset).1.negative pageOffset).1
    ((e.positive pageOffset).2 ++ ((e.positive pageOffset).1.negative pageOffset).2)
  change Searched 1 pageOffset e (e.positive pageOffset).1 (e.positive pageOffset).2 at hup
  change Searched (-1) pageOffset _ ((e.positive pageOffset).1.negative pageOffset).1
    ((e.positive pageOffset).1.negative pageOffset).2 at hdown
  generalize (e.positive pageOffset).1.negative pageOffset = down at hdown ⊢
  generalize e.positive pageOffset = up at hup hdown ⊢
  -- the first search finds above the access, the second one below it
  have habove : ∀ x ∈ up.2, pageOffset < x := by
    intro x hx
    obtain ⟨i, hi, rfl, -⟩ := hup.stride x hx
    omega
  have hbelow : ∀ x ∈ down.2, x < pageOffset := by
    intro x hx
    obtain ⟨i, hi, rfl, -⟩ := hdown.stride x hx
    omega
  refine ⟨hdown.page.trans hup.page, hdown.accessMap.trans hup.accessMap, ?_, ?_, ?_, ?_, ?_, ?_,
    ?_⟩
  · intro o
    rw [hdown.pfMap, hup.pfMap, mem_append, or_assoc]
  · refine nodup_append.mpr ⟨hup.nodup, hdown.nodup, fun x hx y hy => ?_⟩
    have := habove x hx
    have := hbelow y hy
    omega
  · have hdown_nil : down.2.filter (pageOffset < ·) = [] := by
      simpa using fun x hx => Int.le_of_lt (hbelow x hx)
    rw [filter_append, hdown_nil, append_nil]
    exact le_trans (length_filter_le ..) hup.length
  · have hup_nil : up.2.filter (· < pageOffset) = [] := by
      simpa using fun x hx => Int.le_of_lt (habove x hx)
    rw [filter_append, hup_nil, nil_append]
    exact le_trans (length_filter_le ..) hdown.length
  · intro x hx
    rcases mem_append.mp hx with hx | hx
    · exact hup.inPage x hx
    · exact hdown.inPage x hx
  · intro x hx
    rcases mem_append.mp hx with hx | hx
    · exact hup.fresh x hx
    · obtain ⟨hacc, hpf⟩ := hdown.fresh x hx
      rw [hup.accessMap] at hacc
      refine ⟨hacc, ?_⟩
      have := mt (hup.pfMap x).mpr (by simp [hpf])
      simpa using fun h => this (Or.inl h)
  · intro x hx
    rcases mem_append.mp hx with hx | hx
    · obtain ⟨i, hi, hxi, hrange, hone, htwo⟩ := hup.stride x hx
      simp only [one_mul] at *
      exact ⟨i, hi, Or.inl ⟨hxi, hrange.1, hone, htwo⟩⟩
    · obtain ⟨i, hi, hxi, hrange, hone, htwo⟩ := hdown.stride x hx
      rw [hup.accessMap] at hone htwo
      simp only [neg_mul, one_mul, sub_neg_eq_add] at *
      exact ⟨i, hi, Or.inr ⟨by omega, hrange.2, hone, htwo⟩⟩

end AmpmPage

/-! ## Runs -/

/-- A GETS: the entry it used and whether it reset it, its line and the lines that
    were prefetched. -/
structure AmpmRecord where
  entry : Nat
  isReset : Bool
  line : Nat
  prefetched : List Nat
deriving DecidableEq, Repr

namespace AmpmRecord

/-- The accesses of an entry since its last reset, newest first. -/
def since (entry : Nat) : List AmpmRecord → List AmpmRecord
  | [] => []
  | r :: log =>
    if r.entry = entry then (if r.isReset then [r] else r :: since entry log)
    else since entry log

def Touched (rs : List AmpmRecord) (line : Nat) : Prop := ∃ r ∈ rs, r.line = line

theorem touched_cons {r : AmpmRecord} {rs : List AmpmRecord} {line : Nat} :
    Touched (r :: rs) line ↔ r.line = line ∨ Touched rs line := by
  simp [Touched]

structure Disciplined (r : AmpmRecord) (past : List AmpmRecord) : Prop where
  inPage : ∀ x ∈ r.prefetched, x / 64 = r.line / 64
  nodup : r.prefetched.Nodup
  once : ∀ x ∈ r.prefetched, ∀ q ∈ past, x ∉ q.prefetched
  fresh : ∀ x ∈ r.prefetched, ¬Touched (r :: past) x
  above : (r.prefetched.filter (r.line < ·)).length ≤ 1
  below : (r.prefetched.filter (· < r.line)).length ≤ 1
  stride : ∀ x ∈ r.prefetched, ∃ i, 0 < i ∧
    ((x = r.line + i ∧ 2 * i ≤ r.line ∧ Touched (r :: past) (r.line - i) ∧
        Touched (r :: past) (r.line - 2 * i)) ∨
      (x + i = r.line ∧ Touched (r :: past) (r.line + i) ∧ Touched (r :: past) (r.line + 2 * i)))

end AmpmRecord

open AmpmRecord

def lineAt (page : Nat) (o : Int) : Nat := page * 64 + o.toNat

/-- The maps of an entry stand for the accesses since its reset. -/
structure AmpmPage.Shows (e : AmpmPage) (past : List AmpmRecord) : Prop where
  page : ∀ q ∈ past, q.line / 64 = e.page
  accessMap : ∀ o, 0 ≤ o → o ≤ 63 → (e.accessMap o = true ↔ Touched past (lineAt e.page o))
  pfMap : ∀ o, 0 ≤ o → o ≤ 63 → (e.pfMap o = true ↔ ∃ q ∈ past, lineAt e.page o ∈ q.prefetched)

namespace AmpmPage

theorem Shows.reset (e : AmpmPage) (page : Nat) : (e.reset page).Shows [] := by
  constructor <;> simp [AmpmPage.reset, Touched]

variable {e e' : AmpmPage} {past : List AmpmRecord} {r : AmpmRecord} {found : List Int}
  {reqCycle : Nat}

theorem Shows.mark (h : e.Shows past) (hpage : r.line / 64 = e.page) (reqCycle : Nat) {o : Int}
    (ho0 : 0 ≤ o) (ho63 : o ≤ 63) : (e.mark reqCycle (r.line % 64 : Nat)).accessMap o = true ↔
      Touched (r :: past) (lineAt e.page o) := by
  have hline : r.line = lineAt e.page o ↔ o = (r.line % 64 : Nat) := by
    unfold lineAt
    omega
  rw [touched_cons, hline, ← h.accessMap o ho0 ho63]
  by_cases ho : o = (r.line % 64 : Nat)
  · simp only [AmpmPage.mark, ho, update_self, true_or]
  · simp only [AmpmPage.mark, update_of_ne ho, ho, false_or]

theorem Shows.prefetch (h : e.Shows past) (hpage : r.line / 64 = e.page)
    (hfound : Prefetched (r.line % 64 : Nat) (e.mark reqCycle (r.line % 64 : Nat)) e' found)
    (hr : r.prefetched = found.map (lineAt e.page)) : e'.Shows (r :: past) := by
  have hpage' : e'.page = e.page := hfound.page
  refine ⟨?_, ?_, ?_⟩
  · rw [hpage']
    exact forall_mem_cons.mpr ⟨hpage, h.page⟩
  · intro o ho0 ho63
    rw [hpage', hfound.accessMap]
    exact h.mark hpage reqCycle ho0 ho63
  · intro o ho0 ho63
    have hmem : lineAt e.page o ∈ r.prefetched ↔ o ∈ found := by
      rw [hr, mem_map]
      constructor
      · rintro ⟨x, hx, heq⟩
        have := hfound.inPage x hx
        have hxo : x = o := by
          unfold lineAt at heq
          omega
        exact hxo ▸ hx
      · exact fun ho => ⟨o, ho, rfl⟩
    simp only [hpage', hfound.pfMap, mem_cons, exists_eq_or_imp, hmem, ← h.pfMap o ho0 ho63]
    exact or_comm

theorem Shows.disciplined (h : e.Shows past) (hpage : r.line / 64 = e.page)
    (hfound : Prefetched (r.line % 64 : Nat) (e.mark reqCycle (r.line % 64 : Nat)) e' found)
    (hr : r.prefetched = found.map (lineAt e.page)) : r.Disciplined past := by
  have hline : r.line = e.page * 64 + r.line % 64 := by omega
  have hmem : ∀ y ∈ r.prefetched, ∃ x ∈ found, 0 ≤ x ∧ x ≤ 63 ∧ y = lineAt e.page x := by
    intro y hy
    rw [hr, mem_map] at hy
    obtain ⟨x, hx, rfl⟩ := hy
    exact ⟨x, hx, (hfound.inPage x hx).1, (hfound.inPage x hx).2, rfl⟩
  refine ⟨?_, ?_, ?_, ?_, ?_, ?_, ?_⟩
  · intro y hy
    obtain ⟨x, hx, hx0, hx63, rfl⟩ := hmem y hy
    unfold lineAt
    omega
  · rw [hr]
    refine List.Nodup.map_on ?_ hfound.nodup
    intro x hx y hy heq
    have := hfound.inPage x hx
    have := hfound.inPage y hy
    unfold lineAt at heq
    omega
  · intro y hy q hq hyq
    obtain ⟨x, hx, hx0, hx63, rfl⟩ := hmem y hy
    have hprefetched := (h.pfMap x hx0 hx63).mpr ⟨q, hq, hyq⟩
    have hfresh : e.pfMap x = false := (hfound.fresh x hx).2
    rw [hfresh] at hprefetched
    cases hprefetched
  · intro y hy hrecorded
    obtain ⟨x, hx, hx0, hx63, rfl⟩ := hmem y hy
    have haccessed := (h.mark hpage reqCycle hx0 hx63).mpr hrecorded
    rw [(hfound.fresh x hx).1] at haccessed
    cases haccessed
  · have hcongr : found.filter ((fun l => decide (r.line < l)) ∘ lineAt e.page) =
        found.filter (((r.line % 64 : Nat) : Int) < ·) := by
      refine filter_congr fun x hx => ?_
      have := hfound.inPage x hx
      exact decide_eq_decide.mpr (by unfold lineAt; omega)
    rw [hr, filter_map, length_map, hcongr]
    exact hfound.above
  · have hcongr : found.filter ((fun l => decide (l < r.line)) ∘ lineAt e.page) =
        found.filter (· < ((r.line % 64 : Nat) : Int)) := by
      refine filter_congr fun x hx => ?_
      have := hfound.inPage x hx
      exact decide_eq_decide.mpr (by unfold lineAt; omega)
    rw [hr, filter_map, length_map, hcongr]
    exact hfound.below
  · intro y hy
    obtain ⟨x, hx, hx0, hx63, rfl⟩ := hmem y hy
    obtain ⟨i, hi, ⟨hxi, hi0, hone, htwo⟩ | ⟨hxi, hi63, hone, htwo⟩⟩ := hfound.stride x hx
    · refine ⟨i, hi, Or.inl ⟨?_, by omega, ?_, ?_⟩⟩
      · unfold lineAt
        omega
      · convert (h.mark hpage reqCycle (by omega) (by omega)).mp hone using 1
        unfold lineAt
        omega
      · convert (h.mark hpage reqCycle (by omega) (by omega)).mp htwo using 1
        unfold lineAt
        omega
    · refine ⟨i, hi, Or.inr ⟨?_, ?_, ?_⟩⟩
      · unfold lineAt
        omega
      · convert (h.mark hpage reqCycle (by omega) (by omega)).mp hone using 1
        unfold lineAt
        omega
      · convert (h.mark hpage reqCycle (by omega) (by omega)).mp htwo using 1
        unfold lineAt
        omega

end AmpmPage

/-- The prefetcher and the accesses so far, newest first. -/
structure AmpmRun where
  prefetcher : AMPMPrefetcher := {}
  log : List AmpmRecord := []

namespace AmpmRun

/-- An access, recorded if it is a GETS; what is sent after the demand request are the
    prefetches. -/
def access (s : AmpmRun) (n : Nat) (req : ChildReq) (responses : Nat → Nat) : AmpmRun :=
  let out := s.prefetcher.access n req responses
  let index := s.prefetcher.pageIndex (req.lineAddr >>> 6)
  { prefetcher := out.prefetcher
    log :=
      if req.type = .gets then
        { entry := index.1, isReset := index.2, line := req.lineAddr,
          prefetched := out.sent.tail.map (·.req.lineAddr) } :: s.log
      else s.log }

def run (n : Nat) (accesses : List (ChildReq × (Nat → Nat))) (s : AmpmRun) : AmpmRun :=
  accesses.foldl (fun s a => s.access n a.1 a.2) s

/-- Every entry stands for the accesses since its reset, and they kept the discipline. -/
structure Inv (s : AmpmRun) : Prop where
  shows : ∀ entry, (s.prefetcher.ampmPages entry).Shows (since entry s.log)
  disciplined : ∀ entry later r past, since entry s.log = later ++ r :: past → r.Disciplined past

end AmpmRun

theorem AMPMPrefetcher.page_pageIndex {p : AMPMPrefetcher} {page : Nat}
    (h : (p.pageIndex page).2 = false) : (p.ampmPages (p.pageIndex page).1).page = page := by
  unfold pageIndex at h ⊢
  cases hhit : p.pageHit page with
  | none => simp [hhit] at h
  | some i => simpa using find?_some hhit

namespace AmpmRun

theorem since_cons_self (r : AmpmRecord) (log : List AmpmRecord) :
    since r.entry (r :: log) = r :: if r.isReset then [] else since r.entry log := by
  cases hreset : r.isReset <;> simp [since, hreset]

theorem since_cons_of_ne {r : AmpmRecord} {entry : Nat} (hne : entry ≠ r.entry)
    (log : List AmpmRecord) : since entry (r :: log) = since entry log := by
  simp [since, Ne.symm hne]

theorem access_gets (s : AmpmRun) (n : Nat) {req : ChildReq} (htype : req.type = .gets)
    (responses : Nat → Nat) : ∃ out, out = AMPMPrefetcher.operate
        (s.prefetcher.ampmPages (s.prefetcher.pageIndex (req.lineAddr / 64)).1)
        (s.prefetcher.pageIndex (req.lineAddr / 64)).2 (req.lineAddr / 64) req.cycle
        (req.lineAddr % 64 : Nat) ∧
      (s.access n req responses).prefetcher.ampmPages = update s.prefetcher.ampmPages
        (s.prefetcher.pageIndex (req.lineAddr / 64)).1 out.1 ∧ (s.access n req responses).log =
        { entry := (s.prefetcher.pageIndex (req.lineAddr / 64)).1
          isReset := (s.prefetcher.pageIndex (req.lineAddr / 64)).2
          line := req.lineAddr
          prefetched := out.2.map (lineAt (req.lineAddr / 64)) } :: s.log := by
  have hpage : req.lineAddr >>> 6 = req.lineAddr / 64 := Nat.shiftRight_eq_div_pow _ 6
  have hoffset : req.lineAddr &&& 63 = req.lineAddr % 64 := Nat.and_two_pow_sub_one_eq_mod _ 6
  refine ⟨_, rfl, ?_, ?_⟩
  · simp [AmpmRun.access, AMPMPrefetcher.access, htype, hpage, hoffset]
  · simp [AmpmRun.access, AMPMPrefetcher.access, htype, hpage, hoffset, pfReq, Function.comp_def,
      lineAt, Nat.shiftLeft_eq]

theorem Inv.access {s : AmpmRun} (h : s.Inv) (n : Nat) (req : ChildReq) (responses : Nat → Nat) :
    (s.access n req responses).Inv := by
  by_cases htype : req.type = .gets
  · obtain ⟨out, hout, hpages, hlog⟩ := access_gets s n htype responses
    generalize hindex : s.prefetcher.pageIndex (req.lineAddr / 64) = index at hout hpages hlog
    obtain ⟨entry, isReset⟩ := index
    dsimp only at hout hpages hlog
    -- the entry as the access finds it, and the accesses it stands for
    obtain ⟨e, past, hshows, hepage, hpast, hfound⟩ : ∃ e past, AmpmPage.Shows e past ∧
        e.page = req.lineAddr / 64 ∧ past = (if isReset then [] else since entry s.log) ∧
        out = (e.mark req.cycle (req.lineAddr % 64 : Nat)).prefetch (req.lineAddr % 64 : Nat) := by
      cases isReset with
      | true => exact ⟨_, _, AmpmPage.Shows.reset _ (req.lineAddr / 64), rfl, rfl, hout⟩
      | false =>
        refine ⟨_, _, h.shows entry, ?_, rfl, hout⟩
        have hpage := AMPMPrefetcher.page_pageIndex (p := s.prefetcher) (congrArg Prod.snd hindex)
        rwa [hindex] at hpage
    have hspec := AmpmPage.prefetch_spec (e.mark req.cycle (req.lineAddr % 64 : Nat))
      (req.lineAddr % 64 : Nat)
    rw [← hfound] at hspec
    generalize hr : AmpmRecord.mk entry isReset req.lineAddr
      (out.2.map (lineAt (req.lineAddr / 64))) = r at hlog
    have hline : r.line = req.lineAddr := by rw [← hr]
    have hentry : r.entry = entry := by rw [← hr]
    have hreset : r.isReset = isReset := by rw [← hr]
    have hprefetched : r.prefetched = out.2.map (lineAt e.page) := by rw [← hr, hepage]
    rw [← hline] at hspec hepage
    have hsince : since entry (r :: s.log) = r :: past := by
      rw [← hentry, since_cons_self, hreset, hpast, hentry]
    constructor
    · intro entry'
      rw [hlog, hpages]
      by_cases hne : entry' = entry
      · subst hne
        rw [update_self, hsince]
        exact hshows.prefetch hepage.symm hspec hprefetched
      · rw [update_of_ne hne, since_cons_of_ne (hentry ▸ hne)]
        exact h.shows entry'
    · intro entry' later q past' heq
      rw [hlog] at heq
      by_cases hne : entry' = entry
      · subst hne
        rw [hsince] at heq
        -- the new access, or an earlier one with the same past
        cases later with
        | nil =>
          obtain ⟨rfl, rfl⟩ := List.cons.inj heq
          exact hshows.disciplined hepage.symm hspec hprefetched
        | cons r' later =>
          obtain ⟨-, heq⟩ := List.cons.inj heq
          cases isReset with
          | true => simp [hpast] at heq
          | false => exact h.disciplined entry' later q past' (hpast.symm.trans heq)
      · rw [since_cons_of_ne (hentry ▸ hne)] at heq
        exact h.disciplined entry' later q past' heq
  · have hsame : (s.access n req responses).prefetcher = s.prefetcher ∧
        (s.access n req responses).log = s.log := by
      simp [AmpmRun.access, AMPMPrefetcher.access, htype]
    exact ⟨by rw [hsame.1, hsame.2]; exact h.shows, by rw [hsame.2]; exact h.disciplined⟩

theorem Inv.run {s : AmpmRun} (h : s.Inv) (n : Nat) (accesses : List (ChildReq × (Nat → Nat))) :
    (AmpmRun.run n accesses s).Inv := by
  unfold AmpmRun.run
  induction accesses generalizing s with
  | nil => exact h
  | cons a accesses ih => exact ih (h.access n a.1 a.2)

/-- Between two resets of an entry, in every run: the lines prefetched for it are in
    the page of the access that triggers them, none of them twice and none after its
    own access, at most one above and one below the access, and each along a stride
    that the accesses have made twice on the other side. -/
theorem run_disciplined (n : Nat) (childId : Nat) (accesses : List (ChildReq × (Nat → Nat)))
    (entry : Nat) (later : List AmpmRecord) (r : AmpmRecord) (past : List AmpmRecord)
    (hsince : since entry (run n accesses { prefetcher := { childId } }).log = later ++ r :: past) :
    (∀ x ∈ r.prefetched, x / 64 = r.line / 64) ∧ r.prefetched.Nodup ∧
      (∀ x ∈ r.prefetched, ∀ q ∈ past, x ∉ q.prefetched) ∧
      (∀ x ∈ r.prefetched, ∀ q ∈ r :: past, q.line ≠ x) ∧
      (r.prefetched.filter (r.line < ·)).length ≤ 1 ∧
      (r.prefetched.filter (· < r.line)).length ≤ 1 ∧ ∀ x ∈ r.prefetched, ∃ i, 0 < i ∧
        ((x = r.line + i ∧ 2 * i ≤ r.line ∧ Touched (r :: past) (r.line - i) ∧
            Touched (r :: past) (r.line - 2 * i)) ∨
          (x + i = r.line ∧ Touched (r :: past) (r.line + i) ∧
            Touched (r :: past) (r.line + 2 * i))) := by
  have hinit : Inv { prefetcher := { childId } } := by
    refine ⟨fun entry => ?_, fun entry later r past h => ?_⟩
    · constructor <;> simp [since, Touched]
    · simp [since] at h
  have hr := (hinit.run n accesses).disciplined entry later r past hsince
  exact ⟨hr.inPage, hr.nodup, hr.once, fun x hx q hq heq => hr.fresh x hx ⟨q, hq, heq⟩,
    hr.above, hr.below, hr.stride⟩

/-- Lines 64, 65 and 66 are read: the last access prefetches line 67. -/
def threeReads : List (ChildReq × (Nat → Nat)) :=
  [({ lineAddr := 64, type := .gets }, fun _ => 0), ({ lineAddr := 65, type := .gets }, fun _ => 0),
    ({ lineAddr := 66, type := .gets }, fun _ => 0)]

theorem run_disciplined_threeReads :
    since 0 (run 1 threeReads { prefetcher := { childId := 0 } }).log =
        [⟨0, false, 66, [67]⟩, ⟨0, false, 65, []⟩, ⟨0, true, 64, []⟩] ∧
      ∀ x ∈ [67], ∀ q ∈ [AmpmRecord.mk 0 false 65 [], ⟨0, true, 64, []⟩], x ∉ q.prefetched := by
  have hsince : since 0 (run 1 threeReads { prefetcher := { childId := 0 } }).log =
      [] ++ ⟨0, false, 66, [67]⟩ :: [⟨0, false, 65, []⟩, ⟨0, true, 64, []⟩] := by decide +kernel
  exact ⟨hsince, (run_disciplined 1 0 threeReads 0 [] _ _ hsince).2.2.1⟩

end AmpmRun

end Zsim

end Ramulator
