/-
  Ramulator.Selection

  Which request FRFCFS_PriorHit selects (Scheduler.h).

  The scheduler folds its queue twice: once to find a ready row hit, and, when
  the result is none, once more over the requests that do not close the row of a
  queued hit.  On a queue in order of arrival both folds keep the first request
  they prefer, so `getHead` is three searches from the front, and what they
  find is the oldest request of its kind.
-/

import Ramulator.Scheduler
import Ramulator.Generic.Dsarp

namespace Ramulator

open List

namespace Scheduler

variable {C S : Type} {spec : Spec C S} {view : View} {preScope : Nat} {type : SchedulerType}
  {q : List Request} {table : RowTable} {i : Nat} {req : Request} {key p : Request → Bool}
  {P : Request → Prop}

/-! ## Folds as searches -/

def Prefers (spec : Spec C S) (view : View) (type : SchedulerType) (key : Request → Bool) :
    Prop :=
  ∀ req₁ req₂ table,
    compare spec view type req₁ req₂ table = (olderReady (key req₁) (key req₂) req₁ req₂, table)

theorem prefers_frfcfs : Prefers spec view .frfcfs view.isReady :=
  fun _ _ _ => rfl

theorem prefers_frfcfsPriorHit :
    Prefers spec view .frfcfsPriorHit (fun req => view.isReady req && view.isRowHit req) :=
  fun _ _ _ => rfl

def Follows (head itr : Nat × Request) : Prop :=
  head.1 < itr.1 ∧ head.2.arrive ≤ itr.2.arrive

theorem best_eq_find (hkey : Prefers spec view type key) (head : Nat × Request)
    (rest : List (Nat × Request)) (hsorted : (head :: rest).Pairwise Follows) (table : RowTable) :
    (best spec view type head rest table).1 =
      ((head :: rest).find? fun itr => key itr.2).getD head := by
  induction rest generalizing head with
  | nil => cases hhead : key head.2 <;> simp [best, hhead]
  | cons itr rest ih =>
    obtain ⟨hhead, hrest⟩ := pairwise_cons.mp hsorted
    have holder : head.2.arrive ≤ itr.2.arrive := (hhead itr mem_cons_self).2
    have hwithout : (head :: rest).Pairwise Follows :=
      pairwise_cons.mpr ⟨fun itr' hitr' => hhead itr' (mem_cons_of_mem _ hitr'),
        (pairwise_cons.mp hrest).2⟩
    simp only [best, hkey head.2 itr.2 table]
    cases hkeyHead : key head.2 with
    | true =>
      have hstays : olderReady true (key itr.2) head.2 itr.2 = true := by
        cases key itr.2 <;> simp [olderReady, holder]
      rw [hstays, if_pos rfl, ih head hwithout]
      simp [hkeyHead]
    | false =>
      cases hkeyItr : key itr.2 with
      | true =>
        have hgoes : olderReady false true head.2 itr.2 = false := rfl
        rw [hgoes, if_neg Bool.false_ne_true, ih itr hrest]
        simp [hkeyHead, hkeyItr]
      | false =>
        have hstays : olderReady false false head.2 itr.2 = true := by
          simp [olderReady, holder]
        rw [hstays, if_pos rfl, ih head hwithout]
        simp [hkeyHead, hkeyItr]

theorem bestOf_eq_find (hkey : Prefers spec view type key) {itrs : List (Nat × Request)}
    (hsorted : itrs.Pairwise Follows) :
    (bestOf spec view type itrs table).1 = (itrs.find? fun itr => key itr.2).or itrs.head? := by
  cases itrs with
  | nil => rfl
  | cons head rest =>
    have hbest := best_eq_find hkey head rest hsorted table
    simp only [bestOf, hbest, head?_cons]
    cases (head :: rest).find? fun itr => key itr.2 <;> rfl

section

variable (hsorted : q.Pairwise fun req₁ req₂ => req₁.arrive ≤ req₂.arrive)
include hsorted

theorem positions_follows : (positions q).Pairwise Follows := by
  have harrive := pairwise_iff_getElem.mp hsorted
  refine pairwise_iff_getElem.mpr (fun i j hi hj hij => ?_)
  simp only [positions, length_map, length_zipIdx] at hi hj
  simp only [positions, getElem_map, getElem_zipIdx, Nat.zero_add, Prod.swap_prod_mk]
  exact ⟨hij, harrive i j hi hj hij⟩

/-- In order of arrival `getHead` is three searches: a ready hit, a ready request, any one. -/
theorem getHead_eq_find : (getHead spec view preScope .frfcfsPriorHit q table).1 =
      ((positions q).find? fun itr => view.isReady itr.2 && view.isRowHit itr.2).or
        (((positions q).find? fun itr =>
            !violatesHit view preScope q itr.2 && view.isReady itr.2).or
          ((positions q).find? fun itr => !violatesHit view preScope q itr.2)) := by
  have hfollows := positions_follows hsorted
  have hfirst : (bestOf spec view .frfcfsPriorHit (positions q) table).1 = _ :=
    bestOf_eq_find prefers_frfcfsPriorHit hfollows
  have hsecond : ∀ table, (bestOf spec view .frfcfs
      ((positions q).filter fun itr => !violatesHit view preScope q itr.2) table).1 = _ :=
    fun table => bestOf_eq_find prefers_frfcfs (hfollows.filter _)
  simp only [find?_filter, head?_filter, Bool.decide_and, Bool.decide_eq_true] at hsecond
  simp only [getHead]
  cases hfind : (positions q).find? fun itr => view.isReady itr.2 && view.isRowHit itr.2 with
  | some head =>
    have hready := find?_some hfind
    rw [hfind, Option.some_or] at hfirst
    split
    · next heq => simp [heq] at hfirst
    · next head' table' heq =>
      rw [heq] at hfirst
      cases hfirst
      rw [if_pos hready]
      rfl
  | none =>
    rw [hfind, Option.none_or] at hfirst
    split
    · next heq =>
      -- the queue is empty
      have hempty : positions q = [] := by
        rw [heq] at hfirst
        exact head?_eq_none_iff.mp hfirst.symm
      simp [hempty]
    · next head' table' heq =>
      rw [heq] at hfirst
      have hmem : head' ∈ positions q := mem_of_head? hfirst.symm
      have hnot := find?_eq_none.mp hfind head' hmem
      rw [if_neg hnot, Option.none_or]
      exact hsecond table'

end

/-! ## The oldest request of a kind -/

/-- `head` is the first request of the queue with `P`, and none with `P` arrived
    before it. -/
def Oldest (q : List Request) (P : Request → Prop) (head : Nat × Request) : Prop :=
  q[head.1]? = some head.2 ∧ P head.2 ∧
    ∀ i req, q[i]? = some req → P req → head.1 ≤ i ∧ head.2.arrive ≤ req.arrive

/-- Not a row hit, with a row open in its row buffer, and in the row group of a
    queued row hit. -/
def Blocked (view : View) (preScope : Nat) (q : List Request) (req : Request) : Prop :=
  view.isRowHit req = false ∧ view.isRowOpen req = true ∧
    ∃ hit ∈ q, view.isRowHit hit = true ∧ rowgroup preScope req = rowgroup preScope hit

theorem violatesHit_iff : violatesHit view preScope q req = true ↔ Blocked view preScope q req := by
  simp only [violatesHit, Blocked, Bool.and_eq_true, Bool.not_eq_true', any_eq_true,
    mem_filter, beq_iff_eq, and_assoc]

theorem oldest_of_find (hp : ∀ req, p req = true ↔ P req)
    (hsorted : q.Pairwise fun req₁ req₂ => req₁.arrive ≤ req₂.arrive) {head : Nat × Request}
    (hfind : ((positions q).find? fun itr => p itr.2) = some head) : Oldest q P head := by
  obtain ⟨hhead, before, after, heq, hbefore⟩ := find?_eq_some_iff_append.mp hfind
  have hfollows := positions_follows hsorted
  rw [heq] at hfollows
  have hmem : head ∈ positions q := heq ▸ mem_append_right _ mem_cons_self
  refine ⟨mem_positions.mp hmem, (hp _).mp hhead, fun i req hi hreq => ?_⟩
  have hposition : (i, req) ∈ before ++ head :: after := heq ▸ mem_positions.mpr hi
  rcases mem_append.mp hposition with hearlier | hlater
  · have hnot := hbefore _ hearlier
    rw [(hp req).mpr hreq] at hnot
    cases hnot
  · rcases mem_cons.mp hlater with hhere | hafter
    · subst hhere
      exact ⟨le_refl _, le_refl _⟩
    · have hfollow := (pairwise_cons.mp (pairwise_append.mp hfollows).2.1).1 _ hafter
      exact ⟨hfollow.1.le, hfollow.2⟩

/-- A search succeeds when the queue has a request of the kind. -/
theorem exists_find (hp : ∀ req, p req = true ↔ P req) :
    (∃ req ∈ q, P req) ↔ ∃ head, ((positions q).find? fun itr => p itr.2) = some head := by
  rw [← Option.isSome_iff_exists, find?_isSome]
  constructor
  · rintro ⟨req, hmem, hreq⟩
    obtain ⟨i, hi⟩ := mem_iff_getElem?.mp hmem
    exact ⟨(i, req), mem_positions.mpr hi, (hp req).mpr hreq⟩
  · rintro ⟨⟨i, req⟩, hmem, hreq⟩
    exact ⟨req, mem_of_getElem? (mem_positions.mp hmem), (hp req).mp hreq⟩

theorem exists_unblocked (hne : q ≠ []) : ∃ req ∈ q, ¬ Blocked view preScope q req := by
  by_cases hhit : ∃ hit ∈ q, view.isRowHit hit = true
  · obtain ⟨hit, hmem, hhit⟩ := hhit
    refine ⟨hit, hmem, fun hblocked => ?_⟩
    rw [hblocked.1] at hhit
    cases hhit
  · obtain ⟨req, hmem⟩ := exists_mem_of_ne_nil q hne
    exact ⟨req, hmem, fun ⟨_, _, hit, hin, hrow, _⟩ => hhit ⟨hit, hin, hrow⟩⟩

/-- FRFCFS_PriorHit on a queue in order of arrival: nothing only when the queue is
    empty, the oldest ready row hit when there is one, and otherwise the oldest
    ready request among the unblocked ones, or else the oldest unblocked one. -/
theorem getHead_frfcfsPriorHit (spec : Spec C S) (view : View) (preScope : Nat)
    (q : List Request) (table : RowTable)
    (hsorted : q.Pairwise fun req₁ req₂ => req₁.arrive ≤ req₂.arrive) :
    ((getHead spec view preScope .frfcfsPriorHit q table).1 = none ↔ q = []) ∧
    ((∃ req ∈ q, view.isReady req = true ∧ view.isRowHit req = true) →
      ∃ head, (getHead spec view preScope .frfcfsPriorHit q table).1 = some head ∧
        Oldest q (fun req => view.isReady req = true ∧ view.isRowHit req = true) head) ∧
    ((¬ ∃ req ∈ q, view.isReady req = true ∧ view.isRowHit req = true) → q ≠ [] →
      (∃ req ∈ q, ¬ Blocked view preScope q req) ∧
      ((∃ req ∈ q, ¬ Blocked view preScope q req ∧ view.isReady req = true) →
        ∃ head, (getHead spec view preScope .frfcfsPriorHit q table).1 = some head ∧
          Oldest q (fun req => ¬ Blocked view preScope q req ∧ view.isReady req = true) head) ∧
      ((¬ ∃ req ∈ q, ¬ Blocked view preScope q req ∧ view.isReady req = true) →
        ∃ head, (getHead spec view preScope .frfcfsPriorHit q table).1 = some head ∧
          Oldest q (fun req => ¬ Blocked view preScope q req) head)) := by
  have hhit : ∀ req, (view.isReady req && view.isRowHit req) = true ↔
      view.isReady req = true ∧ view.isRowHit req = true := fun req => Bool.and_eq_true_iff
  have hfree : ∀ req, (!violatesHit view preScope q req) = true ↔
      ¬ Blocked view preScope q req := by
    intro req
    rw [← violatesHit_iff, Bool.not_eq_true', Bool.not_eq_true]
  have hready : ∀ req, (!violatesHit view preScope q req && view.isReady req) = true ↔
      ¬ Blocked view preScope q req ∧ view.isReady req = true := by
    intro req
    rw [Bool.and_eq_true, hfree]
  -- a search that fails says that the queue has no request of the kind
  have hnone : ∀ {p : Request → Bool} {P : Request → Prop}, (∀ req, p req = true ↔ P req) →
      (¬ ∃ req ∈ q, P req) → ((positions q).find? fun itr => p itr.2) = none := by
    intro p P hp hnot
    rw [Option.eq_none_iff_forall_ne_some]
    exact fun head hhead => hnot ((exists_find hp).mpr ⟨head, hhead⟩)
  rw [getHead_eq_find hsorted]
  refine ⟨?_, ?_, ?_⟩
  · constructor
    · intro hend
      by_contra hne
      obtain ⟨head, hhead⟩ := (exists_find hfree).mp (exists_unblocked hne)
      rw [hhead] at hend
      simp at hend
    · rintro rfl
      rfl
  · intro hexists
    obtain ⟨head, hhead⟩ := (exists_find hhit).mp hexists
    exact ⟨head, by rw [hhead, Option.some_or], oldest_of_find hhit hsorted hhead⟩
  · intro hnoHit hne
    have hunblocked : ∃ req ∈ q, ¬ Blocked view preScope q req := exists_unblocked hne
    rw [hnone hhit hnoHit, Option.none_or]
    refine ⟨hunblocked, ?_, ?_⟩
    · intro hexists
      obtain ⟨head, hhead⟩ := (exists_find hready).mp hexists
      exact ⟨head, by rw [hhead, Option.some_or], oldest_of_find hready hsorted hhead⟩
    · intro hnoReady
      obtain ⟨head, hhead⟩ := (exists_find hfree).mp hunblocked
      exact ⟨head, by rw [hnone hready hnoReady, Option.none_or, hhead],
        oldest_of_find hfree hsorted hhead⟩

def bankRead (bank row arrive : Int) : Request where
  addr := 0
  addrVec := [0, 0, bank, 0, row, 0]
  type := .read
  arrive := arrive

/-- Row 7 of bank 0 is open, and only bank 1 is ready. -/
def oneReadyBank : View where
  isReady req := decide (req.addrVec.getD 2 0 = 1)
  isRowHit req := decide (req.addrVec.getD 2 0 = 0) && decide (req.addrVec.getD 4 0 = 7)
  isRowOpen req := decide (req.addrVec.getD 2 0 = 0)

/-- The oldest request would close the row of the second one, which is not ready:
    the third one is served. -/
theorem getHead_frfcfsPriorHit_thirdRequest :
    (getHead (DSARP.spec .refpb DSARP.org8GbX8 DSARP.speed1333) oneReadyBank 2 .frfcfsPriorHit
      [bankRead 0 5 0, bankRead 0 7 1, bankRead 1 3 2] []).1 = some (2, bankRead 1 3 2) ∧
    ∃ head, (getHead (DSARP.spec .refpb DSARP.org8GbX8 DSARP.speed1333) oneReadyBank 2
        .frfcfsPriorHit [bankRead 0 5 0, bankRead 0 7 1, bankRead 1 3 2] []).1 = some head ∧
      Oldest [bankRead 0 5 0, bankRead 0 7 1, bankRead 1 3 2] (fun req => ¬ Blocked oneReadyBank 2
          [bankRead 0 5 0, bankRead 0 7 1, bankRead 1 3 2] req ∧ oneReadyBank.isReady req = true)
        head := by
  have hready : ∃ req ∈ [bankRead 0 5 0, bankRead 0 7 1, bankRead 1 3 2],
      ¬ Blocked oneReadyBank 2 [bankRead 0 5 0, bankRead 0 7 1, bankRead 1 3 2] req ∧
        oneReadyBank.isReady req = true := by
    refine ⟨bankRead 1 3 2, by decide, ?_, by decide⟩
    rintro ⟨_, hopen, _⟩
    cases hopen
  have hnoHit : ¬ ∃ req ∈ [bankRead 0 5 0, bankRead 0 7 1, bankRead 1 3 2],
      oneReadyBank.isReady req = true ∧ oneReadyBank.isRowHit req = true := by
    decide
  obtain ⟨_, _, hrest⟩ := getHead_frfcfsPriorHit
    (DSARP.spec .refpb DSARP.org8GbX8 DSARP.speed1333) oneReadyBank 2
    [bankRead 0 5 0, bankRead 0 7 1, bankRead 1 3 2] [] (by decide)
  exact ⟨by decide, (hrest hnoHit (by decide)).2.1 hready⟩

end Scheduler

end Ramulator
