/-
  Ramulator.Mesi.Coherence

  The caches of zsim stay coherent, in whatever order the accesses of the cores, the
  evictions and the answers to the children come.

  The directory agrees with the children: its sharers are those with a valid copy, an
  exclusive entry has one sharer, and the shared cache has at least the permissions of
  its children.  A child that waits may have lost its copy meanwhile, and nothing else
  has happened to it.  So no assertion fails, and a line that one child can write is
  in no other.
-/

import Ramulator.Lib.Outcome
import Ramulator.Mesi.Basic

namespace Ramulator

open List Function

namespace Mesi

open Zsim Outcome

attribute [grind =] isExclusive

variable {kids : Nat} {l : Line} {type : InvType} {c : Nat} {noexcl b : Bool} {Q : MESIState → Prop}

/-- The directory agrees with the children. -/
structure Coherent (kids : Nat) (l : Line) : Prop where
  card : l.entry.numSharers = l.entry.sharers.card
  lt : ∀ c ∈ l.entry.sharers, c < kids
  mem : ∀ c, c ∈ l.entry.sharers ↔ l.child c ≠ .i
  excl : ∀ c ∈ l.entry.sharers, isExclusive (l.child c) = l.entry.isExclusive
  flag : l.entry.exclusive = true → l.entry.numSharers ≤ 1
  own : l.entry.isExclusive = true → isExclusive l.state = true
  empty : l.state = .i → l.entry.sharers = ∅

theorem ends_assert {α : Type} {c : Prop} [Decidable c] {x : Except Failure α} {Q : α → Prop}
    {E : Failure → Prop} (hc : c) (hx : Ends x Q E) : Ends (assert c >>= fun _ => x) Q E := by
  rw [assert, if_pos hc]
  exact hx

/-! ## Invalidations -/

/-- The state that an invalidation leaves. -/
def lowered : InvType → MESIState
  | .inv => .i
  | .invx => .s

/-- The line when the first `n` children have been invalidated. -/
def Line.swept (l : Line) (type : InvType) (n : Nat) : Line :=
  { l with
    child := fun c => if c ∈ l.entry.sharers ∧ c < n then lowered type else l.child c
    entry := { l.entry with
      sharers := if type = .inv then l.entry.sharers.filter (n ≤ ·) else l.entry.sharers } }

theorem processInval_ok {state : MESIState} (hvalid : state ≠ .i)
    (hexcl : type = .invx → isExclusive state = true) :
    processInval type state = .ok (lowered type, state == .m) := by
  cases type with
  | inv => simp [processInval, assert, hvalid, lowered]; rfl
  | invx => simp [processInval, assert, hexcl rfl, lowered]; rfl

/-- The loop over the first `n` children. -/
theorem foldlM_sendInvalidate (hvalid : ∀ c ∈ l.entry.sharers, l.child c ≠ .i)
    (hexcl : type = .invx → ∀ c ∈ l.entry.sharers, isExclusive (l.child c) = true) (n : Nat) :
    Ends ((List.range n).foldlM (sendInvalidate type) { line := l })
      (fun r => r.line = l.swept type n ∧ r.sentInvs = (l.entry.sharers.filter (· < n)).card ∧
        (r.reqWriteback = true → ∃ c ∈ l.entry.sharers, isExclusive (l.child c) = true))
      fun _ => False := by
  induction n with
  | zero =>
    refine ⟨?_, by simp, by simp⟩
    cases type <;> simp [Line.swept]
  | succ n ih =>
    rw [range_succ, foldlM_append]
    apply ih.bind
    rintro r ⟨hr, hsent, hwb⟩
    rw [foldlM_cons]
    have hmem : n ∈ r.line.entry.sharers ↔ n ∈ l.entry.sharers := by
      cases type <;> simp [hr, Line.swept]
    by_cases hn : n ∈ l.entry.sharers
    · have hstate : r.line.child n = l.child n := by simp [hr, Line.swept]
      have hinsert : l.entry.sharers.filter (· < n + 1) =
          insert n (l.entry.sharers.filter (· < n)) := by grind
      rw [sendInvalidate, if_pos (hmem.mpr hn), hstate,
        processInval_ok (hvalid n hn) fun ht => hexcl ht n hn]
      refine ⟨?_, ?_, ?_⟩
      · rw [hr]
        cases type <;> simp [Line.swept] <;> grind
      · rw [hinsert, Finset.card_insert_of_notMem (by simp), hsent]
      · intro hw
        rcases Bool.or_eq_true_iff.mp hw with hw | hw
        · exact hwb hw
        · exact ⟨n, hn, by rw [beq_iff_eq.mp hw]; rfl⟩
    · rw [sendInvalidate, if_neg (mt hmem.mp hn)]
      refine ⟨?_, ?_, hwb⟩
      · rw [hr]
        cases type <;> simp [Line.swept] <;> grind
      · rw [hsent]
        exact congrArg Finset.card (by grind)

/-- The line when all sharers have been invalidated. -/
def Line.invalidated (l : Line) (type : InvType) : Line :=
  { l with
    child := fun c => if c ∈ l.entry.sharers then lowered type else l.child c
    entry := match type with
      | .inv => { l.entry with numSharers := 0, sharers := ∅ }
      | .invx => { l.entry with exclusive := false } }

theorem sendInvalidates_ends (hcard : l.entry.numSharers = l.entry.sharers.card)
    (hlt : ∀ c ∈ l.entry.sharers, c < kids) (hvalid : ∀ c ∈ l.entry.sharers, l.child c ≠ .i)
    (hexcl : type = .invx → l.entry.isExclusive = true ∧
      ∀ c ∈ l.entry.sharers, isExclusive (l.child c) = true) :
    Ends (sendInvalidates kids l type) (fun r => r.1 = l.invalidated type ∧
      (r.2 = true → ∃ c ∈ l.entry.sharers, isExclusive (l.child c) = true)) fun _ => False := by
  apply Ends.ite
  · intro hnone
    have hzero : l.entry.numSharers = 0 := by grind
    have hempty := Finset.card_eq_zero.mp (hcard.symm.trans hzero)
    cases type with
    | inv =>
      refine ⟨?_, by simp⟩
      simp only [Line.invalidated, hempty, Finset.notMem_empty, if_false]
      rw [← hzero, ← hempty]
    | invx => simp [Entry.isExclusive, hzero] at hexcl
  · intro _
    apply (foldlM_sendInvalidate hvalid (fun ht => (hexcl ht).2) kids).bind
    rintro r ⟨hr, hsent, hwb⟩
    have hnone : l.entry.sharers.filter (kids ≤ ·) = ∅ := by grind
    have hchild : ∀ c, (c ∈ l.entry.sharers ∧ c < kids) = (c ∈ l.entry.sharers) :=
      fun c => propext ⟨And.left, fun hc => ⟨hc, hlt c hc⟩⟩
    rw [Finset.filter_true_of_mem hlt, ← hcard] at hsent
    apply ends_assert (by rw [hsent, hr]; rfl)
    cases type with
    | inv => exact ⟨by simp [hr, Line.swept, Line.invalidated, hnone, hchild], hwb⟩
    | invx =>
      have hone : l.entry.numSharers = 1 ∧ l.entry.exclusive = true := by
        simpa [Entry.isExclusive] using (hexcl rfl).1
      apply ends_assert (by rw [hr]; exact hone.symm)
      exact ⟨by simp [hr, Line.swept, Line.invalidated, hchild], hwb⟩

/-! ## The directory -/

/-- A state after invalidations. -/
def Fell (state state' : MESIState) : Prop :=
  state' = state ∨ state' = .i ∨ (state' = .s ∧ isExclusive state = true)

/-- The shared cache has answered child `c`. -/
structure Answered (kids : Nat) (l l' : Line) (c : Nat) (Q : MESIState → Prop) : Prop where
  coherent : Coherent kids l'
  asked : l'.asked = l.asked
  state : Q (l'.child c)
  fell : ∀ c', c' ≠ c → Fell (l.child c') (l'.child c')

/-- The line without child `c`, which is no sharer of it. -/
structure Without (kids : Nat) (l : Line) (c : Nat) : Prop where
  card : l.entry.numSharers = l.entry.sharers.card
  lt : ∀ c' ∈ l.entry.sharers, c' < kids
  notMem : c ∉ l.entry.sharers
  mem : ∀ c', c' ≠ c → (c' ∈ l.entry.sharers ↔ l.child c' ≠ .i)

theorem Coherent.without (h : Coherent kids l) (hchild : l.child c = .i) : Without kids l c :=
  ⟨h.card, h.lt, fun hc => (h.mem c).mp hc hchild, fun c' _ => h.mem c'⟩

theorem Coherent.drop (h : Coherent kids l) (hc : c ∈ l.entry.sharers) :
    Without kids { l with entry := l.entry.drop c } c where
  card := by simp [Entry.drop, h.card, Finset.card_erase_of_mem hc]
  lt c' hc' := h.lt c' (Finset.mem_of_mem_erase hc')
  notMem := Finset.notMem_erase c _
  mem c' hc' := by simp [Entry.drop, hc', h.mem c']

theorem Without.invalidated (h : Without kids l c) (type : InvType) :
    Without kids (l.invalidated type) c := by
  have := h.mem
  cases type with
  | inv =>
    exact ⟨rfl, by simp [Line.invalidated], by simp [Line.invalidated],
      by grind [Line.invalidated, lowered]⟩
  | invx => exact ⟨h.card, h.lt, h.notMem, by grind [Line.invalidated, lowered]⟩

/-- Child `c` gets the line: exclusively only if there is no other sharer.  The line is
    `l₁` after the invalidations and was `l` before. -/
theorem Without.share {l₁ : Line} {state : MESIState} (h : Without kids l₁ c) (hc : c < kids)
    (hown : l₁.state ≠ .i) (hvalid : state ≠ .i)
    (hexcl : if isExclusive state then l₁.entry.sharers = ∅ ∧ isExclusive l₁.state = true
      else ∀ c' ∈ l₁.entry.sharers, isExclusive (l₁.child c') = false) (hasked : l₁.asked = l.asked)
    (hfell : ∀ c', Fell (l.child c') (l₁.child c')) (hQ : Q state) :
    Answered kids l (l₁.share c state) c Q := by
  have hentry : (l₁.share c state).entry.isExclusive = isExclusive state := by
    cases hs : isExclusive state <;> simp_all [Line.share, Entry.isExclusive, h.card]
  have hchild : ∀ c', (l₁.share c state).child c' = if c' = c then state else l₁.child c' :=
    fun c' => update_apply ..
  have hmem : ∀ c', c' ∈ (l₁.share c state).entry.sharers ↔ c' = c ∨ c' ∈ l₁.entry.sharers :=
    fun c' => Finset.mem_insert
  obtain ⟨hcard, hlt, hnot, hothers⟩ := h
  exact {
    coherent := {
      card := by simp [Line.share, Finset.card_insert_of_notMem hnot, hcard]
      lt := by grind
      mem := by grind
      excl := by grind
      flag := fun hex => by simp_all [Line.share]
      own := by grind [Line.share]
      empty := fun hi => absurd hi hown }
    asked := hasked
    state := by simpa [Line.share] using hQ
    fell := by grind }

theorem topPut_ends (h : Coherent kids l) (hvalid : l.child c ≠ .i) :
    Ends (topPut l c) (fun l' => Answered kids l l' c (· = .i)) fun _ => False := by
  have hc := (h.mem c).mpr hvalid
  apply ends_assert hc
  refine ⟨?_, rfl, by simp, fun c' hc' => Or.inl (by simp [hc'])⟩
  -- if other sharers are left the entry was not exclusive, and its flag is not set
  obtain ⟨hcard, hlt, hnot, hothers⟩ := h.drop hc
  have hflag : ∀ c' ∈ l.entry.sharers, c' ≠ c → l.entry.exclusive = false := by
    intro c' hc' hne
    have htwo := Finset.one_lt_card.mpr ⟨c', hc', c, hc, hne⟩
    have := h.card
    have := h.flag
    grind
  exact {
    card := hcard
    lt := hlt
    mem := by grind [Entry.drop]
    excl := by
      have := h.excl
      grind [Entry.drop, Entry.isExclusive]
    flag := fun hex => le_trans (Nat.sub_le _ 1) (h.flag hex)
    own := by
      intro hex
      have hone : l.entry.numSharers - 1 = 1 ∧ l.entry.exclusive = true := by
        simpa [Entry.drop, Entry.isExclusive] using hex
      have := h.flag hone.2
      omega
    empty := fun hi => by simp [Entry.drop, h.empty hi] }

theorem writeback_ok (hb : b = true → isExclusive l.state = true) :
    writeback (l, b) = .ok (if b then { l with state := .m } else l) := by
  rw [writeback, assert, if_pos hb]
  rfl

/-- A writeback does not change what the directory knows. -/
theorem writeback_ends {l' : Line} (h : Answered kids l l' c Q)
    (hb : b = true → isExclusive l'.state = true) :
    Ends (writeback (l', b)) (fun l'' => Answered kids l l'' c Q) fun _ => False := by
  rw [writeback_ok hb]
  cases b with
  | false => exact h
  | true => exact { h with coherent := { h.coherent with own := fun _ => rfl, empty := by simp } }

theorem fell_invalidated
    (hexcl : type = .invx → ∀ c ∈ l.entry.sharers, isExclusive (l.child c) = true) (c : Nat) :
    Fell (l.child c) ((l.invalidated type).child c) := by
  cases type <;> grind [Line.invalidated, lowered, Fell]

theorem topGets_ends (h : Coherent kids l) (hc : c < kids) (hchild : l.child c = .i)
    (hstate : l.state ≠ .i) :
    Ends (topGets kids l c noexcl) (fun l' => Answered kids l l' c (· ≠ .i)) fun _ => False := by
  have hwithout := h.without hchild
  apply Ends.ite
  · rintro ⟨hzero, hexcl, -⟩
    have hempty := Finset.card_eq_zero.mp (h.card.symm.trans hzero)
    have hshare : Answered kids l (l.share c .e) c (· ≠ .i) :=
      hwithout.share hc hstate (by simp) ⟨hempty, hexcl⟩ rfl (fun _ => Or.inl rfl) (by simp)
    exact hshare
  · intro _
    apply ends_assert hwithout.notMem
    by_cases hexcl : l.entry.isExclusive = true
    · have hall : ∀ c ∈ l.entry.sharers, isExclusive (l.child c) = true :=
        fun c' hc' => (h.excl c' hc').trans hexcl
      rw [if_pos hexcl]
      apply (sendInvalidates_ends h.card h.lt (fun c => (h.mem c).mp) fun _ => ⟨hexcl, hall⟩).bind
      rintro ⟨-, b⟩ ⟨rfl, -⟩
      apply ends_assert (by simp [Line.invalidated, Entry.isExclusive])
      have hshare : Answered kids l ((l.invalidated .invx).share c .s) c (· ≠ .i) :=
        (hwithout.invalidated .invx).share hc hstate (by simp)
          (by grind [Line.invalidated, lowered]) rfl (fell_invalidated fun _ => hall) (by simp)
      exact writeback_ends hshare fun _ => h.own hexcl
    · have hshared : l.entry.isExclusive = false := by simpa using hexcl
      rw [if_neg hexcl]
      apply ends_assert hshared
      have hshare : Answered kids l (l.share c .s) c (· ≠ .i) :=
        hwithout.share hc hstate (by simp) (fun c' hc' => (h.excl c' hc').trans hshared) rfl
          (fun _ => Or.inl rfl) (by simp)
      exact writeback_ends hshare (by simp)

theorem topGetx_ends (h : Coherent kids l) (hc : c < kids) (hown : l.state = .m)
    (hchild : isExclusive (l.child c) = false) :
    Ends (topGetx kids l c) (fun l' => Answered kids l l' c (· = .m)) fun _ => False := by
  apply ends_assert (by rw [hown]; rfl)
  apply ends_assert (fun hmem => (h.excl c hmem).symm.trans hchild)
  -- the line without the child that asks
  generalize hl₀ : (if c ∈ l.entry.sharers then { l with entry := l.entry.drop c } else l) = l₀
  have hl : Without kids l₀ c ∧ l₀.child = l.child ∧ l₀.asked = l.asked ∧ l₀.state = l.state := by
    subst hl₀
    split
    · next hmem => exact ⟨h.drop hmem, rfl, rfl, rfl⟩
    · next hmem => exact ⟨h.without (by simpa [h.mem c] using hmem), rfl, rfl, rfl⟩
  obtain ⟨hwithout, hchild₀, hasked, hstate⟩ := hl
  have hvalid : ∀ c' ∈ l₀.entry.sharers, l₀.child c' ≠ .i :=
    fun c' hc' => (hwithout.mem c' fun heq => hwithout.notMem (heq ▸ hc')).mp hc'
  apply (sendInvalidates_ends hwithout.card hwithout.lt hvalid (by simp)).bind
  rintro ⟨-, b⟩ ⟨rfl, -⟩
  apply ends_assert rfl
  have hm : l₀.state = .m := hstate.trans hown
  have hfell : ∀ c', Fell (l.child c') ((l₀.invalidated .inv).child c') := by
    rw [← hchild₀]
    exact fell_invalidated (by simp)
  have hown' : isExclusive (l₀.invalidated .inv).state = true := by
    simp [Line.invalidated, hm, isExclusive]
  exact writeback_ends ((hwithout.invalidated .inv).share hc (by simp [Line.invalidated, hm])
    (by simp) ⟨rfl, hown'⟩ hasked hfell rfl) fun _ => hown'

/-! ## Runs -/

/-- What is known of a child that waits: its copy can only have been invalidated. -/
def Waits (kids : Nat) (l : Line) (c : Nat) (req : Req) : Prop :=
  c < kids ∧
  ((req.initialState ≠ .i ∧ req.type = (if req.initialState = .m then .putx else .puts) ∧
      (l.child c = req.initialState ∨ l.child c = .i ∨ l.child c = .s)) ∨
    (req.type = .gets ∧ req.initialState = .i ∧ l.child c = .i) ∨
    (req.type = .getx ∧ isExclusive req.initialState = false ∧
      (l.child c = req.initialState ∨ l.child c = .i)))

structure Inv (kids : Nat) (l : Line) : Prop where
  coherent : Coherent kids l
  waits : ∀ c req, l.asked c = some req → Waits kids l c req

variable {l' : Line} {req : Req}

theorem Waits.fell (h : Waits kids l c req) (hfell : Fell (l.child c) (l'.child c)) :
    Waits kids l' c req := by
  obtain ⟨hc, h⟩ := h
  refine ⟨hc, ?_⟩
  grind [Fell]

/-- The shared cache gets more permissions. -/
theorem Coherent.raise {state : MESIState} (h : Coherent kids l) (hvalid : state ≠ .i)
    (hexcl : isExclusive l.state = true → isExclusive state = true) :
    Coherent kids { l with state } :=
  { h with own := fun he => hexcl (h.own he), empty := fun hi => absurd hi hvalid }

theorem Coherent.shared_valid (h : Coherent kids l) (hchild : l.child c ≠ .i) : l.state ≠ .i := by
  intro hi
  have hmem := (h.mem c).mpr hchild
  simp [h.empty hi] at hmem

/-- The memory gives the line if the shared cache does not have it. -/
theorem Coherent.sharedAccess_gets (h : Coherent kids l) (noexcl : Bool) :
    ∃ state, sharedAccess l .gets noexcl = .ok { l with state } ∧ state ≠ .i ∧
      Coherent kids { l with state } := by
  have hvalid : (if l.state = .i then memoryAccess .gets noexcl else l.state) ≠ .i := by
    grind [memoryAccess]
  refine ⟨_, ?_, hvalid, h.raise hvalid (by grind)⟩
  by_cases hi : l.state = .i <;> simp [sharedAccess, bottomAccess, assert, hi] <;> rfl

/-- What is left of a request after the check for races. -/
def Stable (l : Line) (c : Nat) (type : AccessType) : Prop :=
  (type = .gets ∧ l.child c = .i) ∨ (type = .getx ∧ isExclusive (l.child c) = false) ∨
    (l.child c ≠ .i ∧ type = if l.child c = .m then .putx else .puts)

theorem answer_ends {type : AccessType} (h : Coherent kids l) (hc : c < kids)
    (htype : Stable l c type) :
    Ends (do let l ← sharedAccess l type noexcl; topAccess kids l c type noexcl)
      (fun l' => Answered kids l l' c fun state =>
        (isPut type = true → state = .i) ∧ (type = .getx → state = .m)) fun _ => False := by
  rcases htype with ⟨rfl, hchild⟩ | ⟨rfl, hchild⟩ | ⟨hvalid, htype⟩
  · obtain ⟨state, haccess, hvalid, hraised⟩ := h.sharedAccess_gets noexcl
    rw [haccess]
    exact (topGets_ends hraised hc hchild hvalid).weaken fun l' hl' =>
      { hl' with state := ⟨by simp [isPut], by simp⟩ }
  · have haccess : sharedAccess l .getx noexcl = .ok { l with state := .m } := by
      cases he : isExclusive l.state <;>
        simp [sharedAccess, bottomAccess, assert, memoryAccess, he] <;> rfl
    rw [haccess]
    have hraised : Coherent kids { l with state := .m } := h.raise (by simp) fun _ => rfl
    exact (topGetx_ends hraised hc rfl hchild).weaken fun l' hl' =>
      { hl' with state := ⟨by simp [isPut], fun _ => hl'.state⟩ }
  · have hown := h.shared_valid hvalid
    by_cases hm : l.child c = .m
    · rw [if_pos hm] at htype
      subst htype
      have hexcl : l.entry.isExclusive = true := by
        rw [← h.excl c ((h.mem c).mpr hvalid), hm]
        rfl
      have haccess : sharedAccess l .putx noexcl = .ok { l with state := .m } := by
        simp [sharedAccess, bottomAccess, assert, h.own hexcl]; rfl
      rw [haccess]
      apply ends_assert hexcl
      have hraised : Coherent kids { l with state := .m } := h.raise (by simp) fun _ => rfl
      exact (topPut_ends hraised hvalid).weaken fun l' hl' =>
        { hl' with state := ⟨fun _ => hl'.state, by simp⟩ }
    · rw [if_neg hm] at htype
      subst htype
      have haccess : sharedAccess l .puts noexcl = .ok l := by
        simp [sharedAccess, bottomAccess, assert, hown]; rfl
      rw [haccess]
      exact (topPut_ends h hvalid).weaken fun l' hl' =>
        { hl' with state := ⟨fun _ => hl'.state, by simp⟩ }

/-- The check for races of a child that waits: a PUT is skipped if the copy is gone. -/
theorem checkForMESIRace_ends (h : Waits kids l c req) :
    Ends (checkForMESIRace req.type (l.child c) req.initialState)
      (fun type => (type = none → isPut req.type = true ∧ l.child c = .i) ∧
        ∀ type', type = some type' → Stable l c type' ∧ isPut type' = isPut req.type ∧
          (type' = .getx ↔ req.type = .getx)) fun _ => False := by
  obtain ⟨-, ⟨hinit, htype, hchild⟩ | ⟨htype, hinit, hchild⟩ | ⟨htype, hinit, hchild⟩⟩ := h
  · have hput : isPut req.type = true := by
      rw [htype]
      split <;> rfl
    apply Ends.ite
    · intro hsame
      exact ⟨by simp, by grind [Stable]⟩
    · intro hraced
      rw [if_pos hput]
      apply Ends.ite
      · intro hi
        exact ⟨fun _ => ⟨hput, hi⟩, by simp⟩
      · intro hvalid
        have hs : l.child c = .s := by grind
        apply ends_assert hs
        exact ⟨by simp, by grind [Stable, isPut]⟩
  · rw [checkForMESIRace, if_pos (hchild.trans hinit.symm)]
    exact ⟨by simp, by grind [Stable]⟩
  · apply Ends.ite
    · intro hsame
      exact ⟨by simp, by grind [Stable]⟩
    · intro hraced
      have hlost : req.initialState = .s ∧ l.child c = .i := by
        cases hstate : req.initialState <;> simp_all [isExclusive]
      rw [htype]
      apply ends_assert hlost
      exact ⟨by simp, by grind [Stable, isPut]⟩

theorem serve_ends (h : Inv kids l) (hreq : l.asked c = some req) :
    Ends (serve kids l c req) (Inv kids) fun _ => False := by
  have hwaits := h.waits c req hreq
  apply (checkForMESIRace_ends hwaits).bind
  rintro type ⟨hnone, hsome⟩
  -- the answer, or nothing at all if the request is skipped
  have hanswer : Ends (type.elim (pure l) fun type => do
        let l ← sharedAccess l type req.noexcl
        topAccess kids l c type req.noexcl)
      (fun l' => Answered kids l l' c fun state =>
        (isPut req.type = true → state = .i) ∧ (req.type = .getx → state = .m)) fun _ => False := by
    cases type with
    | none =>
      obtain ⟨hput, hi⟩ := hnone rfl
      refine ⟨h.coherent, rfl, ⟨fun _ => hi, fun hx => ?_⟩, fun _ _ => Or.inl rfl⟩
      simp [hx, isPut] at hput
    | some type =>
      obtain ⟨hstable, hput, hgetx⟩ := hsome type rfl
      rw [← hput, ← hgetx]
      exact answer_ends h.coherent hwaits.1 hstable
  apply hanswer.bind
  intro l' hl'
  apply ends_assert hl'.state.1
  apply ends_assert hl'.state.2
  refine ⟨{ hl'.coherent with }, fun c' req' hreq' => ?_⟩
  by_cases hc : c' = c
  · simp [hc] at hreq'
  · have hasked : l.asked c' = some req' := by simpa [hc, hl'.asked] using hreq'
    exact (h.waits c' req' hasked).fell (hl'.fell c' hc)

/-- A child finds the permission in its own copy; a store makes an E an M. -/
theorem Coherent.hit {state : MESIState} (h : Coherent kids l) (hvalid : l.child c ≠ .i)
    (hstate : state ≠ .i) (hexcl : isExclusive state = isExclusive (l.child c)) :
    Coherent kids { l with child := update l.child c state } :=
  have hmem := h.mem
  have hall := h.excl
  { h with mem := by grind, excl := by grind }

theorem Inv.ask {type : AccessType} (h : Inv kids l)
    (hwaits : Waits kids l c { type, initialState := l.child c, noexcl }) :
    Inv kids (ask l c type noexcl) := by
  refine ⟨{ h.coherent with }, fun c' req' hreq' => ?_⟩
  by_cases hc : c' = c
  · subst hc
    obtain rfl : _ = req' := by simpa [Mesi.ask] using hreq'
    exact hwaits
  · exact h.waits c' req' (by simpa [Mesi.ask, hc] using hreq')

theorem get_ends {store : Bool} (h : Inv kids l) (hc : c < kids) (hidle : (l.asked c).isNone) :
    Ends (step kids l (.get c store noexcl)) (Inv kids) fun _ => False := by
  -- other children are not concerned, and this one does not wait
  have hhit : ∀ state, l.child c ≠ .i → state ≠ .i → isExclusive state = isExclusive (l.child c) →
        Inv kids { l with child := update l.child c state } := by
    intro state hvalid hstate hexcl
    refine ⟨h.coherent.hit hvalid hstate hexcl, fun c' req' hreq' => ?_⟩
    have hne : c' ≠ c := by rintro rfl; simp_all
    exact (h.waits c' req' hreq').fell (Or.inl (by simp [hne]))
  rw [step, if_pos ⟨hc, hidle⟩]
  cases store with
  | false =>
    by_cases hi : l.child c = .i
    · simp only [Bool.false_eq_true, if_false, bottomAccess, hi, if_true]
      exact h.ask ⟨hc, .inr (.inl ⟨rfl, hi, hi⟩)⟩
    · simp only [Bool.false_eq_true, if_false, bottomAccess, hi]
      exact hhit _ hi hi rfl
  | true =>
    cases hexcl : isExclusive (l.child c) with
    | false =>
      simp only [if_true, bottomAccess, hexcl, Bool.false_eq_true, if_false]
      exact h.ask ⟨hc, .inr (.inr ⟨rfl, hexcl, .inl rfl⟩)⟩
    | true =>
      simp only [if_true, bottomAccess, hexcl]
      exact hhit _ (by rintro hi; simp [hi, isExclusive] at hexcl) (by simp) hexcl.symm

theorem evict_ends {exclusive : Bool} (h : Inv kids l) :
    Ends (step kids l (.evict exclusive)) (Inv kids) fun _ => False := by
  have hcoherent := h.coherent
  apply (sendInvalidates_ends hcoherent.card hcoherent.lt (fun c => (hcoherent.mem c).mp)
    (by simp)).bind
  rintro ⟨-, b⟩ ⟨rfl, hb⟩
  -- a child that asks for a writeback has the line exclusively, and so has the shared cache
  have hown : b = true → isExclusive (l.invalidated .inv).state = true := by
    intro hw
    obtain ⟨c, hc, hexcl⟩ := hb hw
    exact hcoherent.own ((hcoherent.excl c hc).symm.trans hexcl)
  have hinv : Inv kids { l.invalidated .inv with
      state := .i, entry := { (l.invalidated .inv).entry with exclusive } } := {
    coherent := {
      card := rfl
      lt := by simp [Line.invalidated]
      mem := by
        have := hcoherent.mem
        grind [Line.invalidated, lowered]
      excl := by simp [Line.invalidated]
      flag := fun _ => Nat.zero_le 1
      own := by simp [Line.invalidated, Entry.isExclusive]
      empty := fun _ => rfl }
    waits := fun c req hreq => (h.waits c req hreq).fell (fell_invalidated (by simp) c) }
  rw [writeback_ok hown]
  cases b <;> exact hinv

theorem step_ends (h : Inv kids l) (s : Step) : Ends (step kids l s) (Inv kids) fun _ => False := by
  cases s with
  | get c store noexcl =>
    by_cases hc : c < kids ∧ (l.asked c).isNone
    · exact get_ends h hc.1 hc.2
    · rw [step, if_neg hc]
      exact h
  | put c =>
    apply Ends.ite
    · rintro ⟨hc, -, hvalid⟩
      exact h.ask ⟨hc, .inl ⟨hvalid, rfl, .inl rfl⟩⟩
    · exact fun _ => h
  | serve c =>
    cases hreq : l.asked c with
    | none =>
      rw [step, hreq]
      exact h
    | some req =>
      rw [step, hreq]
      exact serve_ends h hreq
  | prefetch =>
    obtain ⟨state, haccess, -, hraised⟩ := h.coherent.sharedAccess_gets false
    rw [step, haccess]
    exact ⟨hraised, h.waits⟩
  | evict exclusive => exact evict_ends h

theorem inv_empty : Inv kids {} where
  coherent := by constructor <;> simp [Entry.isExclusive]
  waits := by simp

/-- However the accesses, evictions and answers are interleaved, no assertion fails and
    there is no invalid race.  The directory knows who has a copy, and a copy is in the
    shared cache too.  A line that one child holds exclusively is in no other child, and
    the shared cache holds it exclusively as well. -/
theorem run_coherent (kids : Nat) (steps : List Step) : ∃ l, run kids steps = .ok l ∧
      (∀ c, c ∈ l.entry.sharers ↔ l.child c ≠ .i) ∧ (∀ c, l.child c ≠ .i → l.state ≠ .i) ∧
      (∀ c, isExclusive (l.child c) = true → isExclusive l.state = true) ∧
      ∀ c c', isExclusive (l.child c) = true → c' ≠ c → l.child c' = .i := by
  have hrun : Ends (run kids steps) (Inv kids) fun _ => False :=
    Ends.foldlM steps inv_empty fun _ s _ h => step_ends h s
  obtain ⟨l, hl, h⟩ := hrun.exists_ok
  have hcoherent := h.coherent
  -- an exclusive child is the one sharer that the entry counts
  have hone : ∀ c, isExclusive (l.child c) = true →
      c ∈ l.entry.sharers ∧ l.entry.isExclusive = true := by
    intro c hexcl
    have hmem := (hcoherent.mem c).mpr (by rintro hi; simp [hi, isExclusive] at hexcl)
    exact ⟨hmem, (hcoherent.excl c hmem).symm.trans hexcl⟩
  refine ⟨l, hl, hcoherent.mem, fun c => hcoherent.shared_valid,
    fun c hexcl => hcoherent.own (hone c hexcl).2, ?_⟩
  intro c c' hexcl hne
  obtain ⟨hmem, hentry⟩ := hone c hexcl
  by_contra hvalid
  have htwo := Finset.one_lt_card.mpr ⟨c', (hcoherent.mem c').mpr hvalid, c, hmem, hne⟩
  have hcount : l.entry.numSharers = 1 ∧ l.entry.exclusive = true := by
    simpa [Entry.isExclusive] using hentry
  have := hcoherent.card
  omega

-- the second child downgrades the first, which then loses the race for its eviction
example : (run 2 [.get 0 true false, .serve 0, .put 0, .get 1 false false, .serve 1,
    .serve 0]).toOption.map (fun l => (l.child 0, l.child 1, l.state)) =
      some (.i, .s, .m) := by
  decide

end Mesi

end Ramulator
