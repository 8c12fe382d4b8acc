/-
  Ramulator.Scheduler

  The row table, the row policies and the schedulers (Scheduler.h).

  All three are templates over the standard.  The row table is a
  `map<vector<int>, Entry>`, kept here as the list of its entries in key order.
  The schedulers ask their controller whether a request is ready, hits the open
  row or finds a row open; `View` holds these three answers.  An iterator into
  a queue is the position of the request.
-/

import Mathlib.Data.List.Lex
import Ramulator.Dram.Basic

namespace Ramulator

open Outcome List

/-! ## Row table -/

structure RowEntry where
  row : Int
  hits : Int
  timestamp : Int
deriving DecidableEq, Repr

abbrev RowTable := List (AddrVec × RowEntry)

namespace RowTable

/-- `table.insert({g, e})`: an entry that is there stays. -/
def insert (g : AddrVec) (e : RowEntry) : RowTable → RowTable
  | [] => [(g, e)]
  | kv :: rest =>
    if g = kv.1 then kv :: rest
    else if g < kv.1 then (g, e) :: kv :: rest
    else kv :: insert g e rest

def modify (g : AddrVec) (f : RowEntry → RowEntry) (table : RowTable) : RowTable :=
  table.map fun kv => if kv.1 = g then (kv.1, f kv.2) else kv

variable {C S : Type} {g : AddrVec} {e : RowEntry}

def access (rowgroup : AddrVec) (row clk : Int) (table : RowTable) : Except Abort RowTable :=
  match table.lookup rowgroup with
  | none => .error .rowMatch
  | some e =>
    if e.row = row then
      .ok (modify rowgroup (fun e => { e with hits := e.hits + 1, timestamp := clk }) table)
    else .error .rowEqual

def close (addrVec : AddrVec) (scope : Nat) (table : RowTable) : Except Abort RowTable :=
  let rest := table.filter fun kv => decide (kv.1.take (scope + 1) ≠ addrVec.take (scope + 1))
  if rest.length < table.length then .ok rest else .error .rowRemoved

/-- `RowTable::update`; `junk` stands for `*end` when the vector ends there. -/
def update (spec : Spec C S) (cmd : C) (addrVec : AddrVec) (clk junk : Int)
    (table : RowTable) : Except Abort RowTable :=
  let rowgroup := addrVec.take spec.row
  let row := addrVec.data junk spec.row
  let opened :=
    if spec.isOpening cmd then insert rowgroup { row, hits := 0, timestamp := clk } table
    else table
  let accessed :=
    if spec.isAccessing cmd then access rowgroup row clk opened else .ok opened
  if spec.isClosing cmd then accessed.bind (close addrVec (spec.scope cmd)) else accessed

/-- `RowTable::get_hits`: `table[rowgroup]` inserts a zero entry if there is none. -/
def getHits (spec : Spec C S) (addrVec : AddrVec) (table : RowTable) : Int × RowTable :=
  let rowgroup := addrVec.take spec.row
  let row := addrVec.data 0 spec.row
  match table.lookup rowgroup with
  | none => (0, insert rowgroup { row := 0, hits := 0, timestamp := 0 } table)
  | some e => (if e.row ≠ row then 0 else e.hits, table)

theorem lookup_cons_self (kv : AddrVec × RowEntry) (rest : RowTable) :
    List.lookup kv.1 (kv :: rest) = some kv.2 := by
  obtain ⟨g, e⟩ := kv
  exact List.lookup_cons_self

theorem lookup_cons_of_ne {kv : AddrVec × RowEntry} (h : g ≠ kv.1) (rest : RowTable) :
    List.lookup g (kv :: rest) = rest.lookup g := by
  obtain ⟨g', e⟩ := kv
  have hbeq : (g == g') = false := beq_eq_false_iff_ne.mpr h
  rw [lookup_cons, hbeq]

variable {table : RowTable}

theorem lookup_insert (h : table.lookup g = none) (e : RowEntry) (g' : AddrVec) :
    (insert g e table).lookup g' = if g' = g then some e else table.lookup g' := by
  have hnew : ∀ rest : RowTable, List.lookup g' ((g, e) :: rest) =
      if g' = g then some e else rest.lookup g' := by
    intro rest
    by_cases hg : g' = g
    · subst hg
      rw [if_pos rfl]
      exact lookup_cons_self (g', e) rest
    · rw [if_neg hg, lookup_cons_of_ne hg]
  induction table with
  | nil => exact hnew []
  | cons kv rest ih =>
    have hne : g ≠ kv.1 := by
      rintro rfl
      rw [lookup_cons_self] at h
      cases h
    rw [lookup_cons_of_ne hne] at h
    rw [insert, if_neg hne]
    split
    · exact hnew (kv :: rest)
    · by_cases hkv : g' = kv.1
      · subst hkv
        rw [lookup_cons_self, lookup_cons_self, if_neg (Ne.symm hne)]
      · rw [lookup_cons_of_ne hkv, lookup_cons_of_ne hkv]
        exact ih h

theorem lookup_modify (g : AddrVec) (f : RowEntry → RowEntry) (table : RowTable)
    (g' : AddrVec) : (modify g f table).lookup g' =
      if g' = g then (table.lookup g').map f else table.lookup g' := by
  induction table with
  | nil => simp [modify]
  | cons kv rest ih =>
    have htail : modify g f (kv :: rest) =
        (if kv.1 = g then (kv.1, f kv.2) else kv) :: modify g f rest := rfl
    rw [htail]
    by_cases hg : kv.1 = g
    · rw [if_pos hg]
      by_cases hkv : g' = kv.1
      · subst hkv
        rw [lookup_cons_self, if_pos hg]
        exact lookup_cons_self (kv.1, f kv.2) _
      · have hkv' : g' ≠ (kv.1, f kv.2).1 := hkv
        rw [lookup_cons_of_ne hkv, lookup_cons_of_ne hkv']
        exact ih
    · rw [if_neg hg]
      by_cases hkv : g' = kv.1
      · subst hkv
        rw [lookup_cons_self, lookup_cons_self, if_neg hg]
      · rw [lookup_cons_of_ne hkv, lookup_cons_of_ne hkv]
        exact ih

theorem lookup_filter (P : AddrVec → Bool) (table : RowTable) (g' : AddrVec) :
    (table.filter (fun kv => P kv.1)).lookup g' = if P g' then table.lookup g' else none := by
  induction table with
  | nil => simp
  | cons kv rest ih =>
    by_cases hP : P kv.1 = true
    · rw [filter_cons, if_pos hP]
      by_cases hkv : g' = kv.1
      · subst hkv
        rw [lookup_cons_self, lookup_cons_self, if_pos hP]
      · rw [lookup_cons_of_ne hkv, lookup_cons_of_ne hkv]
        exact ih
    · rw [filter_cons, if_neg hP, ih]
      by_cases hkv : g' = kv.1
      · subst hkv
        rw [if_neg hP, if_neg hP]
      · rw [lookup_cons_of_ne hkv]

theorem access_ends (g : AddrVec) (row clk : Int) (table : RowTable) :
    Ends (access g row clk table) (fun _ => True) (fun e => e.isRowTable = true) := by
  unfold access
  split
  · rfl
  · exact Ends.guard (fun _ => rfl) (fun _ => trivial)

theorem update_ends (spec : Spec C S) (cmd : C) (v : AddrVec) (clk junk : Int) (table : RowTable) :
    Ends (table.update spec cmd v clk junk) (fun _ => True) (fun e => e.isRowTable = true) := by
  have haccessed : ∀ t : RowTable, Ends
      (if spec.isAccessing cmd then access (v.take spec.row) (v.data junk spec.row) clk t
        else .ok t) (fun _ => True) (fun e => e.isRowTable = true) :=
    fun t => Ends.ite (fun _ => access_ends _ _ _ t) (fun _ => trivial)
  unfold update
  refine Ends.ite (fun _ => ?_) (fun _ => haccessed _)
  exact Ends.bind (haccessed _) (fun t _ => Ends.guard (fun _ => rfl) (fun _ => trivial))

theorem mem_of_lookup (h : table.lookup g = some e) : (g, e) ∈ table := by
  induction table with
  | nil => cases h
  | cons kv rest ih =>
    by_cases hkv : g = kv.1
    · subst hkv
      rw [lookup_cons_self, Option.some.injEq] at h
      subst h
      exact mem_cons_self
    · rw [lookup_cons_of_ne hkv] at h
      exact mem_cons_of_mem _ (ih h)

theorem exists_lookup_of_mem (h : (g, e) ∈ table) : ∃ e', table.lookup g = some e' := by
  induction table with
  | nil => cases h
  | cons kv rest ih =>
    by_cases hkv : g = kv.1
    · subst hkv
      exact ⟨kv.2, lookup_cons_self kv rest⟩
    · rcases mem_cons.mp h with heq | hrest
      · exact absurd (congrArg Prod.fst heq) hkv
      · obtain ⟨e', he'⟩ := ih hrest
        exact ⟨e', by rw [lookup_cons_of_ne hkv, he']⟩

def Keys (P : AddrVec → Prop) (table : RowTable) : Prop := ∀ kv ∈ table, P kv.1

variable {P : AddrVec → Prop}

section

variable (h : Keys P table) {v : AddrVec}
include h

theorem Keys.insert (hg : P g) (e : RowEntry) : Keys P (insert g e table) := by
  induction table with
  | nil =>
    intro kv hkv
    rw [mem_singleton.mp hkv]
    exact hg
  | cons kv rest ih =>
    have hrest : Keys P (RowTable.insert g e rest) :=
      ih (fun kv' hkv' => h kv' (mem_cons_of_mem _ hkv'))
    rw [RowTable.insert]
    split
    · exact h
    · split
      · intro kv' hkv'
        rcases mem_cons.mp hkv' with rfl | hkv'
        · exact hg
        · exact h kv' hkv'
      · intro kv' hkv'
        rcases mem_cons.mp hkv' with rfl | hkv'
        · exact h _ mem_cons_self
        · exact hrest kv' hkv'

theorem Keys.access (g : AddrVec) (row clk : Int) : Yields (access g row clk table) (Keys P) := by
  unfold RowTable.access
  split
  · trivial
  · refine Ends.guard (fun _ => trivial) (fun _ => ?_)
    intro kv hkv
    obtain ⟨kv₀, hkv₀, rfl⟩ := mem_map.mp hkv
    have hkey := h kv₀ hkv₀
    split
    · exact hkey
    · exact hkey

theorem Keys.update (spec : Spec C S) (cmd : C) (hv : P (v.take spec.row)) (clk junk : Int) :
    Yields (table.update spec cmd v clk junk) (Keys P) := by
  have hopened : Keys P (if spec.isOpening cmd then RowTable.insert (v.take spec.row)
      { row := v.data junk spec.row, hits := 0, timestamp := clk } table else table) := by
    split
    · exact h.insert hv _
    · exact h
  have haccessed : Yields (if spec.isAccessing cmd then RowTable.access (v.take spec.row)
      (v.data junk spec.row) clk (if spec.isOpening cmd then RowTable.insert (v.take spec.row)
        { row := v.data junk spec.row, hits := 0, timestamp := clk } table else table)
      else .ok (if spec.isOpening cmd then RowTable.insert (v.take spec.row)
        { row := v.data junk spec.row, hits := 0, timestamp := clk } table else table))
      (Keys P) :=
    Ends.ite (fun _ => hopened.access _ _ _) (fun _ => hopened)
  unfold RowTable.update
  refine Ends.ite (fun _ => ?_) (fun _ => haccessed)
  refine Ends.bind haccessed (fun t ht => Ends.guard (fun _ => trivial) (fun _ => ?_))
  exact fun kv hkv => ht kv (mem_of_mem_filter hkv)

theorem Keys.getHits (spec : Spec C S) (hv : P (v.take spec.row)) :
    Keys P (table.getHits spec v).2 := by
  simp only [RowTable.getHits]
  split
  · exact h.insert hv _
  · exact h

end

end RowTable

/-! ## Row policies -/

inductive RowPolicyType where
  | closed | opened | timeout
deriving DecidableEq, Repr

def rowPolicyTimeout : Int := 50

/-- `RowPolicy::get_victim`; an empty vector means that there is none. -/
def RowPolicyType.getVictim (type : RowPolicyType) (isReady : AddrVec → Bool) (clk : Int)
    (table : RowTable) : AddrVec :=
  match type with
  | .closed => ((table.find? fun kv => isReady kv.1).map Prod.fst).getD []
  | .opened => []
  | .timeout =>
    ((table.find? fun kv =>
      decide (rowPolicyTimeout ≤ clk - kv.2.timestamp) && isReady kv.1).map Prod.fst).getD []

variable {isReady : AddrVec → Bool} {type : RowPolicyType} {table : RowTable} {clk : Int}

theorem RowPolicyType.getVictim_mem (h : type.getVictim isReady clk table ≠ []) :
    ∃ e, (type.getVictim isReady clk table, e) ∈ table := by
  have hfind : ∀ p : AddrVec × RowEntry → Bool, ((table.find? p).map Prod.fst).getD [] ≠ [] →
        ∃ e, (((table.find? p).map Prod.fst).getD [], e) ∈ table := by
    intro p hne
    cases hp : table.find? p with
    | none =>
      rw [hp] at hne
      exact absurd rfl hne
    | some kv => exact ⟨kv.2, mem_of_find?_eq_some hp⟩
  cases type with
  | closed => exact hfind _ h
  | opened => exact absurd rfl h
  | timeout => exact hfind _ h

theorem RowPolicyType.getVictim_ready (h : type.getVictim isReady clk table ≠ []) :
    isReady (type.getVictim isReady clk table) = true := by
  have hfind : ∀ p : AddrVec × RowEntry → Bool, (∀ kv, p kv = true → isReady kv.1 = true) →
      ((table.find? p).map Prod.fst).getD [] ≠ [] →
        isReady (((table.find? p).map Prod.fst).getD []) = true := by
    intro p hp hne
    cases hfound : table.find? p with
    | none =>
      rw [hfound] at hne
      exact absurd rfl hne
    | some kv => exact hp kv (find?_some hfound)
  cases type with
  | closed => exact hfind _ (fun _ hp => hp) h
  | opened => exact absurd rfl h
  | timeout => exact hfind _ (fun _ hp => (Bool.and_eq_true_iff.mp hp).2) h

/-! ## Schedulers -/

inductive SchedulerType where
  | fcfs | frfcfs | frfcfsCap | frfcfsPriorHit
deriving DecidableEq, Repr

/-- What a scheduler asks its controller. -/
structure View where
  isReady : Request → Bool
  isRowHit : Request → Bool
  isRowOpen : Request → Bool

def schedulerCap : Int := 16

namespace Scheduler

variable {C S : Type} {head : Option (Nat × Request)}

def olderReady (ready₁ ready₂ : Bool) (req₁ req₂ : Request) : Bool :=
  if ready₁ != ready₂ then ready₁ else decide (req₁.arrive ≤ req₂.arrive)

def readyWithinCap (spec : Spec C S) (view : View) (req : Request) (table : RowTable) :
    Bool × RowTable :=
  if view.isReady req then
    let (hits, table) := table.getHits spec req.addrVec
    (decide (hits ≤ schedulerCap), table)
  else (false, table)

/-- `compare[type](req1, req2)`: whether it returns `req1`. -/
def compare (spec : Spec C S) (view : View) (type : SchedulerType) (req₁ req₂ : Request)
    (table : RowTable) : Bool × RowTable :=
  match type with
  | .fcfs => (decide (req₁.arrive ≤ req₂.arrive), table)
  | .frfcfs => (olderReady (view.isReady req₁) (view.isReady req₂) req₁ req₂, table)
  | .frfcfsCap =>
    let (ready₁, table) := readyWithinCap spec view req₁ table
    let (ready₂, table) := readyWithinCap spec view req₂ table
    (olderReady ready₁ ready₂ req₁ req₂, table)
  | .frfcfsPriorHit =>
    (olderReady (view.isReady req₁ && view.isRowHit req₁)
      (view.isReady req₂ && view.isRowHit req₂) req₁ req₂, table)

def best (spec : Spec C S) (view : View) (type : SchedulerType) (head : Nat × Request)
    (rest : List (Nat × Request)) (table : RowTable) : (Nat × Request) × RowTable :=
  match rest with
  | [] => (head, table)
  | itr :: rest =>
    let (first, table) := compare spec view type head.2 itr.2 table
    best spec view type (if first then head else itr) rest table

def positions (q : List Request) : List (Nat × Request) := q.zipIdx.map Prod.swap

def bestOf (spec : Spec C S) (view : View) (type : SchedulerType) (q : List (Nat × Request))
    (table : RowTable) : Option (Nat × Request) × RowTable :=
  match q with
  | [] => (none, table)
  | head :: rest =>
    let (head, table) := best spec view type head rest table
    (some head, table)

def rowgroup (preScope : Nat) (req : Request) : AddrVec := req.addrVec.take (preScope + 1)

def violatesHit (view : View) (preScope : Nat) (q : List Request) (req : Request) : Bool :=
  !view.isRowHit req && view.isRowOpen req &&
    (q.filter view.isRowHit).any fun hit => rowgroup preScope req == rowgroup preScope hit

def getHead (spec : Spec C S) (view : View) (preScope : Nat) (type : SchedulerType)
    (q : List Request) (table : RowTable) : Option (Nat × Request) × RowTable :=
  match type with
  | .frfcfsPriorHit =>
    match bestOf spec view .frfcfsPriorHit (positions q) table with
    | (none, table) => (none, table)
    | (some head, table) =>
      if view.isReady head.2 && view.isRowHit head.2 then (some head, table)
      else
        bestOf spec view .frfcfs
          ((positions q).filter fun itr => !violatesHit view preScope q itr.2) table
  | type => bestOf spec view type (positions q) table

/-! ## What getHead returns -/

variable {spec : Spec C S} {view : View} {preScope : Nat} {type : SchedulerType}
  {q : List Request} {table table' : RowTable} {i : Nat} {req : Request}

theorem best_mem (head : Nat × Request) (rest : List (Nat × Request)) (table : RowTable) :
    (best spec view type head rest table).1 ∈ head :: rest := by
  induction rest generalizing head table with
  | nil => exact mem_cons_self
  | cons itr rest ih =>
    have hmem := ih (if (compare spec view type head.2 itr.2 table).1 then head else itr)
      (compare spec view type head.2 itr.2 table).2
    simp only [best]
    rcases mem_cons.mp hmem with heq | hrest
    · rw [heq]
      split
      · exact mem_cons_self
      · exact mem_cons_of_mem _ mem_cons_self
    · exact mem_cons_of_mem _ (mem_cons_of_mem _ hrest)

theorem bestOf_mem {q : List (Nat × Request)} {head : Nat × Request}
    (h : bestOf spec view type q table = (some head, table')) : head ∈ q := by
  cases q with
  | nil => cases h
  | cons itr rest =>
    have hbest : (best spec view type itr rest table).1 ∈ itr :: rest :=
      best_mem itr rest table
    cases h
    exact hbest

theorem mem_positions : (i, req) ∈ positions q ↔ q[i]? = some req := by
  simp only [positions, mem_map, Prod.exists, Prod.swap_prod_mk, Prod.mk.injEq]
  constructor
  · rintro ⟨r, k, hmem, rfl, rfl⟩
    exact mem_zipIdx_iff_getElem?.mp hmem
  · intro h
    exact ⟨req, i, mem_zipIdx_iff_getElem?.mpr h, rfl, rfl⟩

/-- The head is a request of the queue, at the position returned. -/
theorem getHead_some (h : getHead spec view preScope type q table = (some (i, req), table')) :
    q[i]? = some req := by
  rw [← mem_positions]
  unfold getHead at h
  split at h
  · split at h
    · cases h
    · next head table₁ hbest =>
      split at h
      · cases h
        exact bestOf_mem hbest
      · exact mem_of_mem_filter (bestOf_mem h)
  · exact bestOf_mem h

/-- FRFCFS_PriorHit returns a row hit, or a request it does not expect to close
    the row of one. -/
theorem getHead_priorHit
    (h : getHead spec view preScope .frfcfsPriorHit q table = (some (i, req), table')) :
    view.isRowHit req = true ∨ violatesHit view preScope q req = false := by
  simp only [getHead] at h
  split at h
  · cases h
  · next head table₁ hbest =>
    split at h
    · next hready =>
      cases h
      rw [Bool.and_eq_true] at hready
      exact Or.inl hready.2
    · have hmem := bestOf_mem h
      have hspared := (mem_filter.mp hmem).2
      exact Or.inr (by simpa using hspared)

section

variable (htype : type ≠ .frfcfsCap)
include htype

theorem compare_table (req₁ req₂ : Request) :
    (compare spec view type req₁ req₂ table).2 = table := by
  cases type with
  | fcfs => rfl
  | frfcfs => rfl
  | frfcfsCap => exact absurd rfl htype
  | frfcfsPriorHit => rfl

theorem bestOf_table (q : List (Nat × Request)) : (bestOf spec view type q table).2 = table := by
  have hbest : ∀ (rest : List (Nat × Request)) (head : Nat × Request),
      (best spec view type head rest table).2 = table := by
    intro rest
    induction rest with
    | nil => exact fun head => rfl
    | cons itr rest ih =>
      intro head
      simp only [best, compare_table htype]
      exact ih _
  cases q with
  | nil => rfl
  | cons head rest => exact hbest rest head

theorem getHead_table (h : getHead spec view preScope type q table = (head, table')) :
    table' = table := by
  have hbest : ∀ q, (bestOf spec view type q table).2 = table := bestOf_table htype
  cases type with
  | fcfs => rw [← hbest (positions q), show bestOf spec view .fcfs (positions q) table = _ from h]
  | frfcfs =>
    rw [← hbest (positions q), show bestOf spec view .frfcfs (positions q) table = _ from h]
  | frfcfsCap => exact absurd rfl htype
  | frfcfsPriorHit =>
    have hfirst := hbest (positions q)
    simp only [getHead] at h
    split at h
    · next table₁ hbest₁ =>
      rw [hbest₁] at hfirst
      cases h
      exact hfirst
    · next head₁ table₁ hbest₁ =>
      rw [hbest₁] at hfirst
      subst hfirst
      split at h
      · cases h
        rfl
      · have hsecond : (bestOf spec view .frfcfs
            ((positions q).filter fun itr => !violatesHit view preScope q itr.2)
            table₁).2 = table₁ := bestOf_table (by decide) _
        rw [h] at hsecond
        exact hsecond

end

variable {P : AddrVec → Prop}

section

variable (h : table.Keys P)
include h

theorem readyWithinCap_keys (hreq : P (req.addrVec.take spec.row)) :
    (readyWithinCap spec view req table).2.Keys P := by
  simp only [readyWithinCap]
  split
  · exact h.getHits spec hreq
  · exact h

theorem compare_keys {req₁ req₂ : Request} (hreq₁ : P (req₁.addrVec.take spec.row))
    (hreq₂ : P (req₂.addrVec.take spec.row)) :
    (compare spec view type req₁ req₂ table).2.Keys P := by
  cases type with
  | fcfs => exact h
  | frfcfs => exact h
  | frfcfsCap => exact readyWithinCap_keys (readyWithinCap_keys h hreq₁) hreq₂
  | frfcfsPriorHit => exact h

theorem bestOf_keys {q : List (Nat × Request)} (hq : ∀ itr ∈ q, P (itr.2.addrVec.take spec.row)) :
    (bestOf spec view type q table).2.Keys P := by
  have hbest : ∀ (rest : List (Nat × Request)) (head : Nat × Request) (table : RowTable),
      table.Keys P → (∀ itr ∈ head :: rest, P (itr.2.addrVec.take spec.row)) →
        (best spec view type head rest table).2.Keys P := by
    intro rest
    induction rest with
    | nil => exact fun head table htable _ => htable
    | cons itr rest ih =>
      intro head table htable hrest
      have hhead := hrest head mem_cons_self
      have hitr := hrest itr (mem_cons_of_mem _ mem_cons_self)
      have hcompare : (compare spec view type head.2 itr.2 table).2.Keys P :=
        compare_keys htable hhead hitr
      rw [best]
      generalize compare spec view type head.2 itr.2 table = out at hcompare ⊢
      obtain ⟨first, table₁⟩ := out
      have hnext : P ((if first = true then head else itr).2.addrVec.take spec.row) := by
        cases first
        · exact hitr
        · exact hhead
      refine ih _ _ hcompare ?_
      intro itr' hitr'
      rcases mem_cons.mp hitr' with rfl | hitr'
      · exact hnext
      · exact hrest itr' (mem_cons_of_mem _ (mem_cons_of_mem _ hitr'))
  cases q with
  | nil => exact h
  | cons head rest => exact hbest rest head table h hq

theorem getHead_keys (hq : ∀ req ∈ q, P (req.addrVec.take spec.row))
    (hhead : getHead spec view preScope type q table = (head, table')) : table'.Keys P := by
  by_cases hcap : type = .frfcfsCap
  · subst hcap
    have hpositions : ∀ itr ∈ positions q, P (itr.2.addrVec.take spec.row) := by
      rintro ⟨i, req⟩ hitr
      exact hq req (mem_of_getElem? (mem_positions.mp hitr))
    have hkeys : (bestOf spec view .frfcfsCap (positions q) table).2.Keys P :=
      bestOf_keys h hpositions
    rwa [show bestOf spec view .frfcfsCap (positions q) table = _ from hhead] at hkeys
  · rw [getHead_table hcap hhead]
    exact h

end

end Scheduler

end Ramulator
