/-
  Ramulator.RowTables

  What the schedulers ask the row table (Scheduler.h).

  `get_hits` asks `table[rowgroup]`: the table stays as it is only if the group has
  an entry.  The schedulers but FRFCFS_Cap do not ask; that one asks about the ready
  requests of a queue of two or more.  A vault that only ever asks about open banks
  keeps its row table in step with them (`run_getHits`); one that asks about a
  closed bank finds the row of the inserted entry there when it is accessed.
-/

import Ramulator.Hmc.Protocol

namespace Ramulator

open Outcome List

variable {C S : Type}

namespace RowTable

theorem getHits_table_iff (spec : Spec C S) (v : AddrVec) (table : RowTable) :
    (table.getHits spec v).2 = table ↔ table.lookup (v.take spec.row) ≠ none := by
  cases hl : table.lookup (v.take spec.row) with
  | some e => simp only [getHits, hl, ne_eq, reduceCtorEq, not_false_eq_true]
  | none =>
    have hlookup := lookup_insert hl { row := 0, hits := 0, timestamp := 0 } (v.take spec.row)
    simp only [getHits, hl, ne_eq, not_true_eq_false, iff_false]
    intro heq
    rw [heq, hl, if_pos rfl] at hlookup
    cases hlookup

end RowTable

namespace Scheduler

variable {spec : Spec C S} {view : View} {preScope : Nat} {type : SchedulerType}
  {table : RowTable}

/-- The requests FRFCFS_Cap asks the row table about: the ready ones of a queue
    of two or more. -/
def Queries (view : View) (type : SchedulerType) (q : List Request) (req : Request) : Prop :=
  type = .frfcfsCap ∧ 2 ≤ q.length ∧ req ∈ q ∧ view.isReady req = true

instance (view : View) (type : SchedulerType) (q : List Request) (req : Request) :
    Decidable (Queries view type q req) :=
  inferInstanceAs (Decidable (_ ∧ _ ∧ _ ∧ _))

theorem readyWithinCap_table {req : Request}
    (h : view.isReady req = true → table.lookup (req.addrVec.take spec.row) ≠ none) :
    (readyWithinCap spec view req table).2 = table := by
  unfold readyWithinCap
  split
  · next hready => exact (RowTable.getHits_table_iff spec req.addrVec table).mpr (h hready)
  · rfl

theorem best_cap_table {rest : List (Nat × Request)} {head : Nat × Request}
    (h : ∀ itr ∈ head :: rest, view.isReady itr.2 = true →
      table.lookup (itr.2.addrVec.take spec.row) ≠ none) :
    (best spec view .frfcfsCap head rest table).2 = table := by
  induction rest generalizing head with
  | nil => rfl
  | cons itr rest ih =>
    have hhead := h head mem_cons_self
    have hitr := h itr (mem_cons_of_mem _ mem_cons_self)
    have hcompare : (compare spec view .frfcfsCap head.2 itr.2 table).2 = table := by
      simp only [compare, readyWithinCap_table hhead, readyWithinCap_table hitr]
    simp only [best, hcompare]
    generalize (compare spec view .frfcfsCap head.2 itr.2 table).1 = first
    refine ih fun itr' hitr' hready => ?_
    rcases mem_cons.mp hitr' with rfl | hrest
    · cases first
      · exact hitr hready
      · exact hhead hready
    · exact h itr' (mem_cons_of_mem _ (mem_cons_of_mem _ hrest)) hready

theorem getHead_table_of_entries {q : List Request}
    (h : ∀ req, Queries view type q req → table.lookup (req.addrVec.take spec.row) ≠ none) :
    (getHead spec view preScope type q table).2 = table := by
  by_cases hcap : type = .frfcfsCap
  · subst hcap
    show (bestOf spec view .frfcfsCap (positions q) table).2 = table
    cases hq : positions q with
    | nil => rfl
    | cons head rest =>
      have hlen : q.length = rest.length + 1 := by
        have hpositions := congrArg List.length hq
        simpa [positions] using hpositions
      cases rest with
      | nil => rfl
      | cons itr rest =>
        show (best spec view .frfcfsCap head (itr :: rest) table).2 = table
        refine best_cap_table fun itr' hitr' hready => h itr'.2 ⟨rfl, ?_, ?_, hready⟩
        · rw [hlen]
          simp
        · rw [← hq] at hitr'
          exact mem_of_getElem? (mem_positions.mp hitr')
  · exact getHead_table hcap rfl

end Scheduler

/-! ## The row table of a vault -/

open HMC

namespace Controller

variable {cfg : ControllerConfig} {vault junk : Int} {c c' : Controller} {s : BankState}
  {input : Input}

def OpenGroup (vault : Int) (t : Tree) (g : AddrVec) : Prop :=
  ∃ p bank, g = rowgroup vault p ∧ bankAt t p = some bank ∧ bank.val.state = .opened

theorem bankOf_rowgroup (vault : Int) (p : BankId) : bankOf (rowgroup vault p) = p := by
  simp [bankOf, rowgroup, Level.bankGroup, Level.bank]

instance (vault : Int) (t : Tree) (g : AddrVec) : Decidable (OpenGroup vault t g) :=
  decidable_of_iff (g = rowgroup vault (bankOf g) ∧
      (bankAt t (bankOf g)).any (fun bank => decide (bank.val.state = .opened)) = true) (by
    simp only [Option.any_eq_true, decide_eq_true_eq]
    constructor
    · rintro ⟨hg, bank, hbank, hstate⟩
      exact ⟨bankOf g, bank, hg, hbank, hstate⟩
    · rintro ⟨p, bank, rfl, hbank, hstate⟩
      rw [bankOf_rowgroup]
      exact ⟨rfl, bank, hbank, hstate⟩)

/-- The accesses to the row of an address since it was opened, 0 if it is not
    open. -/
def rowHits (c : Controller) (v : AddrVec) : Int :=
  if (bankAt c.channel (bankOf v)).any
      (fun bank => decide (bank.val.rowState (rowOf v) = some .opened)) then
    RowBuffer.accessesSince (c.cmdTrace.filterMap fun i => toCmd i.cmd i.addrVec) (bankOf v)
  else 0

/-- Tree and row table show the state `s` of the banks, with the counts of the commands. -/
structure RowsShown (vault : Int) (s : BankState) (c : Controller) : Prop where
  tree : Shows c.channel s
  table : TableShows vault c.rowtable s
  accesses : ∀ p e, s p = some e → e.2 =
    RowBuffer.accessesSince (c.cmdTrace.filterMap fun i => toCmd i.cmd i.addrVec) p

theorem BankInv.rowsShown (h : BankInv cfg vault c) : RowsShown vault c.banks c :=
  ⟨h.tree, h.table, fun _ _ hp => RowBuffer.run_accesses hp⟩

theorem RowsShown.getHits_table (h : RowsShown vault s c) (hmc : HMC) (v : AddrVec) :
    (c.rowtable.getHits hmc.spec v).2 = c.rowtable ↔ OpenGroup vault c.channel (v.take 3) := by
  rw [RowTable.getHits_table_iff, Option.ne_none_iff_exists']
  exact h.table.lookup_iff h.tree (v.take 3)

theorem RowsShown.getHits_hits (h : RowsShown vault s c) {hmc : HMC} {v : AddrVec}
    (hrange : InRange hmc vault v) : (c.rowtable.getHits hmc.spec v).1 = c.rowHits v := by
  have hrow : v.data 0 hmc.spec.row = rowOf v :=
    data_eq_getD (i := Level.row) (by rw [hrange.length]; decide) 0
  have hgroup : v.take hmc.spec.row = rowgroup vault (bankOf v) := hrange.namesBank.take_eq
  have hlookup := h.table.lookup (bankOf v)
  rw [← hgroup] at hlookup
  cases hs : s (bankOf v) with
  | none =>
    rw [hs, Option.map_none, Option.map_eq_none_iff] at hlookup
    have hclosed : (bankAt c.channel (bankOf v)).any
        (fun bank => decide (bank.val.rowState (rowOf v) = some .opened)) = false := by
      cases hbank : bankAt c.channel (bankOf v) with
      | none => rfl
      | some bank => simp [(h.tree.bank _ bank hbank).opened_row_iff, hs]
    simp only [RowTable.getHits, hlookup, rowHits, hclosed, Bool.false_eq_true, if_false]
  | some e =>
    obtain ⟨row, n⟩ := e
    obtain ⟨bank, hbank⟩ := h.tree.exists_bank (bankOf v) (by simp [hs])
    rw [hs, Option.map_some, Option.map_eq_some_iff] at hlookup
    obtain ⟨e, he, heq⟩ := hlookup
    obtain ⟨herow, hhits⟩ : e.row = row ∧ e.hits = n := Prod.ext_iff.mp heq
    have hopen := (h.tree.bank _ bank hbank).opened_row_iff (r := rowOf v)
    rw [hs] at hopen
    have hcount := h.accesses _ _ hs
    simp only [RowTable.getHits, rowHits, he, hrow, hbank, Option.any_some, decide_eq_true_eq,
      hopen, Option.map_some, Option.some.injEq, herow, hhits, ite_not, ← hcount]

/-! ## Without DRAM latency -/

theorem RowsShown.frame (h : RowsShown vault (fun _ => none) c)
    (hrel : NodeTree.Rel Node.SameState c.channel c'.channel) (htable : c'.rowtable = c.rowtable) :
    RowsShown vault (fun _ => none) c' :=
  ⟨h.tree.of_rel hrel, by rw [htable]; exact h.table, fun _ _ hp => nomatch hp⟩

theorem RowsShown.quiet (h : RowsShown vault (fun _ => none) c) (hquiet : Quiet c c') :
    RowsShown vault (fun _ => none) c' :=
  h.frame (hquiet.channel.mono fun _ _ hs => hs.sameState) hquiet.table

theorem issueCmd_noLatency (hlat : cfg.noDramLatency = true) (c : Controller) (cmd : Command)
    (v : AddrVec) : Ends (c.issueCmd cfg junk cmd v)
      (fun c' => NodeTree.Rel Node.SameState c.channel c'.channel ∧ c'.rowtable = c.rowtable)
      (fun e => e.isRowTable = false) := by
  refine Ends.ite (fun _ => ?_) (fun _ => rfl)
  unfold updateDram
  rw [if_pos hlat]
  refine Ends.bind (Q := fun c' => NodeTree.Rel Node.SameState c.channel c'.channel ∧
    c'.rowtable = c.rowtable) ?_ (fun c' h' => Ends.pure h')
  exact Ends.ite (fun _ => ⟨DRAM.updateTiming_rel .., rfl⟩) (fun _ => rfl)

theorem noLatency_rule (hlat : cfg.noDramLatency = true) (vault junk : Int) :
    IssueRule cfg junk (RowsShown vault fun _ => none) (RowsShown vault fun _ => none)
      (fun e => e.isRowTable = false) where
  idle _ h := h
  first c type i req h hi _ := by
    refine (firstCommand_ends cfg c junk hi).imp ?_ fun _ he => isRowTable_of_isServing he
    rintro _ ⟨channel, hrel, rfl⟩
    exact h.quiet (.started hrel type _)
  issue _ _ _ h _ := (issueCmd_noLatency hlat _ _ _).weaken fun _ h' => h.frame h'.1 h'.2
  victim _ _ _ h _ _ _ := (issueCmd_noLatency hlat _ _ _).weaken fun _ h' => h.frame h'.1 h'.2
  finish c type i req h _ _ _ := by
    refine (finishBurst_ends cfg c junk type i req).imp ?_ ?_
    · rintro _ ⟨req₁, c₁, hcounted, rfl⟩
      exact h.quiet (hcounted.quiet.trans (.leaveQueue c₁ type i req₁))
    · rintro e (he | ⟨rfl, -⟩ | rfl)
      · exact isRowTable_of_isServing he
      · rfl
      · rfl

section

variable (h : RowsShown vault (fun _ => none) c)
include h

theorem tick_noLatency (hlat : cfg.noDramLatency = true)
    (hasked : ∀ out, c.prepare cfg junk = .ok out → out.2.Undisturbed cfg junk) :
    Ends (c.tick cfg junk) (fun out => RowsShown vault (fun _ => none) out.2)
      (fun e => e.isRowTable = false) := by
  refine tick_ends (Q := fun _ => RowsShown vault fun _ => none)
    (prepare_frame cfg c junk).remember ?_
  rintro out ⟨hprepare, hrel, htable, -⟩
  refine (noLatency_rule hlat vault junk).schedule fun rowtable hsame _ => ?_
  rw [hsame (hasked _ hprepare)]
  exact h.frame (hrel.mono fun _ _ hs => hs.sameState) htable

theorem receive_noLatency (packet : Packet) :
    Ends (c.receive cfg packet) (fun out => RowsShown vault (fun _ => none) out.2.2)
      (fun e => e.isRowTable = false) := by
  have hrefl := NodeTree.Rel.refl Node.SameState.refl c.channel
  refine (receive_ends cfg c packet).imp ?_ ?_
  · rintro out ⟨-, -, ⟨-, henq⟩ | ⟨-, -, hsame⟩⟩
    · obtain ⟨-, hnew | ⟨-, -, hnew⟩⟩ := enqueue_cases henq
      · have hbuffered : RowsShown vault (fun _ => none) (c.buffered out.2.1) := h.frame hrefl rfl
        rw [hnew]
        exact hbuffered.quiet (.setQueue ..)
      · rw [hnew]
        exact h.frame hrefl rfl
    · rw [hsame]
      exact h.frame hrefl rfl
  · rintro e rfl
    rfl

theorem apply_noLatency (hlat : cfg.noDramLatency = true) (hasks : c.AsksQuietly cfg input) :
    Ends (c.apply cfg input) (RowsShown vault fun _ => none) (fun e => e.isRowTable = false) := by
  cases input with
  | receive packet => exact Ends.bind (receive_noLatency h packet) fun out hout => hout
  | tick junk => exact Ends.bind (tick_noLatency h hlat hasks) fun out hout => hout
  | takeResponse => exact h.frame (NodeTree.Rel.refl Node.SameState.refl _) rfl

end

/-! ## Runs that ask about open banks -/

def AsksOpen (cfg : ControllerConfig) (vault : Int) (c : Controller) : Input → Prop
  | .tick junk => Ends (c.prepare cfg junk)
      (fun out => ∀ req ∈ out.2.getQueue out.2.selectQueue,
        Scheduler.Queries (out.2.view cfg junk) cfg.scheduler (out.2.getQueue out.2.selectQueue)
          req → OpenGroup vault out.2.channel (req.addrVec.take 3))
      (fun _ => True)
  | .receive _ | .takeResponse => True

instance (cfg : ControllerConfig) (vault : Int) (c : Controller) :
    DecidablePred (c.AsksOpen cfg vault)
  | .tick junk => inferInstanceAs (Decidable (Ends (c.prepare cfg junk) _ _))
  | .receive _ | .takeResponse => inferInstanceAs (Decidable True)

theorem RowsShown.undisturbed (h : RowsShown vault s c) (hopen : ∀ req ∈ c.getQueue c.selectQueue,
      Scheduler.Queries (c.view cfg junk) cfg.scheduler (c.getQueue c.selectQueue) req →
        OpenGroup vault c.channel (req.addrVec.take 3)) : c.Undisturbed cfg junk := by
  refine Scheduler.getHead_table_of_entries fun req hreq => ?_
  obtain ⟨e, he⟩ := (h.table.lookup_iff h.tree _).mpr (hopen req hreq.2.2.1 hreq)
  have hlookup : c.rowtable.lookup (req.addrVec.take cfg.hmc.spec.row) = some e := he
  rw [hlookup]
  exact Option.some_ne_none e

/-- With DRAM latency, the vault keeps its protocol; without, it opens nothing. -/
def RowsInv (cfg : ControllerConfig) (vault : Int) (c : Controller) : Prop :=
  if cfg.noDramLatency then RowsShown vault (fun _ => none) c else ProtocolInv cfg vault c

theorem RowsInv.new (cfg : ControllerConfig) (vault : Int) :
    RowsInv cfg vault (Controller.new cfg vault) := by
  have h := ProtocolInv.new cfg vault
  unfold RowsInv
  split
  · exact h.banks.rowsShown
  · exact h

section

variable (h : RowsInv cfg vault c)
include h

theorem RowsInv.rowsShown : ∃ s, RowsShown vault s c := by
  unfold RowsInv at h
  split at h
  · exact ⟨_, h⟩
  · exact ⟨_, h.banks.rowsShown⟩

theorem AsksOpen.asksQuietly (hasks : c.AsksOpen cfg vault input) : c.AsksQuietly cfg input := by
  cases input with
  | receive packet => trivial
  | takeResponse => trivial
  | tick junk =>
    intro out hprepare
    obtain ⟨hrel, htable, htrace⟩ := (prepare_frame cfg c junk).result hprepare
    obtain ⟨s, hs⟩ := h.rowsShown
    have hout : RowsShown vault s out.2 :=
      ⟨hs.tree.of_rel (hrel.mono fun _ _ hn => hn.sameState), by rw [htable]; exact hs.table,
        by rw [htrace]; exact hs.accesses⟩
    exact hout.undisturbed (hasks.result hprepare)

theorem RowsInv.apply (hok : input.Ok cfg vault) (hasks : c.AsksOpen cfg vault input) :
    Ends (c.apply cfg input) (RowsInv cfg vault) (fun e => e.isRowTable = false) := by
  have hquiet := AsksOpen.asksQuietly h hasks
  by_cases hlat : cfg.noDramLatency = true
  · have hinv : RowsInv cfg vault = RowsShown vault fun _ => none := funext fun _ => if_pos hlat
    rw [hinv] at h ⊢
    exact apply_noLatency h hlat hquiet
  · have hinv : RowsInv cfg vault = ProtocolInv cfg vault := funext fun _ => if_neg hlat
    rw [hinv] at h ⊢
    exact apply_protocol h (Bool.eq_false_of_not_eq_true hlat) hok hquiet

end

/-- `get_hits` leaves a table alone if and only if the group has an entry.  So in
    every run that asks about open banks only, a query returns the accesses to the
    row since it was opened and changes the table only for a closed bank; and the
    assertions of the row table hold. -/
theorem run_getHits {inputs : List Input} (hok : ∀ input ∈ inputs, input.Ok cfg vault)
    (hopen : Along (apply cfg) (AsksOpen cfg vault) inputs (Controller.new cfg vault)) :
    (∀ {C S : Type} (spec : Spec C S) (v : AddrVec) (table : RowTable),
      (table.getHits spec v).2 = table ↔ table.lookup (v.take spec.row) ≠ none) ∧
    (∀ c, run cfg vault inputs = .ok c → (∀ v, (c.rowtable.getHits cfg.hmc.spec v).2 = c.rowtable ↔
        OpenGroup vault c.channel (v.take 3)) ∧
      ∀ v, InRange cfg.hmc vault v → (c.rowtable.getHits cfg.hmc.spec v).1 = c.rowHits v) ∧
    ∀ e, run cfg vault inputs = .error e → e ≠ .rowMatch ∧ e ≠ .rowEqual ∧ e ≠ .rowRemoved := by
  have hrun : Ends (run cfg vault inputs) (RowsInv cfg vault) (fun e => e.isRowTable = false) :=
    hopen.foldlM (RowsInv.new cfg vault)
      fun _ input hinput h hasks => h.apply (hok input hinput) hasks
  refine ⟨fun spec v table => RowTable.getHits_table_iff spec v table, fun c hc => ?_,
    fun e he => ?_⟩
  · obtain ⟨s, hs⟩ := (hrun.result hc).rowsShown
    exact ⟨hs.getHits_table cfg.hmc, fun v hrange => hs.getHits_hits hrange⟩
  · have habort := hrun.abort he
    refine ⟨?_, ?_, ?_⟩
    all_goals
      rintro rfl
      cases habort

def capVault : ControllerConfig := { gb4Vault .opened with scheduler := .frfcfsCap }

def readsOfOpenRow (n : Nat) : List Input :=
  readOfRow 0 3 :: .tick 0 :: readOfRow 1 3 :: replicate n (.tick 0)

theorem readsOfOpenRow_ok (n : Nat) : ∀ input ∈ readsOfOpenRow n, input.Ok capVault 0 := by
  have hread : ∀ reqid, (readOfRow reqid 3).Ok (gb4Vault .opened) 0 := fun reqid =>
    readOfRow_ok reqid (by decide)
  intro input hinput
  simp only [readsOfOpenRow, mem_cons] at hinput
  rcases hinput with rfl | rfl | rfl | hinput
  · exact hread 0
  · trivial
  · exact hread 1
  · rw [eq_of_mem_replicate hinput]
    trivial

/-- The two reads are compared when their row is open. -/
theorem run_getHits_openRow : ∃ c, run capVault 0 (readsOfOpenRow 24) = .ok c ∧
      c.cmdTrace.map (fun i => (i.clk, i.cmd)) = [(24, .rd), (18, .rd), (1, .act)] ∧
      (c.rowtable.getHits capVault.hmc.spec [0, 1, 1, 3, 2]).1 = 2 := by
  have htrace : (run capVault 0 (readsOfOpenRow 24)).toOption.map
      (fun c => (c.cmdTrace.map (fun i => (i.clk, i.cmd)), c.rowHits [0, 1, 1, 3, 2])) =
        some ([(24, .rd), (18, .rd), (1, .act)], 2) := by decide +kernel
  have hopen : Along (apply capVault) (AsksOpen capVault 0) (readsOfOpenRow 24)
      (Controller.new capVault 0) := by decide +kernel
  have hrange : InRange capVault.hmc 0 [0, 1, 1, 3, 2] :=
    (readsOfOpenRow_ok 24 (readOfRow 0 3) mem_cons_self).2
  obtain ⟨c, hrun, heq⟩ := exists_ok_of_map htrace
  obtain ⟨hcmds, hhits⟩ := Prod.ext_iff.mp heq
  refine ⟨c, hrun, hcmds, ?_⟩
  rw [((run_getHits (readsOfOpenRow_ok 24) hopen).2.1 c hrun).2 _ hrange]
  exact hhits

/-- Two reads of a closed bank are compared: the query leaves an entry for row 0,
    which `ACT` does not replace, and the first access does not find its row. -/
theorem cap_rowEqual :
    (RowTable.getHits capVault.hmc.spec [0, 1, 1, 3, 2] []).2 = [([0, 1, 1], ⟨0, 0, 0⟩)] ∧
      run capVault 0 (rowConflict 18) = .error .rowEqual :=
  ⟨by decide +kernel, error_of_ends (by decide +kernel)⟩

end Controller

end Ramulator
