/-
  Ramulator.Hmc.Protocol

  The command protocol of a vault and the row table.

  Three parties describe the banks of a vault: the DRAM tree, the row table and
  the list of commands issued so far.  The last one, read as a run of the
  row-buffer machine (`Controller.banks`), is the reference; `BankInv` says that
  the other two show it.  A tick keeps this because it only ever issues legal
  commands: `decode` asks the tree, which shows the state of the banks
  (`firstCmd_legal`), and a speculative precharge takes its victim from the row
  table, which shows it too.

  So the tree obeys the protocol although nothing checks it when a command is
  issued, the row table agrees with the tree, and no assertion of
  `RowTable::update` fails.
-/

import Ramulator.Hmc.Banks
import Ramulator.Hmc.ControllerSteps

namespace Ramulator

open Outcome List Function

variable {v g : AddrVec} {cmd : HMC.Command} {req' : Request} {vault : Int} {e : RowEntry}
  {p : HMC.BankId} {hmc : HMC} {i : Issued}

namespace HMC

/-! ## The row table as a row-buffer machine -/

/-- The key of a bank in the row table. -/
def rowgroup (vault : Int) (p : BankId) : AddrVec := [vault, (p.1 : Int), (p.2 : Int)]

theorem rowgroup_inj {q : BankId} : rowgroup vault p = rowgroup vault q ↔ p = q := by
  simp only [rowgroup, List.cons.injEq, and_true, true_and, Int.natCast_inj]
  exact Prod.ext_iff.symm

structure TableShows (vault : Int) (table : RowTable) (s : BankState) : Prop where
  lookup : ∀ p, (table.lookup (rowgroup vault p)).map (fun e => (e.row, e.hits)) =
    (s p).map (fun e => (e.1, (e.2 : Int)))
  key : ∀ g e, (g, e) ∈ table → ∃ p, g = rowgroup vault p

theorem NamesBank.take_eq (h : NamesBank hmc vault v) : v.take 3 = rowgroup vault (bankOf v) := by
  obtain ⟨hlen, hvault, ⟨hbg, -⟩, ⟨hbank, -⟩⟩ := h
  match v, hlen with
  | x :: y :: z :: rest, _ =>
    simp only [getD_cons_zero, getD_cons_succ] at hvault hbg hbank
    simp only [rowgroup, bankOf, getD_cons_zero, getD_cons_succ, take_succ_cons,
      take_zero, Int.toNat_of_nonneg hbg, Int.toNat_of_nonneg hbank, hvault]

section Table

variable {vault : Int} {table : RowTable} {s : BankState}

section

variable (h : TableShows vault table s)
include h

theorem TableShows.lookup_eq_none_iff : table.lookup (rowgroup vault p) = none ↔ s p = none := by
  have hp := h.lookup p
  cases hl : table.lookup (rowgroup vault p) <;> cases hs : s p <;> simp_all

theorem TableShows.insert (hp : s p = none) (row clk : Int) :
    TableShows vault (table.insert (rowgroup vault p) { row, hits := 0, timestamp := clk })
      (update s p (some (row, 0))) := by
  have hnone := h.lookup_eq_none_iff.mpr hp
  refine ⟨?_, ?_⟩
  · intro q
    simp only [RowTable.lookup_insert hnone, rowgroup_inj]
    by_cases hq : q = p
    · subst hq
      rw [if_pos rfl, update_self]
      rfl
    · rw [if_neg hq, update_of_ne hq]
      exact h.lookup q
  · intro g e hmem
    obtain ⟨e', he'⟩ := RowTable.exists_lookup_of_mem hmem
    rw [RowTable.lookup_insert hnone] at he'
    by_cases hg : g = rowgroup vault p
    · exact ⟨p, hg⟩
    · rw [if_neg hg] at he'
      exact h.key g e' (RowTable.mem_of_lookup he')

theorem TableShows.modify (p : BankId) (clk : Int) : TableShows vault
      (table.modify (rowgroup vault p) (fun e => { e with hits := e.hits + 1, timestamp := clk }))
      (update s p ((s p).map fun e => (e.1, e.2 + 1))) := by
  refine ⟨?_, ?_⟩
  · intro q
    simp only [RowTable.lookup_modify, rowgroup_inj]
    by_cases hq : q = p
    · subst hq
      have hlookup := h.lookup q
      rw [if_pos rfl, update_self]
      cases hl : table.lookup (rowgroup vault q) <;> cases hs : s q <;> simp_all
    · rw [if_neg hq, update_of_ne hq]
      exact h.lookup q
  · intro g e hmem
    obtain ⟨e', he'⟩ := RowTable.exists_lookup_of_mem hmem
    rw [RowTable.lookup_modify] at he'
    by_cases hg : g = rowgroup vault p
    · exact ⟨p, hg⟩
    · rw [if_neg hg] at he'
      exact h.key g e' (RowTable.mem_of_lookup he')

/-- Removing the entries whose key is not in `P` closes their banks. -/
theorem TableShows.filter (P : AddrVec → Bool) {s' : BankState}
    (hs' : ∀ p, s' p = if P (rowgroup vault p) then s p else none) :
    TableShows vault (table.filter (fun kv => P kv.1)) s' := by
  refine ⟨?_, ?_⟩
  · intro q
    rw [RowTable.lookup_filter, hs']
    by_cases hP : P (rowgroup vault q) = true
    · rw [if_pos hP, if_pos hP]
      exact h.lookup q
    · rw [if_neg hP, if_neg hP]
      rfl
  · intro g e hmem
    exact h.key g e (mem_of_mem_filter hmem)

end

theorem close_ok {scope : Nat} (hmem : (g, e) ∈ table)
    (hg : g.take (scope + 1) = v.take (scope + 1)) : table.close v scope = .ok (table.filter
      fun kv => decide (kv.1.take (scope + 1) ≠ v.take (scope + 1))) := by
  refine if_pos ?_
  exact length_filter_lt_length_iff_exists.mpr ⟨(g, e), hmem, by simp [hg]⟩

/-- On the row table, a legal command is a step of the row-buffer machine, and
    no assertion fails. -/
theorem TableShows.update {junk clk : Int} {c : RowBuffer.Cmd BankId Int}
    (h : TableShows vault table s) (haddr : Addresses hmc vault cmd v) (hc : toCmd cmd v = some c)
    (hlegal : RowBuffer.Legal s c) : ∃ table', table.update hmc.spec cmd v clk junk = .ok table' ∧
      TableShows vault table' (RowBuffer.step s c) := by
  cases cmd <;> simp only [toCmd, Option.some.injEq, reduceCtorEq] at hc
  case act =>
    subst hc
    have hrange : InRange hmc vault v := haddr
    have hgroup := hrange.namesBank.take_eq
    have hrow : v.data junk Level.row = rowOf v :=
      data_eq_getD (by rw [hrange.length]; decide) junk
    refine ⟨_, ?_, h.insert hlegal (rowOf v) clk⟩
    show Except.ok (table.insert (v.take 3)
      { row := v.data junk Level.row, hits := 0, timestamp := clk }) = _
    rw [hgroup, hrow]
  case pre =>
    subst hc
    have hnames : NamesBank hmc vault v := haddr
    have hgroup := hnames.take_eq
    obtain ⟨e, he⟩ : ∃ e, table.lookup (rowgroup vault (bankOf v)) = some e := by
      cases hl : table.lookup (rowgroup vault (bankOf v)) with
      | none => exact absurd (h.lookup_eq_none_iff.mp hl) hlegal
      | some e => exact ⟨e, rfl⟩
    refine ⟨_, close_ok (RowTable.mem_of_lookup he) (by exact hgroup.symm), ?_⟩
    refine h.filter (fun g => decide (g.take 3 ≠ v.take 3)) ?_
    intro p
    have htake : (rowgroup vault p).take 3 = rowgroup vault p := rfl
    simp only [RowBuffer.step, htake, hgroup, ne_eq, rowgroup_inj, decide_eq_true_eq]
    by_cases hp : p = bankOf v
    · subst hp
      simp
    · rw [update_of_ne hp, if_pos hp]
  case prea =>
    subst hc
    have hvault : v.take 1 = [vault] := haddr
    obtain ⟨p, hp⟩ := hlegal
    obtain ⟨e, he⟩ : ∃ e, table.lookup (rowgroup vault p) = some e := by
      cases hl : table.lookup (rowgroup vault p) with
      | none => exact absurd (h.lookup_eq_none_iff.mp hl) hp
      | some e => exact ⟨e, rfl⟩
    refine ⟨_, close_ok (RowTable.mem_of_lookup he) (by exact hvault.symm), ?_⟩
    refine h.filter (fun g => decide (g.take 1 ≠ v.take 1)) ?_
    intro q
    have htake : (rowgroup vault q).take 1 = [vault] := rfl
    simp [RowBuffer.step, htake, hvault]
  case ref =>
    subst hc
    exact ⟨table, rfl, h⟩
  all_goals
    subst hc
    have hrange : InRange hmc vault v := haddr
    have hgroup := hrange.namesBank.take_eq
    have hrow : v.data junk Level.row = rowOf v :=
      data_eq_getD (by rw [hrange.length]; decide) junk
    obtain ⟨n, hn⟩ := hlegal
    have hlookup := h.lookup (bankOf v)
    rw [hn, Option.map_some, Option.map_eq_some_iff] at hlookup
    obtain ⟨e, he, heq⟩ := hlookup
    have herow : e.row = rowOf v := congrArg Prod.fst heq
    refine ⟨_, ?_, h.modify (bankOf v) clk⟩
    show table.access (v.take 3) (v.data junk Level.row) clk = _
    rw [hgroup, hrow]
    simp only [RowTable.access, he, herow, if_true]

end Table

end HMC

open HMC

namespace Controller

/-! ## The invariant -/

def banks (c : Controller) : BankState :=
  RowBuffer.run (c.cmdTrace.filterMap fun i => toCmd i.cmd i.addrVec)

structure BankInv (cfg : ControllerConfig) (vault : Int) (c : Controller) : Prop where
  shape : DRAM.WellShaped cfg.hmc.spec Level.vault vault c.channel
  tree : Shows c.channel c.banks
  table : TableShows vault c.rowtable c.banks

/-- The part of `BankInv` that does not need the row table. -/
structure TreeInv (cfg : ControllerConfig) (vault : Int) (c : Controller) : Prop where
  shape : DRAM.WellShaped cfg.hmc.spec Level.vault vault c.channel
  tree : Shows c.channel c.banks

theorem BankInv.treeInv {cfg : ControllerConfig} {c : Controller} (h : BankInv cfg vault c) :
    TreeInv cfg vault c :=
  ⟨h.shape, h.tree⟩

/-- The requests of each queue: reads and writes with addresses in range, and
    refreshes of the vault. -/
def Admitted (hmc : HMC) (vault : Int) (type : RequestType) (req : Request) : Prop :=
  match type with
  | .read => req.type = .read ∧ InRange hmc vault req.addrVec
  | .write => req.type = .write ∧ InRange hmc vault req.addrVec
  | _ => req.type = .refresh ∧ req.addrVec = [vault, -1, -1, -1, -1]

def QueueInv (cfg : ControllerConfig) (vault : Int) (c : Controller) : Prop :=
  ∀ type, ∀ req ∈ c.getQueue type, Admitted cfg.hmc vault type req

structure ProtocolInv (cfg : ControllerConfig) (vault : Int) (c : Controller) : Prop where
  banks : BankInv cfg vault c
  queues : QueueInv cfg vault c

variable {cfg : ControllerConfig} {vault junk : Int} {c c' : Controller} {req : Request}
  {out : Bool × Packet × Controller} {packet : Packet}

theorem TreeInv.frame (h : TreeInv cfg vault c)
    (hrel : NodeTree.Rel Node.SameButStats c.channel c'.channel)
    (htrace : c'.cmdTrace = c.cmdTrace) : TreeInv cfg vault c' := by
  have hbanks : c'.banks = c.banks := by simp only [Controller.banks, htrace]
  have hstate := hrel.mono (fun _ _ hs => hs.sameState)
  refine ⟨h.shape.of_rel (fun _ _ hs => ⟨hs.level, hs.id⟩) hstate, ?_⟩
  rw [hbanks]
  exact h.tree.of_rel hstate

theorem BankInv.frame (h : BankInv cfg vault c)
    (hrel : NodeTree.Rel Node.SameButStats c.channel c'.channel)
    (htable : c'.rowtable = c.rowtable) (htrace : c'.cmdTrace = c.cmdTrace) :
    BankInv cfg vault c' := by
  have hbanks : c'.banks = c.banks := by simp only [Controller.banks, htrace]
  have htree := h.treeInv.frame hrel htrace
  refine ⟨htree.shape, htree.tree, ?_⟩
  rw [hbanks, htable]
  exact h.table

theorem QueueInv.frame (h : QueueInv cfg vault c) (hread : c'.readq = c.readq)
    (hwrite : c'.writeq = c.writeq) (hother : c'.otherq = c.otherq) : QueueInv cfg vault c' := by
  intro type req hreq
  refine h type req ?_
  cases type <;> simpa [getQueue, hread, hwrite, hother] using hreq

variable {type : RequestType}

theorem QueueInv.setQueue (h : QueueInv cfg vault c) {q : List Request}
    (hq : ∀ req ∈ q, Admitted cfg.hmc vault type req) : QueueInv cfg vault (c.setQueue type q) := by
  intro type' req hreq
  have hkeep := h type' req
  cases type <;> cases type' <;> first | exact hq req hreq | exact hkeep hreq

/-- The progress fields of a request play no part in where it is admitted. -/
theorem Admitted.congr (h : Admitted hmc vault type req) (htype : req'.type = req.type)
    (haddr : req'.addrVec = req.addrVec) : Admitted hmc vault type req' := by
  cases type <;> simpa [Admitted, htype, haddr] using h

theorem Admitted.column (h : Admitted hmc vault type req) (hkind : type = .read ∨ type = .write) :
    (req.type = .read ∨ req.type = .write) ∧ InRange hmc vault req.addrVec := by
  rcases hkind with rfl | rfl
  · exact ⟨Or.inl h.1, h.2⟩
  · exact ⟨Or.inr h.1, h.2⟩

theorem Admitted.cases (h : Admitted hmc vault type req) :
    (req.type = .read ∨ req.type = .write) ∧ InRange hmc vault req.addrVec ∨
      req.type = .refresh ∧ req.addrVec = [vault, -1, -1, -1, -1] := by
  cases type with
  | read | write => exact Or.inl (h.column (by simp))
  | refresh | powerdown | selfrefresh | extension | instruction => exact Or.inr h

theorem QueueInv.set (h : QueueInv cfg vault c) {i : Nat}
    (hreq' : Admitted cfg.hmc vault type req') :
    QueueInv cfg vault (c.setQueue type ((c.getQueue type).set i req')) := by
  refine h.setQueue ?_
  intro r hr
  rcases mem_or_eq_of_mem_set hr with hr | rfl
  · exact h type r hr
  · exact hreq'

theorem QueueInv.eraseIdx (h : QueueInv cfg vault c) (type : RequestType) (i : Nat) :
    QueueInv cfg vault (c.setQueue type ((c.getQueue type).eraseIdx i)) :=
  h.setQueue fun r hr => h type r (mem_of_mem_eraseIdx hr)

theorem ProtocolInv.new (cfg : ControllerConfig) (vault : Int) :
    ProtocolInv cfg vault (Controller.new cfg vault) := by
  refine ⟨⟨DRAM.new_wellShaped _ _ _, Shows.new cfg.hmc vault, ?_⟩, ?_⟩
  · exact ⟨fun p => rfl, fun g e h => by cases h⟩
  · intro type req hreq
    cases type <;> cases hreq

/-! ## Requests in -/

theorem QueueInv.enqueue (h : QueueInv cfg vault c)
    (hreq : Admitted cfg.hmc vault req.type { req with arrive := c.clk })
    (henq : c.enqueue cfg req = some c') : QueueInv cfg vault c' := by
  obtain ⟨-, rfl | ⟨-, -, rfl⟩⟩ := enqueue_cases henq
  · refine h.setQueue ?_
    exact forall_mem_concat (h req.type) hreq
  · exact h.frame rfl rfl rfl

theorem admitted_withBurst (htype : packet.req.type = .read ∨ packet.req.type = .write)
    (hrange : InRange cfg.hmc vault packet.req.addrVec) (clk : Int) :
    Admitted cfg.hmc vault (withBurst cfg packet.req).type
      { withBurst cfg packet.req with arrive := clk } := by
  rcases htype with ht | ht <;> simp only [withBurst, ht] <;> exact ⟨rfl, hrange⟩

theorem QueueInv.receive (h : QueueInv cfg vault c)
    (htype : packet.req.type = .read ∨ packet.req.type = .write)
    (hrange : InRange cfg.hmc vault packet.req.addrVec) (hout : c.receive cfg packet = .ok out) :
    QueueInv cfg vault out.2.2 := by
  have hbuffered : QueueInv cfg vault (c.buffered out.2.1) := h.frame rfl rfl rfl
  obtain ⟨-, -, ⟨-, henq⟩ | ⟨-, -, hsame⟩⟩ := (receive_ends cfg c packet).result hout
  · exact hbuffered.enqueue (admitted_withBurst htype hrange _) henq
  · rw [hsame]
    exact hbuffered

/-! ## Commands out -/

theorem getFirstCmd_eq (hlat : cfg.noDramLatency = false) : c.getFirstCmd cfg junk req =
    c.channel.decode cfg.hmc.spec (translate req.type) (req.addrVec.data junk) := by
  simp [getFirstCmd, hlat]

theorem translate_column {type : RequestType} (h : type = .read ∨ type = .write) :
    translate type = .rd ∨ translate type = .wr := by
  rcases h with rfl | rfl
  · exact Or.inl rfl
  · exact Or.inr rfl

/-- `cmd` to `v` is legal now.  If it is a precharge, the bank is open on another
    row than the one `v` names. -/
def LegalFor (cfg : ControllerConfig) (vault : Int) (c : Controller) (cmd : Command)
    (v : AddrVec) : Prop :=
  ∃ k, toCmd cmd v = some k ∧ RowBuffer.Legal c.banks k ∧ Addresses cfg.hmc vault cmd v ∧
    (cmd = .pre → ∃ e, c.banks (bankOf v) = some e ∧ e.1 ≠ rowOf v)

section

variable (h : TreeInv cfg vault c)
include h

theorem decode_column_legal (hcmd : cmd = .rd ∨ cmd = .wr) (hrange : InRange cfg.hmc vault v) :
    LegalFor cfg vault c (c.channel.decode cfg.hmc.spec cmd (v.data junk)) v := by
  rw [decode_column h.tree h.shape hrange hcmd]
  cases hbank : c.banks (bankOf v) with
  | none => exact ⟨_, rfl, hbank, hrange, nofun⟩
  | some e =>
    by_cases hrow : e.1 = rowOf v
    · have hlegal : RowBuffer.Legal c.banks (.access (bankOf v) (rowOf v)) :=
        ⟨e.2, by rw [hbank, ← hrow]⟩
      simp only [if_pos hrow]
      rcases hcmd with rfl | rfl
      · exact ⟨_, rfl, hlegal, hrange, nofun⟩
      · exact ⟨_, rfl, hlegal, hrange, nofun⟩
    · simp only [if_neg hrow]
      refine ⟨_, rfl, ?_, hrange.namesBank, fun _ => ⟨e, hbank, hrow⟩⟩
      show c.banks (bankOf v) ≠ none
      rw [hbank]
      simp

theorem decode_refresh_legal (hv : v = [vault, -1, -1, -1, -1]) :
    LegalFor cfg vault c (c.channel.decode cfg.hmc.spec .ref (v.data junk)) v := by
  have htake : v.take 1 = [vault] := by
    rw [hv]
    rfl
  have hopen := anyBankOpen_iff h.tree
  rw [decode_refresh h.shape]
  by_cases hany : anyBankOpen c.channel = true
  · rw [if_pos hany]
    exact ⟨_, rfl, hopen.mp hany, htake, nofun⟩
  · rw [if_neg hany]
    refine ⟨_, rfl, ?_, htake, nofun⟩
    intro p
    by_contra hp
    exact hany (hopen.mpr ⟨p, hp⟩)

theorem firstCmd_legal (hlat : cfg.noDramLatency = false) (hreq : Admitted cfg.hmc vault type req) :
    LegalFor cfg vault c (c.getFirstCmd cfg junk req) req.addrVec := by
  rw [getFirstCmd_eq hlat]
  rcases hreq.cases with ⟨htype, hrange⟩ | ⟨htype, haddr⟩
  · exact decode_column_legal h (translate_column htype) hrange
  · rw [htype]
    exact decode_refresh_legal h haddr

end

variable {k : RowBuffer.Cmd BankId Int}

theorem banks_cons (htrace : c'.cmdTrace = i :: c.cmdTrace) (hk : toCmd i.cmd i.addrVec = some k) :
    c'.banks = RowBuffer.step c.banks k := by
  simp only [Controller.banks, htrace, filterMap_cons, hk]
  rfl

theorem TreeInv.issue (h : TreeInv cfg vault c) (hk : toCmd cmd v = some k)
    (hlegal : RowBuffer.Legal c.banks k) (haddr : Addresses cfg.hmc vault cmd v)
    (hupdate : c.channel.update cfg.hmc.spec cmd (v.data junk) c.clk = .ok c'.channel)
    (htrace : c'.cmdTrace = { clk := c.clk, cmd, addrVec := v } :: c.cmdTrace) :
    TreeInv cfg vault c' := by
  refine ⟨h.shape.update hupdate, ?_⟩
  rw [banks_cons htrace hk, DRAM.update_ok hupdate]
  have hclk : NodeTree.Rel Node.SameState c.channel
      (c.channel.setVal { c.channel.val with curClk := c.clk }) :=
    NodeTree.Rel.setVal Node.SameState.refl ⟨rfl, rfl, rfl, rfl⟩
  have hshape := h.shape.of_rel (fun _ _ hs => ⟨hs.level, hs.id⟩) hclk
  exact ((h.tree.of_rel hclk).updateState hshape haddr hk hlegal).of_rel
    (DRAM.updateTiming_rel _ _ _ _ _)

/-- Issuing a legal command keeps tree and row table in step, and the row table
    does not object. -/
theorem BankInv.issueCmd (h : BankInv cfg vault c) (hlat : cfg.noDramLatency = false)
    (hk : toCmd cmd v = some k) (hlegal : RowBuffer.Legal c.banks k)
    (haddr : Addresses cfg.hmc vault cmd v) : Ends (c.issueCmd cfg junk cmd v)
      (fun c' => BankInv cfg vault c' ∧ ∃ channel rowtable, c' = { c with
        channel, rowtable
        cmdTrace := { clk := c.clk, cmd, addrVec := v } :: c.cmdTrace })
      (fun e => e.isRowTable = false) := by
  have htable : ∀ clk, ∃ table', c.rowtable.update cfg.hmc.spec cmd v clk junk = .ok table' ∧
      TableShows vault table' (RowBuffer.step c.banks k) :=
    fun clk => h.table.update haddr hk hlegal
  refine (issueCmd_ends cfg c junk cmd v).imp ?_ ?_
  · rintro c' ⟨channel, rowtable, rfl, hupdates⟩
    obtain ⟨hchannel, hrowtable⟩ := hupdates hlat
    obtain ⟨table', htable', hshows'⟩ := htable c.clk
    rw [hrowtable, Except.ok.injEq] at htable'
    subst htable'
    have htree : TreeInv cfg vault { c with
        channel, rowtable
        cmdTrace := { clk := c.clk, cmd, addrVec := v } :: c.cmdTrace } :=
      h.treeInv.issue hk hlegal haddr hchannel rfl
    refine ⟨⟨htree.shape, htree.tree, ?_⟩, channel, rowtable, rfl⟩
    rw [banks_cons rfl hk]
    exact hshows'
  · rintro e (rfl | rfl | ⟨-, herror⟩)
    · rfl
    · rfl
    · obtain ⟨table', htable', -⟩ := htable c.clk
      rw [htable'] at herror
      cases herror

/-- What a tick issues: nothing, or one legal command.  With open rows kept open
    a precharge goes to a bank that is open on another row than the one named. -/
def IssuesLegally (cfg : ControllerConfig) (vault : Int) (c c' : Controller) : Prop :=
  c'.cmdTrace = c.cmdTrace ∨ ∃ i k, c'.cmdTrace = i :: c.cmdTrace ∧
    toCmd i.cmd i.addrVec = some k ∧ RowBuffer.Legal c.banks k ∧
    Addresses cfg.hmc vault i.cmd i.addrVec ∧
    (cfg.rowpolicy = .opened → i.cmd = .pre →
      ∃ e, c.banks (bankOf i.addrVec) = some e ∧ e.1 ≠ rowOf i.addrVec)

/-- A victim of the row policy is the key of an entry, so its bank is open. -/
theorem BankInv.victim_legal (h : BankInv cfg vault c) (hmem : (g, e) ∈ c.rowtable) :
    ∃ k, toCmd .pre g = some k ∧ RowBuffer.Legal c.banks k ∧ Addresses cfg.hmc vault .pre g := by
  obtain ⟨p, rfl⟩ := h.table.key _ _ hmem
  obtain ⟨e', he'⟩ := RowTable.exists_lookup_of_mem hmem
  have hopen : c.banks p ≠ none := by
    intro hnone
    rw [h.table.lookup_eq_none_iff.mpr hnone] at he'
    cases he'
  obtain ⟨bank, hbank⟩ := h.tree.exists_bank p hopen
  obtain ⟨bg, hbg, hchild⟩ := bankAt_eq_some.mp hbank
  have hp₁ : p.1 < cfg.hmc.org.bankGroup := by
    have := NodeTree.lt_arity_of_child? hbg
    rwa [h.shape.arity_eq] at this
  have hp₂ : p.2 < cfg.hmc.org.bank := by
    have := NodeTree.lt_arity_of_child? hchild
    rwa [(h.shape.child hbg).arity_eq] at this
  have hbankOf : bankOf (rowgroup vault p) = p := by
    simp [bankOf, rowgroup, Level.bankGroup, Level.bank]
  have hnames : NamesBank cfg.hmc vault (rowgroup vault p) := by
    refine ⟨by simp [rowgroup], rfl, ⟨?_, ?_⟩, ⟨?_, ?_⟩⟩ <;>
      simp [rowgroup, Level.bankGroup, Level.bank, hp₁, hp₂]
  refine ⟨_, rfl, ?_, hnames⟩
  rw [hbankOf]
  exact hopen

/-! ## One tick -/

section

variable (h : QueueInv cfg vault c)
include h

theorem QueueInv.served {done : List Request} (hserved : Served cfg c done c') :
    QueueInv cfg vault c' := by
  cases hserved <;> exact h.frame rfl rfl rfl

theorem QueueInv.refreshed (hid : c.channel.val.id = vault) : QueueInv cfg vault { c with
      otherq := c.otherq ++ [{ refreshRequest c.channel.val.id with arrive := c.clk }] } := by
  have hothers : QueueInv cfg vault (c.setQueue .refresh
      (c.otherq ++ [{ refreshRequest c.channel.val.id with arrive := c.clk }])) := by
    refine h.setQueue ?_
    refine forall_mem_concat (h .refresh) ?_
    rw [hid]
    exact ⟨rfl, rfl⟩
  exact hothers

theorem QueueInv.tickRef (hid : c.channel.val.id = vault) (htick : c.tickRef cfg = .ok c') :
    QueueInv cfg vault c' := by
  obtain ⟨refresh, rfl | rfl⟩ := (tickRef_ends cfg c).result htick
  · exact h.frame rfl rfl rfl
  · exact (h.refreshed hid).frame rfl rfl rfl

theorem QueueInv.leaveQueue {i : Nat} (hreq : Admitted cfg.hmc vault type req) :
    QueueInv cfg vault (c.leaveQueue type i req) := by
  unfold Controller.leaveQueue
  split
  · exact h.eraseIdx type i
  · exact h.set hreq

end

/-- The end of a burst concerns no queue yet, and the request stays what it is. -/
theorem QueueInv.counted (h : QueueInv cfg vault c) (hcounted : Counted cfg c req req' c') :
    QueueInv cfg vault c' ∧ req'.type = req.type ∧ req'.addrVec = req.addrVec := by
  cases hcounted with
  | more _ _ => exact ⟨h, rfl, rfl⟩
  | read _ _ hreq =>
    subst hreq
    exact ⟨h.frame rfl rfl rfl, rfl, rfl⟩
  | write _ _ hreq _ _ =>
    subst hreq
    exact ⟨h.frame rfl rfl rfl, rfl, rfl⟩
  | other _ => exact ⟨h, rfl, rfl⟩

theorem isRowTable_of_isServing {e : Abort} (h : e.isServing = true) : e.isRowTable = false := by
  cases e <;> first | rfl | cases h

theorem ProtocolInv.quiet (h : ProtocolInv cfg vault c) (hquiet : Quiet c c')
    (hqueues : QueueInv cfg vault c') : ProtocolInv cfg vault c' :=
  ⟨h.banks.frame hquiet.channel hquiet.table hquiet.trace, hqueues⟩

theorem protocol_rule (hlat : cfg.noDramLatency = false) (vault junk : Int) (c₀ : Controller) :
    IssueRule cfg junk (fun c => ProtocolInv cfg vault c ∧ c.cmdTrace = c₀.cmdTrace)
      (fun c => ProtocolInv cfg vault c ∧ IssuesLegally cfg vault c₀ c)
      (fun e => e.isRowTable = false) where
  idle _ h := ⟨h.1, Or.inl h.2⟩
  first c type i req h hi _ := by
    refine (firstCommand_ends cfg c junk hi).imp ?_ fun _ he => isRowTable_of_isServing he
    rintro _ ⟨channel, hrel, rfl⟩
    have hquiet := Quiet.started hrel type ((c.getQueue type).set i (started req))
    have hqueues : QueueInv cfg vault (c.setQueue type ((c.getQueue type).set i (started req))) :=
      h.1.queues.set ((h.1.queues type req (mem_of_getElem? hi)).congr rfl rfl)
    exact ⟨h.1.quiet hquiet (hqueues.frame rfl rfl rfl), hquiet.trace.trans h.2⟩
  issue c type req h hmem := by
    obtain ⟨k, hk, hlegal, haddr, hpre⟩ : LegalFor cfg vault c (c.getFirstCmd cfg junk req) _ :=
      firstCmd_legal h.1.banks.treeInv hlat (h.1.queues type req hmem)
    refine (h.1.banks.issueCmd hlat hk hlegal haddr).weaken ?_
    rintro _ ⟨hbanks, channel, rowtable, rfl⟩
    refine ⟨⟨hbanks, h.1.queues.frame rfl rfl rfl⟩, Or.inr ⟨_, k, congrArg _ h.2, hk, ?_⟩⟩
    rw [banks, h.2] at hlegal hpre
    exact ⟨hlegal, haddr, fun _ => hpre⟩
  victim c g e h _ hpolicy hmem := by
    obtain ⟨k, hk, hlegal, haddr⟩ := h.1.banks.victim_legal hmem
    refine (h.1.banks.issueCmd hlat hk hlegal haddr).weaken ?_
    rintro _ ⟨hbanks, channel, rowtable, rfl⟩
    refine ⟨⟨hbanks, h.1.queues.frame rfl rfl rfl⟩, Or.inr ⟨_, k, congrArg _ h.2, hk, ?_⟩⟩
    rw [banks, h.2] at hlegal
    exact ⟨hlegal, haddr, fun hopened => absurd hopened hpolicy⟩
  finish c type i req h hi _ _ := by
    refine (finishBurst_ends cfg c junk type i req).imp ?_ ?_
    · rintro _ ⟨req₁, c₁, hcounted, rfl⟩
      obtain ⟨hqueues, htype, haddr⟩ := h.1.queues.counted hcounted
      have hadmitted := (h.1.queues type req (mem_of_getElem? hi)).congr htype haddr
      have hquiet := hcounted.quiet.trans (.leaveQueue c₁ type i req₁)
      refine ⟨h.1.quiet hquiet (hqueues.leaveQueue hadmitted), ?_⟩
      rw [IssuesLegally, hquiet.trace]
      exact h.2
    · rintro e (he | ⟨rfl, -⟩ | rfl)
      · exact isRowTable_of_isServing he
      · rfl
      · rfl

/-- The steps before the scheduler is asked issue nothing. -/
theorem prepare_frame (cfg : ControllerConfig) (c : Controller) (junk : Int) :
    Ends (c.prepare cfg junk) (fun out => NodeTree.Rel Node.SameButStats c.channel out.2.channel ∧
        out.2.rowtable = c.rowtable ∧ out.2.cmdTrace = c.cmdTrace)
      (fun e => e.isRowTable = false) := by
  refine (prepare_ends cfg c junk).imp ?_ ?_
  · rintro ⟨done, c'⟩ ⟨c₁, refresh, writeMode, hserved, hc'⟩
    have hquiet := hserved.quiet
    have hc₁ := And.intro hquiet.channel (And.intro hquiet.table hquiet.trace)
    rcases hc' with rfl | rfl <;> exact hc₁
  · rintro e ((he | ⟨rfl, -⟩ | rfl) | rfl)
    · exact isRowTable_of_isServing he
    · rfl
    · rfl
    · rfl

theorem QueueInv.prepare (h : QueueInv cfg vault c) (hid : c.channel.val.id = vault)
    {out : List Request × Controller} (hprepare : c.prepare cfg junk = .ok out) :
    QueueInv cfg vault out.2 := by
  obtain ⟨c₁, refresh, writeMode, hserved, hout⟩ := (prepare_ends cfg c junk).result hprepare
  have h₀ : QueueInv cfg vault { c with clk := c.clk + 1 } := h.frame rfl rfl rfl
  have h₁ := h₀.served hserved
  have hid₁ : c₁.channel.val.id = vault := by
    obtain ⟨hrel, -⟩ := (prepare_frame cfg c junk).result hprepare
    have hchannel : out.2.channel = c₁.channel := by rcases hout with h | h <;> rw [h]
    rw [← hchannel, hrel.val.sameState.id, hid]
  rcases hout with h | h
  · rw [h]
    exact h₁.frame rfl rfl rfl
  · rw [h]
    exact (h₁.refreshed hid₁).frame rfl rfl rfl

theorem prepare_protocol (h : ProtocolInv cfg vault c) : Ends (c.prepare cfg junk)
      (fun out => ProtocolInv cfg vault out.2 ∧ out.2.cmdTrace = c.cmdTrace)
      (fun e => e.isRowTable = false) := by
  refine (prepare_frame cfg c junk).remember.weaken ?_
  rintro out ⟨hprepare, hrel, htable, htrace⟩
  exact ⟨⟨h.banks.frame hrel htable htrace, h.queues.prepare h.banks.shape.val_id hprepare⟩, htrace⟩

/-- One tick keeps the invariant and issues at most one command, a legal one;
    the row table does not object. -/
theorem tick_protocol (h : ProtocolInv cfg vault c) (hlat : cfg.noDramLatency = false)
    (hasked : ∀ out, c.prepare cfg junk = .ok out → out.2.Undisturbed cfg junk) :
    Ends (c.tick cfg junk)
      (fun out => ProtocolInv cfg vault out.2 ∧ IssuesLegally cfg vault c out.2)
      (fun e => e.isRowTable = false) := by
  refine tick_ends (Q := fun _ c' => ProtocolInv cfg vault c' ∧ IssuesLegally cfg vault c c')
    (prepare_protocol h).remember ?_
  rintro out ⟨hprepare, h₁⟩
  refine (protocol_rule hlat vault junk c).schedule fun rowtable hsame _ => ?_
  rw [hsame (hasked _ hprepare)]
  exact h₁

/-! ## Runs -/

/-- What happens to a vault: a packet arrives, a memory cycle passes, or the
    switch takes a response. -/
inductive Input where
  | receive (packet : Packet)
  | tick (junk : Int)
  | takeResponse

def Input.Ok (cfg : ControllerConfig) (vault : Int) : Input → Prop
  | .receive packet => (packet.req.type = .read ∨ packet.req.type = .write) ∧
      InRange cfg.hmc vault packet.req.addrVec
  | .tick _ | .takeResponse => True

def apply (cfg : ControllerConfig) (c : Controller) : Input → Except Abort Controller
  | .receive packet => do
      let (_, _, c) ← c.receive cfg packet
      pure c
  | .tick junk => do
      let (_, c) ← c.tick cfg junk
      pure c
  | .takeResponse => pure { c with responsePacketsBuffer := c.responsePacketsBuffer.tail }

def run (cfg : ControllerConfig) (vault : Int) (inputs : List Input) : Except Abort Controller :=
  inputs.foldlM (apply cfg) (Controller.new cfg vault)

/-- A tick finds the row table undisturbed once it has asked the scheduler. -/
def AsksQuietly (cfg : ControllerConfig) (c : Controller) : Input → Prop
  | .tick junk => ∀ out, c.prepare cfg junk = .ok out → out.2.Undisturbed cfg junk
  | .receive _ | .takeResponse => True

theorem asksQuietly_of_ne (hcap : cfg.scheduler ≠ .frfcfsCap) (c : Controller) (input : Input) :
    c.AsksQuietly cfg input := by
  cases input with
  | tick junk => exact fun out _ => undisturbed_of_ne hcap junk out.2
  | receive _ => trivial
  | takeResponse => trivial

/-- A packet that arrives or leaves changes queues and buffers only. -/
theorem apply_frame (h : QueueInv cfg vault c) {input : Input} (hok : input.Ok cfg vault)
    (htick : ∀ junk, input ≠ .tick junk) :
    Ends (c.apply cfg input) (fun c' => QueueInv cfg vault c' ∧
        ∃ incomingPacketsBuffer responsePacketsBuffer readq writeq pending, c' = { c with
          incomingPacketsBuffer, responsePacketsBuffer, readq, writeq, pending })
      (fun e => e = .packetType) := by
  cases input with
  | tick junk => exact absurd rfl (htick junk)
  | takeResponse => exact ⟨h.frame rfl rfl rfl, _, _, _, _, _, rfl⟩
  | receive packet =>
    refine Ends.bind (receive_frame cfg c hok.1).remember ?_
    rintro out ⟨hout, _, _, _, _, hframe⟩
    exact ⟨h.receive hok.1 hok.2 hout, _, _, _, _, _, hframe⟩

theorem apply_protocol (h : ProtocolInv cfg vault c) (hlat : cfg.noDramLatency = false)
    {input : Input} (hok : input.Ok cfg vault) (hasks : c.AsksQuietly cfg input) :
    Ends (c.apply cfg input) (ProtocolInv cfg vault) (fun e => e.isRowTable = false) := by
  cases input with
  | tick junk =>
    exact Ends.bind (tick_protocol h hlat hasks) (fun out hout => hout.1)
  | receive _ | takeResponse =>
    refine (apply_frame h.queues hok (by nofun)).imp ?_ fun e he => by rw [he]; rfl
    rintro _ ⟨hqueues, _, _, _, _, _, rfl⟩
    exact h.quiet (.of_eq rfl rfl rfl rfl rfl) hqueues

theorem run_protocol (hlat : cfg.noDramLatency = false) (hsched : cfg.scheduler ≠ .frfcfsCap)
    {inputs : List Input} (hok : ∀ input ∈ inputs, input.Ok cfg vault) :
    Ends (run cfg vault inputs) (ProtocolInv cfg vault) (fun e => e.isRowTable = false) :=
  Ends.foldlM inputs (ProtocolInv.new cfg vault) (fun c input hinput h =>
      apply_protocol h hlat (hok input hinput) (asksQuietly_of_ne hsched c input))

/-! ## The command protocol -/

/-- At most one row of the bank is open, and the bank is `Opened` if and only if
    one is. -/
structure OneRow (n : Node Command HMC.State) : Prop where
  unique : ∀ r r', n.rowState r = some .opened → n.rowState r' = some .opened → r = r'
  opened_iff : n.state = .opened ↔ ∃ r, n.rowState r = some .opened

def Permitted (t : Tree) (i : Issued) : Prop :=
  match i.cmd with
  | .act => ∃ bank, bankAt t (bankOf i.addrVec) = some bank ∧ bank.val.state = .closed
  | .rd | .wr => ∃ bank, bankAt t (bankOf i.addrVec) = some bank ∧
      bank.val.rowState (rowOf i.addrVec) = some .opened
  | .pre => ∃ bank, bankAt t (bankOf i.addrVec) = some bank ∧
      ∃ r, r ≠ rowOf i.addrVec ∧ bank.val.rowState r = some .opened
  | .prea => ∃ p bank, bankAt t p = some bank ∧ bank.val.state = .opened
  | .ref => ∀ p bank, bankAt t p = some bank → bank.val.state = .closed
  | _ => False

end Controller

section BankShows

variable {n : Node Command HMC.State} {o : Option Int}

theorem HMC.BankShows.opened_row_iff (h : BankShows n o) {r : Int} :
    n.rowState r = some .opened ↔ o = some r := by
  rw [h.rowState]
  by_cases hr : o = some r <;> simp [hr]

theorem HMC.BankShows.opened_iff (h : BankShows n o) : n.state = .opened ↔ o ≠ none := by
  rw [h.state]
  cases o with
  | none => simp
  | some r => simp

theorem HMC.BankShows.oneRow (h : BankShows n o) : Controller.OneRow n := by
  refine ⟨?_, ?_⟩
  · intro r r' hr hr'
    rw [h.opened_row_iff] at hr hr'
    exact Option.some.inj (hr.symm.trans hr')
  · simp only [h.opened_iff, h.opened_row_iff]
    exact Option.ne_none_iff_exists'

theorem HMC.TableShows.lookup_iff {table : RowTable} {t : Tree} {s : BankState}
    (h : TableShows vault table s) (htree : Shows t s) (g : AddrVec) :
    (∃ e, table.lookup g = some e) ↔
      ∃ p bank, g = rowgroup vault p ∧ bankAt t p = some bank ∧ bank.val.state = .opened := by
  constructor
  · rintro ⟨e, he⟩
    obtain ⟨p, rfl⟩ := h.key _ _ (RowTable.mem_of_lookup he)
    have hopen : s p ≠ none := by
      intro hnone
      rw [h.lookup_eq_none_iff.mpr hnone] at he
      cases he
    obtain ⟨bank, hbank⟩ := htree.exists_bank p hopen
    refine ⟨p, bank, rfl, hbank, (htree.bank p bank hbank).opened_iff.mpr ?_⟩
    simpa using hopen
  · rintro ⟨p, bank, rfl, hbank, hstate⟩
    have hopen := (htree.bank p bank hbank).opened_iff.mp hstate
    cases hl : table.lookup (rowgroup vault p) with
    | none =>
      rw [h.lookup_eq_none_iff.mp hl] at hopen
      exact absurd rfl hopen
    | some e => exact ⟨e, rfl⟩

end BankShows

namespace Controller

variable {cfg : ControllerConfig} {vault : Int} {c c' : Controller}

theorem BankInv.permitted (h : BankInv cfg vault c) {k : RowBuffer.Cmd BankId Int}
    (hk : toCmd i.cmd i.addrVec = some k) (hlegal : RowBuffer.Legal c.banks k)
    (haddr : Addresses cfg.hmc vault i.cmd i.addrVec)
    (hpre : i.cmd = .pre → ∃ e, c.banks (bankOf i.addrVec) = some e ∧ e.1 ≠ rowOf i.addrVec) :
    Permitted c.channel i := by
  obtain ⟨clk, cmd, v⟩ := i
  -- a vector that names a bank comes with its node and what that shows
  have hnode : NamesBank cfg.hmc vault v → ∃ bank, bankAt c.channel (bankOf v) = some bank ∧
      BankShows bank.val ((c.banks (bankOf v)).map Prod.fst) := by
    intro hnames
    obtain ⟨bg, bank, hbg, hchild⟩ := hnames.exists_bank h.shape
    have hbank := bankAt_eq_some.mpr ⟨bg, hbg, hchild⟩
    exact ⟨bank, hbank, h.tree.bank _ _ hbank⟩
  have hcolumn : InRange cfg.hmc vault v → (∃ n, c.banks (bankOf v) = some (rowOf v, n)) →
      ∃ bank, bankAt c.channel (bankOf v) = some bank ∧
        bank.val.rowState (rowOf v) = some .opened := by
    rintro hrange ⟨n, hn⟩
    obtain ⟨bank, hbank, hshows⟩ := hnode hrange.namesBank
    rw [hn] at hshows
    exact ⟨bank, hbank, hshows.opened_row_iff.mpr rfl⟩
  cases cmd <;> simp only [toCmd, Option.some.injEq, reduceCtorEq] at hk
  case act =>
    subst hk
    have hrange : InRange cfg.hmc vault v := haddr
    have hnone : c.banks (bankOf v) = none := hlegal
    obtain ⟨bank, hbank, hshows⟩ := hnode hrange.namesBank
    rw [hnone] at hshows
    exact ⟨bank, hbank, hshows.closed_iff.mpr rfl⟩
  case pre =>
    obtain ⟨bank, hbank, hshows⟩ := hnode haddr
    obtain ⟨e, he, hne⟩ := hpre rfl
    dsimp only at he
    rw [he] at hshows
    exact ⟨bank, hbank, e.1, hne, hshows.opened_row_iff.mpr rfl⟩
  case prea =>
    subst hk
    obtain ⟨p, hp⟩ := hlegal
    obtain ⟨bank, hbank⟩ := h.tree.exists_bank p hp
    refine ⟨p, bank, hbank, (h.tree.bank p bank hbank).opened_iff.mpr ?_⟩
    simpa using hp
  case ref =>
    subst hk
    intro p bank hbank
    have hshows := h.tree.bank p bank hbank
    rw [hlegal p] at hshows
    exact hshows.closed_iff.mpr rfl
  all_goals
    subst hk
    exact hcolumn haddr hlegal

/-- A 4 GB stack with default timing. -/
def gb4Vault (rowpolicy : RowPolicyType) : ControllerConfig where
  hmc := { org := orgTable .gb4, speed := speedTable .hmc2500, maxblock := .b32, sourceLinks := 4,
           payloadFlits := 4 }
  rowpolicy := rowpolicy

/-- A read of one bank of vault 0 arrives. -/
def readOfRow (reqid row : Int) : Input :=
  .receive (Packet.mkRequest 0 0 reqid 1 0 .rd64
    { addr := row, addrVec := [0, 1, 1, row, 2], reqid, type := .read })

/-- Reads of two rows of one bank, and `n` cycles. -/
def rowConflict (n : Nat) : List Input :=
  readOfRow 0 3 :: readOfRow 1 5 :: replicate n (.tick 0)

theorem readOfRow_ok {rowpolicy : RowPolicyType} (reqid : Int) {row : Int}
    (hrow : 0 ≤ row ∧ row < 2 ^ 16) : (readOfRow reqid row).Ok (gb4Vault rowpolicy) 0 := by
  have hgroup : (0 : Int) ≤ 1 ∧ (1 : Int) < (4 : Nat) := by decide
  have hbank : (0 : Int) ≤ 1 ∧ (1 : Int) < (2 : Nat) := by decide
  have hcolumn : (0 : Int) ≤ 2 ∧ (2 : Int) < (2 ^ 6 : Nat) := by decide
  exact ⟨Or.inl rfl, rfl, rfl, hgroup, hbank, hrow, hcolumn⟩

theorem rowConflict_ok (rowpolicy : RowPolicyType) (n : Nat) :
    ∀ input ∈ rowConflict n, input.Ok (gb4Vault rowpolicy) 0 := by
  simp only [rowConflict, forall_mem_cons]
  refine ⟨readOfRow_ok 0 (by decide), readOfRow_ok 1 (by decide), fun input hinput => ?_⟩
  rw [eq_of_mem_replicate hinput]
  trivial

/-- The command protocol of a vault: after any run, each bank is `Opened` on one
    row or has none, and the next tick issues nothing or one command that the
    banks permit. -/
theorem run_obeys_protocol (hlat : cfg.noDramLatency = false) (hpolicy : cfg.rowpolicy = .opened)
    (hsched : cfg.scheduler = .frfcfsPriorHit) {inputs : List Input}
    (hok : ∀ input ∈ inputs, input.Ok cfg vault) (hrun : run cfg vault inputs = .ok c) :
    (∀ p bank, bankAt c.channel p = some bank → OneRow bank.val) ∧
      ∀ junk done c', c.tick cfg junk = .ok (done, c') → c'.cmdTrace = c.cmdTrace ∨
          ∃ i, c'.cmdTrace = i :: c.cmdTrace ∧ Permitted c.channel i := by
  have hcap : cfg.scheduler ≠ .frfcfsCap := by
    rw [hsched]
    decide
  have h : ProtocolInv cfg vault c := (run_protocol hlat hcap hok).result hrun
  refine ⟨fun p bank hbank => (h.banks.tree.bank p bank hbank).oneRow, ?_⟩
  intro junk done c' htick
  obtain ⟨-, hsame | ⟨i, k, htrace, hk, hlegal, haddr, hpre⟩⟩ :=
    (tick_protocol h hlat fun out _ => undisturbed_of_ne hcap junk out.2).result htick
  · exact Or.inl hsame
  · exact Or.inr ⟨i, htrace, h.banks.permitted hk hlegal haddr (hpre hpolicy)⟩

/-- The two reads: the second one has to close the row of the first. -/
theorem run_obeys_protocol_rowConflict : ∃ c, run (gb4Vault .opened) 0 (rowConflict 52) = .ok c ∧
      c.cmdTrace.map (fun i => (i.clk, i.cmd)) =
        [(52, .act), (35, .pre), (24, .rd), (18, .rd), (1, .act)] ∧
      (∀ p bank, bankAt c.channel p = some bank → OneRow bank.val) ∧
      ∀ junk done c', c.tick (gb4Vault .opened) junk = .ok (done, c') → c'.cmdTrace = c.cmdTrace ∨
          ∃ i, c'.cmdTrace = i :: c.cmdTrace ∧ Permitted c.channel i := by
  have htrace : (run (gb4Vault .opened) 0 (rowConflict 52)).toOption.map
      (fun c => c.cmdTrace.map fun i => (i.clk, i.cmd)) =
        some [(52, .act), (35, .pre), (24, .rd), (18, .rd), (1, .act)] := by decide +kernel
  obtain ⟨c, hrun, htrace⟩ := exists_ok_of_map htrace
  exact ⟨c, hrun, htrace, run_obeys_protocol rfl rfl rfl (rowConflict_ok _ _) hrun⟩

theorem BankInv.entry_eq (h : BankInv cfg vault c) {bank : Tree}
    (hbank : bankAt c.channel p = some bank) (he : c.rowtable.lookup (rowgroup vault p) = some e) :
    (∀ r, bank.val.rowState r = some .opened ↔ r = e.row) ∧ e.hits = RowBuffer.accessesSince
        (c.cmdTrace.filterMap fun i => toCmd i.cmd i.addrVec) p := by
  have hlookup := h.table.lookup p
  rw [he, Option.map_some, eq_comm, Option.map_eq_some_iff] at hlookup
  obtain ⟨⟨row, n⟩, hbanks, heq⟩ := hlookup
  have hrow : row = e.row := congrArg Prod.fst heq
  have hhits : (n : Int) = e.hits := congrArg Prod.snd heq
  have hshows := h.tree.bank p bank hbank
  rw [hbanks] at hshows
  refine ⟨?_, ?_⟩
  · intro r
    rw [hshows.opened_row_iff, ← hrow]
    simp [eq_comm]
  · rw [← hhits, RowBuffer.run_accesses hbanks]

/-- The row table and the banks of the tree agree after any run, and the next
    tick passes the assertions of the row table. -/
theorem run_rowTable_agrees (hlat : cfg.noDramLatency = false)
    (hsched : cfg.scheduler = .frfcfsPriorHit) {inputs : List Input}
    (hok : ∀ input ∈ inputs, input.Ok cfg vault) (hrun : run cfg vault inputs = .ok c) :
    (∀ g, (∃ e, c.rowtable.lookup g = some e) ↔
        ∃ p bank, g = rowgroup vault p ∧ bankAt c.channel p = some bank ∧
          bank.val.state = .opened) ∧ (∀ p bank e, bankAt c.channel p = some bank →
        c.rowtable.lookup (rowgroup vault p) = some e →
          (∀ r, bank.val.rowState r = some .opened ↔ r = e.row) ∧ e.hits = RowBuffer.accessesSince
              (c.cmdTrace.filterMap fun i => toCmd i.cmd i.addrVec) p) ∧
      ∀ junk e, c.tick cfg junk = .error e → e ≠ .rowMatch ∧ e ≠ .rowEqual ∧ e ≠ .rowRemoved := by
  have hcap : cfg.scheduler ≠ .frfcfsCap := by
    rw [hsched]
    decide
  have h : ProtocolInv cfg vault c := (run_protocol hlat hcap hok).result hrun
  refine ⟨h.banks.table.lookup_iff h.banks.tree,
    fun p bank e hbank he => h.banks.entry_eq hbank he, ?_⟩
  intro junk e htick
  have he := (tick_protocol h hlat fun out _ => undisturbed_of_ne hcap junk out.2).abort htick
  refine ⟨?_, ?_, ?_⟩ <;>
  · rintro rfl
    cases he

/-- After the two reads, with a policy that closes rows of its own accord. -/
theorem run_rowTable_agrees_rowConflict : ∃ c, run (gb4Vault .timeout) 0 (rowConflict 125) = .ok c ∧
      c.cmdTrace.map (fun i => (i.clk, i.cmd)) =
        [(125, .pre), (75, .rd), (69, .rd), (52, .act), (35, .pre), (24, .rd), (18, .rd),
          (1, .act)] ∧ (∀ g, (∃ e, c.rowtable.lookup g = some e) ↔
        ∃ p bank, g = rowgroup 0 p ∧ bankAt c.channel p = some bank ∧ bank.val.state = .opened) ∧
      (∀ p bank e, bankAt c.channel p = some bank → c.rowtable.lookup (rowgroup 0 p) = some e →
          (∀ r, bank.val.rowState r = some .opened ↔ r = e.row) ∧ e.hits = RowBuffer.accessesSince
              (c.cmdTrace.filterMap fun i => toCmd i.cmd i.addrVec) p) ∧
      ∀ junk e, c.tick (gb4Vault .timeout) junk = .error e →
        e ≠ .rowMatch ∧ e ≠ .rowEqual ∧ e ≠ .rowRemoved := by
  have htrace : (run (gb4Vault .timeout) 0 (rowConflict 125)).toOption.map
      (fun c => c.cmdTrace.map fun i => (i.clk, i.cmd)) =
        some [(125, .pre), (75, .rd), (69, .rd), (52, .act), (35, .pre), (24, .rd), (18, .rd),
          (1, .act)] := by decide +kernel
  obtain ⟨c, hrun, htrace⟩ := exists_ok_of_map htrace
  exact ⟨c, hrun, htrace, run_rowTable_agrees rfl rfl (rowConflict_ok _ _) hrun⟩

end Controller

end Ramulator
