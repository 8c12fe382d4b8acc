/-
  Ramulator.RowHits

  Whether a scheduled request closes a row that another one hits.

  FRFCFS_PriorHit passes over a request whose next command it expects to be a
  precharge of a part with a row hit in the queue.  It expects that from
  `is_row_hit` and `is_row_open` and from the scope of `PRE`; the command itself
  comes from `decode`.  In HMC, DDR3, DDR4 and SALP-MASA the two agree.  In DSARP
  the bank asks for a precharge when another subarray is open, and the queries
  look at the request's own subarray, which is closed.  In TLDRAM the queries have
  no rule for a migration, so that one is neither a hit nor in the way of one.
-/

import Ramulator.Dram.Rows
import Ramulator.Generic.ChannelSteps
import Ramulator.Hmc.Protocol

namespace Ramulator

open Outcome List

/-! ## Any standard -/

section AnyStandard

variable {C S : Type}

/-- `get_head` has returned the request at `i`, and its precharge closes the row of that at `j`. -/
structure HeadCloses (spec : Spec C S) (isOpen : S → Bool) (isPrecharge : C → Bool)
    (t : DRAM C S) (junk : Int) (nextCmd : Request → C) (q : List Request)
    (head : Option (Nat × Request)) (i j : Nat) (r r' : Request) : Prop where
  head : head = some (i, r)
  precharge : isPrecharge (nextCmd r) = true
  other : q[j]? = some r'
  ne : j ≠ i
  type : r'.type = .read ∨ r'.type = .write ∨ r'.type = .extension
  closes : t.closesRow spec isOpen (nextCmd r) (r.addrVec.data junk) (r'.addrVec.data junk) = true

instance {spec : Spec C S} {isOpen : S → Bool} {isPrecharge : C → Bool} {t : DRAM C S}
    {junk : Int} {nextCmd : Request → C} {q : List Request} {head : Option (Nat × Request)}
    {i j : Nat} {r r' : Request} :
    Decidable (HeadCloses spec isOpen isPrecharge t junk nextCmd q head i j r r') :=
  decidable_of_iff (head = some (i, r) ∧ isPrecharge (nextCmd r) = true ∧ q[j]? = some r' ∧
      j ≠ i ∧ (r'.type = .read ∨ r'.type = .write ∨ r'.type = .extension) ∧
      t.closesRow spec isOpen (nextCmd r) (r.addrVec.data junk) (r'.addrVec.data junk) = true)
    ⟨fun ⟨h₁, h₂, h₃, h₄, h₅, h₆⟩ => ⟨h₁, h₂, h₃, h₄, h₅, h₆⟩,
      fun ⟨h₁, h₂, h₃, h₄, h₅, h₆⟩ => ⟨h₁, h₂, h₃, h₄, h₅, h₆⟩⟩

theorem AddrVec.take_eq_take {v v' : AddrVec} (junk : Int) {k : Nat} (hv : k < v.length)
    (hv' : k < v'.length) (h : ∀ l ≤ k, v.data junk l = v'.data junk l) :
    v.take (k + 1) = v'.take (k + 1) := by
  refine ext_getElem? fun l => ?_
  by_cases hl : l ≤ k
  · have hdata := h l hl
    rw [AddrVec.data, AddrVec.data, getD_eq_getElem?_getD, getD_eq_getElem?_getD,
      getElem?_eq_getElem (by omega), getElem?_eq_getElem (by omega), Option.getD_some,
      Option.getD_some] at hdata
    rw [getElem?_take_of_lt (by omega), getElem?_take_of_lt (by omega),
      getElem?_eq_getElem (by omega), getElem?_eq_getElem (by omega), hdata]
  · rw [getElem?_take_eq_none (by omega), getElem?_take_eq_none (by omega)]

variable {spec : Spec C S} {isOpen : S → Bool} {isPrecharge : C → Bool} {pre : C}
  {toCmd : RequestType → C} {view : View} {t : DRAM C S} {id junk : Int} {q : List Request}
  {table table' : RowTable} {i : Nat} {r r' : Request}

/-- Where the rules agree, the request FRFCFS_PriorHit returns closes the row of no other one. -/
theorem closesRow_eq_false (hshape : DRAM.WellShaped spec 0 id t) (hhit : ∀ req, view.isRowHit req =
      t.checkRowHit spec (toCmd req.type) (req.addrVec.data junk))
    (hopen : ∀ req, view.isRowOpen req =
      t.checkRowOpen spec (toCmd req.type) (req.addrVec.data junk))
    (hprecharges : PrechargeRules spec isPrecharge pre)
    (hhead : Scheduler.getHead spec view (spec.scope pre) .frfcfsPriorHit q table =
      (some (i, r), table')) (rules : RowRules spec isOpen isPrecharge (toCmd r.type))
    (habove : ∀ k n c, t.along (r.addrVec.data junk) k = some n → k < spec.row - 1 →
      n.ruleAt spec (toCmd r.type) (r.addrVec.data junk) = some c → isPrecharge c = false)
    (hnext : isPrecharge (t.decode spec (toCmd r.type) (r.addrVec.data junk)) = true)
    (hmem : r' ∈ q) (rules' : RowRules spec isOpen isPrecharge (toCmd r'.type))
    (hlen : spec.scope pre < r.addrVec.length) (hlen' : spec.scope pre < r'.addrVec.length)
    (hroot : r'.addrVec.data junk 0 = r.addrVec.data junk 0) :
    t.closesRow spec isOpen (t.decode spec (toCmd r.type) (r.addrVec.data junk))
      (r.addrVec.data junk) (r'.addrVec.data junk) = false := by
  obtain ⟨hmiss, hrow⟩ := rules.open_of_precharge hshape habove hnext
  rw [← hhit] at hmiss
  rw [← hopen] at hrow
  rw [← Bool.not_eq_true]
  intro hcloses
  -- the other request hits, and its bank or subarray is the one precharged
  have hother : view.isRowHit r' = true := by
    rw [hhit, rules'.checkRowHit_eq hshape]
    rw [DRAM.closesRow, Bool.and_eq_true] at hcloses
    exact hcloses.1
  have hscope := hprecharges.scope _ hnext
  have hagree := DRAM.rowgroup_of_closesRow hshape
    (by rw [hscope]; exact hprecharges.lambda _ hnext) (Nat.zero_le _)
    (by rw [hscope]; exact hprecharges.scope_lt) hcloses
  rw [hscope] at hagree
  have hgroup : Scheduler.rowgroup (spec.scope pre) r = Scheduler.rowgroup (spec.scope pre) r' := by
    refine AddrVec.take_eq_take junk hlen hlen' fun l hl => ?_
    cases l with
    | zero => exact hroot.symm
    | succ l => exact (hagree (l + 1) (Nat.succ_pos l) hl).symm
  have hviolates : Scheduler.violatesHit view (spec.scope pre) q r = true := by
    rw [Scheduler.violatesHit, hmiss, hrow, Bool.not_false, Bool.and_self, Bool.true_and,
      any_eq_true]
    exact ⟨r', mem_filter.mpr ⟨hmem, hother⟩, beq_iff_eq.mpr hgroup⟩
  rcases Scheduler.getHead_priorHit hhead with hhit' | hspared
  · rw [hmiss] at hhit'
    cases hhit'
  · rw [hviolates] at hspared
    cases hspared

end AnyStandard

/-! ## The channel standards -/

namespace Generic

variable {c : Command} {n : Tree} {cfg : ChannelConfig}

def Chip.isOpen : Chip → State → Bool
  | .masa _ _, s => decide (s = .opened ∨ s = .selected)
  | _, s => decide (s = .opened)

def Chip.isPrecharge : Chip → Command → Bool
  | .tldram _ _ _, c => decide (c = .pre ∨ c = .pref ∨ c = .prem)
  | _, c => decide (c = .pre)

def ownSubArrayOpen (t : Tree) (addr : Nat → Int) : Bool :=
  (t.along addr DSARP.Level.bank).all fun bank =>
    decide (bank.val.state ≠ .opened) || (bank.val.rowState (addr DSARP.Level.subArray)).isSome

/-- The request `get_head` returns from the queue of `type` closes the row of
    another one. -/
abbrev Chip.Closes (chip : Chip) (cfg : ChannelConfig) (junk : Int) (c : ChannelController)
    (type : RequestType) (i j : Nat) (r r' : Request) : Prop :=
  HeadCloses chip.device.spec chip.isOpen chip.isPrecharge c.channel junk
    (c.getFirstCmd cfg junk) (c.getQueue type) (c.getHead cfg junk type).1 i j r r'

def Chip.Foreseen (chip : Chip) (t : Tree) (junk : Int) (r r' : Request) : Prop :=
  match chip with
  | .dsarp _ _ _ => ownSubArrayOpen t (r.addrVec.data junk) = true
  | .tldram _ _ _ => r.type ≠ .extension ∧ r'.type ≠ .extension
  | _ => True

theorem rowhitRd_eq (n : Tree) (cmd : Command) (id : Int) :
    rowhitRd n cmd id = (decide (n.val.state = .opened) && (n.val.rowState id).isSome) := by
  unfold rowhitRd
  cases n.val.state <;> rfl

theorem rowopenRd_eq (n : Tree) (cmd : Command) (id : Int) :
    rowopenRd n cmd id = decide (n.val.state = .opened) := by
  unfold rowopenRd
  cases n.val.state <;> rfl

variable {cmd : Command} {id junk : Int}

theorem prereqRowRd_pre (hcmd : cmd ≠ .pre) (h : prereqRowRd n cmd id = some .pre) :
    n.val.state = .opened ∧ (n.val.rowState id).isSome = false := by
  unfold prereqRowRd at h
  cases hs : n.val.state <;> simp only [hs] at h <;> try cases h
  split at h
  · cases h
    exact absurd rfl hcmd
  · next hrow => exact ⟨rfl, Bool.eq_false_iff.mpr hrow⟩

theorem prereqSubArrayRd_pre (hcmd : cmd ≠ .pre) (h : SALP.prereqSubArrayRd n cmd id = some .pre) :
    (n.val.state = .opened ∨ n.val.state = .selected) ∧ (n.val.rowState id).isSome = false := by
  unfold SALP.prereqSubArrayRd at h
  cases hs : n.val.state <;> simp only [hs] at h <;> try cases h
  · split at h
    · cases h
    · next hrow => exact ⟨Or.inl rfl, Bool.eq_false_iff.mpr hrow⟩
  · split at h
    · cases h
      exact absurd rfl hcmd
    · next hrow => exact ⟨Or.inr rfl, Bool.eq_false_iff.mpr hrow⟩

theorem prereqBankRd_precharge {segmentRatio : Int}
    (hcmd : ¬ (cmd = .pre ∨ cmd = .pref ∨ cmd = .prem))
    (h : TLDRAM.prereqBankRd segmentRatio n cmd id = some c)
    (hc : c = .pre ∨ c = .pref ∨ c = .prem) :
    n.val.state = .opened ∧ (n.val.rowState id).isSome = false := by
  unfold TLDRAM.prereqBankRd at h
  cases hs : n.val.state <;> simp only [hs] at h <;> try cases h
  · split at h
    · cases h
      exact absurd hc hcmd
    · next hrow => exact ⟨rfl, Bool.eq_false_iff.mpr hrow⟩
  · split at h
    · cases h
      simp at hc
    · cases h
      simp at hc

/-- The rule of a rank asks for no precharge on behalf of a read or a write. -/
theorem prereqRankRd_ne (h : prereqRankRd n cmd id = some c) : c = .pdx ∨ c = .srx := by
  unfold prereqRankRd at h
  cases hs : n.val.state <;> simp only [hs] at h <;> cases h <;> simp

theorem rowRules_rd {spec : Spec Command State} (hcmd : cmd ≠ .pre) (hpos : 0 < spec.row)
    (hhits : ∀ l < spec.row - 1, spec.rowhit l cmd = none)
    (hhit : spec.rowhit (spec.row - 1) cmd = some rowhitRd)
    (hopens : ∀ l < spec.row - 1, spec.rowopen l cmd = none)
    (hopen : spec.rowopen (spec.row - 1) cmd = some rowopenRd)
    (hprereq : spec.prereq (spec.row - 1) cmd = some prereqRowRd) :
    RowRules spec (fun s => decide (s = .opened)) (fun c => decide (c = .pre)) cmd where
  row_pos := hpos
  rowhit_above := hhits
  rowhit := ⟨rowhitRd, hhit, fun n id => rowhitRd_eq n cmd id⟩
  rowopen_above := hopens
  rowopen := ⟨rowopenRd, hopen, fun n id => rowopenRd_eq n cmd id⟩
  prereq := by
    intro p n id c hp hc hpre
    rw [hprereq, Option.some.injEq] at hp
    subst hp
    rw [of_decide_eq_true hpre] at hc
    exact ⟨decide_eq_true (prereqRowRd_pre hcmd hc).1, (prereqRowRd_pre hcmd hc).2⟩
  not_precharge := decide_eq_false hcmd

theorem masa_rowRules (org : OrgEntry) (speed : SALP.SpeedEntry) (hcmd : cmd = .rd ∨ cmd = .wr) :
    RowRules (SALP.spec org speed) (fun s => decide (s = .opened ∨ s = .selected))
      (fun c => decide (c = .pre)) cmd := by
  have hhit : ∀ (n : Tree) (cmd : Command) (id : Int), SALP.rowhitSubArrayRd n cmd id =
      (decide (n.val.state = .opened ∨ n.val.state = .selected) && (n.val.rowState id).isSome) := by
    intro n cmd id
    unfold SALP.rowhitSubArrayRd
    cases n.val.state <;> rfl
  have hopen : ∀ (n : Tree) (cmd : Command) (id : Int), SALP.rowopenSubArrayRd n cmd id =
      decide (n.val.state = .opened ∨ n.val.state = .selected) := by
    intro n cmd id
    unfold SALP.rowopenSubArrayRd
    cases n.val.state <;> rfl
  have hprereq : ∀ (p : Tree → Command → Int → Option Command) (n : Tree) (id : Int)
      (c : Command), (SALP.spec org speed).prereq 3 cmd = some p → p n cmd id = some c →
      decide (c = .pre) = true → decide (n.val.state = .opened ∨ n.val.state = .selected) = true ∧
        (n.val.rowState id).isSome = false := by
    intro p n id c hp hc hpre
    have hrule : (SALP.spec org speed).prereq 3 cmd = some SALP.prereqSubArrayRd := by
      rcases hcmd with rfl | rfl <;> rfl
    rw [hrule, Option.some.injEq] at hp
    subst hp
    rw [of_decide_eq_true hpre] at hc
    have hpre' := prereqSubArrayRd_pre (by rcases hcmd with rfl | rfl <;> decide) hc
    exact ⟨decide_eq_true hpre'.1, hpre'.2⟩
  rcases hcmd with rfl | rfl <;> exact
    { row_pos := show 0 < 4 by decide
      rowhit_above := below_three rfl rfl rfl
      rowhit := ⟨SALP.rowhitSubArrayRd, rfl, fun n id => hhit n _ id⟩
      rowopen_above := below_three rfl rfl rfl
      rowopen := ⟨SALP.rowopenSubArrayRd, rfl, fun n id => hopen n _ id⟩
      prereq := hprereq
      not_precharge := rfl }

theorem tldram_rowRules (segmentRatio : Int) (org : OrgEntry) (speed : TLDRAM.SpeedEntry)
    (hcmd : cmd = .rd ∨ cmd = .wr) :
    RowRules (TLDRAM.spec segmentRatio org speed) (fun s => decide (s = .opened))
      (fun c => decide (c = .pre ∨ c = .pref ∨ c = .prem)) cmd := by
  have hprereq : ∀ (p : Tree → Command → Int → Option Command) (n : Tree) (id : Int)
      (c : Command), (TLDRAM.spec segmentRatio org speed).prereq 2 cmd = some p →
      p n cmd id = some c → decide (c = .pre ∨ c = .pref ∨ c = .prem) = true →
      decide (n.val.state = .opened) = true ∧ (n.val.rowState id).isSome = false := by
    intro p n id c hp hc hpre
    have hrule : (TLDRAM.spec segmentRatio org speed).prereq 2 cmd =
        some (TLDRAM.prereqBankRd segmentRatio) := by
      rcases hcmd with rfl | rfl <;> rfl
    rw [hrule, Option.some.injEq] at hp
    subst hp
    have hpre' := prereqBankRd_precharge (by rcases hcmd with rfl | rfl <;> decide) hc
      (of_decide_eq_true hpre)
    exact ⟨decide_eq_true hpre'.1, hpre'.2⟩
  rcases hcmd with rfl | rfl <;> exact
    { row_pos := show 0 < 3 by decide
      rowhit_above := below_two rfl rfl
      rowhit := ⟨rowhitRd, rfl, fun n id => rowhitRd_eq n _ id⟩
      rowopen_above := below_two rfl rfl
      rowopen := ⟨rowopenRd, rfl, fun n id => rowopenRd_eq n _ id⟩
      prereq := hprereq
      not_precharge := rfl }

variable {chip : Chip} {type : RequestType}

theorem Chip.rowRules (htype : type = .read ∨ type = .write) :
    RowRules chip.device.spec chip.isOpen chip.isPrecharge (chip.device.translate type) := by
  have htranslate : ∀ translate : RequestType → Command, translate .read = .rd →
      translate .write = .wr → translate type = .rd ∨ translate type = .wr := by
    intro translate hread hwrite
    rcases htype with rfl | rfl
    · exact Or.inl hread
    · exact Or.inr hwrite
  cases chip with
  | ddr3 org speed =>
    rcases htype with rfl | rfl <;>
      exact rowRules_rd nofun (show 0 < 3 by decide) (below_two rfl rfl) rfl
        (below_two rfl rfl) rfl rfl
  | ddr4 org speed =>
    rcases htype with rfl | rfl <;>
      exact rowRules_rd nofun (show 0 < 4 by decide) (below_three rfl rfl rfl) rfl
        (below_three rfl rfl rfl) rfl rfl
  | masa org speed => exact masa_rowRules org speed (htranslate _ rfl rfl)
  | dsarp type org speed =>
    rcases htype with rfl | rfl <;>
      exact rowRules_rd nofun (show 0 < 4 by decide) (below_three rfl rfl rfl) rfl
        (below_three rfl rfl rfl) rfl rfl
  | tldram segmentRatio org speed =>
    exact tldram_rowRules segmentRatio org speed (htranslate _ rfl rfl)

theorem Chip.prechargeRules : PrechargeRules chip.device.spec chip.isPrecharge .pre := by
  cases chip with
  | ddr3 org speed =>
    refine ⟨show 2 < 3 by decide, ?_, ?_⟩ <;> intro c hc <;> cases of_decide_eq_true hc
    · rfl
    · exact below_two rfl rfl
  | ddr4 org speed =>
    refine ⟨show 3 < 4 by decide, ?_, ?_⟩ <;> intro c hc <;> cases of_decide_eq_true hc
    · rfl
    · exact below_three rfl rfl rfl
  | masa org speed =>
    refine ⟨show 3 < 4 by decide, ?_, ?_⟩ <;> intro c hc <;> cases of_decide_eq_true hc
    · rfl
    · exact below_three rfl rfl rfl
  | dsarp type org speed =>
    refine ⟨show 2 < 4 by decide, ?_, ?_⟩ <;> intro c hc <;> cases of_decide_eq_true hc
    · rfl
    · exact below_two rfl rfl
  | tldram segmentRatio org speed =>
    refine ⟨show 2 < 3 by decide, ?_, ?_⟩ <;> intro c hc <;>
      rcases of_decide_eq_true hc with rfl | rfl | rfl
    · rfl
    · rfl
    · rfl
    · exact below_two rfl rfl
    · exact below_two rfl rfl
    · exact below_two rfl rfl

/-- The rules for reads and writes above the node that holds the row: that of a
    rank, and in DSARP that of a bank. -/
theorem Chip.rule_above {p : Tree → Command → Int → Option Command}
    (htype : type = .read ∨ type = .write) : ∀ k < chip.device.spec.row - 1,
    chip.device.spec.prereq k (chip.device.translate type) = some p →
      p = prereqRankRd ∨ (k = DSARP.Level.bank ∧ p = DSARP.prereqBankRd ∧
        ∃ type org speed, chip = .dsarp type org speed) := by
  rcases htype with rfl | rfl <;> cases chip with
  | ddr3 org speed => exact below_two nofun fun h => Or.inl (Option.some.inj h).symm
  | ddr4 org speed => exact below_three nofun (fun h => Or.inl (Option.some.inj h).symm) nofun
  | masa org speed => exact below_three nofun (fun h => Or.inl (Option.some.inj h).symm) nofun
  | dsarp type org speed =>
    exact below_three nofun (fun h => Or.inl (Option.some.inj h).symm)
      fun h => Or.inr ⟨rfl, (Option.some.inj h).symm, type, org, speed, rfl⟩
  | tldram segmentRatio org speed =>
    exact below_two nofun fun h => Or.inl (Option.some.inj h).symm

theorem Chip.not_precharge_above {t : Tree} {k : Nat} {r r' : Request}
    (htype : r.type = .read ∨ r.type = .write) (hshape : DRAM.WellShaped chip.device.spec 0 id t)
    (hforeseen : chip.Foreseen t junk r r') (hn : t.along (r.addrVec.data junk) k = some n)
    (hk : k < chip.device.spec.row - 1)
    (hrule : n.ruleAt chip.device.spec (chip.device.translate r.type) (r.addrVec.data junk) =
      some c) : chip.isPrecharge c = false := by
  obtain ⟨id', hnode⟩ := hshape.along hn
  obtain ⟨p, hp, hc⟩ := Option.bind_eq_some_iff.mp hrule
  rw [hnode.val_level, Nat.zero_add] at hp hc
  rcases Chip.rule_above htype k hk hp with rfl | ⟨rfl, rfl, refresh, org, speed, rfl⟩
  · rcases prereqRankRd_ne hc with rfl | rfl <;> cases chip <;> rfl
  · -- an open bank is open at the subarray asked for
    rw [Chip.Foreseen, ownSubArrayOpen, hn, Option.all_some, Bool.or_eq_true,
      decide_eq_true_eq] at hforeseen
    unfold DSARP.prereqBankRd at hc
    cases hs : n.val.state <;> simp only [hs] at hc <;> try cases hc
    · rw [if_pos (hforeseen.resolve_left fun hne => hne hs)] at hc
      cases hc
    · rfl

theorem Chip.scope_lt_levels : chip.device.spec.scope .pre < chip.device.levels := by
  cases chip with
  | ddr3 org speed => exact show 2 < 5 by decide
  | ddr4 org speed => exact show 3 < 6 by decide
  | masa org speed => exact show 3 < 6 by decide
  | dsarp type org speed => exact show 2 < 6 by decide
  | tldram segmentRatio org speed => exact show 2 < 5 by decide

theorem Chip.four_le_levels : 4 ≤ chip.device.levels := by
  cases chip with
  | ddr3 org speed => exact show 4 ≤ 5 by decide
  | ddr4 org speed => exact show 4 ≤ 6 by decide
  | masa org speed => exact show 4 ≤ 6 by decide
  | dsarp type org speed => exact show 4 ≤ 6 by decide
  | tldram segmentRatio org speed => exact show 4 ≤ 5 by decide

theorem OfChannel.data_zero {d : Device} {v : AddrVec} (h : OfChannel d id v) (junk : Int) :
    v.data junk 0 = id := by
  have hhead := h.channel
  cases v with
  | nil => cases hhead
  | cons x v => exact Option.some.inj hhead

/-- Two requests of one queue, neither of them a refresh or an unforeseen
    migration, are reads or writes. -/
theorem Chip.types_of_foreseen {t : Tree} {r r' : Request} (hr : Queued chip.device id type r)
    (hr' : Queued chip.device id type r')
    (htype : r'.type = .read ∨ r'.type = .write ∨ r'.type = .extension)
    (hforeseen : chip.Foreseen t junk r r') :
    (r.type = .read ∨ r.type = .write) ∧ (r'.type = .read ∨ r'.type = .write) := by
  have hqueue := hr.1
  have hqueue' := hr'.1
  have hmigrates : ∀ req : Request, chip.device.QueueType .read req.type →
      (∀ ratio org speed, chip = .tldram ratio org speed → req.type ≠ .extension) →
      req.type = .read := by
    rintro req (hread | ⟨hmigrates, hext⟩) hnot
    · exact hread
    · cases chip with
      | tldram ratio org speed => exact absurd hext (hnot _ _ _ rfl)
      | _ => cases hmigrates
  cases type with
  | read =>
    refine ⟨Or.inl (hmigrates r hqueue ?_), Or.inl (hmigrates r' hqueue' ?_)⟩
    · rintro ratio org speed rfl
      exact hforeseen.1
    · rintro ratio org speed rfl
      exact hforeseen.2
  | write => exact ⟨Or.inr hqueue, Or.inr hqueue'⟩
  | _ =>
    have hrefresh : r'.type = .refresh := hqueue'
    rw [hrefresh] at htype
    simp at htype

/-- What the scheduler foresees it prevents, in every state the invariant
    describes. -/
theorem Chip.head_spares_rows {c : ChannelController} {i j : Nat} {r r' : Request}
    (hdevice : cfg.device = chip.device) (hsched : cfg.scheduler = .frfcfsPriorHit)
    (h : ChannelInv cfg id c) (hforeseen : chip.Foreseen c.channel junk r r') :
    ¬ chip.Closes cfg junk c type i j r r' := by
  obtain ⟨device, noDramLatency, scheduler, rowpolicy⟩ := cfg
  subst hdevice hsched
  rintro ⟨hhead, hprecharge, hother, -, htype, hcloses⟩
  have hhead' : c.getHead ⟨chip.device, noDramLatency, .frfcfsPriorHit, rowpolicy⟩ junk type =
      (some (i, r), (c.getHead ⟨chip.device, noDramLatency, .frfcfsPriorHit, rowpolicy⟩
        junk type).2) := Prod.ext hhead rfl
  have hr : Queued chip.device id type r :=
    h.queues _ _ (mem_of_getElem? (Scheduler.getHead_some hhead'))
  have hmem : r' ∈ c.getQueue type := mem_of_getElem? hother
  have hr' : Queued chip.device id type r' := h.queues _ _ hmem
  obtain ⟨hrType, hrType'⟩ := Chip.types_of_foreseen hr hr' htype hforeseen
  have hrules : RowRules chip.device.spec chip.isOpen chip.isPrecharge
      (chip.device.translate r.type) := Chip.rowRules hrType
  cases noDramLatency with
  | true =>
    have hself := hrules.not_precharge
    rw [show chip.isPrecharge (chip.device.translate r.type) = true from hprecharge] at hself
    cases hself
  | false =>
    have hscope : chip.device.spec.scope .pre < chip.device.levels := Chip.scope_lt_levels
    have hspared := closesRow_eq_false h.shape (fun _ => rfl) (fun _ => rfl)
      Chip.prechargeRules hhead' hrules
      (fun k n cmd hn hk hrule => Chip.not_precharge_above hrType h.shape hforeseen hn hk hrule)
      hprecharge hmem (Chip.rowRules hrType') (by rw [hr.2.length]; exact hscope)
      (by rw [hr'.2.length]; exact hscope)
      (by rw [hr.2.data_zero, hr'.2.data_zero])
    exact Bool.false_ne_true (hspared.symm.trans hcloses)

end Generic

/-! ## HMC -/

namespace HMC

def isOpen (s : State) : Bool := decide (s = .opened)

def isPrecharge (c : Command) : Bool := decide (c = .pre)

variable {hmc : HMC} {type : RequestType}

theorem rowRules (htype : type = .read ∨ type = .write) :
    RowRules hmc.spec isOpen isPrecharge (translate type) := by
  have hhit : ∀ (n : Tree) (cmd : Command) (id : Int),
      rowhitBankRd n cmd id = (isOpen n.val.state && (n.val.rowState id).isSome) := by
    intro n cmd id
    unfold rowhitBankRd
    cases n.val.state <;> rfl
  have hopen : ∀ (n : Tree) (cmd : Command) (id : Int),
      rowopenBankRd n cmd id = isOpen n.val.state := by
    intro n cmd id
    unfold rowopenBankRd
    cases n.val.state <;> rfl
  have hpre : ∀ (n : Tree) (cmd c : Command) (id : Int), isPrecharge cmd = false →
      prereqBankRd n cmd id = some c → isPrecharge c = true →
      isOpen n.val.state = true ∧ (n.val.rowState id).isSome = false := by
    intro n cmd c id hcmd hc hprecharge
    unfold prereqBankRd at hc
    cases hs : n.val.state <;> simp only [hs] at hc <;> try cases hc
    · split at hc
      · cases hc
        rw [hcmd] at hprecharge
        cases hprecharge
      · next hrow => exact ⟨rfl, Bool.eq_false_iff.mpr hrow⟩
    · cases hprecharge
  rcases htype with rfl | rfl <;> exact
    { row_pos := show 0 < 3 by decide
      rowhit_above := Generic.below_two rfl rfl
      rowhit := ⟨rowhitBankRd, rfl, fun n id => hhit n _ id⟩
      rowopen_above := Generic.below_two rfl rfl
      rowopen := ⟨rowopenBankRd, rfl, fun n id => hopen n _ id⟩
      prereq := fun p n id c hp hc hprecharge => by
        cases hp
        exact hpre n _ c id rfl hc hprecharge
      not_precharge := rfl }

theorem prechargeRules : PrechargeRules hmc.spec isPrecharge .pre := by
  refine ⟨show 2 < 3 by decide, ?_, ?_⟩ <;> intro c hc <;> cases of_decide_eq_true hc
  · rfl
  · exact Generic.below_two rfl rfl

theorem not_precharge_above {t n : Tree} {k : Nat} {vault : Int} {addr : Nat → Int} {c : Command}
    (htype : type = .read ∨ type = .write) (hshape : DRAM.WellShaped hmc.spec 0 vault t)
    (hn : t.along addr k = some n) (hk : k < hmc.spec.row - 1)
    (hrule : n.ruleAt hmc.spec (translate type) addr = some c) : isPrecharge c = false := by
  obtain ⟨id', hnode⟩ := hshape.along hn
  obtain ⟨p, hp, hc⟩ := Option.bind_eq_some_iff.mp hrule
  rw [hnode.val_level, Nat.zero_add] at hp
  have hvault : ∀ k < hmc.spec.row - 1, hmc.spec.prereq k (translate type) = some p →
      p = prereqVaultRd := by
    rcases htype with rfl | rfl <;>
      exact Generic.below_two (fun h => (Option.some.inj h).symm) nofun
  rw [hvault k hk hp] at hc
  unfold prereqVaultRd at hc
  cases hs : n.val.state <;> simp only [hs] at hc <;> cases hc <;> rfl

end HMC

namespace Controller

variable {cfg : ControllerConfig} {vault junk : Int} {c : Controller} {type : RequestType}
  {i j : Nat} {r r' : Request}

theorem head_spares_rows (hlat : cfg.noDramLatency = false)
    (hsched : cfg.scheduler = .frfcfsPriorHit)
    (hshape : DRAM.WellShaped cfg.hmc.spec 0 vault c.channel) (h : QueueInv cfg vault c) :
    ¬ HeadCloses cfg.hmc.spec HMC.isOpen HMC.isPrecharge c.channel junk (c.getFirstCmd cfg junk)
      (c.getQueue type) (Scheduler.getHead cfg.hmc.spec (c.view cfg junk) (HMC.scope .pre)
        cfg.scheduler (c.getQueue type) c.rowtable).1 i j r r' := by
  rw [hsched]
  rintro ⟨hhead, hprecharge, hother, -, htype, hcloses⟩
  have hhead' := Prod.ext (y := (some (i, r), (Scheduler.getHead cfg.hmc.spec (c.view cfg junk)
    (HMC.scope .pre) .frfcfsPriorHit (c.getQueue type) c.rowtable).2)) hhead rfl
  have hmem : r' ∈ c.getQueue type := mem_of_getElem? hother
  have hr := h type r (mem_of_getElem? (Scheduler.getHead_some hhead'))
  have hr' := h type r' hmem
  have htypes : (r.type = .read ∨ r.type = .write) ∧ (r'.type = .read ∨ r'.type = .write) ∧
      HMC.InRange cfg.hmc vault r.addrVec ∧ HMC.InRange cfg.hmc vault r'.addrVec := by
    cases type with
    | read => exact ⟨Or.inl hr.1, Or.inl hr'.1, hr.2, hr'.2⟩
    | write => exact ⟨Or.inr hr.1, Or.inr hr'.1, hr.2, hr'.2⟩
    | _ =>
      have hrefresh : r'.type = .refresh := hr'.1
      rw [hrefresh] at htype
      simp at htype
  obtain ⟨hrType, hrType', hrange, hrange'⟩ := htypes
  have hcmd : c.getFirstCmd cfg junk r =
      c.channel.decode cfg.hmc.spec (HMC.translate r.type) (r.addrVec.data junk) := by
    rw [getFirstCmd, hlat]
    rfl
  rw [hcmd] at hprecharge hcloses
  have hlen : HMC.scope .pre < r.addrVec.length := by
    rw [hrange.length]
    decide
  have hlen' : HMC.scope .pre < r'.addrVec.length := by
    rw [hrange'.length]
    decide
  have hvault : r'.addrVec.data junk 0 = r.addrVec.data junk 0 := by
    rw [HMC.data_eq_getD (Nat.zero_lt_of_lt hlen) junk,
      HMC.data_eq_getD (Nat.zero_lt_of_lt hlen') junk]
    exact hrange'.vault.trans hrange.vault.symm
  have hspared := closesRow_eq_false hshape (fun _ => rfl) (fun _ => rfl) HMC.prechargeRules
    hhead' (HMC.rowRules hrType)
    (fun k n cmd hn hk hrule => HMC.not_precharge_above hrType hshape hn hk hrule)
    hprecharge hmem (HMC.rowRules hrType') hlen hlen' hvault
  exact Bool.false_ne_true (hspared.symm.trans hcloses)

/-- A state after a run, or where the next cycle asks the scheduler. -/
def Reaches (cfg : ControllerConfig) (vault : Int) (inputs : List Input) (c : Controller) :
    Prop :=
  run cfg vault inputs = .ok c ∨
    ∃ c₀ junk done, run cfg vault inputs = .ok c₀ ∧ c₀.prepare cfg junk = .ok (done, c)

theorem Reaches.inv {inputs : List Input} (h : Reaches cfg vault inputs c)
    (hlat : cfg.noDramLatency = false) (hsched : cfg.scheduler ≠ .frfcfsCap)
    (hok : ∀ input ∈ inputs, input.Ok cfg vault) : ProtocolInv cfg vault c := by
  rcases h with hrun | ⟨c₀, junk, done, hrun, hprepare⟩
  · exact (run_protocol hlat hsched hok).result hrun
  · exact ((prepare_protocol ((run_protocol hlat hsched hok).result hrun)).result hprepare).1

end Controller

/-! ## Runs -/

namespace Generic

def dsarpChip : Chip := .dsarp .dsarp DSARP.org8GbX8 DSARP.speed1333

/-- Row 0 of subarray 0 is open, no read is ready, and reads of `sa` and of that row arrive. -/
def otherRead (sa : Int) : List ChannelInput :=
  readOf 0 [0, 0, 0, 0, 0, 0] :: idle 17 ++ readOf 1 [0, 0, 1, 0, 0, 0] :: idle 10 ++
    [readOf 2 [0, 0, 0, sa, 1, 0], readOf 3 [0, 0, 0, 0, 0, 8]]

/-- Row hits of bank 1 delay the migration of bank 0 until its row may be closed. -/
def delayedMigration : List ChannelInput :=
  readOf 0 [0, 0, 1, 1, 0] :: readOf 1 [0, 0, 0, 1, 0] :: readOf 2 [0, 0, 0, 2, 0] ::
    readOf 3 [0, 0, 1, 1, 8] :: readOf 4 [0, 0, 1, 1, 16] :: readOf 5 [0, 0, 1, 1, 24] ::
    readOf 6 [0, 0, 1, 1, 32] :: readOf 7 [0, 0, 1, 1, 40] :: idle 25

/-- What holds at the point of a cycle where the scheduler is asked. -/
theorem ChannelController.Reaches.of_ends {cfg : ChannelConfig} {id : Int}
    {inputs : List ChannelInput} {P : ChannelController → Prop}
    (h : Ends (run cfg id inputs >>= fun c => c.prepare cfg 0 []) P (fun _ => False)) :
    ∃ c, Reaches cfg id inputs c ∧ P c := by
  obtain ⟨c, hc, hP⟩ := h.exists_ok
  obtain ⟨c₀, hrun, hprepare⟩ := bind_ok.mp hc
  exact ⟨c, Or.inr ⟨c₀, 0, [], hrun, hprepare⟩, hP⟩

end Generic

/-- Under FRFCFS_PriorHit the request that is scheduled never closes the row of
    another one in its queue, as far as the queries of the scheduler foresee it:
    in HMC, DDR3, DDR4 and SALP-MASA always, in DSARP when the bank of the request
    is not open at another subarray, and in TLDRAM between reads and writes. -/
theorem head_spares_open_rows (junk : Int) :
    (∀ (chip : Generic.Chip) (cfg : Generic.ChannelConfig) (id : Int)
      (inputs : List Generic.ChannelInput) (c : Generic.ChannelController) (type : RequestType)
      (i j : Nat) (r r' : Request), cfg.device = chip.device →
      cfg.scheduler = .frfcfsPriorHit → (∀ input ∈ inputs, input.Ok cfg id) →
      Generic.ChannelController.Reaches cfg id inputs c → chip.Foreseen c.channel junk r r' →
      ¬ chip.Closes cfg junk c type i j r r') ∧
    (∀ (cfg : ControllerConfig) (vault : Int) (inputs : List Controller.Input) (c : Controller)
      (type : RequestType) (i j : Nat) (r r' : Request), cfg.scheduler = .frfcfsPriorHit →
      (∀ input ∈ inputs, input.Ok cfg vault) → Controller.Reaches cfg vault inputs c →
      ¬ HeadCloses cfg.hmc.spec HMC.isOpen HMC.isPrecharge c.channel junk
        (c.getFirstCmd cfg junk) (c.getQueue type)
        (Scheduler.getHead cfg.hmc.spec (c.view cfg junk) (HMC.scope .pre) cfg.scheduler
          (c.getQueue type) c.rowtable).1 i j r r') := by
  refine ⟨?_, ?_⟩
  · intro chip cfg id inputs c type i j r r' hdevice hsched hok hreaches hforeseen
    have hlevels : 4 ≤ cfg.device.levels := by
      rw [hdevice]
      exact Generic.Chip.four_le_levels
    exact Generic.Chip.head_spares_rows hdevice hsched (hreaches.inv hlevels hok) hforeseen
  · intro cfg vault inputs c type i j r r' hsched hok hreaches hcloses
    cases hlat : cfg.noDramLatency with
    | true =>
      -- the next command of a request is its last one
      have hcmd : c.getFirstCmd cfg junk r = HMC.translate r.type := by
        rw [Controller.getFirstCmd, hlat]
        rfl
      have hprecharge := hcloses.precharge
      rw [hcmd] at hprecharge
      cases htype : r.type <;> rw [htype] at hprecharge <;> cases hprecharge
    | false =>
      have h := hreaches.inv hlat (by rw [hsched]; decide) hok
      exact Controller.head_spares_rows hlat hsched h.banks.shape h.queues hcloses

theorem head_spares_open_rows_sameSubArray :
    ∃ c, Generic.ChannelController.Reaches Generic.dsarpChip.config 0 (Generic.otherRead 0) c ∧
      Generic.ownSubArrayOpen c.channel (AddrVec.data [0, 0, 0, 0, 1, 0] 0) = true ∧
      ¬ Generic.dsarpChip.Closes Generic.dsarpChip.config 0 c .read 0 1
        { addr := 2, addrVec := [0, 0, 0, 0, 1, 0], type := .read, arrive := 27 }
        { addr := 3, addrVec := [0, 0, 0, 0, 0, 8], type := .read, arrive := 27 } := by
  have hrun : ∃ c, Generic.ChannelController.Reaches Generic.dsarpChip.config 0
      (Generic.otherRead 0) c ∧
      Generic.ownSubArrayOpen c.channel (AddrVec.data [0, 0, 0, 0, 1, 0] 0) = true :=
    Generic.ChannelController.Reaches.of_ends (by decide +kernel)
  obtain ⟨c, hreaches, hforeseen⟩ := hrun
  exact ⟨c, hreaches, hforeseen, (head_spares_open_rows 0).1 Generic.dsarpChip
    Generic.dsarpChip.config 0 (Generic.otherRead 0) c .read 0 1 _ _ rfl rfl (by decide +kernel)
    hreaches hforeseen⟩

namespace Generic

/-- In DSARP the precharge for a read of another subarray closes the row of a
    read that hits; in TLDRAM that of a read closes the row of a migration. -/
theorem head_closes_open_row : (∀ input ∈ otherRead 1, input.Ok dsarpChip.config 0) ∧
    (∃ c, ChannelController.Reaches dsarpChip.config 0 (otherRead 1) c ∧
      dsarpChip.Closes dsarpChip.config 0 c .read 0 1
        { addr := 2, addrVec := [0, 0, 0, 1, 1, 0], type := .read, arrive := 27 }
        { addr := 3, addrVec := [0, 0, 0, 0, 0, 8], type := .read, arrive := 27 }) ∧
    (∀ input ∈ delayedMigration, input.Ok tldramChip.config 0) ∧
    (∃ c, ChannelController.Reaches tldramChip.config 0 delayedMigration c ∧
      tldramChip.Closes tldramChip.config 0 c .read 2 1
        { addr := 2, addrVec := [0, 0, 0, 2, 0], type := .read, arrive := 0 }
        { addr := 1, addrVec := [0, 0, 0, 1, 0], type := .extension, arrive := 0,
          isFirstCommand := false }) :=
  ⟨by decide +kernel, ChannelController.Reaches.of_ends (by decide +kernel), by decide +kernel,
    ChannelController.Reaches.of_ends (by decide +kernel)⟩

end Generic

end Ramulator
