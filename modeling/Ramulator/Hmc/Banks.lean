/-
  Ramulator.Hmc.Banks

  The banks of a vault as a row-buffer machine.

  `Shows t s` relates the tree of a vault to the abstract state `s` of its
  banks: a bank node is `Opened` with exactly the row `s` gives it, or `Closed`
  with none.  On a tree that shows `s`,

    * `decode` returns what the state of the bank calls for
      (`decode_column`, `decode_refresh`), and
    * `updateState` shows `RowBuffer.step s` for every legal command
      (`Shows.updateState`).
-/

import Ramulator.Lib.RowBuffer
import Ramulator.Hmc.Spec

namespace Ramulator

open List Function

namespace HMC

/-- A bank of a vault: its bank group and its number there. -/
abbrev BankId := Nat × Nat

/-- The open rows of a vault. -/
abbrev BankState := RowBuffer.State BankId Int

variable {bank t : Tree} {p : BankId} {R : Node Command State → Node Command State → Prop}
  {v : AddrVec} {s : BankState} {hmc : HMC}

def bankAt (t : Tree) (p : BankId) : Option Tree := (t.child? p.1).bind (·.child? p.2)

theorem bankAt_eq_some :
    bankAt t p = some bank ↔ ∃ bg, t.child? p.1 = some bg ∧ bg.child? p.2 = some bank :=
  Option.bind_eq_some_iff

structure BankShows (n : Node Command State) (o : Option Int) : Prop where
  state : n.state = if o.isSome then .opened else .closed
  rowState : ∀ r, n.rowState r = if o = some r then some .opened else none

structure Shows (t : Tree) (s : BankState) : Prop where
  powerUp : t.val.state = .powerUp
  bank : ∀ p bank, bankAt t p = some bank → BankShows bank.val ((s p).map Prod.fst)
  exists_bank : ∀ p, s p ≠ none → ∃ bank, bankAt t p = some bank

theorem BankShows.closed_iff {n : Node Command State} {o : Option Int} (h : BankShows n o) :
    n.state = .closed ↔ o = none := by
  rw [h.state]
  cases o with
  | none => simp
  | some r => simp

/-! ## Frames -/

theorem bankAt_of_rel_inv {t' bank' : Tree} (hrel : NodeTree.Rel R t t')
    (h : bankAt t' p = some bank') : ∃ bank, bankAt t p = some bank ∧ R bank.val bank'.val := by
  obtain ⟨bg', hbg', hbank'⟩ := bankAt_eq_some.mp h
  obtain ⟨bg, hbg, hrel₁⟩ := hrel.child_inv hbg'
  obtain ⟨bank, hbank, hrel₂⟩ := hrel₁.child_inv hbank'
  exact ⟨bank, bankAt_eq_some.mpr ⟨bg, hbg, hbank⟩, hrel₂.val⟩

theorem bankAt_of_rel {t' : Tree} (hrel : NodeTree.Rel R t t') (h : bankAt t p = some bank) :
    ∃ bank', bankAt t' p = some bank' ∧ R bank.val bank'.val := by
  obtain ⟨bg, hbg, hbank⟩ := bankAt_eq_some.mp h
  obtain ⟨bg', hbg', hrel₁⟩ := hrel.child hbg
  obtain ⟨bank', hbank', hrel₂⟩ := hrel₁.child hbank
  exact ⟨bank', bankAt_eq_some.mpr ⟨bg', hbg', hbank'⟩, hrel₂.val⟩

theorem Shows.of_rel {t' : Tree} (h : Shows t s) (hrel : NodeTree.Rel Node.SameState t t') :
    Shows t' s := by
  constructor
  · rw [hrel.val.state]
    exact h.powerUp
  · intro p bank' hbank'
    obtain ⟨bank, hbank, hsame⟩ := bankAt_of_rel_inv hrel hbank'
    have hshows := h.bank p bank hbank
    exact ⟨hsame.state.trans hshows.state, fun r => by rw [hsame.rowState, hshows.rowState]⟩
  · intro p hp
    obtain ⟨bank, hbank⟩ := h.exists_bank p hp
    obtain ⟨bank', hbank', -⟩ := bankAt_of_rel hrel hbank
    exact ⟨bank', hbank'⟩

theorem Shows.new (hmc : HMC) (id : Int) :
    Shows (DRAM.new hmc.spec Level.vault id) (fun _ => none) := by
  refine ⟨rfl, ?_, fun p hp => absurd rfl hp⟩
  intro p bank h
  obtain ⟨bg, hbg, hbank⟩ := bankAt_eq_some.mp h
  obtain ⟨hi, rfl⟩ := NodeTree.child?_eq_some_iff.mp hbg
  obtain ⟨hj, rfl⟩ := NodeTree.child?_eq_some_iff.mp hbank
  exact ⟨rfl, fun r => rfl⟩

/-! ## Addresses -/

/-- An address vector of a request to vault `vault`, with every component in
    the range of its level. -/
structure InRange (hmc : HMC) (vault : Int) (v : AddrVec) : Prop where
  length : v.length = Level.max
  vault : v.getD Level.vault 0 = vault
  bankGroup : 0 ≤ v.getD Level.bankGroup 0 ∧ v.getD Level.bankGroup 0 < hmc.org.bankGroup
  bank : 0 ≤ v.getD Level.bank 0 ∧ v.getD Level.bank 0 < hmc.org.bank
  row : 0 ≤ v.getD Level.row 0 ∧ v.getD Level.row 0 < hmc.org.row
  column : 0 ≤ v.getD Level.column 0 ∧ v.getD Level.column 0 < hmc.org.column

/-- The bank an address vector names. -/
def bankOf (v : AddrVec) : BankId := ((v.getD Level.bankGroup 0).toNat, (v.getD Level.bank 0).toNat)

/-- The row an address vector names. -/
def rowOf (v : AddrVec) : Int := v.getD Level.row 0

theorem data_eq_getD {i : Nat} (h : i < v.length) (junk : Int) : v.data junk i = v.getD i 0 := by
  rw [AddrVec.data, getD_eq_getElem?_getD, getD_eq_getElem?_getD,
    getElem?_eq_getElem h, Option.getD_some, Option.getD_some]

structure NamesBank (hmc : HMC) (vault : Int) (v : AddrVec) : Prop where
  length : Level.bank < v.length
  vault : v.getD Level.vault 0 = vault
  bankGroup : 0 ≤ v.getD Level.bankGroup 0 ∧ v.getD Level.bankGroup 0 < hmc.org.bankGroup
  bank : 0 ≤ v.getD Level.bank 0 ∧ v.getD Level.bank 0 < hmc.org.bank

theorem InRange.namesBank {vault : Int} (h : InRange hmc vault v) : NamesBank hmc vault v :=
  ⟨by rw [h.length]; decide, h.vault, h.bankGroup, h.bank⟩

section Path

variable {hmc : HMC} {vault junk : Int} {v : AddrVec} {t : Tree}

section

variable (h : NamesBank hmc vault v)
include h

theorem NamesBank.exists_bank (hshape : DRAM.WellShaped hmc.spec Level.vault vault t) :
    ∃ bg bank, t.child? (bankOf v).1 = some bg ∧ bg.child? (bankOf v).2 = some bank := by
  have hbg : (bankOf v).1 < t.arity := by
    rw [hshape.arity_eq]
    have := h.bankGroup
    show (v.getD Level.bankGroup 0).toNat < hmc.org.bankGroup
    omega
  obtain ⟨bg, hbg⟩ := NodeTree.exists_child?_of_lt hbg
  have hbank : (bankOf v).2 < bg.arity := by
    rw [(hshape.child hbg).arity_eq]
    have := h.bank
    show (v.getD Level.bank 0).toNat < hmc.org.bank
    omega
  obtain ⟨bank, hbank⟩ := NodeTree.exists_child?_of_lt hbank
  exact ⟨bg, bank, hbg, hbank⟩

theorem NamesBank.data_bankGroup (junk : Int) :
    v.data junk (Level.vault + 1) = v.getD Level.bankGroup 0 :=
  data_eq_getD (Nat.lt_trans (by decide) h.length) junk

theorem NamesBank.data_bank (junk : Int) :
    v.data junk (Level.bankGroup + 1) = v.getD Level.bank 0 :=
  data_eq_getD h.length junk

end

end Path

/-! ## Decode -/

section Decode

variable {hmc : HMC} {vault junk : Int} {v : AddrVec} {t : Tree} {s : BankState} {cmd : Command}

/-- A column command descends to its bank; the bank decides. -/
theorem decode_to_bank (hpowerUp : t.val.state = .powerUp)
    (hshape : DRAM.WellShaped hmc.spec Level.vault vault t) (h : NamesBank hmc vault v)
    (hcmd : cmd = .rd ∨ cmd = .wr) {bg : Tree} (hbg : t.child? (bankOf v).1 = some bg)
    (hbank : bg.child? (bankOf v).2 = some bank) :
    t.decode hmc.spec cmd (v.data junk) = bank.decode hmc.spec cmd (v.data junk) := by
  have hvault : hmc.spec.prereq Level.vault cmd = some prereqVaultRd := by
    rcases hcmd with rfl | rfl <;> rfl
  have hgroup : hmc.spec.prereq Level.bankGroup cmd = none := by
    rcases hcmd with rfl | rfl <;> rfl
  have hpower : ∀ id, prereqVaultRd t cmd id = none := by
    intro id
    simp only [prereqVaultRd, hpowerUp]
  have hbg0 : ¬ v.getD Level.bankGroup 0 < 0 := by
    have := h.bankGroup
    omega
  have hbank0 : ¬ v.getD Level.bank 0 < 0 := by
    have := h.bank
    omega
  have hbg' : t.child? (v.getD Level.bankGroup 0).toNat = some bg := hbg
  have hbank' : bg.child? (v.getD Level.bank 0).toNat = some bank := hbank
  calc t.decode hmc.spec cmd (v.data junk) = bg.decode hmc.spec cmd (v.data junk) := by
        rw [DRAM.decode_eq, hshape.val_level, hvault]
        simp only [Option.bind_some, hpower, h.data_bankGroup, if_neg hbg0, hbg']
    _ = bank.decode hmc.spec cmd (v.data junk) := by
        rw [DRAM.decode_eq, (hshape.child hbg).val_level, hgroup]
        simp only [Option.bind_none, h.data_bank, if_neg hbank0, hbank']

theorem decode_column (hshows : Shows t s)
    (hshape : DRAM.WellShaped hmc.spec Level.vault vault t) (h : InRange hmc vault v)
    (hcmd : cmd = .rd ∨ cmd = .wr) : t.decode hmc.spec cmd (v.data junk) = match s (bankOf v) with
      | none => .act
      | some e => if e.1 = rowOf v then cmd else .pre := by
  obtain ⟨bg, bank, hbg, hbank⟩ := h.namesBank.exists_bank hshape
  have hshowsBank := hshows.bank (bankOf v) bank (bankAt_eq_some.mpr ⟨bg, hbg, hbank⟩)
  have hprereq : hmc.spec.prereq Level.bank cmd = some prereqBankRd := by
    rcases hcmd with rfl | rfl <;> rfl
  have hrow : v.data junk (Level.bank + 1) = rowOf v :=
    data_eq_getD (by rw [h.length]; decide) junk
  rw [decode_to_bank hshows.powerUp hshape h.namesBank hcmd hbg hbank, DRAM.decode_eq,
    ((hshape.child hbg).child hbank).val_level, hprereq, Option.bind_some, hrow]
  cases hs : s (bankOf v) with
  | none =>
    have hstate : bank.val.state = .closed := hshowsBank.closed_iff.mpr (by rw [hs]; rfl)
    simp only [prereqBankRd, hstate]
  | some e =>
    have hstate : bank.val.state = .opened := by
      rw [hshowsBank.state, hs]
      rfl
    have hopen : (bank.val.rowState (rowOf v)).isSome = decide (e.1 = rowOf v) := by
      rw [hshowsBank.rowState, hs]
      by_cases he : e.1 = rowOf v <;> simp [he]
    simp only [prereqBankRd, hstate, hopen, decide_eq_true_eq]
    by_cases he : e.1 = rowOf v
    · simp only [if_pos he]
    · simp only [if_neg he]

/-- For a read or a write `decode` returns the access, `PRE` or `ACT`; closed banks give `ACT`. -/
theorem decode_column_cases (hpowerUp : t.val.state = .powerUp)
    (hshape : DRAM.WellShaped hmc.spec Level.vault vault t) (h : InRange hmc vault v)
    (hcmd : cmd = .rd ∨ cmd = .wr) :
    (t.decode hmc.spec cmd (v.data junk) = .act ∨ t.decode hmc.spec cmd (v.data junk) = .pre ∨
      t.decode hmc.spec cmd (v.data junk) = cmd) ∧
    (anyBankOpen t = false → t.decode hmc.spec cmd (v.data junk) = .act) := by
  obtain ⟨bg, bank, hbg, hbank⟩ := h.namesBank.exists_bank hshape
  have hshapeBank := (hshape.child hbg).child hbank
  have hprereq : hmc.spec.prereq Level.bank cmd = some prereqBankRd := by
    rcases hcmd with rfl | rfl <;> rfl
  have hchild : ∀ i, bank.child? i = none := by
    intro i
    have harity : bank.arity = 0 := hshapeBank.arity_eq
    cases hc : bank.child? i with
    | none => rfl
    | some c =>
      have := NodeTree.lt_arity_of_child? hc
      omega
  rw [decode_to_bank hpowerUp hshape h.namesBank hcmd hbg hbank, DRAM.decode_eq,
    hshapeBank.val_level, hprereq, Option.bind_some]
  constructor
  · cases hp : prereqBankRd bank cmd (v.data junk (Level.bank + 1)) with
    | none =>
      simp only [hchild, ite_self]
      exact Or.inr (Or.inr trivial)
    | some prereqCmd =>
      simp only [prereqBankRd] at hp
      split at hp
      · cases hp
        exact Or.inl rfl
      · split at hp
        · cases hp
          exact Or.inr (Or.inr rfl)
        · cases hp
          exact Or.inr (Or.inl rfl)
      · cases hp
  · intro hclosed
    have hstate : bank.val.state = .closed := by
      by_contra hne
      rw [← Bool.not_eq_true] at hclosed
      refine hclosed ?_
      simp only [anyBankOpen, NodeTree.anyChild_eq_true, decide_eq_true_eq]
      exact ⟨_, bg, hbg, _, bank, hbank, hne⟩
    simp only [prereqBankRd, hstate]

theorem anyBankOpen_iff (hshows : Shows t s) : anyBankOpen t = true ↔ ∃ p, s p ≠ none := by
  simp only [anyBankOpen, NodeTree.anyChild_eq_true, decide_eq_true_eq]
  constructor
  · rintro ⟨i, bg, hbg, j, bank, hbank, hstate⟩
    have hshowsBank := hshows.bank (i, j) bank (bankAt_eq_some.mpr ⟨bg, hbg, hbank⟩)
    refine ⟨(i, j), fun hnone => hstate (hshowsBank.closed_iff.mpr ?_)⟩
    rw [hnone]
    rfl
  · rintro ⟨p, hp⟩
    obtain ⟨bank, hbankAt⟩ := hshows.exists_bank p hp
    have hshowsBank := hshows.bank p bank hbankAt
    obtain ⟨bg, hbg, hbank⟩ := bankAt_eq_some.mp hbankAt
    refine ⟨p.1, bg, hbg, p.2, bank, hbank, fun hclosed => hp ?_⟩
    have := hshowsBank.closed_iff.mp hclosed
    simpa using this

/-- On behalf of a refresh, `decode` closes all banks unless they are closed. -/
theorem decode_refresh (hshape : DRAM.WellShaped hmc.spec Level.vault vault t) :
    t.decode hmc.spec .ref (v.data junk) = if anyBankOpen t then .prea else .ref := by
  have hprereq : hmc.spec.prereq Level.vault .ref = some prereqVaultRef := rfl
  rw [DRAM.decode_eq, hshape.val_level, hprereq, Option.bind_some]
  unfold prereqVaultRef
  by_cases h : anyBankOpen t = true <;> simp [h]

end Decode

/-! ## Update -/

section Update

variable {hmc : HMC} {vault junk : Int} {v : AddrVec} {t : Tree} {s : BankState} {cmd : Command}

def ToBank (cmd : Command) : Prop := cmd = .act ∨ cmd = .pre ∨ cmd = .rd ∨ cmd = .wr

def bankEffect (cmd : Command) (row : Int) (bank : Tree) : Tree :=
  match lambda Level.bank cmd with
  | some g => g bank row
  | none => bank

theorem bankAt_updateState (hshape : DRAM.WellShaped hmc.spec Level.vault vault t)
    (h : NamesBank hmc vault v) (hcmd : ToBank cmd) {bank' : Tree}
    (hbank' : bankAt (t.updateState hmc.spec cmd (v.data junk)) p = some bank') :
    ∃ bank, bankAt t p = some bank ∧
      bank'.val = (if p = bankOf v then bankEffect cmd (v.data junk Level.row) bank
        else bank).val := by
  have hvault : hmc.spec.lambda Level.vault cmd = none := by
    rcases hcmd with rfl | rfl | rfl | rfl <;> rfl
  have hgroup : hmc.spec.lambda Level.bankGroup cmd = none := by
    rcases hcmd with rfl | rfl | rfl | rfl <;> rfl
  have hscope : Level.vault ≠ hmc.spec.scope cmd ∧ Level.bankGroup ≠ hmc.spec.scope cmd := by
    rcases hcmd with rfl | rfl | rfl | rfl <;> simp [spec, scope]
  -- the recursion is three deep: vault, bank group, bank
  have hroot : t.updateState hmc.spec cmd (v.data junk) =
      t.modifyChild (bankOf v).1 (DRAM.updateStateFrom hmc.spec cmd (v.data junk) 2) := by
    have hlevel := hshape.val_level
    have hdepth : hmc.spec.row - t.val.level = 2 + 1 := by
      rw [hlevel]
      rfl
    rw [DRAM.updateState, hdepth, DRAM.updateStateFrom_descend, hlevel, h.data_bankGroup]
    · rfl
    · rw [hlevel, hvault]
    · rw [hlevel]
      exact hscope.1
    · rw [hlevel, h.data_bankGroup]
      exact h.bankGroup.1
  have hmiddle : ∀ bg, t.child? (bankOf v).1 = some bg →
      DRAM.updateStateFrom hmc.spec cmd (v.data junk) 2 bg =
        bg.modifyChild (bankOf v).2 (DRAM.updateStateFrom hmc.spec cmd (v.data junk) 1) := by
    intro bg hbg
    have hlevel : bg.val.level = Level.bankGroup := (hshape.child hbg).val_level
    rw [DRAM.updateStateFrom_descend, hlevel, h.data_bank]
    · rfl
    · rw [hlevel, hgroup]
    · rw [hlevel]
      exact hscope.2
    · rw [hlevel, h.data_bank]
      exact h.bank.1
  have hleaf : ∀ bg bank, t.child? (bankOf v).1 = some bg → bg.child? (bankOf v).2 = some bank →
      (DRAM.updateStateFrom hmc.spec cmd (v.data junk) 1 bank).val =
        (bankEffect cmd (v.data junk Level.row) bank).val := by
    intro bg bank hbg hbank
    have hlevel := ((hshape.child hbg).child hbank).val_level
    have heffect : DRAM.applyLambda hmc.spec cmd (v.data junk) bank =
        bankEffect cmd (v.data junk Level.row) bank := by
      simp only [DRAM.applyLambda, hlevel]
      rcases hcmd with rfl | rfl | rfl | rfl <;> rfl
    simp only [DRAM.updateStateFrom, heffect]
    split
    · rfl
    · rw [NodeTree.val_modifyChild]
  obtain ⟨bg', hbg', hchild'⟩ := bankAt_eq_some.mp hbank'
  rw [hroot, NodeTree.child?_modifyChild] at hbg'
  by_cases hp₁ : p.1 = (bankOf v).1
  · rw [if_pos hp₁, Option.map_eq_some_iff] at hbg'
    obtain ⟨bg, hbg, rfl⟩ := hbg'
    rw [hp₁] at hbg
    rw [hmiddle bg hbg, NodeTree.child?_modifyChild] at hchild'
    by_cases hp₂ : p.2 = (bankOf v).2
    · rw [if_pos hp₂, Option.map_eq_some_iff] at hchild'
      obtain ⟨bank, hbank, rfl⟩ := hchild'
      have hp : p = bankOf v := Prod.ext hp₁ hp₂
      subst hp
      refine ⟨bank, bankAt_eq_some.mpr ⟨bg, hbg, hbank⟩, ?_⟩
      rw [if_pos rfl]
      exact hleaf bg bank hbg hbank
    · rw [if_neg hp₂] at hchild'
      refine ⟨bank', bankAt_eq_some.mpr ⟨bg, by rw [hp₁]; exact hbg, hchild'⟩, ?_⟩
      rw [if_neg (fun hp => hp₂ (congrArg Prod.snd hp))]
  · rw [if_neg hp₁] at hbg'
    refine ⟨bank', bankAt_eq_some.mpr ⟨bg', hbg', hchild'⟩, ?_⟩
    rw [if_neg (fun hp => hp₁ (congrArg Prod.fst hp))]

theorem exists_bankAt_updateState (hbank : bankAt t p = some bank) :
    ∃ bank', bankAt (t.updateState hmc.spec cmd (v.data junk)) p = some bank' := by
  obtain ⟨bank', hbank', -⟩ :=
    bankAt_of_rel (DRAM.updateState_rel hmc.spec cmd (v.data junk) t) hbank
  exact ⟨bank', hbank'⟩

theorem updateState_vault_state (hshape : DRAM.WellShaped hmc.spec Level.vault vault t)
    (hcmd : ToBank cmd) : (t.updateState hmc.spec cmd (v.data junk)).val.state = t.val.state := by
  have hvault : hmc.spec.lambda Level.vault cmd = none := by
    rcases hcmd with rfl | rfl | rfl | rfl <;> rfl
  have hdepth : hmc.spec.row - t.val.level = 2 + 1 := by
    rw [hshape.val_level]
    rfl
  rw [DRAM.updateState, hdepth]
  simp only [DRAM.updateStateFrom, DRAM.applyLambda, hshape.val_level, hvault]
  split
  · rfl
  · rw [NodeTree.val_modifyChild]

/-- If a command to one bank makes that bank show `o`, the tree shows the state
    in which nothing else has changed. -/
theorem Shows.updateBank (hshows : Shows t s)
    (hshape : DRAM.WellShaped hmc.spec Level.vault vault t) (h : NamesBank hmc vault v)
    (hcmd : ToBank cmd) {o : Option (Int × Nat)}
    (heffect : ∀ bank, BankShows (NodeTree.val bank) ((s (bankOf v)).map Prod.fst) →
      BankShows (bankEffect cmd (v.data junk Level.row) bank).val (o.map Prod.fst)) :
    Shows (t.updateState hmc.spec cmd (v.data junk)) (update s (bankOf v) o) := by
  refine ⟨?_, ?_, ?_⟩
  · rw [updateState_vault_state hshape hcmd]
    exact hshows.powerUp
  · intro p bank' hbank'
    obtain ⟨bank, hbank, hval⟩ := bankAt_updateState hshape h hcmd hbank'
    have hshowsBank := hshows.bank p bank hbank
    rw [hval]
    by_cases hp : p = bankOf v
    · subst hp
      rw [if_pos rfl, update_self]
      exact heffect bank hshowsBank
    · rw [if_neg hp, update_of_ne hp]
      exact hshowsBank
  · intro p hp
    by_cases hpv : p = bankOf v
    · subst hpv
      obtain ⟨bg, bank, hbg, hbank⟩ := h.exists_bank hshape
      exact exists_bankAt_updateState (bankAt_eq_some.mpr ⟨bg, hbg, hbank⟩)
    · rw [update_of_ne hpv] at hp
      obtain ⟨bank, hbank⟩ := hshows.exists_bank p hp
      exact exists_bankAt_updateState hbank

theorem BankShows.openRow {r : Int} (h : BankShows bank.val none) :
    BankShows (openRow bank r).val (some r) := by
  refine ⟨by simp [HMC.openRow], ?_⟩
  intro r'
  simp only [HMC.openRow, NodeTree.val_setVal, Option.some.injEq]
  by_cases hr : r' = r
  · subst hr
    rw [update_self, if_pos rfl]
  · rw [update_of_ne hr, h.rowState, if_neg (Ne.symm hr)]
    rfl

theorem BankShows.closeBank (bank : Tree) : BankShows (closeBank bank).val none := by
  refine ⟨by simp [HMC.closeBank], ?_⟩
  intro r
  simp [HMC.closeBank]

theorem Shows.closeAllBanks (hshows : Shows t s) : Shows (closeAllBanks t) (fun _ => none) := by
  refine ⟨?_, ?_, fun p hp => absurd rfl hp⟩
  · rw [HMC.closeAllBanks, NodeTree.val_mapChildren]
    exact hshows.powerUp
  · intro p bank' hbank'
    obtain ⟨bg', hbg', hchild'⟩ := bankAt_eq_some.mp hbank'
    rw [HMC.closeAllBanks, NodeTree.child?_mapChildren, Option.map_eq_some_iff] at hbg'
    obtain ⟨bg, -, rfl⟩ := hbg'
    rw [NodeTree.child?_mapChildren, Option.map_eq_some_iff] at hchild'
    obtain ⟨bank, -, rfl⟩ := hchild'
    exact BankShows.closeBank bank

section

variable (hshape : DRAM.WellShaped hmc.spec Level.vault vault t)
include hshape

theorem updateState_prea : t.updateState hmc.spec .prea (v.data junk) = closeAllBanks t := by
  have hlambda : hmc.spec.lambda Level.vault .prea = some fun node _ => closeAllBanks node := rfl
  have hlevel : (closeAllBanks t).val.level = Level.vault := by
    rw [closeAllBanks, NodeTree.val_mapChildren, hshape.val_level]
  have hdepth : hmc.spec.row - t.val.level = 2 + 1 := by
    rw [hshape.val_level]
    rfl
  have hscope : hmc.spec.scope .prea = Level.vault := rfl
  rw [DRAM.updateState, hdepth]
  simp only [DRAM.updateStateFrom, DRAM.applyLambda, hshape.val_level, hlambda, hlevel, hscope,
    true_or, if_true]

theorem updateState_ref : t.updateState hmc.spec .ref (v.data junk) = t := by
  have hlambda : hmc.spec.lambda Level.vault .ref = some fun node _ => node := rfl
  have hdepth : hmc.spec.row - t.val.level = 2 + 1 := by
    rw [hshape.val_level]
    rfl
  have hscope : hmc.spec.scope .ref = Level.vault := rfl
  rw [DRAM.updateState, hdepth]
  simp only [DRAM.updateStateFrom, DRAM.applyLambda, hshape.val_level, hlambda, hscope,
    true_or, if_true]

end

end Update

/-! ## Commands as steps of the row-buffer machine -/

def toCmd (cmd : Command) (v : AddrVec) : Option (RowBuffer.Cmd BankId Int) :=
  match cmd with
  | .act => some (.act (bankOf v) (rowOf v))
  | .rd | .wr => some (.access (bankOf v) (rowOf v))
  | .pre => some (.pre (bankOf v))
  | .prea => some .preAll
  | .ref => some .refresh
  | _ => none

/-- The addresses a command comes with: `PREA` and `REF` go to the vault, `PRE`
    to a bank, and the others to a row of a bank. -/
def Addresses (hmc : HMC) (vault : Int) (cmd : Command) (v : AddrVec) : Prop :=
  match cmd with
  | .prea | .ref => v.take 1 = [vault]
  | .pre => NamesBank hmc vault v
  | _ => InRange hmc vault v

theorem Shows.updateState {vault junk : Int} {cmd : Command} {c : RowBuffer.Cmd BankId Int}
    (hshows : Shows t s) (hshape : DRAM.WellShaped hmc.spec Level.vault vault t)
    (haddr : Addresses hmc vault cmd v) (hc : toCmd cmd v = some c) (hlegal : RowBuffer.Legal s c) :
    Shows (t.updateState hmc.spec cmd (v.data junk)) (RowBuffer.step s c) := by
  cases cmd <;> simp only [toCmd, Option.some.injEq, reduceCtorEq] at hc
  case act =>
    subst hc
    have hrange : InRange hmc vault v := haddr
    have hclosed : s (bankOf v) = none := hlegal
    have hrow : v.data junk Level.row = rowOf v :=
      data_eq_getD (by rw [hrange.length]; decide) junk
    refine hshows.updateBank hshape hrange.namesBank (Or.inl rfl) ?_
    intro bank hbank
    rw [hclosed] at hbank
    rw [hrow]
    exact hbank.openRow
  case pre =>
    subst hc
    have hnames : NamesBank hmc vault v := haddr
    refine hshows.updateBank hshape hnames (Or.inr (Or.inl rfl)) ?_
    intro bank _
    exact BankShows.closeBank bank
  case prea =>
    subst hc
    rw [updateState_prea hshape]
    exact hshows.closeAllBanks
  case rd =>
    subst hc
    have hrange : InRange hmc vault v := haddr
    refine hshows.updateBank hshape hrange.namesBank (Or.inr (Or.inr (Or.inl rfl))) ?_
    intro bank hbank
    rw [Option.map_map]
    exact hbank
  case wr =>
    subst hc
    have hrange : InRange hmc vault v := haddr
    refine hshows.updateBank hshape hrange.namesBank (Or.inr (Or.inr (Or.inr rfl))) ?_
    intro bank hbank
    rw [Option.map_map]
    exact hbank
  case ref =>
    subst hc
    rw [updateState_ref hshape]
    exact hshows

end HMC

end Ramulator
