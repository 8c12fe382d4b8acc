/-
  Ramulator.Generic.WriteRecovery

  Write recovery in TLDRAM (TLDRAM.cpp, Controller.cpp).

  A bank may be closed `nCWL + nBL + nWR` cycles after a write to it.  Every
  command that closes a bank has an entry for that in the tables but `PREM`, the
  precharge for a migration.  A read becomes a migration in the cycle in which
  it is served for the first time, and in that cycle the controller has asked
  whether the precharge for a read is ready, so `PREM` keeps the distance too.
  It is not kept when a migration that has begun has to close a row again.
-/

import Ramulator.Dram.Rows
import Ramulator.Generic.ChannelTiming

namespace Ramulator

open Outcome Generic Generic.ChannelController List

namespace TLDRAM

def SpeedEntry.writeRecovery (s : SpeedEntry) : Int := s.nCWL + s.nBL + s.nWR

/-- A command that closes bank `bank` of rank `rank`, or every bank of the rank. -/
structure ClosesBank (rank bank : Nat) (i : IssuedCmd) : Prop where
  closing : isClosing i.cmd = true
  atRank : i.addrVec.getD Level.rank 0 = rank
  atBank : scope i.cmd = Level.bank → i.addrVec.getD Level.bank 0 = bank

structure WritesBank (rank bank : Nat) (i : IssuedCmd) : Prop where
  wr : i.cmd = .wr
  atRank : i.addrVec.getD Level.rank 0 = rank
  atBank : i.addrVec.getD Level.bank 0 = bank

def AfterRecovery (org : OrgEntry) (s : SpeedEntry) (i : IssuedCmd) (older : List IssuedCmd) :
    Prop :=
  ∀ rank < org.counts Level.rank, ∀ bank < org.counts Level.bank, ClosesBank rank bank i →
    ∀ j ∈ older, WritesBank rank bank j → j.clk + s.writeRecovery ≤ i.clk

/-- No bank is closed within the write recovery of a write to it; the trace is
    newest first. -/
def Recovers (org : OrgEntry) (s : SpeedEntry) (trace : List IssuedCmd) : Prop :=
  ∀ newer i older, trace = newer ++ i :: older → AfterRecovery org s i older

theorem recovers_cons {org : OrgEntry} {s : SpeedEntry} {i : IssuedCmd} {trace : List IssuedCmd}
    (hi : AfterRecovery org s i trace) (h : Recovers org s trace) :
    Recovers org s (i :: trace) := by
  intro newer j older hsplit
  cases newer with
  | nil =>
    cases hsplit
    exact hi
  | cons k newer =>
    cases hsplit
    exact h newer j older rfl

/-! ## When PREM is issued -/

variable {cmd : Command}

section Decode

variable {ratio : Int} {org : OrgEntry} {s : SpeedEntry} {id : Int} {t t' : Tree}
  {addr : Nat → Int}

theorem rule_ne_prem (hcmd : cmd ≠ .mig) {level : Nat} {p : Tree → Command → Int → Option Command}
    (hp : prereq ratio level cmd = some p) (n : Tree) (row : Int) (hself : cmd ≠ .prem) :
    p n cmd row ≠ some .prem := by
  intro hprem
  unfold prereq at hp
  split at hp
  · exact hcmd rfl
  · cases hp
    simp only [prereqRankRef] at hprem
    split at hprem
    · split at hprem <;> cases hprem
    · cases hprem
  · simp only [rankPrereq] at hp
    split at hp <;> cases hp
    all_goals
      simp only [prereqRankRd, Generic.prereqRankRef, prereqRankPde, prereqRankSre] at hprem
      split at hprem <;> cases hprem
  · exact hcmd rfl
  · simp only [forRdWr] at hp
    split at hp <;> cases hp
    all_goals
      simp only [prereqBankRd] at hprem
      split at hprem
      · split at hprem <;> cases hprem
      · split at hprem
        · cases hprem
        · split at hprem <;> cases hprem
      · cases hprem
  · cases hp

theorem decode_ne_prem (hcmd : cmd ≠ .mig) (hself : cmd ≠ .prem) :
    t.decode (spec ratio org s) cmd addr ≠ .prem := by
  intro hprem
  rcases DRAM.decode_along (spec ratio org s) cmd addr t with heq | ⟨k, n, -, hrule⟩
  · rw [heq] at hprem
    exact hself hprem
  · rw [hprem] at hrule
    obtain ⟨p, hp, hval⟩ := Option.bind_eq_some_iff.mp hrule
    exact rule_ne_prem hcmd hp n _ hself hval

/-- The bank that `PREM` goes to is open on another row, and its rank is awake. -/
structure PremBank (t : Tree) (addr : Nat → Int) (rank bank : Tree) : Prop where
  toRank : t.towards addr = some rank
  awake : ∀ cmd row, Generic.prereqRankRd rank cmd row = none
  toBank : rank.towards addr = some bank
  opened : bank.val.state = .opened
  row : (bank.val.rowState (addr Level.row)).isSome = false

theorem exists_premBank (h : DRAM.WellShaped (spec ratio org s) 0 id t)
    (hprem : t.decode (spec ratio org s) .mig addr = .prem) :
    ∃ rank bank, PremBank t addr rank bank := by
  have hroot : t.ruleAt (spec ratio org s) .mig addr = none := by
    rw [DRAM.ruleAt, h.val_level]
    rfl
  rw [DRAM.decode_of_no_rule hroot] at hprem
  cases hrank : t.towards addr with
  | none =>
    rw [hrank] at hprem
    cases hprem
  | some rank =>
    rw [hrank] at hprem
    have hprem : rank.decode (spec ratio org s) .mig addr = .prem := hprem
    obtain ⟨rankId, hrankShape⟩ := h.towards hrank
    have hrankRule : rank.ruleAt (spec ratio org s) .mig addr =
        Generic.prereqRankRd rank .mig (addr 2) := by
      rw [DRAM.ruleAt, hrankShape.val_level]
      rfl
    have hawake : Generic.prereqRankRd rank .mig (addr 2) = none := by
      cases hrule : Generic.prereqRankRd rank .mig (addr 2) with
      | none => rfl
      | some c =>
        rw [DRAM.decode_of_rule (hrankRule.trans hrule)] at hprem
        subst hprem
        simp only [Generic.prereqRankRd] at hrule
        split at hrule <;> cases hrule
    rw [DRAM.decode_of_no_rule (hrankRule.trans hawake)] at hprem
    cases hbank : rank.towards addr with
    | none =>
      rw [hbank] at hprem
      cases hprem
    | some bank =>
      rw [hbank] at hprem
      have hprem : bank.decode (spec ratio org s) .mig addr = .prem := hprem
      obtain ⟨bankId, hbankShape⟩ := hrankShape.towards hbank
      have hbankRule : bank.ruleAt (spec ratio org s) .mig addr =
          prereqBankMig bank .mig (addr Level.row) := by
        rw [DRAM.ruleAt, hbankShape.val_level]
        rfl
      suffices hopen : bank.val.state = .opened ∧
          (bank.val.rowState (addr Level.row)).isSome = false from
        ⟨rank, bank, hrank, fun _ _ => hawake, hbank, hopen.1, hopen.2⟩
      cases hrule : prereqBankMig bank .mig (addr Level.row) with
      | none =>
        -- below the banks there is nothing to ask
        rw [DRAM.decode_of_no_rule (hbankRule.trans hrule)] at hprem
        have hnone : bank.towards addr = none := by
          cases hchild : bank.towards addr with
          | none => rfl
          | some row =>
            have hlt := NodeTree.lt_arity_of_child? (DRAM.towards_eq_some hchild)
            have harity : bank.arity = 0 := hbankShape.arity_eq
            omega
        rw [hnone] at hprem
        cases hprem
      | some c =>
        rw [DRAM.decode_of_rule (hbankRule.trans hrule)] at hprem
        subst hprem
        simp only [prereqBankMig] at hrule
        split at hrule
        · cases hrule
        · next hopened =>
          split at hrule
          · cases hrule
          · next hrow => exact ⟨hopened, Bool.eq_false_of_not_eq_true hrow⟩
        · cases hrule

theorem PremBank.of_rel (hrel : NodeTree.Rel Node.SameButStats t t') {rank bank : Tree}
    (h : PremBank t' addr rank bank) : ∃ rank bank, PremBank t addr rank bank := by
  have hlevel : ∀ n n' : Node Command State, n.SameButStats n' → n'.level = n.level :=
    fun _ _ hs => hs.sameState.level
  obtain ⟨rank₀, hrank, hrelRank⟩ := DRAM.towards_of_rel hlevel hrel h.toRank
  obtain ⟨bank₀, hbank, hrelBank⟩ := DRAM.towards_of_rel hlevel hrelRank h.toBank
  refine ⟨rank₀, bank₀, hrank, ?_, hbank, ?_, ?_⟩
  · intro cmd row
    have hawake := h.awake cmd row
    simp only [Generic.prereqRankRd, hrelRank.val.sameState.state] at hawake ⊢
    exact hawake
  · rw [← hrelBank.val.sameState.state]
    exact h.opened
  · rw [← hrelBank.val.sameState.rowState]
    exact h.row

theorem PremBank.decode (hshape : DRAM.WellShaped (spec ratio org s) 0 id t) {rank bank : Tree}
    (h : PremBank t addr rank bank) : t.decode (spec ratio org s) .mig addr = .prem ∧
      (t.decode (spec ratio org s) .rd addr = .pre ∨
        t.decode (spec ratio org s) .rd addr = .pref) := by
  obtain ⟨rankId, hrankShape⟩ := hshape.towards h.toRank
  obtain ⟨bankId, hbankShape⟩ := hrankShape.towards h.toBank
  -- the command goes down to the bank
  have hdown : ∀ cmd, (spec ratio org s).prereq 0 cmd = none →
      (spec ratio org s).prereq Level.rank cmd = some Generic.prereqRankRd →
        t.decode (spec ratio org s) cmd addr = bank.decode (spec ratio org s) cmd addr := by
    intro cmd hroot hrank
    have hrootRule : t.ruleAt (spec ratio org s) cmd addr = none := by
      rw [DRAM.ruleAt, hshape.val_level, hroot]
      rfl
    have hrankRule : rank.ruleAt (spec ratio org s) cmd addr = none := by
      rw [DRAM.ruleAt, hrankShape.val_level, hrank]
      exact h.awake cmd (addr 2)
    rw [DRAM.decode_of_no_rule hrootRule, h.toRank]
    show rank.decode (spec ratio org s) cmd addr = _
    rw [DRAM.decode_of_no_rule hrankRule, h.toBank]
    rfl
  have hrow : ¬ (bank.val.rowState (addr 3)).isSome = true := by
    rw [show (bank.val.rowState (addr 3)).isSome = false from h.row]
    decide
  constructor
  · rw [hdown .mig rfl rfl]
    refine DRAM.decode_of_rule ?_
    rw [DRAM.ruleAt, hbankShape.val_level]
    show prereqBankMig bank .mig (addr 3) = some .prem
    simp only [prereqBankMig, h.opened, if_neg hrow]
  · rw [hdown .rd rfl rfl]
    have hrule : bank.ruleAt (spec ratio org s) .rd addr =
        if (addr 3).tmod ratio ≠ 0 then some .pre else some .pref := by
      rw [DRAM.ruleAt, hbankShape.val_level]
      show prereqBankRd ratio bank .rd (addr 3) = _
      simp only [prereqBankRd, h.opened, if_neg hrow]
    by_cases hratio : (addr 3).tmod ratio ≠ 0
    · exact Or.inl (DRAM.decode_of_rule (hrule.trans (if_pos hratio)))
    · exact Or.inr (DRAM.decode_of_rule (hrule.trans (if_neg hratio)))

end Decode

/-! ## Along a run -/

/-- A request asks for `PREM` in the cycle it becomes a migration or not at all. -/
def MigrationKeepsRow (cfg : ChannelConfig) (junk : Int) (c : ChannelController) : Prop :=
  ∀ head ∈ (c.getHead cfg junk c.selectQueue).1, c.isReady cfg junk head.2 = true →
    head.2.type = .extension → c.getFirstCmd cfg junk head.2 ≠ .prem

instance (cfg : ChannelConfig) (junk : Int) : DecidablePred (MigrationKeepsRow cfg junk) :=
  fun c => inferInstanceAs (Decidable (∀ head ∈ (c.getHead cfg junk c.selectQueue).1, _))

section Run

variable {cfg : ChannelConfig} {ratio : Int} {org : OrgEntry} {s : SpeedEntry} {id junk : Int}
  {c c₀ : ChannelController}

section

variable (hcfg : cfg.device = (Chip.tldram ratio org s).device) {req : Request} {v : AddrVec}
include hcfg

theorem addressed : cfg.device.Addressed := by
  rw [hcfg]
  exact ⟨show 0 < 3 by decide, show 3 ≤ 5 by decide, show 4 ≤ 5 by decide, fun _ _ _ _ hv => hv⟩

theorem recovery_of_check (h : Timed cfg id c) {t : Int}
    (hcheck : c.channel.check cfg.device.spec cmd (v.data junk) t = true)
    (hv : Names cfg.device id v) {rank bank : Nat} (hrank : rank < org.counts Level.rank)
    (hbank : bank < org.counts Level.bank) (hcloses : ClosesBank rank bank ⟨t, cmd, v⟩)
    (hprem : cmd ≠ .prem) {j : IssuedCmd} (hj : j ∈ c.cmdTrace) (hwrites : WritesBank rank bank j) :
    j.clk + s.writeRecovery ≤ max t (-1) := by
  have hspec : cfg.device.spec = spec ratio org s := by rw [hcfg]; rfl
  have hatRank : v.getD 1 0 = rank := hcloses.atRank
  have hrank : 0 ≤ v.getD 1 0 ∧ v.getD 1 0 < org.counts 1 := by
    rw [hatRank]
    exact ⟨Int.natCast_nonneg _, Int.ofNat_lt.mpr hrank⟩
  have hsameRank : j.addrVec.getD 1 0 = v.getD 1 0 := hwrites.atRank.trans hatRank.symm
  -- the entry of the bank, or the entry of the rank
  have hofBank : scope cmd = 2 → entry cmd s.writeRecovery ∈ bankTiming s .wr →
      j.clk + s.writeRecovery ≤ max t (-1) := by
    intro hscope hentry
    have hatBank : v.getD 2 0 = bank := hcloses.atBank hscope
    have hbank : 0 ≤ v.getD 2 0 ∧ v.getD 2 0 < org.counts 2 := by
      rw [hatBank]
      exact ⟨Int.natCast_nonneg _, Int.ofNat_lt.mpr hbank⟩
    have hsameBank : j.addrVec.getD 2 0 = v.getD 2 0 := hwrites.atBank.trans hatBank.symm
    refine h.spaced_one (k := 2) hcheck ?_ hv ?_ ?_ hj hwrites.wr ?_
    · rw [hspec]
      exact show 2 < 3 by decide
    · intro l hl
      rw [hspec]
      refine ⟨show l ≠ scope cmd by omega, ?_⟩
      obtain rfl | rfl : l = 0 ∨ l = 1 := by omega
      · exact hrank
      · exact hbank
    · rw [hspec]
      exact hentry
    · intro l hpos hle
      obtain rfl | rfl : l = 1 ∨ l = 2 := by omega
      · exact hsameRank
      · exact hsameBank
  have hofRank : scope cmd = 1 → entry cmd s.writeRecovery ∈ rankTiming s .wr →
      j.clk + s.writeRecovery ≤ max t (-1) := by
    intro hscope hentry
    refine h.spaced_one (k := 1) hcheck ?_ hv ?_ ?_ hj hwrites.wr ?_
    · rw [hspec]
      exact show 1 < 3 by decide
    · intro l hl
      rw [hspec]
      obtain rfl : l = 0 := by omega
      exact ⟨show 0 ≠ scope cmd by omega, hrank⟩
    · rw [hspec]
      exact hentry
    · intro l hpos hle
      obtain rfl : l = 1 := by omega
      exact hsameRank
  have hclosing : isClosing cmd = true := hcloses.closing
  cases cmd with
  | pre => exact hofBank rfl mem_cons_self
  | pref => exact hofBank rfl (mem_cons_of_mem _ mem_cons_self)
  | prea => exact hofRank rfl (by simp [rankTiming, SpeedEntry.writeRecovery])
  | preaf => exact hofRank rfl (by simp [rankTiming, SpeedEntry.writeRecovery])
  | pream => exact hofRank rfl (by simp [rankTiming, SpeedEntry.writeRecovery])
  | prem => exact absurd rfl hprem
  | _ => cases hclosing

theorem served_mig (hcmd : c.getFirstCmd cfg junk req = .prem) :
    req.type = .extension ∧ cfg.noDramLatency = false ∧
      c.channel.decode (spec ratio org s) .mig (req.addrVec.data junk) = .prem := by
  have htranslate : ∀ type, translate type ≠ .prem := by
    intro type
    cases type <;> decide
  have hfirst : (if cfg.noDramLatency then translate req.type
      else c.channel.decode (spec ratio org s) (translate req.type) (req.addrVec.data junk)) =
        .prem := by
    rw [getFirstCmd, hcfg] at hcmd
    exact hcmd
  split at hfirst
  · exact absurd hfirst (htranslate _)
  · next hlatency =>
    have hmig : translate req.type = .mig := by
      by_contra hne
      exact decode_ne_prem hne (htranslate _) hfirst
    rw [hmig] at hfirst
    refine ⟨?_, Bool.eq_false_of_not_eq_true hlatency, hfirst⟩
    cases htype : req.type <;> rw [htype] at hmig <;> first | rfl | cases hmig

theorem prem_recovery (h : Timed cfg id c) (hkeeps : MigrationKeepsRow cfg junk c₀)
    (hquiet : Quiet (c₀.asked cfg junk) c) {i : Nat} {table : RowTable}
    (hhead : c₀.getHead cfg junk c₀.selectQueue = (some (i, req), table))
    (hready : c₀.isReady cfg junk req = true)
    (hcmd : c.getFirstCmd cfg junk { req with type := cfg.device.servedType req.type } = .prem)
    (hv : Names cfg.device id req.addrVec) {rank bank : Nat} (hrank : rank < org.counts Level.rank)
    (hbank : bank < org.counts Level.bank)
    (hcloses : ClosesBank rank bank ⟨c.clk, .prem, req.addrVec⟩) {j : IssuedCmd}
    (hj : j ∈ c.cmdTrace) (hwrites : WritesBank rank bank j) :
    j.clk + s.writeRecovery ≤ max c₀.clk (-1) := by
  obtain ⟨hserved, hlatency, hdecode⟩ := served_mig hcfg hcmd
  have hspec : cfg.device.spec = spec ratio org s := by rw [hcfg]; rfl
  have hshape := h.shape
  rw [hspec] at hshape
  have hrel : NodeTree.Rel Node.SameButStats c₀.channel c.channel := hquiet.channel
  have hshape₀ : DRAM.WellShaped (spec ratio org s) 0 id c₀.channel :=
    hshape.of_rel (fun _ _ hs => ⟨hs.sameState.level, hs.sameState.id⟩)
      (hrel.symm fun _ _ hs => hs.symm)
  obtain ⟨rankNode, bankNode, hprem⟩ := exists_premBank hshape hdecode
  obtain ⟨rankNode₀, bankNode₀, hprem₀⟩ := hprem.of_rel hrel
  obtain ⟨hmig, hrd⟩ := hprem₀.decode hshape₀
  have hfirst : c₀.getFirstCmd cfg junk req =
      c₀.channel.decode (spec ratio org s) (translate req.type) (req.addrVec.data junk) := by
    rw [getFirstCmd, hlatency, hcfg]
    rfl
  have hread : req.type = .read := by
    by_contra hne
    have hext : req.type = .extension := by
      rw [← hserved]
      exact (if_neg (by simp [hne])).symm
    rw [hext] at hfirst
    exact hkeeps (i, req) (by rw [hhead]; rfl) hready hext (hfirst.trans hmig)
  rw [hread] at hfirst
  have hcheck : ∀ cmd, c₀.channel.decode (spec ratio org s) .rd (req.addrVec.data junk) = cmd →
      c.channel.check cfg.device.spec cmd (req.addrVec.data junk) c₀.clk = true := by
    intro cmd hcmd
    rw [isReady, hfirst.trans hcmd] at hready
    have hsame : cfg.device.getAddrVec c₀.channel cmd req.addrVec = req.addrVec := by
      rw [hcfg]
      rfl
    rw [hsame] at hready
    rw [DRAM.check_of_rel (hrel.mono fun _ _ hs => hs.sameTiming)]
    exact hready
  rcases hrd with hpre | hpref
  · exact recovery_of_check hcfg h (hcheck _ hpre) hv hrank hbank
      ⟨rfl, hcloses.atRank, fun _ => hcloses.atBank rfl⟩ (by decide) hj hwrites
  · exact recovery_of_check hcfg h (hcheck _ hpref) hv hrank hbank
      ⟨rfl, hcloses.atRank, fun _ => hcloses.atBank rfl⟩ (by decide) hj hwrites

theorem chosen_recovery (h : Timed cfg id c) (hkeeps : MigrationKeepsRow cfg junk c₀)
    (hquiet : Quiet (c₀.asked cfg junk) c) (hchosen : Chosen cfg junk c₀ c cmd v)
    (hready : c.isReadyCmd cfg junk cmd v = true) (hv : Names cfg.device id v) :
    AfterRecovery org s ⟨c.clk, cmd, v⟩ c.cmdTrace := by
  intro rank hrank bank hbank hcloses j hj hwrites
  show j.clk + s.writeRecovery ≤ c.clk
  have hclk := h.clk
  by_cases hprem : cmd = .prem
  · subst hprem
    cases hchosen with
    | request hhead hfound hcmd =>
      have hgoes := prem_recovery hcfg h hkeeps hquiet hhead hfound hcmd.symm
      have hsame : ∀ t cmd v, cfg.device.getAddrVec t cmd v = v := by
        rw [hcfg]
        exact fun _ _ _ => rfl
      rw [hsame] at hv hcloses
      have := hgoes hv hrank hbank hcloses hj hwrites
      have hle : c₀.clk ≤ c.clk := hquiet.clk
      omega
  · have := recovery_of_check hcfg h hready hv hrank hbank hcloses hprem hj hwrites
    omega

end

/-- The tables of the commands issued so far, and the write recovery between them. -/
structure Recovered (cfg : ChannelConfig) (org : OrgEntry) (s : SpeedEntry) (id : Int)
    (c : ChannelController) : Prop extends Timed cfg id c where
  recovers : Recovers org s c.cmdTrace

theorem recovered_rule (hcfg : cfg.device = (Chip.tldram ratio org s).device) (id : Int) :
    ChannelRule cfg (ForChannel cfg id) (fun _ => True) (MigrationKeepsRow cfg)
      (Recovered cfg org s id) (fun _ => True) where
  addressOnly := ofChannel_addressOnly cfg.device id
  refreshes _ target h _ := refreshRequest_forChannel (addressed hcfg) h.root target
  quiet c c' h hquiet := by
    refine ⟨h.toTimed.quiet hquiet, ?_⟩
    rw [hquiet.cmdTrace]
    exact h.recovers
  asked junk c hA hqueues h :=
    ⟨(timed_rule (addressed hcfg) (MigrationKeepsRow cfg)).asked junk c hA hqueues h.toTimed,
      h.recovers⟩
  issue junk c₀ c cmd v hA hqueues h hquiet hchosen hready := by
    have hv := hchosen.names (addressed hcfg) h.toTraced hqueues
    have hafter := chosen_recovery hcfg h.toTimed hA hquiet hchosen hready hv
    refine ((h.toTimed.record (addressed hcfg) hv).and
      (updateDram_frame cfg c junk cmd v)).yields ?_
    rintro c' ⟨htimed, channel, rowtable, rfl, -, -⟩
    exact ⟨htimed, recovers_cons hafter h.recovers⟩
  abort _ _ := trivial

end Run

/-- In every run whose migrations, once begun, do not have to close a row again,
    no bank is closed within the write recovery of a write to it. -/
theorem run_recovers {ratio : Int} {org : OrgEntry} {s : SpeedEntry} {cfg : ChannelConfig}
    (hcfg : cfg.device = (Chip.tldram ratio org s).device) {id : Int} {inputs : List ChannelInput}
    (hok : ∀ input ∈ inputs, input.Ok cfg id)
    (hkeeps : Meets cfg (MigrationKeepsRow cfg) inputs (ChannelController.new cfg id))
    {c : ChannelController} (hrun : ChannelController.run cfg id inputs = .ok c) :
    Recovers org s c.cmdTrace := by
  have hnew : Recovered cfg org s id (ChannelController.new cfg id) :=
    ⟨Timed.new cfg id, fun newer i older hsplit => by cases newer <;> cases hsplit⟩
  have hends := (recovered_rule hcfg id).run hnew (fun input hinput => (hok input hinput).with)
    hkeeps
  exact (hends.result hrun).1.recovers

def twoRows : List ChannelInput :=
  writeOf 0 [0, 0, 0, 1, 0] :: writeOf 1 [0, 0, 0, 2, 0] :: idle 45

/-- The second row is opened after the write recovery. -/
theorem run_recovers_twoRows : ∃ c, ChannelController.run tldramChip.config 0 twoRows = .ok c ∧
      c.cmdTrace.map (fun i => (i.clk, i.cmd)) = [(36, .pre), (12, .wr), (1, .act)] ∧
      Recovers org2GbX8 speed1600K c.cmdTrace := by
  have hrun : Ends (ChannelController.run tldramChip.config 0 twoRows)
      (fun c => c.cmdTrace.map (fun i => (i.clk, i.cmd)) = [(36, .pre), (12, .wr), (1, .act)])
      (fun _ => False) := by decide +kernel
  obtain ⟨c, hc, htrace⟩ := hrun.exists_ok
  have hdevice : tldramChip.config.device = (Chip.tldram 16 org2GbX8 speed1600K).device := rfl
  exact ⟨c, hc, htrace, run_recovers hdevice (by decide +kernel) (by decide +kernel) hc⟩

/-- Row 1 is opened for a migration, writes open row 2, and the migration closes that again. -/
def interruptedMigration : List ChannelInput :=
  writeOf 1 [0, 0, 1, 5, 0] :: idle 12 ++ readOf 0 [0, 0, 0, 1, 0] :: idle 1 ++
    replicate 18 (writeOf 1 [0, 0, 1, 5, 0]) ++ writeOf 2 [0, 0, 0, 2, 0] ::
    replicate 6 (writeOf 1 [0, 0, 1, 5, 0]) ++ idle 76

/-- `PREM` is issued one cycle after a write to the bank. -/
theorem prem_cuts_recovery : (∀ input ∈ interruptedMigration, input.Ok tldramChip.config 0) ∧
    ∃ c, ChannelController.run tldramChip.config 0 interruptedMigration = .ok c ∧
      c.cmdTrace.take 2 = [⟨89, .prem, [0, 0, 0, 1, 0]⟩, ⟨88, .wr, [0, 0, 0, 2, 0]⟩] ∧
      ¬ Recovers org2GbX8 speed1600K c.cmdTrace := by
  refine ⟨by decide +kernel, ?_⟩
  have hrun : Ends (ChannelController.run tldramChip.config 0 interruptedMigration)
      (fun c => c.cmdTrace.take 2 =
        [⟨89, .prem, [0, 0, 0, 1, 0]⟩, ⟨88, .wr, [0, 0, 0, 2, 0]⟩]) (fun _ => False) := by
    decide +kernel
  obtain ⟨c, hc, htrace⟩ := hrun.exists_ok
  refine ⟨c, hc, htrace, fun hrecovers => ?_⟩
  have hsplit := (take_append_drop 2 c.cmdTrace).symm
  rw [htrace] at hsplit
  have hafter := hrecovers [] _ _ hsplit 0 (by decide) 0 (by decide) ⟨rfl, rfl, fun _ => rfl⟩
    _ mem_cons_self ⟨rfl, rfl, rfl⟩
  exact absurd hafter (by decide)

end TLDRAM

end Ramulator
