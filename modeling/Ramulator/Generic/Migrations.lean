/-
  Ramulator.Generic.Migrations

  `Controller<TLDRAM>::tick` checks the command for a read and issues another one.

  The request at the head of the read queue is ready as a read; before its command
  goes out it becomes a migration, and `issue_cmd` asserts that the command for the
  migration is ready.  This rests on the timing tables: whatever a command makes
  `MIG`, `ACTM` or `PREM` wait for, it makes `RD`, `ACT` and `ACTF`, or `PRE` and
  `PREF` wait for too (`Covers`).  So in each node the former are possible no later
  than the latter (`DRAM.NoLater`), however the node was reached.
-/

import Ramulator.Generic.ChannelSteps

namespace Ramulator

open Outcome List

/-! ## A command that is possible no later than another -/

section NoLater

variable {C S : Type} [DecidableEq C] {spec : Spec C S} {a b : C} {t t' : DRAM C S}

/-- Whatever has to wait before `b` has to wait before `a` at least as long. -/
def Spec.Dominates (spec : Spec C S) (a b : C) : Prop :=
  spec.scope b = spec.scope a ∧
    ∀ level p, ∀ e ∈ spec.timing level p, e.cmd = b → ∃ e' ∈ spec.timing level p,
      e'.cmd = a ∧ e'.sibling = e.sibling ∧ e'.dist = e.dist ∧ e.val ≤ e'.val

namespace Node

variable {n : Node C S} {p : C} {clk : Int}

theorem siblingTiming_noLater (hdom : spec.Dominates a b) (h : n.next b ≤ n.next a) :
    (n.siblingTiming spec p clk).next b ≤ (n.siblingTiming spec p clk).next a := by
  have ha := siblingFold_next_le.mp (Int.le_refl ((n.siblingTiming spec p clk).next a))
  refine siblingFold_next_le.mpr ⟨Int.le_trans h ha.1, ?_⟩
  intro e he hsibling hcmd
  obtain ⟨e', he', hcmd', hsibling', -, hval⟩ := hdom.2 n.level p e he hcmd
  have hwaits := ha.2 e' he' (hsibling'.trans hsibling) hcmd'
  omega

theorem targetTiming_noLater (hdom : spec.Dominates a b) (h : n.next b ≤ n.next a) :
    (n.targetTiming spec p clk).next b ≤ (n.targetTiming spec p clk).next a := by
  have hnext : (n.recordHistory p clk).next = n.next := by
    unfold recordHistory
    split <;> rfl
  have ha := targetFold_next_le.mp (Int.le_refl ((n.targetTiming spec p clk).next a))
  refine targetFold_next_le.mpr ⟨Int.le_trans (by rw [hnext]; exact h) ha.1, ?_⟩
  intro e he hsibling hcmd hpast
  obtain ⟨e', he', hcmd', hsibling', hdist, hval⟩ := hdom.2 n.level p e he hcmd
  have hwaits := ha.2 e' he' (hsibling'.trans hsibling) hcmd' (by rw [hdist]; exact hpast)
  rw [hdist] at hwaits
  omega

end Node

namespace DRAM

def NoLater (a b : C) : DRAM C S → Prop
  | .node n _ f => n.next b ≤ n.next a ∧ ∀ i, NoLater a b (f i)

omit [DecidableEq C] in
theorem NoLater.refl (a : C) (t : DRAM C S) : NoLater a a t := by
  induction t with
  | node n k f ih => exact ⟨Int.le_refl _, ih⟩

omit [DecidableEq C] in
theorem NoLater.newFrom (spec : Spec C S) (a b : C) (depth level : Nat) (id : Int) :
    NoLater a b (newFrom spec depth level id) := by
  induction depth generalizing level id with
  | zero => exact ⟨Int.le_refl _, fun i => i.elim0⟩
  | succ depth ih => exact ⟨Int.le_refl _, fun i => ih (level + 1) i.val⟩

omit [DecidableEq C] in
theorem NoLater.of_rel (h : NoLater a b t) (hrel : NodeTree.Rel Node.SameTiming t t') :
    NoLater a b t' := by
  induction hrel using NodeTree.Rel.induction with
  | node n n' k f f' hrel _ ih =>
    have hsame : n.SameTiming n' := hrel.val
    exact ⟨by rw [hsame.next]; exact h.1, fun i => ih i (h.2 i)⟩

theorem NoLater.updateTiming (hdom : spec.Dominates a b) (h : NoLater a b t) (p : C)
    (addr : Nat → Int) (clk : Int) : NoLater a b (updateTiming spec p addr clk t) := by
  induction t with
  | node n k f ih =>
    rw [DRAM.updateTiming]
    split
    · exact ⟨Node.siblingTiming_noLater hdom h.1, h.2⟩
    · exact ⟨Node.targetTiming_noLater hdom h.1, fun i => ih i (h.2 i)⟩

variable {addr : Nat → Int}

theorem NoLater.update (hdom : spec.Dominates a b) (h : NoLater a b t) {p : C} {clk : Int}
    (hupdate : t.update spec p addr clk = .ok t') : NoLater a b t' := by
  obtain ⟨t₁, hrel, rfl⟩ := update_timing hupdate
  exact NoLater.updateTiming hdom (h.of_rel hrel) p addr clk

omit [DecidableEq C] in
theorem NoLater.check (h : NoLater a b t) (hscope : spec.scope b = spec.scope a) {clk clk' : Int}
    (hclk : 0 ≤ clk) (hle : clk ≤ clk') (ha : t.check spec a addr clk = true) :
    t.check spec b addr clk' = true := by
  induction t with
  | node n k f ih =>
    have hnext := h.1
    rw [DRAM.check] at ha ⊢
    split at ha
    · cases ha
    · next hwaits =>
      rw [if_neg (by omega), hscope]
      dsimp only at ha ⊢
      split at ha
      · next hstop => rw [if_pos hstop]
      · next hstop =>
        rw [if_neg hstop]
        split at ha
        · next hchild =>
          rw [dif_pos hchild]
          exact ih _ (h.2 _) ha
        · next hchild => rw [dif_neg hchild]

omit [DecidableEq C] in
/-- What goes first for `a` and for `b`, in trees that differ in statistics only. -/
theorem decode_pair {R : C → C → Prop} (hrel : NodeTree.Rel Node.SameButStats t t') (hcmd : R a b)
    (hrule : ∀ u u' : DRAM C S, NodeTree.Rel Node.SameButStats u u' → ∀ id,
      Option.Rel R ((spec.prereq u.val.level a).bind fun p => p u a id)
        ((spec.prereq u.val.level b).bind fun p => p u' b id)) :
    R (t.decode spec a addr) (t'.decode spec b addr) := by
  induction hrel using NodeTree.Rel.induction with
  | node n n' k f f' hrel _ ih =>
    have hlevel : n'.level = n.level := hrel.val.sameState.level
    have hrules : Option.Rel R
        ((spec.prereq n.level a).bind fun p => p (.node n k f) a (addr (n.level + 1)))
        ((spec.prereq n.level b).bind fun p => p (.node n' k f') b (addr (n.level + 1))) :=
      hrule _ _ hrel _
    simp only [decode, hlevel]
    generalize (spec.prereq n.level a).bind _ = x at hrules ⊢
    generalize (spec.prereq n.level b).bind _ = y at hrules ⊢
    cases hrules with
    | some hxy => exact hxy
    | none =>
      dsimp only
      by_cases hneg : addr (n.level + 1) < 0
      · simp only [if_pos hneg]
        exact hcmd
      · simp only [if_neg hneg]
        by_cases hlt : (addr (n.level + 1)).toNat < k
        · simp only [dif_pos hlt]
          exact ih _
        · simp only [dif_neg hlt]
          exact hcmd

end DRAM

end NoLater

namespace TLDRAM

open Generic

/-! ## The tables of TLDRAM -/

/-- The commands whose place `cmd` takes when a read becomes a migration. -/
def replaced : Command → List Command
  | .mig => [.rd]
  | .actm => [.act, .actf]
  | .prem => [.pre, .pref]
  | _ => []

def Covers (l : List (TimingEntry Command)) : Prop :=
  ∀ e ∈ l, ∀ a ∈ replaced e.cmd, ∃ e' ∈ l,
    e'.cmd = a ∧ e'.sibling = e.sibling ∧ e'.dist = e.dist ∧ e.val ≤ e'.val

theorem covers_timing (s : SpeedEntry) (level : Nat) (p : Command) : Covers (timing s level p) := by
  have hnil : Covers [] := by simp [Covers]
  have hchannel : Covers (channelTiming s p) := by
    unfold channelTiming
    split <;> simp [Covers, replaced, entry]
  have hopening : ∀ nRAS, Covers (rankOpening s nRAS) := by
    simp [Covers, replaced, rankOpening, entry, window]
  have hclosing : ∀ nRP, Covers (rankClosing nRP) := by
    simp [Covers, replaced, rankClosing, entry]
  have hrank : Covers (rankTiming s p) := by
    unfold rankTiming
    split <;> first
      | exact hopening _
      | exact hclosing _
      | simp [Covers, replaced, entry, sibling]
  have hbank : Covers (bankTiming s p) := by
    unfold bankTiming
    split <;> simp [Covers, replaced, bankOpening, bankClosing, entry]
  unfold timing
  split
  · exact hchannel
  · exact hrank
  · exact hbank
  · exact hnil

theorem dominates (ratio : Int) (org : OrgEntry) (s : SpeedEntry) {a b : Command}
    (h : a ∈ replaced b) : (spec ratio org s).Dominates a b := by
  refine ⟨?_, fun level p e he hcmd => covers_timing s level p e he a (hcmd ▸ h)⟩
  show scope b = scope a
  unfold replaced at h
  split at h
  · rw [mem_singleton.mp h]
    rfl
  · rcases mem_pair.mp h with rfl | rfl <;> rfl
  · rcases mem_pair.mp h with rfl | rfl <;> rfl
  · cases h

/-! ## What goes first for a read and for the migration it becomes -/

/-- `a` goes first for a read and `b` for the migration it becomes. -/
def Retyped (a b : Command) : Prop := a ∈ replaced b ∨ (a = b ∧ (b = .pdx ∨ b = .srx))

section Rules

variable {u u' : Tree}

theorem anyOpen_of_rel (hrel : NodeTree.Rel Node.SameButStats u u') (depth : Nat) :
    anyOpen depth u' = anyOpen depth u := by
  induction depth generalizing u u' with
  | zero => simp only [anyOpen, hrel.val.sameState.state]
  | succ depth ih =>
    rw [Bool.eq_iff_iff]
    simp only [anyOpen, NodeTree.anyChild_eq_true]
    constructor
    · rintro ⟨i, c', hc', hopen⟩
      obtain ⟨c, hc, hrel'⟩ := hrel.child_inv hc'
      exact ⟨i, c, hc, ih hrel' ▸ hopen⟩
    · rintro ⟨i, c, hc, hopen⟩
      obtain ⟨c', hc', hrel'⟩ := hrel.child hc
      exact ⟨i, c', hc', (ih hrel').trans hopen⟩

theorem prereq_of_rel (ratio : Int) (hrel : NodeTree.Rel Node.SameButStats u u') (level : Nat)
    (cmd : Command) (id : Int) : (prereq ratio level cmd).bind (fun p => p u' cmd id) =
      (prereq ratio level cmd).bind (fun p => p u cmd id) := by
  have hstate : u'.val.state = u.val.state := hrel.val.sameState.state
  have hrows : u'.val.rowState = u.val.rowState := hrel.val.sameState.rowState
  unfold prereq
  split
  · simp only [Option.bind_some, Generic.prereqRankRd, hstate]
  · simp only [Option.bind_some, prereqRankRef, anyOpen_of_rel hrel]
  · unfold rankPrereq
    split <;> simp only [Option.bind_some, Option.bind_none, Generic.prereqRankRd,
      Generic.prereqRankRef, prereqRankPde, prereqRankSre, hstate, anyOpen_of_rel hrel]
  · simp only [Option.bind_some, prereqBankMig, hstate, hrows]
  · unfold forRdWr
    split <;> simp only [Option.bind_some, Option.bind_none, prereqBankRd, hstate, hrows]
  · rfl

theorem prereq_same (ratio : Int) (hrel : NodeTree.Rel Node.SameButStats u u') (level : Nat)
    (cmd : Command) (id : Int) : Option.Rel Eq ((prereq ratio level cmd).bind fun p => p u cmd id)
      ((prereq ratio level cmd).bind fun p => p u' cmd id) := by
  rw [prereq_of_rel ratio hrel]
  cases (prereq ratio level cmd).bind _ with
  | none => exact .none
  | some x => exact .some rfl

theorem prereq_retyped (ratio : Int) (hrel : NodeTree.Rel Node.SameButStats u u') (level : Nat)
    (id : Int) : Option.Rel Retyped ((prereq ratio level .rd).bind fun p => p u .rd id)
      ((prereq ratio level .mig).bind fun p => p u' .mig id) := by
  rw [prereq_of_rel ratio hrel]
  match level with
  | 0 => exact .none
  | Level.rank =>
    show Option.Rel Retyped (Generic.prereqRankRd u .rd id) (Generic.prereqRankRd u .mig id)
    unfold Generic.prereqRankRd
    split
    · exact .some (Or.inr ⟨rfl, Or.inl rfl⟩)
    · exact .some (Or.inr ⟨rfl, Or.inl rfl⟩)
    · exact .some (Or.inr ⟨rfl, Or.inr rfl⟩)
    · exact .none
  | Level.bank =>
    show Option.Rel Retyped (prereqBankRd ratio u .rd id) (prereqBankMig u .mig id)
    unfold prereqBankRd prereqBankMig
    cases u.val.state with
    | closed =>
      dsimp only
      split
      · exact .some (Or.inl (by decide))
      · exact .some (Or.inl (by decide))
    | opened =>
      dsimp only
      split
      · exact .some (Or.inl (by decide))
      · split
        · exact .some (Or.inl (by decide))
        · exact .some (Or.inl (by decide))
    | _ => exact .none
  | level + 3 => exact .none

end Rules

end TLDRAM

namespace Generic

namespace ChannelController

open TLDRAM (replaced Retyped)

variable {cfg : ChannelConfig} {ratio : Int} {org : OrgEntry} {s : TLDRAM.SpeedEntry}
  {c c' : ChannelController} {junk : Int} {req : Request}

/-! ## One cycle -/

/-- The invariant: what a migration asks for never has to wait longer. -/
structure Even (c : ChannelController) : Prop where
  noLater : ∀ b, ∀ a ∈ replaced b, DRAM.NoLater a b c.channel
  clk : 0 ≤ c.clk

theorem Even.quiet (h : Even c) (hquiet : Quiet c c') : Even c' where
  noLater b a ha := (h.noLater b a ha).of_rel
    (hquiet.channel.mono fun _ _ hsame => hsame.sameTiming)
  clk := Int.le_trans h.clk hquiet.clk

theorem Even.new (cfg : ChannelConfig) (id : Int) : Even (ChannelController.new cfg id) :=
  ⟨fun b a _ => DRAM.NoLater.newFrom cfg.device.spec a b _ _ _, Int.le_refl 0⟩

section

variable (hcfg : cfg.device = (Chip.tldram ratio org s).device)
include hcfg

theorem getFirstCmd_retyped (hquiet : Quiet c c') (htype : req.type = .read) :
    Retyped (c.getFirstCmd cfg junk req)
      (c'.getFirstCmd cfg junk { req with type := .extension }) := by
  have hcolumn : Retyped .rd .mig := Or.inl (by decide)
  unfold getFirstCmd
  rw [hcfg, htype]
  dsimp only
  split
  · exact hcolumn
  · exact DRAM.decode_pair hquiet.channel hcolumn fun u u' hrel id =>
      TLDRAM.prereq_retyped ratio hrel u.val.level id

/-- The command for any request does not depend on statistics. -/
theorem getFirstCmd_quiet (hquiet : Quiet c c') :
    c.getFirstCmd cfg junk req = c'.getFirstCmd cfg junk req := by
  unfold getFirstCmd
  rw [hcfg]
  dsimp only
  split
  · rfl
  · exact DRAM.decode_pair hquiet.channel rfl fun u u' hrel id =>
      TLDRAM.prereq_same ratio hrel u.val.level _ id

/-- A request that is ready is ready as what it is served as, also when it was
    counted in the meantime. -/
theorem Even.ready (h : Even c) (hquiet : Quiet c c') {req' : Request}
    (hserved : ServedAs cfg.device req req') (hready : c.isReady cfg junk req = true) :
    c'.isReady cfg junk req' = true := by
  have hspec : cfg.device.spec = TLDRAM.spec ratio org s := by rw [hcfg]; rfl
  have haddr : ∀ t cmd v, cfg.device.getAddrVec t cmd v = v := by
    rw [hcfg]
    exact fun _ _ _ => rfl
  have hrel := hquiet.channel.mono fun _ _ hsame => hsame.sameTiming
  -- the command that is issued is ready if it is no later than the one that was checked
  have hcheck : ∀ b, DRAM.NoLater (c.getFirstCmd cfg junk req) b c.channel →
      cfg.device.spec.scope b = cfg.device.spec.scope (c.getFirstCmd cfg junk req) →
        c'.isReadyCmd cfg junk b req.addrVec = true := by
    intro b hlater hscope
    simp only [isReady, isReadyCmd, haddr] at hready ⊢
    rw [DRAM.check_of_rel hrel]
    exact hlater.check hscope h.clk hquiet.clk hready
  simp only [isReady, haddr, hserved.addrVec]
  by_cases hread : req.type = .read
  · have htype : req'.type = .extension := by
      rw [hserved.type, hread, hcfg]
      rfl
    have hcmd : c'.getFirstCmd cfg junk req' =
        c'.getFirstCmd cfg junk { req with type := .extension } := by
      simp only [getFirstCmd, htype, hserved.addrVec]
    have hretyped : Retyped (c.getFirstCmd cfg junk req)
        (c'.getFirstCmd cfg junk { req with type := .extension }) :=
      getFirstCmd_retyped hcfg hquiet hread
    rw [hcmd]
    rcases hretyped with hreplaced | ⟨heq, -⟩
    · refine hcheck _ (h.noLater _ _ hreplaced) ?_
      rw [hspec]
      exact (TLDRAM.dominates ratio org s hreplaced).1
    · rw [← heq]
      exact hcheck _ (DRAM.NoLater.refl _ _) rfl
  · have htype : req'.type = req.type := by
      rw [hserved.type, Device.servedType, if_neg]
      simp [hread]
    have hcmd : c'.getFirstCmd cfg junk req' = c.getFirstCmd cfg junk req := by
      rw [getFirstCmd_quiet hcfg hquiet]
      simp only [getFirstCmd, htype, hserved.addrVec]
    rw [hcmd]
    exact hcheck _ (DRAM.NoLater.refl _ _) rfl

theorem Even.issueCmd (h : Even c) {cmd : Command} {v : AddrVec}
    (hready : c.isReadyCmd cfg junk cmd v = true) :
    Ends (c.issueCmd cfg junk cmd v) Even (fun e => e ≠ .notReady) := by
  have hspec : cfg.device.spec = TLDRAM.spec ratio org s := by rw [hcfg]; rfl
  have hdom : ∀ b, ∀ a ∈ replaced b, cfg.device.spec.Dominates a b := by
    rw [hspec]
    exact fun b a ha => TLDRAM.dominates ratio org s ha
  refine Ends.ite (fun _ => ?_) (fun hnot => absurd hready hnot)
  have hupdate : Ends (c.updateDram cfg junk cmd v) Even (fun e => e ≠ .notReady) := by
    refine Ends.ite (fun _ => Ends.ite (fun _ => ?_) fun _ => nofun) fun _ => ?_
    · exact ⟨fun b a ha => (h.noLater b a ha).updateTiming (hdom b a ha) _ _ _, h.clk⟩
    · have hchannel : Ends (c.channel.update cfg.device.spec cmd (v.data junk) c.clk)
          (fun channel => ∀ b, ∀ a ∈ replaced b, DRAM.NoLater a b channel)
          (fun e => e ≠ .notReady) := by
        refine Ends.intro (fun channel hok b a ha => ?_) (fun e he => ?_)
        · exact (h.noLater b a ha).update (hdom b a ha) hok
        · simp only [DRAM.update] at he
          split at he
          · cases he
          · cases he
            nofun
      refine Ends.bind hchannel fun channel hlater => ?_
      refine Ends.bind ((RowTable.update_ends _ _ _ _ _ _).imp (fun _ _ => trivial) ?_)
        fun rowtable _ => ⟨hlater, h.clk⟩
      rintro e he rfl
      cases he
  exact Ends.bind hupdate fun c' h' => ⟨h'.noLater, h'.clk⟩

end

theorem firstCommand_quiet (cfg : ChannelConfig) (c : ChannelController) (junk : Int)
    (type : RequestType) (i : Nat) (req : Request) : Ends (c.firstCommand cfg junk type i req)
      (fun out => Quiet c out.2 ∧ out.1.addrVec = req.addrVec ∧ out.1.type = req.type)
      (fun e => e.isServing = true) := by
  refine Ends.ite (fun _ => ?_) (fun _ => ⟨Quiet.refl c, rfl, rfl⟩)
  have hset := Quiet.setQueue c type ((c.getQueue type).set i { req with isFirstCommand := false })
  refine Ends.bind (Q := fun c' => Quiet c c') ?_ fun c' h' => ⟨h', rfl, rfl⟩
  refine Ends.ite (fun _ => ?_) (fun _ => hset)
  exact (updateServingRequests_moves (d := cfg.device) (W := fun _ => True) cfg _ junk 1 _).weaken
    fun c' h' => hset.trans h'.quiet

theorem migrate_quiet (cfg : ChannelConfig) (c : ChannelController) (type : RequestType) (i : Nat)
    (req : Request) : Quiet c (c.migrate cfg type i req).2 ∧
      ServedAs cfg.device req (c.migrate cfg type i req).1 := by
  unfold migrate
  split
  · next hmigrates => exact ⟨Quiet.setQueue .., rfl, (if_pos hmigrates).symm⟩
  · next hmigrates => exact ⟨Quiet.refl c, rfl, (if_neg hmigrates).symm⟩

section

variable (hcfg : cfg.device = (Chip.tldram ratio org s).device)
include hcfg

theorem Even.serveHead (h : Even c) (hready : c.isReady cfg junk req = true) (type : RequestType)
    (i : Nat) : Ends (c.serveHead cfg junk type i req) Even (fun e => e ≠ .notReady) := by
  have hserving : ∀ e : Abort, e.isServing = true → e ≠ .notReady := by
    rintro e he rfl
    cases he
  unfold ChannelController.serveHead
  refine Ends.bind ((firstCommand_quiet cfg c junk type i req).weaken_abort hserving) ?_
  rintro ⟨req₁, c₁⟩ ⟨hquiet₁, haddr₁, htype₁⟩
  obtain ⟨hquiet₂, haddr₂, htype₂⟩ := migrate_quiet cfg c₁ type i req₁
  dsimp only at hquiet₁ haddr₁ htype₁ ⊢
  generalize c₁.migrate cfg type i req₁ = out at hquiet₂ haddr₂ htype₂ ⊢
  obtain ⟨req₂, c₂⟩ := out
  dsimp only at hquiet₂ haddr₂ htype₂ ⊢
  have hserved : ServedAs cfg.device req req₂ :=
    ⟨haddr₂.trans haddr₁, by rw [htype₂, htype₁]⟩
  have hquiet := hquiet₁.trans hquiet₂
  refine Ends.bind ((h.quiet hquiet).issueCmd hcfg (h.ready hcfg hquiet hserved hready)) ?_
  intro c₃ h₃
  refine Ends.ite (fun _ => ?_) (fun _ => h₃)
  exact (finishRequest_moves (d := cfg.device) (W := fun _ => True) cfg c₃ junk _ i req₂).imp
    (fun c₄ h₄ => h₃.quiet h₄.quiet) hserving

theorem Even.noHead (h : Even c) : Ends (c.noHead cfg junk) Even (fun e => e ≠ .notReady) := by
  refine Ends.ite (fun _ => h) fun _ => Ends.ite (fun _ => h) fun hvictim => ?_
  exact h.issueCmd hcfg (RowPolicyType.getVictim_ready hvictim)

theorem Even.schedule (h : Even c) : Ends (c.schedule cfg junk) Even (fun e => e ≠ .notReady) := by
  cases hhead : c.getHead cfg junk c.selectQueue with
  | mk head rowtable =>
    have hasked : Even { c with rowtable } := ⟨h.noLater, h.clk⟩
    simp only [ChannelController.schedule, hhead]
    cases head with
    | none => exact hasked.noHead hcfg
    | some head =>
      exact Ends.ite (fun hready => hasked.serveHead hcfg hready _ _) (fun _ => hasked.noHead hcfg)

end

theorem prepare_quiet (cfg : ChannelConfig) (c : ChannelController) (junk : Int)
    (targets : List RefreshTarget) :
    Ends (c.prepare cfg junk targets) (Quiet c) (fun e => e ≠ .notReady) := by
  have htargets : ∀ (targets : List RefreshTarget) (c : ChannelController),
      Ends (targets.foldlM (refreshTarget cfg) c) (Quiet c) (fun e => e ≠ .notReady) := by
    intro targets c
    refine Ends.foldlM targets (Quiet.refl c) fun c₁ target _ h₁ => ?_
    unfold refreshTarget
    cases henqueue : c₁.enqueue (refreshRequest cfg c₁.channel.val.id target) with
    | none => exact nofun
    | some c₂ => exact h₁.trans (enqueue_quiet henqueue)
  have hclock : ∀ (c : ChannelController) (refreshClock : RefreshClock),
      Quiet c { c with refreshClock } := fun c _ => .of_eq (Int.le_refl _) rfl rfl rfl
  have htime : Quiet c { c with clk := c.clk + 1 } :=
    .of_eq (Int.le_add_of_nonneg_right (by decide)) rfl rfl rfl
  have hserve := serveCompleted_moves (d := cfg.device) (W := fun _ => True) cfg
    { c with clk := c.clk + 1 } junk
  refine Ends.bind (hserve.weaken_abort ?_) fun ⟨_, c₁⟩ h₁ => ?_
  · rintro e he rfl
    cases he
  have hquiet₁ := htime.trans h₁.quiet
  have href : Ends (c₁.tickRef cfg targets) (Quiet c) (fun e => e ≠ .notReady) := by
    refine Ends.ite (fun _ => Ends.ite (fun _ => ?_) fun _ => ?_) fun _ => ?_
    · refine Ends.bind (htargets _ _) fun c₂ h₂ => ?_
      exact hquiet₁.trans ((hclock c₁ _).trans (h₂.trans (hclock c₂ _)))
    · exact hquiet₁.trans (hclock c₁ _)
    · exact (htargets targets _).weaken fun c₂ h₂ => hquiet₁.trans ((hclock c₁ _).trans h₂)
  refine Ends.bind href fun c₂ h₂ => ?_
  exact h₂.trans (updateWriteMode_moves (d := cfg.device) (W := fun _ => True) c₂).quiet

section

variable (hcfg : cfg.device = (Chip.tldram ratio org s).device)
include hcfg

theorem Even.tick (h : Even c) (targets : List RefreshTarget) :
    Ends (c.tick cfg junk targets) Even (fun e => e ≠ .notReady) :=
  Ends.bind (prepare_quiet cfg c junk targets) fun _ hquiet => (h.quiet hquiet).schedule hcfg

theorem Even.run (id : Int) (inputs : List ChannelInput) :
    Ends (ChannelController.run cfg id inputs) Even (fun e => e ≠ .notReady) := by
  refine Ends.foldlM inputs (Even.new cfg id) fun c input _ h => ?_
  cases input with
  | enqueue req =>
    simp only [ChannelController.apply]
    cases henqueue : c.enqueue req with
    | none => exact h
    | some c' => exact h.quiet (enqueue_quiet henqueue)
  | tick junk targets => exact h.tick hcfg targets

end

/-! ## Whole runs -/

/-- Now, and where the next cycle asks its scheduler, a ready read stays ready as a migration. -/
structure MigrationsReady (cfg : ChannelConfig) (c : ChannelController) : Prop where
  retyped : ∀ c₁, (c₁ = c ∨ ∃ junk targets, c.prepare cfg junk targets = .ok c₁) →
    ∀ junk type, ∀ req ∈ c₁.getQueue type, req.type = .read → c₁.isReady cfg junk req = true →
      Retyped (c₁.getFirstCmd cfg junk req)
          (c₁.getFirstCmd cfg junk { req with type := .extension }) ∧
        c₁.isReady cfg junk { req with type := .extension } = true
  issued : ∀ junk targets, c.tick cfg junk targets ≠ .error .notReady

/-- A read that is ready stays ready when it becomes a migration, in every run. -/
theorem run_migrations_ready (hcfg : cfg.device = (Chip.tldram ratio org s).device) {id : Int}
    {inputs : List ChannelInput} (hrun : ChannelController.run cfg id inputs = .ok c) :
    MigrationsReady cfg c := by
  have h : Even c := (Even.run hcfg id inputs).result hrun
  constructor
  · intro c₁ hc₁ junk type req _ htype hready
    have h₁ : Even c₁ := by
      rcases hc₁ with rfl | ⟨junk', targets, hprepare⟩
      · exact h
      · exact h.quiet ((prepare_quiet cfg c junk' targets).result hprepare)
    have hserved : ServedAs cfg.device req { req with type := .extension } := by
      refine ⟨rfl, ?_⟩
      rw [htype, hcfg]
      rfl
    exact ⟨getFirstCmd_retyped hcfg (Quiet.refl c₁) htype,
      h₁.ready hcfg (Quiet.refl c₁) hserved hready⟩
  · intro junk targets hnot
    exact (h.tick hcfg targets).abort hnot rfl

/-- A read is served as a migration. -/
theorem run_migrations_ready_oneRead :
    ∃ c, ChannelController.run tldramChip.config 0 (readOf 0 [0, 0, 0, 1, 0] :: idle 8) = .ok c ∧
      c.cmdTrace.map (fun i => (i.clk, i.cmd)) = [(7, .mig), (1, .actm)] ∧
      MigrationsReady tldramChip.config c := by
  have hrun : Ends (ChannelController.run tldramChip.config 0 (readOf 0 [0, 0, 0, 1, 0] :: idle 8))
      (fun c => c.cmdTrace.map (fun i => (i.clk, i.cmd)) = [(7, .mig), (1, .actm)])
      (fun _ => False) := by decide +kernel
  obtain ⟨c, hc, htrace⟩ := hrun.exists_ok
  have hdevice : tldramChip.config.device =
      (Chip.tldram 16 TLDRAM.org2GbX8 TLDRAM.speed1600K).device := rfl
  exact ⟨c, hc, htrace, run_migrations_ready hdevice hc⟩

end ChannelController

end Generic

end Ramulator
