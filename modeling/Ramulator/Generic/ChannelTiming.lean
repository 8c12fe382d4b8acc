/-
  Ramulator.Generic.ChannelTiming

  The timing tables of a channel, along a run.

  `Traced` is about the command trace alone: it is in order of time, and every
  command in it names a way from the channel down to the rows.  `Timed` adds that
  the tree holds the timing tables of the commands in the trace (`DRAM.Exact`).
  A command that `check` lets pass then keeps the distance of every entry of the
  tables to the commands before it (`Timed.spaced`).
-/

import Ramulator.Generic.ChannelSteps

namespace Ramulator

open Outcome List

namespace Generic

structure Names (d : Device) (id : Int) (v : AddrVec) : Prop where
  length : d.spec.row ≤ v.length
  channel : v.head? = some id

section Names

variable {d : Device} {id : Int} {v : AddrVec}

theorem OfChannel.names (h : OfChannel d id v) (hrow : d.spec.row ≤ d.levels) : Names d id v :=
  ⟨by rw [h.length]; exact hrow, h.channel⟩

theorem Names.take (h : Names d id v) (hrow : 0 < d.spec.row) : Names d id (v.take d.spec.row) := by
  refine ⟨?_, ?_⟩
  · rw [length_take, min_eq_left h.length]
  · rw [head?_take, if_neg hrow.ne']
    exact h.channel

/-- Down to the rows, nothing is read behind the end of the vector. -/
theorem Names.data_eq (h : Names d id v) (junk : Int) {l : Nat} (hl : l < d.spec.row) :
    v.data junk l = v.getD l 0 := by
  have hlt : l < v.length := Nat.lt_of_lt_of_le hl h.length
  rw [AddrVec.data, getD_eq_getElem?_getD, getD_eq_getElem?_getD,
    getElem?_eq_getElem hlt, Option.getD_some, Option.getD_some]

theorem Names.getD_zero (h : Names d id v) : v.getD 0 0 = id := by
  cases v with
  | nil => cases h.channel
  | cons x v => exact Option.some.inj h.channel

end Names

structure Device.Addressed (d : Device) : Prop where
  row_pos : 0 < d.spec.row
  row_le : d.spec.row ≤ d.levels
  four_le : 4 ≤ d.levels
  getAddrVec : ∀ t cmd id v, OfChannel d id v → OfChannel d id (d.getAddrVec t cmd v)

namespace ChannelController

/-! ## The command trace -/

/-- The trace is in order of time, and trace and row table name parts of the
    channel. -/
structure Traced (cfg : ChannelConfig) (id : Int) (c : ChannelController) : Prop where
  root : c.channel.val.id = id
  sorted : c.cmdTrace.Pairwise (fun i j => j.clk ≤ i.clk)
  clks : ∀ i ∈ c.cmdTrace, 0 ≤ i.clk ∧ i.clk ≤ c.clk
  clk : 0 ≤ c.clk
  names : ∀ i ∈ c.cmdTrace, Names cfg.device id i.addrVec
  keys : c.rowtable.Keys (Names cfg.device id)

variable {cfg : ChannelConfig} {id junk t : Int} {c c' c₀ : ChannelController} {v : AddrVec}
  {i : IssuedCmd} {p : Command} {k : Nat}

theorem Traced.new (cfg : ChannelConfig) (id : Int) :
    Traced cfg id (ChannelController.new cfg id) where
  root := (DRAM.new_wellShaped cfg.device.spec 0 id).val_id
  sorted := List.Pairwise.nil
  clks i hi := by cases hi
  clk := le_refl 0
  names i hi := by cases hi
  keys kv hkv := by cases hkv

theorem Traced.quiet (h : Traced cfg id c) (hquiet : Quiet c c') : Traced cfg id c' where
  root := by
    rw [hquiet.channel.val.sameState.id]
    exact h.root
  sorted := by
    rw [hquiet.cmdTrace]
    exact h.sorted
  clks i hi := by
    rw [hquiet.cmdTrace] at hi
    have := h.clks i hi
    have := hquiet.clk
    omega
  clk := le_trans h.clk hquiet.clk
  names i hi := by
    rw [hquiet.cmdTrace] at hi
    exact h.names i hi
  keys := by
    rw [hquiet.rowtable]
    exact h.keys

def ForChannel (cfg : ChannelConfig) (id : Int) (req : Request) : Prop :=
  OfChannel cfg.device id req.addrVec

theorem Traced.asked (hd : cfg.device.Addressed) (h : Traced cfg id c)
    (hqueues : QueuesWith cfg.device (ForChannel cfg id) c.toController) :
    Traced cfg id (c.asked cfg junk) := by
  refine { h with keys := ?_ }
  refine Scheduler.getHead_keys h.keys (fun req hreq => ?_) rfl
  exact ((hqueues _ req hreq).2.names hd.row_le).take hd.row_pos

variable {cmd : Command}

theorem Chosen.names (hd : cfg.device.Addressed) (h : Traced cfg id c)
    (hqueues : QueuesWith cfg.device (ForChannel cfg id) c₀.toController)
    (hchosen : Chosen cfg junk c₀ c cmd v) : Names cfg.device id v := by
  cases hchosen with
  | request hhead _ _ =>
    have hreq := hqueues _ _ (mem_of_getElem? (Scheduler.getHead_some hhead))
    exact (hd.getAddrVec _ _ _ _ hreq.2).names hd.row_le
  | victim _ hmem => exact h.keys _ hmem

theorem updateDram_frame (cfg : ChannelConfig) (c : ChannelController) (junk : Int)
    (cmd : Command) (v : AddrVec) : Yields (c.updateDram cfg junk cmd v)
      (fun c' => ∃ channel rowtable, c' = { c with channel, rowtable } ∧
        channel.val.id = c.channel.val.id ∧ (rowtable = c.rowtable ∨
          c.rowtable.update cfg.device.spec cmd v c.clk junk = .ok rowtable)) := by
  refine Ends.ite (fun _ => Ends.ite (fun _ => ?_) fun _ => trivial) fun _ => ?_
  · exact ⟨_, c.rowtable, rfl, (DRAM.updateTiming_rel ..).val.id, Or.inl rfl⟩
  · refine Ends.bind (Ends.ran _) fun channel hupdate => ?_
    refine Ends.bind (Ends.ran _) fun rowtable htable => ⟨channel, rowtable, rfl, ?_, Or.inr htable⟩
    rw [DRAM.update_ok hupdate, (DRAM.updateTiming_rel ..).val.id,
      (DRAM.updateState_rel ..).val.id, NodeTree.val_setVal]

section

variable (hd : cfg.device.Addressed)
include hd

theorem Traced.record (h : Traced cfg id c) (hv : Names cfg.device id v) :
    Yields (c.updateDram cfg junk cmd v) (fun c' => Traced cfg id (c'.record cmd v)) := by
  refine (updateDram_frame cfg c junk cmd v).weaken ?_
  rintro _ ⟨channel, rowtable, rfl, hroot, htable⟩
  refine ⟨hroot.trans h.root, ?_, ?_, h.clk, ?_, ?_⟩
  · exact pairwise_cons.mpr ⟨fun i hi => (h.clks i hi).2, h.sorted⟩
  · intro i hi
    rcases mem_cons.mp hi with rfl | hi
    · exact ⟨h.clk, le_refl _⟩
    · exact h.clks i hi
  · intro i hi
    rcases mem_cons.mp hi with rfl | hi
    · exact hv
    · exact h.names i hi
  · rcases htable with hsame | hupdate
    · show rowtable.Keys _
      rw [hsame]
      exact h.keys
    · exact (h.keys.update cfg.device.spec cmd (hv.take hd.row_pos) c.clk junk).result hupdate

theorem refreshRequest_forChannel (hroot : c.channel.val.id = id) (target : RefreshTarget) :
    ForChannel cfg id (refreshRequest cfg c.channel.val.id target) := by
  refine ⟨?_, ?_⟩
  · have := hd.four_le
    simp only [refreshRequest, length_append, length_cons, length_nil, length_replicate]
    omega
  · rw [hroot]
    rfl

end

/-! ## The timing tables -/

/-- A command of the trace, as a call of `update`. -/
def asIssue (i : IssuedCmd) : Issue Command := ⟨i.cmd, i.addrVec.data 0, i.clk⟩

def issues (c : ChannelController) : List (Issue Command) := c.cmdTrace.map asIssue

/-- The tree has the timing tables of the commands issued so far. -/
structure Timed (cfg : ChannelConfig) (id : Int) (c : ChannelController) : Prop
    extends Traced cfg id c where
  shape : DRAM.WellShaped cfg.device.spec 0 id c.channel
  tables : DRAM.Exact cfg.device.spec c.issues c.channel

theorem Timed.new (cfg : ChannelConfig) (id : Int) :
    Timed cfg id (ChannelController.new cfg id) where
  toTraced := Traced.new cfg id
  shape := DRAM.new_wellShaped _ _ _
  tables := DRAM.Exact.newFrom _ _ _ _

theorem Timed.quiet (h : Timed cfg id c) (hquiet : Quiet c c') : Timed cfg id c' where
  toTraced := h.toTraced.quiet hquiet
  shape := Quiet.shape hquiet h.shape
  tables := by
    rw [issues, hquiet.cmdTrace]
    exact h.tables.of_rel (hquiet.channel.mono fun _ _ hs => hs.sameTiming)

theorem Timed.issues_sorted (h : Timed cfg id c) : c.issues.Pairwise (fun u v => v.clk ≤ u.clk) :=
  h.sorted.map _ fun _ _ hle => hle

theorem Timed.issues_clk (h : Timed cfg id c) : ∀ u ∈ c.issues, 0 ≤ u.clk ∧ u.clk ≤ c.clk := by
  intro u hu
  obtain ⟨i, hi, rfl⟩ := mem_map.mp hu
  exact h.clks i hi

theorem Timed.record (hd : cfg.device.Addressed) (h : Timed cfg id c) (hv : Names cfg.device id v) :
    Yields (c.updateDram cfg junk cmd v) (fun c' => Timed cfg id (c'.record cmd v)) := by
  have hclk : ∀ u ∈ (⟨cmd, v.data junk, c.clk⟩ :: c.issues : List (Issue Command)), 0 ≤ u.clk := by
    intro u hu
    rcases mem_cons.mp hu with rfl | hu
    · exact h.clk
    · exact (h.issues_clk u hu).1
  have hsorted : (⟨cmd, v.data junk, c.clk⟩ :: c.issues : List (Issue Command)).Pairwise
      (fun u v => v.clk ≤ u.clk) :=
    pairwise_cons.mpr ⟨fun u hu => (h.issues_clk u hu).2, h.issues_sorted⟩
  have haddr : ∀ l < cfg.device.spec.row, v.data 0 l = v.data junk l := by
    intro l hl
    rw [hv.data_eq 0 hl, hv.data_eq junk hl]
  have htables : Yields (c.updateDram cfg junk cmd v)
      (fun c' => c'.cmdTrace = c.cmdTrace ∧ c'.clk = c.clk ∧
        DRAM.WellShaped cfg.device.spec 0 id c'.channel ∧
        DRAM.Exact cfg.device.spec (⟨cmd, v.data 0, c.clk⟩ :: c.issues) c'.channel) := by
    refine Ends.ite (fun _ => Ends.ite (fun _ => ?_) fun _ => trivial) fun _ => ?_
    · have hshape : DRAM.WellShaped cfg.device.spec 0 id
          (c.channel.updateTiming cfg.device.spec cmd (v.data junk) c.clk) :=
        h.shape.of_rel (fun _ _ hs => ⟨hs.level, hs.id⟩) (DRAM.updateTiming_rel ..)
      refine ⟨rfl, rfl, hshape, ?_⟩
      exact (h.tables.updateTiming (u := ⟨cmd, v.data junk, c.clk⟩) hclk hsorted).congr_head
        hshape hd.row_pos rfl rfl haddr
    · refine Ends.bind (Ends.ran _) fun channel hupdate => ?_
      refine Ends.bind (Ends.ran _) fun rowtable _ => ?_
      have hshape := h.shape.update hupdate
      refine ⟨rfl, rfl, hshape, ?_⟩
      exact (h.tables.update (u := ⟨cmd, v.data junk, c.clk⟩) hclk hsorted hupdate).congr_head
        hshape hd.row_pos rfl rfl haddr
  refine ((h.toTraced.record hd hv).and htables).yields ?_
  rintro c' ⟨htraced, htrace, hclk', hshape, hexact⟩
  refine ⟨htraced, hshape, ?_⟩
  rw [issues, ChannelController.record, map_cons, htrace, hclk']
  exact hexact

theorem timed_rule (hd : cfg.device.Addressed) (A : Int → ChannelController → Prop) :
    ChannelRule cfg (ForChannel cfg id) (fun _ => True) A (Timed cfg id) (fun _ => True) where
  addressOnly := ofChannel_addressOnly cfg.device id
  refreshes _ target h _ := refreshRequest_forChannel hd h.root target
  quiet _ _ h hquiet := h.quiet hquiet
  asked _ _ _ hqueues h := { h with toTraced := h.toTraced.asked hd hqueues }
  issue _ _ _ _ _ _ hqueues h _ hchosen _ := h.record hd (hchosen.names hd h.toTraced hqueues)
  abort _ _ := trivial

/-! ## Distances -/

/-- The address names a node at level `k`, and the command goes down to it. -/
def GoesTo (cfg : ChannelConfig) (cmd : Command) (v : AddrVec) (k : Nat) : Prop :=
  ∀ l < k, l ≠ cfg.device.spec.scope cmd ∧ 0 ≤ v.getD (l + 1) 0 ∧
    v.getD (l + 1) 0 < cfg.device.spec.count (l + 1)

def SameNode (k : Nat) (v w : AddrVec) : Prop := ∀ l, 0 < l → l ≤ k → v.getD l 0 = w.getD l 0

/-- A command that may be issued keeps the distance of every entry of the tables at level `k`. -/
theorem Timed.spaced (h : Timed cfg id c)
    (hcheck : c.channel.check cfg.device.spec cmd (v.data junk) t = true)
    (hk : k < cfg.device.spec.row) (hv : Names cfg.device id v) (hto : GoesTo cfg cmd v k)
    {e : TimingEntry Command} (he : e ∈ cfg.device.spec.timing k p) (hcmd : e.cmd = cmd)
    (hsibling : e.sibling = false) {is : List IssuedCmd} (hsub : is.Sublist c.cmdTrace)
    (hall : ∀ i ∈ is, i.cmd = p ∧ SameNode k i.addrVec v) (hi : is[e.dist - 1]? = some i) :
    i.clk + e.val ≤ max t (-1) := by
  have hpath : cfg.device.spec.OnPath 0 cmd (v.data junk) k := by
    intro l hl
    obtain ⟨hscope, hnonneg, hlt⟩ := hto l hl
    have hdata : v.data junk (0 + 1 + l) = v.getD (l + 1) 0 := by
      rw [show 0 + 1 + l = l + 1 by omega]
      exact hv.data_eq junk (by omega)
    rw [hdata, Nat.zero_add]
    refine ⟨hscope, hnonneg, ?_⟩
    rw [Spec.arity, if_pos (by omega)]
    omega
  have hallows := (h.tables.check_iff h.shape cmd (v.data junk) t).mp hcheck k hpath p e
    (by rwa [Nat.zero_add]) hcmd
  rw [TimingEntry.Allows, if_neg (by simp [hsibling])] at hallows
  -- the commands of `is` are among those that selected the node
  have htimes : (is.map IssuedCmd.clk).Sublist
      (issueTimes p (Selects 0 id (v.data junk) k) c.issues) := by
    have hkeep : is.map asIssue = (is.map asIssue).filter
        fun u => decide (u.cmd = p ∧ Selects 0 id (v.data junk) k u.addr) := by
      symm
      rw [filter_eq_self]
      intro u hu
      obtain ⟨i, hi, rfl⟩ := mem_map.mp hu
      obtain ⟨hp, hsame⟩ := hall i hi
      have hnames := h.names i (hsub.subset hi)
      have hrow : 0 < cfg.device.spec.row := Nat.zero_lt_of_lt hk
      refine decide_eq_true ⟨hp, ?_, fun l hl => ?_⟩
      · show i.addrVec.data 0 0 = id
        rw [hnames.data_eq 0 hrow, hnames.getD_zero]
      · show i.addrVec.data 0 (0 + 1 + l) = v.data junk (0 + 1 + l)
        rw [hnames.data_eq 0 (by omega), hv.data_eq junk (by omega)]
        exact hsame _ (by omega) (by omega)
    have hmap : is.map IssuedCmd.clk = (is.map asIssue).map Issue.clk := by
      rw [map_map]
      rfl
    rw [issueTimes, hmap, hkeep]
    exact ((hsub.map asIssue).filter _).map Issue.clk
  have hclk : (is.map IssuedCmd.clk)[e.dist - 1]? = some i.clk := by
    rw [getElem?_map, hi]
    rfl
  obtain ⟨past, hpast, hle⟩ :=
    History.getElem?_sublist_ge htimes (issueTimes_pairwise h.issues_sorted) hclk
  have := hallows past hpast
  omega

theorem Timed.spaced_one (h : Timed cfg id c)
    (hcheck : c.channel.check cfg.device.spec cmd (v.data junk) t = true)
    (hk : k < cfg.device.spec.row) (hv : Names cfg.device id v) (hto : GoesTo cfg cmd v k)
    {val : Int} (he : entry cmd val ∈ cfg.device.spec.timing k p) (hi : i ∈ c.cmdTrace)
    (hp : i.cmd = p) (hsame : SameNode k i.addrVec v) : i.clk + val ≤ max t (-1) := by
  refine h.spaced hcheck hk hv hto he rfl rfl (singleton_sublist.mpr hi) ?_ rfl
  intro i' hi'
  rw [mem_singleton.mp hi']
  exact ⟨hp, hsame⟩

end ChannelController

end Generic

end Ramulator
