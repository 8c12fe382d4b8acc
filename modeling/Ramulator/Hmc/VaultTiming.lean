/-
  Ramulator.Hmc.VaultTiming

  The timing tables at the root of a vault, along a run.

  Every command of a vault goes through its root, so the root's `next` and
  `prev` are determined by the command trace (`Timed.tables`, the root's part of
  `DRAM.Exact`).  Two things follow.  A command is never pushed further into the
  future than the largest entry that names it (`Timed.next_le`), which bounds
  every wait; and a ready command respects every earlier one
  (`Timed.allows_of_ready`).
-/

import Ramulator.Hmc.Protocol

namespace Ramulator

open Outcome HMC List

namespace Controller

variable {cfg : ControllerConfig} {vault junk : Int} {c c' : Controller} {req : Request}

/-- A command of the trace, as a call of `update`. -/
def asIssue (i : Issued) : Issue Command := ⟨i.cmd, i.addrVec.data 0, i.clk⟩

def issues (c : Controller) : List (Issue Command) := c.cmdTrace.map asIssue

/-- The root of the tree has the timing tables of the commands issued so far. -/
structure Timed (cfg : ControllerConfig) (vault : Int) (c : Controller) : Prop where
  shape : DRAM.WellShaped cfg.hmc.spec Level.vault vault c.channel
  tables : NodeExact cfg.hmc.spec c.issues c.channel.val
  sorted : c.cmdTrace.Pairwise (fun i j => j.clk ≤ i.clk)
  clks : ∀ i ∈ c.cmdTrace, 0 ≤ i.clk ∧ i.clk ≤ c.clk
  clk : 0 ≤ c.clk

theorem Timed.new (cfg : ControllerConfig) (vault : Int) :
    Timed cfg vault (Controller.new cfg vault) where
  shape := DRAM.new_wellShaped _ _ _
  tables := NodeExact.new cfg.hmc.spec Level.vault vault
  sorted := List.Pairwise.nil
  clks i hi := by cases hi
  clk := le_refl 0

section

variable (h : Timed cfg vault c) {cmd : Command}
include h

theorem Timed.frame (hrel : NodeTree.Rel Node.SameButStats c.channel c'.channel)
    (htrace : c'.cmdTrace = c.cmdTrace) (hclk : c.clk ≤ c'.clk) : Timed cfg vault c' where
  shape := h.shape.of_rel (fun _ _ hs => ⟨hs.level, hs.id⟩) (hrel.mono (fun _ _ hs => hs.sameState))
  tables := by
    have hissues : c'.issues = c.issues := by rw [issues, issues, htrace]
    have hroot : c'.channel.val = { c.channel.val with stats := c'.channel.val.stats } := hrel.val
    rw [hissues]
    refine h.tables.of_sameTiming ?_
    rw [hroot]
    exact ⟨rfl, rfl, rfl, rfl⟩
  sorted := by
    rw [htrace]
    exact h.sorted
  clks i hi := by
    rw [htrace] at hi
    have := h.clks i hi
    omega
  clk := by
    have := h.clk
    omega

theorem Timed.quiet (hquiet : Quiet c c') : Timed cfg vault c' :=
  h.frame hquiet.channel hquiet.trace (le_of_eq hquiet.clk.symm)

theorem Timed.issue {v : AddrVec} {channel : Tree} {rowtable : RowTable}
    (hv : ∀ junk, v.data junk Level.vault = vault)
    (hupdate : c.channel.update cfg.hmc.spec cmd (v.data junk) c.clk = .ok channel) :
    Timed cfg vault { c with
      channel, rowtable
      cmdTrace := { clk := c.clk, cmd, addrVec := v } :: c.cmdTrace } := by
  have hlevel := h.shape.val_level
  have hid := h.shape.val_id
  have hclk := h.clk
  obtain ⟨n, hframe, hval⟩ := DRAM.update_root hupdate (by rw [hlevel, hid, hv])
  have htarget : v.data 0 n.level = n.id := by
    rw [hframe.level, hframe.id]
    show v.data 0 c.channel.val.level = c.channel.val.id
    rw [hlevel, hid, hv]
  have hnode : NodeExact cfg.hmc.spec c.issues n :=
    h.tables.of_sameTiming ⟨hframe.level, hframe.id, hframe.next, hframe.prev⟩
  have hsorted : ({ clk := c.clk, cmd, addrVec := v } :: c.cmdTrace : List Issued).Pairwise
      (fun i j => j.clk ≤ i.clk) :=
    pairwise_cons.mpr ⟨fun i hi => (h.clks i hi).2, h.sorted⟩
  refine ⟨h.shape.update hupdate, ?_, hsorted, ?_, hclk⟩
  · show NodeExact cfg.hmc.spec (⟨cmd, v.data 0, c.clk⟩ :: c.issues) channel.val
    rw [hval]
    refine NodeExact.targetTiming (u := ⟨cmd, v.data 0, c.clk⟩) hnode htarget ?_ ?_
    · intro u hu
      rcases mem_cons.mp hu with rfl | hu
      · exact hclk
      · obtain ⟨i, hi, rfl⟩ := mem_map.mp hu
        exact (h.clks i hi).1
    · exact List.Pairwise.map (S := fun u v : Issue Command => v.clk ≤ u.clk) asIssue
        (fun _ _ hle => hle) hsorted
  · intro i hi
    rcases mem_cons.mp hi with rfl | hi
    · exact ⟨hclk, le_refl _⟩
    · exact h.clks i hi

/-- A command waits no longer than the largest entry for it after the newest
    command. -/
theorem Timed.next_le {bound time : Int}
    (hbound : ∀ p, ∀ e ∈ vaultTiming cfg.hmc.speed p, e.cmd = cmd → e.val ≤ bound)
    (htime : ∀ i ∈ c.cmdTrace, i.clk ≤ time) (hpos : -1 ≤ time + bound) :
    c.channel.val.next cmd ≤ time + bound := by
  have hpast : ∀ past (p : Command) (P : (Nat → Int) → Prop) [DecidablePred P],
      past ∈ issueTimes p P c.issues → past ≤ time := by
    intro past p P _ hmem
    obtain ⟨u, hu, -, -, rfl⟩ := mem_issueTimes.mp hmem
    obtain ⟨i, hi, rfl⟩ := mem_map.mp hu
    exact htime i hi
  refine (h.tables.next cmd _).mpr ⟨hpos, ?_⟩
  intro p e he hcmd
  rw [h.shape.val_level] at he
  have hval := hbound p e he hcmd
  unfold TimingEntry.Allows
  split
  · intro past hmem
    have := hpast past p _ hmem
    omega
  · intro past hget
    have := hpast past p _ (mem_of_getElem? hget)
    omega

/-- A command that may be issued respects every entry that looks one command
    back. -/
theorem Timed.allows_of_ready {p : Command} (hready : c.channel.val.next cmd ≤ c.clk)
    {e : TimingEntry Command} (he : e ∈ vaultTiming cfg.hmc.speed p) (hcmd : e.cmd = cmd)
    (hdist : e.dist = 1) (hsibling : e.sibling = false) {i : Issued} (hi : i ∈ c.cmdTrace)
    (hp : i.cmd = p) (hv : i.addrVec.data 0 Level.vault = vault) : i.clk + e.val ≤ c.clk := by
  have hlevel := h.shape.val_level
  have hid := h.shape.val_id
  have hallows := ((h.tables.next cmd c.clk).mp hready).2 p e (by rw [hlevel]; exact he) hcmd
  have hmem : i.clk ∈ issueTimes p (fun a => a c.channel.val.level = c.channel.val.id)
      c.issues := by
    refine mem_issueTimes.mpr ⟨_, mem_map_of_mem hi, hp, ?_, rfl⟩
    rw [hlevel, hid]
    exact hv
  have hsorted : (issueTimes p (fun a => a c.channel.val.level = c.channel.val.id)
      c.issues).Pairwise (fun a b => b ≤ a) :=
    issueTimes_pairwise (h.sorted.map _ (fun _ _ hle => hle))
  rw [TimingEntry.Allows, if_neg (by simp [hsibling]), hdist] at hallows
  -- the newest issue is the latest
  cases htimes : issueTimes p (fun a => a c.channel.val.level = c.channel.val.id) c.issues with
  | nil =>
    rw [htimes] at hmem
    cases hmem
  | cons newest older =>
    rw [htimes] at hmem hsorted hallows
    have hnewest := hallows newest rfl
    have hle : i.clk ≤ newest := by
      rcases mem_cons.mp hmem with heq | hold
      · omega
      · exact (pairwise_cons.mp hsorted).1 _ hold
    omega

end

end Controller

end Ramulator
