/-
  Ramulator.Generic.DsarpRefresh

  The refresh scheduler of DSARP, `Refresh<DSARP>` (Refresh.cpp).

  Unless whole ranks are refreshed, every interval gives each rank one refresh
  slot, for its banks in turn.  DARP and DSARP may let a slot pass while there
  are reads, and refresh a bank ahead of its slot when writes are drained (`wrp`)
  or when the bank is idle (`early_inject_refresh`).  `bank_refresh_backlog` is
  how far each bank is ahead of its schedule.  `subarray_ref_counters` says which
  subarray of a bank is refreshed next; its rows have one entry for each
  subarray, but they are indexed by the bank.

  `ChannelController.tick` leaves the targets of a cycle open.  `targets` and
  `slots` are what the scheduler did in all cycles so far; no decision reads them.
-/

import Ramulator.Lib.RoundRobin
import Ramulator.Generic.ChannelController

namespace Ramulator

open Outcome List
open Generic

namespace DSARP

def RefreshType.outOfOrder : RefreshType → Bool
  | .darp | .dsarp => true
  | _ => false

/-- What `Refresh<DSARP>` reads of the specification and of its channel. -/
structure RefreshConfig where
  type : RefreshType
  org : OrgEntry
  speed : SpeedEntry
  /-- `speed_entry.nREFIpb`, from the one entry of `REFIPB_TABLE`. -/
  nREFIpb : Int := 325
  /-- `ctrl->channel->id`. -/
  id : Int := 0

namespace RefreshConfig

variable (cfg : RefreshConfig)

def controller : ChannelConfig := (Chip.dsarp cfg.type cfg.org cfg.speed).config

def maxRankCount : Nat := cfg.org.count.getD Level.rank 0

def maxBankCount : Nat := cfg.org.count.getD Level.bank 0

def maxSaCount : Nat := cfg.org.count.getD Level.subArray 0

def bRefRank : Bool := cfg.controller.device.bRefRank

def refreshInterval : Int := if cfg.bRefRank then cfg.speed.nREFI else cfg.nREFIpb

end RefreshConfig

def backlogMax : Int := 8
def backlogMin : Int := -8
def backlogEarlyPullThreshold : Int := -6

/-- A table with a cell for each rank and bank. -/
abbrev Table (α : Type) := Nat → Nat → α

/-- Assign to a cell. -/
def Table.set {α : Type} (t : Table α) (r b : Nat) (v : α) : Table α :=
  fun r' b' => if r' = r ∧ b' = b then v else t r' b'

structure Refresh where
  clk : Int := 0
  refreshed : Int := 0
  bankRefCounters : Nat → Nat := fun _ => 0
  bankRefreshBacklog : Table Int := fun _ _ => 0
  subarrayRefCounters : Table Nat := fun _ _ => 0
  ctrlWriteMode : Bool := false

/-- The random numbers of a cycle, and how `std::sort` leaves banks of equal demand. -/
structure Draws where
  /-- `rand()` of `wrp`, for each rank. -/
  wrp : Nat → Nat := fun _ => 0
  /-- `rand()` of `early_inject_refresh`, for each rank. -/
  early : Nat → Nat := fun _ => 0
  sort : List (Nat × Nat) → List (Nat × Nat)
  sort_perm : ∀ demand, (sort demand).Perm demand
  sort_sorted : ∀ demand, (sort demand).Pairwise fun l r => l.1 ≤ r.1

/-- No chance: every draw is 0, and equal demands stay in order. -/
def Draws.fixed : Draws where
  sort demand := demand.insertionSort fun l r => l.1 ≤ r.1
  sort_perm demand := demand.perm_insertionSort _
  sort_sorted demand := by
    have : Std.Total fun l r : Nat × Nat => l.1 ≤ r.1 := ⟨fun l r => Nat.le_total l.1 r.1⟩
    have : IsTrans (Nat × Nat) fun l r => l.1 ≤ r.1 := ⟨fun _ _ _ => Nat.le_trans⟩
    exact demand.pairwise_insertionSort _

structure Scheduling where
  ctrl : Controller := {}
  refresh : Refresh := {}
  /-- The refreshes enqueued so far. -/
  targets : List RefreshTarget := []
  /-- The slots given so far: rank and bank. -/
  slots : List (Nat × Nat) := []

namespace Scheduling

variable (cfg : RefreshConfig) {Q : Scheduling → Prop} {org : OrgConfig}

/-! ## One refresh -/

def refreshTarget (s : Scheduling) (target : RefreshTarget) : Except Abort Scheduling := do
  let ctrl ← s.ctrl.refresh (ChannelController.refreshRequest cfg.controller cfg.id target)
  pure { s with ctrl, targets := s.targets ++ [target] }

/-- `subarray_ref_counters[r][b]`; a row has `max_sa_count` entries. -/
def subarrayAt (s : Scheduling) (r b : Nat) : Except Abort Nat :=
  if b < cfg.maxSaCount then pure (s.refresh.subarrayRefCounters r b) else throw .outOfBounds

def credit (s : Scheduling) (r b sa : Nat) : Scheduling :=
  { s with refresh := { s.refresh with
    bankRefreshBacklog :=
      Table.set s.refresh.bankRefreshBacklog r b (s.refresh.bankRefreshBacklog r b + 1)
    subarrayRefCounters :=
      Table.set s.refresh.subarrayRefCounters r b ((sa + 1) % cfg.maxSaCount) } }

def bankTarget (r b sa : Nat) : RefreshTarget := (r, b, sa)

def refreshBank (s : Scheduling) (r b : Nat) : Except Abort Scheduling := do
  let sa ← s.subarrayAt cfg r b
  let s ← s.refreshTarget cfg (bankTarget r b sa)
  pure (s.credit cfg r b sa)

def pendingRef (s : Scheduling) (here : AddrVec → Bool) : Bool :=
  s.ctrl.otherq.any fun req => decide (req.type = .refresh) && here req.addrVec

def hasRoom (s : Scheduling) : Bool := decide (s.ctrl.otherq.length < queueMax)

/-! ## `early_inject_refresh` -/

/-- `is_bank_occupied`: a read waits for the bank. -/
def isBankOccupied (s : Scheduling) (r b : Nat) : Bool :=
  s.ctrl.readq.any fun req =>
    decide (req.addrVec.getD Level.rank 0 * cfg.maxBankCount + req.addrVec.getD Level.bank 0 =
      r * cfg.maxBankCount + b)

/-- The bank is idle and has almost run out of credit. -/
def mayPullIn (s : Scheduling) (r b : Nat) : Bool :=
  !s.isBankOccupied cfg r b &&
  !s.pendingRef (fun v => decide (v.getD Level.channel 0 = cfg.id ∧ v.getD Level.rank 0 = r ∧
    v.getD Level.bank 0 = b)) &&
  decide (s.refresh.bankRefreshBacklog r b < backlogEarlyPullThreshold) && s.hasRoom

/-- The banks of a rank in the order they are looked at. -/
def bankOrder (start : Nat) : List Nat :=
  (List.range cfg.maxBankCount).map fun b => (start % cfg.maxBankCount + b) % cfg.maxBankCount

/-- Pull in one refresh of rank `r`, if a bank may have it. -/
def pullIn (draws : Draws) (s : Scheduling) (r : Nat) : Except Abort Scheduling :=
  match (bankOrder cfg (draws.early r)).find? (s.mayPullIn cfg r) with
  | none => pure s
  | some b => s.refreshBank cfg r b

def earlyInjectRefresh (draws : Draws) (s : Scheduling) : Except Abort Scheduling :=
  if s.ctrl.writeMode then pure s
  else if s.ctrl.readq.all (fun req => decide (req.addrVec.getD Level.channel 0 = cfg.id)) then
    (List.range cfg.maxRankCount).foldlM (pullIn cfg draws) s
  else throw .refreshChannel

/-! ## `inject_refresh` -/

def giveSlot (s : Scheduling) (r : Nat) : Scheduling :=
  let b := s.refresh.bankRefCounters r
  { s with
    slots := s.slots ++ [(r, b)]
    refresh := { s.refresh with
      bankRefreshBacklog :=
        Table.set s.refresh.bankRefreshBacklog r b (s.refresh.bankRefreshBacklog r b - 1)
      bankRefCounters :=
        fun r' => if r' = r then (b + 1) % cfg.maxBankCount else s.refresh.bankRefCounters r' } }

/-- `ref_now`: the slot is not to be skipped. -/
def refNow (s : Scheduling) (r b : Nat) : Bool :=
  (!s.pendingRef (fun _ => true) && s.ctrl.readq.isEmpty) ||
    decide (s.refresh.bankRefreshBacklog r b ≤ backlogMin)

def injectBank (s : Scheduling) (r : Nat) : Except Abort Scheduling :=
  let b := s.refresh.bankRefCounters r
  let s := s.giveSlot cfg r
  if cfg.type.outOfOrder && !s.refNow r b then pure s else s.refreshBank cfg r b

/-- Rank-level or bank-level refreshes. -/
def injectAll (s : Scheduling) : Except Abort Scheduling :=
  let ranks := List.range cfg.maxRankCount
  if cfg.bRefRank then
    (ranks.map fun (r : Nat) => ((r : Int), -1, -1)).foldlM (refreshTarget cfg) s
  else ranks.foldlM (injectBank cfg) s

def injectRefresh (s : Scheduling) : Except Abort Scheduling := do
  let s ← s.injectAll cfg
  pure { s with refresh := { s.refresh with refreshed := s.refresh.clk } }

/-! ## `wrp` -/

def toRank (q : List Request) (r : Nat) : List Request :=
  q.filter fun req => decide (req.addrVec.getD Level.rank 0 = r)

/-- `sorted_bank_demand` before it is sorted: reads and writes of each bank. -/
def bankDemand (s : Scheduling) (r : Nat) : List (Nat × Nat) :=
  (List.range cfg.maxBankCount).map fun (b : Nat) =>
    ((toRank (s.ctrl.writeq ++ s.ctrl.readq) r).countP
      (fun req => decide (req.addrVec.getD Level.bank 0 = (b : Int))), b)

/-- `ref_bid_idx`.  The loop compares bank numbers with 0 where counts may have
    been meant. -/
def refBidIdx (draw : Nat) (sorted : List (Nat × Nat)) : Nat :=
  let topIdleIdx := (sorted.findIdx? fun d => decide (d.2 ≠ 0)).getD 0
  if topIdleIdx = 0 then 0 else draw % topIdleIdx

/-- Refresh the bank unless its credit or the queue is full. -/
def refreshWithin (s : Scheduling) (r b : Nat) : Except Abort Scheduling :=
  if decide (s.refresh.bankRefreshBacklog r b < backlogMax) && s.hasRoom then s.refreshBank cfg r b
  else pure s

def wrpRank (draws : Draws) (s : Scheduling) (r : Nat) : Except Abort Scheduling :=
  if s.pendingRef (fun v => decide (v.getD Level.rank 0 = r)) then pure s
  else if (toRank s.ctrl.writeq r).isEmpty then pure s
  else do
    let sorted := draws.sort (s.bankDemand cfg r)
    let bank ← Vec.at sorted (refBidIdx (draws.wrp r) sorted)
    s.refreshWithin cfg r bank.2

def wrp (draws : Draws) (s : Scheduling) : Except Abort Scheduling :=
  (List.range cfg.maxRankCount).foldlM (wrpRank cfg draws) s

/-! ## `tick_ref` -/

def wrpOnEntry (draws : Draws) (s : Scheduling) : Except Abort Scheduling :=
  if !s.refresh.ctrlWriteMode && s.ctrl.writeMode then s.wrp cfg draws else pure s

/-- The part of `tick_ref` for DARP. -/
def darp (draws : Draws) (s : Scheduling) : Except Abort Scheduling := do
  let s ← s.wrpOnEntry cfg draws
  let s := { s with refresh := { s.refresh with ctrlWriteMode := s.ctrl.writeMode } }
  s.earlyInjectRefresh cfg draws

def moveRefreshes (draws : Draws) (s : Scheduling) : Except Abort Scheduling :=
  if cfg.type.outOfOrder then s.darp cfg draws else pure s

def tickRef (draws : Draws) (s : Scheduling) : Except Abort Scheduling := do
  let s := { s with refresh := { s.refresh with clk := s.refresh.clk + 1 } }
  let s ← s.moveRefreshes cfg draws
  if cfg.refreshInterval ≤ s.refresh.clk - s.refresh.refreshed then s.injectRefresh cfg
  else pure s

def cycle (s : Scheduling) (input : Controller × Draws) : Except Abort Scheduling :=
  tickRef cfg input.2 { s with ctrl := input.1 }

def run (inputs : List (Controller × Draws)) : Except Abort Scheduling :=
  inputs.foldlM (cycle cfg) {}

/-! ## What the counters mean -/

/-- The subarrays of a bank in the order they were refreshed. -/
def subarraysOf (s : Scheduling) (r b : Nat) : List Int :=
  (s.targets.filter fun target =>
    decide (target.1 = (r : Int) ∧ target.2.1 = (b : Int))).map (·.2.2)

def enqueuedFor (s : Scheduling) (r b : Nat) : Nat := (s.subarraysOf r b).length

def scheduledFor (s : Scheduling) (r b : Nat) : Nat := s.slots.count (r, b)

/-- The counters agree with what was done. -/
structure Accounted (s : Scheduling) : Prop where
  backlog : ∀ r b, s.refresh.bankRefreshBacklog r b = (s.enqueuedFor r b : Int) - s.scheduledFor r b
  inTurn : ∀ r b,
    s.subarraysOf r b = (RoundRobin.turns cfg.maxSaCount (s.enqueuedFor r b)).map Int.ofNat
  nextSubarray : ∀ r b, s.refresh.subarrayRefCounters r b = s.enqueuedFor r b % cfg.maxSaCount
  nextBank : ∀ r, s.refresh.bankRefCounters r < cfg.maxBankCount

/-- Every bank but those that `except` names is within its credit; `inject_refresh`
    never leaves one at `backlog_min`. -/
def WithinCredit (s : Scheduling) (except : Nat → Nat → Prop) : Prop :=
  ∀ r b, ¬except r b →
    backlogMin < s.refresh.bankRefreshBacklog r b ∧ s.refresh.bankRefreshBacklog r b ≤ backlogMax

/-- What every step of a cycle keeps. -/
def Kept (s : Scheduling) : Prop := s.Accounted cfg ∧ s.WithinCredit fun _ _ => False

variable {cfg} {s : Scheduling}

theorem new_kept (hbanks : 0 < cfg.maxBankCount) : Kept cfg {} := by
  refine ⟨⟨fun _ _ => rfl, fun _ _ => rfl, fun _ _ => ?_, fun _ => hbanks⟩, fun _ _ _ => ?_⟩
  · exact (Nat.zero_mod _).symm
  · show backlogMin < 0 ∧ 0 ≤ backlogMax
    decide

theorem Accounted.congr {s' : Scheduling} (h : s.Accounted cfg) (htargets : s'.targets = s.targets)
    (hslots : s'.slots = s.slots)
    (hbacklog : s'.refresh.bankRefreshBacklog = s.refresh.bankRefreshBacklog)
    (hsubarrays : s'.refresh.subarrayRefCounters = s.refresh.subarrayRefCounters)
    (hbanks : s'.refresh.bankRefCounters = s.refresh.bankRefCounters) : s'.Accounted cfg := by
  refine ⟨?_, ?_, ?_, ?_⟩
  · simpa only [enqueuedFor, subarraysOf, scheduledFor, htargets, hslots, hbacklog] using h.backlog
  · simpa only [enqueuedFor, subarraysOf, htargets] using h.inTurn
  · simpa only [enqueuedFor, subarraysOf, htargets, hsubarrays] using h.nextSubarray
  · simpa only [hbanks] using h.nextBank

/-! ## One refresh -/

def withRefresh (cfg : RefreshConfig) (s : Scheduling) (ctrl : Controller) (r b : Nat) :
    Scheduling :=
  let sa := s.refresh.subarrayRefCounters r b
  { s with ctrl, targets := s.targets ++ [bankTarget r b sa] }.credit cfg r b sa

def RefreshAborts (cfg : RefreshConfig) (b : Nat) (e : Abort) : Prop :=
  e = .refreshEnqueue ∨ (e = .outOfBounds ∧ cfg.maxSaCount ≤ b)

theorem refreshTarget_ends (s : Scheduling) (target : RefreshTarget) :
    Ends (s.refreshTarget cfg target)
      (fun s' => ∃ ctrl, s' = { s with ctrl, targets := s.targets ++ [target] })
      (fun e => e = .refreshEnqueue) := by
  unfold refreshTarget Controller.refresh
  cases s.ctrl.enqueue (ChannelController.refreshRequest cfg.controller cfg.id target) with
  | none => rfl
  | some ctrl => exact ⟨ctrl, rfl⟩

theorem refreshBank_ends (s : Scheduling) (r b : Nat) :
    Ends (s.refreshBank cfg r b) (fun s' => ∃ ctrl, s' = s.withRefresh cfg ctrl r b)
      (RefreshAborts cfg b) := by
  unfold refreshBank subarrayAt
  by_cases hb : b < cfg.maxSaCount
  · rw [if_pos hb]
    refine Ends.bind (Ends.pure rfl) (fun sa hsa => ?_)
    subst hsa
    refine Ends.bind ((refreshTarget_ends s _).weaken_abort (fun _ => Or.inl)) ?_
    rintro s' ⟨ctrl, rfl⟩
    exact ⟨ctrl, rfl⟩
  · rw [if_neg hb]
    exact Or.inr ⟨rfl, by omega⟩

theorem subarraysOf_withRefresh (s : Scheduling) (ctrl : Controller) (r b r' b' : Nat) :
    (s.withRefresh cfg ctrl r b).subarraysOf r' b' = s.subarraysOf r' b' ++
        if r' = r ∧ b' = b then [(s.refresh.subarrayRefCounters r b : Int)] else [] := by
  simp only [subarraysOf, withRefresh, credit, filter_append, map_append]
  congr 1
  by_cases h : r' = r ∧ b' = b
  · obtain ⟨rfl, rfl⟩ := h
    simp [bankTarget]
  · have hne : r = r' → b ≠ b' := by omega
    simpa [bankTarget, h] using hne

theorem Accounted.withRefresh (h : s.Accounted cfg) (ctrl : Controller) (r b : Nat) :
    (s.withRefresh cfg ctrl r b).Accounted cfg := by
  refine ⟨fun r' b' => ?_, fun r' b' => ?_, fun r' b' => ?_, h.nextBank⟩
  · have hbacklog := h.backlog r' b'
    simp only [enqueuedFor, subarraysOf_withRefresh, length_append] at hbacklog ⊢
    show Table.set s.refresh.bankRefreshBacklog r b _ r' b' = _ - (s.scheduledFor r' b' : Int)
    by_cases hbank : r' = r ∧ b' = b
    · obtain ⟨rfl, rfl⟩ := hbank
      simp [Table.set]
      omega
    · simp [Table.set, hbank]
      omega
  · have hturn := h.inTurn r' b'
    simp only [enqueuedFor, subarraysOf_withRefresh, length_append] at hturn ⊢
    by_cases hbank : r' = r ∧ b' = b
    · obtain ⟨rfl, rfl⟩ := hbank
      have hnext := h.nextSubarray r' b'
      rw [if_pos ⟨rfl, rfl⟩, length_singleton, RoundRobin.turns_succ, map_append, ← hturn, hnext]
      rfl
    · rw [if_neg hbank, append_nil, length_nil, Nat.add_zero]
      exact hturn
  · have hnext := h.nextSubarray r' b'
    simp only [enqueuedFor, subarraysOf_withRefresh, length_append] at hnext ⊢
    show Table.set s.refresh.subarrayRefCounters r b _ r' b' = _
    by_cases hbank : r' = r ∧ b' = b
    · obtain ⟨rfl, rfl⟩ := hbank
      simp [Table.set, hnext, Nat.mod_add_mod]
    · simp [Table.set, hbank, hnext]

theorem Accounted.giveSlot (h : s.Accounted cfg) (hbanks : 0 < cfg.maxBankCount) (r : Nat) :
    (s.giveSlot cfg r).Accounted cfg := by
  refine ⟨fun r' b' => ?_, h.inTurn, h.nextSubarray, fun r' => ?_⟩
  · have hbacklog := h.backlog r' b'
    show Table.set s.refresh.bankRefreshBacklog r _ _ r' b' = (s.enqueuedFor r' b' : Int) -
        ((s.slots ++ [(r, s.refresh.bankRefCounters r)]).count (r', b') : Nat)
    rw [count_append, count_singleton]
    simp only [scheduledFor] at hbacklog
    by_cases hbank : r' = r ∧ b' = s.refresh.bankRefCounters r
    · obtain ⟨rfl, rfl⟩ := hbank
      simp [Table.set]
      omega
    · have hne : ¬(r = r' ∧ s.refresh.bankRefCounters r = b') := by omega
      simp [Table.set, hbank, hne]
      omega
  · show (if r' = r then _ else _) < cfg.maxBankCount
    split
    · exact Nat.mod_lt _ hbanks
    · exact h.nextBank r'

/-- A refresh of a bank whose credit is not full, and which may have been one slot
    too far behind. -/
theorem refreshBank_kept {r b : Nat} (h : s.Accounted cfg)
    (hcredit : s.WithinCredit fun r' b' => r' = r ∧ b' = b)
    (hmin : backlogMin ≤ s.refresh.bankRefreshBacklog r b)
    (hmax : s.refresh.bankRefreshBacklog r b < backlogMax) :
    Ends (s.refreshBank cfg r b) (Kept cfg) (RefreshAborts cfg b) := by
  refine (refreshBank_ends s r b).weaken ?_
  rintro s' ⟨ctrl, rfl⟩
  refine ⟨h.withRefresh ctrl r b, fun r' b' _ => ?_⟩
  show backlogMin < Table.set s.refresh.bankRefreshBacklog r b _ r' b' ∧
    Table.set s.refresh.bankRefreshBacklog r b _ r' b' ≤ backlogMax
  by_cases hbank : r' = r ∧ b' = b
  · simp only [Table.set, if_pos hbank]
    omega
  · simp only [Table.set, if_neg hbank]
    exact hcredit r' b' hbank

/-! ## The three places that refresh banks -/

def Asserts (e : Abort) : Prop := e = .refreshEnqueue ∨ e = .refreshChannel

section Sites

variable (hbanks : 0 < cfg.maxBankCount) (hsubarrays : cfg.maxBankCount ≤ cfg.maxSaCount)

include hsubarrays in
theorem refreshBank_asserts {r b : Nat} (h : Ends (s.refreshBank cfg r b) Q (RefreshAborts cfg b))
    (hb : b < cfg.maxBankCount) : Ends (s.refreshBank cfg r b) Q Asserts := by
  refine h.weaken_abort ?_
  rintro e (rfl | ⟨-, hle⟩)
  · exact Or.inl rfl
  · omega

include hsubarrays in
theorem refreshBank_within {r b : Nat} (h : s.Kept cfg)
    (hmax : s.refresh.bankRefreshBacklog r b < backlogMax) (hb : b < cfg.maxBankCount) :
    Ends (s.refreshBank cfg r b) (Kept cfg) Asserts := by
  have hmin := (h.2 r b not_false).1
  have hcredit : s.WithinCredit fun r' b' => r' = r ∧ b' = b := fun r' b' _ => h.2 r' b' not_false
  exact refreshBank_asserts hsubarrays (refreshBank_kept h.1 hcredit (by omega) hmax) hb

include hbanks hsubarrays in
theorem pullIn_kept (draws : Draws) (h : s.Kept cfg) (r : Nat) :
    Ends (s.pullIn cfg draws r) (Kept cfg) Asserts := by
  unfold pullIn
  split
  · exact h
  · next b hfind =>
    have hb : b < cfg.maxBankCount := by
      obtain ⟨i, -, rfl⟩ := mem_map.mp (mem_of_find?_eq_some hfind)
      exact Nat.mod_lt _ hbanks
    have hpull := find?_some hfind
    simp only [mayPullIn, Bool.and_eq_true, decide_eq_true_eq] at hpull
    have hlow : s.refresh.bankRefreshBacklog r b < -6 := hpull.1.2
    exact refreshBank_within hsubarrays h (show _ < (8 : Int) by omega) hb

include hbanks hsubarrays in
theorem earlyInjectRefresh_kept (draws : Draws) (h : s.Kept cfg) :
    Ends (s.earlyInjectRefresh cfg draws) (Kept cfg) Asserts := by
  unfold earlyInjectRefresh
  refine Ends.ite (fun _ => h) (fun _ => Ends.ite (fun _ => ?_) (fun _ => Or.inr rfl))
  exact Ends.foldlM _ h (fun s r _ hs => pullIn_kept hbanks hsubarrays draws hs r)

include hbanks hsubarrays in
theorem injectBank_kept (h : s.Kept cfg) (r : Nat) :
    Ends (s.injectBank cfg r) (Kept cfg) Asserts := by
  have hslot := h.1.giveSlot hbanks r
  have hcell : ∀ r' b', (s.giveSlot cfg r).refresh.bankRefreshBacklog r' b' =
      if r' = r ∧ b' = s.refresh.bankRefCounters r then
        s.refresh.bankRefreshBacklog r (s.refresh.bankRefCounters r) - 1
      else s.refresh.bankRefreshBacklog r' b' := fun _ _ => rfl
  have hown := hcell r (s.refresh.bankRefCounters r)
  rw [if_pos ⟨rfl, rfl⟩] at hown
  have hcredit : (s.giveSlot cfg r).WithinCredit
      fun r' b' => r' = r ∧ b' = s.refresh.bankRefCounters r := by
    intro r' b' hne
    rw [hcell, if_neg hne]
    exact h.2 r' b' not_false
  obtain ⟨hmin, hmax⟩ := h.2 r (s.refresh.bankRefCounters r) not_false
  unfold injectBank
  refine Ends.ite (fun hskip => ?_) (fun _ => ?_)
  · -- a slot that is skipped leaves the bank above the minimum
    refine ⟨hslot, fun r' b' _ => ?_⟩
    simp only [refNow, Bool.and_eq_true, Bool.not_eq_true', Bool.or_eq_false_iff,
      decide_eq_false_iff_not] at hskip
    by_cases hbank : r' = r ∧ b' = s.refresh.bankRefCounters r
    · obtain ⟨rfl, rfl⟩ := hbank
      omega
    · exact hcredit r' b' hbank
  · exact refreshBank_asserts hsubarrays
      (refreshBank_kept hslot hcredit (by omega) (by omega)) (h.1.nextBank r)

include hbanks hsubarrays in
theorem injectRefresh_kept (hrank : cfg.bRefRank = false) (h : s.Kept cfg) :
    Ends (s.injectRefresh cfg) (Kept cfg) Asserts := by
  unfold injectRefresh injectAll
  rw [hrank]
  refine Ends.bind (Ends.foldlM _ h (fun s r _ hs => injectBank_kept hbanks hsubarrays hs r)) ?_
  intro s' hs'
  exact ⟨hs'.1.congr rfl rfl rfl rfl rfl, hs'.2⟩

theorem refBidIdx_lt (draw : Nat) {sorted : List (Nat × Nat)} (hpos : 0 < sorted.length) :
    refBidIdx draw sorted < sorted.length := by
  unfold refBidIdx
  cases htop : sorted.findIdx? fun d => decide (d.2 ≠ 0) with
  | none => simpa using hpos
  | some i =>
    have hi : i < sorted.length := (List.findIdx?_eq_some_iff_getElem.mp htop).1
    simp only [Option.getD_some]
    split
    · exact hpos
    · next hne => exact (Nat.mod_lt _ (by omega)).trans hi

include hbanks hsubarrays in
theorem wrpRank_kept (draws : Draws) (h : s.Kept cfg) (r : Nat) :
    Ends (s.wrpRank cfg draws r) (Kept cfg) Asserts := by
  unfold wrpRank
  refine Ends.ite (fun _ => h) (fun _ => Ends.ite (fun _ => h) (fun _ => ?_))
  have hperm := draws.sort_perm (s.bankDemand cfg r)
  have hlen : (draws.sort (s.bankDemand cfg r)).length = cfg.maxBankCount := by
    rw [hperm.length_eq]
    simp [bankDemand]
  refine Ends.bind (Vec.at_ends_of (fun hout => ?_)) (fun bank hbank => ?_)
  · have hlt := refBidIdx_lt (draws.wrp r) (hlen ▸ hbanks)
    omega
  · have hmem := hperm.mem_iff.mp (mem_of_getElem? hbank.2)
    obtain ⟨b, hb, rfl⟩ := mem_map.mp hmem
    unfold refreshWithin
    refine Ends.ite (fun hroom => ?_) (fun _ => h)
    rw [Bool.and_eq_true, decide_eq_true_eq] at hroom
    exact refreshBank_within hsubarrays h hroom.1 (mem_range.mp hb)

include hbanks hsubarrays in
theorem darp_kept (draws : Draws) (h : s.Kept cfg) :
    Ends (s.darp cfg draws) (Kept cfg) Asserts := by
  unfold darp wrpOnEntry
  refine Ends.bind (Q := Kept cfg) ?_ (fun s' hs' => ?_)
  · refine Ends.ite (fun _ => ?_) (fun _ => h)
    exact Ends.foldlM _ h (fun s r _ hs => wrpRank_kept hbanks hsubarrays draws hs r)
  · exact earlyInjectRefresh_kept hbanks hsubarrays draws ⟨hs'.1.congr rfl rfl rfl rfl rfl, hs'.2⟩

include hbanks hsubarrays in
theorem tickRef_kept (hrank : cfg.bRefRank = false) (draws : Draws) (h : s.Kept cfg) :
    Ends (s.tickRef cfg draws) (Kept cfg) Asserts := by
  unfold tickRef moveRefreshes
  have hclk : Kept cfg { s with refresh := { s.refresh with clk := s.refresh.clk + 1 } } :=
    ⟨h.1.congr rfl rfl rfl rfl rfl, h.2⟩
  refine Ends.bind (Q := Kept cfg) ?_ (fun s' hs' => ?_)
  · exact Ends.ite (fun _ => darp_kept hbanks hsubarrays draws hclk) (fun _ => hclk)
  · exact Ends.ite (fun _ => injectRefresh_kept hbanks hsubarrays hrank hs') (fun _ => hs')

include hbanks hsubarrays in
theorem run_kept (hrank : cfg.bRefRank = false) (inputs : List (Controller × Draws)) :
    Ends (run cfg inputs) (Kept cfg) Asserts := by
  refine Ends.foldlM _ (new_kept hbanks) (fun s input _ hs => ?_)
  exact tickRef_kept hbanks hsubarrays hrank input.2 ⟨hs.1.congr rfl rfl rfl rfl rfl, hs.2⟩

end Sites

/-! ## Refresh debt -/

/-- The organisations of DSARP have 8 banks and the subarrays that were asked
    for. -/
theorem counts_of_orgEntry {e : OrgEntry} (hstandard : org.standard = .dsarp)
    (he : org.orgEntry = some e) :
    e.count.getD Level.bank 0 = 8 ∧ e.count.getD Level.subArray 0 = org.nSa := by
  have htable : ∀ e₀ ∈ Standard.orgTable .dsarp, ∃ row column,
      e₀.count = [0, 0, 8, 0, row, column] := by
    simp [Standard.orgTable]
  unfold OrgConfig.orgEntry OrgConfig.chosen at he
  simp only [hstandard] at he
  rw [Option.ite_none_right_eq_some] at he
  obtain ⟨e₁, he₁, rfl⟩ := Option.map_eq_some_iff.mp he.2
  rw [Option.ite_none_right_eq_some] at he₁
  obtain ⟨e₀, he₀, rfl⟩ := Option.map_eq_some_iff.mp he₁.2
  obtain ⟨row, column, hcount⟩ := htable e₀ (mem_of_getElem? he₀)
  simp [OrgEntry.withChannels, OrgEntry.withSubarrays, hcount]

/-- Every run of a scheduler that refreshes banks of a DSARP organisation with at
    least as many subarrays as banks. -/
theorem run_kept_of_orgEntry {cfg : RefreshConfig} (hstandard : org.standard = .dsarp)
    (horg : org.orgEntry = some cfg.org) (hsubarrays : 8 ≤ org.nSa) (htype : cfg.type ≠ .refab)
    (inputs : List (Controller × Draws)) : Ends (run cfg inputs) (Kept cfg) Asserts := by
  obtain ⟨hbank, hsa⟩ := counts_of_orgEntry hstandard horg
  have hbanks : cfg.maxBankCount = 8 := hbank
  have hsas : cfg.maxSaCount = org.nSa := hsa
  have hrank : cfg.bRefRank = false := decide_eq_false htype
  exact run_kept (by omega) (by omega) hrank inputs

/-- The backlog is what was enqueued less the slots, at most 8 refreshes either way. -/
def InDebt (s : Scheduling) (r b : Nat) : Prop :=
  s.refresh.bankRefreshBacklog r b = (s.enqueuedFor r b : Int) - s.scheduledFor r b ∧
    backlogMin ≤ s.refresh.bankRefreshBacklog r b ∧
    s.refresh.bankRefreshBacklog r b ≤ backlogMax

/-- Whatever the queues hold and whatever is drawn, the backlog of every bank is
    its refresh debt, and it stays within 8 refreshes. -/
theorem run_inDebt (cfg : RefreshConfig) (org : OrgConfig) (hstandard : org.standard = .dsarp)
    (horg : org.orgEntry = some cfg.org) (hsubarrays : 8 ≤ org.nSa) (htype : cfg.type ≠ .refab)
    (inputs : List (Controller × Draws)) :
    Ends (run cfg inputs) (fun s => ∀ r b, s.InDebt r b) Asserts := by
  refine (run_kept_of_orgEntry hstandard horg hsubarrays htype inputs).weaken ?_
  intro s hs r b
  obtain ⟨hmin, hmax⟩ := hs.2 r b not_false
  exact ⟨hs.1.backlog r b, by omega, hmax⟩

/-- One channel with one rank of 8 Gb chips. -/
def orgWith (nSa : Nat) : OrgConfig where
  standard := .dsarp
  org := 0
  channels := 1
  ranks := 1
  nSa := nSa

/-- The scheduler of that channel. -/
def configWith (type : RefreshType) (nSa : Nat) : RefreshConfig where
  type
  org := ((orgWith nSa).orgEntry).getD org8GbX8
  speed := speed1333

def draining : Controller × Draws :=
  ({ writeq := [{ addr := 0, addrVec := [0, 0, 3, 0, 0, 0], type := .write }]
     writeMode := true }, .fixed)

def idleFor (cycles : Nat) : List (Controller × Draws) := replicate cycles ({}, .fixed)

/-- Bank 0 is refreshed ahead of its slot. -/
theorem run_inDebt_draining :
    ∃ s, run (configWith .dsarp 8) [draining] = .ok s ∧ s.refresh.bankRefreshBacklog 0 0 = 1 ∧
      ∀ r b, s.InDebt r b := by
  have hrun : (run (configWith .dsarp 8) [draining]).toOption.map
      (fun s => s.refresh.bankRefreshBacklog 0 0) = some 1 := by decide +kernel
  obtain ⟨s, hs, hbacklog⟩ := exists_ok_of_map hrun
  exact ⟨s, hs, hbacklog, (run_inDebt (configWith .dsarp 8) (orgWith 8) rfl (by decide +kernel)
    (by decide) (by decide) [draining]).result hs⟩

/-! ## Coverage -/

/-- `n` refreshes in a row of a bank reach each of its `n` subarrays once. -/
def Covers (n : Nat) (s : Scheduling) : Prop :=
  ∀ r b first window last, s.subarraysOf r b = first ++ window ++ last → window.length = n →
    ∀ sa < n, window.count (sa : Int) = 1

theorem Accounted.covers (h : s.Accounted cfg) : s.Covers cfg.maxSaCount := by
  intro r b first window last hcut hlen sa hsa
  rw [h.inTurn r b] at hcut
  obtain ⟨firstWindow, last', hturns, hfirst, rfl⟩ := map_eq_append_iff.mp hcut
  obtain ⟨first', window', rfl, rfl, rfl⟩ := map_eq_append_iff.mp hfirst
  rw [length_map] at hlen
  have hperm := RoundRobin.turns_window hturns hlen
  calc (window'.map Int.ofNat).count (sa : Int)
      = window'.count sa := count_map_of_injective _ _ Int.ofNat_injective _
    _ = (List.range cfg.maxSaCount).count sa := hperm.count_eq sa
    _ = 1 := count_eq_one_of_mem nodup_range (mem_range.mpr hsa)

/-- With at least as many subarrays as banks, the refreshes of a bank go round its
    subarrays. -/
theorem run_covers (cfg : RefreshConfig) (org : OrgConfig) (hstandard : org.standard = .dsarp)
    (horg : org.orgEntry = some cfg.org) (hsubarrays : 8 ≤ org.nSa) (htype : cfg.type ≠ .refab)
    (inputs : List (Controller × Draws)) : Ends (run cfg inputs) (Covers org.nSa) Asserts := by
  refine (run_kept_of_orgEntry hstandard horg hsubarrays htype inputs).weaken ?_
  intro s hs
  have hsas : cfg.maxSaCount = org.nSa := (counts_of_orgEntry hstandard horg).2
  exact hsas ▸ hs.1.covers

/-- The writes are drained in every other cycle, and each time bank 0 is refreshed. -/
theorem run_covers_draining :
    ∃ s, run (configWith .dsarp 8) (replicate 8 [draining, ({}, .fixed)]).flatten = .ok s ∧
      s.subarraysOf 0 0 = [0, 1, 2, 3, 4, 5, 6, 7] ∧ s.Covers 8 := by
  have hrun : (run (configWith .dsarp 8)
      (replicate 8 [draining, ({}, .fixed)]).flatten).toOption.map
      (fun s => s.subarraysOf 0 0) = some [0, 1, 2, 3, 4, 5, 6, 7] := by decide +kernel
  obtain ⟨s, hs, hsubarrays⟩ := exists_ok_of_map hrun
  exact ⟨s, hs, hsubarrays, (run_covers (configWith .dsarp 8) (orgWith 8) rfl (by decide +kernel)
    (by decide) (by decide) _).result hs⟩

theorem not_ends_of_outOfBounds {inputs : List (Controller × Draws)}
    (h : Ends (run cfg inputs) (fun _ => False) (fun e => e = .outOfBounds)) :
    ¬Ends (run cfg inputs) Q Asserts := by
  intro hends
  cases hrun : run cfg inputs with
  | ok s => exact h.result hrun
  | error e =>
    obtain rfl := h.abort hrun
    rcases hends.abort hrun with he | he <;> cases he

/-- With 4 subarrays the slot of bank 4 reads behind the end of the counters of its
    rank. -/
theorem fifth_slot_outOfBounds : (orgWith 4).orgEntry = some (configWith .refpb 4).org ∧
      ¬Ends (run (configWith .refpb 4) (idleFor 1625)) (Covers 4) Asserts :=
  ⟨by decide +kernel, not_ends_of_outOfBounds (by decide +kernel)⟩

end Scheduling

end DSARP

end Ramulator
