/-
  Ramulator.Generic.WriteRefresh

  Which bank `Refresh<DSARP>::wrp` refreshes when writes are drained.

  `wrp` sorts the banks of a rank by the reads and writes that wait for them and
  then looks for the first place whose bank number is not 0, where it would have
  been the demand that it is after.  Bank numbers are different, so that place is
  the first or the second one, and a random number below it is 0: the bank it
  refreshes is the first one of the sorted list all the same, one with the least
  demand.
-/

import Ramulator.Generic.DsarpRefresh

namespace Ramulator

open Outcome List Function
open Generic

namespace DSARP

namespace Scheduling

variable {cfg : RefreshConfig} {s s' : Scheduling} {r b : Nat} {new' : List RefreshTarget}

/-- The reads and writes that wait for a bank. -/
def demand (s : Scheduling) (r b : Nat) : Nat :=
  (s.ctrl.writeq ++ s.ctrl.readq).countP fun req =>
    decide (req.addrVec.getD Level.rank 0 = (r : Int)) &&
      decide (req.addrVec.getD Level.bank 0 = (b : Int))

def LeastLoaded (cfg : RefreshConfig) (s : Scheduling) (r b : Nat) : Prop :=
  b < cfg.maxBankCount ∧ ∀ b' < cfg.maxBankCount, s.demand r b ≤ s.demand r b'

/-- No refresh of the rank is queued, a write is, and there is room for a refresh. -/
structure Eligible (s : Scheduling) (r : Nat) : Prop where
  noRefresh : ∀ req ∈ s.ctrl.otherq, req.type = .refresh → req.addrVec.getD Level.rank 0 ≠ (r : Int)
  write : ∃ req ∈ s.ctrl.writeq, req.addrVec.getD Level.rank 0 = (r : Int)
  room : s.ctrl.otherq.length < queueMax

/-! ## The choice of a bank -/

theorem bankDemand_eq (cfg : RefreshConfig) (s : Scheduling) (r : Nat) :
    s.bankDemand cfg r = (List.range cfg.maxBankCount).map fun b => (s.demand r b, b) := by
  refine map_congr_left fun b _ => ?_
  rw [toRank, countP_filter]
  simp only [demand, Bool.and_comm]

/-- Whatever the random number, the first place is chosen. -/
theorem refBidIdx_eq_zero (draw : Nat) {sorted : List (Nat × Nat)}
    (hdistinct : (sorted.map Prod.snd).Nodup) : refBidIdx draw sorted = 0 := by
  match sorted with
  | [] => rfl
  | d :: rest =>
    by_cases hd : d.2 = 0
    · match rest with
      | [] => simp [refBidIdx, hd]
      | e :: rest =>
        have he : e.2 ≠ 0 := by
          intro he
          simp [hd, he] at hdistinct
        -- the second place is the first with another number than 0
        simp [refBidIdx, List.findIdx?_cons, hd, he, Nat.mod_one]
    · simp [refBidIdx, List.findIdx?_cons, hd]

theorem leastLoaded_of_at (draws : Draws) {bank : Nat × Nat}
    (hbank : (draws.sort (s.bankDemand cfg r))[refBidIdx (draws.wrp r)
      (draws.sort (s.bankDemand cfg r))]? = some bank) : LeastLoaded cfg s r bank.2 := by
  have hperm := draws.sort_perm (s.bankDemand cfg r)
  have hsorted := draws.sort_sorted (s.bankDemand cfg r)
  have hdistinct : ((draws.sort (s.bankDemand cfg r)).map Prod.snd).Nodup := by
    refine ((hperm.map Prod.snd).nodup_iff).mpr ?_
    rw [bankDemand_eq, map_map]
    exact (map_id _).symm ▸ nodup_range
  rw [refBidIdx_eq_zero _ hdistinct] at hbank
  have hmem : ∀ d, d ∈ draws.sort (s.bankDemand cfg r) ↔
      ∃ b < cfg.maxBankCount, d = (s.demand r b, b) := by
    intro d
    rw [hperm.mem_iff, bankDemand_eq]
    simp [eq_comm]
  cases hlist : draws.sort (s.bankDemand cfg r) with
  | nil =>
    rw [hlist] at hbank
    cases hbank
  | cons d rest =>
    rw [hlist] at hbank hsorted hmem
    obtain rfl : d = bank := Option.some.inj hbank
    obtain ⟨b, hb, rfl⟩ := (hmem d).mp mem_cons_self
    refine ⟨hb, fun b' hb' => ?_⟩
    rcases mem_cons.mp ((hmem (s.demand r b', b')).mpr ⟨b', hb', rfl⟩) with heq | hrest
    · exact le_of_eq (congrArg Prod.fst heq).symm
    · exact (pairwise_cons.mp hsorted).1 _ hrest

/-! ## One rank -/

def queuedRefresh (cfg : RefreshConfig) (s : Scheduling) (target : RefreshTarget) : Request :=
  { ChannelController.refreshRequest cfg.controller cfg.id target with arrive := s.ctrl.clk }

/-- The refreshes `new` were enqueued, and no other request. -/
structure Enqueued (cfg : RefreshConfig) (s s' : Scheduling) (new : List RefreshTarget) : Prop where
  targets : s'.targets = s.targets ++ new
  otherq : s'.ctrl.otherq = s.ctrl.otherq ++ new.map (queuedRefresh cfg s)
  readq : s'.ctrl.readq = s.ctrl.readq
  writeq : s'.ctrl.writeq = s.ctrl.writeq
  clk : s'.ctrl.clk = s.ctrl.clk

theorem Enqueued.refl (cfg : RefreshConfig) (s : Scheduling) : Enqueued cfg s s [] :=
  ⟨(append_nil _).symm, (append_nil _).symm, rfl, rfl, rfl⟩

variable {new : List RefreshTarget}

theorem Enqueued.trans {s'' : Scheduling} (h : Enqueued cfg s s' new)
    (h' : Enqueued cfg s' s'' new') : Enqueued cfg s s'' (new ++ new') where
  targets := by rw [h'.targets, h.targets, append_assoc]
  otherq := by
    have hqueued : queuedRefresh cfg s' = queuedRefresh cfg s := by
      funext target
      rw [queuedRefresh, queuedRefresh, h.clk]
    rw [h'.otherq, h.otherq, hqueued, map_append, append_assoc]
  readq := h'.readq.trans h.readq
  writeq := h'.writeq.trans h.writeq
  clk := h'.clk.trans h.clk

theorem refreshBank_enqueued (hroom : s.ctrl.otherq.length < queueMax) :
    Ends (s.refreshBank cfg r b)
      (fun s' => Enqueued cfg s s' [bankTarget r b (s.refresh.subarrayRefCounters r b)])
      (fun e => e = .outOfBounds ∧ cfg.maxSaCount ≤ b) := by
  unfold refreshBank subarrayAt
  by_cases hb : b < cfg.maxSaCount
  · rw [if_pos hb]
    refine Ends.bind (Ends.pure rfl) (fun sa hsa => ?_)
    subst hsa
    have henqueue : ∀ target,
        s.ctrl.enqueue (ChannelController.refreshRequest cfg.controller cfg.id target) =
          some { s.ctrl with otherq := s.ctrl.otherq ++ [queuedRefresh cfg s target] } := by
      intro target
      have hlen : ¬ (s.ctrl.getQueue (ChannelController.refreshRequest cfg.controller cfg.id
          target).type).length = queueMax := ne_of_lt hroom
      rw [Controller.enqueue, if_neg hlen]
      rfl
    rw [refreshTarget, Controller.refresh, henqueue]
    exact ⟨rfl, rfl, rfl, rfl, rfl⟩
  · rw [if_neg hb]
    exact ⟨rfl, by omega⟩

/-- The refreshes of `wrp` for one rank: none, or one of a bank with the least
    demand. -/
def RankDone (cfg : RefreshConfig) (s : Scheduling) (r : Nat) (new : List RefreshTarget) : Prop :=
  new = [] ∨ (Eligible s r ∧ ∃ b sa, LeastLoaded cfg s r b ∧ new = [bankTarget r b sa])

/-- The lookup of the subarray, or of a bank of a rank that has none. -/
def BankAborts (cfg : RefreshConfig) (e : Abort) : Prop :=
  e = .outOfBounds ∧ (cfg.maxBankCount = 0 ∨ cfg.maxSaCount < cfg.maxBankCount)

theorem wrpRank_done (draws : Draws) (s : Scheduling) (r : Nat) : Ends (s.wrpRank cfg draws r)
      (fun s' => ∃ new, Enqueued cfg s s' new ∧ RankDone cfg s r new) (BankAborts cfg) := by
  have hskip : ∃ new, Enqueued cfg s s new ∧ RankDone cfg s r new :=
    ⟨[], .refl cfg s, Or.inl rfl⟩
  unfold wrpRank
  refine Ends.ite (fun _ => hskip) fun hnoRefresh => Ends.ite (fun _ => hskip) fun hwrites => ?_
  have hlen : (draws.sort (s.bankDemand cfg r)).length = cfg.maxBankCount := by
    rw [(draws.sort_perm _).length_eq, bankDemand_eq, length_map, length_range]
  refine Ends.bind (Vec.at_ends_of fun hout => ?_) fun bank hbank => ?_
  · refine ⟨rfl, Or.inl ?_⟩
    by_contra hpos
    have hlt := refBidIdx_lt (draws.wrp r) (show 0 < (draws.sort (s.bankDemand cfg r)).length by
      omega)
    omega
  · have hleast := leastLoaded_of_at draws (by simpa using hbank.2)
    unfold refreshWithin
    refine Ends.ite (fun hroom => ?_) fun _ => hskip
    rw [Bool.and_eq_true, hasRoom, decide_eq_true_eq, decide_eq_true_eq] at hroom
    refine (refreshBank_enqueued hroom.2).imp ?_ ?_
    · intro s' hs'
      refine ⟨_, hs', Or.inr ⟨⟨?_, ?_, hroom.2⟩, bank.2, _, hleast, rfl⟩⟩
      · intro req hreq htype hrank
        refine hnoRefresh (any_eq_true.mpr ⟨req, hreq, ?_⟩)
        rw [Bool.and_eq_true, decide_eq_true_eq, decide_eq_true_eq]
        exact ⟨htype, hrank⟩
      · rw [List.isEmpty_iff, toRank, filter_eq_nil_iff] at hwrites
        simpa using hwrites
    · rintro e ⟨he, hle⟩
      exact ⟨he, Or.inr (hle.trans_lt hleast.1)⟩

/-! ## All ranks -/

/-- Refreshes of other ranks make no difference to what is known of a rank. -/
theorem Eligible.of_enqueued (h : Enqueued cfg s s' new) (heligible : Eligible s' r) :
    Eligible s r where
  noRefresh req hreq := heligible.noRefresh req (by
    rw [h.otherq]
    exact mem_append_left _ hreq)
  write := by
    rw [← h.writeq]
    exact heligible.write
  room := by
    have hroom := heligible.room
    rw [h.otherq, length_append] at hroom
    omega

theorem LeastLoaded.of_enqueued (h : Enqueued cfg s s' new) (hleast : LeastLoaded cfg s' r b) :
    LeastLoaded cfg s r b := by
  have hdemand : s'.demand = s.demand := by
    funext r b
    rw [demand, demand, h.readq, h.writeq]
  rw [LeastLoaded, hdemand] at hleast
  exact hleast

theorem RankDone.of_enqueued (h : Enqueued cfg s s' new) (hdone : RankDone cfg s' r new') :
    RankDone cfg s r new' := by
  rcases hdone with hnil | ⟨heligible, b, sa, hleast, hnew⟩
  · exact Or.inl hnil
  · exact Or.inr ⟨heligible.of_enqueued h, b, sa, hleast.of_enqueued h, hnew⟩

theorem wrpRanks_done (draws : Draws) (ranks : List Nat) (hranks : ranks.Nodup) (s : Scheduling) :
    Ends (ranks.foldlM (wrpRank cfg draws) s) (fun s' => ∃ new : Nat → List RefreshTarget,
        Enqueued cfg s s' (ranks.flatMap new) ∧ ∀ r ∈ ranks, RankDone cfg s r (new r))
      (BankAborts cfg) := by
  induction ranks generalizing s with
  | nil => exact ⟨fun _ => [], .refl cfg s, fun r hr => by cases hr⟩
  | cons r ranks ih =>
    obtain ⟨hfresh, hnodup⟩ := nodup_cons.mp hranks
    rw [foldlM_cons]
    refine Ends.bind (wrpRank_done draws s r) ?_
    rintro s₁ ⟨new, hnew, hdone⟩
    refine (ih hnodup s₁).weaken ?_
    rintro s' ⟨rest, hrest, hdones⟩
    have hsame : ∀ r' ∈ ranks, update rest r new r' = rest r' := by
      intro r' hr'
      refine update_of_ne ?_ ..
      rintro rfl
      exact hfresh hr'
    refine ⟨update rest r new, ?_, fun r' hr' => ?_⟩
    · rw [flatMap_cons, update_self, flatMap_congr hsame]
      exact hnew.trans hrest
    · rcases mem_cons.mp hr' with rfl | hr'
      · rw [update_self]
        exact hdone
      · rw [hsame r' hr']
        exact (hdones r' hr').of_enqueued hnew

/-- For each rank, `wrp` enqueues at most one refresh: of a bank with the least
    demand, and only if no refresh of the rank is queued, a write to it is, and there
    is room.  It enqueues nothing else. -/
theorem wrp_leastLoaded (cfg : RefreshConfig) (draws : Draws) (s : Scheduling) :
    Ends (s.wrp cfg draws) (fun s' => ∃ new : Nat → List RefreshTarget,
        Enqueued cfg s s' ((List.range cfg.maxRankCount).flatMap new) ∧
          ∀ r < cfg.maxRankCount, RankDone cfg s r (new r)) (BankAborts cfg) := by
  refine (wrpRanks_done draws _ nodup_range s).weaken ?_
  rintro s' ⟨new, hnew, hdone⟩
  exact ⟨new, hnew, fun r hr => hdone r (mem_range.mpr hr)⟩

end Scheduling

end DSARP

end Ramulator
