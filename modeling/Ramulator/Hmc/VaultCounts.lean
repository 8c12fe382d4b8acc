/-
  Ramulator.Hmc.VaultCounts

  `requests_per_vault` of `Memory<HMC>` (HMC_Memory.h).

  The vector has 32 entries, whatever the number of vaults is.  `send` counts a
  request for its vault before it looks for a tag and for room in the link, so it
  also counts a request that it then refuses.  Nothing takes such a count back.

  Beside the memory and the vector the model keeps the requests that were accepted
  and those that were refused.  An entry is the number of both together
  (`Counted`), so it is the number of the accepted ones exactly as long as every
  `send` finds a tag and room, or the mode is PIM (`vault_counts_iff`).
-/

import Ramulator.Hmc.Conservation
import Ramulator.Hmc.Mapping

namespace Ramulator

open Outcome List

namespace Memory

variable {cfg : MemoryConfig} {org : HMC.Org}

structure Counting where
  memory : Memory
  requestsPerVault : List Nat := replicate 32 0
  /-- The requests that `send` accepted, with their address vectors. -/
  accepted : List Request := []
  /-- The requests that `send` refused. -/
  refused : List Request := []

namespace Counting

def send (cfg : MemoryConfig) (st : Counting) (req : Request) : Except Abort Counting := do
  let offered := st.memory.prepare cfg req
  let count ← Vec.at st.requestsPerVault (vaultOf offered)
  let requestsPerVault := st.requestsPerVault.set (vaultOf offered).toNat (count + 1)
  let (accepted, memory) ← st.memory.send cfg req
  if accepted then pure { st with memory, requestsPerVault, accepted := st.accepted ++ [offered] }
  else pure { st with memory, requestsPerVault, refused := st.refused ++ [offered] }

/-- One call. -/
def step (cfg : MemoryConfig) (st : Counting) : Op → Except Abort Counting
  | .send req => st.send cfg req
  | .tick junk => do
      let memory ← st.memory.tick cfg junk
      pure { st with memory }

/-- Any interleaving of `send` and `tick` from the start. -/
def run (cfg : MemoryConfig) (ops : List Op) : Except Abort Counting :=
  ops.foldlM (step cfg) { memory := Memory.new cfg }

end Counting

def forVault (v : Nat) (reqs : List Request) : Nat := reqs.countP (vaultOf · = v)

def VaultsCounted (cfg : MemoryConfig) (st : Counting) : Prop :=
  ∀ v < cfg.hmc.org.vault, st.requestsPerVault[v]? = some (forVault v st.accepted)

instance (cfg : MemoryConfig) (st : Counting) : Decidable (VaultsCounted cfg st) :=
  inferInstanceAs (Decidable (∀ v < _, _))

/-! ## What is counted -/

/-- What the calls keep: an entry counts all requests that were offered. -/
structure Counted (cfg : MemoryConfig) (st : Counting) : Prop where
  length : st.requestsPerVault.length = 32
  entry : ∀ v < 32, st.requestsPerVault[v]? = some (forVault v st.accepted + forVault v st.refused)
  vault : ∀ req ∈ st.refused, ∃ v < cfg.hmc.org.vault, vaultOf req = (v : Int)

theorem prepare_vault (horg : cfg.hmc.org = HMC.orgTable org) (m : Memory) (req : Request) :
    ∃ v < cfg.hmc.org.vault, vaultOf (m.prepare cfg req) = (v : Int) := by
  have hranges := prepare_inRanges horg m req
  obtain ⟨x, rest, ⟨hnonneg, hlt⟩, -, hvec⟩ := forall₂_cons_right_iff.mp hranges
  have hcount : (2 : Int) ^ cfg.addrBits HMC.Level.vault = cfg.hmc.org.vault := by
    have := (addrBits_counts horg).1 HMC.Level.vault (by decide)
    exact_mod_cast this
  rw [hcount] at hlt
  refine ⟨x.toNat, by omega, ?_⟩
  rw [vaultOf, hvec, Int.toNat_of_nonneg hnonneg]
  rfl

theorem forVault_concat (v : Nat) (reqs : List Request) (req : Request) :
    forVault v (reqs ++ [req]) = forVault v reqs + if vaultOf req = v then 1 else 0 := by
  unfold forVault
  rw [countP_append, countP_singleton]
  simp

theorem getElem?_count {counts : List Nat} {w n : Nat} (hw : counts[w]? = some n) (v : Nat) :
    (counts.set w (n + 1))[v]? = (counts[v]?).map (· + if w = v then 1 else 0) := by
  by_cases heq : w = v
  · subst heq
    rw [getElem?_set_self (List.getElem?_eq_some_iff.mp hw).1, hw, if_pos rfl]
    rfl
  · rw [getElem?_set_ne heq]
    simp [heq]

theorem Counted.send (horg : cfg.hmc.org = HMC.orgTable org) {st : Counting} (h : Counted cfg st)
    (req : Request) : Yields (st.send cfg req) (Counted cfg) := by
  obtain ⟨w, hw, hvault⟩ := prepare_vault horg st.memory req
  apply Ends.bind ((Vec.at_ends _ _).ignore)
  rintro count ⟨-, hcount⟩
  rw [hvault, Int.toNat_natCast] at hcount
  apply Ends.bind (Ends.ran (st.memory.send cfg req))
  rintro ⟨accepted, memory⟩ -
  -- the entry of the vault counts the request, whatever becomes of it
  have hentry (v : Nat) (hv : v < 32) :
      (st.requestsPerVault.set (vaultOf (st.memory.prepare cfg req)).toNat (count + 1))[v]? =
        some (forVault v st.accepted + forVault v st.refused +
          if vaultOf (st.memory.prepare cfg req) = v then 1 else 0) := by
    rw [hvault, Int.toNat_natCast, getElem?_count hcount, h.entry v hv]
    simp
  have hlength : (st.requestsPerVault.set (vaultOf (st.memory.prepare cfg req)).toNat
      (count + 1)).length = 32 := by
    rw [length_set]
    exact h.length
  apply Ends.ite
  · intro _
    refine ⟨hlength, ?_, h.vault⟩
    intro v hv
    show _ = some (forVault v (st.accepted ++ [_]) + forVault v st.refused)
    rw [hentry v hv, forVault_concat]
    congr 1
    omega
  · intro _
    refine ⟨hlength, ?_, ?_⟩
    · intro v hv
      show _ = some (forVault v st.accepted + forVault v (st.refused ++ [_]))
      rw [hentry v hv, forVault_concat]
      congr 1
      omega
    · exact forall_mem_concat h.vault ⟨w, hw, hvault⟩

theorem run_counted (horg : cfg.hmc.org = HMC.orgTable org) (ops : List Op) :
    Yields (Counting.run cfg ops) (Counted cfg) := by
  apply Ends.foldlM ops
  · refine ⟨length_replicate, ?_, ?_⟩
    · intro v hv
      show (replicate 32 0)[v]? = some 0
      rw [getElem?_replicate, if_pos hv]
    · intro req hreq
      cases hreq
  · intro st op _ h
    cases op with
    | send req => exact h.send horg req
    | tick junk =>
      apply Ends.bind (Ends.ran (st.memory.tick cfg junk))
      intro memory _
      exact ⟨h.length, h.entry, h.vault⟩

/-- The counts are right exactly if there are not too many vaults and no request
    was refused. -/
theorem Counted.vaultsCounted_iff {st : Counting} (h : Counted cfg st) :
    VaultsCounted cfg st ↔ cfg.hmc.org.vault ≤ 32 ∧ st.refused = [] := by
  constructor
  · intro hcounted
    have hle : cfg.hmc.org.vault ≤ 32 := by
      by_contra hmany
      have hlast := hcounted 32 (by omega)
      rw [getElem?_eq_none (Nat.le_of_eq h.length)] at hlast
      cases hlast
    refine ⟨hle, ?_⟩
    apply eq_nil_iff_forall_not_mem.mpr
    intro req hreq
    obtain ⟨v, hv, hvault⟩ := h.vault req hreq
    have hpos : 0 < forVault v st.refused :=
      countP_pos_iff.mpr ⟨req, hreq, by simpa using hvault⟩
    have hentry := (h.entry v (by omega)).symm.trans (hcounted v hv)
    have := Option.some.inj hentry
    omega
  · rintro ⟨hle, hrefused⟩ v hv
    rw [h.entry v (by omega), hrefused]
    rfl

/-! ## The runs -/

/-- A `send` finds a tag and room for its request, or the mode is PIM. -/
def SendFindsRoom (cfg : MemoryConfig) (st : Counting) : Op → Prop
  | .send req => FindsRoom cfg st.memory req
  | .tick _ => True

instance (cfg : MemoryConfig) (st : Counting) : DecidablePred (SendFindsRoom cfg st)
  | .send req => inferInstanceAs (Decidable (FindsRoom cfg st.memory req))
  | .tick _ => inferInstanceAs (Decidable True)

theorem step_refused {st st' : Counting} {op : Op} (hstep : st.step cfg op = .ok st') :
    st'.refused = [] ↔ st.refused = [] ∧ SendFindsRoom cfg st op := by
  cases op with
  | tick junk =>
    obtain ⟨memory, -, heq⟩ := bind_ok.mp hstep
    cases heq
    exact (and_iff_left trivial).symm
  | send req =>
    obtain ⟨count, -, hrest⟩ := bind_ok.mp hstep
    obtain ⟨⟨accepted, memory⟩, hsend, heq⟩ := bind_ok.mp hrest
    have hiff := send_accepted_iff hsend
    cases accepted with
    | true =>
      cases heq
      exact (and_iff_left (hiff.mp rfl)).symm
    | false =>
      cases heq
      refine iff_of_false (by simp) fun h => ?_
      cases hiff.mpr h.2

theorem refused_iff {ops : List Op} {st st' : Counting}
    (hrun : ops.foldlM (Counting.step cfg) st = .ok st') : st'.refused = [] ↔
      st.refused = [] ∧ Along (Counting.step cfg) (SendFindsRoom cfg) ops st := by
  induction ops generalizing st with
  | nil =>
    cases hrun
    exact (and_iff_left trivial).symm
  | cons op ops ih =>
    rw [foldlM_cons] at hrun
    obtain ⟨st₁, hstep, hrest⟩ := bind_ok.mp hrun
    rw [ih hrest, step_refused hstep, Along, hstep, and_assoc]
    rfl

theorem run_session (horg : cfg.hmc.org = HMC.orgTable org) (hvaults : cfg.hmc.org.vault ≤ 32)
    (ops : List Op) : Sim (fun (st : Counting) (s : Session) => st.memory = s.memory ∧
      st.requestsPerVault.length = 32) (Counting.run cfg ops) (session cfg ops) := by
  apply Sim.foldlM ops
  · exact ⟨rfl, length_replicate⟩
  · rintro st ⟨m, tickets⟩ op ⟨rfl, hlength⟩
    cases op with
    | send req =>
      obtain ⟨w, hw, hvault⟩ := prepare_vault horg st.memory req
      obtain ⟨count, hcount⟩ : ∃ count,
          Vec.at st.requestsPerVault (vaultOf (st.memory.prepare cfg req)) = .ok count := by
        rw [hvault, Vec.at, if_neg (by omega), Int.toNat_natCast,
          getElem?_eq_getElem (by omega)]
        exact ⟨_, rfl⟩
      show Sim _ (Vec.at st.requestsPerVault _ >>= _) (st.memory.send cfg req >>= _)
      rw [hcount]
      show Sim _ (st.memory.send cfg req >>= _) (st.memory.send cfg req >>= _)
      apply Sim.bind_same
      rintro ⟨accepted, memory⟩
      cases accepted with
      | true => exact ⟨rfl, by rw [length_set]; exact hlength⟩
      | false => exact ⟨rfl, by rw [length_set]; exact hlength⟩
    | tick junk =>
      apply Sim.bind_same
      intro memory
      exact ⟨rfl, hlength⟩

/-- After any calls of `send` and `tick`, every vault has an entry with the number of
    requests accepted for it exactly if the organisation has no more than 32 vaults and
    every `send` found a tag and room for its packet, or the mode is PIM.  A run may abort
    only where the memory does, or for want of an entry. -/
theorem vault_counts_iff {org : HMC.Org} (horg : cfg.hmc.org = HMC.orgTable org) (ops : List Op) :
    Ends (Counting.run cfg ops) (fun st => VaultsCounted cfg st ↔ cfg.hmc.org.vault ≤ 32 ∧
        Along (Counting.step cfg) (SendFindsRoom cfg) ops { memory := Memory.new cfg })
      (fun e => 32 < cfg.hmc.org.vault ∨ session cfg ops = .error e) := by
  apply Ends.intro
  · intro st hrun
    rw [((run_counted horg ops).result hrun).vaultsCounted_iff, refused_iff hrun]
    exact and_congr_right fun _ => and_iff_right rfl
  · intro e hrun
    by_cases hvaults : cfg.hmc.org.vault ≤ 32
    · have hsim := run_session horg hvaults ops
      rw [hrun] at hsim
      cases hsession : session cfg ops with
      | ok s =>
        rw [hsession] at hsim
        exact hsim.elim
      | error e' =>
        rw [hsession] at hsim
        have heq : e = e' := hsim
        rw [heq]
        exact Or.inr rfl
    · exact Or.inl (by omega)

/-- A stack of 4 Gb takes a write for vault 1. -/
theorem vault_counts_iff_one_write :
    ∃ st, Counting.run (stackOf4Gb .none) [.send { addr := 64, type := .write }] = .ok st ∧
      st.accepted.map vaultOf = [1] ∧ VaultsCounted (stackOf4Gb .none) st := by
  have hmap : (Counting.run (stackOf4Gb .none)
      [.send { addr := 64, type := .write }]).toOption.map (·.accepted.map vaultOf) = some [1] := by
    decide +kernel
  obtain ⟨st, hrun, haccepted⟩ := exists_ok_of_map hmap
  have horg : (stackOf4Gb .none).hmc.org = HMC.orgTable .gb4 := rfl
  have hiff := (vault_counts_iff horg _).result hrun
  exact ⟨st, hrun, haccepted, hiff.mpr ⟨by decide, by decide +kernel⟩⟩

def stackOf64Vaults : MemoryConfig :=
  { stackOf4Gb .none with
    ctrl := { (stackOf4Gb .none).ctrl with
      hmc := { (stackOf4Gb .none).ctrl.hmc with org := HMC.orgTable .gb4va64 } } }

/-- Vault 32 of 64 has no entry from the start, and the first request for it is
    counted outside of the vector. -/
theorem no_entry_for_vault_32 :
    (∃ st, Counting.run stackOf64Vaults [] = .ok st ∧ st.requestsPerVault[32]? = none ∧
      ¬ VaultsCounted stackOf64Vaults st) ∧
    Counting.run stackOf64Vaults [.send { addr := 2048, type := .read }] = .error .outOfBounds := by
  refine ⟨⟨_, rfl, rfl, ?_⟩, rfl⟩
  intro hcounted
  have := hcounted 32 (by decide)
  cases this

end Memory

end Ramulator
