/-
  Ramulator.Processor.CacheOptions

  Where a request that `Core::send` takes ends up, for each cache option.

  The constructor of a core binds `send` to its L1, to the shared L3 or to the
  memory.  `CacheSystem` calls L1 the last level in every case, so a miss in an L1
  goes to `wait_list`, with an L2 or an L3 behind it or without.  A miss in an L3
  that is bound directly is passed to a lower cache, and there is none
  (`l3_without_core_caches`).
-/

import Ramulator.Cache.Steps
import Ramulator.Processor.Basic

namespace Ramulator

open Outcome

namespace Core

variable {τ : Type} {cfg : ProcessorConfig}

/-- An accepted miss joins the MSHR entry of its block, or waits as a read behind a write-back. -/
def MissWaits (ccfg : CacheConfig) (c : Cache) (sys sys' : CacheSystem) (req : Request) : Prop :=
  (∃ entry ∈ c.mshrEntries, ccfg.align entry.1 = ccfg.align req.addr ∧
      sys'.waitList = sys.waitList) ∨
    ((∀ entry ∈ c.mshrEntries, ccfg.align entry.1 ≠ ccfg.align req.addr) ∧
      ∃ writes : List (Int × Request), (∀ x ∈ writes, x.2.type = .write) ∧
        sys'.waitList = sys.waitList ++ writes ++
          [(sys.clk + ccfg.latency, { req with type := .read })])

/-- A miss in the cache bound to `send` waits for the memory, or there are no caches. -/
def ReachesMemory (cfg : ProcessorConfig) (base : MemoryBase τ) (core : Core) (u : Uncore τ)
    (req : Request) (out : Bool × Core × Uncore τ) : Prop :=
  let accepted := out.1
  if cfg.coreCaches then
    accepted = true → Cache.isHit cfg.l1 (core.l1.getLines cfg.l1 req.addr) req.addr = none →
      MissWaits cfg.l1 core.l1 u.cachesys out.2.2.cachesys req
  else if cfg.l3Cache then
    accepted = true → Cache.isHit cfg.llc (u.llc.getLines cfg.llc req.addr) req.addr = none →
      MissWaits cfg.llc u.llc u.cachesys out.2.2.cachesys req
  else ∃ memory, base.send u.memory req = .ok (accepted, memory) ∧
    out.2 = (core, { u with memory })

theorem writtenBack_writes (ccfg : CacheConfig) (sys : CacheSystem) (victim : Option Line) :
    ∀ x ∈ Cache.writtenBack ccfg sys victim, x.2.type = .write := by
  intro x hx
  cases victim with
  | none => cases hx
  | some line =>
    dsimp only [Cache.writtenBack] at hx
    split at hx
    · rw [List.mem_singleton.mp hx]
    · cases hx

theorem missWaits_of_sent {ccfg : CacheConfig} {c c' : Cache} {sys sys' : CacheSystem}
    {req : Request} (hsent : Cache.Sent ccfg c sys req true c' sys')
    (hmiss : Cache.isHit ccfg (c.getLines ccfg req.addr) req.addr = none) :
    MissWaits ccfg c sys sys' req := by
  cases hsent with
  | hit _ _ _ hhit =>
    rw [hmiss] at hhit
    cases hhit
  | merged _ hentry hblock => exact Or.inl ⟨_, hentry, hblock, rfl⟩
  | missed _ hfresh _ _ _ =>
    exact Or.inr ⟨hfresh, _, writtenBack_writes ccfg sys _, rfl⟩

theorem send_l3_eq_error (hcaches : cfg.coreCaches = false) (hl3 : cfg.l3Cache = true)
    (htraces : 0 < cfg.traceNum) (base : MemoryBase τ) (core : Core) (memory : τ) (addr : Int) :
    core.send cfg base { memory } { addr, type := .read } = .error .nullPointer := by
  -- the L3 is empty: the request misses, finds an MSHR entry and room in its set
  have hentries : ¬ 0 = 16 * cfg.traceNum := by omega
  unfold Core.send
  rw [if_neg (by simp [hcaches]), if_pos hl3]
  simp [Cache.send, Cache.getLines, Cache.isHit, Cache.findTag, Cache.miss, Cache.hitMshr,
    Cache.allSetsLocked, Cache.allocate, Cache.makeRoom, Cache.needEviction, Cache.sendLower,
    ProcessorConfig.llc, CacheConfig.isLastLevel, hentries]
  rfl

theorem send_reaches (h : cfg.coreCaches = true ∨ cfg.l3Cache = false) (base : MemoryBase τ)
    (core : Core) (u : Uncore τ) (req : Request) :
    Ends (core.send cfg base u req) (ReachesMemory cfg base core u req)
      (fun e => (cfg.coreCaches || cfg.l3Cache) = true → e ≠ .nullPointer) := by
  unfold Core.send
  by_cases hcaches : cfg.coreCaches = true
  · rw [if_pos hcaches]
    refine Ends.bind ((Cache.send_ends rfl core.l1 u.cachesys req).weaken_abort ?_) ?_
    · -- none of the assertions of `send` is about a pointer
      rintro e (⟨rfl, -⟩ | ⟨rfl, -⟩ | ⟨rfl, -⟩) _
      · nofun
      · nofun
      · nofun
    · rintro ⟨accepted, l1, cachesys⟩ hsent
      show ReachesMemory cfg base core u req _
      simp only [ReachesMemory, if_pos hcaches]
      rintro rfl hmiss
      exact missWaits_of_sent hsent hmiss
  · have hl3 : cfg.l3Cache = false := h.resolve_left hcaches
    rw [if_neg hcaches, if_neg (by simp [hl3])]
    refine Ends.bind ((Ends.ran (base.send u.memory req)).weaken_abort ?_) ?_
    · intro e _ hnone
      simp [hl3] at hnone
      exact absurd hnone hcaches
    · rintro ⟨accepted, memory⟩ hsend
      show ReachesMemory cfg base core u req _
      simp only [ReachesMemory, if_neg hcaches, if_neg (show ¬ cfg.l3Cache = true by simp [hl3])]
      exact ⟨memory, hsend, rfl⟩

def takesAll : MemoryBase Unit where
  send _ _ := pure (true, ())
  pageAllocator _ addr _ := pure (addr, ())
  tick _ := pure ([], ())
  pendingRequests _ := 0

/-- Every miss that is accepted reaches the memory or its `wait_list`, for each
    number of traces, if and only if the cores have caches or there is no L3. -/
theorem send_reaches_memory_iff (cfg : ProcessorConfig) (htraces : 0 < cfg.traceNum) :
    (∀ (τ : Type) (base : MemoryBase τ) (core : Core) (u : Uncore τ) (req : Request),
      Ends (core.send cfg base u req) (ReachesMemory cfg base core u req)
        (fun e => (cfg.coreCaches || cfg.l3Cache) = true → e ≠ .nullPointer)) ↔
      cfg.coreCaches = true ∨ cfg.l3Cache = false := by
  constructor
  · intro h
    by_contra hnot
    obtain ⟨hcaches, hl3⟩ : cfg.coreCaches = false ∧ cfg.l3Cache = true := by simpa using hnot
    -- the first request of a run on an empty L3
    have herror := send_l3_eq_error hcaches hl3 htraces takesAll (Processor.newCore 0 {}) () 0
    exact (h Unit _ _ _ _).abort herror (by simp [hl3]) rfl
  · intro h τ base core u req
    exact send_reaches h base core u req

/-- With all levels, the first request of a core waits for the memory. -/
theorem send_reaches_memory_iff_all :
    ∃ out, (Processor.newCore 0 {}).send ⟨true, true, .outOrder, false, 1⟩ takesAll { memory := () }
        { addr := 64, type := .write } = .ok out ∧
      out.2.2.cachesys.waitList = [(4, { addr := 64, type := .read })] ∧
      ReachesMemory ⟨true, true, .outOrder, false, 1⟩ takesAll (Processor.newCore 0 {})
        { memory := () } { addr := 64, type := .write } out := by
  have heval : ((Processor.newCore 0 {}).send ⟨true, true, .outOrder, false, 1⟩ takesAll
      { memory := () } { addr := 64, type := .write }).toOption.map
        (fun out => out.2.2.cachesys.waitList) =
      some [(4, { addr := 64, type := .read })] := by decide +kernel
  obtain ⟨out, hsend, hwaits⟩ := exists_ok_of_map heval
  have hreaches := (send_reaches_memory_iff ⟨true, true, .outOrder, false, 1⟩ Nat.one_pos).mpr
    (Or.inl rfl) Unit takesAll (Processor.newCore 0 {}) { memory := () }
    { addr := 64, type := .write }
  exact ⟨out, hsend, hwaits, hreaches.result hsend⟩

/-- With an L3 and no core caches, the first miss follows a null pointer. -/
theorem l3_without_core_caches :
    (Processor.newCore 0 {}).send ⟨false, true, .outOrder, false, 1⟩ takesAll { memory := () }
      { addr := 64, type := .read } = .error .nullPointer :=
  send_l3_eq_error rfl rfl Nat.one_pos takesAll (Processor.newCore 0 {}) () 64

end Core

end Ramulator
