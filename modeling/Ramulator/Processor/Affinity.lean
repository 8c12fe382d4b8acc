/-
  Ramulator.Processor.Affinity

  Perfect scheduling: a request goes to a core of its vault.

  The loops cut the vault out of an address as `send` will do later
  (`vaultOf_prepare`), so a core gets requests of its own vaults only.  With
  more than 32 cores the cores of a vault take turns, and none is more than one
  request ahead of another.

  No request of a PISA trace is lost.  Of a zsim trace those are lost whose
  address is 2 ^ 64 - 1: the loop takes it for the -1 of a line that is not a
  record (`dispatch_affine_iff`).
-/

import Ramulator.Hmc.Addresses
import Ramulator.Processor.Dispatch

namespace Ramulator

open Outcome List

variable {τ : Type}

/-- The vault of the dispatcher is the one `send` finds, for each of the three
    types of addresses. -/
theorem vaultOf_prepare (mem : MemoryConfig) (m : Memory) (req : Request) :
    Memory.vaultOf (m.prepare mem req) = vaultTarget mem req.addr := by
  unfold Memory.vaultOf Memory.prepare Memory.addrVec
  cases mem.type with
  | roCoBaVa => rfl
  | roBaCoVa => rfl
  | roCoBaBgVa => rfl

theorem vaultTarget_lt {mem : MemoryConfig} (hvaults : mem.hmc.org.vault = 32) (addr : Int) :
    vaultTarget mem addr < 32 := by
  have hbits : mem.addrBits HMC.Level.vault = 5 := by
    unfold MemoryConfig.addrBits
    rw [if_neg (by decide), HMC.OrgEntry.count, hvaults]
    decide
  unfold vaultTarget Memory.sliceLowerBits
  rw [hbits]
  exact Nat.lt_of_le_of_lt Nat.and_le_right (by decide)

namespace Dispatcher

variable {cfg : DispatchConfig} {mem : MemoryConfig} {d : Dispatcher τ} {E : Abort → Prop}
  {done : List Trace.Regs} {T : τ → Deal → Prop}

/-- Each of `requests` is in one queue (`filed`), that of a core of its vault, and the cores of
    a vault have the same number of requests, or one more. -/
structure Affine (cfg : DispatchConfig) (mem : MemoryConfig) (requests : List Trace.Regs)
    (d : Dispatcher τ) : Prop where
  requests : d.deals.map Deal.request = requests
  filed : Filed cfg d
  few : cfg.numberCores ≤ 32 → ∀ x ∈ d.deals, ∀ (m : Memory) (req : Request),
    req.addr = x.addr → (x.core : Int) = Memory.vaultOf (m.prepare mem req) % cfg.numberCores
  many : 32 < cfg.numberCores → ∀ x ∈ d.deals, ∀ (m : Memory) (req : Request),
    req.addr = x.addr → (x.core : Int) % 32 = Memory.vaultOf (m.prepare mem req)
  balanced : 32 < cfg.numberCores → ∀ v < 32, ∀ i < cfg.numberCores / 32,
    ∀ j < cfg.numberCores / 32, ∀ q q', d.queues[32 * i + v]? = some q →
      d.queues[32 * j + v]? = some q' → q.length ≤ q'.length + 1

/-- What the loops keep.  `T` says how the address of a request was translated. -/
structure Vaulted (cfg : DispatchConfig) (mem : MemoryConfig) (T : τ → Deal → Prop)
    (done : List Trace.Regs) (d : Dispatcher τ) : Prop where
  filed : Filed cfg d
  requests : d.deals.map Deal.request = done
  turns : 32 < cfg.numberCores → InTurn cfg d
  few : cfg.numberCores ≤ 32 → ∀ x ∈ d.deals, x.core = vaultTarget mem x.addr % cfg.numberCores
  many : 32 < cfg.numberCores → ∀ x ∈ d.deals, x.core % 32 = vaultTarget mem x.addr
  translated : ∀ x ∈ d.deals, T d.memory x

theorem Vaulted.start (memory : τ) : Vaulted cfg mem T [] (start cfg memory) where
  filed := Filed.start memory
  requests := rfl
  turns _ := InTurn.start memory
  few _ x hx := by cases hx
  many _ x hx := by cases hx
  translated x hx := by cases hx

theorem Filed.queue_length (h : Filed cfg d) {c : Nat} {q : List QueueEntry}
    (hq : d.queues[c]? = some q) : q.length = d.dealtToCore c := by
  have hc : c < cfg.numberCores := by
    rw [← h.length]
    exact (List.getElem?_eq_some_iff.mp hq).1
  rw [h.queue c hc] at hq
  rw [← Option.some.inj hq, length_map, ← countP_eq_length_filter]
  rfl

theorem Vaulted.affine (h : Vaulted cfg mem T done d) : Affine cfg mem done d where
  requests := h.requests
  filed := h.filed
  few hfew x hx m req haddr := by
    rw [vaultOf_prepare, haddr, h.few hfew x hx, Int.natCast_mod]
  many hmany x hx m req haddr := by
    rw [vaultOf_prepare, haddr, ← h.many hmany x hx, Int.natCast_mod]
    rfl
  balanced hmany v hv i hi j hj q q' hq hq' := by
    have hin := h.turns hmany
    rw [h.filed.queue_length hq, h.filed.queue_length hq', hin.share v hv i hi, hin.share v hv j hj]
    exact RoundRobin.share_le_succ ..

/-- A request is scheduled at the vault of its address; `memory` is the memory
    after the translation. -/
theorem Vaulted.schedule (h : Vaulted cfg mem T done d) {memory : τ} (regs : Trace.Regs)
    (addr : Int) (hgrow : ∀ x, T d.memory x → T memory x) (hnew : ∀ c, T memory ⟨regs, addr, c⟩)
    (hout : cfg.numberCores = 0 ∨ 32 ≤ vaultTarget mem addr → E .outOfBounds) :
    Ends ({ d with memory }.schedule cfg regs addr (vaultTarget mem addr))
      (Vaulted cfg mem T (done ++ [regs])) E := by
  have hfiled : Filed cfg { d with memory } := h.filed.of_eq rfl rfl
  have hturns (hmany : 32 < cfg.numberCores) : InTurn cfg { d with memory } :=
    (h.turns hmany).of_eq rfl rfl
  apply (schedule_ends hfiled hturns regs addr hout).weaken
  rintro d' ⟨hfiled', hturns', hmemory, c, hdeals, hfew, hmany⟩
  have hmem (P : Deal → Prop) (hold : ∀ x ∈ d.deals, P x) (hx : P ⟨regs, addr, c⟩) :
      ∀ x ∈ d'.deals, P x := by
    intro x hmem
    rw [hdeals] at hmem
    rcases mem_append.mp hmem with hmem | hmem
    · exact hold x hmem
    · rw [mem_singleton.mp hmem]
      exact hx
  refine ⟨hfiled', ?_, hturns', ?_, ?_, ?_⟩
  · rw [hdeals, map_append]
    show d.deals.map Deal.request ++ _ = _
    rw [h.requests]
    rfl
  · intro hle
    exact hmem _ (h.few hle) (hfew hle)
  · intro hlt
    exact hmem _ (h.many hlt) (hmany hlt)
  · rw [hmemory]
    exact hmem _ (fun x hx => hgrow x (h.translated x hx)) (hnew c)

section Loops

variable (hcores : 0 < cfg.numberCores) (hmem : cfg.hmc = some mem)
  (hvaults : mem.hmc.org.vault = 32)
include hcores hmem hvaults

theorem zsim_vaulted (hperfect : cfg.disablePerScheduling = false) {junk : Nat → Nat → Int}
    (hpages : ∀ m addr id, Ends (Memory.pageAllocator mem m addr id) (fun _ => True) E)
    (memory : Memory) (regs : Trace.Regs) (file : List (List Char)) :
    Ends (zsim cfg (Memory.base mem junk) memory regs file)
      (Vaulted cfg mem (fun m x => Memory.Placed mem m 0 x.request.reqAddr x.addr)
        ((Trace.requests regs file).filter (·.reqAddr ≠ -1))) E := by
  refine zsimLoop_ends (I := Vaulted cfg mem _) ?_ file regs [] (Vaulted.start memory)
  intro done d regs h haddr
  unfold dispatch dispatchPerfect
  rw [if_neg haddr, hperfect, hmem]
  apply Ends.bind (((Memory.pageAllocator_placed d.memory regs.reqAddr 0).and
    (hpages d.memory regs.reqAddr 0)).imp (fun _ hq => hq.1) (fun _ he => he.2))
  rintro ⟨addr, memory'⟩ ⟨hgrow, hplaced⟩
  apply h.schedule regs addr
  · intro x hx
    exact hx.grow hgrow
  · intro c
    exact hplaced
  · intro hbad
    have hlt := vaultTarget_lt hvaults addr
    omega

theorem pisa_vaulted {file : List Trace.PisaLine}
    (hout : (∃ line ∈ file, ¬ line.Known) → E .outOfBounds) (memory : τ) :
    Ends (pisa cfg memory file) (Vaulted cfg mem (fun _ x => x.addr = x.request.reqAddr)
        (Trace.pisaRequests Trace.instructions file)) E := by
  refine pisaLoop_ends (I := Vaulted cfg mem _) ?_ file Trace.instructions length_replicate
    hout [] (Vaulted.start memory)
  intro done d regs h
  unfold dispatchPisa
  rw [hmem]
  apply h.schedule regs regs.reqAddr
  · exact fun _ hx => hx
  · exact fun _ => rfl
  · intro hbad
    have hlt := vaultTarget_lt hvaults regs.reqAddr
    omega

/-- Both loops deal by vaults.  The loop over a PISA trace deals every request and
    aborts only at an unknown processor; the loop over a zsim trace deals every
    request exactly if none has the address -1, and aborts only as
    `page_allocator` may. -/
theorem dispatch_affine_iff (hperfect : cfg.disablePerScheduling = false) (junk : Nat → Nat → Int)
    (hpages : ∀ m addr id, Ends (Memory.pageAllocator mem m addr id) (fun _ => True) E)
    (memory : Memory) (regs : Trace.Regs) (file : List (List Char))
    (pisaFile : List Trace.PisaLine) : Ends (zsim cfg (Memory.base mem junk) memory regs file)
      (fun d => (Affine cfg mem (Trace.requests regs file) d ↔
          ∀ r ∈ Trace.requests regs file, r.reqAddr ≠ -1) ∧
        ∀ x ∈ d.deals, Memory.Placed mem d.memory 0 x.request.reqAddr x.addr) E ∧
    Ends (pisa cfg memory pisaFile)
      (fun d => Affine cfg mem (Trace.pisaRequests Trace.instructions pisaFile) d ∧
        ∀ x ∈ d.deals, x.addr = x.request.reqAddr) (fun _ => ∃ line ∈ pisaFile, ¬ line.Known) := by
  constructor
  · apply (zsim_vaulted hcores hmem hvaults hperfect hpages memory regs file).weaken
    intro d h
    refine ⟨?_, h.translated⟩
    constructor
    · intro haffine
      have hall := h.requests.symm.trans haffine.requests
      simpa using filter_eq_self.mp hall
    · intro hall
      have hsame := h.affine
      rw [filter_eq_self.mpr (by simpa using hall)] at hsame
      exact hsame
  · apply (pisa_vaulted (E := fun _ => ∃ line ∈ pisaFile, ¬ line.Known) hcores hmem hvaults
      (fun hbad => hbad) memory).weaken
    intro d h
    exact ⟨h.affine, h.translated⟩

end Loops

/-- A stack with 32 vaults and eight pages. -/
def wideStack (translation : Translation) : MemoryConfig where
  ctrl := { hmc := { org := ⟨32, 1, 1, 4, 64⟩, speed := HMC.speedTable .hmc2500, maxblock := .b64
                     sourceLinks := 2, payloadFlits := 2 } }
  translation := translation
  cub := fun _ => 0
  flitCycles := fun flits => flits
  lrand := fun n => 5 * n

/-- Perfect scheduling without translation. -/
def perfectCores (numberCores : Nat) : DispatchConfig :=
  { numberCores, hmc := some (wideStack .none) }

theorem wideStack_pages (m : Memory) (addr id : Int) :
    Ends (Memory.pageAllocator (wideStack .none) m addr id) (fun _ => True) (fun _ => False) :=
  Ends.pure trivial

/-- Three requests of vault 1 and one of vault 0, on two cores for each vault. -/
theorem dispatch_affine_iff_two_vaults :
    ∃ d, zsim (perfectCores 64) (Memory.base (wideStack .none) fun _ _ => 0)
        (Memory.new (wideStack .none)) firstRegs
        ["0 0 1 L 64".toList, "0 1 2 S 96".toList, "0 1 3 L 0".toList, "0 9 4 L 127".toList] =
          .ok d ∧ d.deals.map Deal.core = [1, 33, 0, 1] ∧
      Affine (perfectCores 64) (wideStack .none) (Trace.requests firstRegs
        ["0 0 1 L 64".toList, "0 1 2 S 96".toList, "0 1 3 L 0".toList, "0 9 4 L 127".toList])
        d := by
  have hmap : (zsim (perfectCores 64) (Memory.base (wideStack .none) fun _ _ => 0)
      (Memory.new (wideStack .none)) firstRegs
      ["0 0 1 L 64".toList, "0 1 2 S 96".toList, "0 1 3 L 0".toList,
        "0 9 4 L 127".toList]).toOption.map (fun d => d.deals.map Deal.core) =
      some [1, 33, 0, 1] := by decide +kernel
  obtain ⟨d, hrun, hcores⟩ := exists_ok_of_map hmap
  refine ⟨d, hrun, hcores, ?_⟩
  have hpos : 0 < (perfectCores 64).numberCores := by decide
  exact (((dispatch_affine_iff hpos rfl rfl rfl _ wideStack_pages _ _ _ []).1.result
    hrun).1).mpr (by decide +kernel)

/-- A request with the largest address is dealt to nobody. -/
theorem largest_address_lost :
    ∃ d, zsim (perfectCores 1) (Memory.base (wideStack .none) fun _ _ => 0)
        (Memory.new (wideStack .none)) firstRegs ["0 0 1 L 18446744073709551615".toList] = .ok d ∧
      Trace.parse "0 0 1 L 18446744073709551615".toList = .record ⟨0, 1, -1, some .read⟩ ∧
      d.queues = [[]] ∧ ¬ Affine (perfectCores 1) (wideStack .none) (Trace.requests firstRegs
        ["0 0 1 L 18446744073709551615".toList]) d := by
  have hmap : (zsim (perfectCores 1) (Memory.base (wideStack .none) fun _ _ => 0)
      (Memory.new (wideStack .none)) firstRegs
      ["0 0 1 L 18446744073709551615".toList]).toOption.map
        (fun d => (d.queues, d.deals.length)) = some ([[]], 0) := by decide +kernel
  obtain ⟨d, hrun, heq⟩ := exists_ok_of_map hmap
  refine ⟨d, hrun, by decide, congrArg Prod.fst heq, fun haffine => ?_⟩
  have hlength := congrArg List.length haffine.requests
  rw [length_map, show d.deals.length = 0 from congrArg Prod.snd heq] at hlength
  exact absurd hlength (by decide +kernel)

end Dispatcher

end Ramulator
