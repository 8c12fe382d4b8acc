/-
  Ramulator.Processor.AddressSpace

  The address space of a processor of the trace.

  Without perfect scheduling a request is translated with a key, and
  `page_allocator` keeps a page table for every key.  With up to 256 cores the
  key is the processor of the request, so a processor has one address space.

  With more cores the key is `cpu_id + offset_counter[cpu_id] * 256`, another
  one for every request of the processor: the page of its first request is not
  found again by the second (`one_space_iff`).
-/

import Ramulator.Processor.Affinity

namespace Ramulator

open Outcome List

namespace Dispatcher

variable {cfg : DispatchConfig} {mem : MemoryConfig} {m : Memory}

/-- The page of 4 KB an address lies in. -/
def pageNumber (addr : Int) : Int := addr / 2 ^ 12

def OneSpace (d : Dispatcher Memory) : Prop :=
  ∀ x ∈ d.deals, ∀ y ∈ d.deals, x.request.cpuId = y.request.cpuId →
    pageNumber x.request.reqAddr = pageNumber y.request.reqAddr →
      pageNumber x.addr = pageNumber y.addr

/-- A translation by random pages and by processors. -/
def byProcessorConfig (numberCores : Nat) (mem : MemoryConfig) : DispatchConfig :=
  { numberCores, disablePerScheduling := true, hmc := some mem }

/-! ## Up to 256 cores -/

theorem page_eq_of_placed (hrandom : mem.translation = .random) {key a b pa pb : Int}
    (ha : Memory.Placed mem m key a pa) (hb : Memory.Placed mem m key b pb)
    (hpage : pageNumber a = pageNumber b) : pageNumber pa = pageNumber pb := by
  have hshift (addr : Int) : addr >>> (12 : Int) = pageNumber addr :=
    (Int.shiftRight_natCast_right addr 12).trans (Int.shiftRight_eq_div_pow addr 12)
  unfold Memory.Placed at ha hb
  rw [hrandom] at ha hb
  obtain ⟨page, htable, rfl⟩ := ha
  obtain ⟨page', htable', rfl⟩ := hb
  rw [hshift, hpage, ← hshift, htable'] at htable
  cases htable
  unfold pageNumber
  omega

theorem zsim_placed (hproc : cfg.disablePerScheduling = true) (hfew : cfg.numberCores ≤ 256)
    (junk : Nat → Nat → Int) (memory : Memory) (regs : Trace.Regs) (file : List (List Char)) :
    Yields (zsim cfg (Memory.base mem junk) memory regs file) (fun d =>
      Dealing cfg ((Trace.requests regs file).filter (·.reqAddr ≠ -1)) d ∧
      ∀ x ∈ d.deals, Memory.Placed mem d.memory x.request.cpuId x.request.reqAddr x.addr) := by
  refine zsimLoop_ends (I := fun done d => Dealing cfg done d ∧
      ∀ x ∈ d.deals, Memory.Placed mem d.memory x.request.cpuId x.request.reqAddr x.addr)
    ?_ file regs [] ⟨Dealing.start memory, fun x hx => by cases hx⟩
  rintro done d regs ⟨h, hplaced⟩ haddr
  rw [dispatch, if_neg haddr, if_pos hproc]
  apply (h.byProcessor hproc regs).weaken
  rintro d' ⟨h', x, hdeals, hx, key, halloc, hkey⟩
  obtain ⟨hgrow, hnew⟩ := (Memory.pageAllocator_placed d.memory regs.reqAddr key).result halloc
  refine ⟨h', ?_⟩
  rw [hdeals]
  intro y hy
  rcases mem_append.mp hy with hy | hy
  · exact (hplaced y hy).grow hgrow
  · rw [mem_singleton.mp hy, hx, ← hkey hfew]
    exact hnew

/-! ## More than 256 cores -/

/-- The record of the two requests. -/
def pageZero : List Char := "0 0 0 L 0".toList

/-- The second request of processor 0 has the key 256 and gets another page. -/
theorem pages_differ :
    ∃ m₁ m₂, Memory.pageAllocator (wideStack .random) (Memory.new (wideStack .random)) 0 0 =
        .ok (0, m₁) ∧ Memory.pageAllocator (wideStack .random) m₁ 0 256 = .ok (5 * 4096, m₂) := by
  have hpages : (do
      let out ← Memory.pageAllocator (wideStack .random) (Memory.new (wideStack .random)) 0 0
      let out' ← Memory.pageAllocator (wideStack .random) out.2 0 256
      pure (out, out')).toOption.map (fun (outs : (Int × Memory) × Int × Memory) =>
        (outs.1.1, outs.2.1)) = some (0, 5 * 4096) := by decide +kernel
  obtain ⟨⟨⟨a, m₁⟩, b, m₂⟩, hrun, heq⟩ := exists_ok_of_map hpages
  obtain ⟨out, hfirst, hrun⟩ := bind_ok.mp hrun
  obtain ⟨out', hsecond, hrun⟩ := bind_ok.mp hrun
  cases hrun
  cases heq
  exact ⟨m₁, m₂, hfirst, hsecond⟩

theorem dispatchByProcessor_many (d : Dispatcher Memory) (junk : Nat → Nat → Int)
    (regs : Trace.Regs) (offset c : Nat) {addr : Int} (hmany : 256 < cfg.numberCores)
    (hoffset : d.offsetCounter[regs.cpuId]? = some offset)
    (hkey : toInt (regs.cpuId + offset * 256) = c) (hc : c < cfg.numberCores)
    (hlength : d.queues.length = cfg.numberCores)
    (halloc : Memory.pageAllocator mem d.memory regs.reqAddr c = .ok (addr, m)) :
    ∃ d', d.dispatchByProcessor cfg (Memory.base mem junk) regs = .ok d' ∧
      d'.queues.length = cfg.numberCores ∧ d'.memory = m ∧
      d'.offsetCounter = d.offsetCounter.set regs.cpuId (offset + 1) ∧
      d'.deals = d.deals ++ [⟨regs, addr, c⟩] := by
  have hcore : (c : Int).tmod cfg.numberCores = c := by
    rw [Int.tmod_eq_emod_of_nonneg (by omega), Int.emod_eq_of_lt (by omega) (by omega)]
  have hat {α : Type} (xs : List α) (i : Nat) (x : α) (hx : xs[i]? = some x) :
      Vec.at xs (i : Int) = .ok x := by
    rw [Vec.at, if_neg (by omega), Int.toNat_natCast, hx]
  obtain ⟨q, hq⟩ : ∃ q, d.queues[c]? = some q :=
    ⟨_, getElem?_eq_getElem (by rw [hlength]; exact hc)⟩
  rw [dispatchByProcessor, if_neg (by omega), hat _ _ _ hoffset]
  show ∃ d', (Memory.pageAllocator mem d.memory regs.reqAddr (toInt _) >>= _) = .ok d' ∧ _
  rw [hkey, halloc, hcore]
  show ∃ d', (Vec.at d.queues c >>= _) = .ok d' ∧ _
  rw [hat _ _ _ hq]
  exact ⟨_, rfl, by rw [length_set]; exact hlength, rfl, rfl, rfl⟩

theorem two_pages {numberCores : Nat} (hmany : 256 < numberCores) (junk : Nat → Nat → Int) :
    ∃ d, zsim (byProcessorConfig numberCores (wideStack .random))
        (Memory.base (wideStack .random) junk) (Memory.new (wideStack .random)) firstRegs
        [pageZero, pageZero] = .ok d ∧ ¬ OneSpace d := by
  obtain ⟨m₁, m₂, hfirst, hsecond⟩ := pages_differ
  have hread (regs : Trace.Regs) : Trace.getZsimRequest regs pageZero = some ⟨0, 0, .read, 0⟩ := by
    rw [Trace.getZsimRequest, show Trace.parse pageZero = .record ⟨0, 0, 0, some .read⟩ by decide]
    rfl
  have hdispatch (d : Dispatcher Memory) :
      d.dispatch (byProcessorConfig numberCores (wideStack .random))
        (Memory.base (wideStack .random) junk) ⟨0, 0, .read, 0⟩ =
      d.dispatchByProcessor (byProcessorConfig numberCores (wideStack .random))
        (Memory.base (wideStack .random) junk) ⟨0, 0, .read, 0⟩ := by
    rw [dispatch, if_neg (by decide)]
    rfl
  have hmany' : 256 < (byProcessorConfig numberCores (wideStack .random)).numberCores := hmany
  -- the first request has the key 0, the second the key 256
  obtain ⟨d₁, hrun₁, hlength₁, hmem₁, hoffset₁, hdeals₁⟩ := dispatchByProcessor_many
    (start (byProcessorConfig numberCores (wideStack .random)) (Memory.new (wideStack .random)))
    junk ⟨0, 0, .read, 0⟩ 0 0 hmany' rfl rfl (by omega) length_replicate hfirst
  obtain ⟨d₂, hrun₂, -, -, -, hdeals₂⟩ := dispatchByProcessor_many d₁ junk ⟨0, 0, .read, 0⟩ 1 256
    hmany' (by rw [hoffset₁]; rfl) rfl hmany' hlength₁ (by rw [hmem₁]; exact hsecond)
  refine ⟨d₂, ?_, ?_⟩
  · rw [zsim, zsimLoop_cons, hread]
    show (dispatch _ _ _ _ >>= _) = _
    rw [hdispatch, hrun₁]
    show zsimLoop _ _ d₁ _ [pageZero] = _
    rw [zsimLoop_cons, hread]
    show (dispatch _ _ _ _ >>= _) = _
    rw [hdispatch, hrun₂]
    rfl
  · intro hspace
    rw [hdeals₁] at hdeals₂
    have hpage := hspace ⟨⟨0, 0, .read, 0⟩, 0, 0⟩ (by rw [hdeals₂]; simp)
      ⟨⟨0, 0, .read, 0⟩, 5 * 4096, 256⟩ (by rw [hdeals₂]; simp) rfl rfl
    exact absurd hpage (by decide)

/-- With random translation and without perfect scheduling every processor of
    every trace has one address space exactly if there are at most 256 cores. -/
theorem one_space_iff (numberCores : Nat) :
    (∀ mem : MemoryConfig, mem.translation = .random → ∀ junk memory regs file,
      Ends (zsim (byProcessorConfig numberCores mem) (Memory.base mem junk) memory regs file)
        (fun d => Filed (byProcessorConfig numberCores mem) d ∧
          d.deals.map Deal.request = (Trace.requests regs file).filter (·.reqAddr ≠ -1) ∧
          OneSpace d) (fun _ => True)) ↔ numberCores ≤ 256 := by
  constructor
  · intro hall
    by_contra hmany
    obtain ⟨d, hrun, hspaces⟩ := two_pages (Nat.lt_of_not_le hmany) (fun _ _ => 0)
    exact hspaces ((hall (wideStack .random) rfl _ _ _ _).result hrun).2.2
  · intro hfew mem hrandom junk memory regs file
    apply (zsim_placed rfl hfew junk memory regs file).weaken
    rintro d ⟨h, hplaced⟩
    refine ⟨h.filed, h.requests, ?_⟩
    intro x hx y hy hid hpage
    have hplaced' := hplaced y hy
    rw [← hid] at hplaced'
    exact page_eq_of_placed hrandom (hplaced x hx) hplaced' hpage

/-- The first two requests of processor 0 on 257 cores. -/
theorem second_request_other_page : ∃ d, zsim (byProcessorConfig 257 (wideStack .random))
        (Memory.base (wideStack .random) fun _ _ => 0) (Memory.new (wideStack .random)) firstRegs
        [pageZero, pageZero] = .ok d ∧
      d.deals.map (fun x => (x.request.cpuId, x.request.reqAddr, x.addr)) =
        [(0, 0, 0), (0, 0, 5 * 4096)] ∧ ¬ OneSpace d := by
  have hmap : (zsim (byProcessorConfig 257 (wideStack .random))
      (Memory.base (wideStack .random) fun _ _ => 0) (Memory.new (wideStack .random)) firstRegs
      [pageZero, pageZero]).toOption.map (fun d => d.deals.map fun x =>
        (x.request.cpuId, x.request.reqAddr, x.addr)) =
      some [(0, 0, 0), (0, 0, 5 * 4096)] := by decide +kernel
  obtain ⟨d, hrun, hdeals⟩ := exists_ok_of_map hmap
  refine ⟨d, hrun, hdeals, ?_⟩
  obtain ⟨d', hrun', hspaces⟩ := two_pages (show 256 < 257 by decide) (fun _ _ => 0)
  rw [hrun] at hrun'
  cases hrun'
  exact hspaces

end Dispatcher

end Ramulator
