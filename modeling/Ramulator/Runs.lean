/-
  Ramulator.Runs

  The invariant rules of whole runs.

  What the constructor of the processor sets up, and every cycle of the
  processor and of the memory keeps, is true after any run (`Processor.run_ends`)
  and where `run_cputrace` leaves its loop (`MainLoop.iterate_ends`), which is after
  such a run.  Its cycles are those that the periods of the two clocks call for.
-/

import Ramulator.Processor.Steps
import Ramulator.Simulation

namespace Ramulator

open Outcome List

variable {τ : Type} {cfg : RunConfig} {base : MemoryBase τ} {I : Processor τ → Prop}
  {cycles : List Cycle}

theorem MainLoop.iterate_ends (hcpu : ∀ p, I p → Yields (p.tick cfg.proc base) I)
    (hmem : ∀ p, I p → Yields (p.tickMemory cfg.proc base) I) (n : Nat)
    {s : MainLoop τ} (h : I s.proc) : Yields (s.iterate cfg base n)
      (fun out => ∀ p, out = some p → I p ∧ MainLoop.leaves cfg base p = true) := by
  induction n generalizing s with
  | zero =>
    intro p hp
    cases hp
  | succ n ih =>
    have hiteration : Yields (s.iteration cfg base) (fun out => I out.2.proc ∧
          (out.1 = true → MainLoop.leaves cfg base out.2.proc = true)) := by
      apply Ends.bind (Q := fun out => I out.2.proc ∧
          (out.1 = true → MainLoop.leaves cfg base out.2.proc = true))
      · apply Ends.ite
        · intro _
          apply Ends.bind (hcpu s.proc h)
          intro proc hproc
          exact ⟨hproc, fun hleaves => hleaves⟩
        · intro _
          exact ⟨h, fun hleaves => by cases hleaves⟩
      · rintro ⟨done, s₁⟩ ⟨h₁, hleaves⟩
        apply Ends.ite
        · intro hdone
          exact ⟨h₁, fun _ => hleaves hdone⟩
        · intro _
          apply Ends.bind (Q := fun s : MainLoop τ => I s.proc)
          · apply Ends.ite
            · intro _
              exact Ends.bind (hmem s₁.proc h₁) (fun proc hproc => hproc)
            · intro _
              exact h₁
          · intro s₂ h₂
            exact ⟨h₂, fun hleaves => by cases hleaves⟩
    apply Ends.bind hiteration
    rintro ⟨done, s₁⟩ ⟨h₁, hleaves⟩
    apply Ends.ite
    · intro hdone p hp
      cases hp
      exact ⟨h₁, hleaves hdone⟩
    · intro _
      exact ih h₁

theorem Processor.run_ends {cfg : ProcessorConfig} {memory : τ} {workloads : List Workload}
    (hnew : Yields (Processor.new base memory workloads) I)
    (hcpu : ∀ p, I p → Yields (p.tick cfg base) I)
    (hmem : ∀ p, I p → Yields (p.tickMemory cfg base) I) (cycles : List Cycle) :
    Yields (Processor.run cfg base memory workloads cycles) I := by
  apply Ends.bind hnew
  intro p hp
  apply Ends.foldlM cycles hp
  intro p c _ hp
  cases c with
  | cpu => exact hcpu p hp
  | mem => exact hmem p hp

/-! ## The two clocks -/

/-- The cycles that are due in the first `k` units of time. -/
def RunConfig.schedule (cfg : RunConfig) : Nat → List Cycle
  | 0 => []
  | k + 1 => cfg.schedule k ++ (if cfg.cpuTick ∣ k + 1 then [.cpu] else []) ++
      if cfg.memTick ∣ k + 1 then [.mem] else []

theorem RunConfig.count_schedule (k : Nat) : (cfg.schedule k).count .cpu = k / cfg.cpuTick ∧
      (cfg.schedule k).count .mem = k / cfg.memTick := by
  induction k with
  | zero => simp [schedule]
  | succ k ih =>
    rw [schedule, Nat.succ_div, Nat.succ_div, ← ih.1, ← ih.2]
    by_cases hcpu : cfg.cpuTick ∣ k + 1 <;> by_cases hmem : cfg.memTick ∣ k + 1 <;>
      simp [hcpu, hmem]

/-- The end of the cycle that is under way after `k` units of time. -/
def endOfCycle (tick k : Nat) : Nat := tick * (k / tick + 1)

/-- In unit `i` of time a cycle is due if the unit ends with one, and then the next. -/
theorem endOfCycle_step {tick k : Nat} {next i : Int} (hi : i = k)
    (hnext : next + 1 = endOfCycle tick k) : (i = next ↔ tick ∣ k + 1) ∧
      (if tick ∣ k + 1 then next + tick else next) + 1 = endOfCycle tick (k + 1) := by
  have hdue : k + 1 = endOfCycle tick k ↔ tick ∣ k + 1 := by
    refine ⟨fun hend => ⟨_, hend⟩, fun hdvd => ?_⟩
    rw [endOfCycle, ← Nat.succ_div_of_dvd hdvd, Nat.mul_div_cancel' hdvd]
  have hsucc : endOfCycle tick (k + 1) =
      endOfCycle tick k + if tick ∣ k + 1 then tick else 0 := by
    simp only [endOfCycle, Nat.succ_div]
    split <;> rfl
  constructor
  · rw [← hdue]
    omega
  · rw [hsucc]
    split <;> omega

variable {memory : τ} {workloads : List Workload} {k : Nat} {s : MainLoop τ} {p p' : Processor τ}

theorem Processor.run_append {c : Cycle}
    (hrun : Processor.run cfg.proc base memory workloads cycles = .ok p)
    (hcycle : p.cycle cfg.proc base c = .ok p') :
    Processor.run cfg.proc base memory workloads (cycles ++ [c]) = .ok p' := by
  obtain ⟨p₀, hnew, hfold⟩ := bind_ok.mp hrun
  refine bind_ok.mpr ⟨p₀, hnew, ?_⟩
  rw [foldlM_append]
  refine bind_ok.mpr ⟨p, hfold, ?_⟩
  rw [foldlM_cons]
  exact bind_ok.mpr ⟨p', hcycle, rfl⟩

/-- Where the clocks stand, the processor's after `i` units of time and the memory's
    after `j`, and the cycles they have had. -/
structure MainLoop.OnSchedule (cfg : RunConfig) (base : MemoryBase τ) (memory : τ)
    (workloads : List Workload) (cycles : List Cycle) (i j : Nat) (s : MainLoop τ) : Prop where
  cpu : s.nextCpuTick + 1 = endOfCycle cfg.cpuTick i
  mem : s.nextMemTick + 1 = endOfCycle cfg.memTick j
  run : Processor.run cfg.proc base memory workloads cycles = .ok s.proc

theorem MainLoop.cpuStep_ends
    (h : s.OnSchedule cfg base memory workloads cycles k k) (hi : s.i = k) :
    Yields (s.cpuStep cfg base) (fun out => out.2.i = k ∧
      out.1 = (if cfg.cpuTick ∣ k + 1 then leaves cfg base out.2.proc else false) ∧
      out.2.OnSchedule cfg base memory workloads
        (cycles ++ if cfg.cpuTick ∣ k + 1 then [.cpu] else []) (k + 1) k) := by
  obtain ⟨hdue, hnext⟩ := endOfCycle_step hi h.cpu
  apply Ends.ite
  · intro hnow
    rw [if_pos (hdue.mp hnow)] at hnext ⊢
    apply (Ends.ran _).bind
    intro p hp
    exact ⟨hi, (if_pos (hdue.mp hnow)).symm, hnext, h.mem, Processor.run_append h.run hp⟩
  · intro hlater
    rw [if_neg (mt hdue.mpr hlater)] at hnext ⊢
    exact ⟨hi, (if_neg (mt hdue.mpr hlater)).symm, hnext, h.mem, by simpa using h.run⟩

theorem MainLoop.memStep_ends (h : s.OnSchedule cfg base memory workloads cycles (k + 1) k)
    (hi : s.i = k) :
    Yields (s.memStep cfg base) (fun s' => s'.i = k ∧ s'.OnSchedule cfg base memory workloads
      (cycles ++ if cfg.memTick ∣ k + 1 then [.mem] else []) (k + 1) (k + 1)) := by
  obtain ⟨hdue, hnext⟩ := endOfCycle_step hi h.mem
  apply Ends.ite
  · intro hnow
    rw [if_pos (hdue.mp hnow)] at hnext ⊢
    apply (Ends.ran _).bind
    intro p hp
    exact ⟨hi, h.cpu, hnext, Processor.run_append h.run hp⟩
  · intro hlater
    rw [if_neg (mt hdue.mpr hlater)] at hnext ⊢
    exact ⟨hi, h.cpu, hnext, by simpa using h.run⟩

/-- At the end of unit `k + 1` the loop asks whether the run is over. -/
def MainLoop.Asks (cfg : RunConfig) (base : MemoryBase τ) (memory : τ)
    (workloads : List Workload) (k : Nat) (p : Processor τ) (done : Bool) : Prop :=
  cfg.cpuTick ∣ k + 1 ∧
    Processor.run cfg.proc base memory workloads (cfg.schedule k ++ [.cpu]) = .ok p ∧
    MainLoop.leaves cfg base p = done

/-- Whenever it asks in the first `k` units, the run is not over. -/
def MainLoop.GoesOn (cfg : RunConfig) (base : MemoryBase τ) (memory : τ)
    (workloads : List Workload) (k : Nat) : Prop :=
  ∀ i < k, cfg.cpuTick ∣ i + 1 → ∃ p, MainLoop.Asks cfg base memory workloads i p false

theorem MainLoop.iterate_schedule (n : Nat)
    (h : s.OnSchedule cfg base memory workloads (cfg.schedule k) k k) (hi : s.i = k)
    (hbefore : MainLoop.GoesOn cfg base memory workloads k) :
    Yields (s.iterate cfg base n) (fun out => ∀ p, out = some p →
      ∃ k, MainLoop.GoesOn cfg base memory workloads k ∧
        MainLoop.Asks cfg base memory workloads k p true) := by
  induction n generalizing s k with
  | zero =>
    intro p hp
    cases hp
  | succ n ih =>
    have hiteration : Yields (s.iteration cfg base) (fun out =>
        if out.1 then MainLoop.Asks cfg base memory workloads k out.2.proc true
        else MainLoop.GoesOn cfg base memory workloads (k + 1) ∧ out.2.i = (k + 1 : Nat) ∧
          out.2.OnSchedule cfg base memory workloads (cfg.schedule (k + 1)) (k + 1) (k + 1)) := by
      apply (cpuStep_ends h hi).bind
      rintro ⟨done, s₁⟩ ⟨hi₁, hdone, hs₁⟩
      have hasks (hdvd : cfg.cpuTick ∣ k + 1) :
          MainLoop.Asks cfg base memory workloads k s₁.proc done := by
        rw [if_pos hdvd] at hdone hs₁
        exact ⟨hdvd, hs₁.run, hdone.symm⟩
      apply Ends.ite
      · intro hleft
        have hdvd : cfg.cpuTick ∣ k + 1 := by
          by_contra hnot
          rw [if_neg hnot] at hdone
          cases hdone.symm.trans hleft
        cases hleft
        exact hasks hdvd
      · intro hgoes
        have hgoesOn : MainLoop.GoesOn cfg base memory workloads (k + 1) := by
          intro i hi' hdvd
          rcases Nat.lt_succ_iff_lt_or_eq.mp hi' with hlt | rfl
          · exact hbefore i hlt hdvd
          · exact ⟨s₁.proc, Bool.eq_false_iff.mpr hgoes ▸ hasks hdvd⟩
        apply (memStep_ends hs₁ hi₁).bind
        rintro s₂ ⟨hi₂, hs₂⟩
        exact ⟨hgoesOn, by simp [hi₂], { hs₂ with }⟩
    apply hiteration.bind
    rintro ⟨done, s₁⟩ hs₁
    cases done with
    | true =>
      intro p hp
      cases hp
      exact ⟨k, hbefore, hs₁⟩
    | false => exact ih hs₁.2.2 hs₁.2.1 hs₁.1

/-- Where `run_cputrace` leaves its loop, processor and memory have had the cycles that
    are due in `k` units of time and, at the end of unit `k + 1`, one more of the
    processor, the first after which the run is over.  A unit is `tick_gcd` ps; in `k`
    units a clock ticks as often as its period fits into them. -/
theorem runCputrace_schedule {n : Nat}
    (h : runCputrace cfg base memory workloads n = .ok (some p)) : ∃ k, cfg.cpuTick ∣ k + 1 ∧
      Processor.run cfg.proc base memory workloads (cfg.schedule k ++ [.cpu]) = .ok p ∧
      MainLoop.leaves cfg base p = true ∧ MainLoop.GoesOn cfg base memory workloads k ∧
      (cfg.schedule k).count .cpu = k / cfg.cpuTick ∧
      (cfg.schedule k).count .mem = k / cfg.memTick ∧
      cfg.cpuTick * cfg.tickGcd = cfg.effectiveCpuPeriod ∧
      cfg.memTick * cfg.tickGcd = cfg.memPeriod := by
  obtain ⟨p₀, hnew, hloop⟩ := bind_ok.mp h
  have hinit : (MainLoop.new cfg p₀).OnSchedule cfg base memory workloads (cfg.schedule 0) 0 0 :=
    ⟨by simp [MainLoop.new, endOfCycle], by simp [MainLoop.new, endOfCycle],
      bind_ok.mpr ⟨p₀, hnew, rfl⟩⟩
  have hfirst : MainLoop.GoesOn cfg base memory workloads 0 := fun i hi => absurd hi (by omega)
  obtain ⟨k, hbefore, hdvd, hrun, hleaves⟩ :=
    (MainLoop.iterate_schedule n hinit rfl hfirst).result hloop p rfl
  obtain ⟨hcpu, hmem⟩ := cfg.count_schedule k
  exact ⟨k, hdvd, hrun, hleaves, hbefore, hcpu, hmem, cfg.ticks_mul_tickGcd⟩

/-- A run of one core in host mode on the small stack, whose clocks tick every 5 and
    every 16 units. -/
def hostRun : RunConfig := { proc := {}, cpuPeriod := 250, memPeriod := 800 }

def hostStack : MemoryBase Memory := Memory.base (Memory.smallStack 4) fun _ _ => 0

def twoWrites : Workload where
  rqstQueue := [⟨9, 64, .write⟩, ⟨3, 128, .write⟩]

/-- The fourth cycle of the processor ends the run, after one of the memory. -/
theorem runCputrace_schedule_twoWrites :
    ∃ p, runCputrace hostRun hostStack (Memory.new (Memory.smallStack 4)) [twoWrites] 30 =
        .ok (some p) ∧
      Processor.run hostRun.proc hostStack (Memory.new (Memory.smallStack 4)) [twoWrites]
        (hostRun.schedule 19 ++ [.cpu]) = .ok p ∧ hostRun.schedule 19 = [.cpu, .cpu, .cpu, .mem] ∧
      (hostRun.schedule 19).count .cpu = 19 / 5 ∧ (hostRun.schedule 19).count .mem = 19 / 16 := by
  have hends : (runCputrace hostRun hostStack (Memory.new (Memory.smallStack 4)) [twoWrites]
      30).toOption.map Option.isSome = some true := by decide +kernel
  -- what the loop finds at the end of each of the first four cycles
  have hasks : ∀ k ∈ [4, 9, 14, 19], (Processor.run hostRun.proc hostStack
      (Memory.new (Memory.smallStack 4)) [twoWrites] (hostRun.schedule k ++ [.cpu])).toOption.map
      (MainLoop.leaves hostRun hostStack) = some (decide (k = 19)) := by decide +kernel
  obtain ⟨out, hout, hsome⟩ := exists_ok_of_map hends
  obtain ⟨p, rfl⟩ := Option.isSome_iff_exists.mp hsome
  obtain ⟨k, hdvd, hrun, hleaves, hbefore, hcpu, hmem, -⟩ := runCputrace_schedule hout
  have hdvd : 5 ∣ k + 1 := hdvd
  have hle : k ≤ 19 := by
    by_contra hlate
    obtain ⟨p', -, hrun', hleaves'⟩ := hbefore 19 (by omega) (by decide)
    have hask := hasks 19 (by decide)
    rw [hrun'] at hask
    exact absurd ((Option.some.inj hask).symm.trans hleaves') (by decide)
  have hask := hasks k (by simp only [mem_cons, not_mem_nil]; omega)
  rw [hrun] at hask
  have hk : k = 19 := of_decide_eq_true ((Option.some.inj hask).symm.trans hleaves)
  subst hk
  exact ⟨p, hout, hrun, by decide, hcpu, hmem⟩

end Ramulator
