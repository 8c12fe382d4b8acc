/-
  Ramulator.Simulation

  The main loop of a run with a CPU trace, `run_cputrace` (Main.cpp), and the
  HMC memory as the memory of a processor.

  The processor and the memory have clocks of their own.  The loop counts time
  in the greatest common divisor of both periods and asks after each cycle of
  the processor whether the run is over.
-/

import Ramulator.Hmc.Memory
import Ramulator.Processor.Basic

namespace Ramulator

def Memory.callbacksSince (m m' : Memory) : List Request :=
  (m'.events.drop m.events.length).filterMap fun
    | .callback req => some req
    | .delivered _ => none

/-- `Memory<HMC>` as a `MemoryBase`.  `junk` is read by the ticks of the
    controllers, by the memory's clock. -/
def Memory.base (cfg : MemoryConfig) (junk : Nat → Nat → Int) : MemoryBase Memory where
  send m req := m.send cfg req
  pageAllocator m addr coreid := m.pageAllocator cfg addr coreid
  tick m := do
    let m' ← m.tick cfg (junk m.clk.toNat)
    pure (m.callbacksSince m', m')
  pendingRequests := Memory.pendingRequests

/-- The loop of `gcd`: the second number gets smaller in every pass. -/
def gcdLoop : Nat → Nat → Nat → Nat
  | 0, u, _ => u
  | passes + 1, u, v => if v = 0 then u else gcdLoop passes v (u % v)

def gcd (u v : Nat) : Nat := if v > u then gcdLoop (u + 1) v u else gcdLoop (v + 1) u v

theorem gcdLoop_eq {passes v : Nat} (h : v < passes) (u : Nat) :
    gcdLoop passes u v = Nat.gcd u v := by
  induction passes generalizing u v with
  | zero => omega
  | succ passes ih =>
    unfold gcdLoop
    split
    · next hv => rw [hv, Nat.gcd_zero_right]
    · next hv =>
      have hmod := Nat.mod_lt u (Nat.pos_of_ne_zero hv)
      rw [ih (by omega), Nat.gcd_comm, ← Nat.gcd_rec, Nat.gcd_comm]

theorem gcd_eq (u v : Nat) : gcd u v = Nat.gcd u v := by
  unfold gcd
  split
  · rw [gcdLoop_eq (Nat.lt_succ_self u), Nat.gcd_comm]
  · exact gcdLoop_eq (Nat.lt_succ_self v) u

/-- What the configuration says about the main loop. -/
structure RunConfig where
  proc : ProcessorConfig
  /-- `get_cpu_tick`, in ps. -/
  cpuPeriod : Nat
  /-- `clk_ns * 1000`, in ps. -/
  memPeriod : Nat
  /-- `calc_weighted_speedup`. -/
  weightedSpeedup : Bool := false
  /-- `is_early_exit`. -/
  earlyExit : Bool := true

namespace RunConfig

variable (cfg : RunConfig)

/-- The period of the processor; in PIM mode it is that of the memory. -/
def effectiveCpuPeriod : Nat := if cfg.proc.pimModeEnabled then cfg.memPeriod else cfg.cpuPeriod

def tickGcd : Nat := gcd cfg.effectiveCpuPeriod cfg.memPeriod

def cpuTick : Nat := cfg.effectiveCpuPeriod / cfg.tickGcd

def memTick : Nat := cfg.memPeriod / cfg.tickGcd

/-- Both periods are whole numbers of units. -/
theorem ticks_mul_tickGcd : cfg.cpuTick * cfg.tickGcd = cfg.effectiveCpuPeriod ∧
    cfg.memTick * cfg.tickGcd = cfg.memPeriod := by
  have hgcd : cfg.tickGcd = Nat.gcd cfg.effectiveCpuPeriod cfg.memPeriod := gcd_eq _ _
  exact ⟨Nat.div_mul_cancel (hgcd ▸ Nat.gcd_dvd_left _ _),
    Nat.div_mul_cancel (hgcd ▸ Nat.gcd_dvd_right _ _)⟩

end RunConfig

structure MainLoop (τ : Type) where
  i : Int := 0
  nextCpuTick : Int
  nextMemTick : Int
  proc : Processor τ

namespace MainLoop

variable {τ : Type} (cfg : RunConfig) (base : MemoryBase τ)

def new (proc : Processor τ) : MainLoop τ where
  nextCpuTick := cfg.cpuTick - 1
  nextMemTick := cfg.memTick - 1
  proc := proc

def leaves (proc : Processor τ) : Bool :=
  if cfg.weightedSpeedup then proc.hasReachedLimit
  else if cfg.earlyExit then proc.finishedEarly
  else proc.finished && base.pendingRequests proc.uncore.memory = 0

/-- The cycle of the processor, if it is due, and whether the loop is left. -/
def cpuStep (s : MainLoop τ) : Except Abort (Bool × MainLoop τ) :=
  if s.i = s.nextCpuTick then do
    let proc ← s.proc.tick cfg.proc base
    pure (leaves cfg base proc, { s with proc, nextCpuTick := s.nextCpuTick + cfg.cpuTick })
  else pure (false, s)

/-- The cycle of the memory, if it is due. -/
def memStep (s : MainLoop τ) : Except Abort (MainLoop τ) :=
  if s.i = s.nextMemTick then do
    let proc ← s.proc.tickMemory cfg.proc base
    pure { s with proc, nextMemTick := s.nextMemTick + cfg.memTick }
  else pure s

def iteration (s : MainLoop τ) : Except Abort (Bool × MainLoop τ) := do
  let (done, s) ← s.cpuStep cfg base
  if done then pure (true, s)
  else do
    let s ← s.memStep cfg base
    pure (false, { s with i := s.i + 1 })

/-- At most `n` iterations; the processor, if the loop is left. -/
def iterate : Nat → MainLoop τ → Except Abort (Option (Processor τ))
  | 0, _ => pure none
  | n + 1, s => do
      let (done, s) ← s.iteration cfg base
      if done then pure (some s.proc) else iterate n s

end MainLoop

def runCputrace {τ : Type} (cfg : RunConfig) (base : MemoryBase τ) (memory : τ)
    (workloads : List Workload) (n : Nat) : Except Abort (Option (Processor τ)) := do
  let proc ← Processor.new base memory workloads
  (MainLoop.new cfg proc).iterate cfg base n

inductive Cycle where
  | cpu | mem
deriving DecidableEq, Repr

namespace Processor

variable {τ : Type} (cfg : ProcessorConfig) (base : MemoryBase τ)

def cycle (p : Processor τ) : Cycle → Except Abort (Processor τ)
  | .cpu => p.tick cfg base
  | .mem => p.tickMemory cfg base

def run (memory : τ) (workloads : List Workload) (cycles : List Cycle) :
    Except Abort (Processor τ) := do
  let p ← Processor.new base memory workloads
  cycles.foldlM (cycle cfg base) p

end Processor

end Ramulator
