/-
  Ramulator.Processor.InstructionCounts

  The instruction counts of a host trace.

  A core reports to the memory controller how many instructions it has executed
  (`offload` with INSTR_COUNT), and every record that `access` prints carries the
  instructions reported since the core's last record.  The instruction of a demand
  record is counted by its record, so one is taken off for it; `substract` is what
  could not be taken off yet.

  No instruction is lost or counted twice: what is printed for a core and what
  `previous_instr` still holds make up what was reported, but for its demand
  records and for the debt.
-/

import Ramulator.Processor.TraceRecords

namespace Ramulator

open List Function

namespace Zsim

open Outcome Trace

inductive OffloadInfo where
  | memInstr
  | instrCount (coreIdx interInstrs threadIdx : Nat)
  | offloading (content : Int)
deriving DecidableEq, Repr

/-- `MemoryTraces::offload`; `print_trace` is an `int`. -/
def MemoryTraces.offload (m : MemoryTraces) : OffloadInfo → MemoryTraces
  | .memInstr => m
  | .instrCount coreIdx interInstrs threadIdx =>
    { m with
      previousInstr := update m.previousInstr coreIdx
        ((m.previousInstr coreIdx + interInstrs) % 2 ^ 64)
      threadIdx := update m.threadIdx coreIdx threadIdx }
  | .offloading content => { m with printTrace := (content + 2 ^ 31) % 2 ^ 32 - 2 ^ 31 }

/-! ## Records -/

/-- The fields of a record that `access` prints. -/
structure HostRecord where
  threadIdx : Nat
  coreId : Nat
  pinstr : Int
  letter : Char
  lineAddr : Nat
deriving DecidableEq, Repr

def HostRecord.text (p : HostRecord) : List Char :=
  dec p.threadIdx ++ ' ' :: (dec p.coreId ++ ' ' :: (decInt p.pinstr ++
    ' ' :: p.letter :: ' ' :: dec p.lineAddr)) ++ ['\n']

namespace HostRecord

def pinstrSum (core : Nat) (printed : List HostRecord) : Int :=
  ((printed.filter (·.coreId = core)).map (·.pinstr)).sum

def demands (core : Nat) (printed : List HostRecord) : Nat :=
  printed.countP fun p => decide (p.coreId = core ∧ p.letter ≠ 'P')

theorem pinstrSum_concat (core : Nat) (printed : List HostRecord) (p : HostRecord) :
    pinstrSum core (printed ++ [p]) =
      pinstrSum core printed + if p.coreId = core then p.pinstr else 0 := by
  unfold pinstrSum
  by_cases hcore : p.coreId = core <;> simp [hcore]

theorem demands_concat (core : Nat) (printed : List HostRecord) (p : HostRecord) :
    demands core (printed ++ [p]) =
      demands core printed + if p.coreId = core ∧ p.letter ≠ 'P' then 1 else 0 := by
  unfold demands
  rw [countP_append, countP_singleton]
  simp only [decide_eq_true_eq]

end HostRecord

namespace MemoryTraces

def prints (m : MemoryTraces) (req : MemReq) : List HostRecord :=
  if (req.type = .gets ∨ req.type = .getx) ∧ m.printTrace ≠ 0 ∧ req.ifetch = false then
    [{ threadIdx := m.threadIdx req.coreId
       coreId := req.coreId
       pinstr := m.pinstr req
       letter := if req.prefetchTrace || req.prefetch then 'P' else letter req
       lineAddr := req.lineAddr }]
  else []

theorem letter_ne_prefetch (req : MemReq) : letter req ≠ 'P' := by
  unfold letter
  split <;> decide

theorem access_cases {m : MemoryTraces} {req : MemReq} {out : MemoryTraces × MESIState × Nat}
    (haccess : m.access req = some out) : (out.1 = m ∧ m.prints req = []) ∨
      ∃ p, m.prints req = [p] ∧ p.coreId = req.coreId ∧ p.pinstr = m.pinstr req ∧
        (p.letter = 'P' ↔ (req.prefetchTrace || req.prefetch) = true) ∧ out.1 = { m with
          tracefile := m.tracefile ++ p.text
          previousInstr := update m.previousInstr req.coreId 0
          substract := update m.substract req.coreId (m.substractAfter req) } := by
  unfold access at haccess
  dsimp only at haccess
  rw [Option.ite_none_right_eq_some] at haccess
  obtain ⟨-, haccess⟩ := haccess
  by_cases hprints : (req.type = .gets ∨ req.type = .getx) ∧ m.printTrace ≠ 0 ∧ req.ifetch = false
  · right
    refine ⟨_, if_pos hprints, rfl, rfl, ?_, ?_⟩
    · dsimp only
      by_cases hprefetch : (req.prefetchTrace || req.prefetch) = true
      · simp [hprefetch]
      · simp [hprefetch, letter_ne_prefetch]
    · obtain ⟨htype, htrace⟩ := hprints
      rcases htype with htype | htype <;> rw [htype] at haccess <;>
        obtain rfl := Option.some.inj haccess <;>
        simp only [trace, if_pos htrace, letter, htype] <;> rfl
  · left
    refine ⟨?_, if_neg hprints⟩
    cases htype : req.type <;> rw [htype] at haccess hprints <;>
      obtain rfl := Option.some.inj haccess <;> first
        | rfl
        | exact if_neg fun htrace => hprints ⟨by simp, htrace⟩

theorem toInt64_of_lt {n : Nat} (hn : n < 2 ^ 63) : toInt64 n = n := by
  unfold toInt64 toLong
  rw [Nat.mod_eq_of_lt (by omega), if_pos (by omega)]

/-- A record takes the count and pays the debt, by one more for a demand record. -/
theorem pinstr_sub_substractAfter (m : MemoryTraces) (req : MemReq)
    (hcount : m.previousInstr req.coreId < 2 ^ 63) :
    m.pinstr req - m.substractAfter req = m.previousInstr req.coreId - m.substracted req := by
  simp only [pinstr, substractAfter, toInt64_of_lt hcount]
  split <;> omega

theorem substractAfter_nonneg (m : MemoryTraces) (req : MemReq) : 0 ≤ m.substractAfter req := by
  unfold substractAfter
  dsimp only
  split <;> omega

end MemoryTraces

/-! ## Runs -/

inductive TraceCall where
  | instrCount (coreIdx interInstrs threadIdx : Nat)
  | access (req : MemReq)
deriving DecidableEq, Repr

/-- The controller, the records it has printed, and the instructions that each core
    has reported. -/
structure HostRun where
  traces : MemoryTraces := {}
  printed : List HostRecord := []
  reported : Nat → Nat := fun _ => 0

namespace HostRun

/-- A call; an access whose assertions fail ends the run. -/
def call (r : HostRun) : TraceCall → Except Unit HostRun
  | .instrCount coreIdx interInstrs threadIdx =>
    pure { r with
      traces := r.traces.offload (.instrCount coreIdx interInstrs threadIdx)
      reported := update r.reported coreIdx (r.reported coreIdx + interInstrs) }
  | .access req =>
    match r.traces.access req with
    | none => throw ()
    | some out => pure { r with traces := out.1, printed := r.printed ++ r.traces.prints req }

def run (calls : List TraceCall) (r : HostRun) : Except Unit HostRun := calls.foldlM call r

/-- The core exists, and what it reported since its last record is counted without overflow. -/
def Counts (r : HostRun) : TraceCall → Prop
  | .instrCount coreIdx interInstrs _ =>
    coreIdx < maxCores ∧ r.traces.previousInstr coreIdx + interInstrs < 2 ^ 62
  | .access req => req.coreId < maxCores

instance (r : HostRun) : DecidablePred r.Counts
  | .instrCount _ _ _ => instDecidableAnd
  | .access _ => Nat.decLt _ _

structure Balanced (r : HostRun) (core : Nat) : Prop where
  balance : HostRecord.pinstrSum core r.printed + r.traces.previousInstr core =
    r.reported core - HostRecord.demands core r.printed + r.traces.substract core
  counted : r.traces.previousInstr core < 2 ^ 62
  substract_nonneg : 0 ≤ r.traces.substract core

/-- What the records say, and what they carry. -/
structure Printed (r : HostRun) : Prop where
  traced : r.traces.printTrace ≠ 0
  text : r.traces.tracefile = r.printed.flatMap HostRecord.text
  pinstr_nonneg : ∀ p ∈ r.printed, 0 ≤ p.pinstr

variable {r : HostRun} {core : Nat}

theorem Balanced.instrCount (hr : r.Balanced core) {coreIdx interInstrs threadIdx : Nat}
    (hcount : r.Counts (.instrCount coreIdx interInstrs threadIdx)) :
    Yields (r.call (.instrCount coreIdx interInstrs threadIdx)) (Balanced · core) := by
  obtain ⟨-, hsmall⟩ := hcount
  obtain ⟨hbalance, hcounted, hnonneg⟩ := hr
  by_cases hcore : core = coreIdx
  · subst hcore
    have hmod : (r.traces.previousInstr core + interInstrs) % 2 ^ 64 =
        r.traces.previousInstr core + interInstrs := Nat.mod_eq_of_lt (by omega)
    constructor <;> simp only [MemoryTraces.offload, update_self, hmod]
    · omega
    · exact hsmall
    · exact hnonneg
  · constructor <;> simp only [MemoryTraces.offload, update_of_ne hcore]
    · exact hbalance
    · exact hcounted
    · exact hnonneg

theorem Balanced.access (hr : r.Balanced core) (req : MemReq) :
    Yields (r.call (.access req)) (Balanced · core) := by
  unfold call
  dsimp only
  cases haccess : r.traces.access req with
  | none => trivial
  | some out =>
    change Balanced { r with traces := out.1, printed := r.printed ++ r.traces.prints req } core
    rcases MemoryTraces.access_cases haccess with
      ⟨hsame, hprints⟩ | ⟨p, hprints, hp, hpinstr, hletter, hout⟩
    · rw [hsame, hprints, append_nil]
      exact hr
    · obtain ⟨hbalance, hcounted, hnonneg⟩ := hr
      by_cases hcore : core = req.coreId
      · subst hcore
        have hpays := r.traces.pinstr_sub_substractAfter req (by omega)
        unfold MemoryTraces.substracted at hpays
        constructor <;> rw [hout]
        · rw [hprints, HostRecord.pinstrSum_concat, HostRecord.demands_concat, if_pos hp]
          simp only [hp, hpinstr, update_self, true_and]
          -- a demand record counts for one, and one is added to the debt for it
          by_cases hprefetch : (req.prefetchTrace || req.prefetch) = true
          · rw [if_pos hprefetch] at hpays
            rw [if_neg (not_not_intro (hletter.mpr hprefetch))]
            omega
          · rw [if_neg hprefetch] at hpays
            rw [if_pos (mt hletter.mp hprefetch)]
            omega
        · simp
        · simpa using r.traces.substractAfter_nonneg req
      · have hother : p.coreId ≠ core := fun h => hcore (h.symm.trans hp)
        constructor <;> rw [hout] <;> simp only [update_of_ne hcore]
        · rw [hprints, HostRecord.pinstrSum_concat, HostRecord.demands_concat, if_neg hother,
            if_neg fun h => hother h.1]
          omega
        · exact hcounted
        · exact hnonneg

theorem Balanced.call (hr : r.Balanced core) {c : TraceCall} (hcount : r.Counts c) :
    Yields (HostRun.call r c) (Balanced · core) := by
  cases c with
  | instrCount coreIdx interInstrs threadIdx => exact hr.instrCount hcount
  | access req => exact hr.access req

theorem Printed.call (hr : r.Printed) (c : TraceCall) : Yields (HostRun.call r c) Printed := by
  obtain ⟨htraced, htext, hnonneg⟩ := hr
  cases c with
  | instrCount coreIdx interInstrs threadIdx => exact ⟨htraced, htext, hnonneg⟩
  | access req =>
    unfold HostRun.call
    dsimp only
    cases haccess : r.traces.access req with
    | none => trivial
    | some out =>
      change Printed { r with traces := out.1, printed := r.printed ++ r.traces.prints req }
      rcases MemoryTraces.access_cases haccess with
        ⟨hsame, hprints⟩ | ⟨p, hprints, -, hpinstr, -, hout⟩
      · rw [hsame, hprints, append_nil]
        exact ⟨htraced, htext, hnonneg⟩
      · rw [hout, hprints]
        refine ⟨htraced, ?_, ?_⟩
        · dsimp only
          rw [flatMap_append, flatMap_singleton, htext]
        · refine forall_mem_concat hnonneg ?_
          rw [hpinstr]
          exact r.traces.pinstr_nonneg req

/-- After every call of every run in which the cores report and access in any order,
    the counts of a core balance, its debt is not negative, and the trace holds the
    records with counts that are not negative. -/
theorem run_balance (latency : Nat) (printTrace : Int) (threadIdx : Nat → Nat)
    (htrace : printTrace ≠ 0) (calls : List TraceCall)
    (hcounts : Along call Counts calls { traces := { latency, printTrace, threadIdx } })
    (core : Nat) (r : HostRun)
    (hrun : run calls { traces := { latency, printTrace, threadIdx } } = .ok r) :
    HostRecord.pinstrSum core r.printed + r.traces.previousInstr core =
        r.reported core - HostRecord.demands core r.printed + r.traces.substract core ∧
      0 ≤ r.traces.substract core ∧ r.traces.tracefile = r.printed.flatMap HostRecord.text ∧
      ∀ p ∈ r.printed, 0 ≤ p.pinstr := by
  have hbalanced₀ : Balanced { traces := { latency, printTrace, threadIdx } } core :=
    ⟨by simp [HostRecord.pinstrSum, HostRecord.demands], by simp, Int.le_refl _⟩
  have hprinted₀ : Printed { traces := { latency, printTrace, threadIdx } } :=
    ⟨htrace, rfl, by simp⟩
  have hbalanced := hcounts.foldlM (I := (Balanced · core)) (E := fun _ => True) hbalanced₀
    fun r c _ hr hc => hr.call hc
  have hprinted := Ends.foldlM (E := fun _ => True) calls hprinted₀ fun r c _ hr => hr.call c
  obtain ⟨hbalance, -, hdebt⟩ := hbalanced.result hrun
  obtain ⟨-, htext, hnonneg⟩ := hprinted.result hrun
  exact ⟨hbalance, hdebt, htext, hnonneg⟩

/-- A core owes an instruction, which its prefetch pays, while another core reports. -/
def twoCores : List TraceCall :=
  [.instrCount 0 1 0, .access { lineAddr := 8, type := .gets },
    .access { lineAddr := 9, type := .gets }, .instrCount 1 7 1, .instrCount 0 5 0,
    .access { lineAddr := 10, type := .gets, prefetch := true, prefetchTrace := true }]

theorem run_balance_twoCores :
    ∃ r, run twoCores { traces := { latency := 1, printTrace := 1, threadIdx := id } } = .ok r ∧
      r.printed.map (·.pinstr) = [0, 0, 4] ∧
      HostRecord.pinstrSum 0 r.printed + r.traces.previousInstr 0 =
        r.reported 0 - HostRecord.demands 0 r.printed + r.traces.substract 0 := by
  obtain ⟨r, hrun, hprinted⟩ := exists_ok_of_map (x := run twoCores
    { traces := { latency := 1, printTrace := 1, threadIdx := id } })
    (f := fun r => r.printed.map (·.pinstr)) (b := [0, 0, 4]) (by decide)
  exact ⟨r, hrun, hprinted, (run_balance 1 1 id (by decide) twoCores (by decide) 0 r hrun).1⟩

end HostRun

end Zsim

end Ramulator
