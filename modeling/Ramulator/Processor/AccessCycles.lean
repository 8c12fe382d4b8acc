/-
  Ramulator.Processor.AccessCycles

  The statistic `memory_access_cycles` of a core.

  `Core::receive` keeps the last departure it has seen and counts, for a request
  that departed later, the cycles from there on or from its arrival.  That is the
  meter of `Lib.HighWater` over the times in which requests were under way.  A
  request that arrived earlier than others that were delivered before it is
  counted only from the last departure on, so the statistic can fall short of the
  cycles with a request under way.
-/

import Ramulator.Lib.HighWater
import Ramulator.Processor.Basic

namespace Ramulator

open List

namespace Core

def underWay (req : Request) : Int × Int := (req.arrive, req.depart)

noncomputable def accessCycles (reqs : List Request) : Finset Int :=
  HighWater.cover (reqs.map underWay)

/-- Each request was under way only in cycles in which an earlier delivered one was
    too, as far as they lie before a departure that was delivered earlier. -/
def ReachesBackOverOthers (reqs : List Request) : Prop :=
  ∀ before req after, reqs = before ++ req :: after →
    ∀ t, req.arrive ≤ t → (∃ other ∈ before, t < other.depart) →
      ∃ other ∈ before, other.arrive ≤ t ∧ t < other.depart

theorem gapFree_iff {reqs : List Request} :
    HighWater.GapFree (reqs.map underWay) ↔ ReachesBackOverOthers reqs := by
  constructor
  · rintro h before req after rfl t ht ⟨other, hother, hlt⟩
    have hin := h (before.map underWay) (underWay req) (after.map underWay)
      (by rw [map_append, map_cons]) t ht
      ⟨underWay other, mem_map_of_mem hother, hlt⟩
    obtain ⟨i, hi, hcovers⟩ := HighWater.mem_cover.mp hin
    obtain ⟨first, hfirst, rfl⟩ := mem_map.mp hi
    exact ⟨first, hfirst, hcovers⟩
  · rintro h before i after hsplit t ht ⟨j, hj, hlt⟩
    obtain ⟨before', rest, rfl, rfl, hrest⟩ := map_eq_append_iff.mp hsplit
    obtain ⟨req, after', rfl, rfl, -⟩ := map_eq_cons_iff.mp hrest
    obtain ⟨other, hother, rfl⟩ := mem_map.mp hj
    obtain ⟨first, hfirst, hcovers⟩ := h before' req after' rfl t ht ⟨other, hother, hlt⟩
    exact HighWater.mem_cover.mpr ⟨underWay first, mem_map_of_mem hfirst, hcovers⟩

def meter (core : Core) : HighWater.Meter := ⟨core.memoryAccessCycles, core.last⟩

theorem meter_receive {cfg : ProcessorConfig} {core : Core} {req : Request}
    (harrive : 0 ≤ req.arrive) : (core.receive cfg req).meter = core.meter.add (underWay req) := by
  have hne : req.arrive ≠ -1 := by omega
  by_cases hlast : core.last < req.depart
  · have hadd : core.meter.add (underWay req) =
        ⟨core.memoryAccessCycles + (req.depart - max core.last req.arrive), req.depart⟩ :=
      if_pos hlast
    rw [hadd, receive, if_pos ⟨hne, hlast⟩]
    rfl
  · have hadd : core.meter.add (underWay req) = core.meter := if_neg hlast
    rw [hadd, receive, if_neg fun h => hlast h.2]
    rfl

theorem meter_foldl_receive (cfg : ProcessorConfig) (core : Core) (reqs : List Request)
    (harrive : ∀ req ∈ reqs, 0 ≤ req.arrive) : (reqs.foldl (receive cfg) core).meter =
      (reqs.map underWay).foldl HighWater.Meter.add core.meter := by
  induction reqs generalizing core with
  | nil => rfl
  | cons req reqs ih =>
    rw [foldl_cons, map_cons, foldl_cons,
      ih _ fun req' hreq' => harrive req' (mem_cons_of_mem _ hreq'),
      meter_receive (harrive req mem_cons_self)]

/-- The statistic never exceeds the number of cycles with a request under way, and
    equals it exactly if no request was under way, before a departure delivered
    earlier, in a cycle in which no earlier delivered one was.  It does if the
    requests are delivered in the order of their arrivals, too. -/
theorem memoryAccessCycles_le_accessCycles (cfg : ProcessorConfig) (core : Core)
    (reqs : List Request) (hlast : core.last = 0) (hcycles : core.memoryAccessCycles = 0)
    (htimes : ∀ req ∈ reqs, 0 ≤ req.arrive ∧ req.arrive < req.depart)
    (horder : reqs.Pairwise fun req req' => req.depart ≤ req'.depart) :
    (reqs.foldl (receive cfg) core).memoryAccessCycles ≤ (accessCycles reqs).card ∧
      ((reqs.foldl (receive cfg) core).memoryAccessCycles = (accessCycles reqs).card ↔
        ReachesBackOverOthers reqs) ∧ ((reqs.Pairwise fun req req' => req.arrive ≤ req'.arrive) →
        (reqs.foldl (receive cfg) core).memoryAccessCycles = (accessCycles reqs).card) := by
  have hmeter := meter_foldl_receive cfg core reqs fun req hreq => (htimes req hreq).1
  have hstart : core.meter = {} := by
    rw [meter, hlast, hcycles]
  have hmeasured := HighWater.measured (reqs.map underWay)
    (by simpa [underWay] using htimes) (pairwise_map.mpr horder)
  rw [← hstart, ← hmeter] at hmeasured
  have hiff := hmeasured.count_eq_iff.trans gapFree_iff
  refine ⟨hmeasured.count_le, hiff, fun harrivals => hmeasured.count_eq_iff.mpr ?_⟩
  exact .of_ordered (pairwise_map.mpr harrivals)

/-- Two reads that arrive and depart in the same order. -/
theorem memoryAccessCycles_le_accessCycles_twoReads :
    ([{ addr := 0, type := .read, arrive := 2, depart := 10 },
      { addr := 64, type := .read, arrive := 5, depart := 12 }].foldl (receive {})
        (Processor.newCore 0 {})).memoryAccessCycles = 10 := by
  have heq := (memoryAccessCycles_le_accessCycles {} (Processor.newCore 0 {})
    [{ addr := 0, type := .read, arrive := 2, depart := 10 },
      { addr := 64, type := .read, arrive := 5, depart := 12 }] rfl rfl (by decide)
    (by decide)).2.2 (by decide)
  rw [heq]
  decide

/-- The read that departs last arrived first: cycles 2, 3 and 4 are not counted. -/
theorem memoryAccessCycles_lt_accessCycles :
    ([{ addr := 0, type := .read, arrive := 5, depart := 10 },
      { addr := 64, type := .read, arrive := 2, depart := 12 }].foldl (receive {})
        (Processor.newCore 0 {})).memoryAccessCycles = 7 ∧
      (accessCycles [{ addr := 0, type := .read, arrive := 5, depart := 10 },
        { addr := 64, type := .read, arrive := 2, depart := 12 }]).card = 10 := by
  decide +kernel

end Core

end Ramulator
