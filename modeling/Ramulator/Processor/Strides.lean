/-
  Ramulator.Processor.Strides

  The cores of a processor of the trace, with more than 256 cores.

  The k-th request of processor `p` is meant for the core `p + 256 * k`, modulo
  the number of cores.  `offset_counter` counts the requests of a processor.  It
  has 256 entries, but `get_zsim_request` accepts processors up to 512.  The
  product `offset_counter[cpu_id] * 256` is an `int`, so it turns negative at the
  request number 2 ^ 23 of a processor, and `%` keeps the sign.

  `dispatch_strided_iff` says for which traces the requests go where they are
  meant to go: all processors are below 256 and have few enough requests, and no
  record has the address -1, which the loop takes for a line that is no record.
-/

import Mathlib.Data.Nat.Prime.Basic
import Ramulator.Processor.Dispatch

namespace Ramulator

open Outcome List

namespace Dispatcher

variable {τ : Type} {cfg : DispatchConfig} {base : MemoryBase τ} {d : Dispatcher τ}
  {E : Abort → Prop} {done : List Trace.Regs} {regs : Trace.Regs} {m : Nat}

def requestsOf (p : Nat) (reqs : List Trace.Regs) : Nat := reqs.countP (·.cpuId = p)

/-- The requests `reqs` are in the queues, the k-th one of processor `p` in that
    of the core `p + 256 * k`. -/
structure Strided (cfg : DispatchConfig) (reqs : List Trace.Regs) (d : Dispatcher τ) : Prop where
  filed : Filed cfg d
  requests : d.deals.map Deal.request = reqs
  core : ∀ before x after, d.deals = before ++ x :: after → x.core = (x.request.cpuId +
      256 * requestsOf x.request.cpuId (before.map Deal.request)) % cfg.numberCores

/-- How many requests of a processor go where they should; number 2 ^ 23 has a negative key. -/
def strideLimit (numberCores p : Nat) : Nat :=
  if p = 0 ∧ numberCores ∣ 2 ^ 31 then 2 ^ 23 + 1 else 2 ^ 23

/-- The traces that are dispatched as they should be. -/
def WithinStrides (numberCores : Nat) (reqs : List Trace.Regs) : Prop :=
  ∀ r ∈ reqs, r.reqAddr ≠ -1 ∧ r.cpuId < 256 ∧
    requestsOf r.cpuId reqs ≤ strideLimit numberCores r.cpuId

instance (numberCores : Nat) (reqs : List Trace.Regs) :
    Decidable (WithinStrides numberCores reqs) :=
  inferInstanceAs (Decidable (∀ r ∈ reqs, _))

/-! ## The key of a request -/

theorem toInt_of_lt (hm : m < 2 ^ 31) : toInt m = m := by
  unfold toInt
  omega

theorem toInt_of_ge (hm : 2 ^ 31 ≤ m) (hm' : m < 2 ^ 32) :
    toInt m = -((2 ^ 32 - m : Nat) : Int) := by
  unfold toInt
  omega

theorem neg_tmod_natCast (a n : Nat) : (-(a : Int)).tmod n = -((a % n : Nat) : Int) := by
  rw [Int.neg_tmod, Int.ofNat_tmod]

/-- A negative remainder is none of the positive ones. -/
theorem dvd_of_neg_mod_eq {a b n : Nat} (h : (-(a : Int)).tmod n = (b % n : Nat)) :
    n ∣ a ∧ n ∣ b := by
  rw [neg_tmod_natCast] at h
  exact ⟨Nat.dvd_of_mod_eq_zero (by omega), Nat.dvd_of_mod_eq_zero (by omega)⟩

theorem not_dvd_two_pow {n : Nat} (hlow : 256 < n) (hhigh : n < 512) : ¬ n ∣ 2 ^ 32 := by
  intro hdvd
  obtain ⟨j, -, rfl⟩ := (Nat.dvd_prime_pow Nat.prime_two).mp hdvd
  have hj : 8 < j := (Nat.pow_lt_pow_iff_right (by decide)).mp (show 2 ^ 8 < 2 ^ j from hlow)
  have hj' : j < 9 := (Nat.pow_lt_pow_iff_right (by decide)).mp (show 2 ^ j < 2 ^ 9 from hhigh)
  omega

theorem stride_eq {n p k : Nat} (hp : p < 256) (hk : k < strideLimit n p) :
    (toInt (p + k * 256)).tmod n = ((p + 256 * k) % n : Nat) := by
  unfold strideLimit at hk
  by_cases hsmall : k < 2 ^ 23
  · rw [toInt_of_lt (by omega), Int.ofNat_tmod, Nat.mul_comm k]
  · split at hk
    · next hzero =>
      obtain ⟨rfl, hdvd⟩ := hzero
      obtain rfl : k = 2 ^ 23 := by omega
      rw [toInt_of_ge (by decide) (by decide), neg_tmod_natCast,
        show (2 ^ 32 - (0 + 2 ^ 23 * 256) : Nat) = 2 ^ 31 by decide,
        show (0 + 256 * 2 ^ 23 : Nat) = 2 ^ 31 by decide, Nat.mod_eq_zero_of_dvd hdvd]
      rfl
    · omega

theorem stride_limit_ne {n p : Nat} (hn : 256 < n) (hp : p < 256) :
    (toInt (p + strideLimit n p * 256)).tmod n ≠ ((p + 256 * strideLimit n p) % n : Nat) := by
  unfold strideLimit
  split
  · next hzero =>
    obtain ⟨rfl, hdvd⟩ := hzero
    rw [toInt_of_ge (by decide) (by decide)]
    intro heq
    -- a divisor of 2 ^ 31 and of 2 ^ 31 + 256
    have h256 : n ∣ 256 := (Nat.dvd_add_right hdvd).mp (dvd_of_neg_mod_eq heq).2
    exact absurd (Nat.le_of_dvd (by decide) h256) (by omega)
  · next hzero =>
    rw [toInt_of_ge (by omega) (by omega)]
    intro heq
    obtain ⟨hkey, hcore⟩ := dvd_of_neg_mod_eq heq
    have hdouble : n ∣ 2 * p := by
      have := (Nat.dvd_sub hcore hkey)
      rwa [show p + 256 * 2 ^ 23 - (2 ^ 32 - (p + 2 ^ 23 * 256)) = 2 * p by omega] at this
    have hsum : n ∣ 2 ^ 32 := by
      have := Nat.dvd_add hkey hcore
      rwa [show 2 ^ 32 - (p + 2 ^ 23 * 256) + (p + 256 * 2 ^ 23) = 2 ^ 32 by omega] at this
    by_cases hp0 : p = 0
    · subst hp0
      exact hzero ⟨rfl, hcore⟩
    · -- `2 * p` is less than `2 * n`, so it is `n`
      have hle := Nat.le_of_dvd (by omega) hdouble
      exact not_dvd_two_pow hn (by omega) hsum

/-! ## The deals, one by one -/

/-- What the loop keeps: the counters count, and every deal has the core of its
    key. -/
structure Counting (cfg : DispatchConfig) (done : List Trace.Regs) (d : Dispatcher τ) : Prop where
  filed : Filed cfg d
  requests : d.deals.map Deal.request = done
  length : d.offsetCounter.length = 256
  known : ∀ r ∈ done, r.cpuId < 256
  counter : ∀ p < 256, d.offsetCounter[p]? = some (requestsOf p done)
  core : ∀ before x after, d.deals = before ++ x :: after →
    (x.core : Int) = (toInt (x.request.cpuId +
      requestsOf x.request.cpuId (before.map Deal.request) * 256)).tmod cfg.numberCores

theorem Counting.start (memory : τ) : Counting cfg [] (start cfg memory) where
  filed := Filed.start memory
  requests := rfl
  length := length_replicate
  known r hr := by cases hr
  counter p hp := by
    show (replicate 256 0)[p]? = some 0
    rw [getElem?_replicate, if_pos hp]
  core before x after h := by
    have : ([] : List Deal) = before ++ x :: after := h
    simp at this

theorem split_concat {α : Type} {xs before after : List α} {a x : α}
    (h : xs ++ [a] = before ++ x :: after) :
    (before = xs ∧ x = a) ∨ ∃ after', xs = before ++ x :: after' := by
  rcases eq_nil_or_concat after with rfl | ⟨after', b, rfl⟩
  · obtain ⟨hxs, ha⟩ := append_inj' h rfl
    exact Or.inl ⟨hxs.symm, (List.cons.inj ha).1.symm⟩
  · rw [concat_eq_append, ← cons_append, ← append_assoc] at h
    exact Or.inr ⟨after', (append_inj' h rfl).1⟩

theorem requestsOf_concat (p : Nat) (done : List Trace.Regs) (regs : Trace.Regs) :
    requestsOf p (done ++ [regs]) = requestsOf p done + if regs.cpuId = p then 1 else 0 := by
  unfold requestsOf
  rw [countP_append, countP_singleton]
  simp

theorem Counting.deal (h : Counting cfg done d)
    (hknown : regs.cpuId < 256) {d' : Dispatcher τ} {addr : Int} {c : Nat}
    (hfiled : Filed cfg d') (hdeals : d'.deals = d.deals ++ [⟨regs, addr, c⟩])
    (hcounter : d'.offsetCounter = d.offsetCounter.set regs.cpuId (requestsOf regs.cpuId done + 1))
    (hcore : (toInt (regs.cpuId + requestsOf regs.cpuId done * 256)).tmod cfg.numberCores = c) :
    Counting cfg (done ++ [regs]) d' where
  filed := hfiled
  requests := by
    rw [hdeals, map_append, h.requests]
    rfl
  length := by
    rw [hcounter, length_set]
    exact h.length
  known r hr := by
    rcases mem_append.mp hr with hr | hr
    · exact h.known r hr
    · rw [mem_singleton.mp hr]
      exact hknown
  counter p hp := by
    rw [hcounter, requestsOf_concat]
    by_cases heq : regs.cpuId = p
    · subst heq
      rw [getElem?_set_self (by rw [h.length]; exact hp), if_pos rfl]
    · rw [getElem?_set_ne heq, if_neg heq, h.counter p hp, Nat.add_zero]
  core before x after hsplit := by
    rw [hdeals] at hsplit
    rcases split_concat hsplit with ⟨rfl, rfl⟩ | ⟨after', hold⟩
    · rw [h.requests]
      exact hcore.symm
    · exact h.core before x after' hold

/-- A request of a trace: it is dealt, unless the trace is one that goes wrong or
    the memory aborts. -/
theorem Counting.dispatch (hproc : cfg.disablePerScheduling = true) (hmany : 256 < cfg.numberCores)
    (hpages : ∀ m addr id, Ends (base.pageAllocator m addr id) (fun _ => True) E)
    {rest all : List Trace.Regs} (h : Counting cfg done d) (hall : done ++ regs :: rest = all)
    (haddr : regs.reqAddr ≠ -1) : Ends (d.dispatch cfg base regs) (Counting cfg (done ++ [regs]))
      (fun e => E e ∨ ¬ WithinStrides cfg.numberCores all) := by
  have hmem : regs ∈ all := by
    rw [← hall]
    simp
  rw [Dispatcher.dispatch, if_neg haddr, if_pos hproc, dispatchByProcessor, if_neg (by omega)]
  -- a processor without a counter
  have hout : (regs.cpuId : Int) < 0 ∨ (d.offsetCounter.length : Int) ≤ regs.cpuId →
      E .outOfBounds ∨ ¬ WithinStrides cfg.numberCores all := by
    intro hbad
    rw [h.length] at hbad
    refine Or.inr fun hwithin => ?_
    have := (hwithin regs hmem).2.1
    omega
  apply Ends.bind (Vec.at_ends_of hout)
  rintro offset ⟨-, hget⟩
  rw [Int.toNat_natCast] at hget
  have hknown : regs.cpuId < 256 := by
    rw [← h.length]
    exact (List.getElem?_eq_some_iff.mp hget).1
  obtain rfl : offset = requestsOf regs.cpuId done :=
    Option.some.inj (hget.symm.trans (h.counter _ hknown))
  apply Ends.bind ((hpages d.memory regs.reqAddr _).weaken_abort fun e he => Or.inl he)
  rintro ⟨addr, memory⟩ -
  have hfiled : Filed cfg { d with
      memory, offsetCounter := d.offsetCounter.set regs.cpuId (requestsOf regs.cpuId done + 1) } :=
    h.filed.of_eq rfl rfl
  -- a key that is no core
  have hcore : (toInt (regs.cpuId + requestsOf regs.cpuId done * 256)).tmod cfg.numberCores < 0 ∨
      (cfg.numberCores : Int) ≤
        (toInt (regs.cpuId + requestsOf regs.cpuId done * 256)).tmod cfg.numberCores →
      E .outOfBounds ∨ ¬ WithinStrides cfg.numberCores all := by
    intro hbad
    refine Or.inr fun hwithin => ?_
    have hcount := (hwithin regs hmem).2.2
    rw [← hall, ← singleton_append, ← append_assoc, requestsOf, countP_append,
      ← requestsOf, requestsOf_concat, if_pos rfl] at hcount
    rw [stride_eq hknown (by omega)] at hbad
    have := Nat.mod_lt (regs.cpuId + 256 * requestsOf regs.cpuId done)
      (show 0 < cfg.numberCores by omega)
    omega
  apply (hfiled.push regs addr hcore).weaken
  rintro d' ⟨hfiled', c, hc, hdeals, -, -, hcounter⟩
  exact h.deal hknown hfiled' hdeals hcounter hc

/-! ## The comparison with the strides -/

theorem exists_request_number {p k : Nat} {reqs : List Trace.Regs} (h : k < requestsOf p reqs) :
    ∃ before r after, reqs = before ++ r :: after ∧ r.cpuId = p ∧ requestsOf p before = k := by
  induction reqs using List.reverseRecOn with
  | nil => exact absurd h (Nat.not_lt_zero k)
  | append_singleton reqs r ih =>
    by_cases hold : k < requestsOf p reqs
    · obtain ⟨before, r', after, rfl, hr', hk⟩ := ih hold
      exact ⟨before, r', after ++ [r], by simp, hr', hk⟩
    · rw [requestsOf_concat] at h
      by_cases hr : r.cpuId = p
      · rw [if_pos hr] at h
        exact ⟨reqs, r, [], rfl, hr, by omega⟩
      · rw [if_neg hr] at h
        omega

/-- Where every processor has few enough requests, the deals are the strides; and
    only there. -/
theorem Counting.strided_iff (hmany : 256 < cfg.numberCores) (h : Counting cfg done d) :
    Strided cfg done d ↔
      ∀ r ∈ done, requestsOf r.cpuId done ≤ strideLimit cfg.numberCores r.cpuId := by
  constructor
  · intro hstrided r hr
    by_contra hlimit
    -- the first request beyond the limit has a core of its own
    obtain ⟨before, r', after, hsplit, hid, hnumber⟩ :=
      exists_request_number (Nat.lt_of_not_le hlimit)
    obtain ⟨before', rest, hdeals, hbefore, hrest⟩ :=
      map_eq_append_iff.mp (h.requests.trans hsplit)
    obtain ⟨x, after', rfl, hx, hafter⟩ := map_eq_cons_iff.mp hrest
    have hkey := h.core before' x after' hdeals
    rw [hstrided.core before' x after' hdeals, hbefore, hx, hid, hnumber] at hkey
    exact stride_limit_ne hmany (h.known r hr) hkey.symm
  · intro hlimit
    refine ⟨h.filed, h.requests, ?_⟩
    intro before x after hdeals
    have hsplit : done = before.map Deal.request ++ x.request :: after.map Deal.request := by
      rw [← h.requests, hdeals, map_append, map_cons]
    have hmem : x.request ∈ done := by
      rw [hsplit]
      simp
    have hcount := hlimit x.request hmem
    rw [hsplit, ← singleton_append, ← append_assoc, requestsOf, countP_append,
      ← requestsOf, requestsOf_concat, if_pos rfl] at hcount
    have hkey := h.core before x after hdeals
    rw [stride_eq (h.known _ hmem) (by omega)] at hkey
    exact Int.ofNat.inj hkey

/-- With more than 256 cores and without perfect scheduling, the k-th request of
    every processor `p` of a trace goes to the core `p + 256 * k`, modulo the number
    of cores, exactly for the traces within the strides.  A trace that is not leaves
    the queues otherwise or aborts. -/
theorem dispatch_strided_iff (hproc : cfg.disablePerScheduling = true)
    (hmany : 256 < cfg.numberCores)
    (hpages : ∀ m addr id, Ends (base.pageAllocator m addr id) (fun _ => True) E)
    (memory : τ) (regs : Trace.Regs) (file : List (List Char)) :
    Ends (zsim cfg base memory regs file) (fun d => Strided cfg (Trace.requests regs file) d ↔
        WithinStrides cfg.numberCores (Trace.requests regs file))
      (fun e => E e ∨ ¬ WithinStrides cfg.numberCores (Trace.requests regs file)) := by
  -- the loop dispatches the requests that have an address
  have hfilter (hwithin : ∀ r ∈ Trace.requests regs file, r.reqAddr ≠ -1) :
      (Trace.requests regs file).filter (·.reqAddr ≠ -1) = Trace.requests regs file :=
    filter_eq_self.mpr fun r hr => by simpa using hwithin r hr
  have hloop := zsimLoop_ends_within (I := Counting cfg)
    (fun _ _ _ _ hall h haddr => h.dispatch hproc hmany hpages hall haddr)
    file regs [] (Counting.start memory) rfl
  apply hloop.imp
  · intro d h
    by_cases haddr : ∀ r ∈ Trace.requests regs file, r.reqAddr ≠ -1
    · rw [nil_append, hfilter haddr] at h
      rw [h.strided_iff hmany]
      constructor
      · exact fun hlimit r hr => ⟨haddr r hr, h.known r hr, hlimit r hr⟩
      · exact fun hwithin r hr => (hwithin r hr).2.2
    · refine iff_of_false (fun hstrided => haddr ?_) fun hwithin => haddr fun r hr =>
        (hwithin r hr).1
      have hdealt := h.requests
      rw [hstrided.requests, nil_append] at hdealt
      intro r hr
      rw [hdealt] at hr
      simpa using (mem_filter.mp hr).2
  · rintro e (he | he)
    · exact Or.inl he
    · refine Or.inr fun hwithin => he ?_
      rw [nil_append, hfilter fun r hr => (hwithin r hr).1]
      exact hwithin

/-- Three requests of two processors. -/
def stridesFile : List (List Char) :=
  ["0 3 0 L 64".toList, "0 0 0 S 128".toList, "0 3 0 L 192".toList]

def stridesConfig : DispatchConfig :=
  { numberCores := 257, disablePerScheduling := true, hmc := none }

/-- The second request of processor 3 goes to the core 259 modulo 257. -/
theorem dispatch_strided_three :
    ∃ d, zsim stridesConfig MemoryBase.scripted [] firstRegs stridesFile = .ok d ∧
      d.deals.map Deal.core = [3, 0, 2] ∧
      Strided stridesConfig (Trace.requests firstRegs stridesFile) d := by
  have hmap : (zsim stridesConfig MemoryBase.scripted [] firstRegs stridesFile).toOption.map
      (fun d => d.deals.map Deal.core) = some [3, 0, 2] := by decide +kernel
  obtain ⟨d, hrun, hcores⟩ := exists_ok_of_map hmap
  have hwithin : WithinStrides 257 (Trace.requests firstRegs stridesFile) := by decide +kernel
  have hpages (m : List Bool) (addr id : Int) :
      Ends (MemoryBase.scripted.pageAllocator m addr id) (fun _ => True) (fun _ => False) :=
    Ends.pure trivial
  have hmany : 256 < stridesConfig.numberCores := by decide
  have hiff := (dispatch_strided_iff rfl hmany hpages [] firstRegs stridesFile).result hrun
  exact ⟨d, hrun, hcores, hiff.mpr hwithin⟩

/-- A request of processor 256 has no counter. -/
theorem processor_256_out_of_bounds :
    Trace.requests firstRegs ["0 256 0 L 64".toList] = [⟨0, 64, .read, 256⟩] ∧
      zsim stridesConfig MemoryBase.scripted [] firstRegs ["0 256 0 L 64".toList] =
        .error .outOfBounds := by
  have hparse : Trace.parse "0 256 0 L 64".toList = .record ⟨256, 0, 64, some .read⟩ := by
    decide +kernel
  constructor
  · rw [Trace.requests, hparse]
    rfl
  · rw [zsim, zsimLoop_cons, Trace.getZsimRequest, hparse]
    rfl

end Dispatcher

end Ramulator
