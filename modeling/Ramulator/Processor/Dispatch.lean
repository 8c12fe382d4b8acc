/-
  Ramulator.Processor.Dispatch

  Dealing a single trace out to the cores (the constructor of `Processor`,
  Processor.cpp).

  Two loops read the whole file before the first cycle and put each request
  into the queue of a core.  With perfect scheduling, and for a PISA trace, a
  request goes to a core of its vault; otherwise to a core of its processor.
  The loop of zsim passes over an address of -1, which is how
  `get_zsim_request` reports a line that is not a record.

  Beside the queues the model keeps what was dealt to whom, in the order of the
  trace (`deals`).  `Filed` says that the queues hold just that.

  An empty line ends the loop.  So a line that is not a record changes nothing
  unless it is empty, and an empty one cuts off the records after it
  (`insert_harmless_iff`).
-/

import Ramulator.Lib.RoundRobin
import Ramulator.Processor.Trace
import Ramulator.Simulation

namespace Ramulator

open Outcome List

variable {τ : Type}

structure DispatchConfig where
  /-- `number_cores`. -/
  numberCores : Nat
  /-- `disable_per_scheduling`. -/
  disablePerScheduling : Bool := false
  /-- The memory, if it is one of type `Memory<HMC>`. -/
  hmc : Option MemoryConfig

def DispatchConfig.perVault (cfg : DispatchConfig) : Nat := cfg.numberCores / 32

/-- The requests of a zsim trace reach the queues: perfect scheduling knows the
    vaults of an HMC only. -/
def DispatchConfig.Deals (cfg : DispatchConfig) : Prop :=
  cfg.disablePerScheduling = true ∨ cfg.hmc ≠ none

/-- A request that was put into the queue of a core, with its translated
    address. -/
structure Deal where
  request : Trace.Regs
  addr : Int
  core : Nat

def Deal.entry (x : Deal) : QueueEntry := ⟨x.request.bubbleCnt, x.addr, x.request.reqType⟩

/-- The queues of the cores and the variables of the loops. -/
structure Dispatcher (τ : Type) where
  /-- `rqst_queue` of each core. -/
  queues : List (List QueueEntry)
  memory : τ
  roundRobin : List Nat := replicate 32 0
  offsetCounter : List Nat := replicate 256 0
  deals : List Deal := []

def vaultTarget (mem : MemoryConfig) (addr : Int) : Nat :=
  let tmp := Memory.clearHigherBits addr (mem.maxAddress - 1)
  let tmp := tmp >>> MemoryConfig.txBits
  let maxBlockColBits := HMC.flitNumBits mem.hmc.maxblock - MemoryConfig.txBits
  let (_, tmp) := Memory.sliceLowerBits tmp maxBlockColBits
  (Memory.sliceLowerBits tmp (mem.addrBits HMC.Level.vault)).1

namespace Dispatcher

variable (cfg : DispatchConfig) (base : MemoryBase τ) {regs : Trace.Regs} {v : Nat}

def start (memory : τ) : Dispatcher τ where
  queues := replicate cfg.numberCores []
  memory := memory

def push (d : Dispatcher τ) (regs : Trace.Regs) (addr core : Int) :
    Except Abort (Dispatcher τ) := do
  let queue ← Vec.at d.queues core
  let x : Deal := ⟨regs, addr, core.toNat⟩
  pure { d with queues := d.queues.set x.core (queue ++ [x.entry]), deals := d.deals ++ [x] }

/-- A request for a vault: to the core of its number, or to the cores of the
    vault in turn. -/
def schedule (d : Dispatcher τ) (regs : Trace.Regs) (addr : Int) (vaultTarget : Nat) :
    Except Abort (Dispatcher τ) :=
  if cfg.numberCores ≤ 32 then d.push regs addr (vaultTarget % cfg.numberCores : Nat)
  else do
    let turn ← Vec.at d.roundRobin vaultTarget
    let coreToSchedule := 32 * turn + vaultTarget
    let d := { d with
      roundRobin := d.roundRobin.set vaultTarget ((turn + 1) % cfg.perVault) }
    if coreToSchedule < cfg.numberCores then d.push regs addr coreToSchedule else pure d

def dispatchPerfect (d : Dispatcher τ) (regs : Trace.Regs) : Except Abort (Dispatcher τ) :=
  match cfg.hmc with
  | none => pure d
  | some mem => do
      let (addr, memory) ← base.pageAllocator d.memory regs.reqAddr 0
      { d with memory }.schedule cfg regs addr (vaultTarget mem addr)

def toInt (n : Nat) : Int :=
  if n % 2 ^ 32 < 2 ^ 31 then (n % 2 ^ 32 : Nat) else (n % 2 ^ 32 : Nat) - 2 ^ 32

/-- No perfect scheduling.  With more than 256 cores a processor of the trace
    stands for several. -/
def dispatchByProcessor (d : Dispatcher τ) (regs : Trace.Regs) : Except Abort (Dispatcher τ) :=
  if cfg.numberCores ≤ 256 then do
    let (addr, memory) ← base.pageAllocator d.memory regs.reqAddr regs.cpuId
    { d with memory }.push regs addr (regs.cpuId % cfg.numberCores : Nat)
  else do
    let offset ← Vec.at d.offsetCounter regs.cpuId
    let newCpuId := toInt (regs.cpuId + offset * 256)
    let (addr, memory) ← base.pageAllocator d.memory regs.reqAddr newCpuId
    { d with memory, offsetCounter := d.offsetCounter.set regs.cpuId (offset + 1) }.push regs addr
      (newCpuId.tmod cfg.numberCores)

/-- The body of the loop over a zsim trace. -/
def dispatch (d : Dispatcher τ) (regs : Trace.Regs) : Except Abort (Dispatcher τ) :=
  if regs.reqAddr = -1 then pure d
  else if cfg.disablePerScheduling then d.dispatchByProcessor cfg base regs
  else d.dispatchPerfect cfg base regs

def zsimLoop (d : Dispatcher τ) (regs : Trace.Regs) :
    List (List Char) → Except Abort (Dispatcher τ)
  | [] => pure d
  | line :: file =>
    match Trace.getZsimRequest regs line with
    | none => pure d
    | some regs => do
        let d ← d.dispatch cfg base regs
        zsimLoop d regs file

/-- The queues after a zsim trace.  What the variables hold before the first
    line is in `regs`. -/
def zsim (memory : τ) (regs : Trace.Regs) (file : List (List Char)) :
    Except Abort (Dispatcher τ) :=
  (start cfg memory).zsimLoop cfg base regs file

/-- The body of the loop over a PISA trace: no translation. -/
def dispatchPisa (d : Dispatcher τ) (regs : Trace.Regs) : Except Abort (Dispatcher τ) :=
  match cfg.hmc with
  | none => pure d
  | some mem => d.schedule cfg regs regs.reqAddr (vaultTarget mem regs.reqAddr)

def pisaLoop (d : Dispatcher τ) (instructions : List Nat) :
    List Trace.PisaLine → Except Abort (Dispatcher τ)
  | [] => pure d
  | line :: file => do
      let request ← Trace.getPisaRequest instructions line
      match request with
      | none => pure d
      | some (regs, instructions) => do
          let d ← d.dispatchPisa cfg regs
          pisaLoop d instructions file

def pisa (memory : τ) (file : List Trace.PisaLine) : Except Abort (Dispatcher τ) :=
  (start cfg memory).pisaLoop cfg Trace.instructions file

/-! ## The loops -/

variable {cfg base} {d : Dispatcher τ} {E : Abort → Prop}
  {I : List Trace.Regs → Dispatcher τ → Prop}

/-- The loop over a zsim trace: `I` holds of the requests that were dispatched
    and the state.  A step may use what the whole trace dispatches (`all`). -/
theorem zsimLoop_ends_within {all : List Trace.Regs}
    (hdispatch : ∀ done d regs rest, done ++ regs :: rest = all → I done d →
      regs.reqAddr ≠ -1 → Ends (d.dispatch cfg base regs) (I (done ++ [regs])) E)
    (file : List (List Char)) (regs : Trace.Regs) (done : List Trace.Regs) (h : I done d)
    (hall : done ++ (Trace.requests regs file).filter (·.reqAddr ≠ -1) = all) :
    Ends (d.zsimLoop cfg base regs file) (I all) E := by
  induction file generalizing d regs done with
  | nil =>
    rw [Trace.requests, filter_nil, append_nil] at hall
    rw [← hall]
    exact Ends.pure h
  | cons line file ih =>
    unfold zsimLoop Trace.getZsimRequest
    unfold Trace.requests at hall
    cases hline : Trace.parse line with
    | empty =>
      rw [hline, filter_nil, append_nil] at hall
      rw [← hall]
      exact Ends.pure h
    | malformed =>
      rw [hline] at hall
      exact ih _ done h (by rw [Trace.requests_reqAddr]; exact hall)
    | record r =>
      rw [hline] at hall
      dsimp only at hall ⊢
      by_cases haddr : (regs.load r).reqAddr = -1
      · rw [filter_cons, if_neg (by simp [haddr])] at hall
        rw [dispatch, if_pos haddr]
        exact ih _ done h hall
      · rw [filter_cons, if_pos (by simp [haddr])] at hall
        apply Ends.bind (hdispatch done d _ _ hall h haddr)
        intro d' h'
        apply ih (regs.load r) (done ++ [regs.load r]) h'
        rw [append_assoc, singleton_append]
        exact hall

theorem zsimLoop_ends (hdispatch : ∀ done d regs, I done d → regs.reqAddr ≠ -1 →
      Ends (d.dispatch cfg base regs) (I (done ++ [regs])) E)
    (file : List (List Char)) (regs : Trace.Regs) (done : List Trace.Regs) (h : I done d) :
    Ends (d.zsimLoop cfg base regs file)
      (I (done ++ (Trace.requests regs file).filter (·.reqAddr ≠ -1))) E :=
  zsimLoop_ends_within (fun done d regs _ _ => hdispatch done d regs) file regs done h rfl

/-- The loop over a PISA trace, which may also abort at a processor that is not
    one of 256. -/
theorem pisaLoop_ends
    (hdispatch : ∀ done d regs, I done d → Ends (d.dispatchPisa cfg regs) (I (done ++ [regs])) E)
    (file : List Trace.PisaLine) (instructions : List Nat) (hlength : instructions.length = 256)
    (hout : (∃ line ∈ file, ¬ line.Known) → E .outOfBounds)
    (done : List Trace.Regs) (h : I done d) : Ends (d.pisaLoop cfg instructions file)
      (I (done ++ Trace.pisaRequests instructions file)) E := by
  induction file generalizing d instructions done with
  | nil =>
    rw [Trace.pisaRequests, append_nil]
    exact Ends.pure h
  | cons line file ih =>
    have hknown (hbad : ¬ line.Known) : E .outOfBounds :=
      hout ⟨line, mem_cons_self, hbad⟩
    have hread := Trace.getPisaRequest_ends hlength hknown
    have hrest : (∃ line ∈ file, ¬ line.Known) → E .outOfBounds := by
      rintro ⟨line', hmem, hbad⟩
      exact hout ⟨line', mem_cons_of_mem _ hmem, hbad⟩
    unfold pisaLoop Trace.pisaRequests
    cases hline : Trace.getPisaRequest instructions line with
    | error e => exact hread.abort hline
    | ok request =>
      cases request with
      | none =>
        rw [append_nil]
        exact Ends.pure h
      | some request =>
        obtain ⟨regs, instructions'⟩ := request
        apply Ends.bind (hdispatch done d regs h)
        intro d' h'
        have := ih instructions' (hread.result hline regs instructions' rfl) hrest
          (done ++ [regs]) h'
        rw [append_assoc, singleton_append] at this
        exact this

/-! ## The queues hold what was dealt -/

/-- The queue of a core holds what was dealt to it, in order, and all that was
    dealt is in a queue. -/
structure Filed (cfg : DispatchConfig) (d : Dispatcher τ) : Prop where
  length : d.queues.length = cfg.numberCores
  queue : ∀ c < cfg.numberCores, d.queues[c]? = some ((d.deals.filter (·.core = c)).map Deal.entry)
  core_lt : ∀ x ∈ d.deals, x.core < cfg.numberCores

theorem Filed.start (memory : τ) : Filed cfg (start cfg memory) where
  length := length_replicate
  queue c hc := by
    show (replicate cfg.numberCores ([] : List QueueEntry))[c]? = _
    rw [getElem?_replicate, if_pos hc]
    rfl
  core_lt x hx := by cases hx

variable {d' : Dispatcher τ}

theorem Filed.of_eq (h : Filed cfg d) (hqueues : d'.queues = d.queues)
    (hdeals : d'.deals = d.deals) : Filed cfg d' := by
  refine ⟨?_, ?_, ?_⟩
  · rw [hqueues]
    exact h.length
  · rw [hqueues, hdeals]
    exact h.queue
  · rw [hdeals]
    exact h.core_lt

theorem Filed.push (h : Filed cfg d) (regs : Trace.Regs) (addr : Int) {core : Int}
    (hout : core < 0 ∨ (cfg.numberCores : Int) ≤ core → E .outOfBounds) :
    Ends (d.push regs addr core) (fun d' => Filed cfg d' ∧ ∃ c : Nat, core = c ∧
      d'.deals = d.deals ++ [⟨regs, addr, c⟩] ∧ d'.memory = d.memory ∧
      d'.roundRobin = d.roundRobin ∧ d'.offsetCounter = d.offsetCounter) E := by
  rw [← h.length] at hout
  apply Ends.bind (Vec.at_ends_of hout)
  rintro queue ⟨hnonneg, hqueue⟩
  obtain ⟨c, rfl⟩ := Int.eq_ofNat_of_zero_le hnonneg
  rw [Int.toNat_natCast] at hqueue
  have hc : c < cfg.numberCores := by
    rw [← h.length]
    exact (List.getElem?_eq_some_iff.mp hqueue).1
  have hold : queue = (d.deals.filter (·.core = c)).map Deal.entry :=
    Option.some.inj (hqueue.symm.trans (h.queue c hc))
  apply Ends.pure
  refine ⟨⟨?_, ?_, ?_⟩, c, rfl, rfl, rfl, rfl, rfl⟩
  · rw [length_set]
    exact h.length
  · intro c' hc'
    dsimp only
    rw [Int.toNat_natCast, filter_append, map_append]
    by_cases heq : c' = c
    · subst heq
      rw [getElem?_set_self (by rw [h.length]; exact hc'), hold]
      simp
    · rw [getElem?_set_ne (Ne.symm heq), h.queue c' hc',
        filter_cons, if_neg (by simpa using Ne.symm heq)]
      simp
  · exact forall_mem_concat h.core_lt hc

/-! ## The cores of a vault take turns -/

/-- The number of requests dealt to the cores of a vault. -/
def dealtTo (d : Dispatcher τ) (v : Nat) : Nat := d.deals.countP (·.core % 32 = v)

def dealtToCore (d : Dispatcher τ) (c : Nat) : Nat := d.deals.countP (·.core = c)

structure InTurn (cfg : DispatchConfig) (d : Dispatcher τ) : Prop where
  length : d.roundRobin.length = 32
  turn : ∀ v < 32, d.roundRobin[v]? = some (d.dealtTo v % cfg.perVault)
  share : ∀ v < 32, ∀ j < cfg.perVault,
    d.dealtToCore (32 * j + v) = RoundRobin.share cfg.perVault (d.dealtTo v) j

theorem InTurn.start (memory : τ) : InTurn cfg (start cfg memory) where
  length := length_replicate
  turn v hv := by
    show (replicate 32 0)[v]? = some (0 % cfg.perVault)
    rw [getElem?_replicate, if_pos hv, Nat.zero_mod]
  share v _ j _ := by
    show 0 = RoundRobin.share cfg.perVault 0 j
    rw [RoundRobin.share_zero]

theorem InTurn.of_eq (h : InTurn cfg d) (hrobin : d'.roundRobin = d.roundRobin)
    (hdeals : d'.deals = d.deals) : InTurn cfg d' := by
  have hto (v : Nat) : d'.dealtTo v = d.dealtTo v := by
    rw [dealtTo, hdeals]
    rfl
  have htoCore (c : Nat) : d'.dealtToCore c = d.dealtToCore c := by
    rw [dealtToCore, hdeals]
    rfl
  refine ⟨?_, ?_, ?_⟩
  · rw [hrobin]
    exact h.length
  · intro v hv
    rw [hrobin, hto, h.turn v hv]
  · intro v hv j hj
    rw [hto, htoCore, h.share v hv j hj]

theorem InTurn.deal (h : InTurn cfg d) (hv : v < 32) {x : Deal}
    (hx : x.core = 32 * (d.dealtTo v % cfg.perVault) + v) (hdeals : d'.deals = d.deals ++ [x])
    (hturns : d'.roundRobin =
      d.roundRobin.set v ((d.dealtTo v % cfg.perVault + 1) % cfg.perVault)) : InTurn cfg d' := by
  have hto (w : Nat) (hw : w < 32) : d'.dealtTo w = d.dealtTo w + if w = v then 1 else 0 := by
    unfold dealtTo
    rw [hdeals, countP_append, countP_singleton, hx]
    congr 1
    have hmod : (32 * (d.dealtTo v % cfg.perVault) + v) % 32 = v := by omega
    rw [hmod]
    simp [eq_comm]
  have htoCore (c : Nat) : d'.dealtToCore c = d.dealtToCore c +
      if c = 32 * (d.dealtTo v % cfg.perVault) + v then 1 else 0 := by
    unfold dealtToCore
    rw [hdeals, countP_append, countP_singleton, hx]
    simp [eq_comm]
  refine ⟨?_, ?_, ?_⟩
  · rw [hturns, length_set]
    exact h.length
  · intro w hw
    rw [hturns, hto w hw]
    by_cases hwv : w = v
    · rw [hwv, getElem?_set_self (by rw [h.length]; exact hv), if_pos rfl, Nat.mod_add_mod]
    · rw [getElem?_set_ne (Ne.symm hwv), if_neg hwv, h.turn w hw, Nat.add_zero]
  · intro w hw j hj
    rw [hto w hw, htoCore, h.share w hw j hj]
    by_cases hwv : w = v
    · rw [hwv, if_pos rfl, RoundRobin.share_succ hj]
      congr 1
      have hiff : 32 * j + v = 32 * (d.dealtTo v % cfg.perVault) + v ↔
          j = d.dealtTo v % cfg.perVault := by omega
      simp only [hiff]
    · rw [if_neg hwv, if_neg (by omega), Nat.add_zero, Nat.add_zero]

/-- What `schedule` does: one request more, for a core of its vault. -/
theorem schedule_ends (h : Filed cfg d) (hturn : 32 < cfg.numberCores → InTurn cfg d)
    (regs : Trace.Regs) (addr : Int) (hout : cfg.numberCores = 0 ∨ 32 ≤ v → E .outOfBounds) :
    Ends (d.schedule cfg regs addr v) (fun d' => Filed cfg d' ∧
      (32 < cfg.numberCores → InTurn cfg d') ∧ d'.memory = d.memory ∧
      ∃ c, d'.deals = d.deals ++ [⟨regs, addr, c⟩] ∧
        (cfg.numberCores ≤ 32 → c = v % cfg.numberCores) ∧
        (32 < cfg.numberCores → c % 32 = v)) E := by
  unfold schedule
  apply Ends.ite
  · intro hfew
    have hcore : ((v % cfg.numberCores : Nat) : Int) < 0 ∨
        (cfg.numberCores : Int) ≤ (v % cfg.numberCores : Nat) → E .outOfBounds := by
      intro hbad
      apply hout
      by_contra hnone
      have hlt : v % cfg.numberCores < cfg.numberCores := Nat.mod_lt v (by omega)
      omega
    apply (h.push regs addr hcore).weaken
    rintro d' ⟨hfiled, c, hc, hdeals, hmemory, -⟩
    refine ⟨hfiled, fun hmany => by omega, hmemory, c, hdeals, fun _ => ?_, fun hmany => ?_⟩
    · exact (Int.ofNat.inj hc).symm
    · omega
  · intro hmany
    have hpos : 0 < cfg.perVault := by
      unfold DispatchConfig.perVault
      omega
    have hin := hturn (by omega)
    have hrobin : (v : Int) < 0 ∨ (d.roundRobin.length : Int) ≤ v → E .outOfBounds := by
      intro hbad
      rw [hin.length] at hbad
      exact hout (by omega)
    apply Ends.bind (Vec.at_ends_of hrobin)
    rintro turn ⟨-, hget⟩
    rw [Int.toNat_natCast] at hget
    have hv : v < 32 := by
      rw [← hin.length]
      exact (List.getElem?_eq_some_iff.mp hget).1
    have hturn_eq : turn = d.dealtTo v % cfg.perVault :=
      Option.some.inj (hget.symm.trans (hin.turn v hv))
    have hlt : turn < cfg.perVault := by
      rw [hturn_eq]
      exact Nat.mod_lt _ hpos
    -- the core exists, so nothing is dropped
    have hcore : 32 * turn + v < cfg.numberCores := by
      unfold DispatchConfig.perVault at hlt
      omega
    dsimp only
    rw [if_pos hcore]
    have hfiled : Filed cfg { d with
        roundRobin := d.roundRobin.set v ((turn + 1) % cfg.perVault) } := h.of_eq rfl rfl
    have hexists : ((32 * turn + v : Nat) : Int) < 0 ∨
        (cfg.numberCores : Int) ≤ (32 * turn + v : Nat) → E .outOfBounds := by
      intro hbad
      omega
    apply (hfiled.push regs addr hexists).weaken
    rintro d' ⟨hfiled', c, hc, hdeals, hmemory, hrobin, -⟩
    have hc' : c = 32 * turn + v := (Int.ofNat.inj hc).symm
    refine ⟨hfiled', fun _ => ?_, hmemory, c, hdeals, fun hfew => by omega, fun _ => by omega⟩
    refine hin.deal hv ?_ hdeals ?_
    · show c = _
      rw [hc', hturn_eq]
    · rw [hrobin, hturn_eq]

/-! ## Every request is dealt -/

/-- What the loops keep: the requests so far were dealt, in order. -/
structure Dealing (cfg : DispatchConfig) (done : List Trace.Regs) (d : Dispatcher τ) : Prop where
  filed : Filed cfg d
  requests : d.deals.map Deal.request = done
  turns : cfg.disablePerScheduling = false → 32 < cfg.numberCores → InTurn cfg d

theorem Dealing.start (memory : τ) : Dealing cfg [] (start cfg memory) :=
  ⟨Filed.start memory, rfl, fun _ _ => InTurn.start memory⟩

variable {done : List Trace.Regs}

theorem Dealing.perfect {mem : MemoryConfig} (hperfect : cfg.disablePerScheduling = false)
    (hmem : cfg.hmc = some mem) (h : Dealing cfg done d) (regs : Trace.Regs) :
    Yields (d.dispatchPerfect cfg base regs) (fun d' => Dealing cfg (done ++ [regs]) d' ∧
      ∃ x, d'.deals = d.deals ++ [x]) := by
  unfold dispatchPerfect
  rw [hmem]
  apply Ends.bind (Ends.ran (base.pageAllocator d.memory regs.reqAddr 0))
  rintro ⟨addr, memory⟩ -
  have hfiled : Filed cfg { d with memory } := h.filed.of_eq rfl rfl
  have hturns (hmany : 32 < cfg.numberCores) : InTurn cfg { d with memory } :=
    (h.turns hperfect hmany).of_eq rfl rfl
  apply (schedule_ends (E := fun _ => True) hfiled hturns regs addr (fun _ => trivial)).weaken
  rintro d' ⟨hfiled', hturns', -, c, hdeals, -⟩
  refine ⟨⟨hfiled', ?_, fun _ => hturns'⟩, ⟨regs, addr, c⟩, hdeals⟩
  rw [hdeals, map_append, h.requests]
  rfl

theorem Dealing.byProcessor (hproc : cfg.disablePerScheduling = true) (h : Dealing cfg done d)
    (regs : Trace.Regs) :
    Yields (d.dispatchByProcessor cfg base regs) (fun d' => Dealing cfg (done ++ [regs]) d' ∧
      ∃ x, d'.deals = d.deals ++ [x] ∧ x.request = regs ∧
        ∃ key, base.pageAllocator d.memory regs.reqAddr key = .ok (x.addr, d'.memory) ∧
          (cfg.numberCores ≤ 256 → key = regs.cpuId)) := by
  have hdealt {d₁ d' : Dispatcher τ} {addr : Int} {c : Nat} (hfiled : Filed cfg d')
      (hold : d₁.deals = d.deals) (hdeals : d'.deals = d₁.deals ++ [⟨regs, addr, c⟩]) :
      Dealing cfg (done ++ [regs]) d' := by
    refine ⟨hfiled, ?_, fun hperfect => ?_⟩
    · rw [hdeals, hold, map_append, h.requests]
      rfl
    · rw [hproc] at hperfect
      cases hperfect
  unfold dispatchByProcessor
  apply Ends.ite
  · intro hfew
    apply Ends.bind (Ends.ran (base.pageAllocator d.memory regs.reqAddr regs.cpuId))
    rintro ⟨addr, memory⟩ halloc
    have hfiled : Filed cfg { d with memory } := h.filed.of_eq rfl rfl
    apply (hfiled.push (E := fun _ => True) regs addr (fun _ => trivial)).imp
    · rintro d' ⟨hfiled', c, -, hdeals, hmemory, -⟩
      refine ⟨hdealt hfiled' rfl hdeals, ⟨regs, addr, c⟩, hdeals, rfl, regs.cpuId, ?_, fun _ => rfl⟩
      rw [halloc, hmemory]
    · exact fun _ _ => trivial
  · intro hmany
    apply Ends.bind (Ends.ran (Vec.at d.offsetCounter regs.cpuId))
    rintro offset -
    apply Ends.bind (Ends.ran (base.pageAllocator d.memory regs.reqAddr
      (toInt (regs.cpuId + offset * 256))))
    rintro ⟨addr, memory⟩ halloc
    have hfiled : Filed cfg { d with
        memory, offsetCounter := d.offsetCounter.set regs.cpuId (offset + 1) } :=
      h.filed.of_eq rfl rfl
    apply (hfiled.push (E := fun _ => True) regs addr (fun _ => trivial)).imp
    · rintro d' ⟨hfiled', c, -, hdeals, hmemory, -⟩
      refine ⟨hdealt hfiled' rfl hdeals, ⟨regs, addr, c⟩, hdeals, rfl,
        toInt (regs.cpuId + offset * 256), ?_, fun hfew => absurd hfew hmany⟩
      rw [halloc, hmemory]
    · exact fun _ _ => trivial

theorem Dealing.dispatch (hcfg : cfg.Deals) (h : Dealing cfg done d) (haddr : regs.reqAddr ≠ -1) :
    Yields (d.dispatch cfg base regs) (fun d' => Dealing cfg (done ++ [regs]) d' ∧
      ∃ x, d'.deals = d.deals ++ [x]) := by
  unfold Dispatcher.dispatch
  rw [if_neg haddr]
  apply Ends.ite
  · intro hproc
    apply (h.byProcessor hproc regs).weaken
    rintro d' ⟨h', x, hdeals, -⟩
    exact ⟨h', x, hdeals⟩
  · intro hproc
    have hperfect : cfg.disablePerScheduling = false := by simpa using hproc
    rcases hcfg with hproc' | hhmc
    · exact absurd hproc' hproc
    · obtain ⟨mem, hmem⟩ := Option.ne_none_iff_exists'.mp hhmc
      exact h.perfect hperfect hmem regs

/-! ## Lines that are not records -/

section

variable (regs : Trace.Regs)

theorem zsimLoop_cons (line : List Char) (file : List (List Char)) :
    d.zsimLoop cfg base regs (line :: file) = match Trace.getZsimRequest regs line with
      | none => pure d
      | some regs => d.dispatch cfg base regs >>= fun d => d.zsimLoop cfg base regs file :=
  rfl

/-- The loop never reads the address an earlier line left. -/
theorem zsimLoop_reqAddr (addr : Int) (file : List (List Char)) :
    d.zsimLoop cfg base { regs with reqAddr := addr } file = d.zsimLoop cfg base regs file := by
  cases file with
  | nil => rfl
  | cons line file => rw [zsimLoop_cons, zsimLoop_cons, Trace.getZsimRequest_reqAddr]

/-- The loop over a file in two parts: the second part counts if the first has no
    empty line. -/
theorem zsimLoop_append (before after : List (List Char)) :
    d.zsimLoop cfg base regs (before ++ after) = if [] ∈ before then d.zsimLoop cfg base regs before
      else d.zsimLoop cfg base regs before >>= fun d =>
        d.zsimLoop cfg base (Trace.regsAfter regs before) after := by
  induction before generalizing d regs with
  | nil => rfl
  | cons line before ih =>
    rw [cons_append, zsimLoop_cons, zsimLoop_cons]
    cases hline : Trace.getZsimRequest regs line with
    | none =>
      have hempty := (Trace.getZsimRequest_eq_none_iff regs line).mp hline
      rw [if_pos (by rw [hempty]; exact mem_cons_self)]
    | some regs' =>
      have hne : line ≠ [] := by
        intro hnil
        rw [(Trace.getZsimRequest_eq_none_iff regs line).mpr hnil] at hline
        cases hline
      have hmem : [] ∈ line :: before ↔ [] ∈ before := by
        rw [mem_cons, or_iff_right (Ne.symm hne)]
      have hregs : Trace.regsAfter regs (line :: before) = Trace.regsAfter regs' before := by
        rw [Trace.regsAfter, foldl_cons, hline]
        rfl
      dsimp only
      simp only [hmem, hregs, ih]
      split
      · rfl
      · rw [bind_assoc]

/-- A line that is not a record and not empty changes nothing. -/
theorem zsimLoop_malformed {line : List Char} (hline : Trace.parse line = .malformed)
    (file : List (List Char)) :
    d.zsimLoop cfg base regs (line :: file) = d.zsimLoop cfg base regs file := by
  have hrequest : Trace.getZsimRequest regs line = some { regs with reqAddr := -1 } := by
    rw [Trace.getZsimRequest, hline]
  rw [zsimLoop_cons, hrequest]
  show Dispatcher.dispatch cfg base d { regs with reqAddr := -1 } >>= _ = _
  rw [dispatch, if_pos rfl, pure_bind, zsimLoop_reqAddr]

end

theorem zsimLoop_of_not_deals (hcfg : ¬ cfg.Deals) (regs : Trace.Regs)
    (file : List (List Char)) : d.zsimLoop cfg base regs file = .ok d := by
  induction file generalizing regs with
  | nil => rfl
  | cons line file ih =>
    rw [zsimLoop_cons]
    split
    · rfl
    · next regs' _ =>
      have hnone : d.dispatch cfg base regs' = .ok d := by
        obtain ⟨hproc, hhmc⟩ := not_or.mp hcfg
        unfold dispatch dispatchPerfect
        rw [if_neg hproc, not_not.mp hhmc]
        split <;> rfl
      rw [hnone]
      exact ih regs'

theorem Dealing.zsimLoop (hcfg : cfg.Deals) (h : Dealing cfg done d) (regs : Trace.Regs)
    (file : List (List Char)) : Yields (d.zsimLoop cfg base regs file) (fun d' =>
      Dealing cfg (done ++ (Trace.requests regs file).filter (·.reqAddr ≠ -1)) d' ∧
        ∃ more, d'.deals = d.deals ++ more) := by
  refine zsimLoop_ends (I := fun done' d' => Dealing cfg done' d' ∧
    ∃ more, d'.deals = d.deals ++ more) ?_ file regs done ⟨h, [], (append_nil _).symm⟩
  rintro done' d₁ regs' ⟨h₁, more, hmore⟩ haddr
  apply (h₁.dispatch hcfg haddr).weaken
  rintro d₂ ⟨h₂, x, hx⟩
  refine ⟨h₂, more ++ [x], ?_⟩
  rw [hx, hmore, append_assoc]

theorem Filed.queues_eq_iff (h : Filed cfg d) (h' : Filed cfg d') {more : List Deal}
    (hmore : d'.deals = d.deals ++ more) : d.queues = d'.queues ↔ more = [] := by
  constructor
  · intro hqueues
    rw [eq_nil_iff_forall_not_mem]
    intro x hx
    have hc : x.core < cfg.numberCores :=
      h'.core_lt x (by rw [hmore]; exact mem_append_right _ hx)
    have heq := (h.queue x.core hc).symm.trans ((congrArg (·[x.core]?) hqueues).trans
      (h'.queue x.core hc))
    have hlength := congrArg List.length (Option.some.inj heq)
    rw [hmore, filter_append, map_append, length_append] at hlength
    have hmem : x ∈ more.filter (·.core = x.core) :=
      mem_filter.mpr ⟨hx, decide_eq_true rfl⟩
    have hpos := length_pos_of_mem hmem
    rw [← length_map Deal.entry] at hpos
    omega
  · intro hnil
    rw [hnil, append_nil] at hmore
    apply ext_getElem?
    intro c
    by_cases hc : c < cfg.numberCores
    · rw [h.queue c hc, h'.queue c hc, hmore]
    · rw [getElem?_eq_none (by rw [h.length]; omega),
        getElem?_eq_none (by rw [h'.length]; omega)]

theorem zsim_empty_line_iff (hcfg : cfg.Deals) {memory : τ} {before after : List (List Char)}
    (hbefore : [] ∉ before) (hrun : zsim cfg base memory regs (before ++ after) = .ok d) :
    (∃ d', zsim cfg base memory regs (before ++ [] :: after) = .ok d' ∧ d'.queues = d.queues) ↔
      Trace.Silent after := by
  unfold zsim at hrun ⊢
  rw [zsimLoop_append, if_neg hbefore] at hrun
  obtain ⟨d₁, hrun₁, hrun₂⟩ := bind_ok.mp hrun
  -- with the empty line the loop ends where `before` ends
  have hcut : (start cfg memory).zsimLoop cfg base regs (before ++ [] :: after) = .ok d₁ := by
    rw [zsimLoop_append, if_neg hbefore, hrun₁]
    rfl
  obtain ⟨h₁, -⟩ := ((Dealing.start memory).zsimLoop hcfg regs before).result hrun₁
  obtain ⟨h₂, more, hmore⟩ := (h₁.zsimLoop hcfg _ after).result hrun₂
  have hrequests : more.map Deal.request =
      (Trace.requests (Trace.regsAfter regs before) after).filter (·.reqAddr ≠ -1) := by
    have := h₂.requests
    rw [hmore, map_append, h₁.requests] at this
    exact append_cancel_left this
  rw [← Trace.requests_eq_nil_iff (Trace.regsAfter regs before), ← hrequests,
    map_eq_nil_iff, ← h₁.filed.queues_eq_iff h₂.filed hmore, hcut]
  constructor
  · rintro ⟨d', hd', hqueues⟩
    cases hd'
    exact hqueues
  · intro hqueues
    exact ⟨d₁, rfl, hqueues⟩

/-- A line that is not a record, anywhere in a zsim trace, leaves the queues as
    they are exactly if it is not empty, or the trace had ended before it, or
    there is nothing to deal after it. -/
theorem insert_harmless_iff (cfg : DispatchConfig) (base : MemoryBase τ) (memory : τ)
    (regs : Trace.Regs) (before after : List (List Char)) {line : List Char}
    (hline : ∀ r, Trace.parse line ≠ .record r) :
    Ends (zsim cfg base memory regs (before ++ after)) (fun d =>
      (∃ d', zsim cfg base memory regs (before ++ line :: after) = .ok d' ∧ d'.queues = d.queues) ↔
      line ≠ [] ∨ [] ∈ before ∨ ¬ cfg.Deals ∨ Trace.Silent after) (fun _ => True) := by
  apply Ends.intro
  · intro d hrun
    by_cases hempty : line = []
    · subst hempty
      by_cases hbefore : [] ∈ before
      · -- neither the line nor what follows is read
        have hsame : zsim cfg base memory regs (before ++ [] :: after) = .ok d := by
          rw [← hrun, zsim, zsim, zsimLoop_append, zsimLoop_append, if_pos hbefore, if_pos hbefore]
        exact ⟨fun _ => Or.inr (Or.inl hbefore), fun _ => ⟨d, hsame, rfl⟩⟩
      · by_cases hcfg : cfg.Deals
        · rw [zsim_empty_line_iff hcfg hbefore hrun]
          simp [hbefore, hcfg]
        · rw [zsim, zsimLoop_of_not_deals hcfg] at hrun ⊢
          exact ⟨fun _ => Or.inr (Or.inr (Or.inl hcfg)), fun _ => ⟨d, hrun, rfl⟩⟩
    · have hmalformed : Trace.parse line = .malformed := by
        cases hparse : Trace.parse line with
        | empty => exact absurd ((Trace.parse_eq_empty_iff line).mp hparse) hempty
        | malformed => rfl
        | record r => exact absurd hparse (hline r)
      have hsame : zsim cfg base memory regs (before ++ line :: after) = .ok d := by
        rw [← hrun, zsim, zsim, zsimLoop_append, zsimLoop_append]
        simp only [zsimLoop_malformed _ hmalformed]
      exact ⟨fun _ => Or.inl hempty, fun _ => ⟨d, hsame, rfl⟩⟩
  · exact fun _ _ => trivial

def twoCores : DispatchConfig := { numberCores := 2, disablePerScheduling := true, hmc := none }

/-- The variables of the loop before the first line. -/
def firstRegs : Trace.Regs := ⟨0, -1, .read, 0⟩

/-- A line with too few fields between two records. -/
theorem insert_harmless_iff_short_line : ∃ d d', zsim twoCores .scripted [] firstRegs
          (["0 0 3 L 64".toList] ++ ["0 0 4 S 128".toList]) = .ok d ∧
      zsim twoCores .scripted [] firstRegs
          (["0 0 3 L 64".toList] ++ "0 0 3 L".toList :: ["0 0 4 S 128".toList]) = .ok d' ∧
      d.queues = [[⟨3, 64, .read⟩, ⟨4, 128, .write⟩], []] ∧ d'.queues = d.queues := by
  have hmap : (zsim twoCores .scripted [] firstRegs
      (["0 0 3 L 64".toList] ++ ["0 0 4 S 128".toList])).toOption.map (·.queues) =
        some [[⟨3, 64, .read⟩, ⟨4, 128, .write⟩], []] := by decide +kernel
  obtain ⟨d, hrun, hqueues⟩ := exists_ok_of_map hmap
  have hline : Trace.parse "0 0 3 L".toList = .malformed := by decide
  obtain ⟨d', hrun', hsame⟩ := ((insert_harmless_iff twoCores .scripted [] firstRegs
    ["0 0 3 L 64".toList] ["0 0 4 S 128".toList]
    (fun r => by rw [hline]; exact fun h => by cases h)).result hrun).mpr (Or.inl (by decide))
  exact ⟨d, d', hrun, hrun', hqueues, hsame⟩

/-- An empty line cuts off the record after it. -/
theorem empty_line_ends_trace : ∃ d d', zsim twoCores .scripted [] firstRegs
          (["0 0 3 L 64".toList] ++ ["0 0 4 S 128".toList]) = .ok d ∧
      zsim twoCores .scripted [] firstRegs
          (["0 0 3 L 64".toList] ++ [] :: ["0 0 4 S 128".toList]) = .ok d' ∧
      d.queues = [[⟨3, 64, .read⟩, ⟨4, 128, .write⟩], []] ∧ d'.queues = [[⟨3, 64, .read⟩], []] := by
  have hmap : (zsim twoCores .scripted [] firstRegs
      (["0 0 3 L 64".toList] ++ ["0 0 4 S 128".toList])).toOption.map (·.queues) =
        some [[⟨3, 64, .read⟩, ⟨4, 128, .write⟩], []] := by decide +kernel
  have hmap' : (zsim twoCores .scripted [] firstRegs
      (["0 0 3 L 64".toList] ++ [] :: ["0 0 4 S 128".toList])).toOption.map (·.queues) =
        some [[⟨3, 64, .read⟩], []] := by decide +kernel
  obtain ⟨d, hrun, hqueues⟩ := exists_ok_of_map hmap
  obtain ⟨d', hrun', hqueues'⟩ := exists_ok_of_map hmap'
  exact ⟨d, d', hrun, hrun', hqueues, hqueues'⟩

end Dispatcher

end Ramulator
