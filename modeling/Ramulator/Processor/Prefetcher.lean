/-
  Ramulator.Processor.Prefetcher

  The two prefetchers of zsim (prefetcher.h, prefetcher.cpp).

  A prefetcher sits between a cache and the banks of the next level, its parents.
  It passes every request on, and after a GETS it may send prefetches of its own:
  `StreamPrefetcher` follows the stride of a page, `AMPMPrefetcher` looks for a
  stride that the accesses of a page repeat twice.  The bank of a line is a hash of
  its number (`getParentId`).

  An access is a function of the prefetcher, the request and the cycles at which the
  parents answer, in the order in which they are asked.  Counters for the statistics
  and `startCycle`, which nothing reads, are left out.
-/

import Ramulator.Processor.TraceRecords

namespace Ramulator

open List Function

namespace Zsim

structure ChildReq extends MemReq where
  childId : Nat := 0
deriving DecidableEq, Repr

structure Sent where
  parentId : Nat
  req : ChildReq
deriving DecidableEq, Repr

variable {n : Nat} {req : ChildReq} {responses : Nat → Nat}

/-- `int32_t` from an unsigned number. -/
def toInt32 (n : Nat) : Int :=
  let m : Int := n % 2 ^ 32
  if m < 2 ^ 31 then m else m - 2 ^ 32

def sub32 (a b : Nat) : Nat := (((a : Int) - b) % 2 ^ 32).toNat

def add32 (a : Nat) (stride : Int) : Nat := (((a : Int) + stride) % 2 ^ 32).toNat

def add64 (a : Nat) (d : Int) : Nat := (((a : Int) + d) % 2 ^ 64).toNat

def getParentId (n lineAddr : Nat) : Nat :=
  let hashed := (List.range 4).foldl
    (fun (resTmp : Nat × Nat) _ => (resTmp.1 ^^^ (0xffff &&& resTmp.2), resTmp.2 >>> 16))
    (0, lineAddr)
  hashed.1 % n

def pfReq (req : ChildReq) (lineAddr : Nat) : ChildReq where
  lineAddr
  type := .gets
  cycle := req.cycle
  coreId := req.coreId
  prefetch := true
  prefetchTrace := true
  childId := req.childId

/-! ## Streams -/

structure SatCounter where
  count : Nat := 1
deriving DecidableEq, Repr

namespace SatCounter

def dec (c : SatCounter) : SatCounter := { count := c.count - 1 }

def inc (c : SatCounter) : SatCounter := { count := min (c.count + 1) 3 }

def pred (c : SatCounter) : Bool := decide (2 ≤ c.count)

end SatCounter

/-- `StreamPrefetcher::Entry`; `times` are the cycles of the responses. -/
structure StreamEntry where
  stride : Int := 0
  conf : SatCounter := {}
  times : Nat → Nat := fun _ => 0
  valid : Nat → Bool := fun _ => false
  lastPos : Nat := 0
  lastLastPos : Nat := 0
  lastPrefetchPos : Nat := 0
  lastCycle : Nat := 0
  ts : Nat := 0

namespace StreamEntry

def alloc (e : StreamEntry) (curCycle : Nat) : StreamEntry :=
  { e with
    stride := 1
    lastPos := 0
    lastLastPos := 0
    lastPrefetchPos := 0
    conf := {}
    valid := fun _ => false
    lastCycle := curCycle }

def fill (e : StreamEntry) (pos respCycle : Nat) : StreamEntry :=
  { e with
    valid := update e.valid pos true
    times := update e.times pos respCycle }

/-- The line was prefetched: whether it is still on its way, the response and the entry. -/
def prefetchHit (e : StreamEntry) (pos respCycle : Nat) : Bool × Nat × StreamEntry :=
  if e.valid pos then
    let pfRespCycle := e.times pos
    let resp := max pfRespCycle respCycle
    (decide (respCycle < pfRespCycle), resp,
      { e with valid := update e.valid pos false, lastCycle := max resp e.lastCycle })
  else (false, respCycle, e)

def nextPrefetch (e : StreamEntry) (pos : Nat) (stride : Int) : Int × Nat :=
  -- a division of uint32_t; by a stride of 0 it is undefined in the source, and gives 0 here
  let fetchDepth := toInt32 (sub32 e.lastPrefetchPos e.lastPos / add32 0 stride)
  if fetchDepth < 1 then (1, add32 pos stride) else (fetchDepth, add32 e.lastPrefetchPos stride)

/-- The prefetches of a confident stride: the lines, and the entry. -/
def prefetches (e : StreamEntry) (lineAddr pos : Nat) (stride : Int) (shortPrefetch : Bool)
    (responses : Nat → Nat) : List Nat × StreamEntry :=
  let next := e.nextPrefetch pos stride
  let prefetchPos := next.2
  if prefetchPos < 64 ∧ e.valid prefetchPos = false then
    let pfLine := add64 lineAddr ((prefetchPos : Int) - pos)
    let e := e.fill prefetchPos (responses 1)
    let pos₂ := add32 prefetchPos stride
    if shortPrefetch = true ∧ next.1 < 8 ∧ pos₂ < 64 ∧ e.valid pos₂ = false then
      ([pfLine, add64 pfLine stride], { e.fill pos₂ (responses 2) with lastPrefetchPos := pos₂ })
    else ([pfLine], { e with lastPrefetchPos := prefetchPos })
  else ([], e)

def strideMiss (e : StreamEntry) (pos : Nat) (stride : Int) : StreamEntry :=
  let e := { e with conf := e.conf.dec }
  let lastStride := toInt32 (sub32 e.lastPos e.lastLastPos)
  let e :=
    if e.conf.pred = false ∧ stride ≠ 0 ∧ stride ≠ e.stride ∧ stride = lastStride then
      { e with conf := {}, stride }
    else e
  { e with lastPrefetchPos := pos }

def predict (e : StreamEntry) (lineAddr pos : Nat) (shortPrefetch : Bool)
    (responses : Nat → Nat) : List Nat × StreamEntry :=
  let stride := toInt32 (sub32 pos e.lastPos)
  let out :=
    if e.stride = stride then
      let e := { e with conf := e.conf.inc }
      if e.conf.pred then e.prefetches lineAddr pos stride shortPrefetch responses else ([], e)
    else ([], e.strideMiss pos stride)
  (out.1, { out.2 with lastLastPos := out.2.lastPos, lastPos := pos })

end StreamEntry

structure StreamPrefetcher where
  timestamp : Nat := 0
  tag : Nat → Nat := fun _ => 0
  array : Nat → StreamEntry := fun _ => {}
  childId : Nat := 0

/-- What an access leaves: the prefetcher, what was sent to the parents, the cycle of
    the response and the request's `childId`. -/
structure Accessed (σ : Type) where
  prefetcher : σ
  sent : List Sent
  respCycle : Nat
  childId : Nat

namespace StreamPrefetcher

/-- The entry of a page; the last one that matches, or 16. -/
def entryOf (p : StreamPrefetcher) (pageAddr : Nat) : Nat :=
  (List.range 16).foldl (fun idx i => if pageAddr = p.tag i then i else idx) 16

/-- The entry to replace, with its score: the least recently used one that is not
    warm, or 16. -/
def candidate (p : StreamPrefetcher) (reqCycle : Nat) : Nat × Nat :=
  (List.range 16).foldl (fun cand i =>
      if (reqCycle + 500) % 2 ^ 64 < (p.array i).lastCycle then cand
      else if (p.array i).ts < cand.2 then (i, (p.array i).ts) else cand)
    (16, 2 ^ 64 - 1)

def miss (p : StreamPrefetcher) (reqCycle pageAddr pos : Nat) : StreamPrefetcher :=
  let cand := (p.candidate reqCycle).1
  if cand < 16 then
    { p with
      array := update p.array cand
        { (p.array cand).alloc reqCycle with lastPos := pos, ts := p.timestamp }
      tag := update p.tag cand pageAddr
      timestamp := (p.timestamp + 1) % 2 ^ 64 }
  else p

/-- `StreamPrefetcher::access`; a request that is no GETS is returned with the
    prefetcher's `childId`. -/
def access (p : StreamPrefetcher) (n : Nat) (req : ChildReq) (responses : Nat → Nat) :
    Accessed StreamPrefetcher :=
  let origChildId := req.childId
  let req := { req with childId := p.childId }
  let parentId := getParentId n req.lineAddr
  let demand : Sent := ⟨parentId, req⟩
  if req.type ≠ .gets then ⟨p, [demand], responses 0, req.childId⟩
  else
    let pageAddr := req.lineAddr >>> 6
    let pos := req.lineAddr &&& 63
    let idx := p.entryOf pageAddr
    if idx = 16 then ⟨p.miss req.cycle pageAddr pos, [demand], responses 0, origChildId⟩
    else
      let hit := { p.array idx with ts := p.timestamp }.prefetchHit pos (responses 0)
      let out := hit.2.2.predict req.lineAddr pos hit.1 responses
      ⟨{ p with
          array := update p.array idx out.2
          timestamp := (p.timestamp + 1) % 2 ^ 64 },
        demand :: out.1.map (fun line => ⟨parentId, pfReq req line⟩), hit.2.1, origChildId⟩

end StreamPrefetcher

/-! ## Access maps -/

structure AmpmPage where
  page : Nat := 0
  accessMap : Int → Bool := fun _ => false
  pfMap : Int → Bool := fun _ => false
  lru : Nat := 0

namespace AmpmPage

/-- The loop that looks for a stride against `dir` and prefetches along it. -/
def search (dir pageOffset : Int) : List Nat → Nat → AmpmPage → AmpmPage × List Int
  | [], _, e => (e, [])
  | i :: is, countPrefetches, e =>
    let checkIndex1 := pageOffset - dir * i
    let checkIndex2 := pageOffset - dir * (2 * i)
    let pfIndex := pageOffset + dir * i
    if checkIndex2 < 0 ∨ 63 < checkIndex2 then (e, [])
    else if pfIndex < 0 ∨ 63 < pfIndex then (e, [])
    else if 1 ≤ countPrefetches then (e, [])
    else if e.accessMap pfIndex = true then search dir pageOffset is countPrefetches e
    else if e.pfMap pfIndex = true then search dir pageOffset is countPrefetches e
    else if e.accessMap checkIndex1 = true ∧ e.accessMap checkIndex2 = true then
      let out := search dir pageOffset is (countPrefetches + 1)
        { e with pfMap := update e.pfMap pfIndex true }
      (out.1, pfIndex :: out.2)
    else search dir pageOffset is countPrefetches e

def positive (e : AmpmPage) (pageOffset : Int) : AmpmPage × List Int :=
  search 1 pageOffset (List.range' 1 16) 0 e

def negative (e : AmpmPage) (pageOffset : Int) : AmpmPage × List Int :=
  search (-1) pageOffset (List.range' 1 16) 0 e

/-- Both searches, one after the other. -/
def prefetch (e : AmpmPage) (pageOffset : Int) : AmpmPage × List Int :=
  let up := e.positive pageOffset
  let down := up.1.negative pageOffset
  (down.1, up.2 ++ down.2)

/-- The entry that a new page takes over. -/
def reset (e : AmpmPage) (page : Nat) : AmpmPage :=
  { e with page, accessMap := fun _ => false, pfMap := fun _ => false }

def mark (e : AmpmPage) (reqCycle : Nat) (pageOffset : Int) : AmpmPage :=
  { e with lru := reqCycle, accessMap := update e.accessMap pageOffset true }

end AmpmPage

structure AMPMPrefetcher where
  ampmPages : Nat → AmpmPage := fun _ => {}
  childId : Nat := 0

namespace AMPMPrefetcher

def pageCount : Nat := 64

def pageHit (p : AMPMPrefetcher) (page : Nat) : Option Nat :=
  (List.range pageCount).find? fun i => (p.ampmPages i).page == page

def oldest (p : AMPMPrefetcher) : Nat × Nat :=
  (List.range pageCount).foldl
    (fun best i => if (p.ampmPages i).lru < best.2 then (i, (p.ampmPages i).lru) else best)
    (0, (p.ampmPages 0).lru)

/-- The entry that an access to a page uses, and whether it is reset for it. -/
def pageIndex (p : AMPMPrefetcher) (page : Nat) : Nat × Bool :=
  match p.pageHit page with
  | some i => (i, false)
  | none => (p.oldest.1, true)

/-- What a GETS does to its entry, with the positions it prefetches. -/
def operate (e : AmpmPage) (isReset : Bool) (page reqCycle : Nat) (pageOffset : Int) :
    AmpmPage × List Int :=
  let e := if isReset then e.reset page else e
  (e.mark reqCycle pageOffset).prefetch pageOffset

/-- `AMPMPrefetcher::access`; the request is returned with the prefetcher's
    `childId`. -/
def access (p : AMPMPrefetcher) (n : Nat) (req : ChildReq) (responses : Nat → Nat) :
    Accessed AMPMPrefetcher :=
  let req := { req with childId := p.childId }
  let parentId := getParentId n req.lineAddr
  let demand : Sent := ⟨parentId, req⟩
  if req.type ≠ .gets then ⟨p, [demand], responses 0, req.childId⟩
  else
    let page := req.lineAddr >>> 6
    let pageOffset := req.lineAddr &&& 63
    let index := p.pageIndex page
    let out := operate (p.ampmPages index.1) index.2 page req.cycle pageOffset
    ⟨{ p with ampmPages := update p.ampmPages index.1 out.1 },
      demand :: out.2.map (fun pfIndex => ⟨parentId, pfReq req (page <<< 6 + pfIndex.toNat)⟩),
      responses 0, req.childId⟩

end AMPMPrefetcher

/-! ## Routing -/

/-- The request goes to the bank that can hold its line. -/
def Sent.Routed (n : Nat) (s : Sent) : Prop := s.parentId = getParentId n s.req.lineAddr

instance (n : Nat) (s : Sent) : Decidable (s.Routed n) := Nat.decEq _ _

/-- The number of a small line is its hash, and neighbouring lines are in different
    banks if there is more than one. -/
theorem getParentId_succ_ne {line : Nat} (hn : 2 ≤ n) (hline : getParentId n line = line % n)
    (hnext : getParentId n (line + 1) = (line + 1) % n) :
    getParentId n line ≠ getParentId n (line + 1) := by
  intro h
  rw [hline, hnext] at h
  have hmod : (line + 1 - line) % n = 0 := Nat.sub_mod_eq_zero_of_mod_eq h.symm
  rw [Nat.add_sub_cancel_left, Nat.mod_eq_of_lt (by omega)] at hmod
  omega

/-- The demand request and prefetches of these lines, all to one bank. -/
def Sent.batch (n childId : Nat) (req : ChildReq) (lines : List Nat) : List Sent :=
  let parentId := getParentId n req.lineAddr
  let req := { req with childId }
  ⟨parentId, req⟩ :: lines.map fun line => ⟨parentId, pfReq req line⟩

theorem Sent.of_mem_batch {s : Sent} {childId : Nat} {lines : List Nat}
    (hs : s ∈ Sent.batch n childId req lines) :
    s.parentId = getParentId n req.lineAddr ∧ s.req.childId = childId := by
  rcases mem_cons.mp hs with rfl | hs
  · exact ⟨rfl, rfl⟩
  · -- a prefetch takes the `childId` that the request has by now
    obtain ⟨line, -, rfl⟩ := mem_map.mp hs
    exact ⟨rfl, rfl⟩

section

variable {σ : Type} {childId : σ → Nat} {access : σ → Nat → ChildReq → (Nat → Nat) → Accessed σ}

/-- What a prefetcher prefetches does not depend on the number of parents. -/
def Batches (childId : σ → Nat) (access : σ → Nat → ChildReq → (Nat → Nat) → Accessed σ) : Prop :=
  ∀ p n req responses, (access p n req responses).sent =
    Sent.batch n (childId p) req ((access p 1 req responses).sent.tail.map (·.req.lineAddr))

variable (h : Batches childId access) (p : σ)
include h

theorem Batches.head? (n : Nat) (req : ChildReq) (responses : Nat → Nat) :
    (access p n req responses).sent.head? =
      some ⟨getParentId n req.lineAddr, { req with childId := childId p }⟩ := by
  rw [h]
  rfl

theorem Batches.childId_sent : ∀ s ∈ (access p n req responses).sent, s.req.childId = childId p :=
  fun _ hs => (Sent.of_mem_batch (h .. ▸ hs)).2

/-- A prefetch of the next line goes to another bank if there is one. -/
theorem Batches.routes_iff (req : ChildReq) (responses : Nat → Nat)
    (hnext : req.lineAddr + 1 ∈ (access p 1 req responses).sent.tail.map (·.req.lineAddr))
    (hhash : ∀ n, getParentId n req.lineAddr = req.lineAddr % n ∧
      getParentId n (req.lineAddr + 1) = (req.lineAddr + 1) % n) (hn : 1 ≤ n) :
    (∀ p req responses, ∀ s ∈ (access p n req responses).sent, s.Routed n) ↔ n = 1 := by
  constructor
  · intro hroutes
    by_contra hne
    have hparent := hroutes p req responses
      ⟨getParentId n req.lineAddr, pfReq { req with childId := childId p } (req.lineAddr + 1)⟩
      (by rw [h]; exact mem_cons_of_mem _ (mem_map_of_mem hnext))
    exact getParentId_succ_ne (by omega) (hhash n).1 (hhash n).2 hparent
  · rintro rfl p req responses s hs
    rw [Sent.Routed, (Sent.of_mem_batch (h .. ▸ hs)).1]
    exact (Nat.mod_one _).trans (Nat.mod_one _).symm

end

namespace StreamPrefetcher

/-- Every request of an access goes to the bank of its line. -/
def Routes (n : Nat) : Prop :=
  ∀ (p : StreamPrefetcher) (req : ChildReq) (responses : Nat → Nat),
    ∀ s ∈ (p.access n req responses).sent, s.Routed n

theorem batches : Batches childId access := by
  intro p n req responses
  simp only [access]
  split
  · rfl
  · split
    · rfl
    · simp [Sent.batch, pfReq, Function.comp_def]

/-- The prefetcher after line 64 was read; reading line 65 next prefetches line 66. -/
def afterLine64 : StreamPrefetcher :=
  (access {} 1 { lineAddr := 64, type := .gets } fun _ => 0).prefetcher

theorem routes_iff (hn : 1 ≤ n) : Routes n ↔ n = 1 :=
  batches.routes_iff afterLine64 { lineAddr := 65, type := .gets } (fun _ => 0) (by decide)
    (fun _ => ⟨rfl, rfl⟩) hn

end StreamPrefetcher

namespace AMPMPrefetcher

/-- Every request of an access goes to the bank of its line. -/
def Routes (n : Nat) : Prop :=
  ∀ (p : AMPMPrefetcher) (req : ChildReq) (responses : Nat → Nat),
    ∀ s ∈ (p.access n req responses).sent, s.Routed n

theorem batches : Batches childId access := by
  intro p n req responses
  simp only [access]
  split
  · rfl
  · simp [Sent.batch, pfReq, Function.comp_def]

/-- The prefetcher after lines 64 and 65 were read; reading line 66 next prefetches
    line 67. -/
def afterLine65 : AMPMPrefetcher :=
  let p := (access {} 1 { lineAddr := 64, type := .gets } fun _ => 0).prefetcher
  (p.access 1 { lineAddr := 65, type := .gets } fun _ => 0).prefetcher

theorem routes_iff (hn : 1 ≤ n) : Routes n ↔ n = 1 :=
  batches.routes_iff afterLine65 { lineAddr := 66, type := .gets } (fun _ => 0)
    (by decide +kernel) (fun _ => ⟨rfl, rfl⟩) hn

end AMPMPrefetcher

/-- Both prefetchers send every request to the bank of its line exactly if they have
    one parent: a prefetch goes to the bank of the line that triggers it.  The demand
    request itself, which goes first, always goes to its own bank. -/
theorem prefetchers_route_iff (n : Nat) (hn : 1 ≤ n) :
    (StreamPrefetcher.Routes n ↔ n = 1) ∧ (AMPMPrefetcher.Routes n ↔ n = 1) ∧
      (∀ (p : StreamPrefetcher) (req : ChildReq) (responses : Nat → Nat),
        (p.access n req responses).sent.head? =
          some ⟨getParentId n req.lineAddr, { req with childId := p.childId }⟩) ∧
      ∀ (p : AMPMPrefetcher) (req : ChildReq) (responses : Nat → Nat),
        (p.access n req responses).sent.head? =
          some ⟨getParentId n req.lineAddr, { req with childId := p.childId }⟩ :=
  ⟨StreamPrefetcher.routes_iff hn, AMPMPrefetcher.routes_iff hn,
    fun p => StreamPrefetcher.batches.head? p n, fun p => AMPMPrefetcher.batches.head? p n⟩

theorem prefetchers_route_iff_one : StreamPrefetcher.Routes 1 ∧ AMPMPrefetcher.Routes 1 :=
  ⟨(prefetchers_route_iff 1 (by decide)).1.mpr rfl,
    (prefetchers_route_iff 1 (by decide)).2.1.mpr rfl⟩

/-- With two banks: after lines 64 and 65 the stream prefetcher asks bank 1 for line
    66, which is in bank 0; after lines 64, 65 and 66 the other one asks bank 0 for
    line 67, which is in bank 1. -/
theorem prefetch_in_wrong_bank :
    (StreamPrefetcher.afterLine64.access 2 { lineAddr := 65, type := .gets }
        fun _ => 0).sent.map (fun s => (s.parentId, s.req.lineAddr)) = [(1, 65), (1, 66)] ∧
      (AMPMPrefetcher.afterLine65.access 2 { lineAddr := 66, type := .gets }
        fun _ => 0).sent.map (fun s => (s.parentId, s.req.lineAddr)) = [(0, 66), (0, 67)] ∧
      getParentId 2 66 = 0 ∧ getParentId 2 67 = 1 := by
  decide +kernel

/-! ## The caller's request -/

/-- The request keeps its `childId`, and what was sent carries that of the prefetcher. -/
def Accessed.Restores {σ : Type} (a : Accessed σ) (req : ChildReq) (childId : Nat) : Prop :=
  a.childId = req.childId ∧ ∀ s ∈ a.sent, s.req.childId = childId

/-- The return for requests that are no GETS skips the restoring. -/
theorem StreamPrefetcher.childId_access (p : StreamPrefetcher) (n : Nat) (req : ChildReq)
    (responses : Nat → Nat) : (p.access n req responses).childId =
      if req.type = .gets then req.childId else p.childId := by
  simp only [access]
  by_cases htype : req.type = .gets
  · rw [if_neg (not_not.mpr htype), if_pos htype]
    split <;> rfl
  · rw [if_pos htype, if_neg htype]

theorem AMPMPrefetcher.childId_access (p : AMPMPrefetcher) (n : Nat) (req : ChildReq)
    (responses : Nat → Nat) : (p.access n req responses).childId = p.childId := by
  simp only [access]
  split <;> rfl

/-- With parents that leave `childId` as they get it, the stream prefetcher restores
    the request of a GETS, and neither restores any other one, unless there is
    nothing to restore. -/
theorem prefetchers_restore_iff (stream : StreamPrefetcher) (ampm : AMPMPrefetcher) (n : Nat)
    (req : ChildReq) (responses : Nat → Nat) :
    ((stream.access n req responses).Restores req stream.childId ↔
      req.type = .gets ∨ req.childId = stream.childId) ∧
    ((ampm.access n req responses).Restores req ampm.childId ↔ req.childId = ampm.childId) := by
  constructor
  · rw [Accessed.Restores, stream.childId_access,
      and_iff_left (StreamPrefetcher.batches.childId_sent stream)]
    by_cases htype : req.type = .gets
    · simp [htype]
    · simp [htype, eq_comm]
  · rw [Accessed.Restores, ampm.childId_access,
      and_iff_left (AMPMPrefetcher.batches.childId_sent ampm), eq_comm]

/-- A write back of child 0 comes back with the stream prefetcher's own number 1, and
    a read with that of the other prefetcher. -/
theorem childId_not_restored :
    (StreamPrefetcher.access { childId := 1 } 1 { lineAddr := 64, type := .putx }
        fun _ => 0).childId = 1 ∧
      (AMPMPrefetcher.access { childId := 1 } 1 { lineAddr := 64, type := .gets }
        fun _ => 0).childId = 1 ∧
      ¬ (AMPMPrefetcher.access { childId := 1 } 1 { lineAddr := 64, type := .gets }
        fun _ => 0).Restores { lineAddr := 64, type := .gets } 1 :=
  ⟨rfl, rfl, fun h => absurd h.1 (by decide)⟩

end Zsim

end Ramulator
