/-
  Ramulator.Cache.Steps

  What `send` and `callback` of a last-level cache can do.

  A request hits an unlocked line, joins a miss of its block that is under way,
  is refused, or starts a miss of its own, which may evict an unlocked line
  (`Cache.Sent`).  A callback ends the miss of its block, if there is one
  (`Cache.Called`).

  The cache looks lines up by set and tag and misses by the aligned address.
  For a geometry of powers of two the two ways agree (`align_eq_iff`).
-/

import Mathlib.Algebra.Order.Ring.Int
import Ramulator.Lib.Bits
import Ramulator.Cache.Basic

namespace Ramulator

open Outcome List Function

namespace CacheConfig

/-- The geometry of an L1: powers of two, at least one set, in the range of an
    int. -/
structure Proper (cfg : CacheConfig) : Prop where
  level : cfg.level = .l1
  powers : ∃ a b s : Nat, cfg.assoc = 2 ^ a ∧ cfg.blockSize = 2 ^ b ∧ cfg.size = 2 ^ s ∧
    a + b ≤ s ∧ s ≤ 30

variable {cfg : CacheConfig}

theorem Proper.isLastLevel (h : cfg.Proper) : cfg.isLastLevel = true := by
  unfold CacheConfig.isLastLevel
  rw [h.level]
  rfl

theorem blockNum_eq {a b s : Nat} (hassoc : cfg.assoc = 2 ^ a) (hblock : cfg.blockSize = 2 ^ b)
    (hsize : cfg.size = 2 ^ s) (hle : a + b ≤ s) : cfg.blockNum = 2 ^ (s - (a + b)) := by
  unfold blockNum
  rw [hassoc, hblock, hsize, ← pow_add, Nat.add_comm b a]
  exact Nat.pow_div hle (by omega)

/-- The set of an address is given by the low bits of its block number. -/
theorem getIndex_eq {n b : Nat} (hnum : cfg.blockNum = 2 ^ n) (hblock : cfg.blockSize = 2 ^ b)
    (hn : n ≤ 30) (addr : Int) : cfg.getIndex addr = addr / 2 ^ b % 2 ^ n := by
  have hpos : (0 : Int) < 2 ^ n := pow_pos (by omega) n
  have hle : (2 : Int) ^ n ≤ 2 ^ 30 := pow_le_pow_right₀ (by omega) hn
  have hcast : ((2 ^ n : Nat) : Int) = 2 ^ n := by
    rw [Nat.cast_pow]
    rfl
  have hmask : cfg.indexMask = 2 ^ n - 1 := by
    unfold indexMask
    rw [hnum, hcast]
    exact Int.emod_eq_of_lt (by omega) (by omega)
  have hshift : addr >>> cfg.indexOffset = addr / 2 ^ b := by
    unfold indexOffset
    rw [hblock, Nat.log2_two_pow, Int.shiftRight_eq_div_pow, Nat.cast_pow]
    rfl
  have hnonneg := Int.emod_nonneg (addr / 2 ^ b) hpos.ne'
  have hlt := Int.emod_lt_of_pos (addr / 2 ^ b) hpos
  unfold getIndex
  rw [hshift, hmask, Bits.land_two_pow_sub_one]
  apply Int.bmod_eq_of_le_mul_two
  · omega
  · omega

theorem getTag_eq {n b : Nat} (hnum : cfg.blockNum = 2 ^ n) (hblock : cfg.blockSize = 2 ^ b)
    (addr : Int) : cfg.getTag addr = addr / 2 ^ b / 2 ^ n := by
  have hpos : (0 : Int) ≤ 2 ^ b := (pow_pos (by omega) b).le
  unfold getTag tagOffset indexOffset
  rw [hnum, hblock, Nat.log2_two_pow, Nat.log2_two_pow, Int.shiftRight_eq_div_pow, Nat.cast_pow,
    Int.ediv_ediv_of_nonneg hpos, ← pow_add, Nat.add_comm]
  rfl

theorem Proper.align_eq_iff (h : cfg.Proper) (x y : Int) :
    cfg.align x = cfg.align y ↔ cfg.getIndex x = cfg.getIndex y ∧ cfg.getTag x = cfg.getTag y := by
  obtain ⟨a, b, s, hassoc, hblock, hsize, hle, hs⟩ := h.powers
  have hnum := blockNum_eq hassoc hblock hsize hle
  have halign : cfg.align x = cfg.align y ↔ x / 2 ^ b = y / 2 ^ b := by
    unfold align
    rw [hblock, Nat.cast_pow]
    exact Bits.land_lnot_eq_iff x y b
  rw [halign, getIndex_eq hnum hblock (by omega), getIndex_eq hnum hblock (by omega),
    getTag_eq hnum hblock, getTag_eq hnum hblock]
  constructor
  · intro heq
    rw [heq]
    exact ⟨rfl, rfl⟩
  · rintro ⟨hmod, hdiv⟩
    rw [← Int.emod_add_mul_ediv (x / 2 ^ b) (2 ^ (s - (a + b))), hmod, hdiv, Int.emod_add_mul_ediv]

end CacheConfig

namespace Cache

variable {cfg : CacheConfig} {c c' : Cache} {sys sys' : CacheSystem} {req : Request} {addr : Int}

/-- Lines after an assignment through an iterator. -/
def modified (node : Nat) (f : Line → Line) (lines : List Line) : List Line :=
  lines.map fun line => if line.node = node then f line else line

def hitLine (cfg : CacheConfig) (c : Cache) (req : Request) (line : Line) : Line where
  node := c.nodes
  addr := req.addr
  tag := cfg.getTag req.addr
  lock := false
  dirty := line.dirty || decide (req.type = .write)

def missLine (cfg : CacheConfig) (c : Cache) (req : Request) : Line where
  node := c.nodes
  addr := req.addr
  tag := cfg.getTag req.addr
  lock := true
  dirty := decide (req.type = .write)

def without (lines : List Line) : Option Line → List Line
  | none => lines
  | some victim => eraseLine lines victim

/-- What an eviction puts into `wait_list`. -/
def writtenBack (cfg : CacheConfig) (sys : CacheSystem) : Option Line → List (Int × Request)
  | none => []
  | some victim =>
    if victim.dirty then
      [(sys.clk + cfg.latency, { addr := victim.addr, type := .write, coreid := 0 })]
    else []

/-- A set has room for a line, or an unlocked line that can go: the first one. -/
inductive Room (cfg : CacheConfig) (lines : List Line) : Option Line → Prop
  | free (hroom : lines.length < cfg.assoc) : Room cfg lines none
  | victim {line : Line} (hfull : ¬ lines.length < cfg.assoc) (hmem : line ∈ lines)
      (hlock : line.lock = false)
      (hfirst : lines.find? (fun line => !line.lock) = some line) : Room cfg lines (some line)

def missed (cfg : CacheConfig) (c : Cache) (req : Request) (victim : Option Line) : Cache where
  cacheLines := update c.cacheLines (cfg.getIndex req.addr)
    (without (c.getLines cfg req.addr) victim ++ [missLine cfg c req])
  mshrEntries := c.mshrEntries ++ [(req.addr, ⟨cfg.getIndex req.addr, c.nodes⟩)]
  nodes := c.nodes + 1

/-- The ways `send` ends. -/
inductive Sent (cfg : CacheConfig) (c : Cache) (sys : CacheSystem) (req : Request) :
    Bool → Cache → CacheSystem → Prop
  | hit {line : Line} (hmem : line ∈ c.getLines cfg req.addr)
      (htag : line.tag = cfg.getTag req.addr) (hlock : line.lock = false)
      (hhit : isHit cfg (c.getLines cfg req.addr) req.addr = some line) :
      Sent cfg c sys req true { c.setLines (cfg.getIndex req.addr)
            (eraseLine (c.getLines cfg req.addr) line ++ [hitLine cfg c req line]) with
          nodes := c.nodes + 1 }
        { sys with hitList := sys.hitList ++ [(sys.clk + cfg.latency, req)] }
  /-- A miss of the block is under way. -/
  | merged {entry : Int × LineIter} (hmiss : isHit cfg (c.getLines cfg req.addr) req.addr = none)
      (hentry : entry ∈ c.mshrEntries) (hblock : cfg.align entry.1 = cfg.align req.addr) :
      Sent cfg c sys req true (c.setLines entry.2.index (modified entry.2.node
          (fun line => { line with dirty := decide (req.type = .write) || line.dirty })
          (c.cacheLines entry.2.index))) sys
  | refused : Sent cfg c sys req false c sys
  | missed {victim : Option Line}
      (hmiss : isHit cfg (c.getLines cfg req.addr) req.addr = none)
      (hfresh : ∀ entry ∈ c.mshrEntries, cfg.align entry.1 ≠ cfg.align req.addr)
      (hnum : c.mshrEntries.length ≠ cfg.mshrEntryNum)
      (habsent : ∀ line ∈ c.getLines cfg req.addr, line.tag ≠ cfg.getTag req.addr)
      (hroom : Room cfg (c.getLines cfg req.addr) victim) :
      Sent cfg c sys req true (missed cfg c req victim)
        { sys with waitList := sys.waitList ++ writtenBack cfg sys victim ++
            [(sys.clk + cfg.latency, { req with type := .read })] }

/-- The assertions of `send`.  Under the invariant of the cache only the first
    can fail. -/
def SendAbort (cfg : CacheConfig) (c : Cache) (req : Request) (e : Abort) : Prop :=
  (e = .requestType ∧ req.type ≠ .read ∧ req.type ≠ .write) ∨
    (e = .danglingIterator ∧ ∃ entry ∈ c.mshrEntries,
      ∀ line ∈ c.cacheLines entry.2.index, line.node ≠ entry.2.node) ∨
    (e = .needEviction ∧ isHit cfg (c.getLines cfg req.addr) req.addr = none ∧
      c.hitMshr cfg req.addr = none ∧
      ∃ line ∈ c.getLines cfg req.addr, line.tag = cfg.getTag req.addr)

theorem isHit_some {lines : List Line} {line : Line} (h : isHit cfg lines addr = some line) :
    line ∈ lines ∧ line.tag = cfg.getTag addr ∧ line.lock = false := by
  obtain ⟨hfind, hlock⟩ := Option.filter_eq_some_iff.mp h
  refine ⟨mem_of_find?_eq_some hfind, ?_, ?_⟩
  · have htag := find?_some hfind
    exact of_decide_eq_true htag
  · simpa using hlock

theorem hitMshr_some {entry : Int × LineIter} (h : c.hitMshr cfg addr = some entry) :
    entry ∈ c.mshrEntries ∧ cfg.align entry.1 = cfg.align addr := by
  have hblock := find?_some h
  exact ⟨mem_of_find?_eq_some h, of_decide_eq_true hblock⟩

theorem hitMshr_none (h : c.hitMshr cfg addr = none) :
    ∀ entry ∈ c.mshrEntries, cfg.align entry.1 ≠ cfg.align addr := by
  intro entry hentry heq
  have hnone := find?_eq_none.mp h entry hentry
  exact hnone (decide_eq_true heq)

theorem modifyLine_ends (c : Cache) (it : LineIter) (f : Line → Line) : Ends (c.modifyLine it f)
      (fun c' => c' = c.setLines it.index (modified it.node f (c.cacheLines it.index)) ∧
        ∃ line ∈ c.cacheLines it.index, line.node = it.node)
      (fun e => e = .danglingIterator ∧ ∀ line ∈ c.cacheLines it.index, line.node ≠ it.node) := by
  apply Ends.ite
  · intro hany
    obtain ⟨line, hmem, hnode⟩ := any_eq_true.mp hany
    exact ⟨rfl, line, hmem, of_decide_eq_true hnode⟩
  · intro hany
    refine ⟨rfl, fun line hmem hnode => hany ?_⟩
    exact any_eq_true.mpr ⟨line, hmem, decide_eq_true hnode⟩

section

variable (hlast : cfg.isLastLevel = true)
include hlast

theorem makeRoom_ends (c : Cache) (sys : CacheSystem) (addr : Int) : Ends (c.makeRoom cfg sys addr)
      (fun out => (∀ line ∈ c.getLines cfg addr, line.tag ≠ cfg.getTag addr) ∧
        ∀ c₁ sys₁, out = some (c₁, sys₁) → ∃ victim, Room cfg (c.getLines cfg addr) victim ∧
          c₁ = c.setLines (cfg.getIndex addr) (without (c.getLines cfg addr) victim) ∧
          sys₁ = { sys with waitList := sys.waitList ++ writtenBack cfg sys victim })
      (fun e => e = .needEviction ∧ ∃ line ∈ c.getLines cfg addr, line.tag = cfg.getTag addr) := by
  apply Ends.bind (Q := fun full =>
    (∀ line ∈ c.getLines cfg addr, line.tag ≠ cfg.getTag addr) ∧
      full = !decide ((c.getLines cfg addr).length < cfg.assoc))
  · apply Ends.ite
    · intro hsome
      obtain ⟨line, hfind⟩ := Option.isSome_iff_exists.mp hsome
      have htag := find?_some hfind
      exact ⟨rfl, line, mem_of_find?_eq_some hfind, of_decide_eq_true htag⟩
    · intro hnone
      have hfind := Option.not_isSome_iff_eq_none.mp hnone
      refine ⟨fun line hmem htag => ?_, rfl⟩
      exact find?_eq_none.mp hfind line hmem (decide_eq_true htag)
  · rintro full ⟨habsent, rfl⟩
    apply Ends.ite
    · intro hfull
      have hfull : ¬ (c.getLines cfg addr).length < cfg.assoc := by simpa using hfull
      split
      · refine ⟨habsent, fun c₁ sys₁ heq => ?_⟩
        cases heq
      · next victim hfind =>
        have hlock : victim.lock = false := by
          have hunlocked := find?_some hfind
          simpa using hunlocked
        unfold evict
        dsimp only
        rw [if_pos hlast]
        refine ⟨habsent, fun c₁ sys₁ heq => ?_⟩
        cases heq
        refine ⟨some victim, .victim hfull (mem_of_find?_eq_some hfind) hlock hfind, rfl, ?_⟩
        unfold writtenBack
        dsimp only
        split
        · rfl
        · rw [append_nil]
    · intro hroom
      have hroom : (c.getLines cfg addr).length < cfg.assoc := by simpa using hroom
      refine ⟨habsent, fun c₁ sys₁ heq => ?_⟩
      cases heq
      refine ⟨none, .free hroom, ?_, ?_⟩
      · show c = { c with cacheLines := update c.cacheLines _ (c.cacheLines _) }
        rw [update_eq_self]
      · rw [show writtenBack cfg sys none = [] from rfl, append_nil]

theorem allocate_ends (hmiss : isHit cfg (c.getLines cfg req.addr) req.addr = none)
    (hmshr : c.hitMshr cfg req.addr = none) (hnum : c.mshrEntries.length ≠ cfg.mshrEntryNum)
    (sys : CacheSystem) :
    Ends (c.allocate cfg sys { req with type := .read } (decide (req.type = .write)))
      (fun out => Sent cfg c sys req out.1 out.2.1 out.2.2) (SendAbort cfg c req) := by
  apply Ends.bind ((makeRoom_ends hlast c sys req.addr).weaken_abort
    (fun e he => Or.inr (Or.inr ⟨he.1, hmiss, hmshr, he.2⟩)))
  rintro (_ | ⟨c₁, sys₁⟩) ⟨habsent, hsome⟩
  · exact .refused
  · obtain ⟨victim, hroom, rfl, rfl⟩ := hsome c₁ sys₁ rfl
    show Ends (sendLower cfg _ _ _ _) _ _
    unfold sendLower
    dsimp only
    rw [if_pos hlast]
    apply Ends.pure
    have hsent : Sent cfg c sys req true _ _ :=
      .missed hmiss (hitMshr_none hmshr) hnum habsent hroom
    unfold missed at hsent
    unfold pushLine setLines
    dsimp only
    rw [update_idem, update_self]
    exact hsent

theorem send_ends (c : Cache) (sys : CacheSystem) (req : Request) :
    Ends (c.send cfg sys req) (fun out => Sent cfg c sys req out.1 out.2.1 out.2.2)
      (SendAbort cfg c req) := by
  unfold send
  apply Ends.ite
  · intro _
    split
    · next line hhit =>
      obtain ⟨hmem, htag, hlock⟩ := isHit_some hhit
      apply Ends.pure
      have hsent : Sent cfg c sys req true _ _ := .hit hmem htag hlock hhit
      have herase : eraseLine (c.cacheLines (cfg.getIndex req.addr) ++ [hitLine cfg c req line])
          line = eraseLine (c.getLines cfg req.addr) line ++ [hitLine cfg c req line] :=
        eraseP_append_left (p := fun l : Line => decide (l.node = line.node))
          (decide_eq_true rfl) _ hmem
      rw [← herase] at hsent
      exact hsent
    · next hmiss =>
      unfold miss
      dsimp only
      split
      · next entry hmshr =>
        obtain ⟨hentry, hblock⟩ := hitMshr_some hmshr
        apply Ends.bind ((modifyLine_ends c entry.2 _).weaken_abort
          (fun e he => Or.inr (Or.inl ⟨he.1, entry, hentry, he.2⟩)))
        rintro c₁ ⟨rfl, -⟩
        exact .merged hmiss hentry hblock
      · next hmshr =>
        apply Ends.ite
        · intro _
          exact .refused
        · intro hnum
          apply Ends.ite
          · intro _
            exact .refused
          · intro _
            exact allocate_ends hlast hmiss hmshr hnum sys
  · intro htype
    exact Or.inl ⟨rfl, fun hread => htype (Or.inl hread), fun hwrite => htype (Or.inr hwrite)⟩

end

/-- The ways `callback` ends. -/
inductive Called (cfg : CacheConfig) (c : Cache) (req : Request) : Cache → Prop
  | none (hnone : ∀ entry ∈ c.mshrEntries, cfg.align entry.1 ≠ cfg.align req.addr) :
      Called cfg c req c
  /-- The miss of the block ends. -/
  | unlocked {entry : Int × LineIter} (hentry : entry ∈ c.mshrEntries)
      (hblock : cfg.align entry.1 = cfg.align req.addr) :
      Called cfg c req { c.setLines entry.2.index (modified entry.2.node
          (fun line => { line with lock := false }) (c.cacheLines entry.2.index)) with
        mshrEntries :=
          c.mshrEntries.eraseP fun entry => decide (cfg.align entry.1 = cfg.align req.addr) }

theorem callback_ends (c : Cache) (req : Request) : Ends (c.callback cfg req) (Called cfg c req)
      (fun e => e = .danglingIterator ∧ ∃ entry ∈ c.mshrEntries,
        ∀ line ∈ c.cacheLines entry.2.index, line.node ≠ entry.2.node) := by
  unfold callback
  split
  · next hmshr => exact .none (hitMshr_none hmshr)
  · next entry hmshr =>
    obtain ⟨hentry, hblock⟩ := hitMshr_some hmshr
    apply Ends.bind ((modifyLine_ends c entry.2 _).weaken_abort
      (fun e he => ⟨he.1, entry, hentry, he.2⟩))
    rintro c₁ ⟨rfl, -⟩
    exact .unlocked hentry hblock

end Cache

end Ramulator
