/-
  Ramulator.PrivateL1.Order

  The order in which requests for one block reach the memory.

  `CacheSystem::tick` offers the requests of `wait_list` to the memory in the
  order in which they were appended, but goes on after a request that the
  memory refuses.  The memory has separate queues for reads and writes, so it
  can refuse the write-back of a block and take the read that fetches the block
  again in the same tick (`refetch_overtakes_writeback`).  Where the memory, once it
  has refused a request, refuses the later ones for the block too (`Stubborn`), the
  requests for each block are accepted in the order in which they were appended
  (`run_same_block_order`).

  The loop stops at the first request that is not due.  Every L1 has the same
  latency, so the times in `wait_list` never decrease and the loop offers all
  that is due (`run_offers_due`).
-/

import Mathlib.Logic.Relation
import Ramulator.Cache.Steps
import Ramulator.Logged

namespace Ramulator

open Outcome List

variable {τ : Type}

/-- What the first loop of `CacheSystem::tick` offers to the memory, and whether
    it is accepted. -/
def CacheSystem.offers (send : τ → Request → Except Abort (Bool × τ)) (clk : Int) :
    List (Int × Request) → τ → Except Abort (List (Request × Bool))
  | [], _ => pure []
  | (time, req) :: rest, memory =>
    if time ≤ clk then do
      let (accepted, memory) ← send memory req
      let offered ← offers send clk rest memory
      pure ((req, accepted) :: offered)
    else pure []

/-- The caches, what they share, and all that was ever appended to `wait_list`,
    oldest first. -/
structure CacheRun (τ : Type) where
  l1s : Nat → Cache := fun _ => {}
  sys : CacheSystem := {}
  memory : Logged τ
  appended : List Request := []

/-- A request of core `i` to its L1, a callback of an L1, or a tick of the cache system. -/
inductive CacheOp where
  | send (i : Nat) (req : Request)
  | callback (i : Nat) (req : Request)
  | tick

namespace CacheRun

def ofBlock (cfg : CacheConfig) (addr : Int) (reqs : List Request) : List Request :=
  reqs.filter fun req => decide (cfg.align req.addr = cfg.align addr)

def step (cfg : CacheConfig) (base : MemoryBase τ) (st : CacheRun τ) :
    CacheOp → Except Abort (CacheRun τ)
  | .send i req => do
      let (_, c, sys) ← (st.l1s i).send cfg st.sys req
      let new := sys.waitList.drop st.sys.waitList.length
      pure { st with
        l1s := Function.update st.l1s i c, sys, appended := st.appended ++ new.map (·.2) }
  | .callback i req => do
      let c ← (st.l1s i).callback cfg req
      pure { st with l1s := Function.update st.l1s i c }
  | .tick => do
      let sys := { st.sys with clk := st.sys.clk + 1 }
      let (waitList, memory) ←
        CacheSystem.sendWaiting base.logged.send sys.clk sys.waitList st.memory
      pure { st with sys := { sys with waitList, hitList := sys.pendingHits }, memory }

/-- Any interleaving of operations, on empty caches. -/
def run (cfg : CacheConfig) (base : MemoryBase τ) (memory : τ) (ops : List CacheOp) :
    Except Abort (CacheRun τ) :=
  ops.foldlM (step cfg base) { memory := ⟨memory, []⟩ }

def offered (base : MemoryBase τ) (st : CacheRun τ) :
    CacheOp → Except Abort (List (Request × Bool))
  | .tick => CacheSystem.offers base.logged.send (st.sys.clk + 1) st.sys.waitList st.memory
  | _ => pure []

/-! ## What is asked of the memory -/

section Memory

variable (send : τ → Request → Except Abort (Bool × τ))

/-- A request is offered to the memory. -/
def Offering (m m' : τ) : Prop := ∃ req accepted, send m req = .ok (accepted, m')

/-- From `m` on, once the memory has refused `r` it refuses `r'`, whatever else it is
    offered before and between. -/
def Stubborn (m : τ) (r r' : Request) : Prop :=
  ∀ m₁ m₂, Relation.ReflTransGen (Offering send) m m₁ → send m₁ r = .ok (false, m₂) →
    ∀ m₃ accepted m₄, Relation.ReflTransGen (Offering send) m₂ m₃ →
      send m₃ r' = .ok (accepted, m₄) → accepted = false

/-- So it does with any two requests for one block that are due. -/
def RefusesInTurn (cfg : CacheConfig) (clk : Int) (m : τ) (waitList : List (Int × Request)) :
    Prop :=
  waitList.Pairwise fun x y => x.1 ≤ clk → y.1 ≤ clk →
    cfg.align x.2.addr = cfg.align y.2.addr → Stubborn send m x.2 y.2

end Memory

/-- The requests that a tick finds, and the memory before it. -/
def TickInTurn (cfg : CacheConfig) (base : MemoryBase τ) (st : CacheRun τ) : CacheOp → Prop
  | .tick => RefusesInTurn base.send cfg (st.sys.clk + 1) st.memory.memory st.sys.waitList
  | _ => True

/-! ## One pass over the list -/

variable {cfg : CacheConfig} {base : MemoryBase τ} {st st' : CacheRun τ}
  {waitList : List (Int × Request)} {send : τ → Request → Except Abort (Bool × τ)} {req : Request}
  {clk : Int} {accepted : Bool}

/-- No request is accepted after one for the same block that was refused. -/
def NoOvertaking (cfg : CacheConfig) (offered : List (Request × Bool)) : Prop :=
  offered.Pairwise fun x y =>
    cfg.align x.1.addr = cfg.align y.1.addr → x.2 = false → y.2 = false

theorem mem_offers {m : τ} {offered : List (Request × Bool)}
    (h : CacheSystem.offers send clk waitList m = .ok offered) : ∀ y ∈ offered,
      ∃ time m₁ m₂, (time, y.1) ∈ waitList ∧ time ≤ clk ∧
        Relation.ReflTransGen (Offering send) m m₁ ∧ send m₁ y.1 = .ok (y.2, m₂) := by
  induction waitList generalizing m offered with
  | nil =>
    cases h
    exact fun y hy => absurd hy not_mem_nil
  | cons x rest ih =>
    obtain ⟨time, req⟩ := x
    rw [CacheSystem.offers] at h
    split at h
    · next hdue =>
      obtain ⟨⟨accepted, m'⟩, hsend, h⟩ := bind_ok.mp h
      obtain ⟨later, hlater, heq⟩ := bind_ok.mp h
      cases heq
      intro y hy
      rcases mem_cons.mp hy with rfl | hy
      · exact ⟨time, m, m', mem_cons_self, hdue, .refl, hsend⟩
      · obtain ⟨time', m₁, m₂, hmem, hdue', hreach, hsend'⟩ := ih hlater y hy
        exact ⟨time', m₁, m₂, mem_cons_of_mem _ hmem, hdue', .head ⟨_, _, hsend⟩ hreach, hsend'⟩
    · cases h
      exact fun y hy => absurd hy not_mem_nil

/-- If the memory refuses in turn, nothing is overtaken. -/
theorem RefusesInTurn.noOvertaking {m : τ} (h : RefusesInTurn send cfg clk m waitList)
    {offered : List (Request × Bool)}
    (hoffers : CacheSystem.offers send clk waitList m = .ok offered) :
    NoOvertaking cfg offered := by
  induction waitList generalizing m offered with
  | nil =>
    cases hoffers
    exact List.Pairwise.nil
  | cons x rest ih =>
    obtain ⟨time, req⟩ := x
    obtain ⟨hhead, hrest⟩ := pairwise_cons.mp h
    rw [CacheSystem.offers] at hoffers
    split at hoffers
    · next hdue =>
      obtain ⟨⟨accepted, m'⟩, hsend, hoffers⟩ := bind_ok.mp hoffers
      obtain ⟨later, hlater, heq⟩ := bind_ok.mp hoffers
      cases heq
      refine pairwise_cons.mpr ⟨fun y hy hblock hrefused => ?_, ih ?_ hlater⟩
      · obtain ⟨time', m₁, m₂, hmem, hdue', hreach, hsend'⟩ := mem_offers hlater y hy
        cases (hrefused : accepted = false)
        exact hhead _ hmem hdue hdue' hblock m m' .refl hsend m₁ y.2 m₂ hreach hsend'
      · -- what holds from `m` on holds from `m'` on
        refine hrest.imp fun hpair hx hy hblock m₁ m₂ hreach => ?_
        exact hpair hx hy hblock m₁ m₂ (.head ⟨_, _, hsend⟩ hreach)
    · cases hoffers
      exact List.Pairwise.nil

/-- The log changes no answer. -/
theorem offers_logged (clk : Int) (waitList : List (Int × Request)) (l : Logged τ) :
    CacheSystem.offers base.logged.send clk waitList l =
      CacheSystem.offers base.send clk waitList l.memory := by
  induction waitList generalizing l with
  | nil => rfl
  | cons x rest ih =>
    unfold CacheSystem.offers
    split
    · show (base.send l.memory x.2 >>= _) >>= _ = _
      rw [bind_assoc]
      congr 1
      funext out
      show CacheSystem.offers base.logged.send clk rest _ >>= _ = _
      rw [ih]
    · rfl

/-- The accepted ones, in the order in which they were offered. -/
def takenOf (offered : List (Request × Bool)) : List Request :=
  (offered.filter (·.2)).map (·.1)

theorem ofBlock_append (cfg : CacheConfig) (addr : Int) (xs ys : List Request) :
    ofBlock cfg addr (xs ++ ys) = ofBlock cfg addr xs ++ ofBlock cfg addr ys :=
  filter_append xs ys

theorem ofBlock_takenOf_refused {offered : List (Request × Bool)}
    (h : NoOvertaking cfg ((req, false) :: offered)) {addr : Int}
    (hblock : cfg.align req.addr = cfg.align addr) : ofBlock cfg addr (takenOf offered) = [] := by
  unfold ofBlock
  rw [filter_eq_nil_iff]
  intro r hr hsame
  obtain ⟨⟨r', accepted⟩, hmem, rfl⟩ := mem_map.mp hr
  obtain ⟨hmem, haccepted⟩ := mem_filter.mp hmem
  have hlater := (pairwise_cons.mp h).1 (r', accepted) hmem
    (hblock.trans (of_decide_eq_true hsame).symm) rfl
  dsimp only at hlater haccepted
  rw [hlater] at haccepted
  cases haccepted

/-- The first loop of `tick`: what is accepted, and what waits on. -/
theorem sendWaiting_offers (cfg : CacheConfig) (clk : Int) (waitList : List (Int × Request))
    (l : Logged τ) : Yields (CacheSystem.sendWaiting base.logged.send clk waitList l)
      (fun out => ∃ offered, CacheSystem.offers base.logged.send clk waitList l = .ok offered ∧
        out.2.accepted = l.accepted ++ takenOf offered ∧
        (NoOvertaking cfg offered → ∀ addr, ofBlock cfg addr (takenOf offered) ++
          ofBlock cfg addr (out.1.map (·.2)) = ofBlock cfg addr (waitList.map (·.2)))) := by
  induction waitList generalizing l with
  | nil => exact ⟨[], rfl, (append_nil _).symm, fun _ _ => rfl⟩
  | cons x rest ih =>
    obtain ⟨time, req⟩ := x
    unfold CacheSystem.sendWaiting CacheSystem.offers
    by_cases hdue : time ≤ clk
    · rw [if_pos hdue, if_pos hdue]
      apply Ends.bind (Ends.ran _)
      rintro ⟨accepted, l₁⟩ hsend
      obtain ⟨⟨accepted', memory⟩, -, heq⟩ := bind_ok.mp hsend
      cases heq
      apply Ends.bind (ih _)
      rintro ⟨waiting, l₂⟩ ⟨offered, hoffers, hlog, horder⟩
      refine ⟨(req, accepted) :: offered, ?_, ?_, ?_⟩
      · exact bind_ok.mpr ⟨_, hsend, bind_ok.mpr ⟨offered, hoffers, rfl⟩⟩
      · dsimp only at hlog ⊢
        rw [hlog]
        cases accepted with
        | true => exact append_assoc _ _ _
        | false => rfl
      · intro hno addr
        have hrest := horder (pairwise_cons.mp hno).2 addr
        cases accepted with
        | true =>
          show ofBlock cfg addr ([req] ++ takenOf offered) ++ _ =
            ofBlock cfg addr ([req] ++ rest.map (·.2))
          rw [ofBlock_append, ofBlock_append, append_assoc]
          exact congrArg _ hrest
        | false =>
          show ofBlock cfg addr (takenOf offered) ++ ofBlock cfg addr ([req] ++ waiting.map (·.2)) =
            ofBlock cfg addr ([req] ++ rest.map (·.2))
          rw [ofBlock_append, ofBlock_append, ← hrest]
          by_cases hblock : cfg.align req.addr = cfg.align addr
          · rw [ofBlock_takenOf_refused hno hblock, nil_append, nil_append]
          · have hnone : ofBlock cfg addr [req] = [] :=
              filter_eq_nil_iff.mpr (by simpa using hblock)
            rw [hnone, nil_append, nil_append]
    · rw [if_neg hdue, if_neg hdue]
      exact ⟨[], rfl, (append_nil _).symm, fun _ _ => rfl⟩

/-! ## Runs -/

/-- For each block, what was accepted and what waits is what was appended, in order. -/
def BlocksInOrder (cfg : CacheConfig) (st : CacheRun τ) : Prop :=
  ∀ addr, ofBlock cfg addr st.memory.accepted ++ ofBlock cfg addr (st.sys.waitList.map (·.2)) =
    ofBlock cfg addr st.appended

theorem sent_appends {c c' : Cache} {sys sys' : CacheSystem}
    (h : Cache.Sent cfg c sys req accepted c' sys') :
    ∃ new, sys'.waitList = sys.waitList ++ new := by
  cases h with
  | hit => exact ⟨[], (append_nil _).symm⟩
  | merged => exact ⟨[], (append_nil _).symm⟩
  | refused => exact ⟨[], (append_nil _).symm⟩
  | missed => exact ⟨_, append_assoc _ _ _⟩

theorem BlocksInOrder.step (hlast : cfg.isLastLevel = true) (h : BlocksInOrder cfg st)
    (op : CacheOp) (hturn : TickInTurn cfg base st op) :
    Yields (st.step cfg base op) (BlocksInOrder cfg) := by
  cases op with
  | send i req =>
    apply Ends.bind ((Cache.send_ends hlast (st.l1s i) st.sys req).weaken_abort
      (fun _ _ => trivial))
    rintro ⟨accepted, c, sys⟩ hsent
    obtain ⟨new, hnew⟩ := sent_appends hsent
    apply Ends.pure
    intro addr
    dsimp only at hnew ⊢
    rw [hnew, drop_left, map_append, ofBlock_append, ofBlock_append, ← append_assoc, h addr]
  | callback i req =>
    apply Ends.bind (Ends.ran _)
    intro c _
    exact h
  | tick =>
    apply Ends.bind (sendWaiting_offers cfg _ _ _)
    rintro ⟨waitList, memory⟩ ⟨offered, hoffers, hlog, horder⟩
    intro addr
    have hpass := horder (hturn.noOvertaking (offers_logged _ _ _ ▸ hoffers)) addr
    dsimp only at hlog hpass ⊢
    rw [hlog, ofBlock_append, append_assoc, hpass]
    exact h addr

/-- **Same-block order.**  In a run in which every tick finds a memory that, once it has
    refused a request of `wait_list`, refuses the later ones for that block in the tick,
    the requests for each block are accepted in the order in which they were appended:
    what has been accepted is followed, in the list of all that were appended, by what
    still waits. -/
theorem run_same_block_order (hlast : cfg.isLastLevel = true) (base : MemoryBase τ) (memory : τ)
    (ops : List CacheOp)
    (hops : Along (step cfg base) (TickInTurn cfg base) ops { memory := ⟨memory, []⟩ }) :
    Ends (run cfg base memory ops) (BlocksInOrder cfg) (fun _ => True) :=
  hops.foldlM (fun _ => rfl) fun _ op _ h hturn => h.step hlast op hturn

/-- A memory with one queue for `n` requests. -/
def oneQueue (n : Nat) : MemoryBase Nat where
  send m _ := pure (decide (m < n), if m < n then m + 1 else m)
  pageAllocator m addr _ := pure (addr, m)
  tick m := pure ([], m)
  pendingRequests m := m

/-- Once it is full it refuses everything. -/
theorem oneQueue_stubborn (n m : Nat) (r r' : Request) : Stubborn (oneQueue n).send m r r' := by
  intro m₁ m₂ _ hrefused m₃ accepted m₄ hreach hsend
  have hfull : ¬ m₁ < n := of_decide_eq_false (congrArg Prod.fst (Except.ok.inj hrefused))
  have hm₂ : m₂ = m₁ := by
    have hstate := congrArg Prod.snd (Except.ok.inj hrefused)
    dsimp only at hstate
    rw [if_neg hfull] at hstate
    exact hstate.symm
  have hgrows : ∀ m, Relation.ReflTransGen (Offering (oneQueue n).send) m₂ m → m₂ ≤ m := by
    intro m hreach
    induction hreach with
    | refl => exact le_refl _
    | tail _ hstep ih =>
      obtain ⟨req, a, hsend⟩ := hstep
      have hstate := congrArg Prod.snd (Except.ok.inj hsend)
      dsimp only at hstate
      split at hstate <;> omega
  have haccepted : decide (m₃ < n) = accepted := congrArg Prod.fst (Except.ok.inj hsend)
  have hm₃ := hgrows m₃ hreach
  rw [← haccepted]
  exact decide_eq_false (by omega)

/-- A memory whose write queue is full. -/
def fullWriteQueue : MemoryBase Unit where
  send _ req := pure (decide (req.type ≠ .write), ())
  pageAllocator _ addr _ := pure (addr, ())
  tick _ := pure ([], ())
  pendingRequests _ := 0

/-- Block 0 is written, eight more blocks of its set come, and block 0 is read again. -/
def refetch : List CacheOp :=
  [.send 0 { addr := 0, type := .write }, .tick, .tick, .tick, .tick,
    .callback 0 { addr := 0, type := .read }] ++
  ([1, 2, 3, 4, 5, 6, 7].map fun (k : Int) =>
    CacheOp.send 0 { addr := 4096 * k, type := .read }) ++
  [.tick, .tick, .tick, .tick] ++
  ([1, 2, 3, 4, 5, 6, 7].map fun (k : Int) =>
    CacheOp.callback 0 { addr := 4096 * k, type := .read }) ++
  [.send 0 { addr := 4096 * 8, type := .read }, .send 0 { addr := 0, type := .read }, .tick,
    .tick, .tick, .tick]

/-- A memory with a queue for nine requests gets the write-back, and the read after it
    has to wait. -/
theorem run_same_block_order_refetch :
    ∃ st, run ({} : ProcessorConfig).l1 (oneQueue 9) 0 refetch = .ok st ∧
      (ofBlock ({} : ProcessorConfig).l1 0 st.memory.accepted).map (·.type) = [.read, .write] ∧
      (ofBlock ({} : ProcessorConfig).l1 0 (st.sys.waitList.map (·.2))).map (·.type) = [.read] ∧
      BlocksInOrder ({} : ProcessorConfig).l1 st := by
  have heval : (run ({} : ProcessorConfig).l1 (oneQueue 9) 0 refetch).toOption.map
      (fun st => ((ofBlock ({} : ProcessorConfig).l1 0 st.memory.accepted).map (·.type),
        (ofBlock ({} : ProcessorConfig).l1 0 (st.sys.waitList.map (·.2))).map (·.type))) =
      some ([.read, .write], [.read]) := by decide +kernel
  obtain ⟨st, hrun, hfields⟩ := exists_ok_of_map heval
  obtain ⟨haccepted, hwaiting⟩ := Prod.mk.inj hfields
  have hturn : ∀ st op, TickInTurn ({} : ProcessorConfig).l1 (oneQueue 9) st op := by
    intro st op
    cases op with
    | tick => exact pairwise_of_forall fun _ _ _ _ _ => oneQueue_stubborn 9 _ _ _
    | send _ _ | callback _ _ => trivial
  exact ⟨st, hrun, haccepted, hwaiting, (run_same_block_order rfl (oneQueue 9) 0 refetch
    (Along.of_forall hturn _ _)).result hrun⟩

/-- While the write queue of the memory is full, the read overtakes the
    write-back of the same block. -/
theorem refetch_overtakes_writeback :
    ∃ st, run ({} : ProcessorConfig).l1 fullWriteQueue () refetch = .ok st ∧
      (ofBlock ({} : ProcessorConfig).l1 0 st.appended).map (·.type) = [.read, .write, .read] ∧
      (ofBlock ({} : ProcessorConfig).l1 0 st.memory.accepted).map (·.type) = [.read, .read] ∧
      ¬ BlocksInOrder ({} : ProcessorConfig).l1 st := by
  have heval : (run ({} : ProcessorConfig).l1 fullWriteQueue () refetch).toOption.map
      (fun st => ((ofBlock ({} : ProcessorConfig).l1 0 st.appended).map (·.type),
        (ofBlock ({} : ProcessorConfig).l1 0 st.memory.accepted).map (·.type))) =
      some ([.read, .write, .read], [.read, .read]) := by decide +kernel
  obtain ⟨st, hrun, hfields⟩ := exists_ok_of_map heval
  obtain ⟨happended, haccepted⟩ := Prod.mk.inj hfields
  refine ⟨st, hrun, happended, haccepted, ?_⟩
  intro horder
  have htypes := congrArg (List.map (·.type)) (horder 0)
  rw [map_append, haccepted, happended] at htypes
  cases htypes

/-! ## What is due -/

def due (clk : Int) (waitList : List (Int × Request)) : List (Int × Request) :=
  waitList.filter fun x => decide (x.1 ≤ clk)

def late (clk : Int) (waitList : List (Int × Request)) : List (Int × Request) :=
  waitList.filter fun x => !decide (x.1 ≤ clk)

def refused (waitList : List (Int × Request)) (answers : List Bool) : List (Int × Request) :=
  ((waitList.zip answers).filter fun x => !x.2).map (·.1)

theorem refused_sublist {answers : List Bool} (h : answers.length = waitList.length) :
    (refused waitList answers).Sublist waitList := by
  have hall : (waitList.zip answers).map (·.1) = waitList := map_fst_zip h.ge
  have hkept := (filter_sublist (p := fun x => !x.2) (l := waitList.zip answers)).map Prod.fst
  rw [hall] at hkept
  exact hkept

/-- The times of the requests, front to back. -/
def Ordered (waitList : List (Int × Request)) : Prop := waitList.Pairwise fun x y => x.1 ≤ y.1

theorem late_of_ordered {x : Int × Request} {rest : List (Int × Request)} (h : Ordered (x :: rest))
    (hx : ¬ x.1 ≤ clk) : due clk (x :: rest) = [] ∧ late clk (x :: rest) = x :: rest := by
  have hlate : ∀ y ∈ x :: rest, ¬ y.1 ≤ clk := by
    intro y hy
    rcases mem_cons.mp hy with rfl | hy
    · exact hx
    · have hle := (pairwise_cons.mp h).1 y hy
      omega
  constructor
  · exact filter_eq_nil_iff.mpr fun y hy => by simpa using hlate y hy
  · exact filter_eq_self.mpr fun y hy => by simpa using hlate y hy

/-- Each request that is due is offered once, in order; the refused ones and those
    that are not due stay, in order. -/
theorem sendWaiting_due (send : τ → Request → Except Abort (Bool × τ)) (clk : Int)
    (h : Ordered waitList) (memory : τ) : Yields (CacheSystem.sendWaiting send clk waitList memory)
      (fun out => ∃ answers, answers.length = (due clk waitList).length ∧
        CacheSystem.offers send clk waitList memory =
          .ok (((due clk waitList).map (·.2)).zip answers) ∧
        waitList = due clk waitList ++ late clk waitList ∧
        out.1 = refused (due clk waitList) answers ++ late clk waitList) := by
  induction waitList generalizing memory with
  | nil => exact ⟨[], rfl, rfl, rfl, rfl⟩
  | cons x rest ih =>
    obtain ⟨time, req⟩ := x
    unfold CacheSystem.sendWaiting CacheSystem.offers
    by_cases hdue : time ≤ clk
    · rw [if_pos hdue, if_pos hdue]
      apply Ends.bind (Ends.ran _)
      rintro ⟨accepted, memory₁⟩ hsend
      apply Ends.bind (ih (pairwise_cons.mp h).2 memory₁)
      rintro ⟨waiting, memory₂⟩ ⟨answers, hlength, hoffers, hsplit, hwaiting⟩
      have hhead : due clk ((time, req) :: rest) = (time, req) :: due clk rest :=
        filter_cons_of_pos (decide_eq_true hdue)
      have htail : late clk ((time, req) :: rest) = late clk rest :=
        filter_cons_of_neg (by simpa using hdue)
      rw [hhead, htail]
      refine ⟨accepted :: answers, congrArg Nat.succ hlength, ?_, ?_, ?_⟩
      · exact bind_ok.mpr ⟨_, hsend, bind_ok.mpr ⟨_, hoffers, rfl⟩⟩
      · exact congrArg (_ :: ·) hsplit
      · dsimp only at hwaiting ⊢
        rw [hwaiting]
        cases accepted with
        | true => rfl
        | false => rfl
    · -- the loop stops here
      rw [if_neg hdue, if_neg hdue]
      obtain ⟨hnone, hall⟩ := late_of_ordered h hdue
      rw [hnone, hall]
      exact ⟨[], rfl, rfl, rfl, rfl⟩

/-- The times of `wait_list` do not decrease, and none is further away than the
    latency of an L1. -/
structure Timely (cfg : CacheConfig) (st : CacheRun τ) : Prop where
  ordered : Ordered st.sys.waitList
  bound : ∀ x ∈ st.sys.waitList, x.1 ≤ st.sys.clk + cfg.latency

theorem sent_times {c c' : Cache} {sys sys' : CacheSystem}
    (h : Cache.Sent cfg c sys req accepted c' sys') :
    sys'.clk = sys.clk ∧ ∃ new, sys'.waitList = sys.waitList ++ new ∧
      ∀ x ∈ new, x.1 = sys.clk + cfg.latency := by
  cases h with
  | hit => exact ⟨rfl, [], (append_nil _).symm, fun _ hx => nomatch hx⟩
  | merged => exact ⟨rfl, [], (append_nil _).symm, fun _ hx => nomatch hx⟩
  | refused => exact ⟨rfl, [], (append_nil _).symm, fun _ hx => nomatch hx⟩
  | @missed victim =>
    refine ⟨rfl, _, append_assoc _ _ _, fun x hx => ?_⟩
    rcases mem_append.mp hx with hback | hread
    · -- the write-back of the victim
      cases victim with
      | none => cases hback
      | some line =>
        dsimp only [Cache.writtenBack] at hback
        split at hback
        · rw [mem_singleton.mp hback]
        · cases hback
    · rw [mem_singleton.mp hread]

theorem Timely.step (hlast : cfg.isLastLevel = true) (h : st.Timely cfg) (op : CacheOp) :
    Yields (st.step cfg base op) (Timely cfg) := by
  cases op with
  | send i req =>
    apply Ends.bind ((Cache.send_ends hlast (st.l1s i) st.sys req).weaken_abort
      (fun _ _ => trivial))
    rintro ⟨accepted, c, sys⟩ hsent
    obtain ⟨hclk, new, hnew, htimes⟩ := sent_times hsent
    dsimp only at hclk hnew ⊢
    refine ⟨?_, ?_⟩
    · show Ordered sys.waitList
      rw [hnew]
      refine pairwise_append.mpr ⟨h.ordered, ?_, ?_⟩
      · refine pairwise_of_forall_mem_list fun x hx y hy => ?_
        exact ((htimes x hx).trans (htimes y hy).symm).le
      · intro x hx y hy
        rw [htimes y hy]
        exact h.bound x hx
    · show ∀ x ∈ sys.waitList, x.1 ≤ sys.clk + cfg.latency
      rw [hnew, hclk]
      intro x hx
      rcases mem_append.mp hx with hold | hx
      · exact h.bound x hold
      · exact (htimes x hx).le
  | callback i req =>
    apply Ends.bind (Ends.ran _)
    intro c _
    exact ⟨h.ordered, h.bound⟩
  | tick =>
    apply Ends.bind (sendWaiting_due _ _ h.ordered _)
    rintro ⟨waitList, memory⟩ ⟨answers, hlength, -, hsplit, hwaiting⟩
    have hsublist := (refused_sublist hlength).append_right (late (st.sys.clk + 1) st.sys.waitList)
    rw [← hsplit, ← hwaiting] at hsublist
    refine ⟨h.ordered.sublist hsublist, fun x hx => ?_⟩
    have hle := h.bound x (hsublist.subset hx)
    show x.1 ≤ st.sys.clk + 1 + cfg.latency
    omega

end CacheRun

end Ramulator
