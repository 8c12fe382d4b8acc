/-
  Ramulator.Processor.Window

  The instruction window of a core (`Window` of Processor.h, Processor.cpp).

  The window is a ring of two arrays.  `entries` reads it as the list of its
  instructions, oldest first, each with its ready bit and its address, and
  `insert`, `retire` and `setReady` are described on that list.
-/

import Mathlib.Data.Int.Bitwise
import Ramulator.Lib.Ring
import Ramulator.Base

namespace Ramulator

open Outcome List

structure Window where
  load : Nat := 0
  head : Nat := 0
  tail : Nat := 0
  readyList : List Bool := replicate 128 false
  addrList : List Int := replicate 128 (-1)

namespace Window

def ipc : Nat := 4

def depth : Nat := 128

def isFull (w : Window) : Bool := w.load = depth

def insert (w : Window) (ready : Bool) (addr : Int) : Except Abort Window :=
  if w.load ≤ depth then
    pure { w with
      readyList := w.readyList.set w.head ready
      addrList := w.addrList.set w.head addr
      head := (w.head + 1) % depth
      load := w.load + 1 }
  else throw .windowLoad

def retireLoop : Nat → Window → Nat × Window
  | 0, w => (0, w)
  | n + 1, w =>
    if 0 < w.load ∧ w.readyList.getD w.tail false = true then
      let (retired, w) :=
        retireLoop n { w with tail := (w.tail + 1) % depth, load := w.load - 1 }
      (retired + 1, w)
    else (0, w)

/-- `retire`: the number of instructions that retired. -/
def retire (w : Window) : Except Abort (Nat × Window) :=
  if w.load ≤ depth then pure (retireLoop ipc w) else throw .windowLoad

def setReady (w : Window) (addr mask : Int) : Window :=
  { w with
    readyList := (List.range w.load).foldl (fun ready i =>
      let index := (w.tail + i) % depth
      if Int.land (w.addrList.getD index (-1)) mask = Int.land addr mask then
        ready.set index true
      else ready) w.readyList }

/-! ## The window as a list -/

def cell (w : Window) (i : Nat) : Bool × Int := (w.readyList.getD i false, w.addrList.getD i (-1))

/-- The instructions in the window, oldest first: ready bit and address. -/
def entries (w : Window) : List (Bool × Int) := Ring.view w.cell depth w.tail w.load

/-- The ring is in order. -/
structure WF (w : Window) : Prop where
  ready_length : w.readyList.length = depth
  addr_length : w.addrList.length = depth
  tail_lt : w.tail < depth
  load_le : w.load ≤ depth
  head_eq : w.head = (w.tail + w.load) % depth

variable {w w' : Window} {α : Type}

theorem WF.new : WF {} := by
  constructor
  · exact length_replicate
  · exact length_replicate
  · decide
  · decide
  · decide

theorem depth_pos : 0 < depth := by decide

theorem getD_set_self {xs : List α} {i : Nat} (hi : i < xs.length) (a d : α) :
    (xs.set i a).getD i d = a := by
  rw [getD_eq_getElem?_getD, getElem?_set_self hi, Option.getD_some]

theorem getD_set_ne {xs : List α} {i j : Nat} (hij : j ≠ i) (a d : α) :
    (xs.set i a).getD j d = xs.getD j d := by
  rw [getD_eq_getElem?_getD, getElem?_set_ne (Ne.symm hij), getD_eq_getElem?_getD]

theorem WF.load_lt (h : WF w) (hroom : w.isFull = false) : w.load < depth := by
  have hne : w.load ≠ depth := of_decide_eq_false hroom
  have hle := h.load_le
  omega

theorem insert_ends (h : WF w) (hroom : w.load < depth) (ready : Bool) (addr : Int) :
    Ends (w.insert ready addr)
      (fun w' => WF w' ∧ w'.entries = w.entries ++ [(ready, addr)]) (fun _ => False) := by
  unfold insert
  rw [if_pos h.load_le]
  apply Ends.pure
  have hhead : w.head < depth := by
    rw [h.head_eq]
    exact Nat.mod_lt _ depth_pos
  constructor
  · constructor
    · rw [length_set, h.ready_length]
    · rw [length_set, h.addr_length]
    · exact h.tail_lt
    · exact hroom
    · show (w.head + 1) % depth = (w.tail + (w.load + 1)) % depth
      rw [h.head_eq, Nat.mod_add_mod, Nat.add_assoc]
  · have hslot : Ring.slot depth w.tail w.load = w.head := h.head_eq.symm
    apply Ring.view_push hroom
    · intro j hj
      rw [hslot] at hj
      simp only [cell, getD_set_ne hj]
    · rw [hslot]
      simp only [cell]
      rw [getD_set_self (by rw [h.ready_length]; exact hhead),
        getD_set_self (by rw [h.addr_length]; exact hhead)]

def readyPrefix (n : Nat) (entries : List (Bool × Int)) : Nat :=
  min n (entries.takeWhile (·.1)).length

theorem mem_take_readyPrefix {n : Nat} {es : List (Bool × Int)} {e : Bool × Int}
    (he : e ∈ es.take (readyPrefix n es)) : e.1 = true := by
  have hprefix : es.takeWhile (·.1) <+: es := takeWhile_prefix _
  have htake : es.take (readyPrefix n es) <+: es.takeWhile (·.1) :=
    prefix_of_prefix_length_le ( take_prefix _ _) hprefix
      ((length_take_le _ _).trans (Nat.min_le_right _ _))
  exact all_eq_true.mp all_takeWhile e (htake.subset he)

theorem retireLoop_spec (n : Nat) (h : WF w) :
    WF (retireLoop n w).2 ∧ (retireLoop n w).1 = readyPrefix n w.entries ∧
      (retireLoop n w).2.entries = w.entries.drop (retireLoop n w).1 := by
  induction n generalizing w with
  | zero => exact ⟨h, (Nat.zero_min _).symm, rfl⟩
  | succ n ih =>
    -- the front of the list is the cell at `tail`
    have hfront : ∀ load, w.load = load + 1 → w.entries = w.cell w.tail ::
        Ring.view w.cell depth ((w.tail + 1) % depth) load := by
      intro load hload
      show Ring.view w.cell depth w.tail w.load = _
      rw [hload, Ring.view_pop h.tail_lt]
    unfold retireLoop
    split
    · next hready =>
      obtain ⟨load, hload⟩ : ∃ load, w.load = load + 1 := ⟨w.load - 1, by omega⟩
      have hwf : WF { w with tail := (w.tail + 1) % depth, load := w.load - 1 } := by
        constructor
        · exact h.ready_length
        · exact h.addr_length
        · exact Nat.mod_lt _ depth_pos
        · show w.load - 1 ≤ depth
          have := h.load_le
          omega
        · show w.head = ((w.tail + 1) % depth + (w.load - 1)) % depth
          rw [h.head_eq, Nat.mod_add_mod, hload, Nat.add_sub_cancel, Nat.add_right_comm,
            Nat.add_assoc]
      have hpop : w.entries = w.cell w.tail ::
          entries { w with tail := (w.tail + 1) % depth, load := w.load - 1 } := by
        rw [hfront load hload]
        show _ = _ :: Ring.view w.cell depth _ (w.load - 1)
        rw [hload, Nat.add_sub_cancel]
      obtain ⟨hwf', hcount, hdrop⟩ := ih hwf
      have hcell : (w.cell w.tail).1 = true := hready.2
      dsimp only
      refine ⟨hwf', ?_, ?_⟩
      · rw [hcount, hpop, readyPrefix, readyPrefix, takeWhile_cons_of_pos hcell,
          length_cons, Nat.succ_min_succ]
      · rw [hdrop, hpop, drop_succ_cons]
    · next hstop =>
      refine ⟨h, ?_, rfl⟩
      cases hload : w.load with
      | zero =>
        have hempty : w.entries = [] := by
          show Ring.view w.cell depth w.tail w.load = []
          rw [hload]
          rfl
        rw [hempty]
        rfl
      | succ load =>
        have hcell : ¬ (w.cell w.tail).1 = true := fun hcell =>
          hstop ⟨by omega, hcell⟩
        rw [hfront load hload, readyPrefix, takeWhile_cons_of_neg hcell]
        rfl

/-- `retire` takes ready instructions off the front and never fails. -/
theorem retire_ends (h : WF w) : Ends w.retire
      (fun out => WF out.2 ∧ out.2.entries = w.entries.drop out.1 ∧
        ∀ e ∈ w.entries.take out.1, e.1 = true) (fun _ => False) := by
  unfold retire
  rw [if_pos h.load_le]
  obtain ⟨hwf, hcount, hdrop⟩ := retireLoop_spec ipc h
  refine ⟨hwf, hdrop, fun e he => ?_⟩
  rw [hcount] at he
  exact mem_take_readyPrefix he

theorem getD_foldl_set (p : Nat → Prop) [DecidablePred p] (f : Nat → Nat) (is : List Nat)
    (ready : List Bool) (hf : ∀ i ∈ is, f i < ready.length) (k : Nat) :
    (is.foldl (fun ready i => if p (f i) then ready.set (f i) true else ready) ready).getD k
        false = (ready.getD k false || decide (p k ∧ ∃ i ∈ is, f i = k)) := by
  induction is generalizing ready with
  | nil => simp
  | cons i is ih =>
    rw [foldl_cons, ih]
    · by_cases hp : p (f i)
      · rw [if_pos hp]
        by_cases hk : k = f i
        · subst hk
          rw [getD_set_self (hf i mem_cons_self)]
          simp [hp]
        · rw [getD_set_ne hk]
          simp [Ne.symm hk]
      · rw [if_neg hp]
        congr 2
        apply propext
        constructor
        · rintro ⟨hpk, j, hj, hjk⟩
          exact ⟨hpk, j, mem_cons_of_mem _ hj, hjk⟩
        · rintro ⟨hpk, j, hj, hjk⟩
          rcases mem_cons.mp hj with rfl | hj
          · rw [hjk] at hp
            exact absurd hpk hp
          · exact ⟨hpk, j, hj, hjk⟩
    · intro j hj
      have hlt := hf j (mem_cons_of_mem _ hj)
      split
      · rwa [length_set]
      · exact hlt

theorem length_foldl_set (p : Nat → Prop) [DecidablePred p] (f : Nat → Nat) (is : List Nat)
    (ready : List Bool) :
    (is.foldl (fun ready i => if p (f i) then ready.set (f i) true else ready) ready).length =
      ready.length := by
  induction is generalizing ready with
  | nil => rfl
  | cons i is ih =>
    rw [foldl_cons, ih]
    split
    · rw [length_set]
    · rfl

theorem setReady_entries (h : WF w) (addr mask : Int) :
    WF (w.setReady addr mask) ∧ (w.setReady addr mask).entries = w.entries.map fun e =>
      (e.1 || decide (Int.land e.2 mask = Int.land addr mask), e.2) := by
  let p : Nat → Prop := fun k => Int.land (w.addrList.getD k (-1)) mask = Int.land addr mask
  have hlength : (w.setReady addr mask).readyList.length = depth := by
    rw [← h.ready_length]
    exact length_foldl_set p (fun i => (w.tail + i) % depth) (List.range w.load) w.readyList
  refine ⟨⟨hlength, h.addr_length, h.tail_lt, h.load_le, h.head_eq⟩, ?_⟩
  apply Ring.view_map
  intro i hi
  obtain ⟨k, hk⟩ : ∃ k, Ring.slot depth w.tail i = k := ⟨_, rfl⟩
  have hcell := getD_foldl_set p (fun i => (w.tail + i) % depth) (List.range w.load) w.readyList
    (fun j _ => by rw [h.ready_length]; exact Nat.mod_lt _ depth_pos) k
  have hlive : (p k ∧ ∃ j ∈ List.range w.load, (w.tail + j) % depth = k) ↔ p k :=
    and_iff_left ⟨i, mem_range.mpr hi, hk⟩
  have hready : (w.setReady addr mask).readyList.getD k false =
      (w.readyList.getD k false || decide (p k)) := by
    rw [← decide_eq_decide.mpr hlive]
    exact hcell
  show (w.setReady addr mask).cell (Ring.slot depth w.tail i) = _
  rw [hk]
  show ((w.setReady addr mask).readyList.getD k false, w.addrList.getD k (-1)) = _
  rw [hready]
  subst hk
  rfl

end Window

end Ramulator
