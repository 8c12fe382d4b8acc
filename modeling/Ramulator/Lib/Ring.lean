/-
  Ramulator.Lib.Ring

  Ring buffers as first-in first-out lists.

  A ring of `depth` cells holds `load` entries, the oldest in cell `tail`.
  `view` lists them, oldest first; the lemmas say what writing the cell behind
  the last entry, moving `tail` on and changing cells in place do to that list.
  Cells are given by a function, so several arrays can be read as one.
-/

import Mathlib.Data.List.Basic

namespace Ring

open List

variable {α : Type} {cell cell' : Nat → α} {depth tail load : Nat}

/-- The cell of entry `i`. -/
def slot (depth tail i : Nat) : Nat := (tail + i) % depth

/-- The entries, oldest first. -/
def view (cell : Nat → α) (depth tail load : Nat) : List α :=
  (List.range load).map fun i => cell (slot depth tail i)

/-- Different entries have different cells. -/
theorem slot_ne {i j : Nat} (hij : i < j) (hj : j < depth) :
    slot depth tail i ≠ slot depth tail j := by
  intro heq
  have hmod : (tail + j - (tail + i)) % depth = 0 := Nat.sub_mod_eq_zero_of_mod_eq heq.symm
  rw [Nat.mod_eq_of_lt (by omega)] at hmod
  omega

theorem slot_succ (i : Nat) : slot depth ((tail + 1) % depth) i = slot depth tail (i + 1) := by
  unfold slot
  rw [Nat.mod_add_mod]
  congr 1
  omega

@[simp] theorem length_view : (view cell depth tail load).length = load := by
  rw [view, length_map, length_range]

/-- The cell behind the last entry is written. -/
theorem view_push {a : α} (hload : load < depth)
    (hother : ∀ j, j ≠ slot depth tail load → cell' j = cell j)
    (hnew : cell' (slot depth tail load) = a) :
    view cell' depth tail (load + 1) = view cell depth tail load ++ [a] := by
  unfold view
  rw [range_succ, map_append, map_singleton, hnew]
  congr 1
  apply map_congr_left
  intro i hi
  exact hother _ (slot_ne (mem_range.mp hi) hload)

/-- The oldest entry is left behind. -/
theorem view_pop (htail : tail < depth) :
    view cell depth tail (load + 1) = cell tail :: view cell depth ((tail + 1) % depth) load := by
  unfold view
  rw [range_succ_eq_map, map_cons, map_map]
  have hzero : slot depth tail 0 = tail := Nat.mod_eq_of_lt htail
  rw [hzero]
  congr 1
  apply map_congr_left
  intro i _
  show cell (slot depth tail (i + 1)) = _
  rw [slot_succ]

/-- Every entry is changed in place. -/
theorem view_map {f : α → α}
    (h : ∀ i < load, cell' (slot depth tail i) = f (cell (slot depth tail i))) :
    view cell' depth tail load = (view cell depth tail load).map f := by
  unfold view
  rw [map_map]
  apply map_congr_left
  intro i hi
  exact h i (mem_range.mp hi)

end Ring
