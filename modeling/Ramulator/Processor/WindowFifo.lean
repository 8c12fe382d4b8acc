/-
  Ramulator.Processor.WindowFifo

  The instruction window is a first-in first-out list.

  `Fifo` is what the window is for: a list of instructions, oldest first, each
  with its ready bit and its address.  An instruction enters at the end; the
  ready ones at the front leave, up to four in a cycle; and an address that comes
  back from memory marks the instructions that wait for it.  Any sequence of calls
  that inserts only into a window that is not full takes the ring and the list
  through the same states and gets the same answers from both.
-/

import Ramulator.Processor.Window

namespace Ramulator

open Outcome List

inductive WindowCall where
  | insert (ready : Bool) (addr : Int)
  | retire
  | setReady (addr mask : Int)
deriving DecidableEq, Repr

/-! ## The list -/

/-- The instructions in flight, and what the calls of `retire` have returned. -/
structure Fifo where
  entries : List (Bool × Int) := []
  retired : List Nat := []
deriving DecidableEq, Repr

namespace Fifo

/-- An instruction whose address is that of `addr` becomes ready. -/
def mark (addr mask : Int) (e : Bool × Int) : Bool × Int :=
  if Int.land e.2 mask = Int.land addr mask then (true, e.2) else e

def call (q : Fifo) : WindowCall → Fifo
  | .insert ready addr => { q with entries := q.entries ++ [(ready, addr)] }
  | .retire =>
    let n := Window.readyPrefix Window.ipc q.entries
    { entries := q.entries.drop n, retired := q.retired ++ [n] }
  | .setReady addr mask => { q with entries := q.entries.map (mark addr mask) }

end Fifo

/-! ## The ring -/

/-- The window, and what the calls of `retire` have returned. -/
structure WindowRun where
  window : Window := {}
  retired : List Nat := []

namespace WindowRun

def call (r : WindowRun) : WindowCall → Except Abort WindowRun
  | .insert ready addr => do
      let window ← r.window.insert ready addr
      pure { r with window }
  | .retire => do
      let out ← r.window.retire
      pure { window := out.2, retired := r.retired ++ [out.1] }
  | .setReady addr mask => pure { r with window := r.window.setReady addr mask }

def Allowed (r : WindowRun) : WindowCall → Prop
  | .insert _ _ => r.window.isFull = false
  | _ => True

instance (r : WindowRun) : DecidablePred r.Allowed
  | .insert _ _ => inferInstanceAs (Decidable (_ = false))
  | .retire | .setReady _ _ => inferInstanceAs (Decidable True)

/-- The ring holds the list. -/
structure Shows (r : WindowRun) (q : Fifo) : Prop where
  wf : r.window.WF
  entries : r.window.entries = q.entries
  retired : r.retired = q.retired

variable {r : WindowRun} {q : Fifo}

theorem Shows.new : Shows {} {} := ⟨Window.WF.new, rfl, rfl⟩

theorem Shows.load (h : Shows r q) : r.window.load = q.entries.length := by
  rw [← h.entries, Window.entries, Ring.length_view]

theorem Shows.call (h : Shows r q) {c : WindowCall} (hallowed : r.Allowed c) :
    Ends (r.call c) (fun r' => Shows r' (q.call c)) (fun _ => False) := by
  cases c with
  | insert ready addr =>
    refine Ends.bind (Window.insert_ends h.wf (h.wf.load_lt hallowed) ready addr) ?_
    rintro window ⟨hwf, hentries⟩
    refine ⟨hwf, ?_, h.retired⟩
    rw [hentries, h.entries]
    rfl
  | retire =>
    have hretire : r.window.retire = .ok (Window.retireLoop Window.ipc r.window) :=
      if_pos h.wf.load_le
    obtain ⟨hwf, hcount, hdrop⟩ := Window.retireLoop_spec Window.ipc h.wf
    rw [WindowRun.call, hretire]
    refine ⟨hwf, ?_, ?_⟩
    · rw [hdrop, hcount, h.entries]
      rfl
    · rw [hcount, h.entries, h.retired]
      rfl
  | setReady addr mask =>
    obtain ⟨hwf, hentries⟩ := Window.setReady_entries h.wf addr mask
    refine ⟨hwf, ?_, h.retired⟩
    rw [hentries, h.entries]
    refine map_congr_left fun e _ => ?_
    by_cases hmatch : Int.land e.2 mask = Int.land addr mask
    · simp [Fifo.mark, hmatch]
    · simp [Fifo.mark, hmatch]

theorem Shows.calls (h : Shows r q) {cs : List WindowCall}
    (hallowed : Along WindowRun.call Allowed cs r) :
    Ends (cs.foldlM WindowRun.call r) (fun r' => Shows r' (cs.foldl Fifo.call q))
      (fun _ => False) := by
  induction cs generalizing r q with
  | nil => exact h
  | cons c cs ih =>
    rw [foldlM_cons, foldl_cons]
    refine Ends.bind (h.call hallowed.1).remember fun r' h' => ?_
    exact ih h'.2 (hallowed.2.result h'.1)

end WindowRun

/-- The window refines the list: after any calls it has the entries of the list,
    its `retire` has returned the same numbers, it is full exactly if the list has
    `depth` entries, and `head` follows from `tail` and `load`. -/
theorem window_refines_fifo (cs : List WindowCall)
    (hallowed : Along WindowRun.call WindowRun.Allowed cs {}) :
    ∃ r, cs.foldlM WindowRun.call {} = .ok r ∧ r.window.entries = (cs.foldl Fifo.call {}).entries ∧
      r.retired = (cs.foldl Fifo.call {}).retired ∧
      (r.window.isFull = true ↔ (cs.foldl Fifo.call {}).entries.length = Window.depth) ∧
      r.window.head = (r.window.tail + r.window.load) % Window.depth ∧
      r.window.load ≤ Window.depth := by
  obtain ⟨r, hrun, h⟩ := (WindowRun.Shows.new.calls hallowed).exists_ok
  refine ⟨r, hrun, h.entries, h.retired, ?_, h.wf.head_eq, h.wf.load_le⟩
  rw [← h.load]
  exact decide_eq_true_iff

/-- Two instructions, one of which waits for a line that comes back. -/
theorem window_refines_fifo_reads :
    ∃ r, [WindowCall.insert true (-1), .insert false 200, .setReady 192 (-64), .retire].foldlM
        WindowRun.call {} = .ok r ∧ r.retired = [2] ∧ r.window.entries = [] := by
  obtain ⟨r, hrun, hentries, hretired, -⟩ := window_refines_fifo
    [.insert true (-1), .insert false 200, .setReady 192 (-64), .retire] (by decide +kernel)
  refine ⟨r, hrun, ?_, ?_⟩
  · rw [hretired]
    decide +kernel
  · rw [hentries]
    decide +kernel

end Ramulator
