/-
  Ramulator.Lib.Outcome

  Postconditions for computations that may abort.

  `Ends x Q E` says how a computation `x : Except ε α` may end: a result
  satisfies `Q`, an abort satisfies `E`.  The second half is what states
  "this assertion never fails": take for `E` every abort but that one; `Yields`
  is `Ends` where the abort does not matter.  The rules below follow the shape of
  a program (`pure`, `throw`, sequencing, branches, loops), so a spec of a long
  procedure is assembled from the specs of its parts and never unfolds them.

  `Along step P xs s` says that every step of a run meets `P`; a rule for loops
  then needs the invariant for such steps only.

  `Sim R x y` compares two computations: both end in results related by `R`, or
  both in the same abort.  Its rules follow the shape of a program too.
-/

import Mathlib.Data.List.Forall2

namespace Outcome

open List

variable {ε ζ α β γ : Type} {Q' : α → Prop} {E' : ε → Prop} {b : β} {c : Prop} {a : α} {e : ε}

/-- `x` ends in a result satisfying `Q` or in an abort satisfying `E`. -/
def Ends (x : Except ε α) (Q : α → Prop) (E : ε → Prop) : Prop :=
  match x with
  | .ok a => Q a
  | .error e => E e

/-- What `x` returns satisfies `Q`; of an abort nothing is said. -/
abbrev Yields (x : Except ε α) (Q : α → Prop) : Prop := Ends x Q fun _ => True

instance {x : Except ε α} {Q : α → Prop} {E : ε → Prop} [DecidablePred Q] [DecidablePred E] :
    Decidable (Ends x Q E) :=
  match x with
  | .ok a => inferInstanceAs (Decidable (Q a))
  | .error e => inferInstanceAs (Decidable (E e))

variable {x : Except ε α} {Q : α → Prop} {E : ε → Prop}

theorem Ends.result (h : Ends x Q E) (hx : x = .ok a) : Q a := by
  subst hx
  exact h

theorem Ends.abort (h : Ends x Q E) (hx : x = .error e) : E e := by
  subst hx
  exact h

/-- Introduction from the two ways a computation can end. -/
theorem Ends.intro (hok : ∀ a, x = .ok a → Q a) (herr : ∀ e, x = .error e → E e) : Ends x Q E := by
  cases x with
  | ok a => exact hok a rfl
  | error e => exact herr e rfl

/-- A computation that does not abort. -/
theorem Ends.exists_ok (h : Ends x Q (fun _ => False)) : ∃ a, x = .ok a ∧ Q a := by
  cases x with
  | ok a => exact ⟨a, rfl, h⟩
  | error e => exact h.elim

theorem Ends.pure (h : Q a) : Ends (Pure.pure a : Except ε α) Q E := h

/-- A postcondition that only says how the computation ended. -/
theorem Ends.ran (x : Except ε α) : Yields x (fun a => x = .ok a) :=
  Ends.intro (fun _ hok => hok) (fun _ _ => trivial)

/-- A postcondition may also use how the computation ended. -/
theorem Ends.remember (h : Ends x Q E) : Ends x (fun a => x = .ok a ∧ Q a) E :=
  Ends.intro (fun _ hok => ⟨hok, h.result hok⟩) (fun _ herr => h.abort herr)

/-- Weakening of both postconditions. -/
theorem Ends.imp (h : Ends x Q E) (hQ : ∀ a, Q a → Q' a) (hE : ∀ e, E e → E' e) : Ends x Q' E' := by
  cases x with
  | ok a => exact hQ a h
  | error e => exact hE e h

/-- Weakening of what is said about the result. -/
theorem Ends.weaken (h : Ends x Q E) (hQ : ∀ a, Q a → Q' a) : Ends x Q' E :=
  h.imp hQ (fun _ he => he)

/-- Weakening of what is said about the abort. -/
theorem Ends.weaken_abort (h : Ends x Q E) (hE : ∀ e, E e → E' e) : Ends x Q E' :=
  h.imp (fun _ hq => hq) hE

/-- The abort does not matter. -/
theorem Ends.yields (h : Ends x Q E) (hQ : ∀ a, Q a → Q' a) : Yields x Q' :=
  h.imp hQ (fun _ _ => trivial)

theorem Ends.ignore (h : Ends x Q E) : Yields x Q := h.yields (fun _ hq => hq)

theorem Ends.and (h : Ends x Q E) (h' : Ends x Q' E') :
    Ends x (fun a => Q a ∧ Q' a) (fun e => E e ∧ E' e) := by
  cases x with
  | ok a => exact ⟨h, h'⟩
  | error e => exact ⟨h, h'⟩

variable {f : α → Except ε β}

/-- Sequencing: the second computation runs from any result of the first. -/
theorem Ends.bind {R : β → Prop} (hx : Ends x Q E) (hf : ∀ a, Q a → Ends (f a) R E) :
    Ends (x >>= f) R E := by
  cases x with
  | ok a => exact hf a hx
  | error e => exact hx

/-- A conditional, each branch under its condition. -/
theorem Ends.ite [Decidable c] {y : Except ε α} (ht : c → Ends x Q E) (he : ¬ c → Ends y Q E) :
    Ends (if c then x else y) Q E := by
  by_cases hc : c
  · rw [if_pos hc]
    exact ht hc
  · rw [if_neg hc]
    exact he hc

/-- An assertion followed by the rest of the procedure. -/
theorem Ends.guard [Decidable c] (hbad : ¬ c → E e) (hok : c → Ends x Q E) :
    Ends (if c then x else .error e) Q E :=
  Ends.ite hok hbad

/-- A loop over a list: the invariant `I` holds initially and every iteration
    keeps it. -/
theorem Ends.foldlM {I : β → Prop} {f : β → α → Except ε β} (xs : List α) (h0 : I b)
    (hf : ∀ b a, a ∈ xs → I b → Ends (f b a) I E) : Ends (xs.foldlM f b) I E := by
  induction xs generalizing b with
  | nil => exact h0
  | cons a as ih =>
    rw [foldlM_cons]
    refine Ends.bind (hf b a mem_cons_self h0) ?_
    intro b' hb'
    exact ih hb' (fun b₁ a₁ ha₁ => hf b₁ a₁ (mem_cons_of_mem _ ha₁))

/-- One computation for each element of a list. -/
theorem Ends.mapM {R : α → β → Prop} (xs : List α) (hf : ∀ a ∈ xs, Ends (f a) (R a) E) :
    Ends (xs.mapM f) (Forall₂ R xs) E := by
  induction xs with
  | nil => exact Forall₂.nil
  | cons a as ih =>
    rw [mapM_cons]
    apply Ends.bind (hf a mem_cons_self)
    intro b hb
    apply Ends.bind (ih (fun a' ha' => hf a' (mem_cons_of_mem _ ha')))
    intro bs hbs
    exact Forall₂.cons hb hbs

/-- Every step of the run from `s` over `xs` meets `P`. -/
def Along {σ ι : Type} (step : σ → ι → Except ε σ) (P : σ → ι → Prop) : List ι → σ → Prop
  | [], _ => True
  | x :: xs, s => P s x ∧ Ends (step s x) (Along step P xs) (fun _ => True)

section Along

variable {σ ι : Type} {step : σ → ι → Except ε σ} {P : σ → ι → Prop} {s : σ}

instance Along.decide [∀ s, DecidablePred (P s)] : (xs : List ι) → DecidablePred (Along step P xs)
  | [], _ => inferInstanceAs (Decidable True)
  | x :: xs, s =>
    let _ : DecidablePred (Along step P xs) := Along.decide xs
    inferInstanceAs (Decidable (P s x ∧ Ends (step s x) (Along step P xs) (fun _ => True)))

theorem Along.of_forall (h : ∀ s x, P s x) (xs : List ι) (s : σ) : Along step P xs s := by
  induction xs generalizing s with
  | nil => trivial
  | cons x xs ih => exact ⟨h s x, Ends.intro (fun s' _ => ih s') fun _ _ => trivial⟩

/-- The rest of a run. -/
theorem Along.of_append {xs ys : List ι} {s' : σ} (h : Along step P (xs ++ ys) s)
    (hrun : xs.foldlM step s = .ok s') : Along step P ys s' := by
  induction xs generalizing s with
  | nil =>
    cases hrun
    exact h
  | cons x xs ih =>
    rw [foldlM_cons] at hrun
    cases hstep : step s x with
    | error e =>
      rw [hstep] at hrun
      cases hrun
    | ok s₁ =>
      rw [hstep] at hrun
      exact ih (h.2.result hstep) hrun

/-- The beginning of a run. -/
theorem Along.left {xs ys : List ι} (h : Along step P (xs ++ ys) s) : Along step P xs s := by
  induction xs generalizing s with
  | nil => trivial
  | cons x xs ih => exact ⟨h.1, h.2.weaken fun _ h' => ih h'⟩

/-- A run whose steps meet `P`: such steps keep the invariant. -/
theorem Along.foldlM {I : σ → Prop} {xs : List ι} (h : Along step P xs s) (h0 : I s)
    (hstep : ∀ s x, x ∈ xs → I s → P s x → Ends (step s x) I E) : Ends (xs.foldlM step s) I E := by
  induction xs generalizing s with
  | nil => exact h0
  | cons x xs ih =>
    rw [foldlM_cons]
    refine Ends.bind (hstep s x mem_cons_self h0 h.1).remember fun s' h' => ?_
    exact ih (h.2.result h'.1) h'.2 fun s y hy => hstep s y (mem_cons_of_mem _ hy)

/-- The states of a run, up to the first abort. -/
def trail (step : σ → ι → Except ε σ) : List ι → σ → List σ
  | [], s => [s]
  | x :: xs, s => s ::
      match step s x with
      | .ok s' => trail step xs s'
      | .error _ => []

theorem mem_trail_self (xs : List ι) (s : σ) : s ∈ trail step xs s := by
  cases xs with
  | nil => exact mem_singleton.mpr rfl
  | cons x xs => exact mem_cons_self

/-- A run whose steps keep `J`: if `P` says when a step keeps `I`, then `P` along the run
    says when all its states have `I`. -/
theorem along_iff_trail {I J : σ → Prop} (hJ : ∀ s x, J s → Yields (step s x) J)
    (hI : ∀ s x, J s → I s → (P s x ↔ Yields (step s x) I)) (xs : List ι) (hJs : J s) (hIs : I s) :
    Along step P xs s ↔ ∀ s' ∈ trail step xs s, I s' := by
  induction xs generalizing s with
  | nil => exact ⟨fun _ s' hs' => mem_singleton.mp hs' ▸ hIs, fun _ => trivial⟩
  | cons x xs ih =>
    rw [Along, trail, forall_mem_cons, and_iff_right hIs, hI s x hJs hIs]
    have hnext := hJ s x hJs
    cases hstep : step s x with
    | error e => exact ⟨fun _ _ h => absurd h not_mem_nil, fun _ => ⟨trivial, trivial⟩⟩
    | ok s' =>
      rw [hstep] at hnext
      constructor
      · rintro ⟨hIs', halong⟩
        exact (ih hnext hIs').mp halong
      · intro hall
        have hIs' := hall s' (mem_trail_self xs s')
        exact ⟨hIs', (ih hnext hIs').mpr hall⟩

end Along

/-- `x` and `y` end in related results, or in the same abort. -/
def Sim (R : α → β → Prop) (x : Except ε α) (y : Except ε β) : Prop :=
  match x, y with
  | .ok a, .ok b => R a b
  | .error e, .error e' => e = e'
  | _, _ => False

section Sim

variable {δ : Type} {R : α → β → Prop} {S : γ → δ → Prop} {x : Except ε α} {y : Except ε β}

theorem Sim.pure (h : R a b) : Sim R (Pure.pure a : Except ε α) (Pure.pure b : Except ε β) := h

theorem Sim.imp {R' : α → β → Prop} (h : Sim R x y) (hR : ∀ a b, R a b → R' a b) : Sim R' x y := by
  cases x with
  | ok a =>
    cases y with
    | ok b => exact hR a b h
    | error e => exact h.elim
  | error e =>
    cases y with
    | ok b => exact h.elim
    | error e' => exact h

theorem Sim.refl (z : Except ε α) : Sim Eq z z := by
  cases z with
  | ok a => exact rfl
  | error e => exact rfl

theorem Sim.bind {f : α → Except ε γ} {g : β → Except ε δ} (h : Sim R x y)
    (hfg : ∀ a b, R a b → Sim S (f a) (g b)) : Sim S (x >>= f) (y >>= g) := by
  cases x with
  | ok a =>
    cases y with
    | ok b => exact hfg a b h
    | error e => exact h.elim
  | error e =>
    cases y with
    | ok b => exact h.elim
    | error e' => exact h

/-- The same computation first. -/
theorem Sim.bind_same {z : Except ε ζ} {f : ζ → Except ε γ} {g : ζ → Except ε δ}
    (hfg : ∀ a, Sim S (f a) (g a)) : Sim S (z >>= f) (z >>= g) := by
  apply Sim.bind (Sim.refl z)
  intro a b hab
  subst hab
  exact hfg a

/-- Something is added to the results. -/
theorem Sim.map_left {f : α → β} {R : β → α → Prop} (z : Except ε α) (hf : ∀ a, R (f a) a) :
    Sim R (z >>= fun a => Pure.pure (f a)) z := by
  cases z with
  | ok a => exact hf a
  | error e => exact rfl

theorem Sim.ite [Decidable c] {x' : Except ε α} {y' : Except ε β} (ht : c → Sim R x y)
    (he : ¬ c → Sim R x' y') : Sim R (if c then x else x') (if c then y else y') := by
  by_cases hc : c
  · rw [if_pos hc, if_pos hc]
    exact ht hc
  · rw [if_neg hc, if_neg hc]
    exact he hc

/-- The same loop on both sides. -/
theorem Sim.foldlM {f : α → ζ → Except ε α} {g : β → ζ → Except ε β} (zs : List ζ) (h : R a b)
    (hfg : ∀ a b z, R a b → Sim R (f a z) (g b z)) : Sim R (zs.foldlM f a) (zs.foldlM g b) := by
  induction zs generalizing a b with
  | nil => exact h
  | cons z zs ih =>
    rw [foldlM_cons, foldlM_cons]
    apply Sim.bind (hfg a b z h)
    intro a' b' h'
    exact ih h'

/-- What the right side ends in, the left side ends in. -/
theorem Sim.exists_left (h : Sim R x y) (hy : y = .ok b) : ∃ a, x = .ok a ∧ R a b := by
  subst hy
  cases x with
  | ok a => exact ⟨a, rfl, h⟩
  | error e => exact h.elim

/-- What is known of the right side holds on the left. -/
theorem Sim.ends {Q : β → Prop} (h : Sim R x y) (hy : Ends y Q E) :
    Ends x (fun a => ∃ b, R a b ∧ Q b) E := by
  cases x with
  | ok a =>
    cases y with
    | ok b => exact ⟨b, h, hy⟩
    | error e => exact h.elim
  | error e =>
    cases y with
    | ok b => exact h.elim
    | error e' =>
      have heq : e = e' := h
      rw [heq]
      exact hy

end Sim

/-- Inversion of a sequence that ended in a result. -/
theorem bind_ok : (x >>= f) = .ok b ↔ ∃ a, x = .ok a ∧ f a = .ok b := by
  cases x with
  | ok a =>
    constructor
    · intro h
      exact ⟨a, rfl, h⟩
    · rintro ⟨a', ha, hb⟩
      cases ha
      exact hb
  | error e =>
    constructor
    · intro h
      cases h
    · rintro ⟨a', ha, -⟩
      cases ha

/-- A computation that is seen to end in a result with `f a = b`. -/
theorem exists_ok_of_map {f : α → β} (h : x.toOption.map f = some b) :
    ∃ a, x = .ok a ∧ f a = b := by
  cases x with
  | ok a => exact ⟨a, rfl, Option.some.inj h⟩
  | error e => cases h

/-- A computation that is seen to end in an abort. -/
theorem error_of_ends (h : Ends x (fun _ => False) (fun e' => e' = e)) : x = .error e := by
  cases x with
  | ok a => exact h.elim
  | error e' => exact congrArg Except.error h

/-- The same input `n` times, along known states. -/
theorem foldlM_replicate_append {σ ι : Type} {step : σ → ι → Except ε σ} {f : Nat → σ} {x : ι}
    {n : Nat} (h : ∀ k < n, step (f k) x = .ok (f (k + 1))) (rest : List ι) :
    (replicate n x ++ rest).foldlM step (f 0) = rest.foldlM step (f n) := by
  induction n generalizing rest with
  | zero => rfl
  | succ n ih =>
    rw [replicate_succ', append_assoc, ih (fun k hk => h k (by omega)),
      singleton_append, foldlM_cons, h n (Nat.lt_succ_self n)]
    rfl

end Outcome
