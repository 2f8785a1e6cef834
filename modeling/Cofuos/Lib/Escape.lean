import Mathlib.Tactic

/-!
# Computations that may not return

`Escape σ α` is a computation that works on a state `σ` and either returns a value of type `α` or
never returns to its caller, in which case nothing that follows it is carried out and the state
stays as it has left it. A triple `Triple P f Q E` says that from every state that satisfies `P`
the computation `f` returns in a state that satisfies `Q`, or leaves for good in a state that
satisfies `E`.
-/

/-- A computation on a state that may not return. -/
def Escape (σ α : Type) : Type := σ → Option α × σ

namespace Escape

variable {σ α β : Type}

/-- The computation that returns a value at once. -/
def ret (a : α) : Escape σ α := fun s => (some a, s)

/-- What follows a computation is carried out when it returns. -/
def seq (f : Escape σ α) (k : α → Escape σ β) : Escape σ β := fun s =>
  match f s with
  | (some a, s') => k a s'
  | (none, s') => (none, s')

instance : Monad (Escape σ) where
  pure := ret
  bind := seq

/-- The computation that changes the state and returns. -/
def modify (f : σ → σ) : Escape σ Unit := fun s => (some (), f s)

/-- The computation that changes the state and never returns. -/
def leave (f : σ → σ) : Escape σ α := fun s => (none, f s)

/-- From `P` a computation returns in `Q` or leaves in `E`. -/
structure Triple (P : σ → Prop) (f : Escape σ α) (Q E : σ → Prop) : Prop where
  /-- It returns in `Q`. -/
  returns : ∀ {s s' : σ} {a : α}, P s → f s = (some a, s') → Q s'
  /-- It leaves in `E`. -/
  leaves : ∀ {s s' : σ}, P s → f s = (none, s') → E s'

variable {P Q R E : σ → Prop} {f : Escape σ α} {k : α → Escape σ β}

/-- Returning a value keeps what holds. -/
theorem Triple.pure (a : α) : Triple P (Pure.pure a : Escape σ α) P E := by
  constructor
  · intro s s' b hP heq
    cases heq
    exact hP
  · intro s s' _ heq
    cases heq

/-- Two computations, one after the other. -/
theorem Triple.bind (hf : Triple P f Q E) (hk : ∀ a, Triple Q (k a) R E) :
  Triple P (f >>= k) R E
  := by
  constructor
  · intro s s' b hP heq
    obtain ⟨r, t, hr⟩ : ∃ r t, f s = (r, t) := ⟨_, _, rfl⟩
    change seq f k s = _ at heq
    rw [seq, hr] at heq
    cases r with
    | none => cases heq
    | some a => exact (hk a).returns (hf.returns hP hr) heq
  · intro s s' hP heq
    obtain ⟨r, t, hr⟩ : ∃ r t, f s = (r, t) := ⟨_, _, rfl⟩
    change seq f k s = _ at heq
    rw [seq, hr] at heq
    cases r with
    | none =>
        cases heq
        exact hf.leaves hP hr
    | some a => exact (hk a).leaves (hf.returns hP hr) heq

/-- A choice between two computations. -/
theorem Triple.ite {c : Prop} [Decidable c] {g : Escape σ α} (hf : c → Triple P f Q E)
    (hg : ¬ c → Triple P g Q E) :
  Triple P (if c then f else g) Q E
  := by
  split
  · rename_i hc
    exact hf hc
  · rename_i hc
    exact hg hc

/-- Changing the state. -/
theorem Triple.modify {g : σ → σ} (h : ∀ s, P s → Q (g s)) :
  Triple P (Escape.modify g) Q E
  := by
  constructor
  · intro s s' _ hP heq
    cases heq
    exact h s hP
  · intro s s' _ heq
    cases heq

/-- Changing the state for the last time. -/
theorem Triple.leave {g : σ → σ} (h : ∀ s, P s → E (g s)) :
  Triple P (Escape.leave g : Escape σ α) Q E
  := by
  constructor
  · intro s s' _ _ heq
    cases heq
  · intro s s' hP heq
    cases heq
    exact h s hP

end Escape
