import Mathlib.Tactic

/-!
# Faults and assertions

Kernel code stops in one of two ways: an assertion of a debug build fails, or a
`bugcheck` is reached. A function that may stop returns in `Except Fault`, and an
assertion is evaluated only when the flag `debug` is set, so that one definition
describes both builds.
-/

/-- The ways in which kernel code stops. -/
inductive Fault where
  /-- An assertion of a debug build does not hold. -/
  | assertFailed
  /-- A `bugcheck` is reached, with its message. -/
  | bugcheck (message : String)
  /-- A loop exceeds the number of rounds it is given. -/
  | outOfFuel
  deriving DecidableEq, Repr

namespace Fault

/-- The assertion of `c`, which a release build leaves out. -/
def assert (debug : Bool) (c : Prop) [Decidable c] : Except Fault Unit :=
  if debug = true ∧ ¬ c then .error .assertFailed else .ok ()

variable {debug : Bool}

/-- An assertion that holds in a debug build is passed in both builds. -/
theorem assert_eq_ok {c : Prop} [Decidable c] (h : debug = true → c) :
  assert debug c = .ok ()
  := by
  rw [assert, if_neg]
  rintro ⟨hd, hc⟩
  apply hc (h hd)

/-- A passed assertion of a debug build holds. -/
theorem assert_eq_ok_iff {c : Prop} [Decidable c] {u : Unit} :
  assert debug c = .ok u ↔ (debug = true → c)
  := by
  constructor
  · intro h hd
    by_contra hc
    rw [assert, if_pos ⟨hd, hc⟩] at h
    cases h
  · intro h
    apply assert_eq_ok h

/-- A release build passes every assertion. -/
@[simp]
theorem assert_release (c : Prop) [Decidable c] :
  assert false c = .ok ()
  := by
  simp [assert]

/-- After an assertion, a computation that fails in an assertion still does. -/
theorem assert_bind_assertFailed {α : Type} {c : Prop} [Decidable c] {f : Unit → Except Fault α}
    (h : f () = .error .assertFailed) :
  (assert debug c >>= f) = .error .assertFailed
  := by
  rw [assert]
  split_ifs
  · rfl
  · apply h

/-- An assertion has failed. -/
def failed {α : Type} : Except Fault α → Bool
  | .error .assertFailed => true
  | _ => false

theorem failed_iff {α : Type} {x : Except Fault α} : failed x = true ↔ x = .error .assertFailed := by
  constructor
  · intro h
    match x, h with
    | .error .assertFailed, _ => rfl
  · rintro rfl
    rfl

end Fault

namespace Except

variable {ε α β : Type}

/-- A sequence of two computations returns exactly when the first returns a value from
which the second returns. -/
theorem bind_eq_ok_iff {x : Except ε α} {f : α → Except ε β} {b : β} :
  (x >>= f) = .ok b ↔ ∃ a, x = .ok a ∧ f a = .ok b
  := by
  cases x with
  | error e =>
      constructor
      · intro h
        cases h
      · rintro ⟨a, h, -⟩
        cases h
  | ok a =>
      constructor
      · intro h
        use a, rfl, h
      · rintro ⟨a', h, hf⟩
        cases h
        apply hf

/-- A computation that has returned `a` continues from `a`. -/
@[simp]
theorem ok_bind (a : α) (f : α → Except ε β) :
  ((.ok a : Except ε α) >>= f) = f a
  := rfl

/-- A computation that has stopped stays stopped. -/
@[simp]
theorem error_bind (e : ε) (f : α → Except ε β) :
  ((.error e : Except ε α) >>= f) = .error e
  := rfl

/-- Loops whose rounds do the same do the same. -/
theorem forM_congr {f g : α → Except ε Unit} {l : List α} (h : ∀ x ∈ l, f x = g x) :
  l.forM f = l.forM g
  := by
  induction l with
  | nil => rfl
  | cons x l ih =>
      rw [List.forM, List.forM, h x List.mem_cons_self, ih]
      intro y hy
      apply h y (List.mem_cons_of_mem _ hy)

/-- A loop without a result returns when every round of it does. -/
theorem forM_eq_ok {f : α → Except ε Unit} {l : List α} (h : ∀ x ∈ l, f x = .ok ()) :
  l.forM f = .ok ()
  := by
  induction l with
  | nil => rfl
  | cons x l ih =>
      rw [List.forM, h x List.mem_cons_self, ok_bind]
      apply ih
      intro y hy
      apply h y (List.mem_cons_of_mem _ hy)

end Except
