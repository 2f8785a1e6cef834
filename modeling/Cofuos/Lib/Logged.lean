import Mathlib.Tactic

/-!
# Logged computations

A computation that leaves a list of events and either returns a value or stops. What is done after
a stop is lost, the events before it stay.
-/

/-- A computation with events of type `ε` that may stop with a value of type `σ`. -/
structure Logged (ε σ α : Type) where
  events : List ε
  result : Except σ α

namespace Logged

variable {ε σ α β : Type}

/-- The computation that does nothing. -/
protected def pure (a : α) : Logged ε σ α := ⟨[], .ok a⟩

/-- A computation followed by another one, if it does not stop. -/
protected def bind (x : Logged ε σ α) (f : α → Logged ε σ β) : Logged ε σ β :=
  match x.result with
  | .ok a => ⟨x.events ++ (f a).events, (f a).result⟩
  | .error s => ⟨x.events, .error s⟩

instance instMonad : Monad (Logged ε σ) where
  pure := Logged.pure
  bind := Logged.bind

/-- One event. -/
def emit (e : ε) : Logged ε σ Unit := ⟨[e], .ok ()⟩

/-- The end of the computation. -/
def stop (s : σ) : Logged ε σ α := ⟨[], .error s⟩

/-- The computation stops unless a condition holds. -/
def require (c : Prop) [Decidable c] (s : σ) : Logged ε σ Unit := if c then pure () else stop s

variable {x : Logged ε σ α} {f : α → Logged ε σ β} {e e' : ε} {s : σ}

@[simp]
theorem events_pure (a : α) : (pure a : Logged ε σ α).events = [] := rfl

@[simp]
theorem result_pure (a : α) : (pure a : Logged ε σ α).result = .ok a := rfl

@[simp]
theorem events_emit : (emit e : Logged ε σ Unit).events = [e] := rfl

@[simp]
theorem result_emit : (emit e : Logged ε σ Unit).result = .ok () := rfl

@[simp]
theorem events_stop : (stop s : Logged ε σ α).events = [] := rfl

@[simp]
theorem result_stop : (stop s : Logged ε σ α).result = .error s := rfl

@[simp]
theorem events_require (c : Prop) [Decidable c] :
  (require c s : Logged ε σ Unit).events = []
  := by
  rw [require]
  split_ifs
  · rfl
  · rfl

@[simp]
theorem result_require (c : Prop) [Decidable c] {u : Unit} :
  (require c s : Logged ε σ Unit).result = .ok u ↔ c
  := by
  rw [require]
  split_ifs with h
  · exact iff_of_true rfl h
  · exact iff_of_false (by simp) h

/-- A sequence whose first part returns. -/
theorem bind_of_result {a : α} (h : x.result = .ok a) :
  (x >>= f) = ⟨x.events ++ (f a).events, (f a).result⟩
  := by
  change Logged.bind x f = _
  rw [Logged.bind, h]

/-- A sequence whose first part stops. -/
theorem bind_of_stop (h : x.result = .error s) : (x >>= f) = ⟨x.events, .error s⟩ := by
  change Logged.bind x f = _
  rw [Logged.bind, h]

/-- A sequence whose first part does nothing. -/
protected theorem pure_bind (a : α) (f : α → Logged ε σ β) : (pure a >>= f) = f a := rfl

/-- A condition that holds does nothing. -/
theorem require_of {c : Prop} [Decidable c] (h : c) : (require c s : Logged ε σ Unit) = pure () :=
  if_pos h

/-- A sequence returns when both of its parts do. -/
@[simp]
theorem result_bind {b : β} :
  (x >>= f).result = .ok b ↔ ∃ a, x.result = .ok a ∧ (f a).result = .ok b
  := by
  change (Logged.bind x f).result = .ok b ↔ _
  rw [Logged.bind]
  cases x.result with
  | ok a => simp
  | error s => simp

/-- The events of a sequence are those of its first part and, if that returns, of its second. -/
@[simp]
theorem mem_bind :
  e ∈ (x >>= f).events ↔ e ∈ x.events ∨ ∃ a, x.result = .ok a ∧ e ∈ (f a).events
  := by
  change e ∈ (Logged.bind x f).events ↔ _
  rw [Logged.bind]
  cases x.result with
  | ok a => simp
  | error s => simp

end Logged
