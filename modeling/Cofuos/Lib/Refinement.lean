import Cofuos.Lib.Machine

/-!
# Refinement of machines

A machine refines another one when each of its steps is a sequence of steps of the other one, which
may be empty: what the step shows. The states of the two machines are related, and the relation is
kept. A run of the first machine is then a run of the second, made of what its steps show. The steps
of the first machine can be restricted to those that are allowed.
-/

namespace Machine

variable {σ α ρ β : Type}

/-- Every step of the sequence is allowed in the state in which it is taken. -/
def Follows (M : Machine σ α) (allowed : σ → α → Prop) (s : σ) : List α → Prop
  | [] => True
  | a :: rest => allowed s a ∧ ∀ s', M.step s a = some s' → M.Follows allowed s' rest

/-- What the steps of a sequence show, one after the other. -/
def trace (M : Machine σ α) (visible : σ → α → List β) (s : σ) : List α → List β
  | [] => []
  | a :: rest => match M.step s a with
      | some s' => visible s a ++ M.trace visible s' rest
      | none => []

/-- The allowed steps of `C` are sequences of steps of `A`, and keep the relation. -/
def Refines (C : Machine σ α) (A : Machine ρ β) (allowed : σ → α → Prop) (visible : σ → α → List β)
    (R : σ → ρ → Prop) : Prop :=
  ∀ s a s' r, R s r → allowed s a → C.step s a = some s' →
    ∃ r', A.exec r (visible s a) = some r' ∧ R s' r'

variable {C : Machine σ α} {A : Machine ρ β} {allowed : σ → α → Prop} {visible : σ → α → List β}
  {R : σ → ρ → Prop}

theorem trace_cons {s s' : σ} {a : α} {l : List α} (h : C.step s a = some s') :
  C.trace visible s (a :: l) = visible s a ++ C.trace visible s' l
  := by
  rw [trace, h]

theorem exec_append {s s' : σ} {l l' : List α} (h : C.exec s l = some s') :
  C.exec s (l ++ l') = C.exec s' l'
  := by
  induction l generalizing s with
  | nil =>
      rw [exec, Option.some.injEq] at h
      rw [h, List.nil_append]
  | cons a rest ih =>
      rw [exec] at h
      cases hs : C.step s a with
      | none => simp only [hs, reduceCtorEq] at h
      | some t =>
          simp only [hs] at h
          rw [List.cons_append, exec_cons hs, ih h]

/-- Whether every step of a sequence passes a check in the state in which it is taken. -/
def checks (M : Machine σ α) (check : σ → α → Bool) (s : σ) : List α → Bool
  | [] => true
  | a :: rest => check s a && match M.step s a with
      | some s' => M.checks check s' rest
      | none => true

/-- Steps that pass a check are allowed. -/
theorem follows_of_checks {check : σ → α → Bool} (h : ∀ s a, check s a = true → allowed s a) {s : σ}
    {l : List α} (hl : C.checks check s l = true) :
  C.Follows allowed s l
  := by
  induction l generalizing s with
  | nil => trivial
  | cons a rest ih =>
      rw [checks, Bool.and_eq_true] at hl
      obtain ⟨ha, hrest⟩ := hl
      refine ⟨h s a ha, ?_⟩
      intro s' hs'
      rw [hs'] at hrest
      apply ih hrest

theorem follows_anyStep (C : Machine σ α) (s : σ) (l : List α) : C.Follows anyStep s l := by
  induction l generalizing s with
  | nil => trivial
  | cons a rest ih => exact ⟨trivial, fun s' _ => ih s'⟩

/-- A run of allowed steps is a run of the machine that is refined. -/
theorem Refines.exec (h : C.Refines A allowed visible R) {s s' : σ} {r : ρ} {l : List α}
    (hr : R s r) (hallowed : C.Follows allowed s l) (hl : C.exec s l = some s') :
  ∃ r', A.exec r (C.trace visible s l) = some r' ∧ R s' r'
  := by
  induction l generalizing s r with
  | nil =>
      rw [Machine.exec, Option.some.injEq] at hl
      subst hl
      exact ⟨r, rfl, hr⟩
  | cons a rest ih =>
      rw [Machine.exec] at hl
      cases hs : C.step s a with
      | none => simp only [hs, reduceCtorEq] at hl
      | some t =>
          simp only [hs] at hl
          obtain ⟨u, hu, hru⟩ := h s a t r hr hallowed.1 hs
          obtain ⟨r', hr', hrr'⟩ := ih hru (hallowed.2 t hs) hl
          refine ⟨r', ?_, hrr'⟩
          rw [trace_cons hs, exec_append hu, hr']

end Machine
