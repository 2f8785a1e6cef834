import Mathlib.Tactic

/-!
# Machines

A machine starts in some states and takes labelled steps. A step that is not possible in a state
has no result. Among the runs of a machine we single out those whose steps are all allowed, where
whether a step is allowed may depend on the state it is taken in. What holds at the start and is
kept by the allowed steps holds in every state that is reached.
-/

/-- A machine with states `σ` and labels `α`. -/
structure Machine (σ α : Type) where
  /-- The states it starts in. -/
  Start : σ → Prop
  /-- The state after a step, if the step is possible. -/
  step : σ → α → Option σ

namespace Machine

variable {σ α : Type}

/-- The states that are reached by steps that are allowed. -/
inductive Reachable (M : Machine σ α) (allowed : σ → α → Prop) : σ → Prop
  | start {s : σ} : M.Start s → Reachable M allowed s
  | step {s s' : σ} (a : α) : Reachable M allowed s → allowed s a → M.step s a = some s' →
      Reachable M allowed s'

/-- Every step is allowed. -/
def anyStep (_ : σ) (_ : α) : Prop := True

/-- The state after a sequence of steps, if they are possible. -/
def exec (M : Machine σ α) (s : σ) : List α → Option σ
  | [] => some s
  | a :: rest => match M.step s a with
      | some s' => M.exec s' rest
      | none => none

variable {M : Machine σ α} {allowed : σ → α → Prop} {s s' : σ}

theorem exec_cons {a : α} {l : List α} (h : M.step s a = some s') : M.exec s (a :: l) = M.exec s' l := by
  rw [Machine.exec, h]

theorem exec_singleton (M : Machine σ α) (s : σ) (a : α) : M.exec s [a] = M.step s a := by
  rw [Machine.exec]
  cases M.step s a with
  | none => rfl
  | some s' => rfl

/-- What holds at the start and is kept by allowed steps holds in every state reached. -/
theorem Reachable.invariant {P : σ → Prop} (hstart : ∀ s, M.Start s → P s)
    (hstep : ∀ s a s', P s → allowed s a → M.step s a = some s' → P s')
    (h : M.Reachable allowed s) :
  P s
  := by
  induction h with
  | start hs => apply hstart _ hs
  | step a _ ha hs ih => apply hstep _ a _ ih ha hs

/-- A sequence of steps that are always allowed leads from a reachable state to a reachable state. -/
theorem Reachable.exec (h : M.Reachable allowed s) {l : List α} (hl : M.exec s l = some s')
    (ha : ∀ a ∈ l, ∀ s, allowed s a) :
  M.Reachable allowed s'
  := by
  induction l generalizing s with
  | nil =>
      rw [Machine.exec, Option.some.injEq] at hl
      subst hl
      apply h
  | cons a rest ih =>
      rw [Machine.exec] at hl
      cases hs : M.step s a with
      | none => simp only [hs, reduceCtorEq] at hl
      | some t =>
          simp only [hs] at hl
          apply ih (h.step a (ha a List.mem_cons_self s) hs) hl
          intro b hb
          apply ha b (List.mem_cons_of_mem a hb)

end Machine
