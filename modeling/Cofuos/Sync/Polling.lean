import Cofuos.FileSystem.Completion
import Cofuos.Process.Spawn
import Cofuos.Sync.Event
import Cofuos.Sync.PipeWait
import Cofuos.Sync.Semaphore

/-!
# Polling and waiting

A handle denotes a thread, a process, an event, a semaphore, a pipe or a file. Each of these can be
waited for, by `wait`, and asked whether one would have to wait, by `check`. The header of
`kernel/process/include/waitable.hpp` says that `check` returns true if the object is signalled,
that is, if `wait` returns `PASSED`. The definitions follow the six implementations of the two
functions. Nothing happens between the beginning of a call and the moment at which it returns or
blocks.
-/

namespace UOS

/-- How a call of `wait` goes. -/
inductive WaitResult where
  /-- It returns `PASSED` at once. -/
  | passed
  /-- The thread is blocked. -/
  | blocked
  /-- A thread waits for itself, which is a `bugcheck`. -/
  | bugcheck
  deriving DecidableEq, Repr

/-- An object that a handle denotes. -/
inductive Handled (τ : Type) where
  | thread (self : τ) (state : ThreadState) (threads : Waitable τ)
  | process (state : ProcessState) (threads : Waitable τ)
  | event (e : Event τ)
  | semaphore (s : Semaphore τ)
  | pipe (p : PipeWait τ)
  | file (f : File.Handle) (threads : Waitable τ)

namespace Handled

variable {τ : Type} [DecidableEq τ] (processOf : τ → ℕ)

/-- `check`, when it is called by a thread: its result and the object afterwards. -/
def check (t : τ) : Handled τ → Bool × Handled τ
  | .thread self state threads => (state == .stopped, .thread self state threads)
  | .process state threads => (state == .stopped, .process state threads)
  | .event e => (e.check, .event e)
  | .semaphore s => (s.check.1, .semaphore s.check.2)
  | .pipe p => (p.pipe.check (PipeWait.caller processOf t), .pipe p)
  | .file f threads => (f.command != .none, .file f threads)

/-- `wait`, when it is called by a thread, until it returns or blocks. -/
def wait (t : τ) : Handled τ → WaitResult × Handled τ
  | .thread self state threads =>
      if state = .stopped then (.passed, .thread self state threads)
      else if self = t then (.bugcheck, .thread self state threads)
      else (.blocked, .thread self state (threads.impWait t))
  | .process state threads =>
      if state = .stopped then (.passed, .process state threads)
      else (.blocked, .process state (threads.impWait t))
  | .event e =>
      if e.state ≠ 0 then (.passed, .event e) else (.blocked, .event ((e.wait t).enter t))
  | .semaphore s => (if s.count ≠ 0 then .passed else .blocked, .semaphore (s.tryWait t))
  | .pipe p =>
      (if p.pipe.check (PipeWait.caller processOf t) then .passed else .blocked,
        .pipe (p.wait processOf t))
  | .file f threads =>
      if f.command = .none then (.passed, .file f threads)
      else (.blocked, .file f (threads.impWait t))

/-- The object without its queue. -/
def state : Handled τ → Handled τ
  | .thread self state _ => .thread self state Waitable.empty
  | .process state _ => .process state Waitable.empty
  | .event e => .event { e with threads := Waitable.empty }
  | .semaphore s => .semaphore { s with threads := Waitable.empty }
  | .pipe p => .pipe { p with threads := Waitable.empty }
  | .file f _ => .file f Waitable.empty

/-- `check` returns true exactly if `wait` returns `PASSED` at once, and both leave the object in
the same state. -/
def Agrees (t : τ) (o : Handled τ) : Prop :=
  ((check processOf t o).1 = true ↔ (wait processOf t o).1 = .passed) ∧
    (check processOf t o).2.state = (wait processOf t o).2.state

/-- The object is a file. -/
def isFile : Handled τ → Bool
  | .file _ _ => true
  | _ => false

/-! ### The six kinds of objects -/

variable {processOf} {t : τ}

theorem agrees_thread (self : τ) (state : ThreadState) (threads : Waitable τ) :
  Agrees processOf t (.thread self state threads)
  := by
  rw [Agrees, check, wait]
  by_cases h : state = .stopped
  · simp [h, Handled.state]
  · by_cases hself : self = t
    · simp [h, hself, Handled.state]
    · simp [h, hself, Handled.state]

theorem agrees_process (state : ProcessState) (threads : Waitable τ) :
  Agrees processOf t (.process state threads)
  := by
  rw [Agrees, check, wait]
  by_cases h : state = .stopped
  · simp [h, Handled.state]
  · simp [h, Handled.state]

theorem agrees_event (e : Event τ) :
  Agrees processOf t (.event e)
  := by
  rw [Agrees, check, wait, Event.check]
  by_cases h : e.state = 0
  · simp [h, Handled.state, Event.wait, Event.check, Event.enter]
  · simp [h]

/-- Both take a permit. -/
theorem agrees_semaphore (s : Semaphore τ) :
  Agrees processOf t (.semaphore s)
  := by
  rw [Agrees, check, wait, Semaphore.check, Semaphore.tryWait]
  by_cases h : s.count = 0
  · simp [h, Handled.state]
  · simp [h]

theorem agrees_pipe (p : PipeWait τ) :
  Agrees processOf t (.pipe p)
  := by
  rw [Agrees, check, wait, PipeWait.wait]
  by_cases h : p.pipe.check (PipeWait.caller processOf t) = true
  · simp [h]
  · simp [h, Handled.state]

/-- A file is reported as signalled while it has a request, and is waited for just then. -/
theorem not_agrees_file (f : File.Handle) (threads : Waitable τ) :
  ¬ Agrees processOf t (.file f threads)
  := by
  rw [Agrees, check, wait]
  by_cases h : f.command = .none
  · simp [h]
  · simp [h]

/-- Polling agrees with waiting for all objects but files. -/
theorem polling_agrees_iff (processOf : τ → ℕ) (t : τ) (o : Handled τ) :
  Agrees processOf t o ↔ o.isFile = false
  := by
  cases o with
  | thread self state threads => exact iff_of_true (agrees_thread self state threads) rfl
  | process state threads => exact iff_of_true (agrees_process state threads) rfl
  | event e => exact iff_of_true (agrees_event e) rfl
  | semaphore s => exact iff_of_true (agrees_semaphore s) rfl
  | pipe p => exact iff_of_true (agrees_pipe p) rfl
  | file f threads => exact iff_of_false (not_agrees_file f threads) (by simp [isFile])

/-- A file without a request is not reported as signalled, and is not waited for. -/
theorem idle_file_disagrees :
  ∃ o : Handled ℕ, o = .file { isFolder := false } Waitable.empty ∧
    (check id 0 o).1 = false ∧ (wait id 0 o).1 = .passed
  := ⟨_, rfl, rfl, rfl⟩

end Handled

end UOS
