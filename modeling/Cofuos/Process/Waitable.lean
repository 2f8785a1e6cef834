import Mathlib.Tactic

/-!
# Waitable objects

A thread that waits for an object is on the queue of the object until it is notified, until its
timeout is over, or until it is killed. A thread that has been notified is ready, but it does not
go on before the scheduler picks it, and it may be killed in the meantime. The definitions follow
`kernel/process/waitable.cpp` and `thread::kill` of `kernel/process/thread.cpp`. Which of the ready
threads runs is up to the scheduler, so that no difference is made between `READY` and `RUNNING`.

Only one core is ever started. What a thread does between disabling and enabling interrupts is one
step.
-/

namespace UOS

/-- A waitable object and the threads that it concerns. All other threads are running, or are busy
elsewhere. -/
structure Waitable (τ : Type) where
  /-- The threads that are waiting, in the order of their arrival. -/
  waitQueue : List τ
  /-- The threads that have been notified and have not returned from `imp_wait` yet. -/
  woken : List τ
  /-- The threads that are `STOPPED`. -/
  stopped : List τ
  /-- A thread is at one place. -/
  nodup : (waitQueue ++ (woken ++ stopped)).Nodup

namespace Waitable

variable {τ : Type}

/-- Nobody waits and nobody has been killed. -/
def empty : Waitable τ where
  waitQueue := []
  woken := []
  stopped := []
  nodup := List.nodup_nil

variable (w : Waitable τ)

/-- The thread is running: it can make calls. -/
def Running (t : τ) : Prop := t ∉ w.waitQueue ++ (w.woken ++ w.stopped)

/-- A thread that has been notified is not stopped. -/
theorem not_stopped_of_woken {t : τ} (h : t ∈ w.woken) :
  t ∉ w.stopped
  := by
  have hnodup := w.nodup
  rw [List.nodup_append, List.nodup_append] at hnodup
  intro hs
  apply hnodup.2.1.2.2 t h t hs rfl

variable [DecidableEq τ]

instance (t : τ) : Decidable (w.Running t) := inferInstanceAs (Decidable (_ ∉ _))

/-- A thread waits. It is put on the queue unless it has been stopped. -/
def impWait (t : τ) : Waitable τ where
  waitQueue := if w.Running t then w.waitQueue ++ [t] else w.waitQueue
  woken := w.woken
  stopped := w.stopped
  nodup := by
    by_cases h : w.Running t
    · rw [if_pos h, List.append_assoc, List.singleton_append, List.nodup_middle]
      exact List.nodup_cons.mpr ⟨h, w.nodup⟩
    · rw [if_neg h]
      apply w.nodup

/-- All threads on the queue are notified. -/
def notify : Waitable τ where
  waitQueue := []
  woken := w.woken ++ w.waitQueue
  stopped := w.stopped
  nodup := by
    apply List.Perm.nodup _ w.nodup
    rw [List.perm_iff_count]
    intro t
    simp only [List.count_append, List.count_nil]
    omega

/-- Takes threads off the queue until one of them can be notified. -/
def pick (stopped : List τ) : List τ → Option τ × List τ
  | [] => (none, [])
  | t :: rest => if t ∈ stopped then pick stopped rest else (some t, rest)

theorem pick_sublist (stopped queue : List τ) :
  ((pick stopped queue).1.toList ++ (pick stopped queue).2).Sublist queue
  := by
  induction queue with
  | nil => apply List.Sublist.slnil
  | cons t rest ih =>
      rw [pick]
      split
      · apply ih.cons
      · apply List.Sublist.refl

/-- A thread on the queue is not stopped, so that the first one is picked. -/
theorem pick_waitQueue :
  pick w.stopped w.waitQueue = (w.waitQueue.head?, w.waitQueue.tail)
  := by
  have hnodup := w.nodup
  cases hq : w.waitQueue with
  | nil => rfl
  | cons t rest =>
      rw [hq, List.cons_append, List.nodup_cons, List.mem_append, List.mem_append] at hnodup
      rw [pick, if_neg (by tauto)]
      rfl

/-- The loop of `event::signal_one` and of `semaphore::signal`: a thread on the queue is notified,
if there is one. -/
def signalOne : Waitable τ where
  waitQueue := (pick w.stopped w.waitQueue).2
  woken := w.woken ++ (pick w.stopped w.waitQueue).1.toList
  stopped := w.stopped
  nodup := by
    have hsub := (pick_sublist w.stopped w.waitQueue).append_right (w.woken ++ w.stopped)
    apply List.Perm.nodup _ (hsub.nodup w.nodup)
    rw [List.perm_iff_count]
    intro t
    simp only [List.count_append]
    omega

/-- A thread that has been notified returns from `imp_wait`. -/
def resume (t : τ) : Waitable τ where
  waitQueue := w.waitQueue
  woken := w.woken.erase t
  stopped := w.stopped
  nodup := w.nodup.sublist (((List.erase_sublist).append_right _).append_left _)

/-- The timeout of a thread is over. -/
def onTimer (t : τ) : Waitable τ where
  waitQueue := w.waitQueue.erase t
  woken := w.woken
  stopped := w.stopped
  nodup := w.nodup.sublist ((List.erase_sublist).append_right _)

/-- `thread::kill` of a thread that is not in a critical section. -/
def kill (t : τ) : Waitable τ where
  waitQueue := w.waitQueue.erase t
  woken := w.woken.erase t
  stopped := t :: w.stopped.erase t
  nodup := by
    have hnodup := w.nodup
    rw [List.nodup_append, List.nodup_append] at hnodup
    obtain ⟨hqueue, ⟨hwoken, hstopped, _⟩, _⟩ := hnodup
    rw [← List.append_assoc, List.nodup_middle, List.nodup_cons, List.append_assoc]
    constructor
    · rw [List.mem_append, List.mem_append]
      rintro (h | h | h)
      · apply hqueue.not_mem_erase h
      · apply hwoken.not_mem_erase h
      · apply hstopped.not_mem_erase h
    · apply List.Nodup.sublist _ w.nodup
      apply List.erase_sublist.append
      apply List.erase_sublist.append List.erase_sublist

end Waitable

end UOS
