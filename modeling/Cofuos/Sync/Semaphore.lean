import Cofuos.Lib.Machine
import Cofuos.Process.Waitable

/-!
# Semaphores

A semaphore has a number of permits. A thread that waits takes one, and blocks as long as there
is none. A signal gives one back and notifies one thread on the queue, which has to try again when
it runs: the permit is not handed to it. The definitions follow `kernel/sync/semaphore.cpp`.

The number of permits is a 32-bit number. A signal adds one to it before it is bounded by the
initial number, so that the sum is 0 when the initial number is `2 ^ 32 - 1` and all are there. A
thread that is killed after it has been notified does not try again, and nobody is notified in its
place.
-/

namespace UOS

/-- A semaphore and its threads. -/
structure Semaphore (τ : Type) where
  total : ℕ
  count : ℕ
  threads : Waitable τ
  /-- How often a permit has been taken. -/
  acquired : ℕ
  /-- How often `signal` has been called. -/
  signals : ℕ

namespace Semaphore

variable {τ : Type}

/-- The constructor. -/
def new (initial : ℕ) : Semaphore τ where
  total := initial
  count := initial
  threads := Waitable.empty
  acquired := 0
  signals := 0

/-- Takes a permit. -/
def take (s : Semaphore τ) : Semaphore τ :=
  { s with count := s.count - 1, acquired := s.acquired + 1 }

/-- `semaphore::check`. -/
def check (s : Semaphore τ) : Bool × Semaphore τ :=
  if s.count ≠ 0 then (true, s.take) else (false, s)

variable [DecidableEq τ]

/-- The body of the loop of `semaphore::wait`. -/
def tryWait (s : Semaphore τ) (t : τ) : Semaphore τ :=
  if s.count ≠ 0 then s.take else { s with threads := s.threads.impWait t }

/-- `semaphore::signal`. -/
def signal (s : Semaphore τ) : Semaphore τ :=
  { s with
    count := min ((s.count + 1) % 2 ^ 32) s.total
    threads := s.threads.signalOne
    signals := s.signals + 1 }

/-- What can happen to a semaphore and its threads. -/
inductive Event (τ : Type) where
  | wait (t : τ)
  /-- A thread that has been notified tries again. -/
  | retry (t : τ)
  | check
  | signal
  | onTimer (t : τ)
  | kill (t : τ)

/-- An event, if it can happen. -/
def step (s : Semaphore τ) : Event τ → Option (Semaphore τ)
  | .wait t => if s.threads.Running t then some (s.tryWait t) else none
  | .retry t =>
      if t ∈ s.threads.woken then some (({ s with threads := s.threads.resume t }).tryWait t)
      else none
  | .check => some s.check.2
  | .signal => some s.signal
  | .onTimer t =>
      if t ∈ s.threads.waitQueue then some { s with threads := s.threads.onTimer t } else none
  | .kill t => some { s with threads := s.threads.kill t }

/-- A semaphore from its creation on. -/
def machine (τ : Type) [DecidableEq τ] (initial : ℕ) : Machine (Semaphore τ) (Event τ) where
  Start s := s = new initial
  step := step

variable {s s' : Semaphore τ}

/-! ### The number of permits -/

/-- The permits that have been taken and those that are left do not exceed those that have been
given. -/
structure Balanced (initial : ℕ) (s : Semaphore τ) : Prop where
  total : s.total = initial
  count : s.count ≤ s.total
  acquired : s.acquired + s.count ≤ initial + s.signals

omit [DecidableEq τ] in
theorem Balanced.of_threads {initial : ℕ} (h : s.Balanced initial) (w : Waitable τ) :
  Balanced initial { s with threads := w }
  := ⟨h.total, h.count, h.acquired⟩

omit [DecidableEq τ] in
theorem Balanced.take {initial : ℕ} (h : s.Balanced initial) (hne : s.count ≠ 0) :
  s.take.Balanced initial
  := by
  have hcount := h.count
  have hacquired := h.acquired
  constructor
  · apply h.total
  · change s.count - 1 ≤ s.total
    lia
  · change s.acquired + 1 + (s.count - 1) ≤ initial + s.signals
    lia

theorem Balanced.tryWait {initial : ℕ} (h : s.Balanced initial) (t : τ) :
  (s.tryWait t).Balanced initial
  := by
  rw [Semaphore.tryWait]
  split
  case isTrue hne => apply h.take hne
  case isFalse => apply h.of_threads

theorem Balanced.step {initial : ℕ} (h : s.Balanced initial) {e : Event τ}
    (hstep : s.step e = some s') :
  s'.Balanced initial
  := by
  cases e with
  | wait t =>
      rw [Semaphore.step, Option.ite_none_right_eq_some] at hstep
      cases hstep.2
      apply h.tryWait
  | retry t =>
      rw [Semaphore.step, Option.ite_none_right_eq_some] at hstep
      cases hstep.2
      apply Balanced.tryWait (h.of_threads _)
  | check =>
      cases hstep
      rw [Semaphore.check]
      split
      case isTrue hne => apply h.take hne
      case isFalse => apply h
  | signal =>
      cases hstep
      have hacquired := h.acquired
      have hmod := Nat.mod_le (s.count + 1) (2 ^ 32)
      constructor
      · apply h.total
      · apply min_le_right
      · change s.acquired + min ((s.count + 1) % 2 ^ 32) s.total ≤ initial + (s.signals + 1)
        have hmin := min_le_left ((s.count + 1) % 2 ^ 32) s.total
        lia
  | onTimer t =>
      rw [Semaphore.step, Option.ite_none_right_eq_some] at hstep
      cases hstep.2
      apply h.of_threads
  | kill t =>
      cases hstep
      apply h.of_threads

theorem balanced_of_reachable {initial : ℕ} {allowed : Semaphore τ → Event τ → Prop}
    (h : (machine τ initial).Reachable allowed s) :
  s.Balanced initial
  := by
  apply h.invariant
  · rintro s rfl
    exact ⟨rfl, le_rfl, (Nat.add_comm 0 initial).le⟩
  · intro s e s' hs _ hstep
    apply hs.step hstep

/-- Permits are conserved: there are never more than the total, a signal does not lose any, and no
more are taken than there have been. -/
structure Conserved (initial : ℕ) (s : Semaphore τ) : Prop where
  count : s.count ≤ s.total
  signal : s.count ≤ s.signal.count
  acquired : s.acquired ≤ initial + s.signals

/-- Permits are conserved in every run, unless their number is `2 ^ 32 - 1`. -/
theorem conserved_iff (τ : Type) [DecidableEq τ] (initial : ℕ) (hpos : 1 ≤ initial)
    (hlt : initial < 2 ^ 32) :
  (∀ s, (machine τ initial).Reachable Machine.anyStep s → s.Conserved initial) ↔
    initial ≠ 2 ^ 32 - 1
  := by
  constructor
  · rintro h rfl
    have hsignal := (h (new _) (.start rfl)).signal
    revert hsignal
    change ¬ 2 ^ 32 - 1 ≤ min ((2 ^ 32 - 1 + 1) % 2 ^ 32) (2 ^ 32 - 1)
    decide
  · intro hne s hs
    have hbal := balanced_of_reachable hs
    have htotal := hbal.total
    have hcount := hbal.count
    have hacquired := hbal.acquired
    constructor
    · apply hcount
    · change s.count ≤ min ((s.count + 1) % 2 ^ 32) s.total
      rw [Nat.mod_eq_of_lt (by omega)]
      apply le_min (Nat.le_succ _) hcount
    · omega

/-- The permits of a mutual exclusion are conserved while a thread has the only one and another
waits for it. -/
theorem conserved_one :
  ∃ s : Semaphore ℕ, (machine ℕ 1).Reachable Machine.anyStep s ∧ s.count = 0 ∧
    s.threads.waitQueue = [1] ∧ s.Conserved 1
  := by
  have h₀ : (machine ℕ 1).Reachable Machine.anyStep (new 1) := .start rfl
  have h₁ : (machine ℕ 1).Reachable Machine.anyStep _ := h₀.step (.wait 0) trivial rfl
  have h₂ : (machine ℕ 1).Reachable Machine.anyStep _ := h₁.step (.wait 1) trivial rfl
  have hconserved := (conserved_iff ℕ 1 (by decide) (by decide)).mpr (by decide)
  exact ⟨_, h₂, rfl, rfl, hconserved _ h₂⟩

/-- A signal takes away all permits of a semaphore that has `2 ^ 32 - 1` of them. -/
theorem signal_loses :
  ∃ s : Semaphore ℕ, (machine ℕ (2 ^ 32 - 1)).Reachable Machine.anyStep s ∧
    s.count = 2 ^ 32 - 1 ∧ s.signal.count = 0
  := by
  refine ⟨new (2 ^ 32 - 1), .start rfl, rfl, ?_⟩
  change min ((2 ^ 32 - 1 + 1) % 2 ^ 32) (2 ^ 32 - 1) = 0
  decide

/-! ### The threads on the queue -/

/-- As long as somebody is on the queue, there is a thread that has been notified for every
permit. -/
def Attended (s : Semaphore τ) : Prop :=
  s.threads.waitQueue ≠ [] → s.count ≤ s.threads.woken.length

/-- If a thread is killed after it has been notified, then nobody is on the queue, or there are
permits for the other threads that have been notified only. -/
def Spares (s : Semaphore τ) : Event τ → Prop
  | .kill t => t ∈ s.threads.woken → s.threads.waitQueue ≠ [] →
      s.count < s.threads.woken.length
  | _ => True

omit [DecidableEq τ] in
/-- A thread on the queue was there before, or there is no permit. -/
theorem Attended.take (h : s.Attended) : s.take.Attended := by
  intro hne
  have hle := h hne
  change s.count - 1 ≤ s.threads.woken.length
  lia

omit [DecidableEq τ] in
theorem attended_of_zero (h : s.count = 0) : s.Attended := by
  intro _
  rw [h]
  apply Nat.zero_le

theorem Attended.signal (h : s.Attended) : s.signal.Attended := by
  intro hne
  have hmod := Nat.mod_le (s.count + 1) (2 ^ 32)
  have hmin := min_le_left ((s.count + 1) % 2 ^ 32) s.total
  change min ((s.count + 1) % 2 ^ 32) s.total ≤
    (s.threads.woken ++ (Waitable.pick s.threads.stopped s.threads.waitQueue).1.toList).length
  change (Waitable.pick s.threads.stopped s.threads.waitQueue).2 ≠ [] at hne
  rw [Waitable.pick_waitQueue] at hne ⊢
  cases hq : s.threads.waitQueue with
  | nil =>
      rw [hq] at hne
      exact absurd rfl hne
  | cons t rest =>
      have hle : s.count ≤ s.threads.woken.length := h (by rw [hq]; simp)
      rw [List.length_append, List.head?_cons, Option.toList_some, List.length_singleton]
      lia

/-- A thread that leaves the queue does not need a permit. -/
theorem Attended.onTimer (h : s.Attended) (t : τ) :
  Attended { s with threads := s.threads.onTimer t }
  := by
  intro hne
  apply h
  rintro hnil
  apply hne
  change s.threads.waitQueue.erase t = []
  rw [hnil]
  rfl

theorem Attended.kill (h : s.Attended) {t : τ} (hspares : s.Spares (.kill t)) :
  Attended { s with threads := s.threads.kill t }
  := by
  intro hne
  have hqueue : s.threads.waitQueue ≠ [] := by
    rintro hnil
    apply hne
    change s.threads.waitQueue.erase t = []
    rw [hnil]
    rfl
  change s.count ≤ (s.threads.woken.erase t).length
  by_cases ht : t ∈ s.threads.woken
  · have hlt := hspares ht hqueue
    rw [List.length_erase_of_mem ht]
    lia
  · rw [List.erase_of_not_mem ht]
    apply h hqueue

/-- A thread that tries again takes a permit, or there is none. -/
theorem Attended.retry (h : s.Attended) {t : τ} (ht : t ∈ s.threads.woken) :
  (({ s with threads := s.threads.resume t } : Semaphore τ).tryWait t).Attended
  := by
  rw [tryWait]
  split
  case isTrue hne =>
    intro hqueue
    have hle := h hqueue
    change s.count - 1 ≤ (s.threads.woken.erase t).length
    rw [List.length_erase_of_mem ht]
    lia
  case isFalse hzero =>
    apply attended_of_zero
    apply not_not.mp hzero

theorem Attended.step (h : s.Attended) {e : Event τ} (hspares : s.Spares e)
    (hstep : s.step e = some s') :
  s'.Attended
  := by
  cases e with
  | wait t =>
      rw [Semaphore.step, Option.ite_none_right_eq_some] at hstep
      cases hstep.2
      rw [tryWait]
      split
      case isTrue => apply h.take
      case isFalse hzero =>
        apply attended_of_zero
        apply not_not.mp hzero
  | retry t =>
      rw [Semaphore.step, Option.ite_none_right_eq_some] at hstep
      cases hstep.2
      apply h.retry hstep.1
  | check =>
      cases hstep
      rw [Semaphore.check]
      split
      case isTrue => apply h.take
      case isFalse => apply h
  | signal =>
      cases hstep
      apply h.signal
  | onTimer t =>
      rw [Semaphore.step, Option.ite_none_right_eq_some] at hstep
      cases hstep.2
      apply h.onTimer
  | kill t =>
      cases hstep
      apply h.kill hspares

/-- As long as no thread is killed between its notification and its next try while others need it
to have tried, a thread is on the queue beside a permit only if a thread that has been notified
and is not stopped is still going to try. -/
theorem waiter_attended (τ : Type) [DecidableEq τ] (initial : ℕ) {s : Semaphore τ}
    (h : (machine τ initial).Reachable Spares s) (hcount : 0 < s.count)
    (hqueue : s.threads.waitQueue ≠ []) :
  ∃ t ∈ s.threads.woken, t ∉ s.threads.stopped
  := by
  have hinv : s.Attended := by
    apply h.invariant
    · rintro s rfl hne
      exact absurd rfl hne
    · intro s e s' hs hspares hstep
      apply hs.step hspares hstep
  have hlt := lt_of_lt_of_le hcount (hinv hqueue)
  obtain ⟨t, ht⟩ := List.exists_mem_of_length_pos hlt
  exact ⟨t, ht, s.threads.not_stopped_of_woken ht⟩

/-- Two threads are on the queue when a permit is given back. -/
theorem waiter_attended_two :
  ∃ s : Semaphore ℕ, (machine ℕ 1).Reachable Spares s ∧ s.count = 1 ∧
    s.threads.waitQueue = [2] ∧ ∃ t ∈ s.threads.woken, t ∉ s.threads.stopped
  := by
  have h₀ : (machine ℕ 1).Reachable Spares (new 1) := .start rfl
  have h₁ : (machine ℕ 1).Reachable Spares _ := h₀.step (.wait 0) trivial rfl
  have h₂ : (machine ℕ 1).Reachable Spares _ := h₁.step (.wait 1) trivial rfl
  have h₃ : (machine ℕ 1).Reachable Spares _ := h₂.step (.wait 2) trivial rfl
  have h₄ : (machine ℕ 1).Reachable Spares _ := h₃.step .signal trivial rfl
  exact ⟨_, h₄, rfl, rfl, waiter_attended ℕ 1 h₄ (by decide) (by decide)⟩

/-- A thread is killed after it has been notified. The permit that it would have taken is there,
another thread is on the queue, and nobody is going to try. -/
theorem waiter_stranded :
  ∃ s : Semaphore ℕ, (machine ℕ 1).Reachable Machine.anyStep s ∧ 0 < s.count ∧
    s.threads.waitQueue ≠ [] ∧ ¬ ∃ t ∈ s.threads.woken, t ∉ s.threads.stopped
  := by
  have h₀ : (machine ℕ 1).Reachable Machine.anyStep (new 1) := .start rfl
  obtain ⟨s, hs⟩ : ∃ s, (machine ℕ 1).exec (new 1)
      [.wait 0, .wait 1, .wait 2, .signal, .kill 1] = some s := ⟨_, rfl⟩
  refine ⟨s, h₀.exec hs fun _ _ _ => trivial, ?_⟩
  cases hs
  decide

end Semaphore

end UOS
