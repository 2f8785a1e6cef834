import Cofuos.Lib.Machine
import Cofuos.Process.Waitable

/-!
# Events

An event is signalled or not. A thread that waits for an event that is signalled goes on, and the
others are on its queue. The definitions follow `kernel/sync/event.cpp`.

A thread reads the state before it takes the lock of the event, and does not read it again when it
has the lock. It may be preempted between the two.
-/

namespace UOS

/-- An event and its threads. -/
structure Event (τ : Type) where
  /-- The event is signalled if this is not 0. -/
  state : ℕ
  threads : Waitable τ
  /-- The threads that have read a state of 0 and have not taken the lock yet. -/
  entering : List τ

namespace Event

variable {τ : Type}

/-- The constructor. -/
def new (initialState : Bool) : Event τ where
  state := if initialState then 1 else 0
  threads := Waitable.empty
  entering := []

/-- `event::check`. -/
def check (s : Event τ) : Bool := s.state != 0

variable [DecidableEq τ]

/-- `event::wait` up to the lock: the thread returns at once if the event is signalled. -/
def wait (s : Event τ) (t : τ) : Event τ :=
  if s.check then s else { s with entering := t :: s.entering }

/-- `event::wait` from the lock on. -/
def enter (s : Event τ) (t : τ) : Event τ :=
  { s with threads := s.threads.impWait t, entering := s.entering.erase t }

def signalOne (s : Event τ) : Event τ := { s with threads := s.threads.signalOne }

def signalAll (s : Event τ) : Event τ := { s with state := 1, threads := s.threads.notify }

def reset (s : Event τ) : Event τ := { s with state := 0 }

/-- What threads do with an event, and what happens to them. -/
inductive Action (τ : Type) where
  | wait (t : τ)
  | enter (t : τ)
  /-- A thread that has been notified goes on. -/
  | resume (t : τ)
  | signalOne
  | signalAll
  | reset
  | onTimer (t : τ)
  | kill (t : τ)

/-- An action, if it is possible. -/
def step (s : Event τ) : Action τ → Option (Event τ)
  | .wait t => if s.threads.Running t ∧ t ∉ s.entering then some (s.wait t) else none
  | .enter t => if t ∈ s.entering then some (s.enter t) else none
  | .resume t =>
      if t ∈ s.threads.woken then some { s with threads := s.threads.resume t } else none
  | .signalOne => some s.signalOne
  | .signalAll => some s.signalAll
  | .reset => some s.reset
  | .onTimer t =>
      if t ∈ s.threads.waitQueue then some { s with threads := s.threads.onTimer t } else none
  | .kill t =>
      some { s with threads := s.threads.kill t, entering := s.entering.erase t }

/-- An event from its creation on. -/
def machine (τ : Type) [DecidableEq τ] : Machine (Event τ) (Action τ) where
  Start s := ∃ initialState, s = new initialState
  step := step

/-- Nobody waits for an event that is signalled. -/
def Clear (s : Event τ) : Prop := s.state ≠ 0 → s.threads.waitQueue = []

/-- A thread that takes the lock in order to wait finds the event as it has read it. -/
def Timely (s : Event τ) : Action τ → Prop
  | .enter _ => s.state = 0
  | _ => True

variable {s s' : Event τ}

omit [DecidableEq τ] in
/-- Threads that leave the queue do not matter. -/
theorem Clear.of_sublist (h : s.Clear) {w : Waitable τ} {entering : List τ}
    (hw : w.waitQueue.Sublist s.threads.waitQueue) :
  Clear { s with threads := w, entering := entering }
  := by
  intro hne
  have hnil := h hne
  rw [hnil] at hw
  apply List.sublist_nil.mp hw

/-- Every action that is timely keeps the queue of a signalled event empty. -/
theorem Clear.step (h : s.Clear) {a : Action τ} (htimely : s.Timely a)
    (hstep : s.step a = some s') :
  s'.Clear
  := by
  cases a with
  | wait t =>
      rw [Event.step, Option.ite_none_right_eq_some] at hstep
      cases hstep.2
      rw [Event.wait]
      split
      · apply h
      · apply h
  | enter t =>
      rw [Event.step, Option.ite_none_right_eq_some] at hstep
      cases hstep.2
      intro hne
      apply absurd htimely hne
  | resume t =>
      rw [Event.step, Option.ite_none_right_eq_some] at hstep
      cases hstep.2
      apply h.of_sublist (List.Sublist.refl _)
  | signalOne =>
      cases hstep
      apply h.of_sublist
      apply List.Sublist.trans _ (Waitable.pick_sublist s.threads.stopped s.threads.waitQueue)
      apply List.sublist_append_right
  | signalAll =>
      cases hstep
      intro _
      rfl
  | reset =>
      cases hstep
      intro hne
      apply absurd rfl hne
  | onTimer t =>
      rw [Event.step, Option.ite_none_right_eq_some] at hstep
      cases hstep.2
      apply h.of_sublist List.erase_sublist
  | kill t =>
      cases hstep
      apply h.of_sublist List.erase_sublist

/-- As long as no thread begins to wait for an event that has been signalled since it has looked,
nobody waits for a signalled event. -/
theorem queue_empty_of_signalled (τ : Type) [DecidableEq τ] {s : Event τ}
    (h : (machine τ).Reachable Timely s) (hstate : s.state ≠ 0) :
  s.threads.waitQueue = []
  := by
  have hclear : s.Clear := by
    apply h.invariant
    · rintro s ⟨initialState, rfl⟩ _
      rfl
    · intro s a s' hs htimely hstep
      apply hs.step htimely hstep
  apply hclear hstate

/-- Two threads wait, and both are notified. -/
theorem queue_empty_two :
  ∃ s : Event ℕ, (machine ℕ).Reachable Timely s ∧ s.state = 1 ∧ s.threads.woken = [0, 1] ∧
    s.threads.waitQueue = []
  := by
  have h₀ : (machine ℕ).Reachable Timely (new false) := .start ⟨false, rfl⟩
  have h₁ : (machine ℕ).Reachable Timely _ := h₀.step (.wait 0) trivial rfl
  have h₂ : (machine ℕ).Reachable Timely _ := h₁.step (.wait 1) trivial rfl
  have h₃ : (machine ℕ).Reachable Timely _ := h₂.step (.enter 0) (by rfl) rfl
  have h₄ : (machine ℕ).Reachable Timely _ := h₃.step (.enter 1) (by rfl) rfl
  have h₅ : (machine ℕ).Reachable Timely _ := h₄.step .signalAll trivial rfl
  exact ⟨_, h₅, rfl, rfl, queue_empty_of_signalled ℕ h₅ (by decide)⟩

/-- A thread reads the state, the event is signalled, and the thread waits for it. -/
theorem sleeps_through_signal :
  ∃ s : Event ℕ, (machine ℕ).Reachable Machine.anyStep s ∧ s.state ≠ 0 ∧
    s.threads.waitQueue ≠ []
  := by
  have h₀ : (machine ℕ).Reachable Machine.anyStep (new false) := .start ⟨false, rfl⟩
  obtain ⟨s, hs⟩ : ∃ s, (machine ℕ).exec (new false) [.wait 0, .signalAll, .enter 0] = some s :=
    ⟨_, rfl⟩
  refine ⟨s, h₀.exec hs fun _ _ _ => trivial, ?_⟩
  cases hs
  decide

end Event

end UOS
