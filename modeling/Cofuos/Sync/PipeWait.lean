import Cofuos.Lib.Machine
import Cofuos.Process.Waitable
import Cofuos.Sync.Pipe

/-!
# Waiting for a pipe

A thread of the reading side waits while the pipe is empty, and one of the writing side while it is
full. Both are on the same queue. A transfer notifies all of them, but only if it moves a byte and
has found the pipe full, for a read, or empty, for a write. The definitions follow `pipe::wait` and
the ends of `pipe::read` and `pipe::write` in `kernel/sync/pipe.cpp`.
-/

namespace UOS

/-- A pipe and the threads that use it. -/
structure PipeWait (τ : Type) where
  pipe : Pipe
  threads : Waitable τ

namespace PipeWait

variable {τ : Type}

/-- What can happen to a pipe and its threads. Interrupts transfer bytes too, but do not wait. A
thread in a critical section is only marked when it is killed, which changes nothing here. -/
inductive Event (τ : Type) where
  | wait (t : τ)
  /-- A thread that has been notified goes on. -/
  | resume (t : τ)
  | read (t : τ) (length : ℕ)
  | write (t : τ) (sor : List (BitVec 8))
  | irqRead (length : ℕ)
  | irqWrite (sor : List (BitVec 8))
  | onTimer (t : τ)
  | kill (t : τ)

variable [DecidableEq τ] (process : τ → ℕ)

/-- A call from a thread. -/
def caller (t : τ) : Caller := ⟨process t, false⟩

/-- A call from an interrupt, in whichever process. -/
def irqCaller : Caller := ⟨0, true⟩

/-- `pipe::wait`, when it is called and until it returns or the thread is blocked. -/
def wait (s : PipeWait τ) (t : τ) : PipeWait τ :=
  if s.pipe.check (caller process t) then s else { s with threads := s.threads.impWait t }

/-- `pipe::read` with its notification. -/
def read (s : PipeWait τ) (c : Caller) (length : ℕ) : PipeWait τ :=
  let (_, notified, p) := s.pipe.read c length
  { pipe := p, threads := if notified then s.threads.notify else s.threads }

/-- `pipe::write` with its notification. -/
def write (s : PipeWait τ) (c : Caller) (sor : List (BitVec 8)) : PipeWait τ :=
  let (_, notified, p) := s.pipe.write c sor
  { pipe := p, threads := if notified then s.threads.notify else s.threads }

/-- An event, if it can happen. -/
def step (s : PipeWait τ) : Event τ → Option (PipeWait τ)
  | .wait t => if s.threads.Running t then some (s.wait process t) else none
  | .resume t =>
      if t ∈ s.threads.woken then some { s with threads := s.threads.resume t } else none
  | .read t length =>
      if s.threads.Running t then some (s.read (caller process t) length) else none
  | .write t sor =>
      if s.threads.Running t then some (s.write (caller process t) sor) else none
  | .irqRead length => some (s.read irqCaller length)
  | .irqWrite sor => some (s.write irqCaller sor)
  | .onTimer t =>
      if t ∈ s.threads.waitQueue then some { s with threads := s.threads.onTimer t } else none
  | .kill t => some { s with threads := s.threads.kill t }

/-- A pipe, from its creation on, and its threads, each of which belongs to a process. -/
def machine : Machine (PipeWait τ) (Event τ) where
  Start s := s.threads = Waitable.empty ∧
    ∃ owner size mode buffer hpos hle, s.pipe = Pipe.new owner size mode buffer hpos hle
  step := step process

/-- Every thread on the queue still has to wait. -/
def Justified (s : PipeWait τ) : Prop :=
  ∀ t ∈ s.threads.waitQueue, s.pipe.check (caller process t) = false

variable {process} {s s' : PipeWait τ}

/-- Whether a thread has to wait depends on the number of bytes in the pipe only. -/
theorem check_congr {p p' : Pipe} (h : Pipe.Same p p') (hsize : p'.size = p.size) (c : Caller) :
  p'.check c = p.check c
  := by
  have hempty : p'.isEmpty = p.isEmpty := by
    rw [Bool.eq_iff_iff, Pipe.isEmpty_iff, Pipe.isEmpty_iff, hsize]
  have hfull : p'.isFull = p.isFull := by
    rw [Bool.eq_iff_iff, Pipe.isFull_iff, Pipe.isFull_iff, RingBuffer.room, RingBuffer.room, hsize,
      h.limit]
  rw [Pipe.check, Pipe.check, h.isWriter, hempty, hfull]

/-- A transfer that changes the number of bytes has found nobody of its own side on the queue, and
notifies those of the other side. -/
theorem Justified.transfer (h : s.Justified process) {p : Pipe} (hsame : Pipe.Same s.pipe p)
    {notified : Bool}
    (hkeep : ∀ t ∈ s.threads.waitQueue, notified = false → p.size = s.pipe.size) :
  Justified process ⟨p, if notified then s.threads.notify else s.threads⟩
  := by
  intro t ht
  cases hn : notified with
  | true =>
      rw [hn, if_pos rfl] at ht
      simp [Waitable.notify] at ht
  | false =>
      rw [hn, if_neg Bool.false_ne_true] at ht
      rw [check_congr hsame (hkeep t ht hn)]
      apply h t ht

omit [DecidableEq τ] in
/-- A thread on the queue waits for bytes or for room. -/
theorem Justified.cases (h : s.Justified process) {t : τ} (ht : t ∈ s.threads.waitQueue) :
  (s.pipe.isWriter (caller process t) = false ∧ s.pipe.isEmpty = true) ∨
    (s.pipe.isWriter (caller process t) = true ∧ s.pipe.isFull = true)
  := by
  have hcheck := h t ht
  rw [Pipe.check] at hcheck
  cases hw : s.pipe.isWriter (caller process t) with
  | true => simpa [hw] using hcheck
  | false => simpa [hw] using hcheck

theorem Justified.read (h : s.Justified process) (c : Caller) (n : ℕ) :
  (s.read c n).Justified process
  := by
  apply h.transfer (s.pipe.read_same c n)
  intro t ht hquiet
  have hsum := congrArg List.length (s.pipe.read_contents c n)
  rw [List.length_append, RingBuffer.length_contents, RingBuffer.length_contents] at hsum
  rcases s.pipe.read_quiet hquiet with hnone | hfull
  · lia
  · -- nobody waits for room, so that there is nothing to read
    rcases h.cases ht with ⟨_, hempty⟩ | ⟨_, hfull'⟩
    · have := s.pipe.isEmpty_iff.mp hempty
      lia
    · rw [hfull] at hfull'
      cases hfull'

theorem Justified.write (h : s.Justified process) (c : Caller) (sor : List (BitVec 8)) :
  (s.write c sor).Justified process
  := by
  apply h.transfer (s.pipe.write_same c sor)
  intro t ht hquiet
  have hsum := congrArg List.length (s.pipe.write_contents c sor)
  rw [List.length_append, RingBuffer.length_contents, RingBuffer.length_contents,
    List.length_take] at hsum
  rcases s.pipe.write_quiet hquiet with hnone | hempty
  · lia
  · -- nobody waits for bytes, so that there is no room
    rcases h.cases ht with ⟨_, hempty'⟩ | ⟨_, hfull⟩
    · rw [hempty] at hempty'
      cases hempty'
    · have := s.pipe.isFull_iff.mp hfull
      have := s.pipe.size_add_room
      have hlt := RingBuffer.size_lt (s.pipe.write c sor).2.2.toRingBuffer
      rw [(s.pipe.write_same c sor).limit] at hlt
      lia

/-- A thread waits only if it has to. -/
theorem Justified.wait (h : s.Justified process) (t : τ) :
  (s.wait process t).Justified process
  := by
  rw [PipeWait.wait]
  split
  case isTrue => apply h
  case isFalse hcheck =>
    intro u hu
    simp only [Waitable.impWait] at hu
    split at hu
    · rw [List.mem_append, List.mem_singleton] at hu
      rcases hu with hu | rfl
      · apply h u hu
      · apply Bool.eq_false_iff.mpr hcheck
    · apply h u hu

omit [DecidableEq τ] in
/-- Threads that leave the queue do not matter. -/
theorem Justified.of_sublist (h : s.Justified process) {w : Waitable τ}
    (hw : w.waitQueue.Sublist s.threads.waitQueue) :
  Justified process { s with threads := w }
  := by
  intro t ht
  apply h t (hw.subset ht)

theorem Justified.step (h : s.Justified process) {e : Event τ}
    (hstep : s.step process e = some s') :
  s'.Justified process
  := by
  cases e with
  | wait t =>
      rw [PipeWait.step, Option.ite_none_right_eq_some] at hstep
      cases hstep.2
      apply h.wait
  | resume t =>
      rw [PipeWait.step, Option.ite_none_right_eq_some] at hstep
      cases hstep.2
      apply h.of_sublist (List.Sublist.refl _)
  | read t n =>
      rw [PipeWait.step, Option.ite_none_right_eq_some] at hstep
      cases hstep.2
      apply h.read
  | write t sor =>
      rw [PipeWait.step, Option.ite_none_right_eq_some] at hstep
      cases hstep.2
      apply h.write
  | irqRead n =>
      cases hstep
      apply h.read
  | irqWrite sor =>
      cases hstep
      apply h.write
  | onTimer t =>
      rw [PipeWait.step, Option.ite_none_right_eq_some] at hstep
      cases hstep.2
      apply h.of_sublist List.erase_sublist
  | kill t =>
      cases hstep
      apply h.of_sublist List.erase_sublist

/-- In every state, a thread of the reading side is on the queue only if the pipe is empty, and a
thread of the writing side only if it is full. -/
theorem waits_justified (process : τ → ℕ) {s : PipeWait τ}
    (h : (machine process).Reachable Machine.anyStep s) {t : τ} (ht : t ∈ s.threads.waitQueue) :
  (s.pipe.isWriter (caller process t) = false → s.pipe.isEmpty = true) ∧
    (s.pipe.isWriter (caller process t) = true → s.pipe.isFull = true)
  := by
  have hinv : s.Justified process := by
    apply h.invariant
    · rintro s ⟨hthreads, _⟩ t ht
      rw [hthreads] at ht
      cases ht
    · intro s e s' hs _ hstep
      apply hs.step hstep
  rcases hinv.cases ht with ⟨hw, hempty⟩ | ⟨hw, hfull⟩
  · simp [hw, hempty]
  · simp [hw, hfull]

/-- A thread of the owner waits for a new pipe, reads the byte that another thread has written, and waits
again. -/
theorem waits_justified_again :
  ∃ s : PipeWait ℕ, (machine id).Reachable Machine.anyStep s ∧ s.threads.waitQueue = [1] ∧
    s.pipe.head = 1 ∧ s.pipe.isEmpty = true
  := by
  obtain ⟨s₀, hs₀⟩ : ∃ s : PipeWait ℕ,
    s = ⟨Pipe.new 1 16 0 (fun _ => 0) (by decide) (by decide), Waitable.empty⟩ := ⟨_, rfl⟩
  have hstart : (machine id).Reachable Machine.anyStep s₀ := by
    rw [hs₀]
    exact .start ⟨rfl, 1, 16, 0, fun _ => 0, by decide, by decide, rfl⟩
  have hexec : ∃ s : PipeWait ℕ, (machine id).exec s₀ [.wait 1, .write 2 [7], .resume 1, .read 1 1,
      .wait 1] = some s ∧ s.threads.waitQueue = [1] ∧ s.pipe.head = 1 ∧
      s.pipe.isWriter (caller id 1) = false := by
    rw [hs₀]
    exact ⟨_, rfl, rfl, rfl, rfl⟩
  obtain ⟨s, hs, hqueue, hhead, hreader⟩ := hexec
  have hreachable := hstart.exec hs fun _ _ _ => trivial
  refine ⟨s, hreachable, hqueue, hhead, ?_⟩
  apply (waits_justified id hreachable (t := 1) (by rw [hqueue]; simp)).1 hreader

end PipeWait

end UOS
