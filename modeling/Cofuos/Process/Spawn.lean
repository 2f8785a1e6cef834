import Cofuos.Lib.Machine

/-!
# The threads of a process

A process is stopped by killing its threads, one after the other, with the lock of the process held.
A thread that is in a system call is only marked, and stops at the end of the call. New threads
are put into the table of the process with the lock held as well, but whether the process is stopped
is looked up before the lock is taken. The definitions follow `process::spawn`, `process::kill` and
`process::on_exit` of `kernel/process/process.cpp`, and `thread::hold`, `thread::drop` and
`thread::kill` of `kernel/process/thread.cpp`.

Only one core is ever started. What a thread does between disabling and enabling interrupts is one
step, and it may be preempted between two steps.
-/

namespace UOS

/-- `thread::STATE`. -/
inductive ThreadState where
  | ready
  | running
  | waiting
  | stopped
  deriving DecidableEq, Repr

/-- `process::STATE`. -/
inductive ProcessState where
  | running
  | stopped
  deriving DecidableEq, Repr

/-- A thread, as far as stopping it is concerned. -/
structure Thread where
  id : ℕ
  state : ThreadState := .ready
  /-- The bit `CRITICAL`: the thread is in a system call. -/
  critical : Bool := false
  /-- The bit `KILL`: the thread is to be stopped at the end of the call. -/
  kill : Bool := false
  deriving DecidableEq, Repr

namespace Thread

/-- The thread after `thread::kill`. -/
def killed (th : Thread) : Thread :=
  if th.critical then { th with kill := true } else { th with state := .stopped }

/-- The thread after `thread::hold`. -/
def held (th : Thread) : Thread := { th with critical := true }

/-- The thread after `thread::drop`. -/
def dropped (th : Thread) : Thread :=
  if th.kill then { th with critical := false, state := .stopped }
  else { th with critical := false }

/-- The thread is stopped, or is going to be when it leaves its critical section. -/
def Doomed (th : Thread) : Prop :=
  th.state = .stopped ∨ (th.critical = true ∧ th.kill = true)

end Thread

/-- A process, and what its threads are about to do. -/
structure Process where
  state : ProcessState
  threads : List Thread
  activeCount : ℕ
  /-- The threads that are in `spawn` and have found that the process is not stopped, but have not
  taken the lock yet. -/
  spawning : List ℕ
  /-- The threads that have killed all others of their process and are about to kill themselves. -/
  killing : List ℕ
  /-- `kill` has gone through the table of threads. -/
  killed : Bool

namespace Process

/-- A process with its first thread. -/
def new (id : ℕ) : Process where
  state := .running
  threads := [{ id := id }]
  activeCount := 1
  spawning := []
  killing := []
  killed := false

variable (p : Process)

/-- The process has a thread of this number for which `q` holds. -/
def has (t : ℕ) (q : Thread → Bool) : Bool := p.threads.any fun th => th.id == t && q th

/-- Changes the thread of this number if `q` holds for it. -/
def change (t : ℕ) (q : Thread → Bool) (f : Thread → Thread) : List Thread :=
  p.threads.map fun th => if th.id = t ∧ q th = true then f th else th

/-- A step of a thread for which `q` holds. -/
def act (t : ℕ) (q : Thread → Bool) (f : Thread → Thread) : Option Process :=
  if p.has t q then some { p with threads := p.change t q f } else none

/-- The thread is neither in `spawn` nor in `kill`. -/
def Free (t : ℕ) : Prop := t ∉ p.spawning ∧ t ∉ p.killing

instance (t : ℕ) : Decidable (p.Free t) := inferInstanceAs (Decidable (_ ∧ _))

/-- `process::spawn` up to the lock. -/
def test (t : ℕ) : Process :=
  if p.state = .stopped then p else { p with spawning := t :: p.spawning }

/-- `process::spawn` from the lock on. -/
def insert (t id : ℕ) : Process :=
  { p with
    threads := { id := id } :: p.threads
    activeCount := p.activeCount + 1
    spawning := p.spawning.erase t }

/-- `thread::kill`. If the thread has been about to kill itself, this is what it does. -/
def killThread (t : ℕ) : Process :=
  { p with
    threads := p.threads.map fun th => if th.id = t then th.killed else th
    killing := p.killing.erase t }

/-- The loop of `process::kill`, which leaves out the thread that executes it. -/
def killOthers (self : Option ℕ) : Process :=
  { p with
    state := .stopped
    threads := p.threads.map fun th => if some th.id = self then th else th.killed
    killing := self.toList
    killed := true }

/-- A stopped thread is collected: `process::on_exit` and `process::erase`. -/
def collect (t : ℕ) : Process :=
  { p with
    state := if p.activeCount - 1 = 0 then .stopped else p.state
    threads := p.threads.eraseP fun th => th.id == t && th.state == .stopped
    activeCount := p.activeCount - 1 }

/-- What can happen to a process and its threads. -/
inductive Action where
  /-- The scheduler picks a thread. -/
  | run (t : ℕ)
  | preempt (t : ℕ)
  /-- A thread waits for something. -/
  | wait (t : ℕ)
  | notify (t : ℕ)
  | hold (t : ℕ)
  | drop (t : ℕ)
  /-- Some thread calls `thread::kill`. -/
  | killThread (t : ℕ)
  | test (t : ℕ)
  | insert (t id : ℕ)
  /-- A thread of the process, or of another process, calls `process::kill`. -/
  | kill (self : Option ℕ)
  /-- The end of `process::kill` by a thread of the process. -/
  | killSelf (t : ℕ)
  | collect (t : ℕ)

/-- An action, if it is possible. -/
def step : Action → Option Process
  | .run t => p.act t (fun th => th.state == .ready) fun th => { th with state := .running }
  | .preempt t => p.act t (fun th => th.state == .running) fun th => { th with state := .ready }
  | .wait t =>
      if p.Free t then
        p.act t (fun th => th.state == .running) fun th => { th with state := .waiting }
      else none
  | .notify t => p.act t (fun th => th.state == .waiting) fun th => { th with state := .ready }
  | .hold t =>
      if p.Free t then
        p.act t (fun th => th.state == .running && !th.critical && !th.kill) Thread.held
      else none
  | .drop t =>
      if p.Free t then
        p.act t (fun th => th.state == .running && th.critical) Thread.dropped
      else none
  | .killThread t =>
      if p.has t (fun _ => true) = true then some (p.killThread t) else none
  | .test t =>
      if p.Free t ∧ p.has t (fun th => th.state == .running) = true then some (p.test t) else none
  | .insert t id =>
      if t ∈ p.spawning ∧ p.has t (fun th => th.state == .running) = true ∧
          p.has id (fun _ => true) = false then
        some (p.insert t id)
      else none
  | .kill none => some (p.killOthers none)
  | .kill (some t) =>
      if p.Free t ∧ p.has t (fun th => th.state == .running && !th.critical) = true then
        some (p.killOthers (some t))
      else none
  | .killSelf t =>
      if t ∈ p.killing ∧ p.has t (fun th => th.state == .running) = true then
        some (p.killThread t)
      else none
  | .collect t =>
      if p.has t (fun th => th.state == .stopped) = true then some (p.collect t) else none

/-- A process from its creation on. -/
def machine : Machine Process Action where
  Start p := ∃ id, p = new id
  step := step

/-- A thread that takes the lock in order to put a new thread into the table finds the process as
it has looked it up. -/
def Timely : Action → Prop
  | .insert _ _ => p.state ≠ .stopped
  | _ => True

/-! ### One thread -/

theorem doomed_killed (th : Thread) : th.killed.Doomed := by
  rw [Thread.killed]
  split
  case isTrue h => exact .inr ⟨h, rfl⟩
  case isFalse => exact .inl rfl

theorem id_dropped (th : Thread) : th.dropped.id = th.id := by
  rw [Thread.dropped]
  split
  · rfl
  · rfl

theorem doomed_dropped {th : Thread} (h : th.Doomed) : th.dropped.Doomed := by
  rw [Thread.dropped]
  split
  case isTrue => exact .inl rfl
  case isFalse hkill =>
    rcases h with h | h
    · exact .inl h
    · exact absurd h.2 hkill

/-! ### The process -/

/-- Once a process has been killed, all its threads are doomed, apart from those that are about to
kill themselves. -/
structure Inv (p : Process) : Prop where
  stopped : p.killed = true → p.state = .stopped
  doomed : p.killed = true → ∀ th ∈ p.threads, th.id ∈ p.killing ∨ th.Doomed
  count : p.activeCount = p.threads.length

variable {p} {p' : Process}

/-- A step of a thread keeps the invariant if it does not save the thread. -/
theorem Inv.act (h : p.Inv) {t : ℕ} {q : Thread → Bool} {f : Thread → Thread}
    (hact : p.act t q f = some p') (hid : ∀ th, (f th).id = th.id)
    (hf : ∀ th, q th = true → th.Doomed → (f th).Doomed) :
  p'.Inv
  := by
  rw [Process.act, Option.ite_none_right_eq_some] at hact
  cases hact.2
  refine ⟨h.stopped, ?_, ?_⟩
  · intro hkilled th hth
    obtain ⟨th₀, hth₀, rfl⟩ := List.mem_map.mp hth
    have hdoomed := h.doomed hkilled th₀ hth₀
    dsimp only
    split
    case isTrue hq =>
      rw [hid]
      exact hdoomed.imp_right (hf th₀ hq.2)
    case isFalse => apply hdoomed
  · change p.activeCount = (p.threads.map _).length
    rw [List.length_map]
    apply h.count

theorem Inv.killThread (h : p.Inv) (t : ℕ) :
  (p.killThread t).Inv
  := by
  refine ⟨h.stopped, ?_, ?_⟩
  · intro hkilled th hth
    obtain ⟨th₀, hth₀, rfl⟩ := List.mem_map.mp hth
    split
    case isTrue => exact .inr (doomed_killed th₀)
    case isFalse hne =>
      refine (h.doomed hkilled th₀ hth₀).imp_left ?_
      apply (List.mem_erase_of_ne hne).mpr
  · change p.activeCount = (p.threads.map _).length
    rw [List.length_map]
    apply h.count

theorem Inv.killOthers (h : p.Inv) (self : Option ℕ) :
  (p.killOthers self).Inv
  := by
  refine ⟨fun _ => rfl, ?_, ?_⟩
  · intro _ th hth
    obtain ⟨th₀, hth₀, rfl⟩ := List.mem_map.mp hth
    split
    case isTrue hself =>
      left
      apply Option.mem_toList.mpr hself.symm
    case isFalse => exact .inr (doomed_killed th₀)
  · change p.activeCount = (p.threads.map _).length
    rw [List.length_map]
    apply h.count

theorem Inv.collect (h : p.Inv) {t : ℕ} (hhas : p.has t (fun th => th.state == .stopped) = true) :
  (p.collect t).Inv
  := by
  refine ⟨?_, ?_, ?_⟩
  · intro hkilled
    change (if p.activeCount - 1 = 0 then _ else p.state) = _
    rw [h.stopped hkilled, ite_self]
  · intro hkilled th hth
    apply h.doomed hkilled th (List.mem_of_mem_eraseP hth)
  · obtain ⟨th, hth, hq⟩ := List.any_eq_true.mp hhas
    change p.activeCount - 1 = (p.threads.eraseP _).length
    rw [List.length_eraseP_of_mem hth hq, h.count]

/-- A new thread is put only into a process that has not been killed. -/
theorem Inv.insert (h : p.Inv) (hstate : p.state ≠ .stopped) (t id : ℕ) :
  (p.insert t id).Inv
  := by
  refine ⟨h.stopped, ?_, ?_⟩
  · intro hkilled
    apply absurd (h.stopped hkilled) hstate
  · change p.activeCount + 1 = p.threads.length + 1
    rw [h.count]

theorem Inv.test (h : p.Inv) (t : ℕ) :
  (p.test t).Inv
  := by
  rw [Process.test]
  split
  · apply h
  · exact ⟨h.stopped, h.doomed, h.count⟩

/-- A thread that is not stopped changes its state. -/
theorem Inv.move (h : p.Inv) {t : ℕ} {st st' : ThreadState} (hst : st ≠ .stopped)
    (hact : p.act t (fun th => th.state == st) (fun th => { th with state := st' }) = some p') :
  p'.Inv
  := by
  apply h.act hact
  · intro th
    rfl
  · intro th hq hdoomed
    right
    apply hdoomed.resolve_left
    rw [beq_iff_eq.mp hq]
    apply hst

theorem Inv.step (h : p.Inv) {a : Action} (htimely : p.Timely a) (hstep : p.step a = some p') :
  p'.Inv
  := by
  cases a with
  | run t => apply h.move (by decide) hstep
  | preempt t => apply h.move (by decide) hstep
  | wait t =>
      rw [Process.step, Option.ite_none_right_eq_some] at hstep
      apply h.move (by decide) hstep.2
  | notify t => apply h.move (by decide) hstep
  | hold t =>
      rw [Process.step, Option.ite_none_right_eq_some] at hstep
      apply h.act hstep.2
      · intro th
        rfl
      · intro th _ hdoomed
        exact hdoomed.imp_right fun hmarked => ⟨rfl, hmarked.2⟩
  | drop t =>
      rw [Process.step, Option.ite_none_right_eq_some] at hstep
      apply h.act hstep.2 id_dropped
      intro th _ hdoomed
      apply doomed_dropped hdoomed
  | killThread t =>
      rw [Process.step, Option.ite_none_right_eq_some] at hstep
      cases hstep.2
      apply h.killThread
  | test t =>
      rw [Process.step, Option.ite_none_right_eq_some] at hstep
      cases hstep.2
      apply h.test
  | insert t id =>
      rw [Process.step, Option.ite_none_right_eq_some] at hstep
      cases hstep.2
      apply h.insert htimely
  | kill self =>
      cases self with
      | none =>
          cases hstep
          apply h.killOthers
      | some t =>
          rw [Process.step, Option.ite_none_right_eq_some] at hstep
          cases hstep.2
          apply h.killOthers
  | killSelf t =>
      rw [Process.step, Option.ite_none_right_eq_some] at hstep
      cases hstep.2
      apply h.killThread
  | collect t =>
      rw [Process.step, Option.ite_none_right_eq_some] at hstep
      cases hstep.2
      apply h.collect hstep.1

/-- As long as no thread is put into a process that has been stopped since it has been looked up,
every thread of a killed process is stopped or is going to stop at the end of its system call, apart
from one that is about to kill itself. The threads that count as active are these. -/
theorem no_thread_survives {p : Process} (h : machine.Reachable Timely p)
    (hkilled : p.killed = true) :
  p.activeCount = p.threads.length ∧ ∀ th ∈ p.threads, th.id ∉ p.killing →
    th.state = .stopped ∨ (th.critical = true ∧ th.kill = true)
  := by
  have hinv : p.Inv := by
    apply h.invariant
    · rintro p ⟨id, rfl⟩
      exact ⟨fun hk => absurd hk Bool.false_ne_true, fun hk => absurd hk Bool.false_ne_true, rfl⟩
    · intro p a p' hp htimely hstep
      apply hp.step htimely hstep
  refine ⟨hinv.count, ?_⟩
  intro th hth hnot
  exact (hinv.doomed hkilled th hth).resolve_left hnot

/-- A process of two threads is killed while one of them is in a system call. -/
theorem no_thread_survives_two :
  ∃ p : Process, machine.Reachable Timely p ∧ p.killed = true ∧
    p.threads = [⟨1, .stopped, false, false⟩, ⟨0, .running, true, true⟩] ∧
    ∀ th ∈ p.threads, th.id ∉ p.killing →
      th.state = .stopped ∨ (th.critical = true ∧ th.kill = true)
  := by
  have h₀ : machine.Reachable Timely (new 0) := .start ⟨0, rfl⟩
  have h₁ : machine.Reachable Timely _ := h₀.step (.run 0) trivial rfl
  have h₂ : machine.Reachable Timely _ := h₁.step (.hold 0) trivial rfl
  have h₃ : machine.Reachable Timely _ := h₂.step (.test 0) trivial rfl
  have h₄ : machine.Reachable Timely _ := h₃.step (.insert 0 1) (fun h => by cases h) rfl
  have h₅ : machine.Reachable Timely _ := h₄.step (.kill none) trivial rfl
  exact ⟨_, h₅, rfl, rfl, (no_thread_survives h₅ rfl).2⟩

/-- A thread looks up that its process is not stopped, the process is killed, and the thread puts
a new thread into it, which is ready to run. -/
theorem thread_survives :
  ∃ p : Process, machine.Reachable Machine.anyStep p ∧ p.killed = true ∧
    ¬ ∀ th ∈ p.threads, th.id ∉ p.killing →
      th.state = .stopped ∨ (th.critical = true ∧ th.kill = true)
  := by
  have h₀ : machine.Reachable Machine.anyStep (new 0) := .start ⟨0, rfl⟩
  obtain ⟨p, hp⟩ : ∃ p, machine.exec (new 0)
      [.run 0, .hold 0, .test 0, .kill none, .insert 0 1] = some p := ⟨_, rfl⟩
  refine ⟨p, h₀.exec hp fun _ _ _ => trivial, ?_⟩
  cases hp
  decide

end Process

end UOS
