import Cofuos.Lib.Intrusive
import Cofuos.Lib.Machine
import Cofuos.Process.Spawn

/-!
# The scheduler

A thread moves between the ready queues, the wait queues of the objects it waits for and the queue of
the collector, all of which are linked through the one pointer that a thread has. A stopped thread is
left on its ready queue until it is found there. A thread that has been stopped while running cannot
be collected before the processor has left its stack, and is kept in `gc_ptr` until the next switch.
The definitions follow `kernel/process/waitable.cpp`, `kernel/process/thread.cpp`,
`kernel/process/core_state.cpp` and `event::signal_one` of `kernel/sync/event.cpp`. Of the timer
(`kernel/dev/timer.cpp`) we keep the tickets that have been given out and not been cancelled, with the
threads they are for.

Only one core is ever started, and what happens between disabling and enabling interrupts is one step.
There is no result when the kernel stops in a `bugcheck`. Assertions are not compiled in.

Time slices only decide whether threads of the same priority are considered when a thread is
preempted, so that we leave them out and allow both. A thread is destroyed some time after the
collector has taken it from its queue.
-/

namespace UOS

/-- `REASON`. -/
inductive Reason where
  | none
  | passed
  | notify
  | timeout
  | abandon
  deriving DecidableEq, Repr

/-- What a thread can wait for: another thread, or an object of another kind. -/
inductive Waited (τ κ : Type) where
  | thread (t : τ)
  | object (o : κ)
  deriving DecidableEq, Repr

namespace Scheduler

/-- The queues. There are `max_priority` ready queues. -/
inductive QueueId (τ κ : Type) where
  | ready (level : Fin 16)
  | wait (o : Waited τ κ)
  | gc
  deriving DecidableEq, Repr

/-- A thread, apart from the pointer by which it is queued. -/
structure Thread (τ κ : Type) where
  state : ThreadState
  /-- The bit `CRITICAL`. -/
  critical : Bool := false
  /-- The bit `KILL`. -/
  kill : Bool := false
  priority : Fin 16
  reason : Reason := .none
  waitFor : Option (Waited τ κ) := none
  timerTicket : ℕ := 0

end Scheduler

/-- The core with its threads and queues. -/
structure Scheduler (τ κ : Type) where
  queues : Queues (Scheduler.QueueId τ κ) τ
  thread : τ → Scheduler.Thread τ κ
  /-- The threads that have been created. -/
  born : List τ
  thisThread : τ
  gcPtr : Option τ
  /-- The collector. -/
  thGc : τ
  /-- The event for which the collector waits. -/
  ev : κ
  /-- The last ticket. -/
  conductor : ℕ
  record : List (ℕ × τ)
  /-- The threads that have been passed to `gc_service::put`. -/
  gcLog : List τ
  /-- The threads that the collector has taken. -/
  collected : List τ

namespace Scheduler

variable {τ κ : Type} [DecidableEq τ] [DecidableEq κ]

/-- No queue is longer than this, so that this many steps are enough to go along one. -/
def fuel (s : Scheduler τ κ) : ℕ := s.born.length + 1

/-- Changes a thread. -/
def modify (s : Scheduler τ κ) (t : τ) (f : Thread τ κ → Thread τ κ) : Scheduler τ κ :=
  { s with thread := Function.update s.thread t (f (s.thread t)) }

/-! ### Queues and tickets -/

/-- `scheduler::put`. -/
def readyPut (s : Scheduler τ κ) (t : τ) : Scheduler τ κ :=
  { s with queues := s.queues.put (.ready (s.thread t).priority) t }

/-- The loop of `scheduler::get` over the ready queues. -/
def firstReady (Q : Queues (QueueId τ κ) τ) : List (Fin 16) → Option τ × Queues (QueueId τ κ) τ
  | [] => (none, Q)
  | i :: rest =>
      match Q.get (.ready i) with
      | (some t, Q') => (some t, Q')
      | (none, Q') => firstReady Q' rest

/-- `scheduler::get`, which looks at the queues below a level. -/
def readyGet (s : Scheduler τ κ) (level : ℕ) : Option τ × Scheduler τ κ :=
  let (t, Q) := firstReady s.queues ((List.finRange 16).filter fun i => i.val < level)
  (t, { s with queues := Q })

/-- `gc_service::put`, which is all that is left of `thread::on_stop`. -/
def gcPut (s : Scheduler τ κ) (t : τ) : Scheduler τ κ :=
  { s with queues := s.queues.put .gc t, gcLog := t :: s.gcLog }

/-- `basic_timer::wait`: a new ticket for a thread. -/
def timerWait (s : Scheduler τ κ) (t : τ) : ℕ × Scheduler τ κ :=
  let ticket := (s.conductor + 1) % 2 ^ 64
  (ticket, { s with conductor := ticket, record := (ticket, t) :: s.record })

/-- `basic_timer::cancel`. -/
def timerCancel (s : Scheduler τ κ) (ticket : ℕ) : Scheduler τ κ :=
  { s with record := s.record.filter fun e => e.1 ≠ ticket }

/-- Cancels the ticket of a thread, if it has one. -/
def cancelTicket (s : Scheduler τ κ) (t : τ) : Scheduler τ κ :=
  if (s.thread t).timerTicket ≠ 0 then s.timerCancel (s.thread t).timerTicket else s

/-- `waitable::cancel`. -/
def cancel (s : Scheduler τ κ) (o : Waited τ κ) (t : τ) : Option (Scheduler τ κ) :=
  (s.queues.unlink s.fuel (.wait o) t).map fun Q => { s with queues := Q }

/-- Takes a thread from the wait queue of the object it waits for, if there is one. -/
def leaveQueue (s : Scheduler τ κ) (t : τ) : Option (Waited τ κ) → Option (Scheduler τ κ)
  | some o => s.cancel o t
  | none => some s

/-! ### The states of threads -/

/-- What `thread::set_state` does to a waiting thread that is to be ready, depending on the reason. -/
def leaveWait (s : Scheduler τ κ) (t : τ) : Reason → Option (Scheduler τ κ)
  | .abandon =>
      match (s.thread t).waitFor with
      | some o => (s.cancel o t).map fun s => s.cancelTicket t
      | none => none
  | .notify => some (s.cancelTicket t)
  | .timeout => s.leaveQueue t (s.thread t).waitFor
  | .none => none
  | .passed => none

/-- `thread::set_state(READY, reason)`, which refuses a stopped thread. -/
def setReady (s : Scheduler τ κ) (t : τ) (reason : Reason) : Option (Bool × Scheduler τ κ) :=
  match (s.thread t).state with
  | .stopped => some (false, s)
  | .waiting =>
      (s.leaveWait t reason).map fun s =>
        (true, s.modify t fun th =>
          { th with state := .ready, reason := reason, waitFor := none, timerTicket := 0 })
  | .ready => some (true, s.modify t fun th => { th with state := .ready })
  | .running => some (true, s.modify t fun th => { th with state := .ready })

/-- `thread::set_state(RUNNING)`. -/
def setRunning (s : Scheduler τ κ) (t : τ) : Bool × Scheduler τ κ :=
  if (s.thread t).state = .stopped then (false, s)
  else (true, s.modify t fun th => { th with state := .running })

/-- `thread::set_state(WAITING, ticket, obj)`. -/
def setWaiting (s : Scheduler τ κ) (t : τ) (ticket : ℕ) (o : Option (Waited τ κ)) :
    Bool × Scheduler τ κ :=
  if (s.thread t).state = .stopped then (false, s)
  else
    (true, s.modify t fun th => { th with state := .waiting, waitFor := o, timerTicket := ticket })

/-! ### Notifying -/

/-- The loop of `waitable::imp_notify` over threads that have been taken from a wait queue. It returns
how many have been made ready, and whether one was stopped. -/
def walk (reason : Reason) :
    ℕ → Scheduler τ κ → Option τ → Option (ℕ × Bool × Scheduler τ κ)
  | _, s, none => some (0, false, s)
  | 0, _, some _ => none
  | n + 1, s, some t =>
      let next := s.queues.next t
      match s.setReady t reason with
      | some (true, s) =>
          (walk reason n (s.readyPut t) next).map fun (count, needGc, s) => (count + 1, needGc, s)
      | some (false, s) =>
          (walk reason n (s.gcPut t) next).map fun (count, _, s) => (count, true, s)
      | none => none

/-- `event::signal_one`. Whenever a stopped thread has been found, the collector is signalled. -/
def signalLoop : ℕ → Scheduler τ κ → Waited τ κ → Option (Scheduler τ κ)
  | 0, _, _ => none
  | n + 1, s, o =>
      match s.queues.get (.wait o) with
      | (none, _) => some s
      | (some t, Q) =>
          match walk .notify s.fuel { s with queues := Q } (some t) with
          | some (count, needGc, s) =>
              match (if needGc then signalLoop n s (.object s.ev) else some s) with
              | some s => if count = 0 then signalLoop n s o else some s
              | none => none
          | none => none

/-- `event::signal_one`. -/
def signalOne (s : Scheduler τ κ) (o : Waited τ κ) : Option (Scheduler τ κ) := signalLoop s.fuel s o

/-- `gc_service::signal`. -/
def gcSignal (s : Scheduler τ κ) (target : Option τ) : Option (Scheduler τ κ) :=
  if target ≠ some s.thGc then s.signalOne (.object s.ev) else some s

/-- `waitable::notify`. -/
def notify (s : Scheduler τ κ) (o : Waited τ κ) (reason : Reason) : Option (Scheduler τ κ) :=
  match walk reason s.fuel { s with queues := s.queues.clear (.wait o) }
      (s.queues.head (.wait o)) with
  | some (_, needGc, s) => if needGc then s.gcSignal none else some s
  | none => none

/-! ### Switching -/

/-- What the search for the next thread to run has found. -/
structure Found (τ : Type) where
  next : Option τ
  /-- The thread that has been passed over. -/
  putBack : Option τ
  /-- Stopped threads have been found. -/
  needGc : Bool

/-- The loop that looks for the next thread to run on the queues below a level. A thread that waits
for another thread passes over the latter. -/
def search (level : ℕ) (skip : Option τ) :
    ℕ → Found τ → Scheduler τ κ → Option (Found τ × Scheduler τ κ)
  | 0, _, _ => none
  | n + 1, f, s =>
      match s.readyGet level with
      | (none, s) => some (f, s)
      | (some t, s) =>
          if skip = some t then search level skip n { f with putBack := some t } s
          else
            match s.setRunning t with
            | (true, s) => some ({ f with next := some t }, s)
            | (false, s) => search level skip n { f with needGc := true } (s.gcPut t)

/-- The search, and the signal to the collector that follows it. -/
def select (s : Scheduler τ κ) (level : ℕ) (skip : Option τ) (tell : Option τ → Option τ) :
    Option (Found τ × Scheduler τ κ) :=
  match search level skip s.fuel ⟨none, none, false⟩ s with
  | some (f, s) =>
      if f.needGc then (s.gcSignal (tell f.next)).map fun s => (f, s) else some (f, s)
  | none => none

/-- `this_core::irq_switch_to`. -/
def switchTo (s : Scheduler τ κ) (target : τ) : Option (Scheduler τ κ) :=
  let needGc := (s.thread s.thisThread).state = .stopped
  match s.gcPtr with
  | some g =>
      let s := s.gcPut g
      let s := { s with gcPtr := if needGc then some s.thisThread else none }
      (s.gcSignal (some target)).map fun s => { s with thisThread := target }
  | none =>
      some { s with
        gcPtr := if needGc then some s.thisThread else none
        thisThread := target }

/-- The current thread is ready again, unless it is stopped. -/
def leaveReady (s : Scheduler τ κ) : Option (Scheduler τ κ) :=
  match s.setReady s.thisThread .none with
  | some (true, s) => some (s.readyPut s.thisThread)
  | some (false, s) => some s
  | none => none

/-- `core_manager::preempt`. -/
def preempt (s : Scheduler τ κ) (lower : Bool) : Option (Scheduler τ κ) :=
  match s.select ((s.thread s.thisThread).priority + lower.toNat) none id with
  | some (⟨some next, _, _⟩, s) =>
      match s.leaveReady with
      | some s => s.switchTo next
      | none => none
  | some (⟨none, _, _⟩, s) =>
      if (s.thread s.thisThread).state = .stopped then
        match s.select 16 none id with
        | some (⟨some next, _, _⟩, s) => s.switchTo next
        | some (⟨none, _, _⟩, _) => none
        | none => none
      else some s
  | none => none

/-- A ticket for the current thread, if there is a timeout. -/
def ticketFor (s : Scheduler τ κ) (us : ℕ) : ℕ × Scheduler τ κ :=
  if us ≠ 0 then s.timerWait s.thisThread else (0, s)

/-- The current thread waits for an object, or just for the timeout. If it is stopped the ticket is
given back. -/
def leaveWaiting (s : Scheduler τ κ) (us : ℕ) (o : Option (Waited τ κ)) : Scheduler τ κ :=
  let (ticket, s) := s.ticketFor us
  match s.setWaiting s.thisThread ticket o with
  | (true, s) =>
      match o with
      | some o => { s with queues := s.queues.put (.wait o) s.thisThread }
      | none => s
  | (false, s) => if ticket ≠ 0 then s.timerCancel ticket else s

/-- The thread that has been passed over is put back. -/
def putBack (s : Scheduler τ κ) : Option τ → Scheduler τ κ
  | some t => s.readyPut t
  | none => s

/-- The thread that is meant, if an object is a thread. -/
def Waited.asThread : Waited τ κ → Option τ
  | .thread t => some t
  | .object _ => none

/-- `waitable::imp_wait` of the current thread. -/
def impWait (s : Scheduler τ κ) (o : Waited τ κ) (us : ℕ) : Option (Scheduler τ κ) :=
  if o = .thread s.thisThread then none
  else
    match s.select 16 (Waited.asThread o) id with
    | some (⟨some next, back, _⟩, s) => ((s.leaveWaiting us (some o)).putBack back).switchTo next
    | some (⟨none, _, _⟩, _) => none
    | none => none

/-- `thread::sleep` of the current thread. -/
def sleep (s : Scheduler τ κ) (us : ℕ) : Option (Scheduler τ κ) :=
  if us = 0 then s.preempt true
  else
    match s.select 16 none fun _ => none with
    | some (⟨some next, _, _⟩, s) => (s.leaveWaiting us none).switchTo next
    | some (⟨none, _, _⟩, _) => none
    | none => none

/-- `waitable::on_timer`, when the time of a ticket has come. -/
def onTimer (s : Scheduler τ κ) (ticket : ℕ) (t : τ) : Option (Scheduler τ κ) :=
  if (s.thread t).timerTicket ≠ ticket then some s
  else
    match s.setReady t .timeout with
    | some (true, s) =>
        if (s.thread t).priority < (s.thread s.thisThread).priority then
          match s.setRunning t with
          | (true, s) =>
              match s.leaveReady with
              | some s => s.switchTo t
              | none => none
          | (false, _) => none
        else some (s.readyPut t)
    | some (false, s) => (s.gcPut t).gcSignal none
    | none => none

/-! ### Stopping -/

/-- `thread::hold` of the current thread. -/
def hold (s : Scheduler τ κ) : Scheduler τ κ :=
  s.modify s.thisThread fun th => { th with critical := true, kill := false }

/-- The beginning of `thread::drop` of the current thread. If the thread is stopped it goes on to
`preempt`, but interrupts are enabled in between. -/
def drop (s : Scheduler τ κ) : Scheduler τ κ :=
  s.modify s.thisThread fun th =>
    { th with critical := false, state := if th.kill then .stopped else th.state }

/-- `thread::kill`. -/
def kill (s : Scheduler τ κ) (t : τ) : Option (Scheduler τ κ) :=
  if (s.thread t).critical then some (s.modify t fun th => { th with kill := true })
  else
    let before := s.thread t
    let s := s.modify t fun th => { th with state := .stopped }
    if before.state = .waiting then
      match s.leaveQueue t before.waitFor with
      | some s =>
          let s := s.cancelTicket t
          let s := s.modify t fun th => { th with waitFor := none, timerTicket := 0 }
          if t = s.thisThread then s.preempt true else (s.gcPut t).gcSignal none
      | none => none
    else if t = s.thisThread then s.preempt true
    else some s

/-- The creation of a thread, which has the priority of its creator. -/
def spawn (s : Scheduler τ κ) (t : τ) : Scheduler τ κ :=
  let th : Thread τ κ := { state := .ready, priority := (s.thread s.thisThread).priority }
  ({ s with thread := Function.update s.thread t th, born := t :: s.born }).readyPut t

/-- The collector takes a thread from its queue. -/
def collect (s : Scheduler τ κ) : Scheduler τ κ :=
  match s.queues.get .gc with
  | (some t, Q) => { s with queues := Q, collected := t :: s.collected }
  | (none, _) => s

/-! ### Runs -/

/-- What can happen. Apart from `preempt`, the notifications and the timer, it is done by the current
thread. -/
inductive Action (τ κ : Type) where
  | spawn (t : τ)
  | wait (o : Waited τ κ) (us : ℕ)
  | sleep (us : ℕ)
  | notify (o : Waited τ κ) (reason : Reason)
  | signalOne (o : Waited τ κ)
  | onTimer (ticket : ℕ) (t : τ)
  | preempt (lower : Bool)
  | hold
  | drop
  | kill (t : τ)
  | collect
  | setPriority (t : τ) (level : Fin 16)

/-- The current thread can act: it has not been stopped. -/
def Acts (s : Scheduler τ κ) : Prop := (s.thread s.thisThread).state = .running

instance (s : Scheduler τ κ) : Decidable s.Acts := inferInstanceAs (Decidable (_ = _))

/-- An action, if it is possible. -/
def step (s : Scheduler τ κ) : Action τ κ → Option (Scheduler τ κ)
  | .spawn t => if s.Acts ∧ t ∉ s.born then some (s.spawn t) else none
  | .wait o us => if s.Acts then s.impWait o us else none
  | .sleep us => if s.Acts then s.sleep us else none
  | .notify o reason => s.notify o reason
  | .signalOne o => s.signalOne o
  | .onTimer ticket t =>
      -- the ticket is used up
      if (ticket, t) ∈ s.record then (s.timerCancel ticket).onTimer ticket t else none
  | .preempt lower => s.preempt lower
  | .hold => if s.Acts then some s.hold else none
  | .drop => if s.Acts then some s.drop else none
  | .kill t => if s.Acts ∧ t ∈ s.born then s.kill t else none
  | .collect => if s.Acts ∧ s.thisThread = s.thGc then some s.collect else none
  | .setPriority t level =>
      if s.Acts ∧ t ∈ s.born then some (s.modify t fun th => { th with priority := level })
      else none

/-- The core with its first thread, which has `kernel_priority`. -/
def boot (first thGc : τ) (ev : κ) : Scheduler τ κ where
  queues := .empty
  thread _ := { state := .running, priority := 3 }
  born := [first]
  thisThread := first
  gcPtr := none
  thGc := thGc
  ev := ev
  conductor := 0
  record := []
  gcLog := []
  collected := []

/-- The core from its start on. -/
def machine (τ κ : Type) [DecidableEq τ] [DecidableEq κ] : Machine (Scheduler τ κ) (Action τ κ) where
  Start s := ∃ first thGc ev, thGc ≠ first ∧ s = boot first thGc ev
  step := step

/-- Tickets are drawn only as long as the counter does not overflow. -/
def Counted (s : Scheduler τ κ) : Action τ κ → Prop
  | .wait _ us => us ≠ 0 → s.conductor + 1 < 2 ^ 64
  | .sleep us => us ≠ 0 → s.conductor + 1 < 2 ^ 64
  | _ => True

end Scheduler

end UOS
