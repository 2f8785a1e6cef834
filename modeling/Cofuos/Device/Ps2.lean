import Cofuos.Lib.Machine
import Cofuos.Lib.RingBuffer
import Mathlib.Data.UInt

/-!
# The PS/2 driver

A channel of the controller has a queue, into which interrupts put the bytes of the device, and a
thread, which takes them out. The thread waits for a device, brings it up with a series of commands,
and then stays in the loop for a keyboard or a mouse until the device is gone. Taking a byte from an
empty queue is a `bugcheck`; before each byte the thread waits, with a time limit or without. The
definitions follow `kernel/dev/ps_2.cpp`.

The one exception is the loop for the mouse. If nothing has come for a second it requests a packet,
and goes on to take a byte without waiting for it.
-/

namespace UOS

namespace Ps2

/-! ### The queue -/

def QUEUE_SIZE : ℕ := 0x100

/-- `safe_queue` -/
structure SafeQueue where
  ring : RingBuffer UInt8
  limit_eq : ring.limit = QUEUE_SIZE

namespace SafeQueue

theorem queueSize_pos : 0 < QUEUE_SIZE := by decide

def empty : SafeQueue := ⟨⟨QUEUE_SIZE, fun _ => 0, 0, 0, queueSize_pos, queueSize_pos⟩, rfl⟩

variable (q : SafeQueue)

/-- `safe_queue::check` -/
def check : Bool := q.ring.head ≠ q.ring.tail

/-- `safe_queue::get`, or nothing if it is a `bugcheck`. -/
def get : Option (UInt8 × SafeQueue) :=
  if q.ring.head = q.ring.tail then none else some (q.ring.front, ⟨q.ring.pop, q.limit_eq⟩)

/-- `safe_queue::put`, without the notification. -/
def put (val : UInt8) : SafeQueue :=
  if (q.ring.tail + 1) % QUEUE_SIZE ≠ q.ring.head then ⟨q.ring.push val, q.limit_eq⟩ else q

/-- `safe_queue::clear` -/
def clear : SafeQueue := ⟨{ q.ring with head := q.ring.tail, head_lt := q.ring.tail_lt }, q.limit_eq⟩

/-- There is a byte exactly when the queue is not empty. -/
theorem check_iff : q.check = true ↔ q.ring.size ≠ 0 := by
  rw [check, decide_eq_true_iff, ne_eq, ne_eq, RingBuffer.size_eq_zero_iff]

/-- There is a byte after one has come, even if there was no room for it. -/
theorem check_put (val : UInt8) : (q.put val).check = true := by
  have hlimit := q.limit_eq
  rw [check_iff, put, ← hlimit]
  split_ifs with hroom
  · rw [ne_eq, ← RingBuffer.room_eq_zero_iff] at hroom
    rw [RingBuffer.size_push q.ring hroom]
    omega
  · rw [not_not, ← RingBuffer.room_eq_zero_iff] at hroom
    have hsize := q.ring.size_add_room
    rw [QUEUE_SIZE] at hlimit
    lia

end SafeQueue

/-! ### The thread -/

/-- `REASON` -/
inductive Reason where
  | passed
  | notify
  | timeout
  deriving DecidableEq

/-- What follows the commands that are sent. -/
inductive Stage where
  /-- The identity of the device is read. -/
  | identity
  /-- The second identity of a mouse is read. -/
  | mode
  | keybd
  | mouse (mode : UInt8)
  deriving DecidableEq

/-- The calls of `wait`, each with the call of `get` after it. -/
inductive Point where
  /-- A device is waited for, without a time limit. -/
  | plug
  /-- A byte after `0xAA` is discarded. -/
  | discard
  /-- The answer to a command, with the commands after it. -/
  | answer (cmd : UInt8) (rest : List UInt8) (stage : Stage)
  | identity
  | mode
  /-- The second byte of the identity of a keyboard. -/
  | keyboard
  /-- The loop of `device_keybd`. -/
  | keybd (state : UInt8) (probe : Bool)
  /-- The loop of `device_mouse`, with the number of bytes of the packet. -/
  | mouse (mode : UInt8) (it : ℕ) (probe : Bool)
  deriving DecidableEq

/-- Where the thread is. -/
inductive Control where
  /-- A command is sent. -/
  | send (cmd : UInt8) (rest : List UInt8) (stage : Stage)
  /-- `wait` is called. -/
  | wait (p : Point)
  /-- The thread is in `imp_wait`, and maybe is ready again. -/
  | blocked (p : Point) (reason : Option Reason)
  /-- `get` is called, after `wait` has returned something else than `TIMEOUT` or not. -/
  | get (p : Point) (waited : Bool)
  /-- `device_keybd` sends an echo. -/
  | echo (state : UInt8)
  /-- `device_mouse` requests a packet. -/
  | request (mode : UInt8) (it : ℕ)
  | restart
  | bugcheck
  deriving DecidableEq

/-- A channel. -/
structure Channel where
  queue : SafeQueue
  control : Control
  failCount : UInt32
  /-- What has been sent to the device. -/
  sent : List UInt8

namespace Channel

variable (s : Channel)

def goto (c : Control) : Channel := { s with control := c }

/-- `write`, with the prefix for the second channel. -/
def write (data : UInt8) : Channel := { s with sent := s.sent ++ [data] }

/-- `DEV_CMD` for each of some commands, and what follows. -/
def devCmd : List UInt8 → Stage → Control
  | cmd :: rest, stage => .send cmd rest stage
  | [], .identity => .wait .identity
  | [], .mode => .wait .mode
  | [], .keybd => .wait (.keybd 0 false)
  | [], .mouse mode => .wait (.mouse mode 0 false)

/-- The end of `device_keybd` or `device_mouse`. -/
def finish (gone : Bool) : Channel :=
  { s with failCount := if gone = true then 0 else s.failCount, control := .wait .plug }

/-- What the thread does when `wait` has returned. -/
def afterWait (p : Point) (reason : Reason) : Channel :=
  if reason = .timeout then
    match p with
    | .plug => s.goto (.get .plug true)
    | .discard => s.goto (devCmd [0xF5, 0xF2] .identity)
    | .answer .. | .identity | .mode | .keyboard => s.goto .restart
    | .keybd state probe => if probe = true then s.finish true else s.goto (.echo state)
    | .mouse mode it probe => if probe = true then s.finish true else s.goto (.request mode it)
  else s.goto (.get p true)

/-- What `device_keybd` does with a byte. -/
def key (state data : UInt8) : Channel :=
  if data ∈ [0, 0xAA, 0xFC, 0xFD, 0xFE, 0xFF] then s.finish false
  else if data ∈ [0xEE, 0xFA] then s.goto (.wait (.keybd state false))
  else if state = 0 ∧ (data = 0xE0 ∨ data = 0xF0) then s.goto (.wait (.keybd data false))
  else if state = 0xE0 ∧ data = 0xF0 then s.goto (.wait (.keybd 0xC0 false))
  -- the key is translated, or the state is unknown
  else s.goto (.wait (.keybd 0 false))

/-- What `device_mouse` does with a byte. -/
def packet (mode : UInt8) (it : ℕ) (probe : Bool) (data : UInt8) : Channel :=
  let length := if mode ≠ 0 then 4 else 3
  if probe = true ∧ data = 0xFA then s.goto (.wait (.mouse mode it false))
  else
    let it := if it ≠ 0 ∨ data &&& 0x08 ≠ 0 then it + 1 else it
    s.goto (.wait (.mouse mode (if it < length then it else 0) probe))

/-- What the thread does with a byte that it has taken. -/
def afterGet (data : UInt8) : Point → Channel
  | .plug => s.goto (.wait (if data = 0xAA then .discard else .plug))
  | .discard => s.goto (devCmd [0xF5, 0xF2] .identity)
  | .answer cmd rest stage =>
      s.goto (if data = 0xFA then devCmd rest stage
        else if data = 0xFE then .send cmd rest stage else .restart)
  | .identity =>
      s.goto (if data = 0 then devCmd [0xF3, 200, 0xF3, 100, 0xF3, 80, 0xF2] .mode
        else if data = 0xAB then .wait .keyboard else .restart)
  | .mode =>
      s.goto (if data = 0 ∨ data = 3 then devCmd [0xF3, 40, 0xF4] (.mouse data) else .restart)
  | .keyboard =>
      s.goto (if data ≠ 0x83 then .restart else devCmd [0xF0, 2, 0xF3, 0x7F, 0xF4] .keybd)
  | .keybd state _ => s.key state data
  | .mouse mode it probe => s.packet mode it probe data

/-- The end of a round of `thread_ps2` that has failed. -/
def fail : Channel :=
  let s := { s with queue := s.queue.clear, failCount := s.failCount + 1, control := .wait .plug }
  if s.failCount < 5 then s.write 0xFF else s

/-- A step of the thread, if it is not blocked. -/
def run : Option Channel :=
  match s.control with
  | .send cmd rest stage => some ((s.write cmd).goto (.wait (.answer cmd rest stage)))
  | .wait p =>
      if s.queue.check = true then some (s.afterWait p .passed) else some (s.goto (.blocked p none))
  | .blocked p (some reason) => some (s.afterWait p reason)
  | .blocked _ none => none
  | .get p _ =>
      match s.queue.get with
      | some (data, queue) => some ({ s with queue := queue }.afterGet data p)
      | none => some (s.goto .bugcheck)
  | .echo state => some ((s.write 0xEE).goto (.wait (.keybd state true)))
  | .request mode it => some ((s.write 0xEB).goto (.get (.mouse mode it true) false))
  | .restart => some s.fail
  | .bugcheck => none

/-- A byte from the device, which notifies the thread. -/
def receive (data : UInt8) : Channel :=
  { s with
    queue := s.queue.put data
    control := match s.control with
      | .blocked p none => .blocked p (some .notify)
      | c => c }

/-- The end of the time limit of a wait. -/
def onTimer : Option Channel :=
  match s.control with
  | .blocked p none => if p = .plug then none else some (s.goto (.blocked p (some .timeout)))
  | _ => none

end Channel

/-- What can happen to a channel. -/
inductive Action where
  | run
  | receive (data : UInt8)
  | onTimer

/-- The thread of a channel, from its creation on. -/
def machine : Machine Channel Action where
  Start s := s = ⟨SafeQueue.empty, .wait .plug, 0, []⟩
  step s
    | .run => s.run
    | .receive data => some (s.receive data)
    | .onTimer => s.onTimer

/-! ### Where the thread goes -/

namespace Channel

/-- The thread neither takes a byte nor is blocked. -/
def Calm : Control → Prop
  | .get .. | .blocked .. | .bugcheck => False
  | _ => True

/-- What is known when the thread is about to take a byte, or when its wait is over. -/
def Guarded (s : Channel) : Prop :=
  match s.control with
  | .get _ true => s.queue.check = true
  | .get p false => ∃ mode it, p = .mouse mode it true
  | .blocked p (some .timeout) => p ≠ .plug
  | .blocked _ (some _) => s.queue.check = true
  | .bugcheck => False
  | _ => True

variable {s s' : Channel} {p : Point} {data : UInt8}

theorem guarded_of_calm (h : Calm s.control) : s.Guarded := by
  rw [Guarded]
  split
  all_goals simp_all only [Calm]

theorem calm_devCmd (cmds : List UInt8) (stage : Stage) : Calm (devCmd cmds stage) := by
  cases cmds with
  | cons cmd rest => trivial
  | nil =>
      cases stage with
      | identity => trivial
      | mode => trivial
      | keybd => trivial
      | mouse mode => trivial

theorem calm_key (state : UInt8) : Calm (s.key state data).control := by
  rw [key]
  split_ifs
  all_goals trivial

theorem calm_packet (mode : UInt8) (it : ℕ) (probe : Bool) :
  Calm (s.packet mode it probe data).control
  := by
  rw [packet]
  split_ifs
  all_goals trivial

/-- After a byte has been taken, the next one is waited for. -/
theorem calm_afterGet (p : Point) : Calm (s.afterGet data p).control := by
  cases p with
  | plug => trivial
  | discard => trivial
  | answer cmd rest stage =>
      change Calm (if data = 0xFA then devCmd rest stage
        else if data = 0xFE then .send cmd rest stage else .restart)
      split_ifs
      · apply calm_devCmd
      · trivial
      · trivial
  | identity =>
      change Calm (if data = 0 then devCmd [0xF3, 200, 0xF3, 100, 0xF3, 80, 0xF2] .mode
        else if data = 0xAB then .wait .keyboard else .restart)
      split_ifs
      all_goals trivial
  | mode =>
      change Calm (if data = 0 ∨ data = 3 then devCmd [0xF3, 40, 0xF4] (.mouse data) else .restart)
      split_ifs
      all_goals trivial
  | keyboard =>
      change Calm (if data ≠ 0x83 then .restart else devCmd [0xF0, 2, 0xF3, 0x7F, 0xF4] .keybd)
      split_ifs
      all_goals trivial
  | keybd state probe => apply calm_key
  | mouse mode it probe => apply calm_packet

/-- A time limit that is over does not lead to a byte, unless there was none. -/
theorem calm_afterWait (h : p ≠ .plug) : Calm (s.afterWait p .timeout).control := by
  cases p with
  | plug => exact absurd rfl h
  | discard => trivial
  | answer cmd rest stage => trivial
  | identity => trivial
  | mode => trivial
  | keyboard => trivial
  | keybd state probe =>
      cases probe with
      | true => trivial
      | false => trivial
  | mouse mode it probe =>
      cases probe with
      | true => trivial
      | false => trivial

/-- After any other wait, there is a byte if there was one before. -/
theorem guarded_afterWait {reason : Reason} (h : reason ≠ .timeout) (hq : s.queue.check = true) :
  (s.afterWait p reason).Guarded
  := by
  have hwait : s.afterWait p reason = s.goto (.get p true) := if_neg h
  rw [hwait]
  apply hq

/-! ### Steps -/

/-- The loop for the mouse is about to take a byte right after it has requested a packet, and there is
none. -/
def Starved (s : Channel) : Prop :=
  (∃ mode it, s.control = .get (.mouse mode it true) false) ∧ s.queue.check = false

/-- A thread on guard takes a byte only if there is one, unless it starves. -/
theorem Guarded.check (h : s.Guarded) (hs : ¬ s.Starved) {waited : Bool}
    (hc : s.control = .get p waited) :
  s.queue.check = true
  := by
  rw [Guarded] at h
  cases waited with
  | true =>
      simp only [hc] at h
      apply h
  | false =>
      simp only [hc] at h
      obtain ⟨mode, it, rfl⟩ := h
      rw [← Bool.not_eq_false]
      intro hempty
      exact hs ⟨⟨mode, it, hc⟩, hempty⟩

/-- The thread stays on guard, unless it starves. -/
theorem Guarded.run (h : s.Guarded) (hs : ¬ s.Starved) (hrun : s.run = some s') : s'.Guarded := by
  have hguard := h
  rw [Guarded] at hguard
  rw [Channel.run] at hrun
  cases hc : s.control with
  | send cmd rest stage =>
      rw [hc] at hrun
      cases hrun
      trivial
  | wait p =>
      simp only [hc] at hrun
      split_ifs at hrun with hq
      · cases hrun
        apply guarded_afterWait (by decide) hq
      · cases hrun
        trivial
  | blocked p reason =>
      cases reason with
      | none =>
          simp only [hc] at hrun
          cases hrun
      | some reason =>
          simp only [hc] at hrun hguard
          cases hrun
          cases reason with
          | timeout => exact guarded_of_calm (calm_afterWait hguard)
          | passed => exact guarded_afterWait (by decide) hguard
          | notify => exact guarded_afterWait (by decide) hguard
  | get p waited =>
      simp only [hc] at hrun
      have hne : s.queue.ring.head ≠ s.queue.ring.tail := of_decide_eq_true (h.check hs hc)
      rw [SafeQueue.get, if_neg hne] at hrun
      cases hrun
      apply guarded_of_calm (calm_afterGet p)
  | echo state =>
      rw [hc] at hrun
      cases hrun
      trivial
  | request mode it =>
      rw [hc] at hrun
      cases hrun
      exact ⟨mode, it, rfl⟩
  | restart =>
      rw [hc] at hrun
      cases hrun
      apply guarded_of_calm
      simp only [fail]
      split_ifs
      all_goals trivial
  | bugcheck =>
      rw [hc] at hrun
      cases hrun

/-- A byte that comes does not take the thread off guard. -/
theorem Guarded.receive (h : s.Guarded) (data : UInt8) : (s.receive data).Guarded := by
  have hq : (s.queue.put data).check = true := s.queue.check_put data
  rw [Guarded] at h
  cases hc : s.control with
  | get p waited =>
      cases waited with
      | true =>
          rw [Guarded, Channel.receive]
          simp only [hc]
          apply hq
      | false =>
          rw [Guarded, Channel.receive]
          simp only [hc] at h ⊢
          apply h
  | blocked p reason =>
      cases reason with
      | none =>
          rw [Guarded, Channel.receive]
          simp only [hc]
          apply hq
      | some reason =>
          rw [Guarded, Channel.receive]
          simp only [hc] at h ⊢
          cases reason with
          | timeout => exact h
          | passed => exact hq
          | notify => exact hq
  | bugcheck => simp only [hc] at h
  | _ =>
      apply guarded_of_calm
      rw [Channel.receive]
      simp only [hc]
      trivial

/-- A time limit that is over does not take the thread off guard. -/
theorem Guarded.onTimer (hs : s.onTimer = some s') : s'.Guarded := by
  rw [Channel.onTimer] at hs
  split at hs
  · split_ifs at hs with hp
    cases hs
    exact hp
  · cases hs

end Channel

/-! ### Runs -/

/-- A step is allowed if the device has answered when the loop for the mouse takes a byte right after it
has requested a packet. -/
def Answered (s : Channel) (a : Action) : Prop := a = .run → ¬ s.Starved

variable {s : Channel}

/-- In a run in which the device answers in time, a byte is only taken from a queue that is not empty,
so that there is no `bugcheck`. -/
theorem get_nonempty (h : machine.Reachable Answered s) :
  s.control ≠ .bugcheck ∧
    ∀ p waited, s.control = .get p waited → Answered s .run → s.queue.check = true
  := by
  have hguard : s.Guarded := by
    apply h.invariant
    · rintro s rfl
      trivial
    · intro s a s' hs ha hstep
      cases a with
      | run => exact hs.run (ha rfl) hstep
      | receive data =>
          cases hstep
          apply hs.receive data
      | onTimer => exact Channel.Guarded.onTimer hstep
  constructor
  · intro hbug
    simp only [Channel.Guarded, hbug] at hguard
  · intro p waited hc ha
    exact hguard.check (ha rfl) hc

/-- A new channel. -/
def new : Channel := ⟨SafeQueue.empty, .wait .plug, 0, []⟩

/-- A device that has just been plugged in. -/
theorem plugged_nonempty :
  ∃ s, s.control = .get .plug true ∧ machine.Reachable Answered s ∧ s.control ≠ .bugcheck ∧
    ∀ p waited, s.control = .get p waited → Answered s .run → s.queue.check = true
  := by
  have hstart : machine.Reachable Answered new := .start rfl
  have hcome : machine.Reachable Answered (new.receive 0xAA) := .step (.receive 0xAA) hstart nofun rfl
  have hwait : machine.Reachable Answered ((new.receive 0xAA).goto (.get .plug true)) := by
    apply Machine.Reachable.step .run hcome _ rfl
    rintro - ⟨⟨mode, it, hc⟩, -⟩
    cases hc
  exact ⟨_, rfl, hwait, get_nonempty hwait⟩

/-- The thread sends a command that is acknowledged. -/
def acknowledged : List Action := [.run, .receive 0xFA, .run, .run]

/-- A mouse is plugged in and brought up; then nothing happens for a second. -/
def idleMouse : List Action :=
  -- `0xAA` comes, and nothing else
  [.receive 0xAA, .run, .run, .run, .onTimer, .run] ++ acknowledged ++ acknowledged ++
    [.receive 0, .run, .run] ++ (List.replicate 7 acknowledged).flatten ++ [.receive 0, .run, .run] ++
    (List.replicate 3 acknowledged).flatten ++ [.run, .onTimer, .run, .run, .run]

/-- The idle mouse is a `bugcheck`. -/
theorem idle_mouse_bugchecks :
  ¬ ∀ s, machine.Reachable Machine.anyStep s → s.control ≠ .bugcheck
  := by
  intro h
  have hrun : (machine.exec new idleMouse).map Channel.control = some .bugcheck := by
    rfl
  rw [Option.map_eq_some_iff] at hrun
  obtain ⟨s, hexec, hbug⟩ := hrun
  have hstart : machine.Reachable Machine.anyStep new := .start rfl
  exact h s (hstart.exec hexec fun _ _ _ => trivial) hbug

end Ps2

end UOS
