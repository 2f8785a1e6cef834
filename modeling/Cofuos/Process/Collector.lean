import Cofuos.Lib.Machine
import Cofuos.Process.Spawn

/-!
# The collector of stopped threads

Stopped threads are put on a queue, from which a thread of the kernel takes them in order to notify
those who wait for them and to release them. A stopped thread gets there when it is found on a ready
queue, when it is killed while it waits, or, if it was running, at the next context switch after
the one by which it has left the processor: until then it is kept in `gc_ptr`. Whoever puts a thread
on the queue signals the event for which the collector waits, unless the collector is the thread
that is about to run. The definitions follow `kernel/process/core_state.cpp`, `waitable::imp_wait`
and `waitable::on_timer` of `kernel/process/waitable.cpp`, and `thread::kill`, `thread::sleep` and
`thread::drop` of `kernel/process/thread.cpp`.

The signal has no memory, and the collector does not look at the queue again when it begins to wait.
In particular, it finds stopped threads itself when it picks the next thread to run.

Only one core is ever started. What happens between disabling and enabling interrupts is one step.
The collector is a thread of the kernel and is never killed.
-/

namespace UOS

/-- Where the collector is in its loop. -/
inductive GcPhase where
  /-- It is going to look at the queue before it waits. -/
  | looking
  /-- It has found the queue empty, or has just been created, and is about to wait. -/
  | leaving
  /-- It is waiting for the event. -/
  | waiting
  deriving DecidableEq, Repr

/-- The core with its threads. -/
structure Core (τ : Type) where
  collector : τ
  state : τ → ThreadState
  priority : τ → ℕ
  /-- The ready queues one after the other, the most urgent one first. Each thread is listed with
  the number of its queue. -/
  ready : List (ℕ × τ)
  thisThread : τ
  gcPtr : Option τ
  gcQueue : List τ
  phase : GcPhase

namespace Core

variable {τ : Type} [DecidableEq τ]

/-- The number of ready queues. -/
def maxPriority : ℕ := 0x10

/-- Puts a thread at the end of its queue. -/
def insertReady (e : ℕ × τ) : List (ℕ × τ) → List (ℕ × τ)
  | [] => [e]
  | x :: rest => if x.1 ≤ e.1 then x :: insertReady e rest else e :: x :: rest

/-- `scheduler::put`. -/
def put (s : Core τ) (t : τ) : Core τ := { s with ready := insertReady (s.priority t, t) s.ready }

/-- A thread becomes ready. -/
def makeReady (s : Core τ) (t : τ) : Core τ :=
  ({ s with state := Function.update s.state t .ready }).put t

/-- What the search for the next thread to run has found. -/
structure Found (τ : Type) where
  next : Option τ
  /-- The stopped threads that have been taken off the queues. -/
  dead : List τ
  /-- The thread that has been passed over. -/
  passed : Option τ
  rest : List (ℕ × τ)

/-- The loop that looks for the next thread to run on the queues below a level. A thread that waits for
another thread passes over the latter. -/
def search (stopped : τ → Bool) (level : ℕ) (skip : Option τ) : List (ℕ × τ) → Found τ
  | [] => ⟨none, [], none, []⟩
  | (l, t) :: rest =>
      if l < level then
        if skip = some t then { search stopped level skip rest with passed := some t }
        else if stopped t then
          let f := search stopped level skip rest
          { f with dead := t :: f.dead }
        else ⟨some t, [], none, rest⟩
      else ⟨none, [], none, (l, t) :: rest⟩

/-- `gc_service::signal`. Only the collector waits for the event. -/
def signal (s : Core τ) (target : Option τ) : Core τ :=
  if target ≠ some s.collector ∧ s.phase = .waiting then
    { s.makeReady s.collector with phase := .looking }
  else s

/-- The core after the search. -/
def found (s : Core τ) (f : Found τ) : Core τ :=
  { s with
    ready := f.rest
    gcQueue := s.gcQueue ++ f.dead
    state := match f.next with
      | some t => Function.update s.state t .running
      | none => s.state }

/-- The search with the signal that follows it. -/
def select (s : Core τ) (level : ℕ) (skip : Option τ) (tell : Option τ → Option τ) :
    Found τ × Core τ :=
  let f := search (fun t => s.state t == .stopped) (min level maxPriority) skip s.ready
  (f, if f.dead = [] then s.found f else (s.found f).signal (tell f.next))

/-- The current thread leaves the processor in a state, unless it is stopped. -/
def leave (s : Core τ) (st : ThreadState) : Core τ :=
  if s.state s.thisThread = .stopped then s
  else if st = .ready then s.makeReady s.thisThread
  else { s with state := Function.update s.state s.thisThread st }

/-- `this_core::irq_switch_to`. -/
def switchTo (s : Core τ) (target : τ) : Core τ :=
  let gcPtr := if s.state s.thisThread = .stopped then some s.thisThread else none
  match s.gcPtr with
  | some g =>
      { ({ s with gcQueue := s.gcQueue ++ [g], gcPtr := gcPtr }).signal (some target) with
        thisThread := target }
  | none => { s with gcPtr := gcPtr, thisThread := target }

/-- `core_manager::preempt`, unless there is no thread to run. -/
def preempt (s : Core τ) (lower : Bool) : Option (Core τ) :=
  let (f, s₁) := s.select (s.priority s.thisThread + lower.toNat) none id
  match f.next with
  | some t => some ((s₁.leave .ready).switchTo t)
  | none =>
      if s₁.state s₁.thisThread = .stopped then
        let (g, s₂) := s₁.select maxPriority none id
        g.next.map s₂.switchTo
      else some s₁

/-- The thread that has been passed over is put back. -/
def putBack (s : Core τ) : Option τ → Core τ
  | some t => s.put t
  | none => s

/-- The current thread waits: `waitable::imp_wait`, or `thread::sleep`, which passes over nobody and
signals regardless of the next thread. -/
def suspend (s : Core τ) (skip : Option τ) (tell : Option τ → Option τ) : Option (Core τ) :=
  let (f, s₁) := s.select maxPriority skip tell
  f.next.map ((s₁.leave .waiting).putBack f.passed).switchTo

/-- The collector waits for the event. -/
def collectorWait (s : Core τ) : Option (Core τ) :=
  let (f, s₁) := s.select maxPriority none id
  f.next.map ({ s₁.leave .waiting with phase := .waiting }).switchTo

/-- The collector takes a thread from the queue, or finds that it is empty. -/
def collectorLook (s : Core τ) : Core τ :=
  match s.gcQueue with
  | _ :: rest => { s with gcQueue := rest }
  | [] => { s with phase := .leaving }

/-- `thread::kill` of another thread, which is not in a critical section. -/
def kill (s : Core τ) (t : τ) : Core τ :=
  let s' := { s with state := Function.update s.state t .stopped }
  if s.state t = .waiting then ({ s' with gcQueue := s.gcQueue ++ [t] }).signal none else s'

/-- The end of a timeout: a more urgent thread runs at once. -/
def onTimer (s : Core τ) (t : τ) : Core τ :=
  if s.priority t < s.priority s.thisThread then
    (({ s with state := Function.update s.state t .running }).leave .ready).switchTo t
  else s.makeReady t

/-- What can happen. Apart from `preempt` and the wake-ups, it is done by the current thread. -/
inductive Action (τ : Type) where
  | preempt (lower : Bool)
  /-- The current thread waits for an object, which may be a thread. -/
  | wait (skip : Option τ)
  | sleep
  /-- The current thread is stopped: it kills itself, or leaves a critical section in which it has
  been killed. -/
  | stop
  | kill (t : τ)
  /-- A thread that waits is notified. -/
  | notify (t : τ)
  | onTimer (t : τ)
  | setPriority (t : τ) (level : ℕ)
  | look
  | gcWait

/-- The thread waits for something other than the event of the collector. -/
def Sleeps (s : Core τ) (t : τ) : Prop :=
  s.state t = .waiting ∧ ¬ (t = s.collector ∧ s.phase = .waiting)

instance (s : Core τ) (t : τ) : Decidable (s.Sleeps t) := inferInstanceAs (Decidable (_ ∧ _))

/-- The current thread can act: it has not been stopped. -/
def Acts (s : Core τ) : Prop := s.state s.thisThread = .running

instance (s : Core τ) : Decidable s.Acts := inferInstanceAs (Decidable (_ = _))

/-- An action, if it is possible. -/
def step (s : Core τ) : Action τ → Option (Core τ)
  | .preempt lower => s.preempt lower
  | .wait skip => if s.Acts ∧ skip ≠ some s.thisThread then s.suspend skip id else none
  | .sleep => if s.Acts then s.suspend none (fun _ => none) else none
  | .stop =>
      if s.Acts ∧ s.thisThread ≠ s.collector then
        some { s with state := Function.update s.state s.thisThread .stopped }
      else none
  | .kill t =>
      if s.Acts ∧ t ≠ s.thisThread ∧ t ≠ s.collector then some (s.kill t) else none
  | .notify t => if s.Sleeps t then some (s.makeReady t) else none
  | .onTimer t => if s.Sleeps t then some (s.onTimer t) else none
  | .setPriority t level =>
      if s.Acts ∧ level < maxPriority then
        some { s with priority := Function.update s.priority t level }
      else none
  | .look =>
      if s.Acts ∧ s.thisThread = s.collector ∧ s.phase = .looking then some s.collectorLook
      else none
  | .gcWait =>
      if s.Acts ∧ s.thisThread = s.collector ∧ s.phase = .leaving then s.collectorWait else none

/-- The core when the collector has been created by the first thread. A thread that does not exist yet
counts as waiting, and is created when it is notified. -/
def boot (collector first : τ) (priority : τ → ℕ) : Core τ where
  collector := collector
  state t := if t = first then .running else if t = collector then .ready else .waiting
  priority := priority
  ready := [(priority collector, collector)]
  thisThread := first
  gcPtr := none
  gcQueue := []
  phase := .leaving

/-- The core from the creation of the collector on. -/
def machine (τ : Type) [DecidableEq τ] : Machine (Core τ) (Action τ) where
  Start s := ∃ collector first priority, collector ≠ first ∧ s = boot collector first priority
  step := step

/-- The stopped threads that are found when the current thread waits. -/
def deadReady (s : Core τ) : List τ :=
  (search (fun t => s.state t == .stopped) maxPriority none s.ready).dead

/-- When the collector begins to wait, nobody is on the queue and no stopped thread is found on a ready
queue before one that can run, or there is a thread in `gc_ptr`, for which the collector is signalled
once it waits. -/
def Settled (s : Core τ) : Action τ → Prop
  | .gcWait => (s.gcQueue = [] ∧ s.deadReady = []) ∨ s.gcPtr ≠ none
  | _ => True

/-- How often a thread is on a ready queue. -/
def listed (l : List (ℕ × τ)) (t : τ) : ℕ := (l.map Prod.snd).count t

theorem listed_insertReady (e : ℕ × τ) (l : List (ℕ × τ)) (t : τ) :
  listed (insertReady e l) t = listed l t + if e.2 = t then 1 else 0
  := by
  induction l with
  | nil => simp [insertReady, listed, List.count_cons]
  | cons x rest ih =>
      rw [insertReady]
      split
      · simp only [listed, List.map_cons, List.count_cons] at ih ⊢
        rw [ih]
        lia
      · simp only [listed, List.map_cons, List.count_cons, beq_iff_eq]

/-- Nobody else is passed over. -/
theorem passed_search (stopped : τ → Bool) (level : ℕ) (skip : Option τ) (l : List (ℕ × τ)) :
  (search stopped level skip l).passed = none ∨ (search stopped level skip l).passed = skip
  := by
  induction l with
  | nil => exact .inl rfl
  | cons x rest ih =>
      obtain ⟨i, t⟩ := x
      rw [search]
      split
      · split
        case isTrue hskip => exact .inr hskip.symm
        case isFalse =>
          split
          · apply ih
          · exact .inl rfl
      · exact .inl rfl

/-- The search takes threads from the queues and keeps the others. -/
theorem listed_search {stopped : τ → Bool} (level : ℕ) (skip : Option τ) {c : τ}
    (hc : stopped c = false) (l : List (ℕ × τ)) (hle : listed l c ≤ 1) :
  listed (search stopped level skip l).rest c
      + (if (search stopped level skip l).next = some c then 1 else 0)
      + (if (search stopped level skip l).passed = some c then 1 else 0) = listed l c
  := by
  induction l with
  | nil => simp [search]
  | cons x rest ih =>
      obtain ⟨i, t⟩ := x
      have hcons : listed ((i, t) :: rest) c = listed rest c + if t = c then 1 else 0 := by
        simp [listed, List.count_cons]
      have ih := ih (by omega)
      rw [search]
      by_cases hlevel : i < level
      · rw [if_pos hlevel]
        by_cases hskip : skip = some t
        · rw [if_pos hskip]
          dsimp only
          by_cases htc : t = c
          · rw [hcons, if_pos htc] at hle ⊢
            rw [if_pos (congrArg some htc)]
            lia
          · have hpassed : (search stopped level skip rest).passed ≠ some c := by
              rcases passed_search stopped level skip rest with h | h
              · rw [h]
                simp
              · rw [h, hskip]
                simpa using htc
            have hne : some t ≠ some c := by simpa using htc
            rw [if_neg hpassed] at ih
            rw [hcons, if_neg htc, if_neg hne]
            apply ih
        · rw [if_neg hskip]
          by_cases hstop : stopped t = true
          · rw [if_pos hstop]
            have htc : t ≠ c := by
              rintro rfl
              rw [hc] at hstop
              cases hstop
            rw [hcons, if_neg htc, Nat.add_zero]
            apply ih
          · rw [if_neg hstop, hcons]
            simp [Option.some.injEq]
      · rw [if_neg hlevel]
        simp

/-! ### Between two steps, and during a context switch -/

/-- What holds of the collector `c` while `next` has been chosen to run and `passed` has been passed
over. -/
structure Mid (c : τ) (s : Core τ) (next passed : Option τ) : Prop where
  collector : s.collector = c
  listed : listed s.ready c + (if passed = some c then 1 else 0) =
    if s.state c = .ready then 1 else 0
  alive : s.state c ≠ .stopped
  running : s.state c = .running ↔ (s.thisThread = c ∨ next = some c)
  apart : s.thisThread = c → next ≠ some c
  waits : s.phase = .waiting → s.state c = .waiting

/-- The collector does not wait while there is a thread on its queue. -/
def Calm (s : Core τ) : Prop := s.phase = .waiting → s.gcQueue = []

/-- What holds between two steps. -/
structure Inv (c : τ) (s : Core τ) : Prop where
  mid : Mid c s none none
  calm : s.Calm

/-- What holds of the collector when the current thread has left the processor to another one, and
`passed` has been passed over. A thread in `gc_ptr` makes up for the queue. -/
structure Off (c : τ) (s : Core τ) (target : τ) (passed : Option τ) : Prop where
  collector : s.collector = c
  listed : Core.listed s.ready c + (if passed = some c then 1 else 0) =
    if s.state c = .ready then 1 else 0
  alive : s.state c ≠ .stopped
  running : s.state c = .running ↔ target = c
  waits : s.phase = .waiting → s.state c = .waiting
  calm : s.phase = .waiting → s.gcQueue = [] ∨ s.gcPtr ≠ none

variable {s s' : Core τ} {c : τ}

/-- The collector is the same for two cores, and at the same place. -/
structure Agree (c : τ) (s s' : Core τ) : Prop where
  collector : s'.collector = s.collector
  listed : Core.listed s'.ready c = Core.listed s.ready c
  state : s'.state c = s.state c
  phase : s'.phase = s.phase

/-- Another thread changes its state. -/
theorem agree_update {t : τ} (hne : t ≠ c) (st : ThreadState) :
  Agree c s { s with state := Function.update s.state t st }
  := ⟨rfl, rfl, Function.update_of_ne hne.symm st s.state, rfl⟩

theorem listed_makeReady (t : τ) :
  listed (s.makeReady t).ready c = listed s.ready c + if t = c then 1 else 0
  := listed_insertReady (s.priority t, t) s.ready c

theorem agree_makeReady {t : τ} (hne : t ≠ c) :
  Agree c s (s.makeReady t)
  := by
  refine ⟨rfl, ?_, Function.update_of_ne hne.symm _ s.state, rfl⟩
  rw [listed_makeReady, if_neg hne, Nat.add_zero]

theorem Mid.of_agree {next passed : Option τ} (h : Mid c s next passed) (ha : Agree c s s')
    (hthis : s'.thisThread = s.thisThread) :
  Mid c s' next passed
  := by
  constructor
  · rw [ha.collector, h.collector]
  · rw [ha.listed, ha.state, h.listed]
  · rw [ha.state]
    apply h.alive
  · rw [ha.state, hthis, h.running]
  · rw [hthis]
    apply h.apart
  · rw [ha.phase, ha.state]
    apply h.waits

theorem Off.of_agree {target : τ} {passed : Option τ} (h : Off c s target passed)
    (ha : Agree c s s') (hcalm : s'.phase = .waiting → s'.gcQueue = [] ∨ s'.gcPtr ≠ none) :
  Off c s' target passed
  := by
  refine ⟨?_, ?_, ?_, ?_, ?_, hcalm⟩
  · rw [ha.collector, h.collector]
  · rw [ha.listed, ha.state, h.listed]
  · rw [ha.state]
    apply h.alive
  · rw [ha.state, h.running]
  · rw [ha.phase, ha.state]
    apply h.waits

/-- A signal is lost unless the collector waits. -/
theorem signal_of_ne (h : s.phase ≠ .waiting) (target : Option τ) : s.signal target = s := by
  rw [signal, if_neg fun hand => h hand.2]

/-- A signal to the collector that waits makes it ready. -/
theorem signal_of_waiting (h : s.phase = .waiting) {target : Option τ}
    (ht : target ≠ some s.collector) :
  s.signal target = { s.makeReady s.collector with phase := .looking }
  := by
  rw [signal, if_pos ⟨ht, h⟩]

/-- After a signal the collector does not wait, unless it is about to run. -/
theorem Mid.signal {next passed target : Option τ} (h : Mid c s next passed)
    (ht : target = some c → s.phase ≠ .waiting) :
  Mid c (s.signal target) next passed ∧ (s.signal target).phase ≠ .waiting
  := by
  by_cases hphase : s.phase = .waiting
  · have hne : target ≠ some s.collector := by
      rw [h.collector]
      exact fun heq => ht heq hphase
    have hwait := h.waits hphase
    have hlisted := h.listed
    rw [hwait, if_neg (show ThreadState.waiting ≠ .ready by decide)] at hlisted
    have hnot : ¬ (s.thisThread = c ∨ next = some c) := by
      rw [← h.running, hwait]
      decide
    rw [not_or] at hnot
    have hstate : (s.makeReady s.collector).state c = .ready := by
      rw [h.collector]
      apply Function.update_self
    rw [signal_of_waiting hphase hne]
    refine ⟨⟨h.collector, ?_, ?_, ?_, ?_, ?_⟩, by simp⟩
    · change Core.listed (s.makeReady s.collector).ready c + _ =
        if (s.makeReady s.collector).state c = .ready then _ else _
      rw [listed_makeReady, hstate, if_pos h.collector, if_pos rfl]
      lia
    · change (s.makeReady s.collector).state c ≠ _
      rw [hstate]
      decide
    · change (s.makeReady s.collector).state c = _ ↔ _
      rw [hstate]
      apply iff_of_false (by decide) (not_or.mpr hnot)
    · intro habs
      exact absurd habs hnot.1
    · intro habs
      cases habs
  · rw [signal_of_ne hphase]
    exact ⟨h, hphase⟩

/-- The search for the next thread. -/
theorem Mid.found (h : Mid c s none none) (level : ℕ) (skip : Option τ) {f : Found τ}
    (hf : f = search (fun t => s.state t == .stopped) level skip s.ready) :
  Mid c (s.found f) f.next f.passed ∧ (s.phase = .waiting → f.next ≠ some c)
  := by
  have hlisted := h.listed
  rw [if_neg (show none ≠ some c by simp), Nat.add_zero] at hlisted
  have hle : Core.listed s.ready c ≤ 1 := by
    rw [hlisted]
    split
    · apply le_rfl
    · apply Nat.zero_le
  have hsearch := @listed_search τ _ (fun t => s.state t == .stopped) level skip c
    (by simpa using h.alive) s.ready hle
  rw [← hf, hlisted] at hsearch
  by_cases hnext : f.next = some c
  · -- the collector was ready
    rw [if_pos hnext] at hsearch
    have hready : s.state c = .ready := by
      by_contra hne
      rw [if_neg hne] at hsearch
      omega
    rw [if_pos hready] at hsearch
    have hstate : (s.found f).state c = .running := by
      simp [Core.found, hnext]
    have hphase : s.phase ≠ .waiting := by
      intro hphase
      have hwait := h.waits hphase
      rw [hready] at hwait
      cases hwait
    have hthis : s.thisThread ≠ c := by
      intro hthis
      have hrun := h.running.mpr (.inl hthis)
      rw [hready] at hrun
      cases hrun
    refine ⟨⟨h.collector, ?_, ?_, ?_, ?_, ?_⟩, fun hp => absurd hp hphase⟩
    · rw [hstate, if_neg (show ThreadState.running ≠ .ready by decide)]
      change Core.listed f.rest c + _ = 0
      lia
    · rw [hstate]
      decide
    · exact ⟨fun _ => .inr hnext, fun _ => hstate⟩
    · intro habs
      exact absurd habs hthis
    · intro habs
      exact absurd habs hphase
  · rw [if_neg hnext, Nat.add_zero] at hsearch
    have hstate : (s.found f).state c = s.state c := by
      cases hn : f.next with
      | some t =>
          have hne : c ≠ t := by
            rintro rfl
            apply hnext hn
          simp [Core.found, hn, Function.update_of_ne hne]
      | none => simp [Core.found, hn]
    refine ⟨⟨h.collector, ?_, ?_, ?_, ?_, ?_⟩, fun _ => hnext⟩
    · rw [hstate]
      apply hsearch
    · rw [hstate]
      apply h.alive
    · rw [hstate, h.running]
      exact ⟨fun hor => .inl (hor.resolve_right (by simp)), fun hor => .inl (hor.resolve_right hnext)⟩
    · intro _
      apply hnext
    · intro hphase
      rw [hstate]
      apply h.waits hphase

/-- The search and the signal that follows it. -/
theorem Inv.select (h : s.Inv c) (level : ℕ) (skip : Option τ) {tell : Option τ → Option τ}
    (htell : ∀ x, tell x = some c → x = some c) :
  Mid c (s.select level skip tell).2 (s.select level skip tell).1.next
    (s.select level skip tell).1.passed ∧ (s.select level skip tell).2.Calm
  := by
  rw [Core.select]
  obtain ⟨f, hf⟩ : ∃ f, f = search (fun t => s.state t == .stopped) (min level maxPriority) skip
    s.ready := ⟨_, rfl⟩
  obtain ⟨hmid, hnext⟩ := h.mid.found (min level maxPriority) skip hf
  rw [← hf]
  by_cases hdead : f.dead = []
  · simp only [if_pos hdead]
    refine ⟨hmid, ?_⟩
    intro hphase
    change s.gcQueue ++ f.dead = []
    rw [hdead, List.append_nil]
    apply h.calm hphase
  · simp only [if_neg hdead]
    obtain ⟨hsignal, hphase⟩ := @Mid.signal _ _ _ _ _ _ (tell f.next) hmid
      fun heq hp => hnext hp (htell _ heq)
    exact ⟨hsignal, fun hp => absurd hp hphase⟩

/-! ### The context switch -/

/-- Another thread than the collector is about to leave the processor. -/
theorem Mid.off {target : τ} {passed : Option τ} (h : Mid c s (some target) passed)
    (hcalm : s.Calm) (hne : s.thisThread ≠ c) :
  Off c s target passed
  := by
  refine ⟨h.collector, h.listed, h.alive, ?_, h.waits, fun hp => .inl (hcalm hp)⟩
  rw [h.running]
  exact ⟨fun hor => Option.some.inj (hor.resolve_left hne), fun heq => .inr (congrArg some heq)⟩

/-- Another thread than the collector leaves the processor. -/
theorem Mid.leave_other {target : τ} {passed : Option τ} (h : Mid c s (some target) passed)
    (hcalm : s.Calm) (st : ThreadState) (hne : s.thisThread ≠ c) :
  Off c (s.leave st) target passed
  := by
  have hoff := h.off hcalm hne
  rw [Core.leave]
  split_ifs
  · apply hoff
  · apply hoff.of_agree (agree_makeReady hne)
    exact fun hp => .inl (hcalm hp)
  · apply hoff.of_agree (agree_update hne st)
    exact fun hp => .inl (hcalm hp)

/-- The collector leaves the processor, and is ready or waits for something else than its event. -/
theorem Mid.leave_collector {target : τ} {passed : Option τ} (h : Mid c s (some target) passed)
    (heq : s.thisThread = c) {st : ThreadState} (hst : st = .ready ∨ st = .waiting) :
  Off c (s.leave st) target passed ∧ (s.leave st).state c = st ∧ (s.leave st).phase ≠ .waiting
  := by
  have hrun := h.running.mpr (.inl heq)
  have hlisted := h.listed
  rw [hrun, if_neg (show ThreadState.running ≠ .ready by decide)] at hlisted
  have htarget : target ≠ c := fun heq' => h.apart heq (congrArg some heq')
  have hphase : s.phase ≠ .waiting := by
    intro hp
    have hwait := h.waits hp
    rw [hrun] at hwait
    cases hwait
  have hleave : s.leave st = if st = .ready then s.makeReady c
      else { s with state := Function.update s.state c st } := by
    rw [Core.leave, heq, if_neg (by rw [hrun]; decide)]
  rw [hleave]
  rcases hst with rfl | rfl
  · rw [if_pos rfl]
    have hstate : (s.makeReady c).state c = .ready := Function.update_self ..
    refine ⟨⟨h.collector, ?_, ?_, ?_, fun hp => absurd hp hphase, fun hp => absurd hp hphase⟩,
      hstate, hphase⟩
    · rw [listed_makeReady, hstate, if_pos rfl, if_pos rfl]
      omega
    · rw [hstate]
      decide
    · rw [hstate]
      apply iff_of_false (by decide) htarget
  · rw [if_neg (by decide)]
    refine ⟨⟨h.collector, ?_, ?_, ?_, fun hp => absurd hp hphase, fun hp => absurd hp hphase⟩,
      Function.update_self .., hphase⟩
    · simp only [Function.update_self, reduceCtorEq, if_false]
      apply hlisted
    · simp only [Function.update_self]
      decide
    · simp only [Function.update_self]
      apply iff_of_false (by decide) htarget

theorem Mid.leave {target : τ} {passed : Option τ} (h : Mid c s (some target) passed)
    (hcalm : s.Calm) {st : ThreadState} (hst : st = .ready ∨ st = .waiting) :
  Off c (s.leave st) target passed
  := by
  by_cases heq : s.thisThread = c
  · apply (h.leave_collector heq hst).1
  · apply h.leave_other hcalm st heq

/-- The thread that has been passed over is put back. -/
theorem Off.putBack {target : τ} {passed : Option τ} (h : Off c s target passed) :
  Off c (s.putBack passed) target none
  := by
  cases passed with
  | none => apply h
  | some t =>
      refine ⟨h.collector, ?_, h.alive, h.running, h.waits, h.calm⟩
      have hlisted := h.listed
      rw [Core.putBack, put, listed_insertReady, if_neg (show none ≠ some c by simp), Nat.add_zero]
      simpa using hlisted

/-- A signal does not depend on the current thread. -/
theorem signal_thisThread (target : Option τ) (t : τ) :
  { s.signal target with thisThread := t } = ({ s with thisThread := t }).signal target
  := by
  by_cases h : target ≠ some s.collector ∧ s.phase = .waiting
  · rw [signal, signal, if_pos h, if_pos h]
    rfl
  · rw [signal, signal, if_neg h, if_neg h]

/-- After the context switch. -/
theorem Off.switchTo {target : τ} (h : Off c s target none) : (s.switchTo target).Inv c := by
  have hmid : ∀ gcQueue gcPtr, Mid c { s with gcQueue := gcQueue, gcPtr := gcPtr, thisThread := target }
      none none := by
    intro gcQueue gcPtr
    refine ⟨h.collector, h.listed, h.alive, ?_, fun _ => by simp, h.waits⟩
    rw [h.running]
    simp
  rw [Core.switchTo]
  split
  case h_1 g hg =>
    dsimp only
    rw [signal_thisThread]
    obtain ⟨hsignal, hphase⟩ := @Mid.signal _ _ _ _ _ _ (some target) (hmid _ _) (by
      intro heq hp
      have hrun := h.running.mpr (Option.some.inj heq)
      rw [h.waits hp] at hrun
      cases hrun)
    exact ⟨hsignal, fun hp => absurd hp hphase⟩
  case h_2 hg =>
    refine ⟨hmid _ _, ?_⟩
    intro hp
    exact (h.calm hp).resolve_right (not_not.mpr hg)

/-! ### The steps -/

/-- The search does not change the current thread. -/
theorem thisThread_select (level : ℕ) (skip : Option τ) (tell : Option τ → Option τ) :
  (s.select level skip tell).2.thisThread = s.thisThread
  := by
  rw [Core.select]
  split_ifs
  · rfl
  · rw [signal]
    split_ifs
    · rfl
    · rfl

/-- Nobody is passed over unless the current thread waits for somebody. -/
theorem passed_select (level : ℕ) (tell : Option τ → Option τ) :
  (s.select level none tell).1.passed = none
  := (passed_search _ _ none s.ready).elim id id

theorem gcQueue_leave (st : ThreadState) : (s.leave st).gcQueue = s.gcQueue := by
  rw [Core.leave]
  split_ifs
  · rfl
  · rfl
  · rfl

theorem gcPtr_leave (st : ThreadState) : (s.leave st).gcPtr = s.gcPtr := by
  rw [Core.leave]
  split_ifs
  · rfl
  · rfl
  · rfl

theorem Inv.preempt (h : s.Inv c) {lower : Bool} (hstep : s.preempt lower = some s') : s'.Inv c := by
  obtain ⟨hmid, hcalm⟩ := @Inv.select _ _ _ _ h (s.priority s.thisThread + lower.toNat) none id
    fun _ heq => heq
  rw [passed_select] at hmid
  rw [Core.preempt] at hstep
  obtain ⟨r, hr⟩ : ∃ r, r = s.select (s.priority s.thisThread + lower.toNat) none id := ⟨_, rfl⟩
  rw [← hr] at hmid hcalm hstep
  obtain ⟨f, s₁⟩ := r
  dsimp only at hmid hcalm hstep
  cases hnext : f.next with
  | some t =>
      simp only [hnext, Option.some.injEq] at hstep hmid
      subst hstep
      apply (hmid.leave hcalm (.inl rfl)).switchTo
  | none =>
      simp only [hnext] at hstep hmid
      have h₁ : s₁.Inv c := ⟨hmid, hcalm⟩
      split_ifs at hstep with hstop
      · -- the current thread is stopped, so that it has to leave
        have hne : s₁.thisThread ≠ c := by
          intro heq
          rw [heq] at hstop
          apply hmid.alive hstop
        obtain ⟨hmid₂, hcalm₂⟩ := @Inv.select _ _ _ _ h₁ maxPriority none id fun _ heq => heq
        rw [passed_select] at hmid₂
        rw [Option.map_eq_some_iff] at hstep
        obtain ⟨t, ht, rfl⟩ := hstep
        rw [ht] at hmid₂
        apply Off.switchTo
        apply hmid₂.off hcalm₂
        rw [thisThread_select]
        apply hne
      · cases hstep
        apply h₁

theorem Inv.suspend (h : s.Inv c) {skip : Option τ} {tell : Option τ → Option τ}
    (htell : ∀ x, tell x = some c → x = some c) (hstep : s.suspend skip tell = some s') :
  s'.Inv c
  := by
  obtain ⟨hmid, hcalm⟩ := h.select maxPriority skip htell
  rw [Core.suspend, Option.map_eq_some_iff] at hstep
  obtain ⟨t, ht, rfl⟩ := hstep
  rw [ht] at hmid
  apply Off.switchTo
  apply Off.putBack
  apply hmid.leave hcalm (.inr rfl)

/-- The collector begins to wait. -/
theorem Inv.collectorWait (h : s.Inv c) (hthis : s.thisThread = c) (hphase : s.phase = .leaving)
    (hsettled : s.Settled .gcWait) (hstep : s.collectorWait = some s') :
  s'.Inv c
  := by
  obtain ⟨hmid, hcalm⟩ := @Inv.select _ _ _ _ h maxPriority none id fun _ heq => heq
  rw [passed_select] at hmid
  -- a signal would be lost
  have hselect : (s.select maxPriority none id).2 = s.found (s.select maxPriority none id).1 := by
    have hne : (s.found (s.select maxPriority none id).1).phase ≠ .waiting := by
      change s.phase ≠ .waiting
      rw [hphase]
      decide
    rw [Core.select] at hne ⊢
    dsimp only at hne ⊢
    rw [signal_of_ne hne, ite_self]
  rw [Core.collectorWait, Option.map_eq_some_iff] at hstep
  obtain ⟨t, ht, rfl⟩ := hstep
  rw [ht] at hmid
  obtain ⟨hoff, hstate, _⟩ := hmid.leave_collector (by rw [thisThread_select, hthis]) (.inr rfl)
  apply Off.switchTo
  refine ⟨hoff.collector, hoff.listed, hoff.alive, hoff.running, fun _ => hstate, ?_⟩
  intro _
  change (Core.leave _ _).gcQueue = [] ∨ (Core.leave _ _).gcPtr ≠ none
  rw [gcQueue_leave, gcPtr_leave, hselect]
  rcases hsettled with ⟨hqueue, hdead⟩ | hptr
  · left
    change s.gcQueue ++ s.deadReady = []
    rw [hqueue, hdead]
    rfl
  · exact .inr hptr

/-- The collector has looked at its queue. -/
theorem Inv.collectorLook (h : s.Inv c) (hphase : s.phase = .looking) : s.collectorLook.Inv c := by
  rw [Core.collectorLook]
  split
  · refine ⟨h.mid.of_agree ⟨rfl, rfl, rfl, rfl⟩ rfl, ?_⟩
    intro habs
    change s.phase = .waiting at habs
    rw [hphase] at habs
    cases habs
  · refine ⟨⟨h.mid.collector, h.mid.listed, h.mid.alive, h.mid.running, h.mid.apart, ?_⟩, ?_⟩
    · intro habs
      cases habs
    · intro habs
      cases habs

theorem Inv.kill (h : s.Inv c) {t : τ} (hne : t ≠ c) : (s.kill t).Inv c := by
  have hmid := h.mid.of_agree (agree_update hne .stopped) rfl
  rw [Core.kill]
  split
  · obtain ⟨hsignal, hphase⟩ := @Mid.signal _ _ { s with
        state := Function.update s.state t .stopped, gcQueue := s.gcQueue ++ [t] } _ _ _ none
      (hmid.of_agree ⟨rfl, rfl, rfl, rfl⟩ rfl) (fun heq => by cases heq)
    exact ⟨hsignal, fun hp => absurd hp hphase⟩
  · exact ⟨hmid, h.calm⟩

/-- A thread that sleeps becomes ready. -/
theorem Inv.makeReady (h : s.Inv c) {t : τ} (hs : s.Sleeps t) : (s.makeReady t).Inv c := by
  by_cases hne : t = c
  · subst hne
    have hphase : s.phase ≠ .waiting := fun hp => hs.2 ⟨h.mid.collector.symm, hp⟩
    have hlisted := h.mid.listed
    rw [hs.1, if_neg (show ThreadState.waiting ≠ .ready by decide)] at hlisted
    have hstate : (s.makeReady t).state t = .ready := Function.update_self ..
    have hnot : ¬ (s.thisThread = t ∨ none = some t) := by
      rw [← h.mid.running, hs.1]
      decide
    refine ⟨⟨h.mid.collector, ?_, ?_, ?_, h.mid.apart, fun hp => absurd hp hphase⟩,
      fun hp => absurd hp hphase⟩
    · rw [listed_makeReady, hstate, if_pos rfl, if_pos rfl]
      lia
    · rw [hstate]
      decide
    · rw [hstate]
      apply iff_of_false (by decide) hnot
  · exact ⟨h.mid.of_agree (agree_makeReady hne) rfl, h.calm⟩

/-- A thread that sleeps is chosen to run. -/
theorem Inv.run (h : s.Inv c) {t : τ} (hs : s.Sleeps t) :
  Mid c { s with state := Function.update s.state t .running } (some t) none
  := by
  by_cases hne : t = c
  · subst hne
    have hphase : s.phase ≠ .waiting := fun hp => hs.2 ⟨h.mid.collector.symm, hp⟩
    have hlisted := h.mid.listed
    rw [hs.1, if_neg (show ThreadState.waiting ≠ .ready by decide)] at hlisted
    have hnot : ¬ (s.thisThread = t ∨ none = some t) := by
      rw [← h.mid.running, hs.1]
      decide
    refine ⟨h.mid.collector, ?_, ?_, ?_, ?_, fun hp => absurd hp hphase⟩
    · simp only [Function.update_self, reduceCtorEq, if_false]
      apply hlisted
    · simp only [Function.update_self]
      decide
    · simp only [Function.update_self, or_true]
    · intro habs
      exact absurd (.inl habs) hnot
  · have hmid := h.mid.of_agree (agree_update hne .running) rfl
    refine ⟨hmid.collector, hmid.listed, hmid.alive, ?_, ?_, hmid.waits⟩
    · rw [hmid.running]
      simp [hne]
    · intro _
      simpa using hne

theorem Inv.onTimer (h : s.Inv c) {t : τ} (hs : s.Sleeps t) : (s.onTimer t).Inv c := by
  rw [Core.onTimer]
  split
  · apply Off.switchTo
    apply (h.run hs).leave h.calm (.inl rfl)
  · apply h.makeReady hs

/-- Every step of a core whose collector is settled when it waits keeps the invariant. -/
theorem Inv.step (h : s.Inv c) {a : Action τ} (hsettled : s.Settled a) (hstep : s.step a = some s') :
  s'.Inv c
  := by
  cases a with
  | preempt lower => apply h.preempt hstep
  | wait skip =>
      rw [Core.step, Option.ite_none_right_eq_some] at hstep
      apply h.suspend (fun _ heq => heq) hstep.2
  | sleep =>
      rw [Core.step, Option.ite_none_right_eq_some] at hstep
      apply h.suspend (fun _ heq => by cases heq) hstep.2
  | stop =>
      rw [Core.step, Option.ite_none_right_eq_some] at hstep
      cases hstep.2
      have hne : s.thisThread ≠ c := by
        rw [← h.mid.collector]
        apply hstep.1.2
      exact ⟨h.mid.of_agree (agree_update hne .stopped) rfl, h.calm⟩
  | kill t =>
      rw [Core.step, Option.ite_none_right_eq_some, h.mid.collector] at hstep
      cases hstep.2
      apply h.kill hstep.1.2.2
  | notify t =>
      rw [Core.step, Option.ite_none_right_eq_some] at hstep
      cases hstep.2
      apply h.makeReady hstep.1
  | onTimer t =>
      rw [Core.step, Option.ite_none_right_eq_some] at hstep
      cases hstep.2
      apply h.onTimer hstep.1
  | setPriority t level =>
      rw [Core.step, Option.ite_none_right_eq_some] at hstep
      cases hstep.2
      exact ⟨h.mid.of_agree ⟨rfl, rfl, rfl, rfl⟩ rfl, h.calm⟩
  | look =>
      rw [Core.step, Option.ite_none_right_eq_some] at hstep
      cases hstep.2
      apply h.collectorLook hstep.1.2.2
  | gcWait =>
      rw [Core.step, Option.ite_none_right_eq_some, h.mid.collector] at hstep
      apply h.collectorWait hstep.1.2.1 hstep.1.2.2 hsettled hstep.2

theorem inv_boot {first : τ} (hne : c ≠ first) (priority : τ → ℕ) :
  (boot c first priority).Inv c
  := by
  refine ⟨⟨rfl, ?_, ?_, ?_, ?_, ?_⟩, ?_⟩
  · simp [boot, listed, hne]
  · simp [boot, hne]
  · simp [boot, hne, hne.symm]
  · intro habs
    exact absurd habs.symm hne
  · intro habs
    cases habs
  · intro habs
    cases habs

end Core

end UOS
