import Cofuos.FileSystem.ThreadPool
import Cofuos.Lib.Machine
import Cofuos.Lib.Tally

/-!
# Stopping the pool of worker threads

The file system stops its workers before it marks the volume as clean. It sets a flag and waits
until all of them have left. A worker looks at the flag before it looks at the list of requests,
and leaves if it finds it set, whatever is on the list. The definitions follow
`exfat::thread_pool::stop`, `put` and `get` and `exfat::thread_worker` of
`kernel/filesystem/worker.cpp`.

As for the pool that is not being stopped, a step is what happens while the lock of the list is held,
or while interrupts are off, and threads may be preempted between any two steps.
-/

namespace UOS

/-- What a worker of a pool that may be stopped is doing. -/
inductive Server (ρ : Type) where
  /-- It is about to look at the flag. -/
  | test
  /-- It has found the flag not set, and is about to look at the list. -/
  | enter
  /-- It holds the lock of the list. -/
  | inside
  /-- It has found the list empty and has given up the lock. -/
  | empty
  /-- It is blocked in `barrier.wait`. -/
  | waiting
  /-- It is executing a request. -/
  | serving (f : ρ)
  /-- It has reset the command of the request, and is about to release its references. -/
  | releasing (f : ρ)
  /-- It has found the flag set. -/
  | leaving
  /-- It does not count any more, and is about to signal. -/
  | signalling
  | exited
  deriving DecidableEq, Repr

/-- The worker is going to look at the list before it looks at the flag again. -/
def Server.isLooking {ρ : Type} : Server ρ → Bool
  | .enter | .inside => true
  | _ => false

/-- The worker counts as present. -/
def Server.isCounted {ρ : Type} : Server ρ → Bool
  | .signalling | .exited => false
  | _ => true

/-- The request that the worker has taken and not finished. -/
def Server.request {ρ : Type} : Server ρ → Option ρ
  | .serving f | .releasing f => some f
  | _ => none

/-- What a worker may keep when it moves: whether it is going to look at the list, whether it counts,
and its request. -/
structure Server.Same {ρ : Type} (a b : Server ρ) : Prop where
  isLooking : a.isLooking = b.isLooking
  isCounted : a.isCounted = b.isCounted
  request : a.request = b.request

/-- What the thread that stops the pool is doing. -/
inductive Stopper where
  /-- `stop` has not been called. -/
  | idle
  /-- It is about to signal the barrier. -/
  | signal
  /-- It is about to wait for the barrier, for a second at most. -/
  | wait
  | waiting
  /-- It is about to look at the number of workers. -/
  | test
  /-- `stop` has returned. -/
  | returned
  deriving DecidableEq, Repr

/-- The pool with its workers, its clients, and the thread that stops it. -/
structure Shutdown (n : ℕ) (ρ : Type) where
  stopping : Bool
  workerCount : ℕ
  /-- The lock of the list is held. -/
  objlock : Bool
  requestList : List ρ
  /-- The threads that are blocked in `barrier.wait`: workers, and `none` for the one that stops
  the pool. -/
  barrier : List (Option (Fin n))
  worker : Fin n → Server ρ
  client : ℕ → Client ρ
  stopper : Stopper
  /-- The requests that `put` has accepted before the flag was set. -/
  accepted : List ρ
  /-- The requests whose command has been reset and whose references have been released. -/
  completed : List ρ

namespace Shutdown

variable {n : ℕ} {ρ : Type}

/-- The pool when it has been launched. -/
def launch (n : ℕ) (ρ : Type) : Shutdown n ρ where
  stopping := false
  workerCount := n
  objlock := false
  requestList := []
  barrier := []
  worker _ := .test
  client _ := .idle
  stopper := .idle
  accepted := []
  completed := []

/-- Moves a worker. -/
def setWorker (s : Shutdown n ρ) (w : Fin n) (pc : Server ρ) : Shutdown n ρ :=
  { s with worker := Function.update s.worker w pc }

/-- Moves a client. -/
def setClient (s : Shutdown n ρ) (c : ℕ) (pc : Client ρ) : Shutdown n ρ :=
  { s with client := Function.update s.client c pc }

/-- `event::signal_one` of the barrier. -/
def signalOne (s : Shutdown n ρ) : Shutdown n ρ :=
  match s.barrier with
  | [] => s
  | none :: rest => { s with barrier := rest, stopper := .test }
  | some w :: rest => { s.setWorker w .test with barrier := rest }

/-- A step of `thread_pool::get`, and of the worker between two calls of it. -/
def stepWorker (s : Shutdown n ρ) (w : Fin n) : Option (Shutdown n ρ) :=
  match s.worker w with
  | .test => some (s.setWorker w (if s.stopping then .leaving else .enter))
  | .enter => if s.objlock = true then none else some { s.setWorker w .inside with objlock := true }
  | .inside =>
      match s.requestList with
      | f :: rest => some { s.setWorker w (.serving f) with objlock := false, requestList := rest }
      | [] => some { s.setWorker w .empty with objlock := false }
  | .empty => some { s.setWorker w .waiting with barrier := s.barrier ++ [some w] }
  | .waiting => none
  | .serving f => some (s.setWorker w (.releasing f))
  | .releasing f => some { s.setWorker w .test with completed := f :: s.completed }
  | .leaving => some { s.setWorker w .signalling with workerCount := s.workerCount - 1 }
  | .signalling => some (s.signalOne.setWorker w .exited)
  | .exited => none

/-- A step of `thread_pool::put`. -/
def stepClient (s : Shutdown n ρ) (c : ℕ) : Option (Shutdown n ρ) :=
  match s.client c with
  | .idle => none
  | .enter f =>
      if s.objlock = true then none else some { s.setClient c (.inside f) with objlock := true }
  | .inside f =>
      some { s.setClient c .signal with
        objlock := false
        requestList := s.requestList ++ [f]
        accepted := if s.stopping then s.accepted else f :: s.accepted }
  | .signal => some (s.signalOne.setClient c .idle)

/-- A step of `thread_pool::stop`. -/
def stepStopper (s : Shutdown n ρ) : Option (Shutdown n ρ) :=
  match s.stopper with
  | .idle => some { s with stopping := true, stopper := .signal }
  | .signal => some { s.signalOne with stopper := .wait }
  | .wait => some { s with stopper := .waiting, barrier := s.barrier ++ [none] }
  | .waiting => none
  | .test => some { s with stopper := if s.workerCount ≠ 0 then .signal else .returned }
  | .returned => none

/-- The threads that can take a step. -/
inductive Actor (n : ℕ) (ρ : Type) where
  | worker (w : Fin n)
  /-- The client calls `put`. -/
  | call (c : ℕ) (f : ρ)
  | client (c : ℕ)
  | stopper
  /-- The second for which the stopping thread waits is over. -/
  | timeout

/-- A step of a thread, unless it is blocked. -/
def step (s : Shutdown n ρ) : Actor n ρ → Option (Shutdown n ρ)
  | .worker w => s.stepWorker w
  | .call c f => match s.client c with
      | .idle => some (s.setClient c (.enter f))
      | _ => none
  | .client c => s.stepClient c
  | .stopper => s.stepStopper
  | .timeout => match s.stopper with
      | .waiting => some { s with stopper := .test, barrier := s.barrier.erase none }
      | _ => none

/-- The pool from its launch on. -/
def machine (n : ℕ) (ρ : Type) : Machine (Shutdown n ρ) (Actor n ρ) where
  Start s := s = launch n ρ
  step := step

/-- When the flag is set, there are no more requests on the list than workers that are going to look
at the list before they look at the flag. -/
def Drained (s : Shutdown n ρ) : Actor n ρ → Prop
  | .stopper => s.stopper = .idle → s.requestList.length ≤ tally Server.isLooking s.worker
  | _ => True

/-! ### The barrier -/

variable {s s' : Shutdown n ρ}

/-- The threads on the barrier are blocked. -/
structure Queue (s : Shutdown n ρ) : Prop where
  worker : ∀ w, some w ∈ s.barrier → s.worker w = .waiting
  stopper : none ∈ s.barrier → s.stopper = .waiting
  nodup : s.barrier.Nodup

/-- A worker that is not blocked moves. -/
theorem Queue.setWorker (h : s.Queue) {w : Fin n} (hw : s.worker w ≠ .waiting) (pc : Server ρ) :
  (s.setWorker w pc).Queue
  := by
  refine ⟨?_, h.stopper, h.nodup⟩
  intro v hv
  have hwait := h.worker v hv
  have hne : v ≠ w := by
    rintro rfl
    apply hw hwait
  change Function.update s.worker w pc v = _
  rw [Function.update_of_ne hne, hwait]

/-- A thread that is not on the barrier begins to wait. -/
theorem Queue.append (h : s.Queue) {x : Option (Fin n)} (hx : x ∉ s.barrier)
    (hworker : ∀ w, x = some w → s.worker w = .waiting)
    (hstopper : x = none → s.stopper = .waiting) :
  Queue { s with barrier := s.barrier ++ [x] }
  := by
  refine ⟨?_, ?_, ?_⟩
  · intro w hw
    rcases List.mem_append.mp hw with hw | hw
    · apply h.worker w hw
    · apply hworker w (List.mem_singleton.mp hw).symm
  · intro hnone
    rcases List.mem_append.mp hnone with hnone | hnone
    · apply h.stopper hnone
    · apply hstopper (List.mem_singleton.mp hnone).symm
  · apply (List.nodup_append_comm).mp
    rw [List.singleton_append, List.nodup_cons]
    exact ⟨hx, h.nodup⟩

theorem Queue.signalOne (h : s.Queue) : s.signalOne.Queue := by
  rw [Shutdown.signalOne]
  cases hb : s.barrier with
  | nil => apply h
  | cons x rest =>
      have hnodup := h.nodup
      rw [hb, List.nodup_cons] at hnodup
      have hrest : ∀ y ∈ rest, y ∈ s.barrier := by
        intro y hy
        rw [hb]
        apply List.mem_cons_of_mem x hy
      cases x with
      | none =>
          refine ⟨?_, ?_, hnodup.2⟩
          · intro w hw
            apply h.worker w (hrest _ hw)
          · intro hnone
            exact absurd hnone hnodup.1
      | some w =>
          refine ⟨?_, ?_, hnodup.2⟩
          · intro v hv
            have hne : v ≠ w := by
              rintro rfl
              apply hnodup.1 hv
            change Function.update s.worker w .test v = _
            rw [Function.update_of_ne hne, h.worker v (hrest _ hv)]
          · intro hnone
            apply h.stopper (hrest _ hnone)

/-! ### The requests -/

/-- A worker has taken the request, or it has been completed. -/
def Taken (s : Shutdown n ρ) (f : ρ) : Prop :=
  (∃ w, (s.worker w).request = some f) ∨ f ∈ s.completed

/-- The requests that have been accepted in time are at the beginning of the list, or have been
taken. Once the flag is set, there is a worker for each of them that is going to look at the
list. -/
def Kept (s : Shutdown n ρ) : Prop :=
  ∃ early late, s.requestList = early ++ late ∧ (s.stopping = false → late = []) ∧
    (s.stopping = true → early.length ≤ tally Server.isLooking s.worker) ∧
    ∀ f ∈ s.accepted, f ∈ early ∨ s.Taken f

/-- A step that does not concern the requests. -/
structure Quiet (s s' : Shutdown n ρ) : Prop where
  worker : ∀ w, (s'.worker w).Same (s.worker w)
  requestList : s'.requestList = s.requestList
  accepted : s'.accepted = s.accepted
  completed : s'.completed = s.completed
  stopping : s'.stopping = s.stopping
  workerCount : s'.workerCount = s.workerCount

/-- A worker moves and keeps what it has. -/
theorem same_update {w : Fin n} {pc : Server ρ} (h : pc.Same (s.worker w)) (v : Fin n) :
  (Function.update s.worker w pc v).Same (s.worker v)
  := by
  by_cases hv : v = w
  · subst hv
    rw [Function.update_self]
    apply h
  · rw [Function.update_of_ne hv]
    exact ⟨rfl, rfl, rfl⟩

theorem quiet_signalOne (h : s.Queue) : Quiet s s.signalOne := by
  have hsame : ∀ w, (s.worker w).Same (s.worker w) := fun w => ⟨rfl, rfl, rfl⟩
  rw [Shutdown.signalOne]
  cases hb : s.barrier with
  | nil => exact ⟨hsame, rfl, rfl, rfl, rfl, rfl⟩
  | cons x rest =>
      cases x with
      | none => exact ⟨hsame, rfl, rfl, rfl, rfl, rfl⟩
      | some w =>
          have hwait := h.worker w (by rw [hb]; apply List.mem_cons_self)
          refine ⟨same_update ?_, rfl, rfl, rfl, rfl, rfl⟩
          rw [hwait]
          exact ⟨rfl, rfl, rfl⟩

theorem Quiet.taken (h : Quiet s s') {f : ρ} (hf : s.Taken f) : s'.Taken f := by
  rcases hf with ⟨w, hw⟩ | hf
  · left
    use w
    rw [(h.worker w).request, hw]
  · right
    rw [h.completed]
    apply hf

theorem Kept.of_quiet (h : s.Kept) (hq : Quiet s s') : s'.Kept := by
  obtain ⟨early, late, hlist, hlate, hearly, haccepted⟩ := h
  refine ⟨early, late, ?_, ?_, ?_, ?_⟩
  · rw [hq.requestList, hlist]
  · rw [hq.stopping]
    apply hlate
  · rw [hq.stopping, tally_congr fun w => (hq.worker w).isLooking]
    apply hearly
  · rw [hq.accepted]
    intro f hf
    exact (haccepted f hf).imp_right hq.taken

/-- Where the stopping thread is, and what it has found. -/
structure Phase (s : Shutdown n ρ) : Prop where
  stopping : s.stopping = true ↔ s.stopper ≠ .idle
  returned : s.stopper = .returned → s.workerCount = 0

theorem Phase.signalOne (h : s.Phase) (hq : s.Queue) : s.signalOne.Phase := by
  rw [Shutdown.signalOne]
  cases hb : s.barrier with
  | nil => apply h
  | cons x rest =>
      cases x with
      | none =>
          have hwait := hq.stopper (by rw [hb]; apply List.mem_cons_self)
          have hstopping := h.stopping
          rw [hwait] at hstopping
          refine ⟨?_, ?_⟩
          · change s.stopping = true ↔ Stopper.test ≠ .idle
            rw [hstopping]
            decide
          · intro habs
            cases habs
      | some w => exact ⟨h.stopping, h.returned⟩

/-- The pool in every state of a run. -/
structure Inv (s : Shutdown n ρ) : Prop where
  queue : s.Queue
  kept : s.Kept
  phase : s.Phase
  count : s.workerCount = tally Server.isCounted s.worker

/-- A quiet step keeps what concerns requests. -/
theorem Inv.of_quiet (h : s.Inv) (hq : Quiet s s') (hqueue : s'.Queue) (hphase : s'.Phase) :
  s'.Inv
  := by
  refine ⟨hqueue, h.kept.of_quiet hq, hphase, ?_⟩
  rw [hq.workerCount, h.count]
  apply tally_congr
  intro w
  apply (hq.worker w).isCounted.symm

theorem Inv.signalOne (h : s.Inv) : s.signalOne.Inv :=
  h.of_quiet (quiet_signalOne h.queue) h.queue.signalOne (h.phase.signalOne h.queue)

/-- A worker that is not blocked moves, and keeps what it has. -/
theorem Inv.setWorker (h : s.Inv) {w : Fin n} {pc : Server ρ} (hw : s.worker w ≠ .waiting)
    (hsame : pc.Same (s.worker w)) :
  (s.setWorker w pc).Inv
  := by
  apply h.of_quiet
  · exact ⟨same_update hsame, rfl, rfl, rfl, rfl, rfl⟩
  · apply h.queue.setWorker hw
  · exact ⟨h.phase.stopping, h.phase.returned⟩

theorem Inv.setClient (h : s.Inv) (c : ℕ) (pc : Client ρ) : (s.setClient c pc).Inv := by
  apply h.of_quiet
  · exact ⟨fun w => ⟨rfl, rfl, rfl⟩, rfl, rfl, rfl, rfl, rfl⟩
  · exact ⟨h.queue.worker, h.queue.stopper, h.queue.nodup⟩
  · exact ⟨h.phase.stopping, h.phase.returned⟩

/-- The lock of the list does not matter. -/
theorem Inv.setLock (h : s.Inv) (b : Bool) : Inv { s with objlock := b } := by
  apply h.of_quiet
  · exact ⟨fun w => ⟨rfl, rfl, rfl⟩, rfl, rfl, rfl, rfl, rfl⟩
  · exact ⟨h.queue.worker, h.queue.stopper, h.queue.nodup⟩
  · exact ⟨h.phase.stopping, h.phase.returned⟩

/-- A request that has been taken stays taken when a worker without a request moves. -/
theorem Taken.setWorker {f : ρ} (h : s.Taken f) {w : Fin n} (hw : (s.worker w).request = none)
    (pc : Server ρ) :
  (s.setWorker w pc).Taken f
  := by
  rcases h with ⟨v, hv⟩ | hf
  · left
    use v
    have hne : v ≠ w := by
      rintro rfl
      rw [hw] at hv
      cases hv
    change (Function.update s.worker w pc v).request = _
    rw [Function.update_of_ne hne, hv]
  · exact .inr hf

/-! ### The steps of a worker -/

/-- A worker finds that the flag is not set. -/
theorem Inv.enter (h : s.Inv) {w : Fin n} (hw : s.worker w = .test) (hs : s.stopping = false) :
  (s.setWorker w .enter).Inv
  := by
  have hcount := tally_update Server.isCounted s.worker w .enter
  rw [hw] at hcount
  refine ⟨h.queue.setWorker (by rw [hw]; simp) _, ?_, ⟨h.phase.stopping, h.phase.returned⟩, ?_⟩
  · obtain ⟨early, late, hlist, hlate, _, haccepted⟩ := h.kept
    refine ⟨early, late, hlist, hlate, ?_, ?_⟩
    · intro habs
      change s.stopping = true at habs
      rw [hs] at habs
      cases habs
    · intro f hf
      refine (haccepted f hf).imp_right ?_
      intro ht
      apply ht.setWorker (by rw [hw]; rfl)
  · change s.workerCount = tally Server.isCounted (Function.update s.worker w .enter)
    rw [h.count]
    apply (Nat.add_right_cancel hcount).symm

/-- A worker takes the first request from the list. -/
theorem Inv.take (h : s.Inv) {w : Fin n} (hw : s.worker w = .inside) {f : ρ} {rest : List ρ}
    (hlist : s.requestList = f :: rest) :
  Inv { s.setWorker w (.serving f) with requestList := rest }
  := by
  have hlook := tally_update Server.isLooking s.worker w (.serving f)
  have hcount := tally_update Server.isCounted s.worker w (.serving f)
  rw [hw] at hlook hcount
  have hqueue := h.queue.setWorker (w := w) (by rw [hw]; simp) (.serving f)
  refine ⟨⟨hqueue.worker, hqueue.stopper, hqueue.nodup⟩, ?_, ⟨h.phase.stopping, h.phase.returned⟩, ?_⟩
  · have hserved : (s.setWorker w (.serving f)).Taken f := by
      left
      use w
      change (Function.update s.worker w _ w).request = _
      rw [Function.update_self]
      rfl
    have htaken : ∀ g, s.Taken g → (s.setWorker w (.serving f)).Taken g := by
      intro g hg
      apply hg.setWorker (by rw [hw]; rfl)
    obtain ⟨early, late, heq, hlate, hearly, haccepted⟩ := h.kept
    rw [hlist] at heq
    cases early with
    | nil =>
        refine ⟨[], late.tail, ?_, ?_, fun _ => Nat.zero_le _, ?_⟩
        · change rest = _
          rw [List.nil_append] at heq ⊢
          rw [← heq]
          rfl
        · intro hs
          rw [hlate hs]
          rfl
        · intro g hg
          right
          apply htaken g ((haccepted g hg).resolve_left (List.not_mem_nil))
    | cons g early =>
        rw [List.cons_append, List.cons.injEq] at heq
        obtain ⟨rfl, heq⟩ := heq
        refine ⟨early, late, heq, hlate, ?_, ?_⟩
        · intro hs
          have hle := hearly hs
          rw [List.length_cons] at hle
          change _ ≤ tally Server.isLooking (Function.update s.worker w _)
          have : (Server.inside : Server ρ).isLooking.toNat = 1 := rfl
          have : (Server.serving f).isLooking.toNat = 0 := rfl
          lia
        · intro g hg
          rcases haccepted g hg with hmem | ht
          · rcases List.mem_cons.mp hmem with rfl | hmem
            · exact .inr hserved
            · exact .inl hmem
          · exact .inr (htaken g ht)
  · change s.workerCount = tally Server.isCounted (Function.update s.worker w _)
    rw [h.count]
    apply (Nat.add_right_cancel hcount).symm

/-- A worker finds the list empty. -/
theorem Inv.foundEmpty (h : s.Inv) {w : Fin n} (hw : s.worker w = .inside)
    (hlist : s.requestList = []) :
  (s.setWorker w .empty).Inv
  := by
  have hcount := tally_update Server.isCounted s.worker w .empty
  rw [hw] at hcount
  refine ⟨h.queue.setWorker (by rw [hw]; simp) _, ?_, ⟨h.phase.stopping, h.phase.returned⟩, ?_⟩
  · obtain ⟨early, late, heq, _, _, haccepted⟩ := h.kept
    rw [hlist] at heq
    obtain ⟨rfl, rfl⟩ := List.nil_eq_append_iff.mp heq
    refine ⟨[], [], hlist, fun _ => rfl, fun _ => Nat.zero_le _, ?_⟩
    intro f hf
    refine (haccepted f hf).imp_right ?_
    intro ht
    apply ht.setWorker (by rw [hw]; rfl)
  · change s.workerCount = tally Server.isCounted (Function.update s.worker w _)
    rw [h.count]
    apply (Nat.add_right_cancel hcount).symm

/-- A worker has released the references of its request. -/
theorem Inv.complete (h : s.Inv) {w : Fin n} {f : ρ} (hw : s.worker w = .releasing f) :
  Inv { s.setWorker w .test with completed := f :: s.completed }
  := by
  have hlook := tally_update Server.isLooking s.worker w .test
  have hcount := tally_update Server.isCounted s.worker w .test
  rw [hw] at hlook hcount
  have hqueue := h.queue.setWorker (w := w) (by rw [hw]; simp) .test
  refine ⟨⟨hqueue.worker, hqueue.stopper, hqueue.nodup⟩, ?_, ⟨h.phase.stopping, h.phase.returned⟩, ?_⟩
  · obtain ⟨early, late, heq, hlate, hearly, haccepted⟩ := h.kept
    refine ⟨early, late, heq, hlate, ?_, ?_⟩
    · intro hs
      have hle := hearly hs
      change _ ≤ tally Server.isLooking (Function.update s.worker w _)
      have hsame := Nat.add_right_cancel hlook
      lia
    · intro g hg
      refine (haccepted g hg).imp_right ?_
      rintro (⟨v, hv⟩ | hdone)
      · by_cases hvw : v = w
        · -- the request of the worker is this one
          subst hvw
          rw [hw] at hv
          cases hv
          right
          apply List.mem_cons_self
        · left
          use v
          change (Function.update s.worker w _ v).request = _
          rw [Function.update_of_ne hvw, hv]
      · right
        apply List.mem_cons_of_mem _ hdone
  · change s.workerCount = tally Server.isCounted (Function.update s.worker w _)
    rw [h.count]
    apply (Nat.add_right_cancel hcount).symm

/-- A worker that leaves does not count any more. -/
theorem Inv.leave (h : s.Inv) {w : Fin n} (hw : s.worker w = .leaving) :
  Inv { s.setWorker w .signalling with workerCount := s.workerCount - 1 }
  := by
  have hlook := tally_update Server.isLooking s.worker w .signalling
  have hcount := tally_update Server.isCounted s.worker w .signalling
  rw [hw] at hlook hcount
  have hqueue := h.queue.setWorker (w := w) (by rw [hw]; simp) .signalling
  refine ⟨⟨hqueue.worker, hqueue.stopper, hqueue.nodup⟩, ?_, ⟨h.phase.stopping, ?_⟩, ?_⟩
  · obtain ⟨early, late, heq, hlate, hearly, haccepted⟩ := h.kept
    refine ⟨early, late, heq, hlate, ?_, ?_⟩
    · intro hs
      have hle := hearly hs
      change _ ≤ tally Server.isLooking (Function.update s.worker w _)
      have hsame := Nat.add_right_cancel hlook
      lia
    · intro g hg
      refine (haccepted g hg).imp_right ?_
      intro ht
      apply ht.setWorker (by rw [hw]; rfl)
  · intro hret
    change s.workerCount - 1 = 0
    rw [h.phase.returned hret]
  · change s.workerCount - 1 = tally Server.isCounted (Function.update s.worker w _)
    have : (Server.leaving : Server ρ).isCounted.toNat = 1 := rfl
    have : (Server.signalling : Server ρ).isCounted.toNat = 0 := rfl
    rw [h.count]
    lia

/-- A worker waits for the barrier. -/
theorem Inv.wait (h : s.Inv) {w : Fin n} (hw : s.worker w = .empty) :
  Inv { s.setWorker w .waiting with barrier := s.barrier ++ [some w] }
  := by
  have hmove : (s.setWorker w .waiting).Inv := by
    apply h.setWorker
    · rw [hw]
      simp
    · rw [hw]
      exact ⟨rfl, rfl, rfl⟩
  apply hmove.of_quiet
  · exact ⟨fun v => ⟨rfl, rfl, rfl⟩, rfl, rfl, rfl, rfl, rfl⟩
  · apply hmove.queue.append
    · intro hmem
      have hwait := h.queue.worker w hmem
      rw [hw] at hwait
      cases hwait
    · intro v hv
      cases hv
      apply Function.update_self
    · intro habs
      cases habs
  · exact ⟨hmove.phase.stopping, hmove.phase.returned⟩

/-- A signal does not concern a worker that is not blocked. -/
theorem signalOne_worker (h : s.Queue) {w : Fin n} (hw : s.worker w ≠ .waiting) :
  s.signalOne.worker w = s.worker w
  := by
  rw [Shutdown.signalOne]
  cases hb : s.barrier with
  | nil => rfl
  | cons x rest =>
      cases x with
      | none => rfl
      | some v =>
          have hwait := h.worker v (by rw [hb]; apply List.mem_cons_self)
          have hne : w ≠ v := by
            rintro rfl
            apply hw hwait
          apply Function.update_of_ne hne

theorem Inv.stepWorker (h : s.Inv) {w : Fin n} (hstep : s.stepWorker w = some s') : s'.Inv := by
  rw [Shutdown.stepWorker] at hstep
  cases hw : s.worker w with
  | test =>
      simp only [hw, Option.some.injEq] at hstep
      subst hstep
      cases hs : s.stopping with
      | true =>
          rw [if_pos rfl]
          apply h.setWorker
          · rw [hw]
            simp
          · rw [hw]
            exact ⟨rfl, rfl, rfl⟩
      | false =>
          rw [if_neg Bool.false_ne_true]
          apply h.enter hw hs
  | enter =>
      simp only [hw] at hstep
      split_ifs at hstep
      cases hstep
      apply Inv.setLock
      apply h.setWorker
      · rw [hw]
        simp
      · rw [hw]
        exact ⟨rfl, rfl, rfl⟩
  | inside =>
      simp only [hw] at hstep
      cases hlist : s.requestList with
      | nil =>
          simp only [hlist] at hstep
          cases hstep
          apply (h.foundEmpty hw hlist).setLock
      | cons f rest =>
          simp only [hlist] at hstep
          cases hstep
          apply (h.take hw hlist).setLock
  | empty =>
      simp only [hw] at hstep
      cases hstep
      apply h.wait hw
  | waiting =>
      simp only [hw] at hstep
      cases hstep
  | serving f =>
      simp only [hw] at hstep
      cases hstep
      apply h.setWorker
      · rw [hw]
        simp
      · rw [hw]
        exact ⟨rfl, rfl, rfl⟩
  | releasing f =>
      simp only [hw] at hstep
      cases hstep
      apply h.complete hw
  | leaving =>
      simp only [hw] at hstep
      cases hstep
      apply h.leave hw
  | signalling =>
      simp only [hw] at hstep
      cases hstep
      have hkeep := signalOne_worker h.queue (w := w) (by rw [hw]; simp)
      apply h.signalOne.setWorker
      · rw [hkeep, hw]
        simp
      · rw [hkeep, hw]
        exact ⟨rfl, rfl, rfl⟩
  | exited =>
      simp only [hw] at hstep
      cases hstep

/-! ### The steps of the other threads -/

/-- A client puts a request on the list. -/
theorem Inv.put (h : s.Inv) (f : ρ) :
  Inv { s with
    requestList := s.requestList ++ [f]
    accepted := if s.stopping then s.accepted else f :: s.accepted }
  := by
  refine ⟨⟨h.queue.worker, h.queue.stopper, h.queue.nodup⟩, ?_,
    ⟨h.phase.stopping, h.phase.returned⟩, h.count⟩
  obtain ⟨early, late, heq, hlate, hearly, haccepted⟩ := h.kept
  cases hs : s.stopping with
  | true =>
      refine ⟨early, late ++ [f], ?_, ?_, fun _ => hearly hs, ?_⟩
      · change s.requestList ++ [f] = _
        rw [heq, List.append_assoc]
      · intro habs
        cases habs
      · rw [if_pos rfl]
        apply haccepted
  | false =>
      refine ⟨early ++ [f], [], ?_, fun _ => rfl, ?_, ?_⟩
      · change s.requestList ++ [f] = _
        rw [heq, hlate hs, List.append_nil, List.append_nil]
      · intro habs
        cases habs
      · rw [if_neg Bool.false_ne_true]
        intro g hg
        rcases List.mem_cons.mp hg with rfl | hg
        · left
          apply List.mem_append_right _ (List.mem_singleton_self g)
        · refine (haccepted g hg).imp_left ?_
          apply List.mem_append_left

theorem Inv.stepClient (h : s.Inv) {c : ℕ} (hstep : s.stepClient c = some s') : s'.Inv := by
  rw [Shutdown.stepClient] at hstep
  cases hc : s.client c with
  | idle =>
      simp only [hc] at hstep
      cases hstep
  | enter f =>
      simp only [hc] at hstep
      split_ifs at hstep
      cases hstep
      apply (h.setClient c _).setLock
  | inside f =>
      simp only [hc] at hstep
      cases hstep
      apply ((h.setClient c .signal).put f).setLock
  | signal =>
      simp only [hc] at hstep
      cases hstep
      apply h.signalOne.setClient

/-- The stopping thread moves while it is not on the barrier. -/
theorem Inv.setStopper (h : s.Inv) {st : Stopper} (hnone : none ∉ s.barrier)
    (hidle : s.stopping = true ↔ st ≠ .idle) (hret : st = .returned → s.workerCount = 0) :
  Inv { s with stopper := st }
  := by
  apply h.of_quiet
  · exact ⟨fun w => ⟨rfl, rfl, rfl⟩, rfl, rfl, rfl, rfl, rfl⟩
  · exact ⟨h.queue.worker, fun habs => absurd habs hnone, h.queue.nodup⟩
  · exact ⟨hidle, hret⟩

/-- The flag is set. -/
theorem Inv.setStopping (h : s.Inv) (hidle : s.stopper = .idle)
    (hdrained : s.requestList.length ≤ tally Server.isLooking s.worker) :
  Inv { s with stopping := true, stopper := .signal }
  := by
  have hs : s.stopping = false := by
    rw [Bool.eq_false_iff]
    intro hs
    apply h.phase.stopping.mp hs hidle
  refine ⟨⟨h.queue.worker, ?_, h.queue.nodup⟩, ?_, ⟨?_, ?_⟩, h.count⟩
  · intro habs
    have hwait := h.queue.stopper habs
    rw [hidle] at hwait
    cases hwait
  · obtain ⟨early, late, heq, hlate, _, haccepted⟩ := h.kept
    refine ⟨early, late, heq, ?_, ?_, haccepted⟩
    · intro habs
      cases habs
    · intro _
      rw [heq, hlate hs, List.append_nil] at hdrained
      apply hdrained
  · simp
  · intro habs
    cases habs

/-- A signal takes threads off the barrier only. -/
theorem mem_of_signalOne {x : Option (Fin n)} (h : x ∈ s.signalOne.barrier) :
  x ∈ s.barrier
  := by
  rw [Shutdown.signalOne] at h
  cases hb : s.barrier with
  | nil =>
      simp only [hb] at h
      apply h
  | cons y rest =>
      cases y with
      | none =>
          simp only [hb] at h
          apply List.mem_cons_of_mem _ h
      | some w =>
          simp only [hb] at h
          apply List.mem_cons_of_mem _ h

theorem Inv.stepStopper (h : s.Inv) (hdrained : s.Drained .stopper)
    (hstep : s.stepStopper = some s') :
  s'.Inv
  := by
  have hnone : s.stopper ≠ .waiting → none ∉ s.barrier := fun hne habs => hne (h.queue.stopper habs)
  have hset : s.stopper ≠ .idle → s.stopping = true := h.phase.stopping.mpr
  rw [Shutdown.stepStopper] at hstep
  cases hst : s.stopper with
  | idle =>
      simp only [hst] at hstep
      cases hstep
      apply h.setStopping hst (hdrained hst)
  | signal =>
      simp only [hst] at hstep
      cases hstep
      apply h.signalOne.setStopper
      · intro habs
        apply hnone (by rw [hst]; decide) (mem_of_signalOne habs)
      · rw [(quiet_signalOne h.queue).stopping, hset (by rw [hst]; decide)]
        decide
      · intro habs
        cases habs
  | wait =>
      simp only [hst] at hstep
      cases hstep
      have hmove : Inv { s with stopper := .waiting } := by
        apply h.setStopper (hnone (by rw [hst]; decide))
        · rw [hset (by rw [hst]; decide)]
          decide
        · intro habs
          cases habs
      apply hmove.of_quiet
      · exact ⟨fun v => ⟨rfl, rfl, rfl⟩, rfl, rfl, rfl, rfl, rfl⟩
      · apply hmove.queue.append (hnone (by rw [hst]; decide))
        · intro w habs
          cases habs
        · intro _
          rfl
      · exact ⟨hmove.phase.stopping, hmove.phase.returned⟩
  | waiting =>
      simp only [hst] at hstep
      cases hstep
  | test =>
      simp only [hst] at hstep
      cases hstep
      apply h.setStopper (hnone (by rw [hst]; decide))
      · rw [hset (by rw [hst]; decide)]
        split
        · decide
        · decide
      · intro hret
        split at hret
        case isTrue => cases hret
        case isFalse hzero => apply not_not.mp hzero
  | returned =>
      simp only [hst] at hstep
      cases hstep

theorem Inv.timeout (h : s.Inv) (hst : s.stopper = .waiting) :
  Inv { s with stopper := .test, barrier := s.barrier.erase none }
  := by
  apply h.of_quiet
  · exact ⟨fun w => ⟨rfl, rfl, rfl⟩, rfl, rfl, rfl, rfl, rfl⟩
  · refine ⟨?_, ?_, h.queue.nodup.erase _⟩
    · intro w hw
      apply h.queue.worker w (List.mem_of_mem_erase hw)
    · intro habs
      exact absurd habs h.queue.nodup.not_mem_erase
  · have hset : s.stopping = true := h.phase.stopping.mpr (by rw [hst]; decide)
    constructor
    · change s.stopping = true ↔ Stopper.test ≠ .idle
      rw [hset]
      decide
    · intro habs
      cases habs

/-- Every step of a pool that is drained when the flag is set keeps the invariant. -/
theorem Inv.step (h : s.Inv) {a : Actor n ρ} (hdrained : s.Drained a) (hstep : s.step a = some s') :
  s'.Inv
  := by
  cases a with
  | worker w => apply h.stepWorker hstep
  | call c f =>
      rw [Shutdown.step] at hstep
      split at hstep
      · cases hstep
        apply h.setClient
      · cases hstep
  | client c => apply h.stepClient hstep
  | stopper => apply h.stepStopper hdrained hstep
  | timeout =>
      rw [Shutdown.step] at hstep
      split at hstep
      case h_1 hst =>
        cases hstep
        apply h.timeout hst
      case h_2 => cases hstep

theorem inv_launch (n : ℕ) (ρ : Type) : (launch n ρ).Inv := by
  refine ⟨⟨?_, ?_, List.nodup_nil⟩, ?_, ⟨by simp [launch], ?_⟩, ?_⟩
  · intro w hw
    cases hw
  · intro habs
    cases habs
  · refine ⟨[], [], rfl, fun _ => rfl, fun _ => Nat.zero_le _, ?_⟩
    intro f hf
    cases hf
  · intro habs
    cases habs
  · simp [tally, launch, Server.isCounted]

/-- A worker that does not count any more is not about to look at the list, and has no request. -/
theorem gone_of_not_counted {pc : Server ρ} (h : pc.isCounted = false) :
  pc.isLooking = false ∧ pc.request = none
  := by
  cases pc with
  | signalling => exact ⟨rfl, rfl⟩
  | exited => exact ⟨rfl, rfl⟩
  | test => cases h
  | enter => cases h
  | inside => cases h
  | empty => cases h
  | waiting => cases h
  | serving f => cases h
  | releasing f => cases h
  | leaving => cases h

/-- If the flag is set when no more requests are on the list than there are workers about to look at
it, then every request that has been accepted before is completed when `stop` returns. -/
theorem completed_of_returned {s : Shutdown n ρ} (h : (machine n ρ).Reachable Drained s)
    (hret : s.stopper = .returned) :
  ∀ f ∈ s.accepted, f ∈ s.completed
  := by
  have hinv : s.Inv := by
    apply h.invariant
    · rintro s rfl
      apply inv_launch
    · intro s a s' hs hdrained hstep
      apply hs.step hdrained hstep
  have hgone : ∀ w, (s.worker w).isLooking = false ∧ (s.worker w).request = none := by
    have hzero := hinv.count
    rw [hinv.phase.returned hret] at hzero
    intro w
    apply gone_of_not_counted ((tally_eq_zero_iff _ _).mp hzero.symm w)
  have hstopping : s.stopping = true := hinv.phase.stopping.mpr (by rw [hret]; decide)
  obtain ⟨early, late, _, _, hearly, haccepted⟩ := hinv.kept
  have hle := hearly hstopping
  rw [(tally_eq_zero_iff _ _).mpr fun w => (hgone w).1, Nat.le_zero, List.length_eq_zero_iff] at hle
  subst hle
  intro f hf
  rcases (haccepted f hf).resolve_left List.not_mem_nil with ⟨w, hw⟩ | hdone
  · rw [(hgone w).2] at hw
    cases hw
  · apply hdone

theorem drained_of_nil (h : s.requestList = []) : s.Drained .stopper := by
  intro _
  rw [h]
  apply Nat.zero_le

theorem drained_of_ne (h : s.stopper ≠ .idle) : s.Drained .stopper := fun hidle => absurd hidle h

/-- A request is executed, and then the pool is stopped. -/
theorem completed_of_returned_one :
  ∃ s : Shutdown 1 ℕ, (machine 1 ℕ).Reachable Drained s ∧ s.stopper = .returned ∧
    s.accepted = [7] ∧ ∀ f ∈ s.accepted, f ∈ s.completed
  := by
  have hfree : ∀ a : Actor 1 ℕ, a ∈ [.call 0 7, .client 0, .worker 0, .timeout] →
      ∀ s : Shutdown 1 ℕ, s.Drained a := by
    intro a ha s
    cases a with
    | stopper => simp at ha
    | worker w | call c f | client c | timeout => trivial
  have h₀ : (machine 1 ℕ).Reachable Drained (launch 1 ℕ) := .start rfl
  obtain ⟨s₁, hs₁⟩ : ∃ s, (machine 1 ℕ).exec (launch 1 ℕ)
      [.call 0 7, .client 0, .client 0, .client 0, .worker 0, .worker 0, .worker 0, .worker 0,
        .worker 0] = some s := ⟨_, rfl⟩
  have h₁ := h₀.exec hs₁ fun a ha => hfree a (by
    simp only [List.mem_cons, List.not_mem_nil, or_false] at ha ⊢
    tauto)
  cases hs₁
  have h₂ := h₁.step .stopper (drained_of_nil rfl) rfl
  have h₃ := h₂.step .stopper (drained_of_ne (by decide)) rfl
  have h₄ := h₃.step (.worker 0) (hfree _ (by simp) _) rfl
  have h₅ := h₄.step (.worker 0) (hfree _ (by simp) _) rfl
  have h₆ := h₅.step (.worker 0) (hfree _ (by simp) _) rfl
  have h₇ := h₆.step .stopper (drained_of_ne (by decide)) rfl
  have h₈ := h₇.step .timeout (hfree _ (by simp) _) rfl
  have h₉ := h₈.step .stopper (drained_of_ne (by decide)) rfl
  exact ⟨_, h₉, rfl, rfl, completed_of_returned h₉ rfl⟩

/-- A request is on the list when the flag is set. The only worker finds the flag set and leaves, and
`stop` returns. -/
theorem request_dropped :
  ∃ s : Shutdown 1 ℕ, (machine 1 ℕ).Reachable Machine.anyStep s ∧ s.stopper = .returned ∧
    s.accepted = [7] ∧ s.completed = [] ∧ s.requestList = [7]
  := by
  have h₀ : (machine 1 ℕ).Reachable Machine.anyStep (launch 1 ℕ) := .start rfl
  obtain ⟨s, hs⟩ : ∃ s, (machine 1 ℕ).exec (launch 1 ℕ)
      [.call 0 7, .client 0, .client 0, .client 0, .stopper, .stopper, .worker 0, .worker 0,
        .worker 0, .stopper, .timeout, .stopper] = some s := ⟨_, rfl⟩
  refine ⟨s, h₀.exec hs fun _ _ _ => trivial, ?_⟩
  cases hs
  decide

end Shutdown

end UOS
