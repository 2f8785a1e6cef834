import Mathlib.Tactic

/-!
# The pool of worker threads

Requests of clients are put on a list, from which the workers of the file system take them. The
list has a lock of its own. A worker that finds it empty waits on a barrier, and a client that
has put a request on it signals the barrier. The signal has no memory: it wakes a worker that is
waiting, and is lost if none is. The definitions follow `exfat::thread_pool` of
`kernel/filesystem/worker.cpp` and `event` of `kernel/sync/event.cpp`.

Threads run one at a time, and may be preempted between any two steps. A step is what happens
while the lock of the list is held, or while interrupts are off. The pool is not being stopped.
-/

namespace UOS

/-- What a worker is doing. -/
inductive Worker (ρ : Type) where
  /-- It is about to look at the list. -/
  | enter
  /-- It holds the lock of the list. -/
  | inside
  /-- It has found the list empty and has given up the lock. -/
  | empty
  /-- It is blocked in `barrier.wait`. -/
  | waiting
  /-- It is executing a request. -/
  | serving (f : ρ)
  deriving DecidableEq, Repr

/-- What a client is doing. -/
inductive Client (ρ : Type) where
  | idle
  /-- It is about to put a request on the list. -/
  | enter (f : ρ)
  /-- It holds the lock of the list. -/
  | inside (f : ρ)
  /-- It has put the request on the list and is about to signal. -/
  | signal
  deriving DecidableEq, Repr

/-- The pool, its workers and its clients. -/
structure ThreadPool (n : ℕ) (ρ : Type) where
  /-- The lock of the list is held. -/
  objlock : Bool
  requestList : List ρ
  /-- The workers that are blocked in `barrier.wait`, in the order of their arrival. -/
  barrier : List (Fin n)
  worker : Fin n → Worker ρ
  client : ℕ → Client ρ

namespace ThreadPool

variable {n : ℕ} {ρ : Type}

/-- The threads that can take a step. -/
inductive Actor (n : ℕ) (ρ : Type) where
  | worker (w : Fin n)
  /-- The client calls `put`. -/
  | call (c : ℕ) (f : ρ)
  | client (c : ℕ)

/-- Moves a worker. -/
def setWorker (s : ThreadPool n ρ) (w : Fin n) (pc : Worker ρ) : ThreadPool n ρ :=
  { s with worker := Function.update s.worker w pc }

/-- Moves a client. -/
def setClient (s : ThreadPool n ρ) (c : ℕ) (pc : Client ρ) : ThreadPool n ρ :=
  { s with client := Function.update s.client c pc }

/-- A step of `thread_pool::get`, and of the worker between two calls of it. -/
def stepWorker (s : ThreadPool n ρ) (w : Fin n) : Option (ThreadPool n ρ) :=
  match s.worker w with
  | .enter => if s.objlock = true then none else some { s.setWorker w .inside with objlock := true }
  | .inside =>
      match s.requestList with
      | f :: rest => some { s.setWorker w (.serving f) with objlock := false, requestList := rest }
      | [] => some { s.setWorker w .empty with objlock := false }
  | .empty => some { s.setWorker w .waiting with barrier := s.barrier ++ [w] }
  | .waiting => none
  | .serving _ => some (s.setWorker w .enter)

/-- `event::signal_one`. -/
def signalOne (s : ThreadPool n ρ) : ThreadPool n ρ :=
  match s.barrier with
  | w :: rest => { s.setWorker w .enter with barrier := rest }
  | [] => s

/-- A step of `thread_pool::put`. -/
def stepClient (s : ThreadPool n ρ) (c : ℕ) : Option (ThreadPool n ρ) :=
  match s.client c with
  | .idle => none
  | .enter f =>
      if s.objlock = true then none else some { s.setClient c (.inside f) with objlock := true }
  | .inside f =>
      some { s.setClient c .signal with objlock := false, requestList := s.requestList ++ [f] }
  | .signal => some (s.signalOne.setClient c .idle)

/-- A step of a thread, unless it is blocked. -/
def step (s : ThreadPool n ρ) : Actor n ρ → Option (ThreadPool n ρ)
  | .worker w => s.stepWorker w
  | .call c f => match s.client c with
      | .idle => some (s.setClient c (.enter f))
      | _ => none
  | .client c => s.stepClient c

/-- The pool when it has been launched. -/
def launch (n : ℕ) (ρ : Type) : ThreadPool n ρ where
  objlock := false
  requestList := []
  barrier := []
  worker _ := .enter
  client _ := .idle

/-- The states that are reached by steps that are allowed. -/
inductive Reachable (allowed : ThreadPool n ρ → Actor n ρ → Prop) : ThreadPool n ρ → Prop
  | launch : Reachable allowed (launch n ρ)
  | step {s s' : ThreadPool n ρ} (a : Actor n ρ) : Reachable allowed s → allowed s a →
      s.step a = some s' → Reachable allowed s'

/-- A request is stranded: it is on the list, every worker is blocked, and no client is about to
signal. -/
def Stranded (s : ThreadPool n ρ) : Prop :=
  s.requestList ≠ [] ∧ (∀ w, s.worker w = .waiting) ∧ ∀ c, s.client c ≠ .signal

/-- The step is not the last signal for a request on the list at a moment at which every worker
has found the list empty and none is waiting yet. -/
def Heard (s : ThreadPool n ρ) : Actor n ρ → Prop
  | .client c => s.client c = .signal → s.requestList ≠ [] →
      (∃ w, s.worker w ≠ .empty) ∨ ∃ c', c' ≠ c ∧ s.client c' = .signal
  | _ => True

/-! ### What holds in every run -/

variable {s s' : ThreadPool n ρ}

/-- A worker that is going to look at the list before it waits. -/
def Awake (s : ThreadPool n ρ) (w : Fin n) : Prop := s.worker w ≠ .empty ∧ s.worker w ≠ .waiting

/-- The barrier knows the workers that are blocked. As long as a request is on the list, a worker
is going to look at it or a client is about to signal. -/
structure Inv (s : ThreadPool n ρ) : Prop where
  barrier : ∀ w, w ∈ s.barrier ↔ s.worker w = .waiting
  nodup : s.barrier.Nodup
  attended : s.requestList ≠ [] → (∃ w, s.Awake w) ∨ ∃ c, s.client c = .signal

/-- A worker that moves and does not begin or end to wait. -/
theorem Inv.barrier_of_ne (h : s.Inv) {w : Fin n} {pc : Worker ρ} (hw : s.worker w ≠ .waiting)
    (hpc : pc ≠ .waiting) (v : Fin n) :
  v ∈ s.barrier ↔ Function.update s.worker w pc v = .waiting
  := by
  rw [h.barrier]
  by_cases hv : v = w
  · subst hv
    simp [hw, hpc]
  · rw [Function.update_of_ne hv]

/-- A step of a worker keeps the invariant. -/
theorem Inv.stepWorker (h : s.Inv) {w : Fin n} (hstep : s.stepWorker w = some s') : s'.Inv := by
  rw [ThreadPool.stepWorker] at hstep
  cases hw : s.worker w with
  | enter =>
      simp only [hw] at hstep
      split_ifs at hstep
      cases hstep
      refine ⟨h.barrier_of_ne (by simp [hw]) (by simp), h.nodup, fun _ => .inl ⟨w, ?_⟩⟩
      simp [Awake, setWorker]
  | inside =>
      simp only [hw] at hstep
      cases hlist : s.requestList with
      | nil =>
          simp only [hlist] at hstep
          cases hstep
          refine ⟨h.barrier_of_ne (by simp [hw]) (by simp), h.nodup, ?_⟩
          intro hne
          apply absurd hlist hne
      | cons f rest =>
          simp only [hlist] at hstep
          cases hstep
          refine ⟨h.barrier_of_ne (by simp [hw]) (by simp), h.nodup, fun _ => .inl ⟨w, ?_⟩⟩
          simp [Awake, setWorker]
  | empty =>
      simp only [hw] at hstep
      cases hstep
      have hnot : w ∉ s.barrier := by
        rw [h.barrier, hw]
        simp
      refine ⟨?_, ?_, ?_⟩
      · intro v
        simp only [setWorker, List.mem_append, List.mem_singleton]
        by_cases hv : v = w
        · subst hv
          simp
        · rw [Function.update_of_ne hv, h.barrier]
          simp [hv]
      · rw [List.nodup_append]
        refine ⟨h.nodup, List.nodup_singleton w, ?_⟩
        intro v hv v' hv'
        rw [List.mem_singleton] at hv'
        subst hv'
        rintro rfl
        apply hnot hv
      · -- the worker was not awake before
        intro hne
        rcases h.attended hne with ⟨v, hv⟩ | hc
        · left
          use v
          have hvw : v ≠ w := by
            rintro rfl
            apply hv.1 hw
          simpa [Awake, setWorker, Function.update_of_ne hvw] using hv
        · exact .inr hc
  | waiting =>
      simp only [hw] at hstep
      cases hstep
  | serving f =>
      simp only [hw] at hstep
      cases hstep
      refine ⟨h.barrier_of_ne (by simp [hw]) (by simp), h.nodup, fun _ => .inl ⟨w, ?_⟩⟩
      simp [Awake, setWorker]

/-- A signal that is heard keeps the invariant. -/
theorem Inv.signalOne (h : s.Inv) {c : ℕ} (hc : s.client c = .signal)
    (hheard : s.Heard (.client c)) :
  (s.signalOne.setClient c .idle).Inv
  := by
  rw [ThreadPool.signalOne]
  cases hb : s.barrier with
  | nil =>
      dsimp only
      refine ⟨h.barrier, h.nodup, ?_⟩
      intro hne
      rcases hheard hc hne with ⟨w, hw⟩ | ⟨c', hne', hc'⟩
      · left
        refine ⟨w, hw, ?_⟩
        intro hwait
        have hmem := (h.barrier w).mpr hwait
        rw [hb] at hmem
        cases hmem
      · right
        use c'
        simpa [setClient, Function.update_of_ne hne'] using hc'
  | cons w rest =>
      dsimp only
      have hnd := h.nodup
      rw [hb, List.nodup_cons] at hnd
      refine ⟨?_, hnd.2, fun _ => .inl ⟨w, ?_⟩⟩
      · intro v
        simp only [setClient, setWorker]
        by_cases hv : v = w
        · subst hv
          simp [hnd.1]
        · rw [Function.update_of_ne hv, ← h.barrier, hb]
          simp [hv]
      · simp [Awake, setClient, setWorker]

/-- A step that is heard keeps the invariant. -/
theorem Inv.step (h : s.Inv) {a : Actor n ρ} (hheard : s.Heard a) (hstep : s.step a = some s') :
  s'.Inv
  := by
  have hkeep : ∀ c pc, s.client c ≠ .signal → (s.requestList ≠ [] →
      (∃ w, s.Awake w) ∨ ∃ c', Function.update s.client c pc c' = .signal) := by
    intro c pc hc hne
    rcases h.attended hne with hw | ⟨c', hc'⟩
    · exact .inl hw
    · right
      use c'
      have hcc : c' ≠ c := by
        rintro rfl
        apply hc hc'
      rw [Function.update_of_ne hcc, hc']
  cases a with
  | worker w => apply h.stepWorker hstep
  | call c f =>
      rw [ThreadPool.step] at hstep
      cases hc : s.client c with
      | idle =>
          simp only [hc] at hstep
          cases hstep
          exact ⟨h.barrier, h.nodup, hkeep c _ (by simp [hc])⟩
      | enter g | inside g =>
          simp only [hc] at hstep
          cases hstep
      | signal =>
          simp only [hc] at hstep
          cases hstep
  | client c =>
      rw [ThreadPool.step, stepClient] at hstep
      cases hc : s.client c with
      | idle =>
          simp only [hc] at hstep
          cases hstep
      | enter f =>
          simp only [hc] at hstep
          split_ifs at hstep
          cases hstep
          exact ⟨h.barrier, h.nodup, hkeep c _ (by simp [hc])⟩
      | inside f =>
          simp only [hc] at hstep
          cases hstep
          refine ⟨h.barrier, h.nodup, fun _ => .inr ⟨c, ?_⟩⟩
          simp [setClient]
      | signal =>
          simp only [hc] at hstep
          cases hstep
          apply h.signalOne hc hheard

/-- As long as every signal is heard, no request is stranded. -/
theorem Reachable.not_stranded (h : Reachable Heard s) : ¬ s.Stranded := by
  have hinv : s.Inv := by
    induction h with
    | launch => exact ⟨by simp [ThreadPool.launch], List.nodup_nil, fun hne => absurd rfl hne⟩
    | step a _ hheard hstep ih => apply ih.step hheard hstep
  rintro ⟨hlist, hall, hclient⟩
  rcases hinv.attended hlist with ⟨w, hw⟩ | ⟨c, hc⟩
  · apply hw.2 (hall w)
  · apply hclient c hc

/-- A request that is put on the list while the only worker is waiting wakes it. -/
theorem not_stranded_woken :
  ∃ s : ThreadPool 1 ℕ, Reachable Heard s ∧ s.requestList = [7] ∧ s.worker 0 = .enter ∧
    ¬ s.Stranded
  := by
  have h₀ : Reachable Heard (ThreadPool.launch 1 ℕ) := .launch
  have h₁ : Reachable Heard _ := .step (.worker 0) h₀ trivial rfl
  have h₂ : Reachable Heard _ := .step (.worker 0) h₁ trivial rfl
  have h₃ : Reachable Heard _ := .step (.worker 0) h₂ trivial rfl
  have h₄ : Reachable Heard _ := .step (.call 0 7) h₃ trivial rfl
  have h₅ : Reachable Heard _ := .step (.client 0) h₄ (fun h => by cases h) rfl
  have h₆ : Reachable Heard _ := .step (.client 0) h₅ (fun h => by cases h) rfl
  have h₇ : Reachable Heard _ := .step (.client 0) h₆ (fun _ _ => .inl ⟨0, by decide⟩) rfl
  exact ⟨_, h₇, rfl, rfl, h₇.not_stranded⟩

/-- A worker finds the list empty, and before it waits a request is put on the list. The signal is
lost, and the request is stranded. -/
theorem stranded_request :
  ∃ s : ThreadPool 1 ℕ, Reachable (fun _ _ => True) s ∧ s.Stranded
  := by
  have h₀ : Reachable (fun _ _ => True) (ThreadPool.launch 1 ℕ) := .launch
  have h₁ : Reachable (fun _ _ => True) _ := .step (.worker 0) h₀ trivial rfl
  have h₂ : Reachable (fun _ _ => True) _ := .step (.worker 0) h₁ trivial rfl
  have h₃ : Reachable (fun _ _ => True) _ := .step (.call 0 7) h₂ trivial rfl
  have h₄ : Reachable (fun _ _ => True) _ := .step (.client 0) h₃ trivial rfl
  have h₅ : Reachable (fun _ _ => True) _ := .step (.client 0) h₄ trivial rfl
  have h₆ : Reachable (fun _ _ => True) _ := .step (.client 0) h₅ trivial rfl
  have h₇ : Reachable (fun _ _ => True) _ := .step (.worker 0) h₆ trivial rfl
  refine ⟨_, h₇, by decide, by decide, ?_⟩
  intro c
  simp [setWorker, setClient, signalOne, launch]

end ThreadPool

end UOS
