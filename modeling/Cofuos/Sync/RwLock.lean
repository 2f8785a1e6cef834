import Cofuos.Lib.Machine
import Cofuos.Process.Waitable

/-!
# Reader-writer locks

A lock is owned by one thread, or shared by any number of them. A thread that does not get the lock
waits, and tries again when it has been notified. All threads that wait are notified when the lock
becomes free, and when its owner begins to share it. The definitions follow
`kernel/sync/rwlock.cpp`.

The number of shares is a 32-bit number, and comes back to 0 when the lock is shared `2 ^ 32` times.
-/

namespace UOS

/-- `rwlock::MODE`. -/
inductive RwMode where
  | exclusive
  | shared
  deriving DecidableEq, Repr

/-- The calls of `bugcheck` in `rwlock::unlock`. -/
inductive RwBug where
  /-- Releasing non-owning exclusive lock. -/
  | notOwner
  /-- Releasing free shared lock. -/
  | free
  deriving DecidableEq, Repr

/-- A lock, its threads, and what they hold. -/
structure RwLock (τ : Type) where
  owner : Option τ
  shareCount : ℕ
  threads : Waitable τ
  /-- The mode that a thread has asked for last. -/
  mode : τ → RwMode
  /-- The threads that have acquired the lock exclusively and have not released it. -/
  exclusive : List τ
  /-- The threads that have acquired a share and have not released it, once for each share. -/
  shared : List τ

namespace RwLock

variable {τ : Type}

/-- The constructor. -/
def new : RwLock τ where
  owner := none
  shareCount := 0
  threads := Waitable.empty
  mode _ := .exclusive
  exclusive := []
  shared := []

def isLocked (s : RwLock τ) : Bool := s.owner.isSome || s.shareCount != 0

/-- The attempt of `try_lock` and of the loop of `lock`. -/
def acquire (s : RwLock τ) (t : τ) : RwMode → Option (RwLock τ)
  | .exclusive =>
      if s.owner = none ∧ s.shareCount = 0 then
        some { s with owner := some t, exclusive := t :: s.exclusive }
      else none
  | .shared =>
      if s.owner = none then
        some { s with shareCount := (s.shareCount + 1) % 2 ^ 32, shared := t :: s.shared }
      else none

variable [DecidableEq τ]

/-- A pass of the loop of `lock`. -/
def tryOrWait (s : RwLock τ) (t : τ) (m : RwMode) : RwLock τ :=
  match s.acquire t m with
  | some s' => s'
  | none => { s with threads := s.threads.impWait t, mode := Function.update s.mode t m }

/-- `rwlock::try_lock`. -/
def tryLock (s : RwLock τ) (t : τ) (m : RwMode) : RwLock τ := (s.acquire t m).getD s

/-- `rwlock::downgrade`, by a thread that has the lock exclusively. -/
def downgrade (s : RwLock τ) (t : τ) : RwLock τ :=
  { s with
    owner := none
    shareCount := 1
    threads := s.threads.notify
    exclusive := s.exclusive.erase t
    shared := t :: s.shared }

/-- `rwlock::unlock` without the notification: whether the lock is free now. -/
def release (s : RwLock τ) (t : τ) : Except RwBug (Bool × RwLock τ) :=
  match s.owner with
  | some u => if u ≠ t then .error .notOwner else .ok (true, { s with owner := none })
  | none =>
      if s.shareCount = 0 then .error .free
      else .ok (s.shareCount - 1 = 0, { s with shareCount := s.shareCount - 1 })

/-- The thread gives up what it holds in a mode. -/
def drop (s : RwLock τ) (t : τ) : RwMode → RwLock τ
  | .exclusive => { s with exclusive := s.exclusive.erase t }
  | .shared => { s with shared := s.shared.erase t }

/-- `rwlock::unlock`, by a thread that holds the lock in a mode. -/
def unlock (s : RwLock τ) (t : τ) (m : RwMode) : Except RwBug (RwLock τ) :=
  match s.release t with
  | .error b => .error b
  | .ok (true, s') => .ok { s'.drop t m with threads := s.threads.notify }
  | .ok (false, s') => .ok (s'.drop t m)

/-- The thread holds the lock in a mode. -/
def Holds (s : RwLock τ) (t : τ) : RwMode → Prop
  | .exclusive => t ∈ s.exclusive
  | .shared => t ∈ s.shared

instance (s : RwLock τ) (t : τ) : (m : RwMode) → Decidable (s.Holds t m)
  | .exclusive => inferInstanceAs (Decidable (_ ∈ _))
  | .shared => inferInstanceAs (Decidable (_ ∈ _))

/-- What threads do with a lock. They release and downgrade only what they hold. -/
inductive Action (τ : Type) where
  | lock (t : τ) (m : RwMode)
  /-- A thread that has been notified tries again. -/
  | retry (t : τ)
  | tryLock (t : τ) (m : RwMode)
  | downgrade (t : τ)
  | unlock (t : τ) (m : RwMode)

/-- An action, if it is possible. -/
def step (s : RwLock τ) : Action τ → Option (RwLock τ)
  | .lock t m => if s.threads.Running t then some (s.tryOrWait t m) else none
  | .retry t =>
      if t ∈ s.threads.woken then
        some (({ s with threads := s.threads.resume t }).tryOrWait t (s.mode t))
      else none
  | .tryLock t m => if s.threads.Running t then some (s.tryLock t m) else none
  | .downgrade t =>
      if s.threads.Running t ∧ s.Holds t .exclusive then some (s.downgrade t) else none
  | .unlock t m =>
      if s.threads.Running t ∧ s.Holds t m then (s.unlock t m).toOption else none

/-- A lock from its creation on. -/
def machine (τ : Type) [DecidableEq τ] : Machine (RwLock τ) (Action τ) where
  Start s := s = new
  step := step

/-- A thread that asks for a share is given one only if the number of shares can be counted. -/
def Counted (s : RwLock τ) : Action τ → Prop
  | .lock _ .shared | .tryLock _ .shared => s.shared.length + 1 < 2 ^ 32
  | .retry t => s.mode t = .shared → s.shared.length + 1 < 2 ^ 32
  | _ => True

variable {s s' : RwLock τ}

/-- The fields of the lock say who holds it. -/
structure Sound (s : RwLock τ) : Prop where
  exclusive : s.exclusive = s.owner.toList
  count : s.shareCount = s.shared.length
  exclusion : s.owner ≠ none → s.shared = []

/-- If somebody waits, then the lock is held, or somebody is going to try. -/
def Attended (s : RwLock τ) : Prop :=
  s.threads.waitQueue ≠ [] → s.isLocked = true ∨ s.threads.woken ≠ []

/-! ### Acquiring -/

omit [DecidableEq τ] in
theorem Sound.acquire_exclusive (h : s.Sound) {t : τ} (heq : s.acquire t .exclusive = some s') :
  s'.Sound ∧ s'.isLocked = true
  := by
  rw [acquire, Option.ite_none_right_eq_some] at heq
  obtain ⟨⟨howner, hcount⟩, heq⟩ := heq
  cases heq
  have hexclusive := h.exclusive
  rw [howner] at hexclusive
  refine ⟨⟨?_, h.count, ?_⟩, rfl⟩
  · rw [hexclusive]
    rfl
  · intro _
    rw [← List.length_eq_zero_iff, ← h.count]
    apply hcount

omit [DecidableEq τ] in
theorem Sound.acquire_shared (h : s.Sound) {t : τ} (hlt : s.shared.length + 1 < 2 ^ 32)
    (heq : s.acquire t .shared = some s') :
  s'.Sound ∧ s'.isLocked = true
  := by
  rw [acquire, Option.ite_none_right_eq_some, h.count, Nat.mod_eq_of_lt hlt] at heq
  obtain ⟨howner, heq⟩ := heq
  cases heq
  refine ⟨⟨h.exclusive, rfl, ?_⟩, ?_⟩
  · intro hne
    apply absurd howner hne
  · simp [isLocked]

omit [DecidableEq τ] in
theorem Sound.acquire (h : s.Sound) {t : τ} {m : RwMode}
    (hlt : m = .shared → s.shared.length + 1 < 2 ^ 32) (heq : s.acquire t m = some s') :
  s'.Sound ∧ s'.isLocked = true
  := by
  cases m with
  | exclusive => apply h.acquire_exclusive heq
  | shared => apply h.acquire_shared (hlt rfl) heq

omit [DecidableEq τ] in
/-- A thread does not get a lock only if it is held. -/
theorem isLocked_of_acquire {t : τ} {m : RwMode} (heq : s.acquire t m = none) :
  s.isLocked = true
  := by
  rw [isLocked, Bool.or_eq_true, Option.isSome_iff_ne_none, bne_iff_ne]
  cases m with
  | exclusive =>
      rw [acquire, ite_eq_right_iff] at heq
      by_contra hnot
      rw [not_or, not_not, not_not] at hnot
      cases heq hnot
  | shared =>
      rw [acquire, ite_eq_right_iff] at heq
      left
      intro howner
      cases heq howner

/-- After a pass of the loop of `lock` the lock is held, by the thread or by others. -/
theorem Sound.tryOrWait (h : s.Sound) {t : τ} {m : RwMode}
    (hlt : m = .shared → s.shared.length + 1 < 2 ^ 32) :
  (s.tryOrWait t m).Sound ∧ (s.tryOrWait t m).isLocked = true
  := by
  rw [RwLock.tryOrWait]
  cases heq : s.acquire t m with
  | some s' => apply h.acquire hlt heq
  | none =>
      have hlocked := isLocked_of_acquire heq
      exact ⟨⟨h.exclusive, h.count, h.exclusion⟩, hlocked⟩

/-! ### Releasing -/

/-- What is left after a release: the fields are right, and the lock is held or nobody waits. -/
structure Released (s : RwLock τ) : Prop where
  sound : s.Sound
  attended : s.isLocked = true ∨ s.threads.waitQueue = []

theorem Sound.unlock_exclusive (h : s.Sound) {t : τ} (ht : t ∈ s.exclusive) :
  ∃ s', s.unlock t .exclusive = .ok s' ∧ s'.Released
  := by
  rw [h.exclusive, Option.mem_toList] at ht
  have hexclusive := h.exclusive
  rw [ht] at hexclusive
  rw [unlock, release, ht]
  simp only [ne_eq, not_true_eq_false, if_false]
  refine ⟨_, rfl, ⟨?_, h.count, ?_⟩, .inr rfl⟩
  · change s.exclusive.erase t = []
    rw [hexclusive]
    simp
  · intro hne
    apply absurd rfl hne

theorem Sound.unlock_shared (h : s.Sound) {t : τ} (ht : t ∈ s.shared) :
  ∃ s', s.unlock t .shared = .ok s' ∧ s'.Released
  := by
  have howner : s.owner = none := by
    by_contra hne
    rw [h.exclusion hne] at ht
    cases ht
  have hpos : s.shared.length ≠ 0 := by
    intro hzero
    rw [List.length_eq_zero_iff] at hzero
    rw [hzero] at ht
    cases ht
  have hcount : s.shareCount - 1 = (s.shared.erase t).length := by
    rw [h.count, List.length_erase_of_mem ht]
  have hexclusive := h.exclusive
  rw [howner] at hexclusive
  rw [unlock, release, howner, if_neg (by rw [h.count]; apply hpos)]
  by_cases hlast : s.shareCount - 1 = 0
  · rw [decide_eq_true hlast]
    exact ⟨_, rfl, ⟨hexclusive, hcount, fun hne => absurd rfl hne⟩, .inr rfl⟩
  · rw [decide_eq_false hlast]
    refine ⟨_, rfl, ⟨hexclusive, hcount, fun hne => absurd rfl hne⟩, .inl ?_⟩
    simp [isLocked, drop, hlast]

/-- A thread that releases what it holds does not reach a `bugcheck`. -/
theorem Sound.unlock (h : s.Sound) {t : τ} {m : RwMode} (hholds : s.Holds t m) :
  ∃ s', s.unlock t m = .ok s' ∧ s'.Released
  := by
  cases m with
  | exclusive => apply h.unlock_exclusive hholds
  | shared => apply h.unlock_shared hholds

theorem Sound.downgrade (h : s.Sound) {t : τ} (ht : t ∈ s.exclusive) :
  (s.downgrade t).Released
  := by
  rw [h.exclusive, Option.mem_toList] at ht
  have hexclusive := h.exclusive
  rw [ht] at hexclusive
  have hshared := h.exclusion (by rw [ht]; simp)
  refine ⟨⟨?_, ?_, ?_⟩, .inr rfl⟩
  · change s.exclusive.erase t = []
    rw [hexclusive]
    simp
  · change 1 = (t :: s.shared).length
    rw [hshared]
    rfl
  · intro hne
    apply absurd rfl hne

/-! ### Runs -/

/-- The fields are right and nobody who waits is left alone. -/
structure Inv (s : RwLock τ) : Prop where
  sound : s.Sound
  attended : s.Attended

omit [DecidableEq τ] in
theorem Released.inv (h : s.Released) : s.Inv := by
  refine ⟨h.sound, ?_⟩
  intro hne
  left
  apply h.attended.resolve_right hne

theorem Inv.step (h : s.Inv) {a : Action τ} (hcounted : s.Counted a)
    (hstep : s.step a = some s') :
  s'.Inv
  := by
  cases a with
  | lock t m =>
      rw [RwLock.step, Option.ite_none_right_eq_some] at hstep
      cases hstep.2
      obtain ⟨hsound, hlocked⟩ := @Sound.tryOrWait _ _ _ h.sound t m (by rintro rfl; exact hcounted)
      exact ⟨hsound, fun _ => .inl hlocked⟩
  | retry t =>
      rw [RwLock.step, Option.ite_none_right_eq_some] at hstep
      cases hstep.2
      have hresumed : Sound { s with threads := s.threads.resume t } :=
        ⟨h.sound.exclusive, h.sound.count, h.sound.exclusion⟩
      obtain ⟨hsound, hlocked⟩ := @Sound.tryOrWait _ _ _ hresumed t (s.mode t) hcounted
      exact ⟨hsound, fun _ => .inl hlocked⟩
  | tryLock t m =>
      rw [RwLock.step, Option.ite_none_right_eq_some] at hstep
      cases hstep.2
      rw [RwLock.tryLock]
      cases heq : s.acquire t m with
      | some s' =>
          obtain ⟨hsound, hlocked⟩ := h.sound.acquire (by rintro rfl; exact hcounted) heq
          exact ⟨hsound, fun _ => .inl hlocked⟩
      | none => apply h
  | downgrade t =>
      rw [RwLock.step, Option.ite_none_right_eq_some] at hstep
      cases hstep.2
      apply (h.sound.downgrade hstep.1.2).inv
  | unlock t m =>
      rw [RwLock.step, Option.ite_none_right_eq_some] at hstep
      obtain ⟨u, hu, hreleased⟩ := h.sound.unlock hstep.1.2
      rw [hu] at hstep
      cases hstep.2
      apply hreleased.inv

/-- What a lock promises to its threads. -/
structure Promise (s : RwLock τ) : Prop where
  exclusion : s.owner ≠ none → s.shareCount = 0
  count : s.shareCount = s.shared.length
  owner : ∀ t, s.owner = some t ↔ t ∈ s.exclusive
  unlock : ∀ t m, s.Holds t m → ∃ s', s.unlock t m = .ok s'
  attended : s.threads.waitQueue ≠ [] → s.isLocked = true ∨ s.threads.woken ≠ []

/-- A lock keeps its promises in every run in which it is never shared `2 ^ 32` times. -/
theorem keeps_promise (τ : Type) [DecidableEq τ] {s : RwLock τ}
    (h : (machine τ).Reachable Counted s) :
  s.Promise
  := by
  have hinv : s.Inv := by
    apply h.invariant
    · rintro s rfl
      exact ⟨⟨rfl, rfl, fun _ => rfl⟩, fun hne => absurd rfl hne⟩
    · intro s a s' hs hcounted hstep
      apply hs.step hcounted hstep
  constructor
  · intro howner
    rw [hinv.sound.count, hinv.sound.exclusion howner]
    rfl
  · apply hinv.sound.count
  · intro t
    rw [hinv.sound.exclusive, Option.mem_toList]
  · intro t m hholds
    obtain ⟨s', hs', _⟩ := hinv.sound.unlock hholds
    exact ⟨s', hs'⟩
  · apply hinv.attended

/-- A thread waits for a lock that two others share. -/
theorem keeps_promise_two :
  ∃ s : RwLock ℕ, (machine ℕ).Reachable Counted s ∧ s.shareCount = 2 ∧
    s.threads.waitQueue = [2] ∧ s.Promise
  := by
  have h₀ : (machine ℕ).Reachable Counted new := .start rfl
  have h₁ : (machine ℕ).Reachable Counted _ := h₀.step (.lock 0 .shared) (by change 0 + 1 < 2 ^ 32; decide) rfl
  have h₂ : (machine ℕ).Reachable Counted _ := h₁.step (.tryLock 1 .shared) (by change 1 + 1 < 2 ^ 32; decide) rfl
  have h₃ : (machine ℕ).Reachable Counted _ := h₂.step (.lock 2 .exclusive) trivial rfl
  exact ⟨_, h₃, rfl, rfl, keeps_promise ℕ h₃⟩

/-- A thread that takes one share after the other. -/
theorem exists_shared (n : ℕ) :
  ∃ s : RwLock ℕ, (machine ℕ).Reachable Machine.anyStep s ∧ s.owner = none ∧
    s.threads = Waitable.empty ∧ s.shared = List.replicate n 0 ∧ s.shareCount = n % 2 ^ 32
  := by
  induction n with
  | zero => exact ⟨new, .start rfl, rfl, rfl, rfl, rfl⟩
  | succ n ih =>
      obtain ⟨s, hs, howner, hthreads, hshared, hcount⟩ := ih
      obtain ⟨s', hs'⟩ : ∃ s', s' =
        { s with shareCount := (s.shareCount + 1) % 2 ^ 32, shared := 0 :: s.shared } := ⟨_, rfl⟩
      have hstep : s.step (.tryLock 0 .shared) = some s' := by
        rw [RwLock.step, hthreads, if_pos (by decide), RwLock.tryLock, RwLock.acquire,
          if_pos howner, hs']
        rfl
      refine ⟨s', hs.step (.tryLock 0 .shared) trivial hstep, ?_⟩
      rw [hs']
      refine ⟨howner, hthreads, ?_, ?_⟩
      · change 0 :: s.shared = _
        rw [hshared, List.replicate_succ]
      · change (s.shareCount + 1) % 2 ^ 32 = _
        rw [hcount, Nat.mod_add_mod]

/-- A lock that is shared `2 ^ 32` times looks free, and a thread that releases its share reaches a
`bugcheck`. -/
theorem shares_uncounted :
  ∃ s : RwLock ℕ, (machine ℕ).Reachable Machine.anyStep s ∧ s.shared.length = 2 ^ 32 ∧
    s.shareCount = 0 ∧ s.Holds 0 .shared ∧ s.unlock 0 .shared = .error .free
  := by
  obtain ⟨s, hs, howner, _, hshared, hcount⟩ := exists_shared (2 ^ 32)
  rw [Nat.mod_self] at hcount
  refine ⟨s, hs, ?_, hcount, ?_, ?_⟩
  · rw [hshared, List.length_replicate]
  · change 0 ∈ s.shared
    rw [hshared, List.mem_replicate]
    exact ⟨by decide, rfl⟩
  · rw [unlock, release, howner, if_pos hcount]

end RwLock

end UOS
