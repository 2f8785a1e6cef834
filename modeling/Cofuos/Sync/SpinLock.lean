import Cofuos.Lib.Machine

/-!
# Spin locks

A spin lock is a word that threads on all cores read and compare-and-exchange: it is 0 when the lock
is free, `x_value` when a thread has it alone, and the number of shares otherwise. The definitions
follow `kernel/sync/spin_lock.cpp` with one step for each access to the word, so that the steps of
threads that lock and unlock come in any order. A `bugcheck` stops the kernel.

The limit of the number of shares, the number of attempts before a thread gives up, and whether the
assertions are there depend on how the kernel is built. The assertion at the end of `lock` refuses
the last share that `try_lock` gives: in a debug build the lock can be shared 63 times.
-/

namespace UOS

/-- `spin_lock::MODE`. -/
inductive SpinMode where
  | exclusive
  | shared
  deriving DecidableEq, Repr

/-- The calls of `bugcheck` in `spin_lock`. -/
inductive SpinBug where
  /-- `spinlock timeout`. -/
  | timeout
  /-- `spinlock overflow`. -/
  | overflow
  /-- `spinlock double unlock`. -/
  | doubleUnlock
  /-- `assert_failed`. -/
  | assertion
  deriving DecidableEq, Repr

/-- Whether `NDEBUG` is defined. -/
inductive SpinBuild where
  | debug
  | release
  deriving DecidableEq, Repr

namespace SpinBuild

/-- `x_value`. -/
def xValue : ℕ := 0x80000000

/-- `s_limit`. -/
def sLimit : SpinBuild → ℕ
  | .debug => 0x40
  | .release => xValue / 2

/-- `spin_timeout`. -/
def spinTimeout : SpinBuild → ℕ
  | .debug => 0x4000
  | .release => 0x04000000

/-- Whether a condition is asserted and does not hold. -/
def refutes (b : SpinBuild) (p : Prop) [Decidable p] : Bool := b = .debug ∧ ¬ p

theorem sLimit_lt (b : SpinBuild) : b.sLimit < xValue := by
  cases b with
  | debug => decide
  | release => decide

theorem refutes_of {p : Prop} [Decidable p] (b : SpinBuild) (h : p) : b.refutes p = false := by
  simp [refutes, h]

end SpinBuild

/-- Where a thread is: the access to the word that comes next. The counter of `lock` is there when
`try_lock` has been called by `lock`. -/
inductive SpinPc where
  /-- In neither function. -/
  | out
  /-- The first access of `try_lock`. -/
  | attempt (m : SpinMode) (cnt : Option ℕ)
  /-- The exchange for a share. -/
  | share (cur : ℕ) (cnt : Option ℕ)
  /-- The assertion of `lock`. -/
  | confirm (m : SpinMode)
  /-- The second part of the assertion of `lock` for a share. -/
  | confirmLimit
  /-- The first access of `unlock`. -/
  | unlock
  /-- The exchange of `unlock`. -/
  | clear
  /-- The exchange in the loop of `unlock`. -/
  | drop (cur cnt : ℕ)
  /-- The access at the end of the loop of `unlock`. -/
  | reread (cnt : ℕ)
  deriving DecidableEq, Repr

/-- A lock, its threads, and what they hold. -/
structure SpinLock (τ : Type) where
  state : ℕ
  pc : τ → SpinPc
  /-- The threads that have acquired the lock exclusively and have not released it. -/
  exclusive : List τ
  /-- The threads that have acquired a share and have not released it, once for each share. -/
  shared : List τ
  /-- Why the kernel has stopped. -/
  bug : Option SpinBug

namespace SpinLock

open SpinBuild (xValue)

variable {τ : Type}

/-- The constructor. -/
def new : SpinLock τ where
  state := 0
  pc _ := .out
  exclusive := []
  shared := []
  bug := none

/-- `is_locked`. -/
def isLocked (s : SpinLock τ) : Bool := s.state != 0

/-- `is_exclusive`. -/
def isExclusive (s : SpinLock τ) : Bool := s.state ≥ xValue

/-- The thread holds the lock in a mode. -/
def Holds (s : SpinLock τ) (t : τ) : SpinMode → Prop
  | .exclusive => t ∈ s.exclusive
  | .shared => t ∈ s.shared

variable [DecidableEq τ]

def goto (s : SpinLock τ) (t : τ) (p : SpinPc) : SpinLock τ :=
  { s with pc := Function.update s.pc t p }

/-- `bugcheck`. -/
def bugcheck (s : SpinLock τ) (k : SpinBug) : SpinLock τ := { s with bug := some k }

/-- `try_lock` returns false: to its caller, or to the loop of `lock`. -/
def failed (b : SpinBuild) (s : SpinLock τ) (t : τ) (m : SpinMode) : Option ℕ → SpinLock τ
  | none => s.goto t .out
  | some cnt =>
      if cnt > b.spinTimeout then s.bugcheck .timeout else s.goto t (.attempt m (some (cnt + 1)))

/-- `try_lock` returns true: to its caller, or to the assertion of `lock` if it is there. -/
def granted (b : SpinBuild) (s : SpinLock τ) (t : τ) (m : SpinMode) : Option ℕ → SpinLock τ
  | none => s.goto t .out
  | some _ => s.goto t (if b = .debug then .confirm m else .out)

/-- The word is exchanged and the thread holds the lock exclusively. -/
def takeExclusive (s : SpinLock τ) (t : τ) : SpinLock τ :=
  { s with state := xValue, exclusive := t :: s.exclusive }

/-- The word is exchanged and the thread holds one more share. -/
def takeShare (s : SpinLock τ) (t : τ) (cur : ℕ) : SpinLock τ :=
  { s with state := cur + 1, shared := t :: s.shared }

/-- The word is exchanged and the thread does not hold the lock exclusively. -/
def dropExclusive (s : SpinLock τ) (t : τ) : SpinLock τ :=
  { s with state := 0, exclusive := s.exclusive.erase t }

/-- The word is exchanged and the thread holds one share less. -/
def dropShare (s : SpinLock τ) (t : τ) (cur : ℕ) : SpinLock τ :=
  { s with state := cur - 1, shared := s.shared.erase t }

/-- The next access of a thread to the word, and what it does until the one after it. -/
def access (b : SpinBuild) (s : SpinLock τ) (t : τ) : Option (SpinLock τ) :=
  match s.pc t with
  | .out => none
  | .attempt .exclusive cnt =>
      if s.state = 0 then some ((s.takeExclusive t).granted b t .exclusive cnt)
      else some (s.failed b t .exclusive cnt)
  | .attempt .shared cnt =>
      if s.state ≥ xValue then
        if b.refutes (s.state = xValue) then some (s.bugcheck .assertion)
        else some (s.failed b t .shared cnt)
      else if s.state ≥ b.sLimit then some (s.bugcheck .overflow)
      else some (s.goto t (.share s.state cnt))
  | .share cur cnt =>
      if s.state = cur then some ((s.takeShare t cur).granted b t .shared cnt)
      else some (s.failed b t .shared cnt)
  | .confirm .exclusive =>
      if s.state = xValue then some (s.goto t .out) else some (s.bugcheck .assertion)
  | .confirm .shared =>
      if s.state ≠ 0 then some (s.goto t .confirmLimit) else some (s.bugcheck .assertion)
  | .confirmLimit =>
      if s.state < b.sLimit then some (s.goto t .out) else some (s.bugcheck .assertion)
  | .unlock =>
      if s.state = 0 then some (s.bugcheck .doubleUnlock)
      else if s.state ≥ xValue then
        if b.refutes (s.state = xValue) then some (s.bugcheck .assertion)
        else some (s.goto t .clear)
      else some (s.goto t (.drop s.state 0))
  | .clear =>
      if b.refutes (s.state = xValue) then some ((s.dropExclusive t).bugcheck .assertion)
      else some ((s.dropExclusive t).goto t .out)
  | .drop cur cnt =>
      if s.state = cur then some ((s.dropShare t cur).goto t .out)
      else some (s.goto t (.reread cnt))
  | .reread cnt =>
      if cnt < b.spinTimeout then some (s.goto t (.drop s.state (cnt + 1)))
      else some (s.bugcheck .timeout)

/-- What threads do with a lock. They release only what they hold. -/
inductive Action (τ : Type) where
  | lock (t : τ) (m : SpinMode)
  | tryLock (t : τ) (m : SpinMode)
  | unlock (t : τ)
  | access (t : τ)

/-- An action, if it is possible. -/
def step (b : SpinBuild) (s : SpinLock τ) : Action τ → Option (SpinLock τ)
  | .lock t m =>
      if s.bug = none ∧ s.pc t = .out then some (s.goto t (.attempt m (some 0))) else none
  | .tryLock t m =>
      if s.bug = none ∧ s.pc t = .out then some (s.goto t (.attempt m none)) else none
  | .unlock t =>
      if s.bug = none ∧ s.pc t = .out ∧ (t ∈ s.exclusive ∨ t ∈ s.shared) then
        some (s.goto t .unlock)
      else none
  | .access t => if s.bug = none then s.access b t else none

/-- A lock from its creation on. -/
def machine (b : SpinBuild) (τ : Type) [DecidableEq τ] : Machine (SpinLock τ) (Action τ) where
  Start s := s = new
  step := step b

variable {b : SpinBuild} {s s' : SpinLock τ}

/-! ### The word and the holders -/

omit [DecidableEq τ]

/-- The word says who holds the lock. -/
structure Coded (b : SpinBuild) (s : SpinLock τ) : Prop where
  alone : s.exclusive ≠ [] → s.exclusive.length = 1 ∧ s.shared = []
  taken : s.exclusive ≠ [] → s.state = xValue
  count : s.exclusive = [] → s.state = s.shared.length
  limit : s.shared.length ≤ b.sLimit

/-- What a thread may rely on at a place of the code. -/
def Fits (b : SpinBuild) (s : SpinLock τ) (t : τ) : SpinPc → Prop
  | .share cur _ => cur < b.sLimit
  | .confirm .exclusive | .clear => t ∈ s.exclusive
  | .confirm .shared | .confirmLimit => b = .debug ∧ t ∈ s.shared
  | .drop _ _ | .reread _ => t ∈ s.shared
  | .unlock => t ∈ s.exclusive ∨ t ∈ s.shared
  | .out | .attempt _ _ => True

/-- Why the kernel may have stopped: a thread has waited too long, or the lock has as many shares
as it can have. -/
def Excused (b : SpinBuild) (s : SpinLock τ) (k : SpinBug) : Prop :=
  k = .timeout ∨
  s.shared.length = b.sLimit ∧ (k = .overflow ∨ k = .assertion ∧ b = .debug)

/-- What holds between the accesses to a lock. -/
structure Inv (b : SpinBuild) (s : SpinLock τ) : Prop where
  coded : s.Coded b
  fits : ∀ t, s.Fits b t (s.pc t)
  bug : ∀ k, s.bug = some k → s.Excused b k

theorem Coded.exclusive_of_ge (h : s.Coded b) (hge : s.state ≥ xValue) : s.exclusive ≠ [] := by
  intro hnil
  have hcount := h.count hnil
  have hlimit := h.limit
  have hlt := b.sLimit_lt
  omega

theorem Coded.exclusive_of_lt (h : s.Coded b) (hlt : s.state < xValue) : s.exclusive = [] := by
  by_contra hne
  rw [h.taken hne] at hlt
  apply absurd hlt (Nat.lt_irrefl _)

theorem Coded.of_zero (h : s.Coded b) (hzero : s.state = 0) :
  s.exclusive = [] ∧ s.shared = []
  := by
  have hnil : s.exclusive = [] := by
    apply h.exclusive_of_lt
    rw [hzero]
    decide
  refine ⟨hnil, ?_⟩
  rw [← List.length_eq_zero_iff, ← h.count hnil, hzero]

theorem Coded.eq_of_mem (h : s.Coded b) {t : τ} (ht : t ∈ s.exclusive) : s.exclusive = [t] := by
  obtain ⟨hone, _⟩ := h.alone (List.ne_nil_of_mem ht)
  obtain ⟨u, hu⟩ := List.length_eq_one_iff.mp hone
  rw [hu, List.mem_singleton] at ht
  rw [hu, ht]

/-- A share is held only if nobody has the lock alone. -/
theorem Coded.exclusive_of_mem (h : s.Coded b) {t : τ} (ht : t ∈ s.shared) : s.exclusive = [] := by
  by_contra hne
  rw [(h.alone hne).2] at ht
  cases ht

/-- The word counts the shares when one of them is held. -/
theorem Coded.count_of_mem (h : s.Coded b) {t : τ} (ht : t ∈ s.shared) :
  s.state = s.shared.length ∧ 0 < s.shared.length
  := ⟨h.count (h.exclusive_of_mem ht), List.length_pos_of_mem ht⟩

variable [DecidableEq τ]

omit [DecidableEq τ] in
theorem Coded.takeExclusive (h : s.Coded b) (hzero : s.state = 0) (t : τ) :
  (s.takeExclusive t).Coded b
  := by
  obtain ⟨hexclusive, hshared⟩ := h.of_zero hzero
  refine ⟨fun _ => ⟨?_, hshared⟩, fun _ => rfl, fun hnil => ?_, h.limit⟩
  · change (t :: s.exclusive).length = 1
    rw [hexclusive]
    rfl
  · cases hnil

omit [DecidableEq τ] in
theorem Coded.takeShare (h : s.Coded b) (hlt : s.state < b.sLimit) (t : τ) :
  (s.takeShare t s.state).Coded b
  := by
  have hnil := h.exclusive_of_lt (Nat.lt_trans hlt b.sLimit_lt)
  have hcount := h.count hnil
  refine ⟨fun hne => absurd hnil hne, fun hne => absurd hnil hne, fun _ => ?_, ?_⟩
  · change s.state + 1 = (t :: s.shared).length
    rw [List.length_cons, hcount]
  · change (t :: s.shared).length ≤ b.sLimit
    rw [List.length_cons, ← hcount]
    apply hlt

theorem Coded.dropExclusive (h : s.Coded b) {t : τ} (ht : t ∈ s.exclusive) :
  (s.dropExclusive t).Coded b
  := by
  have hshared := (h.alone (List.ne_nil_of_mem ht)).2
  have hnil : (s.dropExclusive t).exclusive = [] := by
    change s.exclusive.erase t = []
    rw [h.eq_of_mem ht]
    simp
  refine ⟨fun hne => absurd hnil hne, fun hne => absurd hnil hne, fun _ => ?_, h.limit⟩
  change 0 = s.shared.length
  rw [hshared]
  rfl

theorem Coded.dropShare (h : s.Coded b) {t : τ} (ht : t ∈ s.shared) :
  (s.dropShare t s.state).Coded b
  := by
  have hnil := h.exclusive_of_mem ht
  have herase : (s.shared.erase t).length = s.shared.length - 1 := List.length_erase_of_mem ht
  refine ⟨fun hne => absurd hnil hne, fun hne => absurd hnil hne, fun _ => ?_, ?_⟩
  · change s.state - 1 = (s.shared.erase t).length
    rw [herase, h.count hnil]
  · change (s.shared.erase t).length ≤ b.sLimit
    have hlimit := h.limit
    lia

/-! ### One access -/

omit [DecidableEq τ] in
/-- What a thread relies on is there as long as it keeps what it holds. -/
theorem Fits.mono {t : τ} {p : SpinPc} (h : s.Fits b t p)
    (hexclusive : t ∈ s.exclusive → t ∈ s'.exclusive) (hshared : t ∈ s.shared → t ∈ s'.shared) :
  s'.Fits b t p
  := by
  cases p with
  | out => trivial
  | attempt m cnt => trivial
  | share cur cnt => apply h
  | confirm m =>
      cases m with
      | exclusive => apply hexclusive h
      | shared => exact ⟨h.1, hshared h.2⟩
  | confirmLimit => exact ⟨h.1, hshared h.2⟩
  | unlock => apply Or.imp hexclusive hshared h
  | clear => apply hexclusive h
  | drop cur cnt => apply hshared h
  | reread cnt => apply hshared h

/-- A thread goes to a place where it may be. -/
theorem Inv.goto (h : s.Inv b) {t : τ} {p : SpinPc} (hp : s.Fits b t p) : (s.goto t p).Inv b := by
  refine ⟨⟨h.coded.alone, h.coded.taken, h.coded.count, h.coded.limit⟩, ?_, h.bug⟩
  intro u
  change s.Fits b u (Function.update s.pc t p u)
  by_cases hu : u = t
  · subst hu
    rw [Function.update_self]
    apply hp
  · rw [Function.update_of_ne hu]
    apply h.fits u

omit [DecidableEq τ] in
theorem Inv.bugcheck (h : s.Inv b) {k : SpinBug} (hk : s.Excused b k) : (s.bugcheck k).Inv b := by
  refine ⟨⟨h.coded.alone, h.coded.taken, h.coded.count, h.coded.limit⟩, h.fits, ?_⟩
  intro k' hk'
  cases hk'
  apply hk

theorem Inv.failed (h : s.Inv b) (t : τ) (m : SpinMode) (cnt : Option ℕ) :
  (s.failed b t m cnt).Inv b
  := by
  cases cnt with
  | none =>
      apply h.goto
      trivial
  | some n =>
      rw [SpinLock.failed]
      split
      · apply h.bugcheck (.inl rfl)
      · apply h.goto
        trivial

/-- The other threads keep what they hold when the word has been exchanged, and the thread goes to
a place where it may be. -/
theorem Inv.exchange (h : s.Inv b) (hnone : s.bug = none) {t : τ} {p : SpinPc}
    (hcoded : s'.Coded b) (hpc : s'.pc = s.pc) (hbug : s'.bug = s.bug)
    (hexclusive : ∀ u, u ≠ t → u ∈ s.exclusive → u ∈ s'.exclusive)
    (hshared : ∀ u, u ≠ t → u ∈ s.shared → u ∈ s'.shared) (hp : s'.Fits b t p) :
  (s'.goto t p).Inv b
  := by
  refine ⟨⟨hcoded.alone, hcoded.taken, hcoded.count, hcoded.limit⟩, ?_, ?_⟩
  · intro u
    change s'.Fits b u (Function.update s'.pc t p u)
    by_cases hu : u = t
    · subst hu
      rw [Function.update_self]
      apply hp
    · rw [Function.update_of_ne hu, hpc]
      apply (h.fits u).mono (hexclusive u hu) (hshared u hu)
  · intro k hk
    change s'.bug = some k at hk
    rw [hbug, hnone] at hk
    cases hk

/-- `try_lock` has given the lock to a thread. -/
theorem Inv.granted (h : s.Inv b) (hnone : s.bug = none) {t : τ} {m : SpinMode}
    (hcoded : s'.Coded b) (hpc : s'.pc = s.pc) (hbug : s'.bug = s.bug)
    (hexclusive : ∀ u, u ∈ s.exclusive → u ∈ s'.exclusive)
    (hshared : ∀ u, u ∈ s.shared → u ∈ s'.shared) (ht : s'.Holds t m) (cnt : Option ℕ) :
  (s'.granted b t m cnt).Inv b
  := by
  have hgoto : ∀ {p}, s'.Fits b t p → (s'.goto t p).Inv b := fun hp =>
    h.exchange hnone hcoded hpc hbug (fun u _ => hexclusive u) (fun u _ => hshared u) hp
  cases cnt with
  | none =>
      apply hgoto
      trivial
  | some n =>
      apply hgoto
      split
      next hdebug =>
        cases m with
        | exclusive => apply ht
        | shared => exact ⟨hdebug, ht⟩
      next => trivial

theorem Inv.attempt_exclusive (h : s.Inv b) (hnone : s.bug = none) (t : τ) (cnt : Option ℕ)
    (hzero : s.state = 0) :
  ((s.takeExclusive t).granted b t .exclusive cnt).Inv b
  := by
  apply h.granted hnone (h.coded.takeExclusive hzero t) rfl rfl
  · intro u hu
    apply List.mem_cons_of_mem t hu
  · intro u hu
    apply hu
  · apply List.mem_cons_self

theorem Inv.share (h : s.Inv b) (hnone : s.bug = none) (t : τ) (cnt : Option ℕ)
    (hlt : s.state < b.sLimit) :
  ((s.takeShare t s.state).granted b t .shared cnt).Inv b
  := by
  apply h.granted hnone (h.coded.takeShare hlt t) rfl rfl
  · intro u hu
    apply hu
  · intro u hu
    apply List.mem_cons_of_mem t hu
  · apply List.mem_cons_self

theorem Inv.clear (h : s.Inv b) (hnone : s.bug = none) {t : τ} (ht : t ∈ s.exclusive) :
  ((s.dropExclusive t).goto t .out).Inv b
  := by
  apply h.exchange hnone (h.coded.dropExclusive ht) rfl rfl
  · intro u hu hmem
    apply (List.mem_erase_of_ne hu).mpr hmem
  · intro u _ hmem
    apply hmem
  · trivial

theorem Inv.drop (h : s.Inv b) (hnone : s.bug = none) {t : τ} (ht : t ∈ s.shared) :
  ((s.dropShare t s.state).goto t .out).Inv b
  := by
  apply h.exchange hnone (h.coded.dropShare ht) rfl rfl
  · intro u _ hmem
    apply hmem
  · intro u hu hmem
    apply (List.mem_erase_of_ne hu).mpr hmem
  · trivial

/-- An access reaches a `bugcheck` only for the reasons that are excused. -/
theorem Inv.access (h : s.Inv b) (hnone : s.bug = none) {t : τ} (heq : s.access b t = some s') :
  s'.Inv b
  := by
  have hfits := h.fits t
  rw [SpinLock.access] at heq
  cases hpc : s.pc t with
  | out => simp only [hpc, reduceCtorEq] at heq
  | attempt m cnt =>
      cases m with
      | exclusive =>
          simp only [hpc] at heq
          split at heq
          next hzero =>
            cases heq
            apply h.attempt_exclusive hnone t cnt hzero
          next =>
            cases heq
            apply h.failed
      | shared =>
          simp only [hpc] at heq
          split at heq
          next hge =>
            have hx := h.coded.taken (h.coded.exclusive_of_ge hge)
            rw [b.refutes_of hx, if_neg Bool.false_ne_true] at heq
            cases heq
            apply h.failed
          next hlt =>
            have hcount := h.coded.count (h.coded.exclusive_of_lt (Nat.lt_of_not_le hlt))
            split at heq
            next hge =>
              cases heq
              apply h.bugcheck
              right
              refine ⟨Nat.le_antisymm h.coded.limit ?_, .inl rfl⟩
              rw [← hcount]
              apply hge
            next hlimit =>
              cases heq
              apply h.goto
              apply Nat.lt_of_not_le hlimit
  | share cur cnt =>
      rw [hpc] at hfits
      simp only [hpc] at heq
      split at heq
      next hcur =>
        subst hcur
        cases heq
        apply h.share hnone t cnt hfits
      next =>
        cases heq
        apply h.failed
  | confirm m =>
      rw [hpc] at hfits
      cases m with
      | exclusive =>
          simp only [hpc, h.coded.taken (List.ne_nil_of_mem hfits), if_true] at heq
          cases heq
          apply h.goto
          trivial
      | shared =>
          obtain ⟨hcount, hpos⟩ := h.coded.count_of_mem hfits.2
          simp only [hpc] at heq
          rw [if_pos (by rw [hcount]; apply Nat.ne_of_gt hpos)] at heq
          cases heq
          apply h.goto
          apply hfits
  | confirmLimit =>
      rw [hpc] at hfits
      simp only [hpc] at heq
      split at heq
      next =>
        cases heq
        apply h.goto
        trivial
      next hge =>
        cases heq
        apply h.bugcheck
        right
        refine ⟨Nat.le_antisymm h.coded.limit ?_, .inr ⟨rfl, hfits.1⟩⟩
        rw [← (h.coded.count_of_mem hfits.2).1]
        apply Nat.le_of_not_lt hge
  | unlock =>
      rw [hpc] at hfits
      simp only [hpc] at heq
      rcases hfits with ht | ht
      · have hx := h.coded.taken (List.ne_nil_of_mem ht)
        rw [if_neg (by rw [hx]; decide), if_pos (by rw [hx]), b.refutes_of hx,
          if_neg Bool.false_ne_true] at heq
        cases heq
        apply h.goto
        apply ht
      · obtain ⟨hcount, hpos⟩ := h.coded.count_of_mem ht
        have hlt : s.state < xValue := by
          rw [hcount]
          apply Nat.lt_of_le_of_lt h.coded.limit b.sLimit_lt
        rw [if_neg (by rw [hcount]; apply Nat.ne_of_gt hpos), if_neg (Nat.not_le_of_lt hlt)] at heq
        cases heq
        apply h.goto
        apply ht
  | clear =>
      rw [hpc] at hfits
      simp only [hpc] at heq
      rw [b.refutes_of (h.coded.taken (List.ne_nil_of_mem hfits)), if_neg Bool.false_ne_true] at heq
      cases heq
      apply h.clear hnone hfits
  | drop cur cnt =>
      rw [hpc] at hfits
      simp only [hpc] at heq
      split at heq
      next hcur =>
        subst hcur
        cases heq
        apply h.drop hnone hfits
      next =>
        cases heq
        apply h.goto
        apply hfits
  | reread cnt =>
      rw [hpc] at hfits
      simp only [hpc] at heq
      split at heq
      next =>
        cases heq
        apply h.goto
        apply hfits
      next =>
        cases heq
        apply h.bugcheck (.inl rfl)

/-! ### Runs -/

theorem Inv.step (h : s.Inv b) {a : Action τ} (hstep : s.step b a = some s') : s'.Inv b := by
  cases a with
  | lock t m =>
      rw [SpinLock.step, Option.ite_none_right_eq_some] at hstep
      cases hstep.2
      apply h.goto
      trivial
  | tryLock t m =>
      rw [SpinLock.step, Option.ite_none_right_eq_some] at hstep
      cases hstep.2
      apply h.goto
      trivial
  | unlock t =>
      rw [SpinLock.step, Option.ite_none_right_eq_some] at hstep
      cases hstep.2
      apply h.goto
      apply hstep.1.2.2
  | access t =>
      rw [SpinLock.step, Option.ite_none_right_eq_some] at hstep
      apply h.access hstep.1 hstep.2

/-- What a spin lock promises to its threads. -/
structure Promise (b : SpinBuild) (s : SpinLock τ) : Prop where
  exclusion : ∀ t, s.Holds t .exclusive → s.exclusive = [t] ∧ s.shared = []
  locked : s.isLocked = true ↔ ∃ t m, s.Holds t m
  exclusive : s.isExclusive = true ↔ ∃ t, s.Holds t .exclusive
  shares : s.isExclusive = false → s.state = s.shared.length
  limit : s.shared.length ≤ b.sLimit
  bug : ∀ k, s.bug = some k →
    k = .timeout ∨ s.shared.length = b.sLimit ∧ (k = .overflow ∨ k = .assertion ∧ b = .debug)

omit [DecidableEq τ] in
theorem Coded.isExclusive_iff (h : s.Coded b) : s.isExclusive = true ↔ s.exclusive ≠ [] := by
  rw [isExclusive, decide_eq_true_iff]
  constructor
  · apply h.exclusive_of_ge
  · intro hne
    rw [h.taken hne]

omit [DecidableEq τ] in
theorem Coded.isLocked_iff (h : s.Coded b) : s.isLocked = true ↔ ∃ t m, s.Holds t m := by
  rw [isLocked, bne_iff_ne]
  constructor
  · intro hne
    by_cases hnil : s.exclusive = []
    · rw [h.count hnil, ne_eq, List.length_eq_zero_iff] at hne
      obtain ⟨t, ht⟩ := List.exists_mem_of_ne_nil _ hne
      exact ⟨t, .shared, ht⟩
    · obtain ⟨t, ht⟩ := List.exists_mem_of_ne_nil _ hnil
      exact ⟨t, .exclusive, ht⟩
  · rintro ⟨t, m, ht⟩
    cases m with
    | exclusive =>
        rw [h.taken (List.ne_nil_of_mem ht)]
        decide
    | shared =>
        obtain ⟨hcount, hpos⟩ := h.count_of_mem ht
        rw [hcount]
        apply Nat.ne_of_gt hpos

/-- Whatever the order of the accesses, a thread that has the lock exclusively has it alone, the
word tells how the lock is held, and threads that release what they hold stop the kernel only when
one of them has waited too long or the lock has as many shares as it can have. -/
theorem spin_keeps_promise (b : SpinBuild) (τ : Type) [DecidableEq τ] {s : SpinLock τ}
    (h : (machine b τ).Reachable Machine.anyStep s) :
  s.Promise b
  := by
  have hinv : s.Inv b := by
    apply h.invariant
    · rintro s rfl
      refine ⟨⟨fun hne => absurd rfl hne, fun hne => absurd rfl hne, fun _ => rfl,
        Nat.zero_le _⟩, fun _ => trivial, fun k hk => ?_⟩
      cases hk
    · intro s a s' hs _ hstep
      apply hs.step hstep
  have hcoded := hinv.coded
  refine ⟨?_, hcoded.isLocked_iff, ?_, ?_, hcoded.limit, hinv.bug⟩
  · intro t ht
    exact ⟨hcoded.eq_of_mem ht, (hcoded.alone (List.ne_nil_of_mem ht)).2⟩
  · rw [hcoded.isExclusive_iff]
    exact ⟨List.exists_mem_of_ne_nil _, fun ⟨t, ht⟩ => List.ne_nil_of_mem ht⟩
  · intro hfalse
    apply hcoded.count
    by_contra hne
    rw [hcoded.isExclusive_iff.mpr hne] at hfalse
    cases hfalse

/-- A thread that takes one share after the other. -/
theorem exists_shares (b : SpinBuild) {n : ℕ} (hn : n ≤ b.sLimit) :
  ∃ s : SpinLock ℕ, (machine b ℕ).Reachable Machine.anyStep s ∧ s.bug = none ∧ s.pc 0 = .out ∧
    s.state = n ∧ s.shared.length = n
  := by
  induction n with
  | zero => exact ⟨new, .start rfl, rfl, rfl, rfl, rfl⟩
  | succ n ih =>
      obtain ⟨s, hs, hbug, hpc, hstate, hshared⟩ := ih (Nat.le_of_succ_le hn)
      have hx : ¬ xValue ≤ n := Nat.not_le_of_lt (Nat.lt_trans hn b.sLimit_lt)
      have hlimit : ¬ b.sLimit ≤ n := Nat.not_le_of_lt hn
      have h₁ : (machine b ℕ).step s (.tryLock 0 .shared) = some (s.goto 0 (.attempt .shared none)) :=
        if_pos ⟨hbug, hpc⟩
      have h₂ : (machine b ℕ).step (s.goto 0 (.attempt .shared none)) (.access 0) =
          some (s.goto 0 (.share n none)) := by
        simp [machine, SpinLock.step, SpinLock.access, SpinLock.goto, hbug, hstate, hx, hlimit]
      have h₃ : (machine b ℕ).step (s.goto 0 (.share n none)) (.access 0) =
          some ((s.takeShare 0 n).goto 0 .out) := by
        simp [machine, SpinLock.step, SpinLock.access, SpinLock.goto, SpinLock.takeShare, SpinLock.granted,
          hbug, hstate]
      have hreach := ((hs.step (.tryLock 0 .shared) trivial h₁).step (.access 0) trivial h₂).step
        (.access 0) trivial h₃
      refine ⟨_, hreach, hbug, ?_, rfl, ?_⟩
      · change Function.update s.pc 0 .out 0 = .out
        rw [Function.update_self]
      · change (0 :: s.shared).length = n + 1
        rw [List.length_cons, hshared]

/-- In a debug build the thread that takes the last share stops the kernel. -/
theorem spin_keeps_promise_limit :
  ∃ s : SpinLock ℕ, (machine .debug ℕ).Reachable Machine.anyStep s ∧
    s.shared.length = SpinBuild.sLimit .debug ∧ s.bug = some .assertion ∧ s.Promise .debug
  := by
  obtain ⟨s, hs, hbug, hpc, hstate, hshared⟩ := exists_shares (n := 63) .debug (by decide)
  have h₁ : (machine .debug ℕ).step s (.lock 0 .shared) =
      some (s.goto 0 (.attempt .shared (some 0))) := if_pos ⟨hbug, hpc⟩
  have h₂ : (machine .debug ℕ).exec (s.goto 0 (.attempt .shared (some 0)))
      (List.replicate 4 (.access 0)) = some (((s.takeShare 0 63).goto 0 .confirmLimit).bugcheck .assertion) := by
    simp [Machine.exec, machine, SpinLock.step, SpinLock.access, SpinLock.goto, SpinLock.takeShare,
      SpinLock.granted, SpinLock.bugcheck, SpinBuild.sLimit, xValue, hbug, hstate]
  have hreach := (hs.step (.lock 0 .shared) trivial h₁).exec h₂ (fun _ _ _ => trivial)
  refine ⟨_, hreach, ?_, rfl, spin_keeps_promise .debug ℕ hreach⟩
  change (0 :: s.shared).length = 64
  rw [List.length_cons, hshared]

end SpinLock

end UOS
