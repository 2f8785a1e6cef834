import Cofuos.Disk.Moves

/-!
# One copy of every page

No two slots hold the same page. A slot claims a page when it holds it, and also when a thread
is about to load it into the slot: while it does, the slot does not match. A thread that has
found no copy of a page and takes a slot for it does not look at these claims, so that another
copy may exist by then, or may be on its way. As long as this does not happen, there is only
one copy of every page, whatever the threads do.
-/

namespace UOS

open Fault

namespace Disk

variable {σ : Type} {n : ℕ} {s s' : State σ} {t : ℕ}

/-! ### Claims -/

/-- The slot that a thread is loading a page into, and the page. -/
def Pc.promise : Pc → Option (ℕ × ℕ)
  | .load k c | .reload k c _ | .read k c | .store k c | .fill k c => some (k, c.page)
  | .flush k cont | .flushLoop k _ _ cont | .flushed k cont _ =>
      cont.call.map fun c => (k, c.page)
  | _ => none

/-- A slot claims a page that it holds, or that a thread is loading into it. -/
def State.Claims (s : State σ) (k page : ℕ) : Prop :=
  (s.slot k).isMatch page = true ∨ ∃ t, (s.pc t).promise = some (k, page)

/-- There is at most one copy of every page in the slots. -/
def State.SingleCopy (n : ℕ) (s : State σ) : Prop :=
  ∀ k k', k < n → k' < n → (s.slot k).valid ≠ 0 → (s.slot k').valid ≠ 0 →
    (s.slot k).lbaBase = (s.slot k').lbaBase → k = k'

/-- No two slots claim the same page. -/
def State.Unique (s : State σ) : Prop :=
  ∀ k k' page, s.Claims k page → s.Claims k' page → k = k'

theorem State.Unique.single (h : s.Unique) : s.SingleCopy n := by
  intro k k' _ _ hv hv' hbase
  apply h k k' (s.slot k).lbaBase
  · left
    rw [Slot.isMatch_iff]
    exact ⟨hv, rfl⟩
  · left
    rw [Slot.isMatch_iff]
    exact ⟨hv', hbase.symm⟩

/-! ### What a step does to the claims -/

/-- A step makes no new claims, if the slots only hold pages that they have claimed before, and
if the thread only promises what has been claimed before. -/
theorem claims_of_step (hf : ∀ t', t' ≠ t → s'.pc t' = s.pc t')
    (hslot : ∀ k page, (s'.slot k).isMatch page = true → s.Claims k page)
    (hp : ∀ k page, (s'.pc t).promise = some (k, page) → s.Claims k page) {k page : ℕ}
    (h : s'.Claims k page) :
  s.Claims k page
  := by
  rcases h with h | ⟨t', h⟩
  · apply hslot k page h
  · by_cases ht : t' = t
    · subst ht
      apply hp k page h
    · rw [hf t' ht] at h
      right
      exact ⟨t', h⟩

/-- A thread that goes from one point to another makes no new claims, if it only promises what
has been claimed before. -/
theorem claims_goto {p : Pc} {k page : ℕ} (h : (s.goto t p).Claims k page)
    (hp : ∀ k page, p.promise = some (k, page) → s.Claims k page) :
  s.Claims k page
  := by
  apply claims_of_step (t := t) (fun t' ht => s.goto_pc_of_ne p ht) _ _ h
  · intro k page hm
    left
    apply hm
  · intro k page hpr
    rw [State.goto_pc_self] at hpr
    apply hp k page hpr

/-- A thread that replaces a slot makes no new claims, if the slot then holds no page but one
that it has claimed before. -/
theorem claims_setSlot {k k' page : ℕ} {slot : Slot σ} {p : Pc}
    (h : ((s.setSlot k slot).goto t p).Claims k' page)
    (hslot : ∀ page, slot.isMatch page = true → s.Claims k page)
    (hp : ∀ k' page, p.promise = some (k', page) → s.Claims k' page) :
  s.Claims k' page
  := by
  have hf : ∀ t', t' ≠ t → ((s.setSlot k slot).goto t p).pc t' = s.pc t' := by
    intro t' ht
    rw [State.goto_pc_of_ne _ p ht, State.setSlot_pc]
  apply claims_of_step hf _ _ h
  · intro k' page hm
    rw [State.goto_slot] at hm
    by_cases hk : k' = k
    · subst hk
      rw [State.setSlot_slot_self] at hm
      apply hslot page hm
    · rw [State.setSlot_slot_of_ne _ _ hk] at hm
      left
      apply hm
  · intro k' page hpr
    rw [State.goto_pc_self] at hpr
    apply hp k' page hpr

/-- A thread that has found no copy of a page takes the slot `k` for it. -/
def State.TakesFor (n : ℕ) (s : State σ) (t k page : ℕ) : Prop :=
  ∃ c times index, s.pc t = .search c times index (some k) ∧ n ≤ index ∧ s.free k = true ∧
    c.page = page

/-- When a thread takes a slot for a page, no other slot claims the page. -/
def Undisputed (n : ℕ) (s : State σ) (input : Input σ) : Prop :=
  ∀ k page, s.TakesFor n input.thread k page → ∀ k', s.Claims k' page → k' = k

/-- Only a thread that searches takes a slot. -/
theorem undisputed_of_pc {input : Input σ}
    (h : ∀ c times index target, s.pc input.thread ≠ .search c times index target) :
  Undisputed n s input
  := by
  rintro k page ⟨c, times, index, hp, -⟩
  apply absurd hp (h c times index (some k))

/-- No page is claimed when no slot is valid and no thread has promised anything. -/
theorem undisputed_of_empty {input : Input σ} (hv : ∀ k, (s.slot k).valid = 0)
    (hp : ∀ t, (s.pc t).promise = none) :
  Undisputed n s input
  := by
  rintro k page - k' (hm | ⟨t, hpr⟩)
  · rw [Slot.isMatch_iff] at hm
    apply absurd (hv k') hm.1
  · rw [hp t] at hpr
    cases hpr

/-- A call that has its slot promises its page. -/
theorem promise_call {c : Call} {k : ℕ} {p : Pc} (hp : p.promise = some (k, c.page)) :
  (if c.write = true then Pc.store k c else p).promise = some (k, c.page)
  := by
  split_ifs
  · rfl
  · apply hp

variable [Zero σ] {debug : Bool}

/-- A move only makes new claims when a thread takes a slot for a page. -/
theorem Move.claims {input : Input σ} (h : Move debug n s input s') (hok : s.Ok n) {k page : ℕ}
    (hc : s'.Claims k page) :
  s.Claims k page ∨ s.TakesFor n input.thread k page
  := by
  have hpc : ∀ {t p}, s.pc t = p → p.Ok n s t := by
    intro t p heq
    rw [← heq]
    apply hok t
  -- a thread that keeps its promise
  have hkeep : ∀ {t : ℕ} {p p' : Pc}, s.pc t = p → p'.promise = p.promise →
      ∀ k page, p'.promise = some (k, page) → s.Claims k page := by
    intro t p p' hp heq k page hpr
    right
    use t
    rw [hp, ← heq, hpr]
  -- a thread that promises nothing
  have hnone : ∀ {p : Pc}, p.promise = none →
      ∀ k page, p.promise = some (k, page) → s.Claims k page := by
    intro p hp k page hpr
    rw [hp] at hpr
    cases hpr
  -- a slot that holds the same page as before
  have hsame : ∀ {k : ℕ} {slot : Slot σ}, slot.valid = (s.slot k).valid →
      slot.lbaBase = (s.slot k).lbaBase → ∀ page, slot.isMatch page = true → s.Claims k page := by
    intro k slot hv hb page hm
    left
    rw [Slot.isMatch_iff, hv, hb] at hm
    rw [Slot.isMatch_iff]
    apply hm
  -- a slot that holds no page, or the page that a thread has promised
  have hpromised : ∀ {t k : ℕ} {c : Call} {p : Pc} {slot : Slot σ}, s.pc t = p →
      p.promise = some (k, c.page) → (slot.valid ≠ 0 → slot.lbaBase = c.page) →
      ∀ page, slot.isMatch page = true → s.Claims k page := by
    intro t k c p slot hp hpr hbase page hm
    rw [Slot.isMatch_iff] at hm
    right
    use t
    rw [hp, hpr, ← hm.2, hbase hm.1]
  cases h with
  | get => exact .inl (claims_goto hc (hnone rfl))
  | data => exact .inl (claims_goto hc (hnone rfl))
  | flush => exact .inl (claims_goto hc (hnone rfl))
  | relaxFlush => exact .inl (claims_goto hc (hnone rfl))
  | relax => exact .inl (claims_goto hc (hnone rfl))
  | hit => exact .inl (claims_goto hc (hnone rfl))
  | miss => exact .inl (claims_goto hc (hnone rfl))
  | again => exact .inl (claims_goto hc (hnone rfl))
  | probe => exact .inl (claims_goto hc (hnone rfl))
  | loadFull => exact .inl (claims_goto hc (hnone rfl))
  | readFail => exact .inl (claims_goto hc (hnone rfl))
  | fail => exact .inl (claims_goto hc (hnone rfl))
  | sweepSkip => exact .inl (claims_goto hc (hnone rfl))
  | sweepEnd => exact .inl (claims_goto hc (hnone rfl))
  | loadPart hp _ => exact .inl (claims_goto hc (hkeep hp rfl))
  | reload hp => exact .inl (claims_goto hc (hkeep hp rfl))
  | storeOther hp _ => exact .inl (claims_goto hc (hkeep hp rfl))
  | storeSame hp _ => exact .inl (claims_goto hc (hkeep hp rfl))
  | clean hp _ => exact .inl (claims_goto hc (hkeep hp rfl))
  | flushStart hp _ => exact .inl (claims_goto hc (hkeep hp rfl))
  | skip hp _ _ => exact .inl (claims_goto hc (hkeep hp rfl))
  | writeFail hp _ => exact .inl (claims_goto hc (hkeep hp rfl))
  | nothing hp _ _ => exact .inl (claims_goto hc (hkeep hp rfl))
  | @write t now k i head cont hp _ _ _ =>
      left
      have hc' : (s.goto t (.flushLoop k (i + 1) (i + 1) cont)).Claims _ page := hc
      apply claims_goto hc' (hkeep hp rfl)
  | @stay t now ok c times index target hp hm =>
      left
      apply claims_goto hc
      intro k page hpr
      left
      rw [promise_call rfl] at hpr
      cases hpr
      apply hm
  | upgrade _ _ _ hup =>
      obtain ⟨dirty, rfl, -⟩ := Slot.upgrade_post hup
      exact .inl (claims_setSlot hc (hsame rfl rfl) (hnone rfl))
  | edit => exact .inl (claims_setSlot hc (hsame rfl rfl) (hnone rfl))
  | lock => exact .inl (claims_setSlot hc (hsame rfl rfl) (hnone rfl))
  | leave => exact .inl (claims_setSlot hc (hsame rfl rfl) (hnone rfl))
  | relaxed => exact .inl (claims_setSlot hc (hsame rfl rfl) (hnone rfl))
  | swept => exact .inl (claims_setSlot hc (hsame rfl rfl) (hnone rfl))
  | sweepTake => exact .inl (claims_setSlot hc (hsame rfl rfl) (hnone rfl))
  | done hp _ => exact .inl (claims_setSlot hc (hsame rfl rfl) (hkeep hp rfl))
  | read hp =>
      exact .inl (claims_setSlot hc (hpromised hp rfl fun _ => (hpc hp).2.1) (hnone rfl))
  | fill hp hfill =>
      obtain ⟨dirty, rfl, -⟩ := Slot.fill_post hfill
      exact .inl (claims_setSlot hc (hpromised hp rfl fun _ => (hpc hp).2.1) (hnone rfl))
  | rebaseReload hp =>
      exact .inl (claims_setSlot hc (hpromised hp rfl fun hv => absurd rfl hv) (hkeep hp rfl))
  | rebaseStore hp =>
      exact .inl (claims_setSlot hc (hpromised hp rfl fun hv => absurd rfl hv) (hkeep hp rfl))
  | @take t now ok c times index k' hp hi hf =>
      by_cases hkp : k = k' ∧ page = c.page
      · obtain ⟨rfl, rfl⟩ := hkp
        right
        exact ⟨c, times, index, hp, hi, hf, rfl⟩
      · left
        rcases hc with hm | ⟨t', hpr⟩
        · by_cases hk : k = k'
          · subst hk
            apply hsame rfl rfl page
            rw [State.goto_slot, State.lock, State.setSlot_slot_self] at hm
            apply hm
          · rw [State.goto_slot, State.lock, State.setSlot_slot_of_ne _ _ hk] at hm
            left
            apply hm
        · by_cases ht : t' = t
          · subst ht
            rw [State.goto_pc_self] at hpr
            exfalso
            apply hkp
            rw [promise_call rfl] at hpr
            cases hpr
            exact ⟨rfl, rfl⟩
          · rw [State.goto_pc_of_ne _ _ ht] at hpr
            right
            exact ⟨t', hpr⟩

/-! ### Runs -/

/-- A move that is not disputed keeps the claims of the slots apart. -/
theorem Move.unique {input : Input σ} (h : Move debug n s input s') (hok : s.Ok n)
    (hu : s.Unique) (hun : Undisputed n s input) :
  s'.Unique
  := by
  intro k k' page hc hc'
  rcases h.claims hok hc with hold | htake
  · rcases h.claims hok hc' with hold' | htake'
    · apply hu k k' page hold hold'
    · apply hun k' page htake' k hold
  · rcases h.claims hok hc' with hold' | htake'
    · rw [hun k page htake k' hold']
    · obtain ⟨c, times, index, hp, -⟩ := htake
      obtain ⟨c', times', index', hp', -⟩ := htake'
      rw [hp] at hp'
      cases hp'
      rfl

/-- In every run in which no slot is taken for a page that is claimed by another slot, there is
only one copy of every page. -/
theorem Run.singleCopy {disk : ℕ → σ} {v : View σ}
    (h : Run debug n (fun _ s input => Undisputed n s input) disk v s) :
  s.SingleCopy n
  := by
  have hinv : s.Ok n ∧ s.Unique := by
    induction h with
    | new slot hslot =>
        constructor
        · intro t
          trivial
        · rintro k k' page (hm | ⟨t, hpr⟩) -
          · rw [Slot.isMatch_iff] at hm
            apply absurd (hslot k).1 hm.1
          · cases hpr
    | step input _ hen hun heq ih =>
        have hmove := move_of_next hen heq
        exact ⟨hmove.ok ih.1, hmove.unique ih.1 ih.2 hun⟩
  apply hinv.2.single

/-- A thread that is alone in the cache reads a sector, and there is one copy of its page. -/
theorem singleCopy_alone :
  ∃ s : State ℕ, (s.slot 0).valid = 0xFF ∧ s.pc 0 = .got 0 ⟨8, 2, false⟩ ∧ s.SingleCopy 1
  := by
  have h₀ : Run false 1 (fun _ s input => Undisputed 1 s input) (fun _ => 0) _ empty :=
    Run.new _ fun _ => ⟨rfl, rfl, rfl⟩
  have h₁ := h₀.step (.get 0 ⟨8, 2, false⟩) rfl (undisputed_of_pc (by simp [empty])) rfl
  -- the slot is looked at, and does not match
  have h₂ := h₁.step (.run 0 true 0) rfl (undisputed_of_empty (fun _ => rfl) (by rintro (_ | t) <;> rfl)) rfl
  have h₃ := h₂.step (.run 0 true 0) rfl (undisputed_of_pc (by rintro _ _ _ _ ⟨⟩)) rfl
  -- the slot is taken for the page, which is then loaded
  have h₄ := h₃.step (.run 0 true 0) rfl (undisputed_of_empty (fun _ => rfl) (by rintro (_ | t) <;> rfl)) rfl
  have h₅ := h₄.step (.run 0 true 0) rfl (undisputed_of_pc (by rintro _ _ _ _ ⟨⟩)) rfl
  have h₆ := h₅.step (.run 0 true 0) rfl (undisputed_of_pc (by rintro _ _ _ _ ⟨⟩)) rfl
  have h₇ := h₆.step (.run 0 true 0) rfl (undisputed_of_pc (by rintro _ _ _ _ ⟨⟩)) rfl
  have h₈ := h₇.step (.run 0 true 0) rfl (undisputed_of_pc (by rintro _ _ _ _ ⟨⟩)) rfl
  exact ⟨_, rfl, rfl, h₈.singleCopy⟩

/-- The inputs of a thread that reads the sector `lba`, up to the command. -/
def reads (t lba : ℕ) : List (Input ℕ) :=
  .get t ⟨lba, 1, false⟩ :: List.replicate 8 (.run t true 0)

/-- Two threads that read the same sector of an empty cache: each of them finds no copy of the
page, and loads it into a slot of its own. -/
theorem singleCopy_race :
  ∃ v s, Run false 2 (fun _ _ _ => True) (fun _ => 0) v s ∧ ¬ s.SingleCopy 2
  := by
  have hnew : Run false 2 (fun _ _ _ => True) (fun _ => 0) _ empty :=
    Run.new _ fun _ => ⟨rfl, rfl, rfl⟩
  obtain ⟨s, hexec, hv, hv', hb⟩ : ∃ s, empty.exec false 2
      (reads 0 0 ++ reads 1 0 ++ [.run 0 true 0, .run 1 true 0]) = some s ∧
      (s.slot 0).valid ≠ 0 ∧ (s.slot 1).valid ≠ 0 ∧ (s.slot 0).lbaBase = (s.slot 1).lbaBase := by
    refine ⟨_, rfl, ?_, ?_, ?_⟩
    · decide
    · decide
    · rfl
  obtain ⟨v, hrun⟩ := hnew.exec _ (fun _ _ _ _ => trivial) hexec
  refine ⟨v, s, hrun, ?_⟩
  intro hsingle
  have := hsingle 0 1 (by omega) (by omega) hv hv' hb
  cases this

end Disk

end UOS
