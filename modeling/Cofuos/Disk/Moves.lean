import Cofuos.Disk.Slots

/-!
# The steps of the cache

All that a step of the cache can do, once and for all: a list of the moves, and what a move
leaves alone. A thread only changes a slot whose lock it holds or takes, and the points of the
program that the other threads are at only depend on the slots that they hold.
-/

namespace UOS

open Fault

namespace Disk

variable {σ : Type} {n : ℕ} {s s' : State σ} {t : ℕ}

/-! ### Locks -/

/-- The thread of an input. -/
def Input.thread : Input σ → ℕ
  | .get t _ | .upgrade t _ _ _ | .data t _ _ | .edit t _ _ _ | .relax t _ _ | .flush t
  | .run t _ _ => t

/-- The thread `t` has the lock of the slot `k`. -/
def State.Owns (n : ℕ) (s : State σ) (t k : ℕ) : Prop :=
  k < n ∧ (s.slot k).objlock = some t

/-- A page that is loaded again is the one that is asked for, and `store` is only for calls
that write. -/
def Cont.Ok : Cont → Prop
  | .reload c alignedLba => alignedLba = c.page ∧ c.write = false
  | .store c => c.write = true
  | .relax | .sweep => True

/-- What a thread knows at a point of the program. -/
def Pc.Ok (n : ℕ) (s : State σ) (t : ℕ) : Pc → Prop
  | .idle | .sweep _ => True
  | .search _ _ _ target => ∀ k ∈ target, k < n
  | .lock _ _ index target | .probe _ _ index target => index < n ∧ ∀ k ∈ target, k < n
  | .locked _ _ index target => s.Owns n t index ∧ ∀ k ∈ target, k < n
  | .got k c => s.Owns n t k ∧ (s.slot k).lbaBase = c.page
  | .load k c => s.Owns n t k ∧ (s.slot k).isMatch c.page = true ∧ c.write = false
  | .reload k c alignedLba => s.Owns n t k ∧ alignedLba = c.page ∧ c.write = false
  | .read k c => s.Owns n t k ∧ (s.slot k).lbaBase = c.page ∧ c.write = false
  | .store k c => s.Owns n t k ∧ c.write = true
  | .fill k c => s.Owns n t k ∧ (s.slot k).lbaBase = c.page ∧ c.write = true
  | .flush k cont | .flushLoop k _ _ cont | .flushed k cont _ => s.Owns n t k ∧ cont.Ok

/-- The threads know what they have to. -/
def State.Ok (n : ℕ) (s : State σ) : Prop := ∀ t, (s.pc t).Ok n s t

/-- A step of the thread `t` leaves the other threads and their slots alone. -/
structure Frame (s s' : State σ) (t : ℕ) : Prop where
  slot : ∀ k t', (s.slot k).objlock = some t' → t' ≠ t → s'.slot k = s.slot k
  pc : ∀ t', t' ≠ t → s'.pc t' = s.pc t'

theorem frame_goto (p : Pc) : Frame s (s.goto t p) t := by
  constructor
  · intro k t' _ _
    rfl
  · intro t' ht
    apply Function.update_of_ne ht

theorem frame_setSlot {k : ℕ} (h : (s.slot k).objlock = none ∨ (s.slot k).objlock = some t)
    (slot : Slot σ) (p : Pc) :
  Frame s ((s.setSlot k slot).goto t p) t
  := by
  constructor
  · intro k' t' hlock ht
    apply Function.update_of_ne
    rintro rfl
    rcases h with h | h
    · rw [h] at hlock
      cases hlock
    · rw [h] at hlock
      cases hlock
      apply ht rfl
  · intro t' ht
    apply Function.update_of_ne ht

/-- What a thread knows does not depend on the slots of others. -/
theorem Pc.Ok.frame {p : Pc} {t' : ℕ} (h : p.Ok n s t') (hf : Frame s s' t) (ht : t' ≠ t) :
  p.Ok n s' t'
  := by
  have hslot : ∀ k, s.Owns n t' k → s'.slot k = s.slot k := by
    intro k hk
    apply hf.slot k t' hk.2 ht
  have howns : ∀ k, s.Owns n t' k → s'.Owns n t' k := by
    intro k hk
    use hk.1
    rw [hslot k hk]
    apply hk.2
  cases p with
  | idle => trivial
  | sweep index => trivial
  | search c times index target => apply h
  | lock c times index target => apply h
  | probe c times index target => apply h
  | locked c times index target => exact ⟨howns _ h.1, h.2⟩
  | load k c =>
      use howns _ h.1
      rw [hslot k h.1]
      apply h.2
  | reload k c alignedLba => exact ⟨howns _ h.1, h.2⟩
  | store k c => exact ⟨howns _ h.1, h.2⟩
  | got k c =>
      use howns _ h.1
      rw [hslot k h.1]
      apply h.2
  | read k c =>
      use howns _ h.1
      rw [hslot k h.1]
      apply h.2
  | fill k c =>
      use howns _ h.1
      rw [hslot k h.1]
      apply h.2
  | flush k cont => exact ⟨howns _ h.1, h.2⟩
  | flushLoop k i head cont => exact ⟨howns _ h.1, h.2⟩
  | flushed k cont res => exact ⟨howns _ h.1, h.2⟩

/-- If the thread that takes a step knows what it has to, then so do all threads. -/
theorem State.Ok.step (h : s.Ok n) (hf : Frame s s' t) (ht : (s'.pc t).Ok n s' t) : s'.Ok n := by
  intro t'
  by_cases hne : t' = t
  · subst hne
    apply ht
  · rw [hf.pc t' hne]
    apply (h t').frame hf hne

theorem State.Ok.goto (h : s.Ok n) {p : Pc} (hp : p.Ok n s t) : (s.goto t p).Ok n := by
  apply h.step (frame_goto p)
  rw [State.goto_pc_self]
  cases p <;> apply hp

theorem State.Ok.setSlot (h : s.Ok n) {k : ℕ}
    (hk : (s.slot k).objlock = none ∨ (s.slot k).objlock = some t) {slot : Slot σ} {p : Pc}
    (hp : p.Ok n (s.setSlot k slot) t) :
  ((s.setSlot k slot).goto t p).Ok n
  := by
  apply h.step (frame_setSlot hk slot p)
  rw [State.goto_pc_self]
  cases p <;> apply hp

/-- A slot that is replaced by its owner stays with it. -/
theorem State.Owns.setSlot {k : ℕ} (h : s.Owns n t k) {slot : Slot σ}
    (hslot : slot.objlock = some t) :
  (s.setSlot k slot).Owns n t k
  := by
  use h.1
  rw [State.setSlot_slot_self]
  apply hslot

theorem State.free_iff {k : ℕ} : s.free k = true ↔ (s.slot k).objlock = none := by
  rw [State.free, decide_eq_true_iff]

/-- The lock of a slot that a thread has is not free. -/
theorem State.Owns.free_eq {k : ℕ} (h : s.Owns n t k) : s.free k = false := by
  rw [← Bool.not_eq_true, State.free_iff, h.2]
  rintro ⟨⟩

theorem State.holds_iff {k : ℕ} :
  s.holds n t k = true ↔ (s.pc t).outside = true ∧ s.Owns n t k
  := by
  rw [State.holds, decide_eq_true_iff]
  rfl

/-! ### Moves -/

variable [Zero σ] {debug : Bool}

/-- The moves of the cache. The assertions of a debug build are left out. -/
inductive Move (debug : Bool) (n : ℕ) (s : State σ) : Input σ → State σ → Prop
  | get {t : ℕ} {c : Call} : (s.pc t).outside = true → c.count ≤ count c.lba →
      Move debug n s (.get t c) (s.goto t (.search c 0 0 none))
  | upgrade {t k lba cnt : ℕ} {slot : Slot σ} : s.holds n t k = true →
      pageLba lba = (s.slot k).lbaBase → cnt ≤ count lba →
      (s.slot k).upgrade debug lba cnt = .ok slot →
      Move debug n s (.upgrade t k lba cnt) ((s.setSlot k slot).goto t .idle)
  | data {t k lba : ℕ} : s.holds n t k = true → Move debug n s (.data t k lba) (s.goto t .idle)
  | edit {t k lba : ℕ} {value : σ} : s.holds n t k = true →
      Move debug n s (.edit t k lba value) ((s.setSlot k { s.slot k with
        access := Function.update (s.slot k).access (lba - (s.slot k).lbaBase) value }).goto t
          .idle)
  | relaxFlush {t k : ℕ} : s.holds n t k = true → (s.slot k).dirty ≠ 0 →
      Move debug n s (.relax t k true) (s.goto t (.flush k .relax))
  | relax {t k : ℕ} {flush : Bool} : s.holds n t k = true →
      Move debug n s (.relax t k flush) (s.goto t (.flushed k .relax true))
  | flush {t : ℕ} : (s.pc t).outside = true → Move debug n s (.flush t) (s.goto t (.sweep 0))
  | hit {t now : ℕ} {ok : Bool} {c : Call} {times index : ℕ} {target : Option ℕ} :
      s.pc t = .search c times index target → index < n →
      (s.slot index).isMatch c.page = true →
      Move debug n s (.run t ok now) (s.goto t (.lock c times index target))
  | miss {t now : ℕ} {ok : Bool} {c : Call} {times index : ℕ} {target : Option ℕ} :
      s.pc t = .search c times index target → index < n →
      (s.slot index).isMatch c.page = false →
      Move debug n s (.run t ok now) (s.goto t (.probe c times index target))
  | take {t now : ℕ} {ok : Bool} {c : Call} {times index k : ℕ} :
      s.pc t = .search c times index (some k) → n ≤ index → s.free k = true →
      Move debug n s (.run t ok now)
        ((s.lock t k).goto t (if c.write = true then .store k c else .reload k c c.page))
  | again {t now : ℕ} {ok : Bool} {c : Call} {times index : ℕ} {target : Option ℕ} :
      s.pc t = .search c times index target → n ≤ index →
      Move debug n s (.run t ok now) (s.goto t (.search c (times + 1) 0 none))
  | lock {t now : ℕ} {ok : Bool} {c : Call} {times index : ℕ} {target : Option ℕ} :
      s.pc t = .lock c times index target → s.free index = true →
      Move debug n s (.run t ok now) ((s.lock t index).goto t (.locked c times index target))
  | stay {t now : ℕ} {ok : Bool} {c : Call} {times index : ℕ} {target : Option ℕ} :
      s.pc t = .locked c times index target → (s.slot index).isMatch c.page = true →
      Move debug n s (.run t ok now)
        (s.goto t (if c.write = true then .store index c else .load index c))
  | leave {t now : ℕ} {ok : Bool} {c : Call} {times index : ℕ} {target : Option ℕ} :
      s.pc t = .locked c times index target → (s.slot index).isMatch c.page = false →
      Move debug n s (.run t ok now) ((s.unlock index).goto t (.probe c times index target))
  | probe {t now : ℕ} {ok : Bool} {c : Call} {times index : ℕ} {target target' : Option ℕ} :
      s.pc t = .probe c times index target → target' = target ∨ target' = some index →
      Move debug n s (.run t ok now) (s.goto t (.search c times (index + 1) target'))
  | loadFull {t now : ℕ} {ok : Bool} {k : ℕ} {c : Call} : s.pc t = .load k c →
      (s.slot k).valid = 0xFF → Move debug n s (.run t ok now) (s.goto t (.got k c))
  | loadPart {t now : ℕ} {ok : Bool} {k : ℕ} {c : Call} : s.pc t = .load k c →
      (s.slot k).valid ≠ 0xFF →
      Move debug n s (.run t ok now) (s.goto t (.reload k c (s.slot k).lbaBase))
  | reload {t now : ℕ} {ok : Bool} {k : ℕ} {c : Call} {alignedLba : ℕ} :
      s.pc t = .reload k c alignedLba →
      Move debug n s (.run t ok now) (s.goto t (.flush k (.reload c alignedLba)))
  | read {t now : ℕ} {k : ℕ} {c : Call} : s.pc t = .read k c →
      Move debug n s (.run t true now)
        ((s.setSlot k ((s.slot k).read s.disk now)).goto t (.got k c))
  | readFail {t now : ℕ} {k : ℕ} {c : Call} : s.pc t = .read k c →
      Move debug n s (.run t false now) (s.goto t .idle)
  | storeOther {t now : ℕ} {ok : Bool} {k : ℕ} {c : Call} : s.pc t = .store k c →
      c.page ≠ (s.slot k).lbaBase →
      Move debug n s (.run t ok now) (s.goto t (.flush k (.store c)))
  | storeSame {t now : ℕ} {ok : Bool} {k : ℕ} {c : Call} : s.pc t = .store k c →
      c.page = (s.slot k).lbaBase → Move debug n s (.run t ok now) (s.goto t (.fill k c))
  | fill {t now : ℕ} {ok : Bool} {k : ℕ} {c : Call} {slot : Slot σ} : s.pc t = .fill k c →
      (s.slot k).fill debug c.lba c.count now = .ok slot →
      Move debug n s (.run t ok now) ((s.setSlot k slot).goto t (.got k c))
  | clean {t now : ℕ} {ok : Bool} {k : ℕ} {cont : Cont} : s.pc t = .flush k cont →
      (s.slot k).dirty = 0 → Move debug n s (.run t ok now) (s.goto t (.flushed k cont true))
  | flushStart {t now : ℕ} {ok : Bool} {k : ℕ} {cont : Cont} : s.pc t = .flush k cont →
      (s.slot k).dirty ≠ 0 →
      Move debug n s (.run t ok now) (s.goto t (.flushLoop k 0 0 cont))
  | skip {t now : ℕ} {ok : Bool} {k i head : ℕ} {cont : Cont} :
      s.pc t = .flushLoop k i head cont → i ≤ 8 → (s.slot k).dirty.getLsbD i = true →
      Move debug n s (.run t ok now) (s.goto t (.flushLoop k (i + 1) head cont))
  | write {t now : ℕ} {k i head : ℕ} {cont : Cont} : s.pc t = .flushLoop k i head cont →
      i ≤ 8 → (s.slot k).dirty.getLsbD i = false → head ≠ i →
      Move debug n s (.run t true now)
        ({ s with disk := (s.slot k).write s.disk head i }.goto t
          (.flushLoop k (i + 1) (i + 1) cont))
  | writeFail {t now : ℕ} {k i head : ℕ} {cont : Cont} : s.pc t = .flushLoop k i head cont →
      i ≤ 8 → Move debug n s (.run t false now) (s.goto t (.flushed k cont false))
  | nothing {t now : ℕ} {ok : Bool} {k i : ℕ} {cont : Cont} :
      s.pc t = .flushLoop k i i cont → i ≤ 8 → (s.slot k).dirty.getLsbD i = false →
      Move debug n s (.run t ok now) (s.goto t (.flushLoop k (i + 1) (i + 1) cont))
  | done {t now : ℕ} {ok : Bool} {k i head : ℕ} {cont : Cont} :
      s.pc t = .flushLoop k i head cont → 8 < i →
      Move debug n s (.run t ok now)
        ((s.setSlot k { s.slot k with dirty := 0 }).goto t (.flushed k cont true))
  | rebaseReload {t now : ℕ} {ok : Bool} {k : ℕ} {c : Call} {alignedLba : ℕ} :
      s.pc t = .flushed k (.reload c alignedLba) true →
      Move debug n s (.run t ok now)
        ((s.setSlot k ((s.slot k).rebase alignedLba)).goto t (.read k c))
  | rebaseStore {t now : ℕ} {ok : Bool} {k : ℕ} {c : Call} :
      s.pc t = .flushed k (.store c) true →
      Move debug n s (.run t ok now)
        ((s.setSlot k ((s.slot k).rebase c.page)).goto t (.fill k c))
  | fail {t now : ℕ} {ok : Bool} {k : ℕ} {cont : Cont} : s.pc t = .flushed k cont false →
      Move debug n s (.run t ok now) (s.goto t .idle)
  | relaxed {t now : ℕ} {ok res : Bool} {k : ℕ} : s.pc t = .flushed k .relax res →
      Move debug n s (.run t ok now) ((s.unlock k).goto t .idle)
  | swept {t now : ℕ} {ok res : Bool} {k : ℕ} : s.pc t = .flushed k .sweep res →
      Move debug n s (.run t ok now) ((s.unlock k).goto t (.sweep (k + 1)))
  | sweepTake {t now : ℕ} {ok : Bool} {index : ℕ} : s.pc t = .sweep index → index < n →
      s.free index = true →
      Move debug n s (.run t ok now) ((s.lock t index).goto t (.flush index .sweep))
  | sweepSkip {t now : ℕ} {ok : Bool} {index : ℕ} : s.pc t = .sweep index → index < n →
      Move debug n s (.run t ok now) (s.goto t (.sweep (index + 1)))
  | sweepEnd {t now : ℕ} {ok : Bool} {index : ℕ} : s.pc t = .sweep index → n ≤ index →
      Move debug n s (.run t ok now) (s.goto t .idle)

section Moves

variable {ok : Bool} {now : ℕ}

/-- Looking at the next slot, or at the end of them. -/
theorem move_of_search {c : Call} {times index : ℕ} {target : Option ℕ}
    (hpc : s.pc t = .search c times index target)
    (h : s.run debug n t ok now = .ok s') :
  Move debug n s (.run t ok now) s'
  := by
  rw [State.run] at h
  simp only [hpc] at h
  obtain ⟨u, -, h⟩ := Except.bind_eq_ok_iff.mp h
  by_cases hi : index < n
  · rw [if_pos hi] at h
    by_cases hm : (s.slot index).isMatch c.page = true
    · rw [if_pos hm] at h
      cases h
      apply Move.hit hpc hi hm
    · rw [if_neg hm] at h
      cases h
      apply Move.miss hpc hi (by simpa using hm)
  · rw [if_neg hi] at h
    cases target with
    | none =>
        simp only at h
        split_ifs at h
        cases h
        apply Move.again hpc (by omega)
    | some k =>
        simp only at h
        by_cases hf : s.free k = true
        · rw [if_pos hf] at h
          cases h
          apply Move.take hpc (by omega) hf
        · rw [if_neg hf] at h
          split_ifs at h
          cases h
          apply Move.again hpc (by omega)

/-- The slot that was waited for may hold another page by now. -/
theorem move_of_locked {c : Call} {times index : ℕ} {target : Option ℕ}
    (hpc : s.pc t = .locked c times index target)
    (h : s.run debug n t ok now = .ok s') :
  Move debug n s (.run t ok now) s'
  := by
  rw [State.run] at h
  simp only [hpc] at h
  by_cases hm : (s.slot index).isMatch c.page = true
  · rw [if_pos hm] at h
    cases h
    apply Move.stay hpc hm
  · rw [if_neg hm] at h
    cases h
    apply Move.leave hpc (by simpa using hm)

/-- A slot that holds the whole page is not read again. -/
theorem move_of_load {k : ℕ} {c : Call} (hpc : s.pc t = .load k c)
    (h : s.run debug n t ok now = .ok s') :
  Move debug n s (.run t ok now) s'
  := by
  rw [State.run] at h
  simp only [hpc] at h
  obtain ⟨u, -, h⟩ := Except.bind_eq_ok_iff.mp h
  obtain ⟨u, -, h⟩ := Except.bind_eq_ok_iff.mp h
  split_ifs at h with hv
  · cases h
    apply Move.loadFull hpc hv
  · obtain ⟨u, -, h⟩ := Except.bind_eq_ok_iff.mp h
    cases h
    apply Move.loadPart hpc hv

/-- Reading the page succeeds or fails. -/
theorem move_of_read {k : ℕ} {c : Call} (hpc : s.pc t = .read k c)
    (h : s.run debug n t ok now = .ok s') :
  Move debug n s (.run t ok now) s'
  := by
  rw [State.run] at h
  simp only [hpc] at h
  cases ok with
  | true =>
      cases h
      apply Move.read hpc
  | false =>
      cases h
      apply Move.readFail hpc

/-- A slot of another page is written back first. -/
theorem move_of_store {k : ℕ} {c : Call} (hpc : s.pc t = .store k c)
    (h : s.run debug n t ok now = .ok s') :
  Move debug n s (.run t ok now) s'
  := by
  rw [State.run] at h
  simp only [hpc] at h
  obtain ⟨u, -, h⟩ := Except.bind_eq_ok_iff.mp h
  split_ifs at h with hb
  · cases h
    apply Move.storeOther hpc hb
  · cases h
    apply Move.storeSame hpc (by simpa using hb)

/-- A slot that is not dirty is not written back. -/
theorem move_of_flush {k : ℕ} {cont : Cont} (hpc : s.pc t = .flush k cont)
    (h : s.run debug n t ok now = .ok s') :
  Move debug n s (.run t ok now) s'
  := by
  rw [State.run] at h
  simp only [hpc] at h
  obtain ⟨u, -, h⟩ := Except.bind_eq_ok_iff.mp h
  split_ifs at h with hd
  · cases h
    apply Move.clean hpc hd
  · cases h
    apply Move.flushStart hpc hd

/-- The next sector of a slot that is written back. -/
theorem move_of_flushLoop {k i head : ℕ} {cont : Cont}
    (hpc : s.pc t = .flushLoop k i head cont)
    (h : s.run debug n t ok now = .ok s') :
  Move debug n s (.run t ok now) s'
  := by
  rw [State.run] at h
  simp only [hpc] at h
  split_ifs at h with hi hb hh hok
  · cases h
    apply Move.skip hpc hi hb
  · cases h
    subst hok
    apply Move.write hpc hi (by simpa using hb) hh
  · cases h
    rw [Bool.not_eq_true] at hok
    subst hok
    apply Move.writeFail hpc hi
  · cases h
    rw [ne_eq, not_not] at hh
    subst hh
    apply Move.nothing hpc hi (by simpa using hb)
  · cases h
    apply Move.done hpc (by omega)

/-- What follows after a slot was written back. -/
theorem move_of_flushed {k : ℕ} {cont : Cont} {res : Bool}
    (hpc : s.pc t = .flushed k cont res)
    (h : s.run debug n t ok now = .ok s') :
  Move debug n s (.run t ok now) s'
  := by
  rw [State.run] at h
  simp only [hpc] at h
  cases cont with
  | reload c alignedLba =>
      cases res with
      | true =>
          cases h
          apply Move.rebaseReload hpc
      | false =>
          cases h
          apply Move.fail hpc
  | store c =>
      cases res with
      | true =>
          cases h
          apply Move.rebaseStore hpc
      | false =>
          cases h
          apply Move.fail hpc
  | relax =>
      cases h
      apply Move.relaxed hpc
  | sweep =>
      cases h
      apply Move.swept hpc

/-- Looking at the next slot that may have to be written back. -/
theorem move_of_sweep {index : ℕ} (hpc : s.pc t = .sweep index)
    (h : s.run debug n t ok now = .ok s') :
  Move debug n s (.run t ok now) s'
  := by
  rw [State.run] at h
  simp only [hpc] at h
  split_ifs at h with hi hf
  · cases h
    apply Move.sweepTake hpc hi hf
  · cases h
    apply Move.sweepSkip hpc hi
  · cases h
    apply Move.sweepEnd hpc (by omega)

/-- A step of a thread inside the cache is a move. -/
theorem move_of_run (hen : s.enabled n (.run t ok now) = true)
    (h : s.run debug n t ok now = .ok s') :
  Move debug n s (.run t ok now) s'
  := by
  rw [State.enabled] at hen
  cases hpc : s.pc t with
  | idle => simp [hpc, Pc.outside] at hen
  | got k c => simp [hpc, Pc.outside] at hen
  | search c times index target => apply move_of_search hpc h
  | lock c times index target =>
      rw [State.run] at h
      simp only [hpc] at h hen
      cases h
      apply Move.lock hpc hen
  | locked c times index target => apply move_of_locked hpc h
  | probe c times index target =>
      rw [State.run] at h
      simp only [hpc] at h
      cases h
      apply Move.probe hpc
      split_ifs
      · right
        rfl
      · left
        rfl
  | load k c => apply move_of_load hpc h
  | reload k c alignedLba =>
      rw [State.run] at h
      simp only [hpc] at h
      obtain ⟨u, -, h⟩ := Except.bind_eq_ok_iff.mp h
      obtain ⟨u, -, h⟩ := Except.bind_eq_ok_iff.mp h
      cases h
      apply Move.reload hpc
  | read k c => apply move_of_read hpc h
  | store k c => apply move_of_store hpc h
  | fill k c =>
      rw [State.run] at h
      simp only [hpc] at h
      obtain ⟨slot, hfill, h⟩ := Except.bind_eq_ok_iff.mp h
      cases h
      apply Move.fill hpc hfill
  | flush k cont => apply move_of_flush hpc h
  | flushLoop k i head cont => apply move_of_flushLoop hpc h
  | flushed k cont res => apply move_of_flushed hpc h
  | sweep index => apply move_of_sweep hpc h

end Moves

/-- A step is a move. -/
theorem move_of_next {input : Input σ} (hen : s.enabled n input = true)
    (h : s.next debug n input = .ok s') :
  Move debug n s input s'
  := by
  cases input with
  | get t c =>
      rw [State.next] at h
      split_ifs at h with hc
      cases h
      apply Move.get hen (by omega)
  | upgrade t k lba cnt =>
      rw [State.next] at h
      obtain ⟨u, -, h⟩ := Except.bind_eq_ok_iff.mp h
      obtain ⟨u, -, h⟩ := Except.bind_eq_ok_iff.mp h
      split_ifs at h with hc
      obtain ⟨slot, hup, h⟩ := Except.bind_eq_ok_iff.mp h
      cases h
      rw [not_or, ne_eq, not_not] at hc
      apply Move.upgrade hen hc.1 (by omega) hup
  | data t k lba =>
      rw [State.next] at h
      obtain ⟨i, -, h⟩ := Except.bind_eq_ok_iff.mp h
      cases h
      apply Move.data hen
  | edit t k lba value =>
      rw [State.next] at h
      obtain ⟨i, hi, h⟩ := Except.bind_eq_ok_iff.mp h
      rw [Slot.data] at hi
      obtain ⟨u, -, hi⟩ := Except.bind_eq_ok_iff.mp hi
      obtain ⟨u, -, hi⟩ := Except.bind_eq_ok_iff.mp hi
      cases hi
      cases h
      apply Move.edit hen
  | relax t k flush =>
      rw [State.next] at h
      obtain ⟨u, -, h⟩ := Except.bind_eq_ok_iff.mp h
      cases h
      split_ifs with hf
      · obtain ⟨rfl, hd⟩ := hf
        apply Move.relaxFlush hen hd
      · apply Move.relax hen
  | flush t =>
      cases h
      apply Move.flush hen
  | run t ok now => apply move_of_run hen h

/-- A move leaves the other threads and their slots alone. -/
theorem Move.frame {input : Input σ} (h : Move debug n s input s') (hok : s.Ok n) :
  Frame s s' input.thread
  := by
  have hpc : ∀ {t p}, s.pc t = p → p.Ok n s t := by
    intro t p heq
    rw [← heq]
    apply hok t
  cases h with
  | get | data | relaxFlush | relax | flush | hit | miss | again | stay | probe | loadFull
  | loadPart | reload | readFail | storeOther | storeSame | clean | flushStart | skip
  | writeFail | nothing | fail | sweepSkip | sweepEnd =>
      apply frame_goto
  | upgrade hh _ _ _ => apply frame_setSlot (.inr (State.holds_iff.mp hh).2.2)
  | edit hh => apply frame_setSlot (.inr (State.holds_iff.mp hh).2.2)
  | take _ _ hf => apply frame_setSlot (.inl (State.free_iff.mp hf))
  | lock _ hf => apply frame_setSlot (.inl (State.free_iff.mp hf))
  | sweepTake _ _ hf => apply frame_setSlot (.inl (State.free_iff.mp hf))
  | leave hp _ => apply frame_setSlot (.inr (hpc hp).1.2)
  | read hp => apply frame_setSlot (.inr (hpc hp).1.2)
  | fill hp _ => apply frame_setSlot (.inr (hpc hp).1.2)
  | done hp _ => apply frame_setSlot (.inr (hpc hp).1.2)
  | rebaseReload hp => apply frame_setSlot (.inr (hpc hp).1.2)
  | rebaseStore hp => apply frame_setSlot (.inr (hpc hp).1.2)
  | relaxed hp => apply frame_setSlot (.inr (hpc hp).1.2)
  | swept hp => apply frame_setSlot (.inr (hpc hp).1.2)
  | write _ _ _ _ => exact ⟨fun _ _ _ _ => rfl, fun _ ht => Function.update_of_ne ht ..⟩

/-- After a move, the threads still know what they have to. -/
theorem Move.ok {input : Input σ} (h : Move debug n s input s') (hok : s.Ok n) : s'.Ok n := by
  have hpc : ∀ {t p}, s.pc t = p → p.Ok n s t := by
    intro t p heq
    rw [← heq]
    apply hok t
  cases h with
  | get => exact hok.goto (by rintro k ⟨⟩)
  | data => exact hok.goto trivial
  | flush => exact hok.goto trivial
  | sweepSkip => exact hok.goto trivial
  | sweepEnd => exact hok.goto trivial
  | readFail => exact hok.goto trivial
  | fail => exact hok.goto trivial
  | again => exact hok.goto (by rintro k ⟨⟩)
  | relaxFlush hh _ => exact hok.goto ⟨(State.holds_iff.mp hh).2, trivial⟩
  | relax hh => exact hok.goto ⟨(State.holds_iff.mp hh).2, trivial⟩
  | hit hp hi _ => exact hok.goto ⟨hi, hpc hp⟩
  | miss hp hi _ => exact hok.goto ⟨hi, hpc hp⟩
  | @probe _ _ _ c times index target target' hp ht =>
      apply hok.goto
      obtain ⟨hi, htarget⟩ := hpc hp
      intro k hk
      rcases ht with rfl | rfl
      · apply htarget k hk
      · cases hk
        apply hi
  | loadFull hp _ =>
      obtain ⟨ho, hm, -⟩ := hpc hp
      exact hok.goto ⟨ho, (Slot.isMatch_iff.mp hm).2⟩
  | loadPart hp _ =>
      obtain ⟨ho, hm, hw⟩ := hpc hp
      exact hok.goto ⟨ho, (Slot.isMatch_iff.mp hm).2, hw⟩
  | reload hp => exact hok.goto ⟨(hpc hp).1, (hpc hp).2⟩
  | storeOther hp _ => exact hok.goto ⟨(hpc hp).1, (hpc hp).2⟩
  | storeSame hp hb => exact hok.goto ⟨(hpc hp).1, hb.symm, (hpc hp).2⟩
  | clean hp _ => exact hok.goto ⟨(hpc hp).1, (hpc hp).2⟩
  | flushStart hp _ => exact hok.goto ⟨(hpc hp).1, (hpc hp).2⟩
  | skip hp _ _ => exact hok.goto ⟨(hpc hp).1, (hpc hp).2⟩
  | writeFail hp _ => exact hok.goto ⟨(hpc hp).1, (hpc hp).2⟩
  | nothing hp _ _ => exact hok.goto ⟨(hpc hp).1, (hpc hp).2⟩
  | @stay t now ok c times index target hp hm =>
      obtain ⟨ho, -⟩ := hpc hp
      apply hok.goto
      cases hw : c.write with
      | true => exact ⟨ho, hw⟩
      | false => exact ⟨ho, hm, hw⟩
  | upgrade hh _ _ hup =>
      exact hok.setSlot (.inr (State.holds_iff.mp hh).2.2) trivial
  | edit hh => exact hok.setSlot (.inr (State.holds_iff.mp hh).2.2) trivial
  | @take t now ok c times index k hp _ hf =>
      have howns : (s.lock t k).Owns n t k := by
        use hpc hp k rfl
        rw [State.lock, State.setSlot_slot_self]
      apply hok.setSlot (.inl (State.free_iff.mp hf))
      cases hw : c.write with
      | true => exact ⟨howns, hw⟩
      | false => exact ⟨howns, rfl, hw⟩
  | @lock t now ok c times index target hp hf =>
      apply hok.setSlot (.inl (State.free_iff.mp hf))
      obtain ⟨hi, htarget⟩ := hpc hp
      refine ⟨⟨hi, ?_⟩, htarget⟩
      rw [State.setSlot_slot_self]
  | leave hp _ => exact hok.setSlot (.inr (hpc hp).1.2) ⟨(hpc hp).1.1, (hpc hp).2⟩
  | @read t now k c hp =>
      obtain ⟨ho, hb, -⟩ := hpc hp
      apply hok.setSlot (.inr ho.2)
      use ho.setSlot ho.2
      rw [State.setSlot_slot_self]
      apply hb
  | @fill t now ok k c slot hp hfill =>
      obtain ⟨ho, hb, -⟩ := hpc hp
      obtain ⟨dirty, rfl, -⟩ := Slot.fill_post hfill
      apply hok.setSlot (.inr ho.2)
      use ho.setSlot ho.2
      rw [State.setSlot_slot_self]
      apply hb
  | done hp _ => exact hok.setSlot (.inr (hpc hp).1.2) ⟨(hpc hp).1.setSlot (hpc hp).1.2, (hpc hp).2⟩
  | rebaseReload hp =>
      obtain ⟨ho, hc, hw⟩ := hpc hp
      apply hok.setSlot (.inr ho.2)
      refine ⟨ho.setSlot ho.2, ?_, hw⟩
      rw [State.setSlot_slot_self]
      apply hc
  | rebaseStore hp =>
      obtain ⟨ho, hw⟩ := hpc hp
      apply hok.setSlot (.inr ho.2)
      refine ⟨ho.setSlot ho.2, ?_, hw⟩
      rw [State.setSlot_slot_self]
      rfl
  | relaxed hp => exact hok.setSlot (.inr (hpc hp).1.2) trivial
  | swept hp => exact hok.setSlot (.inr (hpc hp).1.2) trivial
  | sweepTake hp hi hf =>
      apply hok.setSlot (.inl (State.free_iff.mp hf))
      refine ⟨⟨hi, ?_⟩, trivial⟩
      rw [State.setSlot_slot_self]
  | @write t now k i head cont hp _ _ _ =>
      have hok' : State.Ok n { s with disk := (s.slot k).write s.disk head i } := hok
      exact hok'.goto ⟨(hpc hp).1, (hpc hp).2⟩

/-! ### Slots that are held -/

/-- The slot that a thread works on inside the cache. -/
def Pc.uses : Pc → Option ℕ
  | .locked _ _ k _ | .load k _ | .reload k _ _ | .read k _ | .store k _ | .fill k _
  | .flush k _ | .flushLoop k _ _ _ | .flushed k _ _ => some k
  | _ => none

/-- The slot that an input names. -/
def Input.slot : Input σ → Option ℕ
  | .upgrade _ k _ _ | .data _ k _ | .edit _ k _ _ | .relax _ k _ => some k
  | _ => none

/-- The thread `t` has got the slot `k`, and does not pass it to the cache. -/
def State.Keeps (n : ℕ) (s : State σ) (t k : ℕ) : Prop :=
  s.Owns n t k ∧ (s.pc t).uses ≠ some k

theorem uses_call {c : Call} {k : ℕ} {p : Pc} (hp : p.uses = some k) :
  (if c.write = true then Pc.store k c else p).uses = some k
  := by
  split_ifs
  · rfl
  · apply hp

/-- A slot that a thread keeps does not change, unless an input names it. -/
theorem Move.keeps {input : Input σ} (h : Move debug n s input s') (hok : s.Ok n) {k : ℕ}
    (hk : s.Keeps n t k) (hin : input.slot ≠ some k) :
  s'.slot k = s.slot k ∧ s'.Keeps n t k
  := by
  obtain ⟨howns, huses⟩ := hk
  suffices hsuff : s'.slot k = s.slot k ∧ (s'.pc t).uses ≠ some k by
    obtain ⟨hslot, huses'⟩ := hsuff
    refine ⟨hslot, ⟨howns.1, ?_⟩, huses'⟩
    rw [hslot]
    apply howns.2
  by_cases ht : t = input.thread
  swap
  · have hf := h.frame hok
    rw [hf.pc t ht]
    exact ⟨hf.slot k t howns.2 ht, huses⟩
  subst ht
  -- a slot whose lock is free is another one
  have hfree : ∀ {k'}, s.free k' = true → k ≠ k' := by
    rintro k' hf rfl
    rw [State.free_iff, howns.2] at hf
    cases hf
  have hgoto : ∀ {t p}, Pc.uses p ≠ some k →
      (s.goto t p).slot k = s.slot k ∧ ((s.goto t p).pc t).uses ≠ some k := by
    intro t p hp
    rw [State.goto_pc_self]
    exact ⟨rfl, hp⟩
  have hset : ∀ {t k' slot p}, k ≠ k' → Pc.uses p ≠ some k →
      ((s.setSlot k' slot).goto t p).slot k = s.slot k ∧
        (((s.setSlot k' slot).goto t p).pc t).uses ≠ some k := by
    intro t k' slot p hne hp
    rw [State.goto_pc_self, State.goto_slot, State.setSlot_slot_of_ne _ _ hne]
    exact ⟨rfl, hp⟩
  -- the thread goes on to work on the slot that it has worked on
  have hsame : ∀ {t p p'}, s.pc t = p → (s.pc t).uses ≠ some k → Pc.uses p' = Pc.uses p →
      Pc.uses p' ≠ some k := by
    rintro t p p' rfl hne heq
    rwa [heq]
  have hother : ∀ {t p k'}, s.pc t = p → (s.pc t).uses ≠ some k → Pc.uses p = some k' →
      k ≠ k' := by
    rintro t p k' rfl hne heq rfl
    apply hne heq
  have hnamed : ∀ {k' : ℕ}, some k' ≠ some k → k ≠ k' := by
    rintro k' hne rfl
    apply hne rfl
  cases h with
  | get => exact hgoto (by rintro ⟨⟩)
  | data => exact hgoto (by rintro ⟨⟩)
  | flush => exact hgoto (by rintro ⟨⟩)
  | hit => exact hgoto (by rintro ⟨⟩)
  | miss => exact hgoto (by rintro ⟨⟩)
  | again => exact hgoto (by rintro ⟨⟩)
  | probe => exact hgoto (by rintro ⟨⟩)
  | loadFull => exact hgoto (by rintro ⟨⟩)
  | readFail => exact hgoto (by rintro ⟨⟩)
  | fail => exact hgoto (by rintro ⟨⟩)
  | sweepSkip => exact hgoto (by rintro ⟨⟩)
  | sweepEnd => exact hgoto (by rintro ⟨⟩)
  | relaxFlush => exact hgoto hin
  | relax => exact hgoto hin
  | upgrade => exact hset (hnamed hin) (by rintro ⟨⟩)
  | edit => exact hset (hnamed hin) (by rintro ⟨⟩)
  | stay hp _ => exact hgoto (hsame hp huses (uses_call rfl))
  | loadPart hp _ => exact hgoto (hsame hp huses rfl)
  | reload hp => exact hgoto (hsame hp huses rfl)
  | storeOther hp _ => exact hgoto (hsame hp huses rfl)
  | storeSame hp _ => exact hgoto (hsame hp huses rfl)
  | clean hp _ => exact hgoto (hsame hp huses rfl)
  | flushStart hp _ => exact hgoto (hsame hp huses rfl)
  | skip hp _ _ => exact hgoto (hsame hp huses rfl)
  | write hp _ _ _ => exact hgoto (hsame hp huses rfl)
  | writeFail hp _ => exact hgoto (hsame hp huses rfl)
  | nothing hp _ _ => exact hgoto (hsame hp huses rfl)
  | leave hp _ => exact hset (hother hp huses rfl) (by rintro ⟨⟩)
  | read hp => exact hset (hother hp huses rfl) (by rintro ⟨⟩)
  | fill hp _ => exact hset (hother hp huses rfl) (by rintro ⟨⟩)
  | relaxed hp => exact hset (hother hp huses rfl) (by rintro ⟨⟩)
  | swept hp => exact hset (hother hp huses rfl) (by rintro ⟨⟩)
  | done hp _ => exact hset (hother hp huses rfl) (hsame hp huses rfl)
  | rebaseReload hp => exact hset (hother hp huses rfl) (hsame hp huses rfl)
  | rebaseStore hp => exact hset (hother hp huses rfl) (hsame hp huses rfl)
  | take _ _ hf =>
      apply hset (hfree hf)
      rw [uses_call rfl]
      rintro ⟨⟩
      apply hfree hf rfl
  | lock _ hf =>
      apply hset (hfree hf)
      rintro ⟨⟩
      apply hfree hf rfl
  | sweepTake _ _ hf =>
      apply hset (hfree hf)
      rintro ⟨⟩
      apply hfree hf rfl

/-- A client that holds a slot marks sectors of it, or writes to them, and keeps it. -/
theorem Move.named {input : Input σ} (h : Move debug n s input s') {k : ℕ}
    (hin : input.slot = some k) (hrelax : ∀ t flush, input ≠ .relax t k flush) :
  s'.Keeps n input.thread k ∧ (s'.slot k).lbaBase = (s.slot k).lbaBase ∧
    (s'.slot k).valid = (s.slot k).valid ∧
    ∀ i < 8, (s.slot k).dirty.getLsbD i = true → (s'.slot k).dirty.getLsbD i = true
  := by
  have hkeeps : ∀ {t slot}, s.Owns n t k → Slot.objlock slot = (s.slot k).objlock →
      ((s.setSlot k slot).goto t .idle).Keeps n t k := by
    intro t slot howns hlock
    refine ⟨⟨howns.1, ?_⟩, ?_⟩
    · rw [State.goto_slot, State.setSlot_slot_self, hlock, howns.2]
    · rw [State.goto_pc_self]
      rintro ⟨⟩
  cases h with
  | upgrade hh _ _ hup =>
      cases hin
      obtain ⟨dirty, rfl, hbit⟩ := Slot.upgrade_post hup
      refine ⟨hkeeps (State.holds_iff.mp hh).2 rfl, ?_⟩
      rw [State.goto_slot, State.setSlot_slot_self]
      exact ⟨rfl, rfl, fun i hi hd => (hbit i hi).mpr (.inl hd)⟩
  | edit hh =>
      cases hin
      refine ⟨hkeeps (State.holds_iff.mp hh).2 rfl, ?_⟩
      rw [State.goto_slot, State.setSlot_slot_self]
      exact ⟨rfl, rfl, fun _ _ hd => hd⟩
  | @data t k' lba hh =>
      cases hin
      refine ⟨⟨(State.holds_iff.mp hh).2, ?_⟩, rfl, rfl, fun _ _ hd => hd⟩
      rw [Input.thread, State.goto_pc_self]
      rintro ⟨⟩
  | @relaxFlush t k' =>
      cases hin
      apply absurd rfl (hrelax t true)
  | @relax t k' flush =>
      cases hin
      apply absurd rfl (hrelax t flush)
  | _ => cases hin

/-! ### Calls -/

/-- The call for which a thread works on a slot, after `slot::flush`. -/
def Cont.call : Cont → Option Call
  | .reload c _ | .store c => some c
  | .relax | .sweep => none

/-- The call that a thread works on. -/
def Pc.call : Pc → Option Call
  | .got _ c | .search c _ _ _ | .lock c _ _ _ | .locked c _ _ _ | .probe c _ _ _ | .load _ c
  | .reload _ c _ | .read _ c | .store _ c | .fill _ c => some c
  | .flush _ cont | .flushLoop _ _ _ cont | .flushed _ cont _ => cont.call
  | .idle | .sweep _ => none

/-- The calls that are worked on have passed the check of their arguments. -/
def State.Checked (s : State σ) : Prop :=
  ∀ t c, (s.pc t).call = some c → c.count ≤ count c.lba

theorem call_call {c : Call} {k : ℕ} {p : Pc} (hp : p.call = some c) :
  (if c.write = true then Pc.store k c else p).call = some c
  := by
  split_ifs
  · rfl
  · apply hp

/-- A move goes on with the calls that have passed the check. -/
theorem Move.checked {input : Input σ} (h : Move debug n s input s') (hok : s.Ok n)
    (hc : s.Checked) :
  s'.Checked
  := by
  have hf := h.frame hok
  suffices hsuff : ∀ c, (s'.pc input.thread).call = some c → c.count ≤ count c.lba by
    intro t c hcall
    by_cases ht : t = input.thread
    · subst ht
      apply hsuff c hcall
    · rw [hf.pc t ht] at hcall
      apply hc t c hcall
  have hsame : ∀ {t p p'}, s.pc t = p → Pc.call p' = Pc.call p → ∀ c, p'.call = some c →
      c.count ≤ count c.lba := by
    rintro t p p' rfl heq c hcall
    apply hc t c
    rw [← heq, hcall]
  have hnone : ∀ {p}, Pc.call p = none → ∀ c, p.call = some c → c.count ≤ count c.lba := by
    intro p heq c hcall
    rw [heq] at hcall
    cases hcall
  cases h with
  | get _ hcount =>
      intro c hcall
      rw [Input.thread, State.goto_pc_self] at hcall
      cases hcall
      apply hcount
  | data | flush | relaxFlush | relax | upgrade | edit | readFail | fail | relaxed | swept
  | sweepTake | sweepSkip | sweepEnd =>
      rw [Input.thread, State.goto_pc_self]
      apply hnone rfl
  | hit hp | miss hp | again hp | lock hp | leave hp | probe hp | loadFull hp | loadPart hp
  | reload hp | read hp | storeOther hp | storeSame hp | fill hp | clean hp | flushStart hp
  | skip hp | write hp | writeFail hp | nothing hp | done hp | rebaseReload hp
  | rebaseStore hp =>
      rw [Input.thread, State.goto_pc_self]
      apply hsame hp rfl
  | take hp =>
      rw [Input.thread, State.goto_pc_self]
      apply hsame hp (call_call rfl)
  | stay hp =>
      rw [Input.thread, State.goto_pc_self]
      apply hsame hp (call_call rfl)

end Disk

end UOS
