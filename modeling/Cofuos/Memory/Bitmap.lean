import Cofuos.Memory.PhysicalMemory

/-!
# The bitmap of the physical memory manager

In every group exactly the entries without a free entry after them are marked, and the number
of free frames is what the counters say. Every operation keeps both: an allocation takes the
last free frame of a group and marks the entries before it down to the next free one, and a
release clears the marks before the frame down to the first entry without one.
-/

namespace UOS.PM

open Fault

variable {debug : Bool} {bmp bmp' : ℕ → BLOCK} {base : ℕ}

/-! ### The marks of a group -/

/-- In the group at `base` exactly the entries with no free entry after them are marked. -/
def Marked (bmp : ℕ → BLOCK) (base : ℕ) : Prop :=
  ∀ i < PAGE_SIZE, (bmp (base + i)).solid = true ↔
    ∀ j, i < j → j < PAGE_SIZE → (bmp (base + j)).free = false

@[simp]
theorem setSolid_free (k m : ℕ) (solid : Bool) :
  (setSolid bmp k solid m).free = (bmp m).free
  := by
  by_cases h : m = k
  · subst h
    simp [setSolid]
  · simp [setSolid, h]

@[simp]
theorem setSolid_self (k : ℕ) (solid : Bool) :
  (setSolid bmp k solid k).solid = solid
  := by
  simp [setSolid]

theorem setSolid_of_ne {k m : ℕ} (solid : Bool) (h : m ≠ k) :
  setSolid bmp k solid m = bmp m
  := by
  simp [setSolid, h]

@[simp]
theorem setFree_solid (k m : ℕ) (free : Bool) :
  (setFree bmp k free m).solid = (bmp m).solid
  := by
  by_cases h : m = k
  · subst h
    simp [setFree]
  · simp [setFree, h]

@[simp]
theorem setFree_self (k : ℕ) (free : Bool) :
  (setFree bmp k free k).free = free
  := by
  simp [setFree]

theorem setFree_of_ne {k m : ℕ} (free : Bool) (h : m ≠ k) :
  setFree bmp k free m = bmp m
  := by
  simp [setFree, h]

/-- The entry before a free one is not marked. -/
theorem Marked.solid_eq_false (h : Marked bmp base) {i j : ℕ} (hij : i < j) (hj : j < PAGE_SIZE)
    (hfree : (bmp (base + j)).free = true) :
  (bmp (base + i)).solid = false
  := by
  rw [← Bool.not_eq_true, h i (hij.trans hj)]
  intro hall
  rw [hall j hij hj] at hfree
  cases hfree

/-- The marks of a group are a final segment of it. -/
theorem Marked.mono (h : Marked bmp base) {i j : ℕ} (hij : i ≤ j) (hj : j < PAGE_SIZE)
    (hi : (bmp (base + i)).solid = true) :
  (bmp (base + j)).solid = true
  := by
  rw [h i (lt_of_le_of_lt hij hj)] at hi
  rw [h j hj]
  intro k hk hkp
  apply hi k (lt_of_le_of_lt hij hk) hkp

/-- The marks of a group are decided by its entries. -/
theorem Marked.congr (h : Marked bmp base) (heq : ∀ i < PAGE_SIZE, bmp' (base + i) = bmp (base + i)) :
  Marked bmp' base
  := by
  intro i hi
  rw [heq i hi, h i hi]
  constructor
  · intro hall j hij hj
    rw [heq j hj]
    apply hall j hij hj
  · intro hall j hij hj
    rw [← heq j hj]
    apply hall j hij hj

/-- Marking the entries before `head` down to the next free one. -/
theorem markSolid_eq (debug : Bool) {head : ℕ} (h : ∀ i < head, (bmp (base + i)).solid = false) :
  ∃ bmp', markSolid debug base head bmp = .ok bmp' ∧ (∀ k, (bmp' k).free = (bmp k).free) ∧
    (∀ k, k < base ∨ base + head ≤ k → bmp' k = bmp k) ∧
    ∀ i < head, (bmp' (base + i)).solid = true ↔
      ∀ j, i < j → j < head → (bmp (base + j)).free = false
  := by
  induction head generalizing bmp with
  | zero => exact ⟨bmp, rfl, fun _ => rfl, fun _ _ => rfl, fun i hi => absurd hi (by omega)⟩
  | succ head ih =>
      rw [markSolid, assert_eq_ok (fun _ => h head (by omega)), Except.ok_bind]
      by_cases hfree : (bmp (base + head)).free = true
      · -- the scan stops at a free entry, and what is before it is not marked
        rw [if_pos (by simpa using hfree)]
        use setSolid bmp (base + head) true, rfl
        refine ⟨fun k => setSolid_free _ _ _, ?_, ?_⟩
        · intro k hk
          apply setSolid_of_ne _ (by lia)
        · intro i hi
          by_cases hih : i = head
          · subst hih
            simp only [setSolid_self, true_iff]
            intro j hj hj'
            omega
          · rw [setSolid_of_ne _ (by lia), h i hi]
            constructor
            · intro hc
              cases hc
            · intro hall
              rw [hall head (by lia) (by lia)] at hfree
              cases hfree
      · rw [if_neg (by simpa using hfree)]
        have hlow : ∀ i < head, (setSolid bmp (base + head) true (base + i)).solid = false := by
          intro i hi
          rw [setSolid_of_ne _ (by omega)]
          apply h i (by omega)
        obtain ⟨bmp', heq, hf, hout, hin⟩ := ih hlow
        refine ⟨bmp', heq, ?_, ?_, ?_⟩
        · intro k
          rw [hf, setSolid_free]
        · intro k hk
          rw [hout k (by lia), setSolid_of_ne _ (by lia)]
        · intro i hi
          by_cases hih : i = head
          · subst hih
            rw [hout _ (by omega), setSolid_self]
            simp only [true_iff]
            intro j hj hj'
            omega
          · rw [hin i (by omega)]
            simp only [setSolid_free]
            constructor
            · intro hall j hij hj
              by_cases hjh : j = head
              · subst hjh
                simpa using hfree
              · apply hall j hij (by lia)
            · intro hall j hij hj
              apply hall j hij (by omega)

/-- Clearing the marks before `off` down to the first entry without one clears them all, as the
marks are a final segment. -/
theorem clearSolid_eq {off : ℕ}
    (h : ∀ i < off, (bmp (base + i)).solid = false → ∀ j < i, (bmp (base + j)).solid = false) :
  (∀ k, (clearSolid base off bmp k).free = (bmp k).free) ∧
    (∀ k, k < base ∨ base + off ≤ k → clearSolid base off bmp k = bmp k) ∧
    ∀ i < off, (clearSolid base off bmp (base + i)).solid = false
  := by
  induction off generalizing bmp with
  | zero => exact ⟨fun _ => rfl, fun _ _ => rfl, fun i hi => absurd hi (by omega)⟩
  | succ off ih =>
      rw [clearSolid]
      split_ifs with hs
      · refine ⟨fun _ => rfl, fun _ _ => rfl, ?_⟩
        intro i hi
        by_cases hio : i = off
        · rw [hio, hs]
        · apply h off (by omega) hs i (by omega)
      · have hlow : ∀ i < off, (setSolid bmp (base + off) false (base + i)).solid = false →
            ∀ j < i, (setSolid bmp (base + off) false (base + j)).solid = false := by
          intro i hi hsi j hj
          rw [setSolid_of_ne _ (by lia)] at hsi ⊢
          apply h i (by omega) hsi j hj
        obtain ⟨hf, hout, hin⟩ := ih hlow
        refine ⟨?_, ?_, ?_⟩
        · intro k
          rw [hf, setSolid_free]
        · intro k hk
          rw [hout k (by omega), setSolid_of_ne _ (by omega)]
        · intro i hi
          by_cases hio : i = off
          · rw [hio, hout _ (by omega), setSolid_self]
          · apply hin i (by omega)

/-- After the last free entry of a group has been taken, the entries before it are marked
down to the next free one. -/
theorem Marked.take {head : ℕ} (h : Marked bmp base) (debug : Bool) (hhead : head < PAGE_SIZE)
    (hfree : (bmp (base + head)).free = true) (hsolid : (bmp (base + head)).solid = true) :
  ∃ bmp', markSolid debug base head (setFree bmp (base + head) false) = .ok bmp' ∧
    (∀ k, (bmp' k).free = if k = base + head then false else (bmp k).free) ∧
    (∀ k, k < base ∨ base + PAGE_SIZE ≤ k → bmp' k = bmp k) ∧ Marked bmp' base
  := by
  have hafter := (h head hhead).mp hsolid
  have hbefore : ∀ i < head, (setFree bmp (base + head) false (base + i)).solid = false := by
    intro i hi
    rw [setFree_solid]
    apply h.solid_eq_false hi hhead hfree
  obtain ⟨bmp', heq, hf, hout, hin⟩ := markSolid_eq debug hbefore
  have hfree' : ∀ k, (bmp' k).free = if k = base + head then false else (bmp k).free := by
    intro k
    rw [hf]
    split_ifs with hk
    · rw [hk, setFree_self]
    · rw [setFree_of_ne _ hk]
  refine ⟨bmp', heq, hfree', ?_, ?_⟩
  · intro k hk
    rw [hout k (by lia), setFree_of_ne _ (by lia)]
  · intro i hi
    by_cases hih : i < head
    · rw [hin i hih]
      constructor
      · intro hall j hij hj
        rw [hfree']
        split_ifs with hjh
        · rfl
        · by_cases hjlt : j < head
          · have := hall j hij hjlt
            rwa [setFree_of_ne _ hjh] at this
          · apply hafter j (by lia) hj
      · intro hall j hij hj
        have := hall j hij (by omega)
        rw [hfree', if_neg (by lia)] at this
        rwa [setFree_of_ne _ (by omega)]
    · rw [hout _ (by omega), setFree_solid]
      have hsi : (bmp (base + i)).solid = true := h.mono (by omega) hi hsolid
      simp only [hsi, true_iff]
      intro j hij hj
      rw [hfree', if_neg (by lia)]
      apply hafter j (by omega) hj

/-- After an entry has been freed, no entry before it is marked. -/
theorem Marked.give {off : ℕ} (h : Marked bmp base) (hoff : off < PAGE_SIZE) :
  (∀ k, (clearSolid base off (setFree bmp (base + off) true) k).free =
      if k = base + off then true else (bmp k).free) ∧
    (∀ k, k < base ∨ base + PAGE_SIZE ≤ k →
      clearSolid base off (setFree bmp (base + off) true) k = bmp k) ∧
    Marked (clearSolid base off (setFree bmp (base + off) true)) base
  := by
  have hfinal : ∀ i < off, (setFree bmp (base + off) true (base + i)).solid = false →
      ∀ j < i, (setFree bmp (base + off) true (base + j)).solid = false := by
    intro i hi hs j hj
    rw [setFree_solid] at hs ⊢
    rw [← Bool.not_eq_true] at hs ⊢
    intro hsj
    apply hs (h.mono hj.le (hi.trans hoff) hsj)
  obtain ⟨hf, hout, hin⟩ := clearSolid_eq hfinal
  have hfree' : ∀ k, (clearSolid base off (setFree bmp (base + off) true) k).free =
      if k = base + off then true else (bmp k).free := by
    intro k
    rw [hf]
    split_ifs with hk
    · rw [hk, setFree_self]
    · rw [setFree_of_ne _ hk]
  refine ⟨hfree', ?_, ?_⟩
  · intro k hk
    rw [hout k (by lia), setFree_of_ne _ (by lia)]
  · intro i hi
    by_cases hio : i < off
    · rw [hin i hio]
      constructor
      · intro hc
        cases hc
      · intro hall
        have := hall off hio hoff
        rw [hfree', if_pos rfl] at this
        cases this
    · rw [hout _ (by omega), setFree_solid, h i hi]
      constructor
      · intro hall j hij hj
        rw [hfree', if_neg (by omega)]
        apply hall j hij hj
      · intro hall j hij hj
        have := hall j hij hj
        rwa [hfree', if_neg (by omega)] at this

/-- The marks are built as they are after an allocation. -/
theorem markSolid_release (head : ℕ) :
  markSolid false base head bmp = .ok (buildSolid base head bmp)
  := by
  induction head generalizing bmp with
  | zero => rfl
  | succ head ih =>
      rw [markSolid, assert_release, Except.ok_bind, buildSolid]
      dsimp only
      split_ifs
      · rfl
      · apply ih

/-- The marks that are built for a group describe its free entries, whichever they are. -/
theorem marked_buildSolid (h : ∀ i < PAGE_SIZE, (bmp (base + i)).solid = false) :
  Marked (buildSolid base PAGE_SIZE bmp) base
  := by
  obtain ⟨bmp', heq, hf, -, hin⟩ := markSolid_eq false h
  rw [markSolid_release, Except.ok.injEq] at heq
  subst heq
  intro i hi
  rw [hin i hi]
  simp only [hf]

/-! ### The search -/

variable {pm pm' : PM}

/-- No frame of the group is free. -/
def Full (pm : PM) (page : ℕ) : Prop :=
  (pm.bmp (page * PAGE_SIZE)).solid = true ∧ (pm.bmp (page * PAGE_SIZE)).free = false

/-- The group after the one that is `k` groups after the hint, around the end of the bitmap. -/
theorem wrap_succ {n next k : ℕ} (hn : next < n) :
  (if (next + k) % n + 1 = n then 0 else (next + k) % n + 1) = (next + (k + 1)) % n
  := by
  have hlt := Nat.mod_lt (next + k) (by omega : 0 < n)
  have hstep : (next + (k + 1)) % n = ((next + k) % n + 1) % n := by
    rw [← add_assoc, Nat.add_mod (next + k) 1 n, Nat.add_mod ((next + k) % n) 1 n, Nat.mod_mod]
  split_ifs with h
  · rw [hstep, h, Nat.mod_self]
  · rw [hstep]
    apply (Nat.mod_eq_of_lt (by lia)).symm

/-- The search is back at the hint only after all groups. -/
theorem wrap_ne {n next k : ℕ} (hn : next < n) (hk : 0 < k) (hkn : k < n) :
  (next + k) % n ≠ next
  := by
  by_cases h : next + k < n
  · rw [Nat.mod_eq_of_lt h]
    omega
  · rw [Nat.mod_eq_sub_mod (by lia), Nat.mod_eq_of_lt (by lia)]
    lia

/-- The search finds a group that is not full, if one is left. -/
theorem findGroup_eq (debug : Bool) (fuel k : ℕ) (hn : pm.next < pm.pageCount) (hk : k + fuel = pm.pageCount)
    (h : ∃ j, k ≤ j ∧ j < pm.pageCount ∧ ¬ pm.Full ((pm.next + j) % pm.pageCount)) :
  ∃ page, findGroup debug pm fuel ((pm.next + k) % pm.pageCount) = .ok page ∧
    page < pm.pageCount ∧ ¬ pm.Full page
  := by
  have hpos : 0 < pm.pageCount := by lia
  induction fuel generalizing k with
  | zero =>
      obtain ⟨j, hkj, hj, -⟩ := h
      lia
  | succ fuel ih =>
      have hlt := Nat.mod_lt (pm.next + k) hpos
      rw [findGroup, assert_eq_ok (fun _ => hlt), Except.ok_bind]
      dsimp only
      by_cases hfull : pm.Full ((pm.next + k) % pm.pageCount)
      · rw [if_pos ⟨hfull.1, hfull.2⟩]
        obtain ⟨j, hkj, hj, hopen⟩ := h
        have hne : j ≠ k := by
          rintro rfl
          apply hopen hfull
        rw [wrap_succ hn, if_neg (wrap_ne hn (by lia) (by lia))]
        apply ih _ (by lia)
        use j, by lia
      · rw [if_neg fun hc => hfull ⟨hc.1, hc.2⟩]
        exact ⟨_, rfl, hlt, hfull⟩

/-- The search is given up when it is back at the hint. -/
theorem findGroup_full (debug : Bool) (fuel k : ℕ) (hn : pm.next < pm.pageCount) (hk : k + fuel = pm.pageCount)
    (hfuel : 0 < fuel) (h : ∀ page < pm.pageCount, pm.Full page) :
  findGroup debug pm fuel ((pm.next + k) % pm.pageCount) =
    .error (.bugcheck "physical memory used up (%x,%x,%x)")
  := by
  have hpos : 0 < pm.pageCount := by lia
  induction fuel generalizing k with
  | zero => omega
  | succ fuel ih =>
      have hlt := Nat.mod_lt (pm.next + k) hpos
      rw [findGroup, assert_eq_ok (fun _ => hlt), Except.ok_bind]
      dsimp only
      rw [if_pos ⟨(h _ hlt).1, (h _ hlt).2⟩, wrap_succ hn]
      by_cases hlast : fuel = 0
      · subst hlast
        have hend : pm.next + (k + 1) = pm.next + pm.pageCount := by lia
        rw [if_pos (by rw [hend, Nat.add_mod_right, Nat.mod_eq_of_lt hn])]
      · rw [if_neg (wrap_ne hn (by lia) (by lia))]
        apply ih _ (by lia) (by lia)

/-- In a group that is not full the bisection finds the last free frame. -/
theorem findFrame_eq (debug : Bool) {page : ℕ} (h : Marked pm.bmp (page * PAGE_SIZE)) (hopen : ¬ pm.Full page) :
  ∃ head, findFrame debug pm page = .ok head ∧ head < PAGE_SIZE ∧
    (pm.bmp (page * PAGE_SIZE + head)).free = true ∧
    (pm.bmp (page * PAGE_SIZE + head)).solid = true
  := by
  have hlast : (pm.bmp (page * PAGE_SIZE + (PAGE_SIZE - 1))).solid = true := by
    rw [h _ (by decide)]
    intro j hj hj'
    lia
  have hpos : 0 < PAGE_SIZE := by decide
  obtain ⟨-, hadj, hle⟩ := bisect_adjacent
    (fun mid => (pm.bmp (page * PAGE_SIZE + mid)).solid) hpos
  have hhead := bisect_head (fun mid => (pm.bmp (page * PAGE_SIZE + mid)).solid) 0 PAGE_SIZE
  have htail := bisect_tail (fun mid => (pm.bmp (page * PAGE_SIZE + mid)).solid) 0 PAGE_SIZE
  rw [findFrame]
  generalize bisect (fun mid => (pm.bmp (page * PAGE_SIZE + mid)).solid) 0 PAGE_SIZE = ends at *
  obtain ⟨head, tail⟩ := ends
  simp only at hadj hle hhead htail
  have hlt : tail < PAGE_SIZE := by
    -- the upper end is moved, as the last entry is always marked
    by_contra hc
    have hhead' : head = PAGE_SIZE - 1 := by lia
    rcases hhead with hh | hh
    · rw [hh] at hhead'
      cases hhead'
    · rw [hhead', hlast] at hh
      cases hh
  have hs : (pm.bmp (page * PAGE_SIZE + tail)).solid = true := by
    rcases htail with ht | ht
    · omega
    · apply ht
  dsimp only
  rw [assert_eq_ok (fun _ => hadj), Except.ok_bind, assert_eq_ok (fun _ => hlt), Except.ok_bind]
  by_cases hsh : (pm.bmp (page * PAGE_SIZE + head)).solid = false
  · -- the entry after an unmarked one is free when it is marked itself
    rw [if_pos hsh, hadj, assert_eq_ok (fun _ => hlt)]
    refine ⟨tail, rfl, hlt, ?_, hs⟩
    by_contra hfree
    rw [← Bool.not_eq_true, h head (by omega)] at hsh
    apply hsh
    intro j hj hj'
    by_cases hjt : j = tail
    · rw [hjt]
      simpa using hfree
    · apply (h tail hlt).mp hs j (by lia) hj'
  · have hzero : head = 0 := by
      rcases hhead with hh | hh
      · apply hh
      · apply absurd hh hsh
    subst hzero
    rw [if_neg hsh, assert_eq_ok (fun _ => by omega)]
    rw [Bool.not_eq_false] at hsh
    refine ⟨0, rfl, by omega, ?_, hsh⟩
    by_contra hfree
    rw [add_zero] at hsh hfree
    apply hopen ⟨hsh, Bool.not_eq_true _ ▸ hfree⟩

/-! ### Integrity -/

/-- The free frames. -/
def freeFrames (pm : PM) : Finset ℕ :=
  (Finset.range pm.bmpSize).filter fun k => (pm.bmp k).free = true

/-- The marks describe the bitmap, and the counters its free frames. -/
structure Integrity (pm : PM) : Prop where
  marked : ∀ page < pm.pageCount, Marked pm.bmp (page * PAGE_SIZE)
  free : pm.freeFrames.card + pm.used = pm.total

/-- The ranges of the other data, as the constructor leaves them. The entries that fill up the
last group are not free, and the hint is a group of the bitmap. -/
structure Sane (pm : PM) : Prop where
  bmpSize_lt : pm.bmpSize < 2 ^ 52
  padding : ∀ k, pm.bmpSize ≤ k → (pm.bmp k).free = false
  total_le : pm.total ≤ pm.bmpSize
  reserved_le : pm.reserved ≤ pm.total
  limit_lt : pm.hardCriticalLimit < 2 ^ 16
  next_lt : pm.next < pm.pageCount

/-- The frame has been handed out, and nothing else has been changed but the marks, the hint
and the counters. -/
structure Taken (debug : Bool) (mode : MODE) (pm : PM) (frame : ℕ) (pm' : PM) : Prop where
  lt : frame < pm.bmpSize
  was_free : (pm.bmp frame).free = true
  frees : ∀ k, (pm'.bmp k).free = if k = frame then false else (pm.bmp k).free
  marked : ∀ page < pm'.pageCount, Marked pm'.bmp (page * PAGE_SIZE)
  next_lt : pm'.next < pm'.pageCount
  bmpSize : pm'.bmpSize = pm.bmpSize
  total : pm'.total = pm.total
  limit : pm'.hardCriticalLimit = pm.hardCriticalLimit
  used : pm'.used = pm.used + 1
  reserved : pm'.reserved =
    if mode = .TAKE then (pm.reserved + (2 ^ 64 - 1)) % 2 ^ 64 else pm.reserved
  spare : debug = true → pm.used + pm.reserved < pm.total
  kept : debug = true → mode = .TAKE → pm.reserved ≠ 0
  permitted : mode = .NONE → pm.used + pm.reserved + pm.hardCriticalLimit < pm.total

theorem mem_freeFrames {k : ℕ} :
  k ∈ pm.freeFrames ↔ k < pm.bmpSize ∧ (pm.bmp k).free = true
  := by
  simp [freeFrames]

/-- A group with a free frame is not full. -/
theorem Integrity.not_full (h : pm.Integrity) {k : ℕ} (hk : k < pm.bmpSize)
    (hfree : (pm.bmp k).free = true) :
  k / PAGE_SIZE < pm.pageCount ∧ ¬ pm.Full (k / PAGE_SIZE)
  := by
  have hdiv := Nat.div_add_mod k PAGE_SIZE
  have hlt : k % PAGE_SIZE < PAGE_SIZE := Nat.mod_lt _ (by decide)
  have hpage : k / PAGE_SIZE < pm.pageCount := by
    simp only [pageCount, PAGE_SIZE]
    lia
  use hpage
  rintro ⟨hs, hf⟩
  have hall := (h.marked _ hpage 0 (by decide)).mp (by simpa using hs)
  have heq : k / PAGE_SIZE * PAGE_SIZE + k % PAGE_SIZE = k := by
    rw [mul_comm]
    apply hdiv
  by_cases hzero : k % PAGE_SIZE = 0
  · rw [hzero, add_zero] at heq
    rw [heq, hfree] at hf
    cases hf
  · have := hall (k % PAGE_SIZE) (by lia) hlt
    rw [heq, hfree] at this
    cases this

/-- What counting a frame does, and when it is not stopped. -/
theorem countUsed_eq_ok_iff {mode : MODE} :
  countUsed debug mode pm = .ok pm' ↔
    (debug = true → (pm.used + pm.reserved) % 2 ^ 64 < pm.total) ∧
    (debug = true → mode = .TAKE → pm.reserved ≠ 0) ∧
    pm' = { pm with
      reserved := if mode = .TAKE then (pm.reserved + (2 ^ 64 - 1)) % 2 ^ 64 else pm.reserved
      used := (pm.used + 1) % 2 ^ 64 }
  := by
  rw [countUsed, Except.bind_eq_ok_iff]
  simp only [assert_eq_ok_iff]
  by_cases hmode : mode = .TAKE
  · simp only [hmode, if_true, Except.bind_eq_ok_iff, assert_eq_ok_iff]
    constructor
    · rintro ⟨_, hs, _, hr, heq⟩
      cases heq
      exact ⟨hs, fun hd _ => hr hd, rfl⟩
    · rintro ⟨hs, hr, rfl⟩
      exact ⟨(), hs, (), fun hd => hr hd trivial, rfl⟩
  · simp only [hmode, if_false]
    constructor
    · rintro ⟨_, hs, heq⟩
      cases heq
      exact ⟨hs, fun _ hc => hc.elim, rfl⟩
    · rintro ⟨hs, -, rfl⟩
      exact ⟨(), hs, rfl⟩

/-- An allocation that is not refused searches, and stops only for the counters, as long as a
frame is free. -/
theorem allocate_search (debug : Bool) {mode : MODE} (h : pm.Integrity) (hs : pm.Sane)
    (hfree : pm.freeFrames.Nonempty)
    (hnot : ¬ (mode = .NONE ∧ pm.total ≤ (pm.used + pm.reserved + pm.hardCriticalLimit) % 2 ^ 64)) :
  ∃ frame page bmp', frame < pm.bmpSize ∧ (pm.bmp frame).free = true ∧ page < pm.pageCount ∧
    (∀ k, (bmp' k).free = if k = frame then false else (pm.bmp k).free) ∧
    (∀ page < pm.pageCount, Marked bmp' (page * PAGE_SIZE)) ∧
    allocate debug mode pm = countUsed debug mode { pm with bmp := bmp', next := page } >>=
      fun pm' => .ok (frame * PAGE_SIZE, pm')
  := by
  obtain ⟨k, hk⟩ := hfree
  rw [mem_freeFrames] at hk
  obtain ⟨hlt, hopen⟩ := h.not_full hk.1 hk.2
  have hpos : 0 < pm.pageCount := lt_of_le_of_lt (Nat.zero_le _) hlt
  have hnext := hs.next_lt
  have hround : (pm.next + (k / PAGE_SIZE + (pm.pageCount - pm.next)) % pm.pageCount) %
      pm.pageCount = k / PAGE_SIZE := by
    have hsum : pm.next + (k / PAGE_SIZE + (pm.pageCount - pm.next)) =
        k / PAGE_SIZE + pm.pageCount := by lia
    rw [Nat.add_mod_mod, hsum, Nat.add_mod_right, Nat.mod_eq_of_lt hlt]
  obtain ⟨page, hgroup, hpage, hnfull⟩ := findGroup_eq debug pm.pageCount 0 hnext (by omega)
    ⟨_, Nat.zero_le _, Nat.mod_lt _ hpos, hround.symm ▸ hopen⟩
  rw [add_zero, Nat.mod_eq_of_lt hnext] at hgroup
  obtain ⟨head, hframe, hhead, hhf, hhs⟩ :=
    findFrame_eq debug (h.marked page hpage) hnfull
  obtain ⟨bmp', hmark, hfrees, hout, hmarked⟩ :=
    (h.marked page hpage).take debug hhead hhf hhs
  have hsize : page * PAGE_SIZE + head < pm.bmpSize := by
    by_contra hc
    rw [hs.padding _ (by lia)] at hhf
    cases hhf
  refine ⟨page * PAGE_SIZE + head, page, bmp', hsize, hhf, hpage, hfrees, ?_, ?_⟩
  · intro q hq
    by_cases hqp : q = page
    · rw [hqp]
      apply hmarked
    · apply (h.marked q hq).congr
      intro i hi
      apply hout
      simp only [PAGE_SIZE] at hi hhead ⊢
      lia
  · rw [allocate, if_neg hnot, hgroup, Except.ok_bind, hframe, Except.ok_bind]
    dsimp only
    rw [assert_eq_ok (fun _ => hsize), Except.ok_bind, assert_eq_ok (fun _ => ⟨hhs, hhf⟩),
      Except.ok_bind, hmark, Except.ok_bind]
    rfl

/-- Without a free frame an allocation that is not refused stops. -/
theorem allocate_empty {mode : MODE} (h : pm.Integrity) (hs : pm.Sane)
    (hfree : ¬ pm.freeFrames.Nonempty)
    (hnot : ¬ (mode = .NONE ∧ pm.total ≤ (pm.used + pm.reserved + pm.hardCriticalLimit) % 2 ^ 64)) :
  allocate debug mode pm = .error (.bugcheck "physical memory used up (%x,%x,%x)")
  := by
  have hnext := hs.next_lt
  have hused : ∀ k, (pm.bmp k).free = false := by
    intro k
    by_contra hc
    rw [Bool.not_eq_false] at hc
    apply hfree
    use k
    rw [mem_freeFrames]
    refine ⟨?_, hc⟩
    by_contra hk
    rw [hs.padding k (by omega)] at hc
    cases hc
  have hfull : ∀ page < pm.pageCount, pm.Full page := by
    intro page hpage
    refine ⟨?_, hused _⟩
    have hmark := h.marked page hpage 0 (by decide)
    rw [add_zero] at hmark
    rw [hmark]
    intro j _ _
    apply hused
  have hgroup := findGroup_full debug pm.pageCount 0 hnext (by lia) (by lia) hfull
  rw [add_zero, Nat.mod_eq_of_lt hnext] at hgroup
  rw [allocate, if_neg hnot, hgroup]
  rfl

/-- The counters are far from their limits. -/
theorem Integrity.small (h : pm.Integrity) (hs : pm.Sane) :
  pm.used ≤ pm.total ∧ pm.total < 2 ^ 52 ∧ pm.reserved < 2 ^ 52 ∧
    pm.used + pm.reserved + pm.hardCriticalLimit < 2 ^ 64
  := by
  have := h.free
  have := hs.bmpSize_lt
  have := hs.total_le
  have := hs.reserved_le
  have := hs.limit_lt
  lia

/-- An allocation that returns has been refused or has taken a free frame. -/
theorem allocate_cases {mode : MODE} {pa : ℕ} (h : pm.Integrity) (hs : pm.Sane)
    (heq : allocate debug mode pm = .ok (pa, pm')) :
  (mode = .NONE ∧ pm.total ≤ pm.used + pm.reserved + pm.hardCriticalLimit ∧ pa = 0 ∧ pm' = pm) ∨
    ∃ frame, pa = frame * PAGE_SIZE ∧ Taken debug mode pm frame pm'
  := by
  obtain ⟨hused, htotal, hreserved, hsum⟩ := h.small hs
  by_cases hrefused :
      mode = .NONE ∧ pm.total ≤ (pm.used + pm.reserved + pm.hardCriticalLimit) % 2 ^ 64
  · left
    rw [allocate, if_pos hrefused] at heq
    cases heq
    rw [Nat.mod_eq_of_lt hsum] at hrefused
    exact ⟨hrefused.1, hrefused.2, rfl, rfl⟩
  · right
    by_cases hfree : pm.freeFrames.Nonempty
    · obtain ⟨frame, page, bmp', hlt, hwas, hpage, hfrees, hmarked, hres⟩ :=
        allocate_search debug h hs hfree hrefused
      rw [hres, Except.bind_eq_ok_iff] at heq
      obtain ⟨pm₁, hcount, heq⟩ := heq
      rw [countUsed_eq_ok_iff] at hcount
      obtain ⟨hspare, hkept, rfl⟩ := hcount
      cases heq
      rw [Nat.mod_eq_of_lt hsum] at hrefused
      rw [Nat.mod_eq_of_lt (by dsimp only; lia)] at hspare
      refine ⟨frame, rfl, hlt, hwas, hfrees, hmarked, hpage, rfl, rfl, rfl, ?_, rfl, hspare, hkept, ?_⟩
      · apply Nat.mod_eq_of_lt
        dsimp only
        lia
      · intro hmode
        by_contra hc
        apply hrefused ⟨hmode, by omega⟩
    · rw [allocate_empty h hs hfree hrefused] at heq
      cases heq

/-- An allocation for which the counters allow returns, as long as a frame is free. -/
theorem allocate_eq (debug : Bool) (mode : MODE) (h : pm.Integrity) (hs : pm.Sane)
    (hfree : pm.freeFrames.Nonempty)
    (hspare : debug = true → pm.used + pm.reserved < pm.total)
    (hkept : debug = true → mode = .TAKE → pm.reserved ≠ 0) :
  ∃ result, allocate debug mode pm = .ok result
  := by
  obtain ⟨hused, htotal, hreserved, hsum⟩ := h.small hs
  by_cases hrefused :
      mode = .NONE ∧ pm.total ≤ (pm.used + pm.reserved + pm.hardCriticalLimit) % 2 ^ 64
  · rw [allocate, if_pos hrefused]
    exact ⟨_, rfl⟩
  · obtain ⟨frame, page, bmp', -, -, -, -, -, hres⟩ :=
      allocate_search debug h hs hfree hrefused
    rw [hres]
    have hmod : debug = true → (pm.used + pm.reserved) % 2 ^ 64 < pm.total := by
      intro hd
      rw [Nat.mod_eq_of_lt (by lia)]
      apply hspare hd
    have hcount : countUsed debug mode { pm with bmp := bmp', next := page } = .ok _ :=
      countUsed_eq_ok_iff.mpr ⟨hmod, hkept, rfl⟩
    rw [hcount]
    exact ⟨_, rfl⟩

/-- An allocation that is not refused stops, in a debug build, when all frames are used or
set aside. -/
theorem allocate_overdrawn {mode : MODE} (h : pm.Integrity) (hs : pm.Sane)
    (hfree : pm.freeFrames.Nonempty) (hmode : mode ≠ .NONE)
    (hover : pm.total ≤ pm.used + pm.reserved) :
  allocate true mode pm = .error .assertFailed
  := by
  obtain ⟨hused, htotal, hreserved, hsum⟩ := h.small hs
  obtain ⟨frame, page, bmp', -, -, -, -, -, hres⟩ :=
    allocate_search true h hs hfree fun hc => hmode hc.1
  rw [hres, countUsed, assert, if_pos]
  · rfl
  · refine ⟨rfl, ?_⟩
    rw [Nat.mod_eq_of_lt (by dsimp only; lia)]
    dsimp only
    omega

/-- The free frames after one has been handed out. -/
theorem Taken.freeFrames_eq {mode : MODE} {frame : ℕ} (h : Taken debug mode pm frame pm') :
  pm'.freeFrames = pm.freeFrames.erase frame
  := by
  ext k
  rw [Finset.mem_erase, mem_freeFrames, mem_freeFrames, h.bmpSize, h.frees]
  by_cases hk : k = frame
  · simp [hk]
  · simp [hk]

/-- Handing out a frame keeps the marks and the counters right. -/
theorem Taken.integrity {mode : MODE} {frame : ℕ} (h : Taken debug mode pm frame pm')
    (hi : pm.Integrity) :
  pm'.Integrity
  := by
  constructor
  · apply h.marked
  · have hmem : frame ∈ pm.freeFrames := mem_freeFrames.mpr ⟨h.lt, h.was_free⟩
    have hcard := Finset.card_erase_add_one hmem
    have := hi.free
    rw [h.freeFrames_eq, h.used, h.total]
    lia

/-- Handing out a frame keeps the ranges. -/
theorem Taken.sane {mode : MODE} {frame : ℕ} (h : Taken debug mode pm frame pm') (hs : pm.Sane)
    (hkept : mode = .TAKE → pm.reserved ≠ 0) :
  pm'.Sane
  := by
  constructor
  · rw [h.bmpSize]
    apply hs.bmpSize_lt
  · intro k hk
    rw [h.frees]
    split_ifs
    · rfl
    · apply hs.padding k (by rw [← h.bmpSize]; apply hk)
  · rw [h.total, h.bmpSize]
    apply hs.total_le
  · have := hs.reserved_le
    have := hs.total_le
    have := hs.bmpSize_lt
    rw [h.reserved, h.total]
    split_ifs with hmode
    · have := hkept hmode
      lia
    · omega
  · rw [h.limit]
    apply hs.limit_lt
  · apply h.next_lt

/-- Taking back a frame in use keeps the marks and the counters right. -/
theorem release_eq (debug : Bool) {pa : ℕ} (hi : pm.Integrity) (hs : pm.Sane) (hpa : pa % PAGE_SIZE = 0)
    (hlt : pa / PAGE_SIZE < pm.bmpSize) (hfree : (pm.bmp (pa / PAGE_SIZE)).free = false)
    (hused : pm.used ≠ 0) :
  ∃ pm', release debug pa pm = .ok pm' ∧ pm'.Integrity ∧ pm'.Sane ∧ pm'.used + 1 = pm.used ∧
    pm'.total = pm.total ∧ pm'.reserved = pm.reserved ∧ pm'.bmpSize = pm.bmpSize ∧
    ∀ k, (pm'.bmp k).free = if k = pa / PAGE_SIZE then true else (pm.bmp k).free
  := by
  obtain ⟨hle, htotal, hreserved, -⟩ := hi.small hs
  generalize hpage : pa / PAGE_SIZE = page at *
  have hoff : page % PAGE_SIZE < PAGE_SIZE := Nat.mod_lt _ (by decide)
  have hgroup : page / PAGE_SIZE < pm.pageCount := by
    simp only [pageCount, PAGE_SIZE]
    lia
  have hbase : page - page % PAGE_SIZE = page / PAGE_SIZE * PAGE_SIZE := by
    simp only [PAGE_SIZE]
    lia
  have hself : page / PAGE_SIZE * PAGE_SIZE + page % PAGE_SIZE = page := by
    simp only [PAGE_SIZE]
    lia
  have hmarked := hi.marked _ hgroup
  obtain ⟨hfrees, hout, hmark⟩ := hmarked.give hoff
  rw [hself] at hfrees hout hmark
  have hlast : page + 1 = PAGE_SIZE → (pm.bmp page).solid = true := by
    intro hp
    have hzero : page / PAGE_SIZE = 0 := by
      simp only [PAGE_SIZE] at hp ⊢
      lia
    have hend := hmarked (page % PAGE_SIZE) hoff
    rw [hself] at hend
    rw [hend]
    intro j hj hj'
    simp only [PAGE_SIZE] at hp hj hj'
    lia
  refine ⟨{ pm with
    bmp := clearSolid (page - page % PAGE_SIZE) (page % PAGE_SIZE) (setFree pm.bmp page true)
    used := (pm.used + (2 ^ 64 - 1)) % 2 ^ 64 }, ?_, ?_, ?_, ?_, rfl, rfl, rfl, ?_⟩
  · rw [release, assert_eq_ok (fun _ => hpa), Except.ok_bind]
    dsimp only
    rw [hpage, assert_eq_ok (fun _ => hlt), Except.ok_bind, if_neg (by rw [hfree]; simp)]
    split_ifs with hp
    · rw [assert_eq_ok (fun _ => by simpa using hlast hp)]
      rw [Except.ok_bind, assert_eq_ok (fun _ => hused)]
      rfl
    · rw [assert_eq_ok (fun _ => hused)]
      rfl
  · constructor
    · intro q hq
      by_cases hqp : q = page / PAGE_SIZE
      · rw [hqp]
        simp only [hbase]
        apply hmark
      · apply (hi.marked q hq).congr
        intro i hi'
        simp only [hbase]
        apply hout
        simp only [PAGE_SIZE] at hi' hqp ⊢
        lia
    · have hcard : ({ pm with
          bmp := clearSolid (page - page % PAGE_SIZE) (page % PAGE_SIZE) (setFree pm.bmp page true)
          used := (pm.used + (2 ^ 64 - 1)) % 2 ^ 64 } : PM).freeFrames =
          Insert.insert page pm.freeFrames := by
        ext k
        rw [Finset.mem_insert, mem_freeFrames, mem_freeFrames]
        simp only [hbase]
        rw [hfrees]
        by_cases hk : k = page
        · simp [hk, hlt]
        · simp [hk]
      have hnot : page ∉ pm.freeFrames := by
        rw [mem_freeFrames, hfree]
        simp
      have := hi.free
      rw [hcard, Finset.card_insert_of_notMem hnot]
      dsimp only
      lia
  · refine ⟨hs.bmpSize_lt, ?_, hs.total_le, hs.reserved_le, hs.limit_lt, hs.next_lt⟩
    intro k hk
    simp only [hbase]
    rw [hfrees, if_neg (by simp only at hk; lia)]
    apply hs.padding k hk
  · dsimp only
    lia
  · intro k
    simp only [hbase]
    apply hfrees

end UOS.PM
