import Cofuos.Disk.Cache

/-!
# Slots

What the operations on a slot do to its masks and to its sectors.
-/

namespace UOS

open Fault

namespace Disk

/-! ### Sectors -/

/-- The page of a call is aligned. -/
theorem Call.page_eq (c : Call) : c.page = pageLba c.page := by
  rw [Call.page, pageLba, pageLba]
  lia

/-- A range that passes the checks stays in its page. -/
theorem lt_of_le_count {lba cnt i : ℕ} (h : cnt ≤ count lba) (hi : i < cnt) :
  lba - pageLba lba + i < 8
  := by
  rw [count] at h
  rw [pageLba]
  split_ifs at h
  · lia
  · lia

/-! ### Masks -/

theorem getLsbD_mask {i j : ℕ} (hj : j < 8) : (mask i).getLsbD j = true ↔ j = i := by
  rw [mask, BitVec.getLsbD_shiftLeft]
  simp only [BitVec.getLsbD_one, Bool.and_eq_true, Bool.not_eq_true', decide_eq_false_iff_not,
    decide_eq_true_eq]
  constructor
  · rintro ⟨⟨-, h₁⟩, -, h₂⟩
    lia
  · rintro rfl
    exact ⟨⟨hj, by lia⟩, by lia, by lia⟩

theorem mask_ne_zero {m : BitVec 8} {i : ℕ} (hi : i < 8) :
  m &&& mask i ≠ 0 ↔ m.getLsbD i = true
  := by
  constructor
  · intro hne
    by_contra hm
    apply hne
    apply BitVec.eq_of_getLsbD_eq
    intro j hj
    have hzero : ¬ (m &&& mask i).getLsbD j = true := by
      rw [BitVec.getLsbD_and, Bool.and_eq_true, getLsbD_mask hj]
      rintro ⟨h, rfl⟩
      apply hm h
    simpa using hzero
  · intro hm hz
    have hbit : (m &&& mask i).getLsbD i = true := by
      rw [BitVec.getLsbD_and, Bool.and_eq_true, getLsbD_mask hi]
      exact ⟨hm, rfl⟩
    rw [hz] at hbit
    simp at hbit

theorem ne_zero_of_getLsbD {m : BitVec 8} {i : ℕ} (h : m.getLsbD i = true) : m ≠ 0 := by
  rintro rfl
  simp at h

/-- All sectors are valid exactly when the mask is full. -/
theorem eq_full_iff {m : BitVec 8} : m = 0xFF ↔ ∀ i < 8, m.getLsbD i = true := by
  have hfull : ∀ i < 8, (0xFF : BitVec 8).getLsbD i = true := by
    intro i hi
    interval_cases i <;> rfl
  constructor
  · rintro rfl i hi
    apply hfull i hi
  · intro h
    apply BitVec.eq_of_getLsbD_eq
    intro i hi
    rw [h i hi, hfull i hi]

/-- A mask that is contained in an empty one is empty. -/
theorem eq_zero_of_subset {m m' : BitVec 8}
    (h : ∀ j < 8, m.getLsbD j = true → m'.getLsbD j = true) (hzero : m' = 0) :
  m = 0
  := by
  apply BitVec.eq_of_getLsbD_eq
  intro j hj
  by_contra hne
  have hset : m'.getLsbD j = true := h j hj (by simpa using hne)
  rw [hzero] at hset
  simp at hset

/-- The loop that marks sectors in a mask sets their bits. -/
theorem mark_post {f : BitVec 8 → ℕ → Except Fault (BitVec 8)}
    (hf : ∀ {m i m'}, f m i = .ok m' → m' = m ||| mask i) {l : List ℕ} {m m' : BitVec 8}
    (h : l.foldlM f m = .ok m') {j : ℕ} (hj : j < 8) :
  m'.getLsbD j = true ↔ m.getLsbD j = true ∨ j ∈ l
  := by
  induction l generalizing m with
  | nil =>
      cases h
      simp
  | cons i l ih =>
      rw [List.foldlM_cons] at h
      obtain ⟨m₁, h₁, h⟩ := Except.bind_eq_ok_iff.mp h
      rw [ih h, hf h₁, BitVec.getLsbD_or, Bool.or_eq_true, getLsbD_mask hj, List.mem_cons,
        or_assoc]

/-- The loop that marks sectors ends, if every round does. -/
theorem mark_pre {f : BitVec 8 → ℕ → Except Fault (BitVec 8)} {l : List ℕ}
    (hf : ∀ m, ∀ i ∈ l, f m i = .ok (m ||| mask i)) (m : BitVec 8) :
  ∃ m', l.foldlM f m = .ok m'
  := by
  induction l generalizing m with
  | nil => exact ⟨m, rfl⟩
  | cons i l ih =>
      rw [List.foldlM_cons, hf m i (by simp), Except.ok_bind]
      apply ih
      intro m j hj
      apply hf m j (by simp [hj])

namespace Slot

variable {σ : Type} {debug : Bool} {slot slot' : Slot σ} {lba cnt now : ℕ}

theorem isMatch_iff {page : ℕ} :
  slot.isMatch page = true ↔ slot.valid ≠ 0 ∧ slot.lbaBase = page
  := by
  rw [isMatch, decide_eq_true_iff]

/-- The sectors of a range of the page of a slot. -/
theorem mem_sectors (h : slot.lbaBase ≤ lba) {i : ℕ} :
  i ∈ slot.sectors lba cnt ↔ lba ≤ slot.lbaBase + i ∧ slot.lbaBase + i < lba + cnt
  := by
  simp only [sectors, List.mem_map, List.mem_range]
  constructor
  · rintro ⟨j, hj, rfl⟩
    lia
  · rintro ⟨h₁, h₂⟩
    exact ⟨slot.lbaBase + i - lba, by lia, by lia⟩

/-! ### Marking sectors -/

/-- What `upgrade` does. -/
theorem upgrade_post (h : slot.upgrade debug lba cnt = .ok slot') :
  ∃ dirty, slot' = { slot with dirty := dirty } ∧
    ∀ j < 8, dirty.getLsbD j = true ↔ slot.dirty.getLsbD j = true ∨ j ∈ slot.sectors lba cnt
  := by
  rw [upgrade] at h
  obtain ⟨dirty, hmark, h⟩ := Except.bind_eq_ok_iff.mp h
  cases h
  refine ⟨dirty, rfl, ?_⟩
  intro j hj
  apply mark_post _ hmark hj
  intro m i m' hf
  obtain ⟨u, -, hf⟩ := Except.bind_eq_ok_iff.mp hf
  obtain ⟨u, -, hf⟩ := Except.bind_eq_ok_iff.mp hf
  cases hf
  rfl

/-- `upgrade` returns, if its sectors are valid. -/
theorem upgrade_pre (slot : Slot σ) (lba cnt : ℕ)
    (h : debug = true → ∀ i ∈ slot.sectors lba cnt, i < 8 ∧ slot.valid.getLsbD i = true) :
  ∃ slot', slot.upgrade debug lba cnt = .ok slot'
  := by
  obtain ⟨dirty, hmark⟩ := mark_pre (l := slot.sectors lba cnt) (m := slot.dirty)
    (f := fun dirty i => do
      assert debug (i < 8)
      assert debug (slot.valid &&& mask i ≠ 0)
      return dirty ||| mask i) (by
    intro m i hi
    rw [assert_eq_ok (fun hd => (h hd i hi).1),
      assert_eq_ok (fun hd => (mask_ne_zero (h hd i hi).1).mpr (h hd i hi).2)]
    rfl)
  refine ⟨{ slot with dirty := dirty }, ?_⟩
  rw [upgrade, hmark]
  rfl

variable [Zero σ]

/-- What `store` does to a slot that has its page. -/
theorem fill_post (h : slot.fill debug lba cnt now = .ok slot') :
  ∃ dirty, slot' = { slot with
      dirty := dirty
      access := fun i => if i ∈ slot.sectors lba cnt then 0 else slot.access i
      valid := slot.valid ||| dirty
      timestamp := now } ∧
    ∀ j < 8, dirty.getLsbD j = true ↔ slot.dirty.getLsbD j = true ∨ j ∈ slot.sectors lba cnt
  := by
  rw [fill] at h
  obtain ⟨dirty, hmark, h⟩ := Except.bind_eq_ok_iff.mp h
  cases h
  refine ⟨dirty, rfl, ?_⟩
  intro j hj
  apply mark_post _ hmark hj
  intro m i m' hf
  obtain ⟨u, -, hf⟩ := Except.bind_eq_ok_iff.mp hf
  cases hf
  rfl

/-- `store` returns, if its sectors are in the page. -/
theorem fill_pre (slot : Slot σ) (lba cnt now : ℕ)
    (h : debug = true → ∀ i ∈ slot.sectors lba cnt, i < 8) :
  ∃ slot', slot.fill debug lba cnt now = .ok slot'
  := by
  obtain ⟨dirty, hmark⟩ := mark_pre (l := slot.sectors lba cnt) (m := slot.dirty)
    (f := fun dirty i => do
      assert debug (i < 8)
      return dirty ||| mask i) (by
    intro m i hi
    rw [assert_eq_ok (fun hd => h hd i hi)]
    rfl)
  rw [fill, hmark]
  exact ⟨_, rfl⟩

end Slot

end Disk

end UOS
