import Cofuos.Memory.Reservation

/-!
# Integrity of the free list

The free pages of a well-formed table are known to its directory entry, and the operations on
the table change the set of its free pages by exactly the range they reserve or release. This
is the view of a table that its callers have.
-/

namespace UOS

open Fault

/-- The free pages of a table. -/
def freePages (table : Table) : Set ℕ := { i | i < 0x200 ∧ (table i).isFree = true }

/-- The pages of a range. -/
def Run.pages (r : Run) : Set ℕ := { i | i ∈ r }

section FreePages

variable {table table' : Table} {c : Run}

theorem Edited.freePages_reserved (h : Edited PTE.reserved c table table') :
  freePages table' = freePages table \ c.pages
  := by
  ext i
  by_cases hi : i ∈ c
  · simp [freePages, Run.pages, h.isFree_of_mem hi, PTE.isFree_reserved, hi]
  · simp [freePages, Run.pages, h.isFree_of_not_mem hi, hi]

theorem Edited.freePages_released (h : Edited PTE.released c table table')
    (hc : ∀ i ∈ c, (table i).Releasable) (hle : c.self + c.size ≤ 0x200) :
  freePages table' = freePages table ∪ c.pages
  := by
  ext i
  by_cases hi : i ∈ c
  · have hlt : i < 0x200 := by
      rw [Run.mem_iff] at hi
      omega
    simp [freePages, Run.pages, h.isFree_of_mem hi, (hc i hi).isFree_released, hi, hlt]
  · simp [freePages, Run.pages, h.isFree_of_not_mem hi, hi]

theorem pages_subset_freePages (hle : c.self + c.size ≤ 0x200)
    (hc : ∀ i ∈ c, (table i).isFree = true) :
  c.pages ⊆ freePages table
  := by
  intro i hi
  have hi' : i ∈ c := hi
  use (by rw [Run.mem_iff] at hi'; omega)
  apply hc i hi

end FreePages

/-- The recorded size is `0` exactly when there is no free page. -/
theorem WellFormed.remain_eq_zero_iff {debug : Bool} {pdt : PDTE} {table : Table}
    (h : WellFormed debug pdt table) :
  pdt.remain = 0 ↔ freePages table = ∅
  := by
  obtain ⟨l, hchain, hl⟩ := h
  have hnil : pdt.remain = 0 ↔ l = [] := by
    rw [hchain.remain, encodeSize_eq_zero_iff hchain.lastSize_le]
    rcases List.eq_nil_or_concat l with rfl | ⟨l', r, rfl⟩
    · simp
    · have := (hchain.maximal r (by simp)).pos
      rw [List.concat_eq_append, lastSize_concat]
      simp
      omega
  rw [hnil, Set.eq_empty_iff_forall_notMem]
  constructor
  · rintro rfl i ⟨hi, hfree⟩
    obtain ⟨r, hr, -⟩ := MaximalRun.exists_of_free hi hfree
    apply absurd (hl r hr)
    simp
  · intro hnone
    apply List.eq_nil_iff_forall_not_mem.mpr
    intro r hr
    have hmax := hchain.maximal r hr
    apply hnone r.self ⟨hmax.self_lt, hmax.free _ hmax.self_mem⟩

/-- New tables are well formed. On a well-formed table every reservation and every release
returns and leaves a well-formed table. A reservation anywhere fails exactly when the recorded
size is too small, a reservation at a fixed place exactly when a page of the range is not free,
and the set of free pages changes by exactly the range that is reserved or released. -/
theorem freeList_integrity {pdt : PDTE} {table : Table} (h : WellFormed false pdt table)
    (locked : Bool) :
  (∀ ptAddr, ∃ pdt' table', initPt false ptAddr = .ok (pdt', table') ∧
    WellFormed false pdt' table') ∧
  (pdt.remain = 0 ↔ freePages table = ∅) ∧
  (∀ baseAddr count, 1 ≤ count → count ≤ 0x200 →
    (getMaxSize pdt < count ∧
      impReserveAny false locked pdt table baseAddr count = .ok (0, pdt, table)) ∨
    (count ≤ getMaxSize pdt ∧ ∃ index pdt' table',
      impReserveAny false locked pdt table baseAddr count
        = .ok ((baseAddr + index * 0x1000) % 2 ^ 64, pdt', table') ∧
      WellFormed false pdt' table' ∧ (Run.mk index count).pages ⊆ freePages table ∧
      freePages table' = freePages table \ (Run.mk index count).pages)) ∧
  (∀ index count, 1 ≤ count → index + count ≤ 0x200 →
    (¬ (Run.mk index count).pages ⊆ freePages table ∧
      impReserveFixed false locked pdt table index count = .ok (false, pdt, table)) ∨
    ((Run.mk index count).pages ⊆ freePages table ∧ ∃ pdt' table',
      impReserveFixed false locked pdt table index count = .ok (true, pdt', table') ∧
      WellFormed false pdt' table' ∧
      freePages table' = freePages table \ (Run.mk index count).pages)) ∧
  (∀ baseAddr index count, baseAddr / 0x1000 % 0x200 = index → 1 ≤ count →
    index + count ≤ 0x200 → (∀ i ∈ Run.mk index count, (table i).Releasable) →
    ∃ pdt' table' frames,
      impRelease false locked pdt table baseAddr count = .ok (pdt', table', frames) ∧
      WellFormed false pdt' table' ∧
      freePages table' = freePages table ∪ (Run.mk index count).pages)
  := by
  refine ⟨?_, h.remain_eq_zero_iff, ?_, ?_, ?_⟩
  · intro ptAddr
    obtain ⟨pdt', table', hinit, hw, -⟩ := initPt_eq false ptAddr
    exact ⟨pdt', table', hinit, hw⟩
  · intro baseAddr count h1 _
    rcases impReserveAny_eq h baseAddr (show count ≠ 0 by omega) (by simp) (by simp)
      with ⟨heq, hlt⟩ | ⟨index, pdt', table', heq, hge, hle, hw, hfree, hed, -⟩
    · exact .inl ⟨hlt, heq⟩
    · exact .inr ⟨hge, index, pdt', table', heq, hw, pages_subset_freePages hle hfree,
        hed.freePages_reserved⟩
  · intro index count h1 hle
    rcases impReserveFixed_eq h (by omega) hle (by simp) (by simp) (by simp)
      with ⟨heq, i, hi, hnot⟩ | ⟨pdt', table', heq, hw, hfree, hed, -⟩
    · refine .inl ⟨?_, heq⟩
      intro hsub
      have := (hsub hi).2
      rw [hnot] at this
      cases this
    · exact .inr ⟨pages_subset_freePages hle hfree, pdt', table', heq, hw,
        hed.freePages_reserved⟩
  · intro baseAddr index count hindex h1 hle hc
    obtain ⟨pdt', table', heq, hw, hed, -⟩ := impRelease_eq h hindex (by omega) hle hc (by simp)
      (by simp) (by simp) (by simp) (by simp)
    exact ⟨pdt', table', _, heq, hw, hed.freePages_released hc hle⟩

/-- The pages three to seven of a new table are reserved. -/
theorem freeList_integrity_new :
  ∃ pdt table pdt' table', initPt false 1 = .ok (pdt, table) ∧ WellFormed false pdt table ∧
    impReserveFixed false true pdt table 3 5 = .ok (true, pdt', table') ∧
    WellFormed false pdt' table' ∧ freePages table' = freePages table \ (Run.mk 3 5).pages
  := by
  obtain ⟨pdt, table, hinit, hw, hnew, -⟩ := initPt_eq false 1
  have hfree : (Run.mk 3 5).pages ⊆ freePages table := by
    apply pages_subset_freePages (by simp)
    intro i _
    rw [← PTE.isFree_untagged, hnew i]
    rfl
  rcases (freeList_integrity hw true).2.2.2.1 3 5 (by omega) (by omega)
    with ⟨hn, -⟩ | ⟨-, pdt', table', heq, hw', hpages⟩
  · apply absurd hfree hn
  · exact ⟨pdt, table, pdt', table', hinit, hw, heq, hw', hpages⟩

/-- An entry that is reserved and present without a frame stays present when it is released,
and the list then has a run that is not free: the entries of a range have to be either reserved
and not present, or present with a frame. -/
theorem freeList_integrity_present_unmapped :
  ¬ ∀ pdt table, WellFormed false pdt table → ∀ baseAddr count, 1 ≤ count →
    baseAddr / 0x1000 % 0x200 + count ≤ 0x200 →
    (∀ i ∈ Run.mk (baseAddr / 0x1000 % 0x200) count,
      (table i).preserve = true ∨ (table i).present = true ∧ (table i).pageAddr ≠ 0) →
    ∃ pdt' table' frames,
      impRelease false true pdt table baseAddr count = .ok (pdt', table', frames) ∧
      WellFormed false pdt' table'
  := by
  intro hall
  have hw : WellFormed false { present := true }
      (fun i => { preserve := true, present := i = 0 }) := by
    have hnone : ∀ i, PTE.isFree { preserve := true, present := decide (i = 0) } = false := by
      intro i
      simp [PTE.isFree]
    refine ⟨[], ?_, ?_⟩
    · constructor
      · simp
      · simp
      · simp
      · trivial
      · simp
      · rfl
    · intro r hr
      have := hr.free _ hr.self_mem
      rw [hnone] at this
      cases this
  obtain ⟨pdt', table', frames, heq, hw'⟩ :=
    hall _ _ hw 0x200000 1 (by omega) (by omega) (fun i _ => .inl rfl)
  have hrun : ∃ table', impRelease false true { present := true }
      (fun i => { preserve := true, present := i = 0 }) 0x200000 1
        = .ok ({ present := true, remain := 1 }, table', []) ∧
      ∀ i, (table' i).isFree = false := by
    refine ⟨BLOCK.setTag (Function.update (fun i => { preserve := true, present := i = 0 }) 0
      { present := true }) 0 .NEXT 0 false, rfl, ?_⟩
    intro i
    by_cases hi : i = 0
    · subst hi
      rfl
    · simp [BLOCK.setTag, Function.update_of_ne hi, PTE.isFree]
  obtain ⟨table'', heq', hnone⟩ := hrun
  rw [heq'] at heq
  cases heq
  have hzero : (1 : ℕ) = 0 := by
    apply hw'.remain_eq_zero_iff.mpr
    rw [Set.eq_empty_iff_forall_notMem]
    rintro i ⟨-, hfree⟩
    rw [hnone i] at hfree
    cases hfree
  cases hzero

end UOS
