import Cofuos.Memory.FreeList

/-!
# Reserving and releasing entries

A table is well formed when its free list consists of all of its maximal runs. A new table is
well formed, and reserving and releasing entries keeps tables well formed: the list loses the
runs next to the range and gets the runs that are there afterwards.

All results hold with and without assertions. What a debug build asserts of its callers, and
what its assertion about the third entry of a run rules out, are hypotheses that mention
`debug = true`.
-/

namespace UOS

open Fault

/-! ### Well-formed tables -/

/-- The free list of a table consists of all of its maximal runs. -/
def WellFormed (debug : Bool) (pdt : PDTE) (table : Table) : Prop :=
  ∃ l, FreeChain debug pdt table l ∧ ∀ r, MaximalRun table r → r ∈ l

namespace FreeChain

variable {debug : Bool} {pdt : PDTE} {table table' : Table} {l l₁ l₂ : List Run} {r : Run}
  {block : BLOCK}

/-- A list with a run for every free entry is complete. -/
theorem wellFormed (h : FreeChain debug pdt table l)
    (hl : ∀ i < 0x200, (table i).isFree = true → ∃ x ∈ l, i ∈ x) :
  WellFormed debug pdt table
  := by
  use l, h
  intro r hr
  obtain ⟨x, hx, hi⟩ := hl r.self hr.self_lt (hr.free _ hr.self_mem)
  rw [hr.eq_of_mem (h.maximal x hx) hr.self_mem hi]
  apply hx

/-- The list stays as it is when the entries of its runs do, and the runs stay maximal. -/
theorem congr (h : FreeChain debug pdt table l) (hrun : ∀ x ∈ l, ∀ i ∈ x, table' i = table i)
    (hmax : ∀ x ∈ l, MaximalRun table' x) :
  FreeChain debug pdt table' l
  := by
  constructor
  · apply hmax
  · apply h.nodup
  · apply h.sorted
  · apply h.links.imp
    intro x hx p n hrec
    apply hrec.congr (h.maximal x hx) (hrun x hx) (hmax x hx).after
  · apply h.head
  · apply h.remain

/-- `insert` puts a run in the list, and does nothing with a block of size `0`. -/
theorem insert_mem (h : FreeChain debug pdt table (l₁ ++ l₂))
    (hr : block.size ≠ 0 → MaximalRun table block.run ∧ block.run ∉ l₁ ++ l₂)
    (hb : Hinted l₁ l₂ block ∨ block.prevValid = false ∧ block.nextValid = false) :
  ∃ pdt' table' l', insert debug pdt table block = .ok (pdt', table') ∧
    FreeChain debug pdt' table' l' ∧
    (∀ x, x ∈ l' ↔ x ∈ l₁ ++ l₂ ∨ block.size ≠ 0 ∧ x = block.run) ∧
    SameMap table table' ∧ pdt'.unlisted = pdt.unlisted
  := by
  by_cases h0 : block.size = 0
  · refine ⟨pdt, table, l₁ ++ l₂, ?_, h, ?_, SameMap.refl _, rfl⟩
    · rw [insert, if_pos h0]
      rfl
    · intro x
      simp [h0]
  · obtain ⟨hmax, hnew⟩ := hr h0
    obtain ⟨pdt', table', m₁, m₂, hins, hchain, hm, hs, hu⟩ := h.insert_eq hmax hnew hb
    refine ⟨pdt', table', _, hins, hchain, ?_, hs, hu⟩
    intro x
    rw [← hm]
    simp only [List.mem_append, List.mem_cons]
    tauto

/-- Two blocks are inserted one after the other, the second one without links. -/
theorem insert_parts (h : FreeChain debug pdt table (l₁ ++ l₂)) {large small : BLOCK}
    (hlarge : large.size ≠ 0 → MaximalRun table large.run ∧ large.run ∉ l₁ ++ l₂)
    (hsmall : small.size ≠ 0 → MaximalRun table small.run ∧ small.run ∉ l₁ ++ l₂)
    (hne : large.self ≠ small.self) (hhint : Hinted l₁ l₂ large)
    (hnone : small.prevValid = false ∧ small.nextValid = false) :
  ∃ pdt₁ table₁ pdt' table' l', insert debug pdt table large = .ok (pdt₁, table₁) ∧
    insert debug pdt₁ table₁ small = .ok (pdt', table') ∧ FreeChain debug pdt' table' l' ∧
    (∀ x, x ∈ l' ↔ x ∈ l₁ ++ l₂ ∨ large.size ≠ 0 ∧ x = large.run ∨
      small.size ≠ 0 ∧ x = small.run) ∧
    SameMap table table' ∧ pdt'.unlisted = pdt.unlisted
  := by
  obtain ⟨pdt₁, table₁, m, hins₁, hchain₁, hmem₁, hs₁, hu₁⟩ := h.insert_mem hlarge (.inl hhint)
  have hnew : small.size ≠ 0 → MaximalRun table₁ small.run ∧ small.run ∉ [] ++ m := by
    intro h0
    obtain ⟨hmax, hout⟩ := hsmall h0
    constructor
    · apply hmax.sameMap hs₁
    · rw [List.nil_append, hmem₁]
      rintro (hin | ⟨-, heq⟩)
      · apply hout hin
      · apply hne (congrArg Run.self heq).symm
  have hchain₁' : FreeChain debug pdt₁ table₁ ([] ++ m) := hchain₁
  obtain ⟨pdt', table', l', hins₂, hchain₂, hmem₂, hs₂, hu₂⟩ :=
    hchain₁'.insert_mem hnew (.inr hnone)
  refine ⟨pdt₁, table₁, pdt', table', l', hins₁, hins₂, hchain₂, ?_, hs₁.trans hs₂,
    hu₂.trans hu₁⟩
  intro x
  rw [hmem₂, List.nil_append, hmem₁, or_assoc]

/-- Completing a block that has been read and unlinking it takes its run out of the list. -/
theorem detach (h : FreeChain debug pdt table (l₁ ++ r :: l₂))
    (hb : Recovered l₁.getLast? r l₂.head? block) :
  ∃ block' pdt' table', resolvePrior debug pdt table block = .ok block' ∧
    block'.run = r ∧ Hinted l₁ l₂ block' ∧
    erase debug pdt table block' = .ok (pdt', table') ∧
    FreeChain debug pdt' table' (l₁ ++ l₂) ∧ SameMap table table' ∧
    pdt'.unlisted = pdt.unlisted
  := by
  obtain ⟨block', hprior, hres⟩ := h.resolvePrior_eq hb
  obtain ⟨pdt', table', herase, hchain, hs, hu⟩ := h.erase_eq hres
  refine ⟨block', pdt', table', hprior, ?_, ?_, herase, hchain, hs, hu⟩
  · rw [BLOCK.run, hres.self_eq, hres.size_eq]
  · exact ⟨hres.next_valid, hres.next_eq, hres.prev_valid, hres.prev_eq⟩

/-- A run that is taken out of the list is not in the list any more. -/
theorem not_mem (h : FreeChain debug pdt table (l₁ ++ r :: l₂)) : r ∉ l₁ ++ l₂ :=
  (List.nodup_cons.mp (List.nodup_middle.mp h.nodup)).1

end FreeChain

/-! ### Edits of a range of entries -/

namespace PTE

/-- A reserved entry. -/
def reserved (pt : PTE) : PTE := { pt with preserve := true }

/-- A released entry. -/
def released (pt : PTE) : PTE :=
  if pt.present = true ∧ pt.pageAddr ≠ 0 then
    { pt with present := false, pageAddr := 0, preserve := false }
  else
    { pt with preserve := false }

/-- The frame that goes back to the physical memory manager when an entry is released. -/
def frame (pt : PTE) : Option ℕ :=
  if pt.present = true ∧ pt.pageAddr ≠ 0 then some pt.pageAddr else none

/-- An entry that can be released: it is reserved and maps no page, or it maps one. -/
def Releasable (pt : PTE) : Prop :=
  pt.preserve = true ∧ pt.present = false ∨ pt.present = true ∧ pt.pageAddr ≠ 0

instance (pt : PTE) : Decidable pt.Releasable :=
  inferInstanceAs (Decidable (_ ∨ _))

theorem releasable_untagged (pt : PTE) : pt.untagged.Releasable ↔ pt.Releasable := Iff.rfl

theorem bypass_untagged (pt : PTE) : pt.untagged.bypass = pt.bypass := rfl

theorem frame_untagged (pt : PTE) : pt.untagged.frame = pt.frame := rfl

theorem isFree_reserved (pt : PTE) : pt.reserved.isFree = false := by
  simp [isFree, reserved]

theorem Releasable.isFree {pt : PTE} (h : pt.Releasable) : pt.isFree = false := by
  rcases h with ⟨h, -⟩ | ⟨h, -⟩
  · simp [PTE.isFree, h]
  · simp [PTE.isFree, h]

theorem Releasable.isFree_released {pt : PTE} (h : pt.Releasable) :
  pt.released.isFree = true
  := by
  rcases h with ⟨-, h⟩ | h
  · simp [PTE.isFree, released, h]
  · simp [PTE.isFree, released, h]

end PTE

/-- The table `table'` maps what `table` does, after the entries of `r` were edited by `f`. -/
def Edited (f : PTE → PTE) (r : Run) (table table' : Table) : Prop :=
  ∀ i, (table' i).untagged = if i ∈ r then (f (table i)).untagged else (table i).untagged

namespace Edited

variable {f : PTE → PTE} {r : Run} {table table' table'' : Table}

theorem isFree_of_not_mem (h : Edited f r table table') {i : ℕ} (hi : i ∉ r) :
  (table' i).isFree = (table i).isFree
  := by
  rw [← PTE.isFree_untagged, h i, if_neg hi, PTE.isFree_untagged]

theorem isFree_of_mem (h : Edited f r table table') {i : ℕ} (hi : i ∈ r) :
  (table' i).isFree = (f (table i)).isFree
  := by
  rw [← PTE.isFree_untagged, h i, if_pos hi, PTE.isFree_untagged]

theorem trans_sameMap (h : Edited f r table table') (hs : SameMap table' table'') :
  Edited f r table table''
  := by
  intro i
  rw [hs i, h i]

/-- Edits of entries whose tags they do not look at. -/
theorem of_sameMap (hf : ∀ pt, (f pt).untagged = f pt.untagged)
    (hs : SameMap table table') (h : Edited f r table' table'') :
  Edited f r table table''
  := by
  intro i
  rw [h i, hf, hs i, ← hf]

end Edited

theorem PTE.untagged_reserved (pt : PTE) :
  pt.reserved.untagged = pt.untagged.reserved
  := rfl

theorem PTE.untagged_released (pt : PTE) :
  pt.released.untagged = pt.untagged.released
  := by
  by_cases h : pt.present = true ∧ pt.pageAddr ≠ 0
  · have h' : pt.untagged.present = true ∧ pt.untagged.pageAddr ≠ 0 := h
    rw [released, if_pos h, released, if_pos h']
    rfl
  · have h' : ¬ (pt.untagged.present = true ∧ pt.untagged.pageAddr ≠ 0) := h
    rw [released, if_neg h, released, if_neg h']
    rfl

/-- The table after the entries of `c` were edited. -/
def Table.edit (f : PTE → PTE) (c : Run) (table : Table) : Table :=
  fun i => if i ∈ c then f (table i) else table i

theorem Table.edit_of_not_mem {f : PTE → PTE} {c : Run} {table : Table} {i : ℕ} (hi : i ∉ c) :
  table.edit f c i = table i
  := if_neg hi

theorem Table.edited_edit (f : PTE → PTE) (c : Run) (table : Table) :
  Edited f c table (table.edit f c)
  := by
  intro i
  rw [edit]
  split_ifs
  · rfl
  · rfl

/-- The loop that reserves free entries. -/
theorem preserveRange_eq {debug : Bool} {table : Table} {index count : ℕ}
    (h : debug = true → ∀ i ∈ Run.mk index count, (table i).isFree = true) :
  preserveRange debug table index count
    = .ok (table.edit PTE.reserved ⟨index, count⟩)
  := by
  induction count with
  | zero =>
      simp only [preserveRange, List.range_zero, List.foldlM_nil]
      congr 1
      funext i
      rw [Table.edit_of_not_mem]
      simp only [Run.mem_iff]
      omega
  | succ count ih =>
      rw [preserveRange, List.range_succ, List.foldlM_append]
      have ih' := ih (fun hd i hi => h hd i (by simp only [Run.mem_iff] at hi ⊢; omega))
      rw [preserveRange] at ih'
      have hnot : index + count ∉ Run.mk index count := by
        simp only [Run.mem_iff]
        omega
      rw [ih', Except.ok_bind]
      simp only [List.foldlM_cons, List.foldlM_nil, Table.edit_of_not_mem hnot]
      rw [assert_eq_ok]
      · simp only [Except.ok_bind, pure, Except.pure]
        congr 1
        funext i
        by_cases hi : i = index + count
        · subst hi
          rw [Function.update_self, Table.edit, if_pos]
          · rfl
          · simp only [Run.mem_iff]
            omega
        · rw [Function.update_of_ne hi, Table.edit, Table.edit]
          congr 1
          simp only [Run.mem_iff, eq_iff_iff]
          lia
      · intro hd
        apply h hd
        simp only [Run.mem_iff]
        omega

/-- The loop that releases entries. -/
theorem releaseRange_eq {debug : Bool} {table : Table} {index count : ℕ}
    (h : ∀ i ∈ Run.mk index count, (table i).Releasable)
    (hb : debug = true → ∀ i ∈ Run.mk index count, (table i).bypass = false) :
  releaseRange debug table index count
    = .ok (table.edit PTE.released ⟨index, count⟩,
        (List.range count).flatMap fun i => (table (index + i)).frame.toList)
  := by
  induction count with
  | zero =>
      simp only [releaseRange, List.range_zero, List.foldlM_nil, List.flatMap_nil]
      congr 2
      funext i
      rw [Table.edit_of_not_mem]
      simp only [Run.mem_iff]
      omega
  | succ count ih =>
      have hsub : ∀ i ∈ Run.mk index count, i ∈ Run.mk index (count + 1) := by
        intro i hi
        simp only [Run.mem_iff] at hi ⊢
        omega
      rw [releaseRange, List.range_succ, List.foldlM_append]
      have ih' := ih (fun i hi => h i (hsub i hi)) (fun hd i hi => hb hd i (hsub i hi))
      rw [releaseRange] at ih'
      have hnot : index + count ∉ Run.mk index count := by
        simp only [Run.mem_iff]
        omega
      have hmem : index + count ∈ Run.mk index (count + 1) := by
        simp only [Run.mem_iff]
        omega
      have hentry : releaseEntry debug (table (index + count))
          = .ok ((table (index + count)).released, (table (index + count)).frame) := by
        rw [releaseEntry, assert_eq_ok (fun hd => hb hd _ hmem), Except.ok_bind]
        rcases h _ hmem with ⟨hp, hn⟩ | hp
        · rw [if_neg (by simp [hn]), if_neg (by simp [hp]), PTE.released, PTE.frame,
            if_neg (by simp [hn]), if_neg (by simp [hn])]
          rfl
        · rw [if_pos hp, PTE.released, PTE.frame, if_pos hp, if_pos hp]
          rfl
      rw [ih', Except.ok_bind]
      simp only [List.foldlM_cons, List.foldlM_nil, Table.edit_of_not_mem hnot, hentry,
        Except.ok_bind, pure, Except.pure]
      congr 2
      · funext i
        by_cases hi : i = index + count
        · subst hi
          rw [Function.update_self, Table.edit, if_pos hmem]
        · rw [Function.update_of_ne hi, Table.edit, Table.edit]
          congr 1
          simp only [Run.mem_iff, eq_iff_iff]
          omega
      · simp [List.flatMap_append]

/-! ### New tables -/

/-- A new table is well formed. -/
theorem initPt_eq (debug : Bool) (ptAddr : ℕ) :
  ∃ pdt' table', initPt debug ptAddr = .ok (pdt', table') ∧ WellFormed debug pdt' table' ∧
    (∀ i, (table' i).untagged = {}) ∧
    pdt'.present = true ∧ pdt'.bypass = false ∧ pdt'.ptAddr = ptAddr
  := by
  have hrun : BLOCK.run { size := 0x200 } = ⟨0, 0x200⟩ := rfl
  have hmax : MaximalRun (fun _ => {}) (BLOCK.run { size := 0x200 }) := by
    rw [hrun]
    constructor
    · simp
    · simp
    · intro i _
      rfl
    · simp
    · simp
  have hs := BLOCK.tagged_sameMap { size := 0x200 } (fun _ => {})
  refine ⟨{ putMaxSize { ptAddr := ptAddr, user := true, write := true } 0x200 with
    present := true }, BLOCK.tagged { size := 0x200 } (fun _ => {}), ?_, ?_, hs, rfl, rfl, rfl⟩
  · rw [initPt]
    dsimp only
    rw [show (0 : ℕ) = BLOCK.self { size := 0x200 } from rfl, BLOCK.put_eq debug hmax]
    rfl
  · have hchain : FreeChain debug
        { putMaxSize { ptAddr := ptAddr, user := true, write := true } 0x200 with present := true }
        (BLOCK.tagged { size := 0x200 } (fun _ => {})) [⟨0, 0x200⟩] := by
      constructor
      · intro r hr
        rw [List.mem_singleton] at hr
        rw [hr, ← hrun]
        apply hmax.sameMap hs
      · simp
      · simp
      · rw [Linked.singleton_iff, ← hrun]
        apply BLOCK.records_tagged debug hmax
        · rfl
        · simp
        · intro _
          rfl
        · simp
      · rintro r ⟨⟩
        rfl
      · rfl
    apply hchain.wellFormed
    intro i hi _
    use ⟨0, 0x200⟩, by simp
    simp only [Run.mem_iff]
    omega

/-! ### Reserving -/

section Reserving

variable {debug : Bool} {pdt : PDTE} {table : Table} {l : List Run} {r c : Run}

/-- Reserving entries of a run that is not in the list leaves the list alone. -/
theorem FreeChain.edit_reserved (h : FreeChain debug pdt table l) (hr : MaximalRun table r)
    (hrl : r ∉ l) (hc : ∀ i ∈ c, i ∈ r) :
  FreeChain debug pdt (table.edit PTE.reserved c) l
  := by
  have hed := Table.edited_edit PTE.reserved c table
  have hout : ∀ x ∈ l, ∀ i ∈ x, i ∉ c := by
    intro x hx i hi hic
    apply hrl
    rw [hr.eq_of_mem (h.maximal x hx) (hc i hic) hi]
    apply hx
  have hstay : ∀ i, (table i).isFree = false → (table.edit PTE.reserved c i).isFree = false := by
    intro i hi
    by_cases hic : i ∈ c
    · rw [hed.isFree_of_mem hic, PTE.isFree_reserved]
    · rw [hed.isFree_of_not_mem hic, hi]
  apply h.congr
  · intro x hx i hi
    apply Table.edit_of_not_mem (hout x hx i hi)
  · intro x hx
    have hmax := h.maximal x hx
    apply hmax.of_isFree
    · intro i hi
      rw [hed.isFree_of_not_mem (hout x hx i hi), hmax.free i hi]
    · intro hne
      apply hstay _ (hmax.before hne)
    · intro hne
      apply hstay _ (hmax.after hne)

/-- What is left of a run before the reserved entries is a maximal run. -/
theorem MaximalRun.before_reserved (hr : MaximalRun table r) (hc : ∀ i ∈ c, i ∈ r)
    (hpos : 0 < c.size) (hne : c.self - r.self ≠ 0) :
  MaximalRun (table.edit PTE.reserved c) ⟨r.self, c.self - r.self⟩
  := by
  have hed := Table.edited_edit PTE.reserved c table
  have hself := hc c.self (by rw [Run.mem_iff]; omega)
  have hle := hr.le
  rw [Run.mem_iff] at hself
  constructor
  · simp only
    lia
  · simp only
    lia
  · intro i hi
    simp only [Run.mem_iff] at hi
    rw [hed.isFree_of_not_mem (by rw [Run.mem_iff]; lia)]
    apply hr.free
    rw [Run.mem_iff]
    lia
  · intro h0
    simp only at h0 ⊢
    rw [hed.isFree_of_not_mem (by rw [Run.mem_iff]; lia)]
    apply hr.before h0
  · intro _
    simp only
    rw [show r.self + (c.self - r.self) = c.self by lia, hed.isFree_of_mem,
      PTE.isFree_reserved]
    rw [Run.mem_iff]
    omega

/-- What is left of a run after the reserved entries is a maximal run. -/
theorem MaximalRun.after_reserved (hr : MaximalRun table r) (hc : ∀ i ∈ c, i ∈ r)
    (hpos : 0 < c.size) (hne : r.self + r.size - (c.self + c.size) ≠ 0) :
  MaximalRun (table.edit PTE.reserved c)
    ⟨c.self + c.size, r.self + r.size - (c.self + c.size)⟩
  := by
  have hed := Table.edited_edit PTE.reserved c table
  have hself := hc c.self (by rw [Run.mem_iff]; omega)
  have hle := hr.le
  rw [Run.mem_iff] at hself
  constructor
  · simp only
    lia
  · simp only
    lia
  · intro i hi
    simp only [Run.mem_iff] at hi
    rw [hed.isFree_of_not_mem (by rw [Run.mem_iff]; omega)]
    apply hr.free
    rw [Run.mem_iff]
    lia
  · intro _
    simp only
    rw [hed.isFree_of_mem, PTE.isFree_reserved]
    rw [Run.mem_iff]
    lia
  · intro h0
    simp only at h0 ⊢
    have heq : c.self + c.size + (r.self + r.size - (c.self + c.size)) = r.self + r.size := by
      lia
    rw [heq] at h0 ⊢
    rw [hed.isFree_of_not_mem (by rw [Run.mem_iff]; lia)]
    apply hr.after h0

/-- The free entries after a reservation are those of the other runs and what is left of the
run. -/
theorem free_edit_reserved (hl : ∀ x, MaximalRun table x → x ∈ l) {table' : Table}
    (hed : Edited PTE.reserved c table table') {i : ℕ} (hi : i < 0x200)
    (hfree : (table' i).isFree = true) :
  (∃ x ∈ l, x ≠ r ∧ i ∈ x) ∨ i ∈ Run.mk r.self (c.self - r.self) ∨
    i ∈ Run.mk (c.self + c.size) (r.self + r.size - (c.self + c.size))
  := by
  have hic : i ∉ c := by
    intro hic
    rw [hed.isFree_of_mem hic, PTE.isFree_reserved] at hfree
    cases hfree
  rw [hed.isFree_of_not_mem hic] at hfree
  obtain ⟨x, hx, hix⟩ := MaximalRun.exists_of_free hi hfree
  by_cases hxr : x = r
  · subst hxr
    right
    simp only [Run.mem_iff] at *
    lia
  · left
    use x, hl x hx

end Reserving

section Reserving

variable {debug locked : Bool} {pdt : PDTE} {table : Table} {l : List Run} {r c : Run}

/-- The larger part of a block that has been split keeps its links, and the two parts are
those before and after the reserved entries. -/
theorem splitBlock_eq (block : BLOCK) (index count : ℕ) :
  ∃ large small, splitBlock block index count = (large, small) ∧
    large.next = block.next ∧ large.nextValid = block.nextValid ∧
    large.prev = block.prev ∧ large.prevValid = block.prevValid ∧
    small.prevValid = false ∧ small.nextValid = false ∧
    (large.run = ⟨block.self, index - block.self⟩ ∧
        small.run = ⟨index + count, block.self + block.size - (index + count)⟩ ∨
      large.run = ⟨index + count, block.self + block.size - (index + count)⟩ ∧
        small.run = ⟨block.self, index - block.self⟩)
  := by
  simp only [splitBlock]
  split_ifs
  · refine ⟨_, _, rfl, rfl, rfl, rfl, rfl, rfl, rfl, .inr ⟨?_, rfl⟩⟩
    rw [BLOCK.run, Nat.add_comm block.self]
  · refine ⟨_, _, rfl, rfl, rfl, rfl, rfl, rfl, rfl, .inl ⟨rfl, ?_⟩⟩
    rw [BLOCK.run, Nat.add_comm block.self]

/-- Both parts of a run that has been split are maximal, and are not in the list. -/
theorem FreeChain.part_reserved {l : List Run} (h : FreeChain debug pdt table l)
    (hr : MaximalRun table r) (hrl : r ∉ l) (hc : ∀ i ∈ c, i ∈ r) (hpos : 0 < c.size) {x : Run}
    (hx : x = ⟨r.self, c.self - r.self⟩ ∨
      x = ⟨c.self + c.size, r.self + r.size - (c.self + c.size)⟩) (h0 : x.size ≠ 0) :
  MaximalRun (table.edit PTE.reserved c) x ∧ x ∉ l
  := by
  have hself := hc c.self (by rw [Run.mem_iff]; omega)
  rw [Run.mem_iff] at hself
  have hmax : MaximalRun (table.edit PTE.reserved c) x := by
    rcases hx with rfl | rfl
    · apply hr.before_reserved hc hpos h0
    · apply hr.after_reserved hc hpos h0
  use hmax
  intro hmem
  apply hrl
  have hxr : x.self ∈ r := by
    rw [Run.mem_iff]
    rcases hx with rfl | rfl
    · simp only at h0 ⊢
      lia
    · simp only at h0 ⊢
      lia
  rw [← (h.maximal x hmem).eq_of_mem hr hmax.self_mem hxr]
  apply hmem

/-- `imp_reserve_fixed` reserves a range when all of its entries are free, and does nothing
otherwise. -/
theorem impReserveFixed_eq (h : WellFormed debug pdt table) {index count : ℕ}
    (hcount : count ≠ 0) (hle : index + count ≤ 0x200) (hlocked : debug = true → locked = true)
    (hpdt : debug = true → pdt.present = true ∧ pdt.bypass = false ∧ getMaxSize pdt > 0)
    (h2 : debug = true → ∀ x, MaximalRun table x → index = x.self + 2 → index ∈ x →
      x.size = 4) :
  (impReserveFixed debug locked pdt table index count = .ok (false, pdt, table) ∧
    ∃ i ∈ Run.mk index count, (table i).isFree = false) ∨
  ∃ pdt' table', impReserveFixed debug locked pdt table index count = .ok (true, pdt', table') ∧
    WellFormed debug pdt' table' ∧ (∀ i ∈ Run.mk index count, (table i).isFree = true) ∧
    Edited PTE.reserved ⟨index, count⟩ table table' ∧ pdt'.unlisted = pdt.unlisted
  := by
  obtain ⟨l, hchain, hl⟩ := h
  rw [impReserveFixed, assert_eq_ok hlocked, assert_eq_ok (fun _ => ⟨hcount, hle⟩),
    assert_eq_ok hpdt]
  simp only [Except.ok_bind]
  by_cases hfree : (table index).isFree = false
  · left
    constructor
    · rw [if_pos hfree]
      rfl
    · use index, by simp only [Run.mem_iff]; lia
  rw [if_neg hfree]
  rw [Bool.not_eq_false] at hfree
  obtain ⟨r, hr, hir⟩ := MaximalRun.exists_of_free (by omega) hfree
  obtain ⟨l₁, l₂, rfl⟩ := List.append_of_mem (hl r hr)
  obtain ⟨b, hget, hrec⟩ := hchain.records index hir (fun hd h' => h2 hd r hr h' hir) {}
  have hbself := hrec.self_eq
  have hbsize := hrec.size_eq
  obtain ⟨block, pdt₁, table₁, hprior, hrun, hhint, herase, hchain₁, hs₁, hu₁⟩ :=
    hchain.detach hrec
  have hself : block.self = r.self := congrArg Run.self hrun
  have hsize : block.size = r.size := congrArg Run.size hrun
  rw [Run.mem_iff] at hir
  rw [hget, Except.ok_bind, assert_eq_ok (fun _ => by lia), Except.ok_bind]
  by_cases hend : index + count > b.self + b.size
  · left
    constructor
    · rw [if_pos hend]
      rfl
    · use r.self + r.size
      constructor
      · simp only [Run.mem_iff]
        lia
      · apply hr.after
        lia
  right
  have hc : ∀ i ∈ Run.mk index count, i ∈ r := by
    intro i hi
    simp only [Run.mem_iff] at hi ⊢
    lia
  have hpos : 0 < (Run.mk index count).size := Nat.pos_of_ne_zero hcount
  have hr₁ := hr.sameMap hs₁
  have hnew := hchain.not_mem
  obtain ⟨large, small, hsplit, hln, hlnv, hlp, hlpv, hspv, hsnv, hparts⟩ :=
    splitBlock_eq block index count
  rw [hself, hsize] at hparts
  have hhint' : Hinted l₁ l₂ large := by
    constructor
    · rw [hlnv, hhint.next_valid]
    · rw [hln]
      apply hhint.next_eq
    · rw [hlpv, hhint.prev_valid]
    · rw [hlp]
      apply hhint.prev_eq
  have hlarge := hchain₁.part_reserved hr₁ hnew hc hpos (hparts.imp And.left And.left)
  have hsmall := hchain₁.part_reserved hr₁ hnew hc hpos (hparts.symm.imp And.right And.right)
  have hne : large.self ≠ small.self := by
    rcases hparts with ⟨hA, hB⟩ | ⟨hA, hB⟩
    · have := congrArg Run.self hA
      have := congrArg Run.self hB
      simp only [BLOCK.run] at *
      lia
    · have := congrArg Run.self hA
      have := congrArg Run.self hB
      simp only [BLOCK.run] at *
      lia
  obtain ⟨pdt₃, table₃, pdt₄, table₄, l₄, hins₃, hins₄, hchain₄, hmem₄, hs₄, hu₄⟩ :=
    (hchain₁.edit_reserved hr₁ hnew hc).insert_parts hlarge hsmall hne hhint' ⟨hspv, hsnv⟩
  have hed : Edited PTE.reserved ⟨index, count⟩ table table₄ :=
    ((Table.edited_edit _ _ _).of_sameMap PTE.untagged_reserved hs₁).trans_sameMap hs₄
  refine ⟨pdt₄, table₄, ?_, ?_, fun i hi => hr.free i (hc i hi), hed, hu₄.trans hu₁⟩
  · rw [if_neg hend, hprior, Except.ok_bind, herase]
    simp only [Except.ok_bind]
    rw [preserveRange_eq (fun _ i hi => hr₁.free i (hc i hi))]
    simp only [Except.ok_bind, hsplit, hins₃, hins₄]
    rfl
  · apply hchain₄.wellFormed
    intro i hi hfi
    have hin : ∀ q : Run, i ∈ q → q = large.run ∨ q = small.run → ∃ x ∈ l₄, i ∈ x := by
      intro q hq hqs
      have h0 : q.size ≠ 0 := by
        rw [Run.mem_iff] at hq
        lia
      use q
      rw [hmem₄]
      refine ⟨.inr ?_, hq⟩
      rcases hqs with rfl | rfl
      · apply Or.inl ⟨h0, rfl⟩
      · apply Or.inr ⟨h0, rfl⟩
    rcases free_edit_reserved (r := r) hl hed hi hfi with ⟨x, hx, hxr, hix⟩ | hi₁ | hi₂
    · refine ⟨x, (hmem₄ x).mpr (.inl ?_), hix⟩
      apply (List.mem_cons.mp (List.perm_middle.subset hx)).resolve_left hxr
    · apply hin _ hi₁
      apply hparts.imp (fun h => h.1.symm) (fun h => h.2.symm)
    · apply hin _ hi₂
      apply hparts.symm.imp (fun h => h.1.symm) (fun h => h.2.symm)

/-- The walk of `imp_reserve_any` ends at a run that is large enough, if there is one. -/
theorem findBlock_eq {count : ℕ} :
    ∀ (l : List Run) (x : Run) (p : Option Run) (fuel : ℕ) (b₀ : BLOCK),
      Linked (Records debug table) p (x :: l) none → (∀ y ∈ x :: l, MaximalRun table y) →
      (∃ y ∈ x :: l, count ≤ y.size) → l.length < fuel →
      ∃ l₁ r l₂ b, x :: l = l₁ ++ r :: l₂ ∧ count ≤ r.size ∧
        findBlock debug table count fuel x.self b₀ = .ok b ∧
        Recovered (l₁.getLast?.or p) r l₂.head? b
  | l, x, p, 0, b₀, hlinked, hl, hex, hfuel => by
      simp at hfuel
  | [], x, p, fuel + 1, b₀, hlinked, hl, hex, hfuel => by
      obtain ⟨b, hget, hrec⟩ := hlinked.1.get_self (hl x (by simp)) b₀
      have hx : count ≤ x.size := by simpa using hex
      refine ⟨[], x, [], b, rfl, hx, ?_, hrec⟩
      rw [findBlock, hget, Except.ok_bind, assert_eq_ok (fun _ => hrec.self_eq), Except.ok_bind,
        if_pos (by rw [hrec.size_eq]; exact hx)]
      rfl
  | y :: l, x, p, fuel + 1, b₀, hlinked, hl, hex, hfuel => by
      obtain ⟨b, hget, hrec⟩ := hlinked.1.get_self (hl x (by simp)) b₀
      rw [findBlock, hget, Except.ok_bind, assert_eq_ok (fun _ => hrec.self_eq), Except.ok_bind]
      by_cases hx : count ≤ x.size
      · refine ⟨[], x, y :: l, b, rfl, hx, ?_, by simpa using hrec⟩
        rw [if_pos (by rw [hrec.size_eq]; exact hx)]
        rfl
      · have hex' : ∃ z ∈ y :: l, count ≤ z.size := by
          obtain ⟨z, hz, hle⟩ := hex
          rcases List.mem_cons.mp hz with rfl | hz
          · apply absurd hle hx
          · exact ⟨z, hz, hle⟩
        obtain ⟨l₁, r, l₂, b', heq, hle, hfind, hrec'⟩ := findBlock_eq l y (some x) fuel b
          hlinked.2 (fun z hz => hl z (by simp [hz])) hex' (by simpa using hfuel)
        refine ⟨x :: l₁, r, l₂, b', by rw [heq, List.cons_append], hle, ?_, ?_⟩
        · rw [if_neg (by rw [hrec.size_eq]; exact hx), if_pos, hrec.next_eq y (by simp), hfind]
          rw [hrec.next_valid]
          simp
        · rw [List.getLast?_cons]
          cases hlast : l₁.getLast? with
          | none => simpa [hlast] using hrec'
          | some z => simpa [hlast] using hrec'

/-- `imp_reserve_any` reserves a range unless the recorded size is too small. -/
theorem impReserveAny_eq (h : WellFormed debug pdt table) (baseAddr : ℕ) {count : ℕ}
    (hcount : count ≠ 0) (hlocked : debug = true → locked = true)
    (hpdt : debug = true → pdt.present = true ∧ pdt.bypass = false) :
  (impReserveAny debug locked pdt table baseAddr count = .ok (0, pdt, table) ∧
    getMaxSize pdt < count) ∨
  ∃ index pdt' table', impReserveAny debug locked pdt table baseAddr count
      = .ok ((baseAddr + index * 0x1000) % 2 ^ 64, pdt', table') ∧
    count ≤ getMaxSize pdt ∧ index + count ≤ 0x200 ∧ WellFormed debug pdt' table' ∧
    (∀ i ∈ Run.mk index count, (table i).isFree = true) ∧
    Edited PTE.reserved ⟨index, count⟩ table table' ∧ pdt'.unlisted = pdt.unlisted
  := by
  obtain ⟨l, hchain, hl⟩ := h
  rw [impReserveAny, assert_eq_ok hlocked, assert_eq_ok (fun _ => hcount), assert_eq_ok hpdt]
  simp only [Except.ok_bind]
  by_cases hmax : getMaxSize pdt < count
  · left
    rw [if_pos hmax]
    exact ⟨rfl, hmax⟩
  right
  rw [if_neg hmax]
  have hlast : count ≤ lastSize l := by
    have := (decodeSize_encodeSize hchain.lastSize_le).1
    rw [← hchain.remain] at this
    rw [getMaxSize] at hmax
    omega
  cases l with
  | nil =>
      rw [lastSize_nil] at hlast
      lia
  | cons x l =>
      have hex : ∃ y ∈ x :: l, count ≤ y.size := by
        rcases List.eq_nil_or_concat (x :: l) with hnil | ⟨l', y, hy⟩
        · simp at hnil
        · rw [List.concat_eq_append] at hy
          rw [hy, lastSize_concat] at hlast
          rw [hy]
          exact ⟨y, by simp, hlast⟩
      obtain ⟨l₁, r, l₂, b, heq, hle, hfind, hrec⟩ := findBlock_eq l x none 0x200 {}
        hchain.links hchain.maximal hex (by have := hchain.length_le; simp at this; omega)
      rw [hchain.head x rfl, hfind, Except.ok_bind]
      rw [heq] at hchain hl
      rw [Option.or_none] at hrec
      have hr := hchain.maximal r (by simp)
      have hrle := hr.le
      obtain ⟨block, pdt₁, table₁, hprior, hrun, hhint, herase, hchain₁, hs₁, hu₁⟩ :=
        hchain.detach hrec
      have hself : block.self = r.self := congrArg Run.self hrun
      have hsize : block.size = r.size := congrArg Run.size hrun
      have hc : ∀ i ∈ Run.mk (block.self + block.size - count) count, i ∈ r := by
        intro i hi
        simp only [Run.mem_iff] at hi ⊢
        lia
      have hpos : 0 < (Run.mk (block.self + block.size - count) count).size :=
        Nat.pos_of_ne_zero hcount
      have hr₁ := hr.sameMap hs₁
      have hnew := hchain.not_mem
      obtain ⟨left, hleft⟩ : ∃ left, { block with size := block.size - count } = left :=
        ⟨_, rfl⟩
      have hlrun : left.run = ⟨r.self, block.self + block.size - count - r.self⟩ := by
        rw [← hleft]
        simp only [BLOCK.run, hself, Run.mk.injEq, true_and]
        lia
      have hlhint : Hinted l₁ l₂ left := by
        rw [← hleft]
        exact ⟨hhint.next_valid, hhint.next_eq, hhint.prev_valid, hhint.prev_eq⟩
      obtain ⟨pdt₂, table₂, l', hins, hchain₂, hmem, hs₂, hu₂⟩ :=
        (hchain₁.edit_reserved hr₁ hnew hc).insert_mem
          (hchain₁.part_reserved hr₁ hnew hc hpos (.inl hlrun)) (.inl hlhint)
      have hed : Edited PTE.reserved ⟨block.self + block.size - count, count⟩ table table₂ :=
        ((Table.edited_edit _ _ _).of_sameMap PTE.untagged_reserved hs₁).trans_sameMap hs₂
      refine ⟨block.self + block.size - count, pdt₂, table₂, ?_, by lia, by lia, ?_,
        fun i hi => hr.free i (hc i hi), hed, hu₂.trans hu₁⟩
      · rw [hprior, Except.ok_bind, herase]
        simp only [Except.ok_bind]
        rw [assert_eq_ok (fun _ => by lia), Except.ok_bind,
          preserveRange_eq (fun _ i hi => hr₁.free i (hc i hi)), Except.ok_bind, hleft, hins]
        rfl
      · apply hchain₂.wellFormed
        intro i hi hfi
        rcases free_edit_reserved (r := r) hl hed hi hfi with ⟨y, hy, hyr, hiy⟩ | hi₁ | hi₂
        · refine ⟨y, (hmem y).mpr (.inl ?_), hiy⟩
          apply (List.mem_cons.mp (List.perm_middle.subset hy)).resolve_left hyr
        · refine ⟨_, (hmem _).mpr (.inr ⟨?_, hlrun.symm⟩), hi₁⟩
          rw [← hleft]
          simp only [Run.mem_iff] at hi₁ ⊢
          lia
        · simp only [Run.mem_iff] at hi₂
          lia

end Reserving

/-! ### Releasing -/

section Releasing

variable {debug locked : Bool} {pdt : PDTE} {table : Table} {l : List Run} {r c : Run}

/-- The entries of `c` with the free runs next to them. -/
structure Joined (table : Table) (c j : Run) : Prop where
  le_self : j.self ≤ c.self
  le_end : c.self + c.size ≤ j.self + j.size
  le : j.self + j.size ≤ 0x200
  free : ∀ i ∈ j, i ∉ c → (table i).isFree = true
  before : j.self ≠ 0 → (table (j.self - 1)).isFree = false
  after : j.self + j.size ≠ 0x200 → (table (j.self + j.size)).isFree = false

/-- The run that is there after the entries have been released is maximal. -/
theorem Joined.maximal {j : Run} (h : Joined table c j) (hpos : 0 < c.size)
    (hc : ∀ i ∈ c, (table i).Releasable) {table' : Table}
    (hed : Edited PTE.released c table table') :
  MaximalRun table' j
  := by
  have h₁ := h.le_self
  have h₂ := h.le_end
  constructor
  · lia
  · apply h.le
  · intro i hi
    by_cases hic : i ∈ c
    · rw [hed.isFree_of_mem hic]
      apply (hc i hic).isFree_released
    · rw [hed.isFree_of_not_mem hic]
      apply h.free i hi hic
  · intro h0
    rw [hed.isFree_of_not_mem (by rw [Run.mem_iff]; lia)]
    apply h.before h0
  · intro h0
    rw [hed.isFree_of_not_mem (by rw [Run.mem_iff]; omega)]
    apply h.after h0

/-- On each side, the joined run ends with the range or with the run next to the range. -/
theorem Joined.of_sides {j : Run} (hle : c.self + c.size ≤ 0x200)
    (hbefore : (∃ x, MaximalRun table x ∧ x.self = j.self ∧ x.self + x.size = c.self) ∨
      j.self = c.self ∧ (c.self ≠ 0 → (table (c.self - 1)).isFree = false))
    (hafter : (∃ x, MaximalRun table x ∧ x.self = c.self + c.size ∧
        x.self + x.size = j.self + j.size) ∨
      j.self + j.size = c.self + c.size ∧
        (c.self + c.size ≠ 0x200 → (table (c.self + c.size)).isFree = false)) :
  Joined table c j
  := by
  have h₁ : j.self ≤ c.self := by
    rcases hbefore with ⟨x, -, hs, he⟩ | ⟨hs, -⟩
    · lia
    · omega
  have h₂ : c.self + c.size ≤ j.self + j.size := by
    rcases hafter with ⟨x, -, hs, he⟩ | ⟨hs, -⟩
    · lia
    · omega
  constructor
  · apply h₁
  · apply h₂
  · rcases hafter with ⟨x, hx, hs, he⟩ | ⟨hs, -⟩
    · have := hx.le
      lia
    · omega
  · intro i hij hic
    rw [Run.mem_iff] at hij hic
    by_cases hlt : i < c.self
    · rcases hbefore with ⟨x, hx, hs, he⟩ | ⟨hs, -⟩
      · apply hx.free
        rw [Run.mem_iff]
        lia
      · omega
    · rcases hafter with ⟨x, hx, hs, he⟩ | ⟨hs, -⟩
      · apply hx.free
        rw [Run.mem_iff]
        lia
      · lia
  · intro h0
    rcases hbefore with ⟨x, hx, hs, he⟩ | ⟨hs, hn⟩
    · rw [← hs] at h0 ⊢
      apply hx.before h0
    · rw [hs] at h0 ⊢
      apply hn h0
  · intro h0
    rcases hafter with ⟨x, hx, hs, he⟩ | ⟨hs, hn⟩
    · rw [← he] at h0 ⊢
      apply hx.after h0
    · rw [hs] at h0 ⊢
      apply hn h0

/-- A run ends where the range starts, or starts where the range ends. -/
def Adjacent (x c : Run) : Prop := x.self + x.size = c.self ∨ x.self = c.self + c.size

/-- A maximal run next to the range is part of the joined run. -/
theorem Joined.subset {j x : Run} (h : Joined table c j) (hx : MaximalRun table x)
    (hadj : Adjacent x c) {i : ℕ} (hix : i ∈ x) :
  i ∈ j
  := by
  have h₁ := h.le_self
  have h₂ := h.le_end
  have hle := hx.le
  rw [Run.mem_iff] at hix ⊢
  rcases hadj with hadj | hadj
  · refine ⟨?_, by lia⟩
    by_contra hlt
    have hbefore := h.before (by omega)
    rw [hx.free (j.self - 1) (by rw [Run.mem_iff]; lia)] at hbefore
    cases hbefore
  · refine ⟨by lia, ?_⟩
    by_contra hlt
    have hafter := h.after (by lia)
    rw [hx.free (j.self + j.size) (by rw [Run.mem_iff]; lia)] at hafter
    cases hafter

/-- A free entry before one that is not free is the last one of its run. -/
theorem MaximalRun.exists_end {i : ℕ} (hi : i < 0x200) (hfree : (table i).isFree = true)
    (hnot : (table (i + 1)).isFree = false) :
  ∃ x, MaximalRun table x ∧ x.self + x.size = i + 1 ∧ i ∈ x
  := by
  obtain ⟨x, hx, hix⟩ := exists_of_free hi hfree
  refine ⟨x, hx, ?_, hix⟩
  by_contra hne
  have := hx.free (i + 1) (by rw [Run.mem_iff] at hix ⊢; lia)
  rw [hnot] at this
  cases this

/-- A free entry after one that is not free is the first one of its run. -/
theorem MaximalRun.exists_start {i : ℕ} (hi : i < 0x200) (hfree : (table i).isFree = true)
    (hnot : (table (i - 1)).isFree = false) :
  ∃ x, MaximalRun table x ∧ x.self = i
  := by
  obtain ⟨x, hx, hix⟩ := exists_of_free hi hfree
  use x, hx
  by_contra hne
  have := hx.free (i - 1) (by rw [Run.mem_iff] at hix ⊢; lia)
  rw [hnot] at this
  cases this

/-- The runs that end at the same entry are equal. -/
theorem MaximalRun.eq_of_end {x y : Run} (hx : MaximalRun table x) (hy : MaximalRun table y)
    (heq : x.self + x.size = y.self + y.size) :
  x = y
  := by
  have hx₀ := hx.pos
  have hy₀ := hy.pos
  apply hx.eq_of_mem hy (i := x.self + x.size - 1)
  · rw [Run.mem_iff]
    lia
  · rw [Run.mem_iff]
    lia

/-- The runs left in a list from which one has been taken out. -/
theorem FreeChain.mem_detach {l₁ l₂ : List Run} (h : FreeChain debug pdt table (l₁ ++ r :: l₂))
    (x : Run) :
  x ∈ l₁ ++ l₂ ↔ x ∈ l₁ ++ r :: l₂ ∧ x ≠ r
  := by
  constructor
  · intro hx
    constructor
    · simp only [List.mem_append, List.mem_cons] at hx ⊢
      tauto
    · rintro rfl
      apply h.not_mem hx
  · rintro ⟨hx, hne⟩
    apply (List.mem_cons.mp (List.perm_middle.subset hx)).resolve_left hne

/-- What is there after the neighbours of a range were taken out of the list: a block that
joins them with the range, and a list of the other runs. -/
structure Detached (debug : Bool) (pdt : PDTE) (table : Table) (l : List Run) (c : Run)
    (pdt' : PDTE) (table' : Table) (block : BLOCK) (l₁ l₂ : List Run) : Prop where
  chain : FreeChain debug pdt' table' (l₁ ++ l₂)
  same : SameMap table table'
  unlisted : pdt'.unlisted = pdt.unlisted
  joined : Joined table c block.run
  hinted : Hinted l₁ l₂ block ∨ block.prevValid = false ∧ block.nextValid = false
  mem : ∀ x, x ∈ l₁ ++ l₂ ↔ x ∈ l ∧ ¬ Adjacent x c

section Neighbours

variable {index count : ℕ} {x y : Run}

/-- The entry before the end of a run is free. -/
theorem MaximalRun.free_before_end (hx : MaximalRun table x) (hxe : x.self + x.size = index) :
  index ≠ 0 ∧ (table (index - 1)).isFree = true
  := by
  have hpos := hx.pos
  refine ⟨by lia, hx.free _ ?_⟩
  rw [Run.mem_iff]
  lia

/-- The entry at the start of a run is free. -/
theorem MaximalRun.free_at_start (hy : MaximalRun table y) (hys : y.self = index) :
  index < 0x200 ∧ (table index).isFree = true
  := by
  rw [← hys]
  exact ⟨hy.self_lt, hy.free _ hy.self_mem⟩

/-- Both neighbours of the range are taken out of the list. The one after the range goes
first. -/
theorem eraseNeighbours_both (h : FreeChain debug pdt table l)
    (hl : ∀ z, MaximalRun table z → z ∈ l) (hle : index + count ≤ 0x200)
    (hx : MaximalRun table x) (hxe : x.self + x.size = index)
    (hx2 : debug = true → index - 1 = x.self + 2 → x.size = 4)
    (hy : MaximalRun table y) (hys : y.self = index + count) :
  ∃ pdt' table' block l₁ l₂,
    eraseNeighbours debug pdt table index count = .ok (pdt', table', block) ∧
    Detached debug pdt table l ⟨index, count⟩ pdt' table' block l₁ l₂
  := by
  have hpos := hx.pos
  have hxi : index - 1 ∈ x := by
    rw [Run.mem_iff]
    lia
  rw [eraseNeighbours, if_pos (hx.free_before_end hxe), if_pos (hy.free_at_start hys), ← hys]
  obtain ⟨k₁, k₂, rfl⟩ := List.append_of_mem (hl y hy)
  obtain ⟨b₁, hget₁, hrec₁⟩ := h.records.get_self hy {}
  obtain ⟨block₁, pdt₁, table₁, hprior₁, hrun₁, -, herase₁, hchain₁, hs₁, hu₁⟩ := h.detach hrec₁
  have hmem₁ := h.mem_detach
  have hxy : x ≠ y := by
    rintro rfl
    lia
  obtain ⟨l₁, l₂, heq⟩ := List.append_of_mem ((hmem₁ x).mpr ⟨hl x hx, hxy⟩)
  rw [heq] at hchain₁ hmem₁
  obtain ⟨b₂, hget₂, hrec₂⟩ := hchain₁.records (index - 1) hxi hx2 block₁
  obtain ⟨block₂, pdt₂, table₂, hprior₂, hrun₂, hhint, herase₂, hchain₂, hs₂, hu₂⟩ :=
    hchain₁.detach hrec₂
  have hsize₁ : block₁.size = y.size := congrArg Run.size hrun₁
  have hself₂ : block₂.self = x.self := congrArg Run.self hrun₂
  have hsize₂ : block₂.size = x.size := congrArg Run.size hrun₂
  refine ⟨pdt₂, table₂, { block₂ with size := block₂.size + (block₁.size + count) }, l₁, l₂,
    ?_, ?_⟩
  · simp only [hget₁, hprior₁, herase₁, hget₂, hprior₂, herase₂, Except.ok_bind]
    rfl
  · constructor
    · apply hchain₂
    · apply hs₁.trans hs₂
    · apply hu₂.trans hu₁
    · apply Joined.of_sides hle
      · exact .inl ⟨x, hx, hself₂.symm, hxe⟩
      · refine .inl ⟨y, hy, hys, ?_⟩
        simp only [BLOCK.run]
        lia
    · exact .inl ⟨hhint.next_valid, hhint.next_eq, hhint.prev_valid, hhint.prev_eq⟩
    · intro z
      rw [hchain₁.mem_detach, hmem₁, and_assoc]
      apply and_congr_right
      intro hz
      have hzmax := h.maximal z hz
      rw [← not_or, not_iff_not]
      constructor
      · rintro (rfl | rfl)
        · exact .inr hys
        · exact .inl hxe
      · rintro (hadj | hadj)
        · exact .inr (hzmax.eq_of_end hx (hadj.trans hxe.symm))
        · exact .inl (hzmax.eq_of_self hy (hadj.trans hys.symm))

/-- Only the run before the range is taken out of the list. -/
theorem eraseNeighbours_before (h : FreeChain debug pdt table l)
    (hl : ∀ z, MaximalRun table z → z ∈ l) (hle : index + count ≤ 0x200)
    (hx : MaximalRun table x) (hxe : x.self + x.size = index)
    (hx2 : debug = true → index - 1 = x.self + 2 → x.size = 4)
    (ha : ¬ (index + count < 0x200 ∧ (table (index + count)).isFree = true)) :
  ∃ pdt' table' block l₁ l₂,
    eraseNeighbours debug pdt table index count = .ok (pdt', table', block) ∧
    Detached debug pdt table l ⟨index, count⟩ pdt' table' block l₁ l₂
  := by
  have hpos := hx.pos
  have hxi : index - 1 ∈ x := by
    rw [Run.mem_iff]
    lia
  rw [eraseNeighbours, if_pos (hx.free_before_end hxe), if_neg ha]
  obtain ⟨l₁, l₂, rfl⟩ := List.append_of_mem (hl x hx)
  obtain ⟨b₁, hget₁, hrec₁⟩ := h.records (index - 1) hxi hx2 {}
  obtain ⟨block₁, pdt₁, table₁, hprior₁, hrun₁, hhint, herase₁, hchain₁, hs₁, hu₁⟩ :=
    h.detach hrec₁
  have hself₁ : block₁.self = x.self := congrArg Run.self hrun₁
  have hsize₁ : block₁.size = x.size := congrArg Run.size hrun₁
  refine ⟨pdt₁, table₁, { block₁ with size := block₁.size + count }, l₁, l₂, ?_, ?_⟩
  · simp only [hget₁, hprior₁, herase₁, Except.ok_bind]
    rfl
  · constructor
    · apply hchain₁
    · apply hs₁
    · apply hu₁
    · apply Joined.of_sides hle
      · exact .inl ⟨x, hx, hself₁.symm, hxe⟩
      · refine .inr ⟨?_, fun hne => ?_⟩
        · simp only [BLOCK.run]
          lia
        · rw [← Bool.not_eq_true]
          intro hfree
          exact ha ⟨by lia, hfree⟩
    · exact .inl ⟨hhint.next_valid, hhint.next_eq, hhint.prev_valid, hhint.prev_eq⟩
    · intro z
      rw [h.mem_detach]
      apply and_congr_right
      intro hz
      have hzmax := h.maximal z hz
      rw [not_iff_not]
      constructor
      · rintro rfl
        exact .inl hxe
      · rintro (hadj | hadj)
        · apply hzmax.eq_of_end hx (hadj.trans hxe.symm)
        · apply absurd (hzmax.free_at_start hadj) ha

/-- Only the run after the range is taken out of the list. -/
theorem eraseNeighbours_behind (h : FreeChain debug pdt table l)
    (hl : ∀ z, MaximalRun table z → z ∈ l) (hle : index + count ≤ 0x200)
    (hp : ¬ (index ≠ 0 ∧ (table (index - 1)).isFree = true))
    (hy : MaximalRun table y) (hys : y.self = index + count) :
  ∃ pdt' table' block l₁ l₂,
    eraseNeighbours debug pdt table index count = .ok (pdt', table', block) ∧
    Detached debug pdt table l ⟨index, count⟩ pdt' table' block l₁ l₂
  := by
  rw [eraseNeighbours, if_neg hp, if_pos (hy.free_at_start hys), ← hys]
  obtain ⟨l₁, l₂, rfl⟩ := List.append_of_mem (hl y hy)
  obtain ⟨b₁, hget₁, hrec₁⟩ := h.records.get_self hy {}
  obtain ⟨block₁, pdt₁, table₁, hprior₁, hrun₁, hhint, herase₁, hchain₁, hs₁, hu₁⟩ :=
    h.detach hrec₁
  have hsize₁ : block₁.size = y.size := congrArg Run.size hrun₁
  refine ⟨pdt₁, table₁, { block₁ with self := index, size := count + block₁.size }, l₁, l₂,
    ?_, ?_⟩
  · simp only [hget₁, hprior₁, herase₁, Except.ok_bind]
    rfl
  · constructor
    · apply hchain₁
    · apply hs₁
    · apply hu₁
    · apply Joined.of_sides hle
      · refine .inr ⟨rfl, fun hne => ?_⟩
        rw [← Bool.not_eq_true]
        intro hfree
        exact hp ⟨hne, hfree⟩
      · refine .inl ⟨y, hy, hys, ?_⟩
        simp only [BLOCK.run]
        lia
    · exact .inl ⟨hhint.next_valid, hhint.next_eq, hhint.prev_valid, hhint.prev_eq⟩
    · intro z
      rw [h.mem_detach]
      apply and_congr_right
      intro hz
      have hzmax := h.maximal z hz
      rw [not_iff_not]
      constructor
      · rintro rfl
        exact .inr hys
      · rintro (hadj | hadj)
        · apply absurd (hzmax.free_before_end hadj) hp
        · apply hzmax.eq_of_self hy (hadj.trans hys.symm)

/-- The range has no neighbours, and the list stays as it is. -/
theorem eraseNeighbours_neither (h : FreeChain debug pdt table l) (hle : index + count ≤ 0x200)
    (hp : ¬ (index ≠ 0 ∧ (table (index - 1)).isFree = true))
    (ha : ¬ (index + count < 0x200 ∧ (table (index + count)).isFree = true)) :
  eraseNeighbours debug pdt table index count
    = .ok (pdt, table, { self := index, size := count }) ∧
    Detached debug pdt table l ⟨index, count⟩ pdt table { self := index, size := count } [] l
  := by
  rw [eraseNeighbours, if_neg hp, if_neg ha]
  use rfl
  constructor
  · apply h
  · apply SameMap.refl
  · rfl
  · apply Joined.of_sides hle
    · refine .inr ⟨rfl, fun hne => ?_⟩
      rw [← Bool.not_eq_true]
      intro hfree
      exact hp ⟨hne, hfree⟩
    · refine .inr ⟨rfl, fun hne => ?_⟩
      rw [← Bool.not_eq_true]
      intro hfree
      exact ha ⟨lt_of_le_of_ne hle hne, hfree⟩
  · exact .inr ⟨rfl, rfl⟩
  · intro z
    rw [List.nil_append]
    constructor
    · intro hz
      use hz
      rintro (hadj | hadj)
      · apply hp ((h.maximal z hz).free_before_end hadj)
      · apply ha ((h.maximal z hz).free_at_start hadj)
    · apply And.left

/-- `imp_release` takes the neighbours of the range out of the list. In a debug build the run
before the range must not have three entries. -/
theorem eraseNeighbours_eq (h : FreeChain debug pdt table l)
    (hl : ∀ x, MaximalRun table x → x ∈ l) (hcount : count ≠ 0) (hle : index + count ≤ 0x200)
    (hc : ∀ i ∈ Run.mk index count, (table i).isFree = false)
    (h3 : debug = true → ∀ x, MaximalRun table x → x.self + x.size = index → x.size ≠ 3) :
  ∃ pdt' table' block l₁ l₂,
    eraseNeighbours debug pdt table index count = .ok (pdt', table', block) ∧
    Detached debug pdt table l ⟨index, count⟩ pdt' table' block l₁ l₂
  := by
  have hfirst := hc index (by simp only [Run.mem_iff]; omega)
  have hlast := hc (index + count - 1) (by simp only [Run.mem_iff]; lia)
  -- the run before the range, and how it is read
  have hprior : index ≠ 0 ∧ (table (index - 1)).isFree = true →
      ∃ x, MaximalRun table x ∧ x.self + x.size = index ∧
        (debug = true → index - 1 = x.self + 2 → x.size = 4) := by
    rintro ⟨h0, hfree⟩
    obtain ⟨x, hx, hxe, -⟩ := MaximalRun.exists_end (by lia) hfree
      (by rwa [show index - 1 + 1 = index by lia])
    refine ⟨x, hx, by lia, ?_⟩
    intro hd h2
    have := h3 hd x hx (by lia)
    lia
  by_cases hp : index ≠ 0 ∧ (table (index - 1)).isFree = true
  · obtain ⟨x, hx, hxe, hx2⟩ := hprior hp
    by_cases ha : index + count < 0x200 ∧ (table (index + count)).isFree = true
    · obtain ⟨y, hy, hys⟩ := MaximalRun.exists_start ha.1 ha.2 hlast
      apply eraseNeighbours_both h hl hle hx hxe hx2 hy hys
    · apply eraseNeighbours_before h hl hle hx hxe hx2 ha
  · by_cases ha : index + count < 0x200 ∧ (table (index + count)).isFree = true
    · obtain ⟨y, hy, hys⟩ := MaximalRun.exists_start ha.1 ha.2 hlast
      apply eraseNeighbours_behind h hl hle hp hy hys
    · exact ⟨_, _, _, _, _, eraseNeighbours_neither h hle hp ha⟩

end Neighbours

/-- Releasing a range leaves the runs in the list that are not next to it. -/
theorem Detached.edit_released {pdt' : PDTE} {table' : Table} {block : BLOCK}
    {l₁ l₂ : List Run} (h : Detached debug pdt table l c pdt' table' block l₁ l₂)
    (hc : ∀ i ∈ c, (table i).isFree = false) :
  FreeChain debug pdt' (table'.edit PTE.released c) (l₁ ++ l₂)
  := by
  have hed := Table.edited_edit PTE.released c table'
  have hout : ∀ x ∈ l₁ ++ l₂, ∀ i ∈ x, i ∉ c := by
    intro x hx i hi hic
    have := (h.chain.maximal x hx).free i hi
    rw [h.same.isFree, hc i hic] at this
    cases this
  apply h.chain.congr
  · intro x hx i hi
    apply Table.edit_of_not_mem (hout x hx i hi)
  · intro x hx
    have hmax := h.chain.maximal x hx
    have hadj := ((h.mem x).mp hx).2
    have hpos := hmax.pos
    have hself := hout x hx x.self hmax.self_mem
    have hlast := hout x hx (x.self + x.size - 1) (by rw [Run.mem_iff]; lia)
    rw [Adjacent, not_or] at hadj
    rw [Run.mem_iff] at hself hlast
    apply hmax.of_isFree
    · intro i hi
      rw [hed.isFree_of_not_mem (hout x hx i hi), hmax.free i hi]
    · intro hne
      rw [hed.isFree_of_not_mem (by rw [Run.mem_iff]; lia)]
      apply hmax.before hne
    · intro hne
      rw [hed.isFree_of_not_mem (by rw [Run.mem_iff]; lia)]
      apply hmax.after hne

/-- `imp_release` releases a range of entries that can be released. Returns the frames that
were mapped. -/
theorem impRelease_eq (h : WellFormed debug pdt table) {baseAddr index count : ℕ}
    (hindex : baseAddr / 0x1000 % 0x200 = index) (hcount : count ≠ 0)
    (hle : index + count ≤ 0x200) (hc : ∀ i ∈ Run.mk index count, (table i).Releasable)
    (hlocked : debug = true → locked = true)
    (hpdt : debug = true → pdt.present = true ∧ pdt.bypass = false)
    (hbypass : debug = true → ∀ i ∈ Run.mk index count, (table i).bypass = false)
    (h3 : debug = true → ∀ x, MaximalRun table x → x.self + x.size = index → x.size ≠ 3)
    (haddr : debug = true → baseAddr ≠ 0) :
  ∃ pdt' table', impRelease debug locked pdt table baseAddr count
      = .ok (pdt', table',
        (List.range count).flatMap fun i => (table (index + i)).frame.toList) ∧
    WellFormed debug pdt' table' ∧ Edited PTE.released ⟨index, count⟩ table table' ∧
    pdt'.unlisted = pdt.unlisted
  := by
  obtain ⟨l, hchain, hl⟩ := h
  have hpos : 0 < (Run.mk index count).size := Nat.pos_of_ne_zero hcount
  have hnf : ∀ i ∈ Run.mk index count, (table i).isFree = false := fun i hi => (hc i hi).isFree
  obtain ⟨pdt₁, table₁, block, l₁, l₂, heq, hd⟩ := eraseNeighbours_eq hchain hl hcount hle hnf h3
  have hc₁ : ∀ i ∈ Run.mk index count, (table₁ i).Releasable := by
    intro i hi
    rw [← PTE.releasable_untagged, hd.same i, PTE.releasable_untagged]
    apply hc i hi
  have hbypass₁ : debug = true → ∀ i ∈ Run.mk index count, (table₁ i).bypass = false := by
    intro hdb i hi
    rw [← PTE.bypass_untagged, hd.same i, PTE.bypass_untagged]
    apply hbypass hdb i hi
  have hframes : ∀ i, (table₁ i).frame = (table i).frame := by
    intro i
    rw [← PTE.frame_untagged, hd.same i, PTE.frame_untagged]
  have hed₁ : Edited PTE.released ⟨index, count⟩ table (table₁.edit PTE.released ⟨index, count⟩) :=
    (Table.edited_edit _ _ _).of_sameMap PTE.untagged_released hd.same
  have hmax := hd.joined.maximal hpos hc hed₁
  have hnew : block.run ∉ l₁ ++ l₂ := by
    intro hmem
    have hj := hd.joined.le_self
    have hj' := hd.joined.le_end
    have hfree := (hd.chain.maximal _ hmem).free index (by
      rw [Run.mem_iff]
      simp only at hj hj' hpos
      lia)
    rw [hd.same.isFree, hnf index (by simp only [Run.mem_iff]; lia)] at hfree
    cases hfree
  obtain ⟨pdt₂, table₂, l', hins, hchain₂, hmem, hs₂, hu₂⟩ :=
    (hd.edit_released hnf).insert_mem (fun _ => ⟨hmax, hnew⟩) hd.hinted
  have hed := hed₁.trans_sameMap hs₂
  refine ⟨pdt₂, table₂, ?_, ?_, hed, hu₂.trans hd.unlisted⟩
  · rw [impRelease, assert_eq_ok hlocked, assert_eq_ok (fun hdb => ⟨hcount, haddr hdb⟩)]
    simp only [Except.ok_bind, hindex]
    rw [assert_eq_ok (fun _ => hle), assert_eq_ok hpdt]
    simp only [Except.ok_bind, heq]
    rw [releaseRange_eq hc₁ hbypass₁]
    simp only [Except.ok_bind, hins, hframes]
    rfl
  · have hin : block.run ∈ l' := (hmem _).mpr (.inr ⟨hmax.pos.ne', rfl⟩)
    apply hchain₂.wellFormed
    intro i hi hfi
    by_cases hic : i ∈ Run.mk index count
    · refine ⟨_, hin, ?_⟩
      have hj := hd.joined.le_self
      have hj' := hd.joined.le_end
      simp only [Run.mem_iff] at hic hj hj' ⊢
      lia
    · rw [hed.isFree_of_not_mem hic] at hfi
      obtain ⟨x, hx, hix⟩ := MaximalRun.exists_of_free hi hfi
      by_cases hadj : Adjacent x ⟨index, count⟩
      · exact ⟨_, hin, hd.joined.subset hx hadj hix⟩
      · exact ⟨x, (hmem x).mpr (.inl ((hd.mem x).mpr ⟨hl x hx, hadj⟩)), hix⟩

end Releasing

end UOS
