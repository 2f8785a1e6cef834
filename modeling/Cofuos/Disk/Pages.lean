import Cofuos.Disk.Cache

/-!
# The cache as its user sees it

A page of the disk is in at most one slot. A thread that has obtained the slot of a page sees the
sectors of that page, and knows which of them are valid and which are dirty. The definitions follow
`disk_interface::slot` and `disk_interface::get` of `kernel/dev/disk_interface.cpp`, with the masks of
all slots taken together.

While a thread does not hold a page, other threads may have it written to the disk, and may have its
slot used for another page.
-/

namespace UOS

namespace Disk

/-- The disk and the sectors of the pages that are in the cache. -/
structure Pages (σ : Type) where
  disk : ℕ → σ
  access : ℕ → σ
  valid : ℕ → Bool
  dirty : ℕ → Bool

namespace Pages

variable {σ : Type}

/-- `slot::flush`, for the slot of a page. -/
def flush (c : Pages σ) (page : ℕ) : Pages σ :=
  { c with
    disk := fun lba => if pageLba lba = page ∧ c.dirty lba = true then c.access lba else c.disk lba
    dirty := fun lba => c.dirty lba && decide (pageLba lba ≠ page) }

/-- The slot of a page is taken for another one. -/
def evict (c : Pages σ) (page : ℕ) : Pages σ :=
  { c.flush page with valid := fun lba => c.valid lba && decide (pageLba lba ≠ page) }

/-- `slot::reload` -/
def reload (c : Pages σ) (page : ℕ) : Pages σ :=
  { c.flush page with
    access := fun lba => if pageLba lba = page then (c.flush page).disk lba else c.access lba
    valid := fun lba => c.valid lba || decide (pageLba lba = page) }

/-- `slot::load` -/
def load (c : Pages σ) (lba : ℕ) : Pages σ :=
  if (List.range 8).all (fun i => c.valid (pageLba lba + i)) = true then c
  else c.reload (pageLba lba)

/-- `slot::store` -/
def store [Zero σ] (c : Pages σ) (lba count : ℕ) : Pages σ :=
  { c with
    access := fun l => if lba ≤ l ∧ l < lba + count then 0 else c.access l
    dirty := fun l => c.dirty l || decide (lba ≤ l ∧ l < lba + count)
    valid := fun l => c.valid l || decide (lba ≤ l ∧ l < lba + count) }

/-- `disk_interface::get` -/
def get [Zero σ] (c : Pages σ) (lba count : ℕ) (write : Bool) : Pages σ :=
  if write = true then c.store lba count else c.load lba

/-- `disk_interface::upgrade` -/
def upgrade (c : Pages σ) (lba count : ℕ) : Pages σ :=
  { c with dirty := fun l => c.dirty l || decide (lba ≤ l ∧ l < lba + count) }

/-- The sectors of a page from one on are changed. -/
def edit (c : Pages σ) (lba : ℕ) (data : ℕ → σ → σ) : Pages σ :=
  { c with
    access := fun l =>
      if lba ≤ l ∧ pageLba l = pageLba lba then data (l - lba) (c.access l) else c.access l }

/-- What other threads do to pages that are not held. -/
inductive Background (c : Pages σ) : Pages σ → Prop
  | refl : Background c c
  | flush {c' : Pages σ} (page : ℕ) : Background c c' → Background c (c'.flush page)
  | evict {c' : Pages σ} (page : ℕ) : Background c c' → Background c (c'.evict page)

/-- The sectors as they are on the disk after all slots have been flushed. -/
def settled (c : Pages σ) (lba : ℕ) : σ := if c.dirty lba = true then c.access lba else c.disk lba

/-- The sectors as they are found through the cache. -/
def view (c : Pages σ) (lba : ℕ) : σ := if c.valid lba = true then c.access lba else c.disk lba

/-- Sectors that are dirty are valid, and those that are valid and not dirty are as on the disk. -/
structure Clean (c : Pages σ) : Prop where
  valid : ∀ lba, c.dirty lba = true → c.valid lba = true
  clean : ∀ lba, c.valid lba = true → c.dirty lba = false → c.access lba = c.disk lba

variable {c c' : Pages σ} {lba page l count : ℕ}

/-! ### What is on the disk in the end -/

@[simp]
theorem settled_flush (c : Pages σ) (page : ℕ) : (c.flush page).settled = c.settled := by
  funext l
  simp only [settled, flush]
  by_cases hpage : pageLba l = page <;> by_cases hdirty : c.dirty l = true <;>
    simp [hpage, hdirty]

@[simp]
theorem settled_evict (c : Pages σ) (page : ℕ) : (c.evict page).settled = c.settled :=
  c.settled_flush page

@[simp]
theorem settled_reload (c : Pages σ) (page : ℕ) : (c.reload page).settled = c.settled := by
  rw [← c.settled_flush page]
  funext l
  simp only [settled, reload, flush]
  by_cases hpage : pageLba l = page <;> by_cases hdirty : c.dirty l = true <;>
    simp [hpage, hdirty]

@[simp]
theorem settled_load (c : Pages σ) (lba : ℕ) : (c.load lba).settled = c.settled := by
  rw [load]
  split_ifs
  · rfl
  · apply settled_reload

/-- What other threads do does not change what is on the disk in the end. -/
theorem Background.settled_eq (h : Background c c') : c'.settled = c.settled := by
  induction h with
  | refl => rfl
  | flush page _ ih => rw [settled_flush, ih]
  | evict page _ ih => rw [settled_evict, ih]

/-- After a flush a sector is found as before or as it will be on the disk in the end. -/
theorem view_flush (c : Pages σ) (page l : ℕ) :
  (c.flush page).view l = c.view l ∨ (c.flush page).view l = c.settled l
  := by
  simp only [view, settled, flush]
  by_cases hvalid : c.valid l = true <;> by_cases hdirty : c.dirty l = true <;>
    by_cases hpage : pageLba l = page <;> simp [hvalid, hdirty, hpage]

theorem view_evict (c : Pages σ) (page l : ℕ) :
  (c.evict page).view l = c.view l ∨ (c.evict page).view l = c.settled l
  := by
  simp only [view, settled, evict, flush]
  by_cases hvalid : c.valid l = true <;> by_cases hdirty : c.dirty l = true <;>
    by_cases hpage : pageLba l = page <;> simp [hvalid, hdirty, hpage]

/-- Whatever other threads do, a sector is found as before or as it will be on the disk in the
end. -/
theorem Background.view_eq_or (h : Background c c') (l : ℕ) :
  c'.view l = c.view l ∨ c'.view l = c.settled l
  := by
  induction h with
  | refl => exact .inl rfl
  | @flush c' page h ih =>
      rcases c'.view_flush page l with hview | hview
      · rwa [hview]
      · rw [hview, h.settled_eq]
        exact .inr rfl
  | @evict c' page h ih =>
      rcases c'.view_evict page l with hview | hview
      · rwa [hview]
      · rw [hview, h.settled_eq]
        exact .inr rfl

/-! ### The cache is clean -/

/-- A clean cache shows what is on the disk in the end. -/
theorem Clean.view_eq (h : c.Clean) : c.view = c.settled := by
  funext l
  rw [view, settled]
  by_cases hdirty : c.dirty l = true
  · rw [if_pos (h.valid l hdirty), if_pos hdirty]
  · rw [if_neg hdirty]
    split_ifs with hvalid
    · exact h.clean l hvalid (Bool.eq_false_iff.2 hdirty)
    · rfl

/-- The sectors of a clean cache that are valid are those that are on the disk in the end. -/
theorem Clean.access_eq (h : c.Clean) (hvalid : c.valid l = true) : c.access l = c.settled l := by
  rw [← h.view_eq, view, if_pos hvalid]

/-- A cache is clean if what is valid is as on the disk in the end. -/
theorem clean_of_access_eq (hvalid : ∀ l, c.dirty l = true → c.valid l = true)
    (h : ∀ l, c.valid l = true → c.access l = c.settled l) : c.Clean := by
  refine ⟨hvalid, ?_⟩
  intro l hl hdirty
  rw [h l hl, settled, if_neg (Bool.eq_false_iff.1 hdirty)]

theorem Clean.flush (h : c.Clean) (page : ℕ) : (c.flush page).Clean := by
  apply clean_of_access_eq
  · intro l hdirty
    apply h.valid
    simp only [Pages.flush, Bool.and_eq_true] at hdirty
    exact hdirty.1
  · intro l hvalid
    rw [settled_flush]
    exact h.access_eq hvalid

theorem Clean.evict (h : c.Clean) (page : ℕ) : (c.evict page).Clean := by
  apply clean_of_access_eq
  · intro l hdirty
    simp only [Pages.evict, Pages.flush, Bool.and_eq_true] at hdirty ⊢
    exact ⟨h.valid l hdirty.1, hdirty.2⟩
  · intro l hvalid
    rw [settled_evict]
    simp only [Pages.evict, Bool.and_eq_true] at hvalid
    exact h.access_eq hvalid.1

theorem Clean.background (h : c.Clean) (hb : Background c c') : c'.Clean := by
  induction hb with
  | refl => exact h
  | flush page _ ih => exact ih.flush page
  | evict page _ ih => exact ih.evict page

theorem Clean.load (h : c.Clean) (lba : ℕ) : (c.load lba).Clean := by
  rw [Pages.load]
  split_ifs
  · exact h
  · apply clean_of_access_eq
    · intro l hdirty
      simp only [reload, Pages.flush, Bool.and_eq_true, Bool.or_eq_true] at hdirty ⊢
      exact .inl (h.valid l hdirty.1)
    · intro l hvalid
      rw [settled_reload]
      by_cases hpage : pageLba l = pageLba lba
      · rw [← settled_flush c (pageLba lba), settled, if_neg]
        · simp only [reload, if_pos hpage]
        · simp [Pages.flush, hpage]
      · simp only [reload, Bool.or_eq_true, decide_eq_true_eq, hpage, or_false] at hvalid
        simp only [reload, if_neg hpage]
        exact h.access_eq hvalid

/-- All sectors of a page that has been loaded are valid. -/
theorem valid_load (hpage : pageLba l = pageLba lba) : (c.load lba).valid l = true := by
  rw [load]
  split_ifs with hall
  · have hl : pageLba lba + (l - pageLba lba) = l := by
      rw [← hpage, pageLba]
      lia
    rw [List.all_eq_true] at hall
    rw [← hl]
    apply hall
    rw [List.mem_range, ← hpage, pageLba]
    lia
  · simp [reload, hpage]

end Pages

end Disk

end UOS
