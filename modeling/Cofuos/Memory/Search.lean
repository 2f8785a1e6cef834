import Cofuos.Memory.Requests

/-!
# Entering tables

A search for room enters directories and tables, which it creates when they are not present, and
reserves pages in them. What it does to the pages needs less of a space than its invariant: only the
tables in which pages are reserved are well formed. So it is known of the space of the kernel as well.
-/

namespace UOS

open Fault

namespace Vspace

variable {debug : Bool} {vs vs' vs'' : Vspace} {t q n : ℕ} {c : Run}

/-- The tables in which pages may be reserved are well formed. -/
def Orderly (debug : Bool) (vs : Vspace) : Prop :=
  ∀ t, vs.hasTable t = true → vs.bypassed t = false → WellFormed debug (vs.pdt t) (vs.pt t)

theorem Inv.orderly (h : Inv debug vs) : Orderly debug vs := fun t ht _ => h.table t ht

/-- The pages are as they were. -/
structure Same (debug : Bool) (vs vs' : Vspace) : Prop where
  orderly : Orderly debug vs'
  bypassed : vs'.bypassed = vs.bypassed
  locked : vs'.locked = vs.locked
  entry : vs'.entry = vs.entry
  grown : Inv debug vs → Grown debug vs vs'

/-- The pages of `c` were vacant and are reserved. Other pages are as they were. -/
structure Took (debug : Bool) (vs vs' : Vspace) (c : Run) : Prop where
  orderly : Orderly debug vs'
  bypassed : vs'.bypassed = vs.bypassed
  locked : vs'.locked = vs.locked
  vacant : ∀ p ∈ c, vs.Vacant p
  entry : ∀ p, vs'.entry p = if p ∈ c then (vs.entry p).reserved else vs.entry p
  reserved : Inv debug vs → Reserved debug vs vs' c

theorem Grown.reserved (h : Grown debug vs vs') (h' : Reserved debug vs' vs'' c) :
  Reserved debug vs vs'' c
  := by
  refine ⟨h'.inv, h'.bypassed.trans h.bypassed, h'.locked.trans h.locked,
    h.refusals.trans h'.refusals, ?_, ?_, h.balance.trans h'.balance⟩
  · intro p hp
    rw [← h.vacant_iff]
    apply h'.vacant p hp
  · intro p
    rw [h'.entry, h.entry]

namespace Same

theorem refl (h : Orderly debug vs) : Same debug vs vs := ⟨h, rfl, rfl, rfl, Grown.refl⟩

theorem trans (h : Same debug vs vs') (h' : Same debug vs' vs'') : Same debug vs vs'' :=
  ⟨h'.orderly, h'.bypassed.trans h.bypassed, h'.locked.trans h.locked, h'.entry.trans h.entry,
    fun hinv => (h.grown hinv).trans (h'.grown (h.grown hinv).inv)⟩

theorem vacant_iff (h : Same debug vs vs') (p : ℕ) : vs'.Vacant p ↔ vs.Vacant p := by
  rw [Vacant, Vacant, h.entry, h.bypassed]

theorem took (h : Same debug vs vs') (h' : Took debug vs' vs'' c) : Took debug vs vs'' c := by
  refine ⟨h'.orderly, h'.bypassed.trans h.bypassed, h'.locked.trans h.locked, ?_, ?_,
    fun hinv => (h.grown hinv).reserved (h'.reserved (h.grown hinv).inv)⟩
  · intro p hp
    rw [← h.vacant_iff]
    apply h'.vacant p hp
  · intro p
    rw [h'.entry, h.entry]

end Same

namespace Took

/-- Nothing is taken. -/
theorem nil (h : Orderly debug vs) (q : ℕ) : Took debug vs vs ⟨q, 0⟩ := by
  have hnot : ∀ p, p ∉ Run.mk q 0 := by
    intro p hp
    simp only [Run.mem_iff] at hp
    omega
  refine ⟨h, rfl, rfl, ?_, ?_, fun hinv => Reserved.of_grown (Grown.refl hinv) q⟩
  · intro p hp
    exact absurd hp (hnot p)
  · intro p
    rw [if_neg (hnot p)]

/-- The first page is not taken in a space where it is not vacant. -/
theorem ne_zero (h : Took debug vs vs' ⟨q, n⟩) (hzero : ¬ vs.Vacant 0) (hn : n ≠ 0) : q ≠ 0 := by
  intro hself
  apply hzero
  apply h.vacant 0
  rw [Run.mem_iff]
  simp only
  lia

/-- Where no pages are taken does not matter. -/
theorem move (h : Took debug vs vs' ⟨q, 0⟩) (q' : ℕ) : Took debug vs vs' ⟨q', 0⟩ := by
  have hiff : ∀ p, p ∈ Run.mk q' 0 ↔ p ∈ Run.mk q 0 := by
    intro p
    simp only [Run.mem_iff]
    omega
  refine ⟨h.orderly, h.bypassed, h.locked, ?_, ?_, ?_⟩
  · intro p hp
    apply h.vacant p ((hiff p).mp hp)
  · intro p
    rw [h.entry p, if_congr (hiff p) rfl rfl]
  · intro hinv
    have hres := h.reserved hinv
    refine ⟨hres.inv, hres.bypassed, hres.locked, hres.refusals, ?_, ?_, hres.balance⟩
    · intro p hp
      apply hres.vacant p ((hiff p).mp hp)
    · intro p
      rw [hres.entry p, if_congr (hiff p) rfl rfl]

/-- Adjacent ranges are taken one after the other. -/
theorem trans {m : ℕ} (h : Took debug vs vs' ⟨q, n⟩) (h' : Took debug vs' vs'' ⟨q + n, m⟩) :
  Took debug vs vs'' ⟨q, n + m⟩
  := by
  refine ⟨h'.orderly, h'.bypassed.trans h.bypassed, h'.locked.trans h.locked, ?_, ?_,
    fun hinv => (h.reserved hinv).trans (h'.reserved (h.reserved hinv).inv)⟩
  · intro p hp
    by_cases hfirst : p ∈ Run.mk q n
    · apply h.vacant p hfirst
    · have hv := h'.vacant p (by simp only [Run.mem_iff] at hp hfirst ⊢; omega)
      rw [Vacant, h.entry, if_neg hfirst, h.bypassed] at hv
      exact hv
  · intro p
    rw [h'.entry, h.entry]
    simp only [Run.mem_iff]
    split_ifs <;> first | rfl | lia

end Took

/-! ### New directories and tables -/

/-- A new directory has no tables. -/
theorem same_withPdt (h : Orderly debug vs) {i f : ℕ} {pm : FramePool}
    (hi : (vs.pdpt i).present = false) (hgrown : Inv debug vs → Grown debug vs (vs.withPdt i f pm)) :
  Same debug vs (vs.withPdt i f pm)
  := by
  have hhas : (vs.withPdt i f pm).hasTable = vs.hasTable := by
    funext t
    by_cases ht : t / 0x200 = i
    · simp only [hasTable, ht, hi]
      simp [withPdt, ht]
    · simp only [hasTable, withPdt, if_neg ht, Function.update_of_ne ht]
  have hby : (vs.withPdt i f pm).bypassed = vs.bypassed := by
    funext t
    by_cases ht : t / 0x200 = i
    · simp only [bypassed, ht, hi]
      simp [withPdt, ht]
    · simp only [bypassed, withPdt, if_neg ht, Function.update_of_ne ht]
  refine ⟨?_, hby, rfl, ?_, hgrown⟩
  · intro t ht hb
    rw [hhas] at ht
    rw [hby] at hb
    have hne : t / 0x200 ≠ i := by
      rintro rfl
      rw [hasTable, hi, Bool.false_and] at ht
      cases ht
    simp only [withPdt, if_neg hne]
    apply h t ht hb
  · funext p
    rw [entry, entry, hhas]
    rfl

/-- A new table has free entries only. -/
theorem same_withPt (pm : FramePool) (h : Orderly debug vs) {pdt : PDTE} {table : Table}
    (hdir : (vs.pdpt (t / 0x200)).present = true) (ht : (vs.pdt t).present = false)
    (hb : (vs.pdt t).bypass = false) (hw : WellFormed debug pdt table)
    (hnew : ∀ i, (table i).untagged = {}) (hpresent : pdt.present = true)
    (hbypass : pdt.bypass = false)
    (hgrown : Inv debug vs → Grown debug vs (vs.withPt t pdt table pm)) :
  Same debug vs (vs.withPt t pdt table pm) ∧ (vs.withPt t pdt table pm).hasTable t = true
  := by
  have hhas : ∀ t', t' ≠ t → (vs.withPt t pdt table pm).hasTable t' = vs.hasTable t' := by
    intro t' hne
    simp only [hasTable, withPt, setTable, Function.update_of_ne hne]
  have hhas' : (vs.withPt t pdt table pm).hasTable t = true := by
    simp only [hasTable, withPt, setTable, Function.update_self, hdir, hpresent, Bool.and_self]
  have hby : (vs.withPt t pdt table pm).bypassed = vs.bypassed := by
    funext t'
    by_cases hne : t' = t
    · subst hne
      simp only [bypassed, withPt, setTable, Function.update_self, hbypass, hb]
    · simp only [bypassed, withPt, setTable, Function.update_of_ne hne]
  refine ⟨⟨?_, hby, rfl, ?_, hgrown⟩, hhas'⟩
  · intro t' ht' hb'
    rw [hby] at hb'
    by_cases hne : t' = t
    · subst hne
      simp only [withPt, setTable, Function.update_self]
      exact hw
    · rw [hhas t' hne] at ht'
      simp only [withPt, setTable, Function.update_of_ne hne]
      apply h t' ht' hb'
  · funext p
    by_cases hp : p / 0x200 = t
    · have hold : vs.hasTable (p / 0x200) = false := by
        rw [hasTable, hp, ht, Bool.and_false]
      rw [entry_eq (by rw [hp, hhas']), entry_of_not_hasTable hold, hp]
      simp only [withPt, setTable, Function.update_self]
      apply hnew
    · rw [entry, entry, hhas _ hp]
      simp only [withPt, setTable, Function.update_of_ne hp]

/-- The physical memory manager is asked for frames. -/
theorem same_reserve (h : Orderly debug vs) (reserveCount : ℕ) :
  Same debug vs { vs with pm := (vs.pm.reserve reserveCount).2 }
  := by
  refine ⟨h, rfl, rfl, rfl, ?_⟩
  intro hinv
  obtain ⟨hused, href⟩ := vs.pm.reserve_spec reserveCount
  apply Grown.of_pm hinv hused
  rcases href with ⟨-, href⟩ | ⟨-, href⟩
  · omega
  · omega

/-- Creating a directory is refused. -/
theorem newPdt_refused {i : ℕ} (hp : (vs.pdpt i).present = false)
    (h0 : (vs.pm.allocate .NONE).1 = 0) :
  newPdt debug vs i = .ok (false, { vs with pm := (vs.pm.allocate .NONE).2 })
  := by
  rw [newPdt, assert_eq_ok (fun _ => hp), Except.ok_bind]
  dsimp only
  rw [if_pos h0]
  rfl

/-- A directory is created. -/
theorem newPdt_done {i : ℕ} (hp : (vs.pdpt i).present = false)
    (h0 : (vs.pm.allocate .NONE).1 ≠ 0) :
  newPdt debug vs i =
    .ok (true, vs.withPdt i (vs.pm.allocate .NONE).1 (vs.pm.allocate .NONE).2)
  := by
  rw [newPdt, assert_eq_ok (fun _ => hp), Except.ok_bind]
  dsimp only
  rw [if_neg h0]
  rfl

/-- Entering a directory. -/
theorem enterPdt_same (h : Orderly debug vs) {i : ℕ} (hlt : i < 0x200) :
  ∃ res vs', enterPdt debug vs i = .ok (res, vs') ∧ Same debug vs vs' ∧
    (res = true → (vs'.pdpt i).present = true)
  := by
  have hgrown : ∀ {res vs'}, enterPdt debug vs i = .ok (res, vs') → Inv debug vs →
      Grown debug vs vs' := by
    intro res vs' heq hinv
    obtain ⟨res', vs'', heq', hg, -⟩ := enterPdt_eq hinv hlt
    rw [heq] at heq'
    cases heq'
    exact hg
  by_cases hp : (vs.pdpt i).present = true
  · rw [enterPdt, if_pos hp]
    exact ⟨true, vs, rfl, Same.refl h, fun _ => hp⟩
  · rw [Bool.not_eq_true] at hp
    have hnew : enterPdt debug vs i = newPdt debug vs i := by
      rw [enterPdt, hp, if_neg Bool.false_ne_true]
    by_cases h0 : (vs.pm.allocate .NONE).1 = 0
    · have heq := hnew.trans (newPdt_refused hp h0)
      exact ⟨false, _, heq, ⟨h, rfl, rfl, rfl, hgrown heq⟩, by simp⟩
    · have heq := hnew.trans (newPdt_done hp h0)
      refine ⟨true, _, heq, same_withPdt h hp (hgrown heq), ?_⟩
      intro _
      simp only [withPdt, Function.update_self]

/-- Creating a table is refused. -/
theorem newPt_refused (debug take : Bool) (mode : FramePool.MODE)
    (ht : (vs.pdt t).present = false) (hb : (vs.pdt t).bypass = false)
    (hmode : (if take = true then .TAKE else .NONE) = mode)
    (h0 : (vs.pm.allocate mode).1 = 0) :
  newPt debug vs t take = .ok (false, { vs with pm := (vs.pm.allocate mode).2 })
  := by
  rw [newPt, assert_eq_ok (fun _ => ⟨ht, hb⟩), Except.ok_bind]
  dsimp only
  rw [hmode, if_pos h0]
  rfl

/-- A table is created. -/
theorem newPt_done (take : Bool) (mode : FramePool.MODE)
    (ht : (vs.pdt t).present = false) (hb : (vs.pdt t).bypass = false)
    (hmode : (if take = true then .TAKE else .NONE) = mode)
    (h0 : (vs.pm.allocate mode).1 ≠ 0) {pdt : PDTE} {table : Table}
    (hinit : initPt debug (vs.pm.allocate mode).1 = .ok (pdt, table)) :
  newPt debug vs t take = .ok (true, vs.withPt t pdt table (vs.pm.allocate mode).2)
  := by
  rw [newPt, assert_eq_ok (fun _ => ⟨ht, hb⟩), Except.ok_bind]
  dsimp only
  rw [hmode, if_neg h0, hinit]
  rfl

/-- Creating a table. -/
theorem newPt_same (h : Orderly debug vs) (hdir : (vs.pdpt (t / 0x200)).present = true)
    (ht : (vs.pdt t).present = false) (hb : (vs.pdt t).bypass = false) (take : Bool) :
  ∃ res vs', newPt debug vs t take = .ok (res, vs') ∧ Same debug vs vs' ∧
    (take = true → res = true) ∧ (res = true → vs'.hasTable t = true) ∧ vs'.pdpt = vs.pdpt ∧
    ∀ t', t' ≠ t → vs'.pdt t' = vs.pdt t'
  := by
  have hgrown : ∀ {res vs'}, newPt debug vs t take = .ok (res, vs') → Inv debug vs →
      Grown debug vs vs' := by
    intro res vs' heq hinv
    obtain ⟨res', vs'', heq', hg, -⟩ := newPt_eq hinv hdir ht hb take
    rw [heq] at heq'
    cases heq'
    exact hg
  obtain ⟨mode, hmode⟩ : ∃ mode, (if take = true then FramePool.MODE.TAKE else .NONE) = mode :=
    ⟨_, rfl⟩
  by_cases h0 : (vs.pm.allocate mode).1 = 0
  · have heq := newPt_refused debug take mode ht hb hmode h0
    refine ⟨false, _, heq, ⟨h, rfl, rfl, rfl, hgrown heq⟩, ?_, by simp, rfl, fun _ _ => rfl⟩
    rintro rfl
    rcases vs.pm.allocate_spec mode with ⟨hnone, -⟩ | ⟨-, hne, -⟩
    · rw [hnone] at hmode
      cases hmode
    · exact absurd h0 hne
  · obtain ⟨pdt, table, hinit, hw, hnew, hpresent, hbypass, -⟩ :=
      initPt_eq debug (vs.pm.allocate mode).1
    have heq := newPt_done take mode ht hb hmode h0 hinit
    obtain ⟨hsame, hhas⟩ := same_withPt (vs.pm.allocate mode).2 h hdir ht hb hw hnew hpresent hbypass
      (hgrown heq)
    refine ⟨true, _, heq, hsame, fun _ => rfl, fun _ => hhas, rfl, ?_⟩
    intro t' hne
    simp only [withPt, setTable, Function.update_of_ne hne]

/-- Entering a table. -/
theorem enterPt_same (h : Orderly debug vs) (hdir : (vs.pdpt (t / 0x200)).present = true)
    (hb : (vs.pdt t).bypass = false) :
  ∃ res vs', enterPt debug vs t = .ok (res, vs') ∧ Same debug vs vs' ∧
    (res = true → vs'.hasTable t = true)
  := by
  rw [enterPt]
  by_cases hp : (vs.pdt t).present = true
  · rw [if_pos hp]
    refine ⟨true, vs, rfl, Same.refl h, fun _ => ?_⟩
    rw [hasTable, hdir, hp, Bool.and_self]
  · rw [if_neg hp]
    rw [Bool.not_eq_true] at hp
    obtain ⟨res, vs', heq, hsame, -, hhas, -, -⟩ := newPt_same h hdir hp hb false
    exact ⟨res, vs', heq, hsame, hhas⟩

/-- Reserving a range of a table. -/
theorem took_setTable (h : Orderly debug vs) (ht : vs.hasTable t = true)
    (hb : vs.bypassed t = false) {pdt : PDTE} {table : Table} (hw : WellFormed debug pdt table)
    (hfree : ∀ i ∈ c, (vs.pt t i).isFree = true) (hed : Edited PTE.reserved c (vs.pt t) table)
    (hu : pdt.unlisted = (vs.pdt t).unlisted) (hle : c.self + c.size ≤ 0x200) :
  Took debug vs (vs.setTable t pdt table) ⟨t * 0x200 + c.self, c.size⟩
  := by
  have hentry := entry_setTable ht hu PTE.untagged_reserved hed hle
  have hby : (vs.setTable t pdt table).bypassed = vs.bypassed :=
    funext fun t' => bypassed_setTable hu t'
  have hvacant : ∀ p ∈ Run.mk (t * 0x200 + c.self) c.size, vs.Vacant p := by
    intro p hp
    have hp' : p / 0x200 = t ∧ p % 0x200 ∈ c := by
      simp only [Run.mem_iff] at hp ⊢
      lia
    constructor
    · rw [entry_eq (by rwa [hp'.1]), hp'.1, PTE.isFree_untagged]
      apply hfree _ hp'.2
    · rw [hp'.1, hb]
  refine ⟨?_, hby, rfl, hvacant, hentry, ?_⟩
  · intro t' ht' hb'
    rw [hasTable_setTable hu] at ht'
    rw [bypassed_setTable hu] at hb'
    by_cases hne : t' = t
    · subst hne
      simp only [setTable, Function.update_self]
      exact hw
    · simp only [setTable, Function.update_of_ne hne]
      apply h t' ht' hb'
  · intro hinv
    exact ⟨hinv.setTable_reserved ht hu hw hed hle hfree, hby, rfl, le_refl _, hvacant, hentry,
      Balanced.of_eq (frameOf_setTable_reserved ht hu hed hle) rfl rfl rfl⟩

end Vspace

end UOS
