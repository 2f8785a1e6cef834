import Cofuos.Memory.Reservation
import Cofuos.Memory.Vspace

/-!
# The contents of an address space

What an address space says about its pages is a function `entry` from the numbers of the pages
to entries without tags, in which the pages of a table that is not present have clear entries.
Together with the tables that are bypassed it is the part of a space that its users can see.

A space is kept in order when all of its tables are well formed, and when the frames of its
directories, its tables and its pages are in use and pairwise different. Every request does
so. The results say in addition how the entries change.
-/

namespace UOS

open Fault

/-! ### Owned frames -/

/-- The owners of the frames of an address space. -/
inductive Owner where
  | cr3
  | pl4te
  | directory (i : ℕ)
  | table (t : ℕ)
  | page (q : ℕ)
  deriving DecidableEq, Repr

/-- Every owner has a frame that is in use, and that is not the frame of another owner. -/
structure Owned (frameOf : Owner → Option ℕ) (used : Finset ℕ) : Prop where
  used : ∀ o f, frameOf o = some f → f ∈ used
  distinct : ∀ o o' f, frameOf o = some f → frameOf o' = some f → o = o'

namespace Owned

variable {frameOf frameOf' : Owner → Option ℕ} {used : Finset ℕ}

/-- An owner gets a frame that is not in use. -/
theorem insert (h : Owned frameOf used) {o : Owner} {f : ℕ} (hf : f ∉ used)
    (ho : frameOf' o = some f) (hother : ∀ o', o' ≠ o → frameOf' o' = frameOf o') :
  Owned frameOf' (Insert.insert f used)
  := by
  have hnew : ∀ o', frameOf' o' = some f → o' = o := by
    intro o' heq
    by_contra hne
    rw [hother o' hne] at heq
    apply hf (h.used o' f heq)
  constructor
  · intro o' f' heq
    rw [Finset.mem_insert]
    by_cases ho' : o' = o
    · subst ho'
      left
      rw [ho] at heq
      cases heq
      rfl
    · right
      rw [hother o' ho'] at heq
      apply h.used o' f' heq
  · intro o₁ o₂ f' h₁ h₂
    by_cases hff : f' = f
    · subst hff
      rw [hnew o₁ h₁, hnew o₂ h₂]
    · have hne : ∀ o', frameOf' o' = some f' → o' ≠ o := by
        rintro o' heq rfl
        rw [ho] at heq
        cases heq
        apply hff rfl
      rw [hother o₁ (hne o₁ h₁)] at h₁
      rw [hother o₂ (hne o₂ h₂)] at h₂
      apply h.distinct o₁ o₂ f' h₁ h₂

/-- Owners lose their frames, which are taken out of use. -/
theorem sdiff (h : Owned frameOf used) {s : Finset ℕ}
    (hsub : ∀ o f, frameOf' o = some f → frameOf o = some f)
    (hs : ∀ f ∈ s, ∃ o, frameOf o = some f ∧ frameOf' o = none) :
  Owned frameOf' (used \ s)
  := by
  constructor
  · intro o f heq
    rw [Finset.mem_sdiff]
    use h.used o f (hsub o f heq)
    intro hf
    obtain ⟨o', ho', hnone⟩ := hs f hf
    rw [h.distinct o o' f (hsub o f heq) ho', hnone] at heq
    cases heq
  · intro o₁ o₂ f h₁ h₂
    apply h.distinct o₁ o₂ f (hsub o₁ f h₁) (hsub o₂ f h₂)

theorem mono (h : Owned frameOf used) {used' : Finset ℕ} (hsub : used ⊆ used') :
  Owned frameOf used'
  := ⟨fun o f heq => hsub (h.used o f heq), h.distinct⟩

end Owned

/-! ### Handing out frames -/

namespace FramePool

variable (pm : FramePool)

/-- The next frame is not in use, and is not `0`. -/
theorem next_spec :
  pm.next ∉ pm.used ∧ pm.next ≠ 0
  := by
  rw [next]
  split_ifs with h
  · exact ⟨h.2, h.1⟩
  · refine ⟨?_, by omega⟩
    intro hmem
    have := Finset.le_sup (f := id) hmem
    simp only [id] at this
    omega

/-- An allocation is refused, or hands out a frame that is not in use. -/
theorem allocate_spec (mode : MODE) :
  (mode = .NONE ∧ (pm.allocate mode).1 = 0 ∧ (pm.allocate mode).2.used = pm.used ∧
    (pm.allocate mode).2.refusals = pm.refusals + 1) ∨
  ((pm.allocate mode).1 ∉ pm.used ∧ (pm.allocate mode).1 ≠ 0 ∧
    (pm.allocate mode).2.used = Insert.insert (pm.allocate mode).1 pm.used ∧
    (pm.allocate mode).2.refusals = pm.refusals)
  := by
  obtain ⟨hnew, hne⟩ := pm.next_spec
  by_cases h : mode = .NONE ∧ pm.answer = 0
  · left
    rw [allocate, if_pos h]
    exact ⟨h.1, rfl, rfl, rfl⟩
  · right
    rw [allocate, if_neg h]
    exact ⟨hnew, hne, rfl, rfl⟩

/-- Setting frames aside is refused or not, and does not change the frames in use. -/
theorem reserve_spec (pageCount : ℕ) :
  (pm.reserve pageCount).2.used = pm.used ∧
  (((pm.reserve pageCount).1 = false ∧ (pm.reserve pageCount).2.refusals = pm.refusals + 1) ∨
    ((pm.reserve pageCount).1 = true ∧ (pm.reserve pageCount).2.refusals = pm.refusals))
  := by
  by_cases h : pm.answer = 0
  · rw [reserve, if_pos h]
    exact ⟨rfl, .inl ⟨rfl, rfl⟩⟩
  · rw [reserve, if_neg h]
    exact ⟨rfl, .inr ⟨rfl, rfl⟩⟩

end FramePool

/-! ### Entries of pages -/

/-- An entry as the requests leave it: a page that is mapped is reserved, belongs to the user
and has a frame. -/
structure PTE.InOrder (pt : PTE) : Prop where
  bypass : pt.bypass = false
  mapped : pt.present = true → pt.preserve = true ∧ pt.user = true ∧ pt.pageAddr ≠ 0

theorem PTE.InOrder.releasable {pt : PTE} (h : pt.InOrder) (hfree : pt.isFree = false) :
  pt.Releasable
  := by
  by_cases hp : pt.present = true
  · exact .inr ⟨hp, (h.mapped hp).2.2⟩
  · rw [Bool.not_eq_true] at hp
    left
    simpa [PTE.isFree, hp] using hfree

/-- Directory entries that agree up to the free list. -/
theorem PDTE.of_unlisted {pdt pdt' : PDTE} (h : pdt.unlisted = pdt'.unlisted) :
  pdt.present = pdt'.present ∧ pdt.bypass = pdt'.bypass ∧ pdt.ptAddr = pdt'.ptAddr
  := by
  simp only [unlisted, PDTE.mk.injEq] at h
  tauto

namespace Vspace

/-- The space has the table `t`. -/
def hasTable (vs : Vspace) (t : ℕ) : Bool :=
  (vs.pdpt (t / 0x200)).present && (vs.pdt t).present

/-- The table `t` is bypassed. -/
def bypassed (vs : Vspace) (t : ℕ) : Bool :=
  (vs.pdpt (t / 0x200)).present && (vs.pdt t).bypass

/-- The entry of the page `q`, without its tag. -/
def entry (vs : Vspace) (q : ℕ) : PTE :=
  if vs.hasTable (q / 0x200) = true then (vs.pt (q / 0x200) (q % 0x200)).untagged else {}

/-- The entries of the table `t`, without their tags. -/
def view (vs : Vspace) (t : ℕ) : Table := fun i => vs.entry (t * 0x200 + i)

/-- The frame of an owner. -/
def frameOf (vs : Vspace) : Owner → Option ℕ
  | .cr3 => some vs.cr3
  | .pl4te => some vs.pl4te
  | .directory i => if (vs.pdpt i).present = true then some (vs.pdpt i).pdtAddr else none
  | .table t => if vs.hasTable t = true then some (vs.pdt t).ptAddr else none
  | .page q => (vs.entry q).frame

/-- An address space in order. -/
structure Inv (debug : Bool) (vs : Vspace) : Prop where
  table : ∀ t, vs.hasTable t = true → WellFormed debug (vs.pdt t) (vs.pt t)
  entry : ∀ q, (vs.entry q).InOrder
  bypass : ∀ t, vs.bypassed t = true → vs.hasTable t = false
  owned : Owned vs.frameOf vs.pm.used

open Classical in
/-- The frames in use that the space does not own. -/
noncomputable def foreign (vs : Vspace) : Finset ℕ :=
  vs.pm.used.filter fun f => ∀ o, vs.frameOf o ≠ some f

/-- The space owns as many frames as it counts. -/
def Counted (vs : Vspace) : Prop := vs.pm.used.card = vs.foreign.card + vs.usedPages

/-- The space has no directory beyond its 512 GB. -/
def Bounded (vs : Vspace) : Prop := ∀ i, (vs.pdpt i).present = true → i < 0x200

/-- The frames in use change as those of the space do: a frame that is handed out gets an
owner and is counted, and a frame that is taken back had one. -/
structure Balanced (vs vs' : Vspace) : Prop where
  foreign : vs'.foreign = vs.foreign
  counted : vs.Counted → vs'.Counted
  bounded : vs.Bounded → vs'.Bounded

variable {debug : Bool} {vs vs' : Vspace} {t q : ℕ}

/-! ### The balance of frames -/

theorem mem_foreign {f : ℕ} :
  f ∈ vs.foreign ↔ f ∈ vs.pm.used ∧ ∀ o, vs.frameOf o ≠ some f
  := by
  simp [foreign]

/-- Frames stay foreign when an owner gets a frame that is not in use. -/
theorem foreign_insert {o : Owner} {f : ℕ} (hf : f ∉ vs.pm.used) (hnone : vs.frameOf o = none)
    (ho : vs'.frameOf o = some f) (hother : ∀ o', o' ≠ o → vs'.frameOf o' = vs.frameOf o')
    (hused : vs'.pm.used = Insert.insert f vs.pm.used) :
  vs'.foreign = vs.foreign
  := by
  ext g
  rw [mem_foreign, mem_foreign, hused, Finset.mem_insert]
  constructor
  · rintro ⟨hg, hown⟩
    have hgf : g ≠ f := by
      rintro rfl
      apply hown o ho
    refine ⟨hg.resolve_left hgf, ?_⟩
    intro o' heq
    by_cases hoo : o' = o
    · subst hoo
      rw [hnone] at heq
      cases heq
    · apply hown o'
      rw [hother o' hoo, heq]
  · rintro ⟨hg, hown⟩
    refine ⟨.inr hg, ?_⟩
    intro o' heq
    by_cases hoo : o' = o
    · subst hoo
      rw [ho] at heq
      cases heq
      apply hf hg
    · apply hown o'
      rw [← hother o' hoo, heq]

/-- Frames stay foreign when owners lose their frames, which are taken out of use. -/
theorem foreign_sdiff {s : Finset ℕ}
    (hsub : ∀ o f, vs'.frameOf o = some f → vs.frameOf o = some f)
    (hs : ∀ f ∈ s, ∃ o, vs.frameOf o = some f)
    (hkeep : ∀ o f, vs.frameOf o = some f → f ∉ s → vs'.frameOf o = some f)
    (hused : vs'.pm.used = vs.pm.used \ s) :
  vs'.foreign = vs.foreign
  := by
  ext g
  rw [mem_foreign, mem_foreign, hused, Finset.mem_sdiff]
  constructor
  · rintro ⟨⟨hg, hgs⟩, hown⟩
    refine ⟨hg, ?_⟩
    intro o heq
    apply hown o (hkeep o g heq hgs)
  · rintro ⟨hg, hown⟩
    refine ⟨⟨hg, ?_⟩, ?_⟩
    · intro hgs
      obtain ⟨o, ho⟩ := hs g hgs
      apply hown o ho
    · intro o heq
      apply hown o (hsub o g heq)

namespace Balanced

theorem refl (vs : Vspace) : Balanced vs vs := ⟨rfl, id, id⟩

theorem trans {vs'' : Vspace} (h : Balanced vs vs') (h' : Balanced vs' vs'') :
  Balanced vs vs''
  := ⟨h'.foreign.trans h.foreign, fun hc => h'.counted (h.counted hc),
    fun hb => h'.bounded (h.bounded hb)⟩

/-- Nothing happens to the frames. -/
theorem of_eq (hframe : vs'.frameOf = vs.frameOf) (hused : vs'.pm.used = vs.pm.used)
    (hpages : vs'.usedPages = vs.usedPages) (hpdpt : vs'.pdpt = vs.pdpt) :
  Balanced vs vs'
  := by
  have hforeign : vs'.foreign = vs.foreign := by
    ext f
    rw [mem_foreign, mem_foreign, hframe, hused]
  constructor
  · apply hforeign
  · intro hc
    rw [Counted, hforeign, hused, hpages]
    apply hc
  · rw [Bounded, Bounded, hpdpt]
    apply id

/-- An owner gets a frame that is not in use. -/
theorem insert {o : Owner} {f : ℕ} (hf : f ∉ vs.pm.used) (hnone : vs.frameOf o = none)
    (ho : vs'.frameOf o = some f) (hother : ∀ o', o' ≠ o → vs'.frameOf o' = vs.frameOf o')
    (hused : vs'.pm.used = Insert.insert f vs.pm.used) (hpages : vs'.usedPages = vs.usedPages + 1)
    (hbounded : vs.Bounded → vs'.Bounded) :
  Balanced vs vs'
  := by
  have hforeign := foreign_insert hf hnone ho hother hused
  constructor
  · apply hforeign
  · intro hc
    rw [Counted] at hc ⊢
    rw [hforeign, hused, Finset.card_insert_of_notMem hf, hpages, hc]
    rfl
  · apply hbounded

/-- Owners lose their frames, which are taken out of use. -/
theorem sdiff (h : Owned vs.frameOf vs.pm.used) {s : Finset ℕ}
    (hsub : ∀ o f, vs'.frameOf o = some f → vs.frameOf o = some f)
    (hs : ∀ f ∈ s, ∃ o, vs.frameOf o = some f)
    (hkeep : ∀ o f, vs.frameOf o = some f → f ∉ s → vs'.frameOf o = some f)
    (hused : vs'.pm.used = vs.pm.used \ s) (hpages : vs'.usedPages = vs.usedPages - s.card)
    (hpdpt : vs'.pdpt = vs.pdpt) :
  Balanced vs vs'
  := by
  have hforeign := foreign_sdiff hsub hs hkeep hused
  have hin : s ⊆ vs.pm.used := by
    intro f hf
    obtain ⟨o, ho⟩ := hs f hf
    apply h.used o f ho
  have hdisjoint : Disjoint s vs.foreign := by
    rw [Finset.disjoint_left]
    intro f hf hf'
    obtain ⟨o, ho⟩ := hs f hf
    apply (mem_foreign.mp hf').2 o ho
  constructor
  · apply hforeign
  · intro hc
    rw [Counted] at hc ⊢
    have hsub' : vs.foreign ⊆ vs.pm.used \ s := by
      intro f hf
      rw [Finset.mem_sdiff]
      exact ⟨(mem_foreign.mp hf).1, fun hfs => Finset.disjoint_left.mp hdisjoint hfs hf⟩
    have hcard := Finset.card_sdiff_add_card_eq_card hin
    have hle := Finset.card_le_card hsub'
    rw [hforeign, hused, hpages]
    lia
  · rw [Bounded, Bounded, hpdpt]
    apply id

end Balanced

/-! ### Entries -/

theorem entry_eq (h : vs.hasTable (q / 0x200) = true) :
  vs.entry q = (vs.pt (q / 0x200) (q % 0x200)).untagged
  := if_pos h

theorem entry_of_not_hasTable (h : vs.hasTable (q / 0x200) = false) :
  vs.entry q = {}
  := by
  rw [entry, h]
  rfl

/-- A page that is not free has a table. -/
theorem hasTable_of_not_free (h : (vs.entry q).isFree = false) :
  vs.hasTable (q / 0x200) = true
  := by
  by_contra hne
  rw [Bool.not_eq_true] at hne
  rw [entry_of_not_hasTable hne] at h
  cases h

/-- An entry of a table that is present, seen from the table. -/
theorem view_eq (h : vs.hasTable t = true) {i : ℕ} (hi : i < 0x200) :
  vs.view t i = (vs.pt t i).untagged
  := by
  have hdiv : (t * 0x200 + i) / 0x200 = t := by lia
  have hmod : (t * 0x200 + i) % 0x200 = i := by lia
  rw [view, entry_eq (by rwa [hdiv]), hdiv, hmod]

/-- The maximal runs of a table that is present are those of its view. -/
theorem maximalRun_view (h : vs.hasTable t = true) {x : Run} :
  MaximalRun (vs.view t) x ↔ MaximalRun (vs.pt t) x
  := by
  have hiff : ∀ {table table' : Table}, (∀ i < 0x200, (table' i).isFree = (table i).isFree) →
      MaximalRun table x → MaximalRun table' x := by
    intro table table' heq hx
    have hle := hx.le
    have hpos := hx.pos
    apply hx.of_isFree
    · intro i hi
      rw [heq i (by rw [Run.mem_iff] at hi; omega), hx.free i hi]
    · intro hne
      rw [heq _ (by lia), hx.before hne]
    · intro hne
      rw [heq _ (by lia), hx.after hne]
  constructor
  · apply hiff
    intro i hi
    rw [view_eq h hi, PTE.isFree_untagged]
  · apply hiff
    intro i hi
    rw [view_eq h hi, PTE.isFree_untagged]

/-! ### Changing a table -/

section SetTable

variable {pdt : PDTE} {table : Table} {c : Run} {f : PTE → PTE}

theorem hasTable_setTable (hu : pdt.unlisted = (vs.pdt t).unlisted) (t' : ℕ) :
  (vs.setTable t pdt table).hasTable t' = vs.hasTable t'
  := by
  have hp : pdt.present = (vs.pdt t).present := (PDTE.of_unlisted hu).1
  by_cases ht : t' = t
  · subst ht
    simp only [hasTable, setTable, Function.update_self, hp]
  · simp only [hasTable, setTable, Function.update_of_ne ht]

theorem bypassed_setTable (hu : pdt.unlisted = (vs.pdt t).unlisted) (t' : ℕ) :
  (vs.setTable t pdt table).bypassed t' = vs.bypassed t'
  := by
  have hp : pdt.bypass = (vs.pdt t).bypass := (PDTE.of_unlisted hu).2.1
  by_cases ht : t' = t
  · subst ht
    simp only [bypassed, setTable, Function.update_self, hp]
  · simp only [bypassed, setTable, Function.update_of_ne ht]

/-- An edit of a range of entries of a table edits the pages of the range. -/
theorem entry_setTable (ht : vs.hasTable t = true) (hu : pdt.unlisted = (vs.pdt t).unlisted)
    (hf : ∀ pt, (f pt).untagged = f pt.untagged) (hed : Edited f c (vs.pt t) table)
    (hle : c.self + c.size ≤ 0x200) (q : ℕ) :
  (vs.setTable t pdt table).entry q
    = if q ∈ Run.mk (t * 0x200 + c.self) c.size then f (vs.entry q) else vs.entry q
  := by
  have hmem : q ∈ Run.mk (t * 0x200 + c.self) c.size ↔ q / 0x200 = t ∧ q % 0x200 ∈ c := by
    simp only [Run.mem_iff]
    lia
  rw [entry, hasTable_setTable hu]
  by_cases hq : q / 0x200 = t
  · rw [hq, if_pos ht, entry_eq (by rwa [hq]), hq]
    simp only [setTable, Function.update_self]
    rw [hed]
    by_cases hc : q % 0x200 ∈ c
    · rw [if_pos hc, if_pos (hmem.mpr ⟨hq, hc⟩), hf]
    · rw [if_neg hc, if_neg (fun h => hc (hmem.mp h).2)]
  · rw [if_neg (fun h => hq (hmem.mp h).1)]
    simp only [setTable, Function.update_of_ne hq]
    rfl

/-- Changing a table that is present keeps the frames of all owners but the pages. -/
theorem frameOf_setTable (hu : pdt.unlisted = (vs.pdt t).unlisted) {o : Owner}
    (ho : ∀ q, o ≠ .page q) :
  (vs.setTable t pdt table).frameOf o = vs.frameOf o
  := by
  cases o with
  | cr3 => rfl
  | pl4te => rfl
  | directory i => rfl
  | table t' =>
      have hp : pdt.ptAddr = (vs.pdt t).ptAddr := (PDTE.of_unlisted hu).2.2
      simp only [frameOf, hasTable_setTable hu]
      by_cases ht : t' = t
      · subst ht
        simp only [setTable, Function.update_self, hp]
      · simp only [setTable, Function.update_of_ne ht]
  | page q => apply absurd rfl (ho q)

/-- A space stays in order when a table is changed, if the table is well formed and its
entries are in order. -/
theorem Inv.setTable (h : Inv debug vs) (hu : pdt.unlisted = (vs.pdt t).unlisted)
    (hw : WellFormed debug pdt table)
    (hentry : ∀ q, ((vs.setTable t pdt table).entry q).InOrder)
    (howned : Owned (vs.setTable t pdt table).frameOf vs.pm.used) :
  Inv debug (vs.setTable t pdt table)
  := by
  constructor
  · intro t' ht'
    rw [hasTable_setTable hu] at ht'
    by_cases htt : t' = t
    · subst htt
      simp only [Vspace.setTable, Function.update_self]
      apply hw
    · simp only [Vspace.setTable, Function.update_of_ne htt]
      apply h.table t' ht'
  · apply hentry
  · intro t' ht'
    rw [bypassed_setTable hu] at ht'
    rw [hasTable_setTable hu]
    apply h.bypass t' ht'
  · apply howned

/-- Reserving entries of a table leaves the frames alone. -/
theorem frameOf_setTable_reserved (ht : vs.hasTable t = true)
    (hu : pdt.unlisted = (vs.pdt t).unlisted) (hed : Edited PTE.reserved c (vs.pt t) table)
    (hle : c.self + c.size ≤ 0x200) :
  (vs.setTable t pdt table).frameOf = vs.frameOf
  := by
  funext o
  cases o with
  | page q =>
      simp only [frameOf, entry_setTable ht hu PTE.untagged_reserved hed hle]
      split_ifs
      · rfl
      · rfl
  | cr3 => apply frameOf_setTable hu (by simp)
  | pl4te => apply frameOf_setTable hu (by simp)
  | directory i => apply frameOf_setTable hu (by simp)
  | table t' => apply frameOf_setTable hu (by simp)

/-- Reserving free entries of a table keeps the space in order. -/
theorem Inv.setTable_reserved (h : Inv debug vs) (ht : vs.hasTable t = true)
    (hu : pdt.unlisted = (vs.pdt t).unlisted) (hw : WellFormed debug pdt table)
    (hed : Edited PTE.reserved c (vs.pt t) table) (hle : c.self + c.size ≤ 0x200)
    (hfree : ∀ i ∈ c, (vs.pt t i).isFree = true) :
  Inv debug (vs.setTable t pdt table)
  := by
  have hentry := entry_setTable ht hu PTE.untagged_reserved hed hle
  apply h.setTable hu hw
  · intro q
    rw [hentry]
    have hq := h.entry q
    split_ifs with hmem
    · have hnp : (vs.entry q).present = false := by
        have hq' : q / 0x200 = t ∧ q % 0x200 ∈ c := by
          simp only [Run.mem_iff] at hmem ⊢
          lia
        have := hfree _ hq'.2
        rw [entry_eq (by rwa [hq'.1]), hq'.1]
        simp only [PTE.isFree, Bool.and_eq_true, Bool.not_eq_true'] at this
        apply this.1
      constructor
      · apply hq.bypass
      · intro hp
        rw [PTE.reserved] at hp
        rw [hnp] at hp
        cases hp
    · apply hq
  · rw [frameOf_setTable_reserved ht hu hed hle]
    apply h.owned

end SetTable

/-! ### New directories and tables -/

/-- The space `vs'` has the same contents as `vs`, but may have more directories and tables. -/
structure Grown (debug : Bool) (vs vs' : Vspace) : Prop where
  inv : Inv debug vs'
  entry : vs'.entry = vs.entry
  bypassed : vs'.bypassed = vs.bypassed
  locked : vs'.locked = vs.locked
  refusals : vs.pm.refusals ≤ vs'.pm.refusals
  balance : Balanced vs vs'

theorem Grown.refl (h : Inv debug vs) : Grown debug vs vs :=
  ⟨h, rfl, rfl, rfl, le_refl _, Balanced.refl vs⟩

theorem Grown.trans {vs'' : Vspace} (h : Grown debug vs vs') (h' : Grown debug vs' vs'') :
  Grown debug vs vs''
  := by
  constructor
  · apply h'.inv
  · rw [h'.entry, h.entry]
  · rw [h'.bypassed, h.bypassed]
  · rw [h'.locked, h.locked]
  · apply h.refusals.trans h'.refusals
  · apply h.balance.trans h'.balance

/-- Another state of the physical memory manager in which the same frames are in use. -/
theorem Grown.of_pm (h : Inv debug vs) {pm : FramePool} (hused : pm.used = vs.pm.used)
    (href : vs.pm.refusals ≤ pm.refusals) :
  Grown debug vs { vs with pm := pm }
  := by
  constructor
  · constructor
    · apply h.table
    · apply h.entry
    · apply h.bypass
    · simp only [hused]
      apply h.owned
  · rfl
  · rfl
  · rfl
  · apply href
  · exact Balanced.of_eq rfl hused rfl rfl

/-- The space after a directory has been created. -/
def withPdt (vs : Vspace) (i pdtAddr : ℕ) (pm : FramePool) : Vspace :=
  { vs with
    pdpt := Function.update vs.pdpt i
      { pdtAddr := pdtAddr, user := true, write := true, present := true }
    pdt := fun t => if t / 0x200 = i then {} else vs.pdt t
    usedPages := vs.usedPages + 1
    pm := pm }

/-- A new directory has no tables. -/
theorem grown_withPdt (h : Inv debug vs) {i f : ℕ} {pm : FramePool} (hlt : i < 0x200)
    (hi : (vs.pdpt i).present = false) (hf : f ∉ vs.pm.used)
    (hused : pm.used = Insert.insert f vs.pm.used) (href : pm.refusals = vs.pm.refusals) :
  Grown debug vs (vs.withPdt i f pm)
  := by
  have hpdt : ∀ t, t / 0x200 ≠ i → (vs.withPdt i f pm).pdt t = vs.pdt t ∧
      (vs.withPdt i f pm).pdpt (t / 0x200) = vs.pdpt (t / 0x200) := by
    intro t ht
    constructor
    · simp only [withPdt, if_neg ht]
    · simp only [withPdt, Function.update_of_ne ht]
  have hhas : ∀ t, (vs.withPdt i f pm).hasTable t = vs.hasTable t := by
    intro t
    by_cases ht : t / 0x200 = i
    · simp only [hasTable, ht, hi]
      simp [withPdt, ht]
    · simp only [hasTable, hpdt t ht]
  have hby : ∀ t, (vs.withPdt i f pm).bypassed t = vs.bypassed t := by
    intro t
    by_cases ht : t / 0x200 = i
    · simp only [bypassed, ht, hi]
      simp [withPdt, ht]
    · simp only [bypassed, hpdt t ht]
  have hne : ∀ t, vs.hasTable t = true → t / 0x200 ≠ i := by
    rintro t ht rfl
    rw [hasTable, hi] at ht
    cases ht
  have hentry : (vs.withPdt i f pm).entry = vs.entry := by
    funext q
    rw [entry, entry, hhas]
    rfl
  have hown : (vs.withPdt i f pm).frameOf (.directory i) = some f := by
    simp [frameOf, withPdt]
  have hother : ∀ o, o ≠ .directory i → (vs.withPdt i f pm).frameOf o = vs.frameOf o := by
    intro o ho
    cases o with
    | cr3 => rfl
    | pl4te => rfl
    | directory j =>
        have hj : j ≠ i := by
          rintro rfl
          apply ho rfl
        simp only [frameOf, withPdt, Function.update_of_ne hj]
    | table t =>
        simp only [frameOf, hhas]
        split_ifs with ht
        · rw [(hpdt t (hne t ht)).1]
        · rfl
    | page q => simp only [frameOf, hentry]
  constructor
  · constructor
    · intro t ht
      rw [hhas] at ht
      rw [(hpdt t (hne t ht)).1]
      apply h.table t ht
    · rw [hentry]
      apply h.entry
    · intro t ht
      rw [hby] at ht
      rw [hhas]
      apply h.bypass t ht
    · have hpm : (vs.withPdt i f pm).pm.used = Insert.insert f vs.pm.used := hused
      rw [hpm]
      apply h.owned.insert hf hown hother
  · apply hentry
  · funext t
    apply hby
  · rfl
  · simp only [withPdt, href]
    apply le_refl
  · apply Balanced.insert hf _ hown hother hused rfl
    · intro hb j hj
      by_cases hji : j = i
      · rw [hji]
        apply hlt
      · simp only [withPdt, Function.update_of_ne hji] at hj
        apply hb j hj
    · simp only [frameOf, hi, Bool.false_eq_true, if_false]

/-- Entering a directory. -/
theorem enterPdt_eq (h : Inv debug vs) {i : ℕ} (hlt : i < 0x200) :
  ∃ res vs', enterPdt debug vs i = .ok (res, vs') ∧ Grown debug vs vs' ∧
    (res = false → vs.pm.refusals < vs'.pm.refusals) ∧
    (res = true → (vs'.pdpt i).present = true)
  := by
  rw [enterPdt]
  by_cases hp : (vs.pdpt i).present = true
  · rw [if_pos hp]
    exact ⟨true, vs, rfl, Grown.refl h, by simp, fun _ => hp⟩
  rw [if_neg hp]
  rw [Bool.not_eq_true] at hp
  rw [newPdt, assert_eq_ok (fun _ => hp), Except.ok_bind]
  rcases vs.pm.allocate_spec .NONE with ⟨-, h0, hused, href⟩ | ⟨hnew, h0, hused, href⟩
  · refine ⟨false, { vs with pm := (vs.pm.allocate .NONE).2 }, ?_, ?_, ?_, by simp⟩
    · dsimp only
      rw [if_pos h0]
      rfl
    · apply Grown.of_pm h hused
      omega
    · intro _
      simp only
      omega
  · refine ⟨true, vs.withPdt i (vs.pm.allocate .NONE).1 (vs.pm.allocate .NONE).2, ?_,
      grown_withPdt h hlt hp hnew hused href, by simp, ?_⟩
    · dsimp only
      rw [if_neg h0]
      rfl
    · intro _
      simp [withPdt]

/-- The space after a table has been created. -/
def withPt (vs : Vspace) (t : ℕ) (pdt : PDTE) (table : Table) (pm : FramePool) : Vspace :=
  { vs.setTable t pdt table with usedPages := vs.usedPages + 1, pm := pm }

/-- A new table has free entries only. -/
theorem grown_withPt (h : Inv debug vs) {f : ℕ} {pdt : PDTE} {table : Table} {pm : FramePool}
    (hdir : (vs.pdpt (t / 0x200)).present = true) (ht : (vs.pdt t).present = false)
    (hb : (vs.pdt t).bypass = false) (hw : WellFormed debug pdt table)
    (hnew : ∀ i, (table i).untagged = {})
    (hpresent : pdt.present = true) (hbypass : pdt.bypass = false) (haddr : pdt.ptAddr = f)
    (hf : f ∉ vs.pm.used) (hused : pm.used = Insert.insert f vs.pm.used)
    (href : pm.refusals = vs.pm.refusals) :
  Grown debug vs (vs.withPt t pdt table pm) ∧ (vs.withPt t pdt table pm).hasTable t = true
  := by
  have hold : vs.hasTable t = false := by
    rw [hasTable, ht, Bool.and_false]
  have hhas : ∀ t', t' ≠ t → (vs.withPt t pdt table pm).hasTable t' = vs.hasTable t' := by
    intro t' hne
    simp only [hasTable, withPt, setTable, Function.update_of_ne hne]
  have hhas' : (vs.withPt t pdt table pm).hasTable t = true := by
    simp only [hasTable, withPt, setTable, Function.update_self, hdir, hpresent, Bool.and_self]
  have hby : ∀ t', (vs.withPt t pdt table pm).bypassed t' = vs.bypassed t' := by
    intro t'
    by_cases hne : t' = t
    · subst hne
      simp only [bypassed, withPt, setTable, Function.update_self, hbypass, hb]
    · simp only [bypassed, withPt, setTable, Function.update_of_ne hne]
  have hentry : (vs.withPt t pdt table pm).entry = vs.entry := by
    funext q
    by_cases hq : q / 0x200 = t
    · rw [entry_eq (by rw [hq, hhas']), entry_of_not_hasTable (by rw [hq, hold]), hq]
      simp only [withPt, setTable, Function.update_self]
      apply hnew
    · rw [entry, entry, hhas _ hq]
      simp only [withPt, setTable, Function.update_of_ne hq]
  have hown : (vs.withPt t pdt table pm).frameOf (.table t) = some f := by
    simp only [frameOf, hhas', if_true]
    simp only [withPt, setTable, Function.update_self, haddr]
  have hother : ∀ o, o ≠ .table t → (vs.withPt t pdt table pm).frameOf o = vs.frameOf o := by
    intro o ho
    cases o with
    | cr3 => rfl
    | pl4te => rfl
    | directory j => rfl
    | table t' =>
        have hne : t' ≠ t := by
          rintro rfl
          apply ho rfl
        simp only [frameOf, hhas t' hne]
        simp only [withPt, setTable, Function.update_of_ne hne]
    | page q => simp only [frameOf, hentry]
  refine ⟨?_, hhas'⟩
  constructor
  · constructor
    · intro t' ht'
      by_cases hne : t' = t
      · subst hne
        simp only [withPt, setTable, Function.update_self]
        apply hw
      · rw [hhas t' hne] at ht'
        simp only [withPt, setTable, Function.update_of_ne hne]
        apply h.table t' ht'
    · rw [hentry]
      apply h.entry
    · intro t' ht'
      rw [hby] at ht'
      by_cases hne : t' = t
      · subst hne
        rw [bypassed, hb, Bool.and_false] at ht'
        cases ht'
      · rw [hhas t' hne]
        apply h.bypass t' ht'
    · have hpm : (vs.withPt t pdt table pm).pm.used = Insert.insert f vs.pm.used := hused
      rw [hpm]
      apply h.owned.insert hf hown hother
  · apply hentry
  · funext t'
    apply hby
  · rfl
  · simp only [withPt, href]
    apply le_refl
  · apply Balanced.insert hf _ hown hother hused rfl id
    simp only [frameOf, hold, Bool.false_eq_true, if_false]

/-- Creating a table. -/
theorem newPt_eq (h : Inv debug vs) (hdir : (vs.pdpt (t / 0x200)).present = true)
    (ht : (vs.pdt t).present = false) (hb : (vs.pdt t).bypass = false) (take : Bool) :
  ∃ res vs', newPt debug vs t take = .ok (res, vs') ∧ Grown debug vs vs' ∧
    (res = false → take = false ∧ vs.pm.refusals < vs'.pm.refusals) ∧
    (res = true → vs'.hasTable t = true) ∧ vs'.pdpt = vs.pdpt ∧
    ∀ t', t' ≠ t → vs'.pdt t' = vs.pdt t'
  := by
  rw [newPt, assert_eq_ok (fun _ => ⟨ht, hb⟩), Except.ok_bind]
  obtain ⟨mode, hmode⟩ : ∃ mode, (if take = true then FramePool.MODE.TAKE else .NONE) = mode :=
    ⟨_, rfl⟩
  dsimp only
  rw [hmode]
  rcases vs.pm.allocate_spec mode with ⟨hnone, h0, hused, href⟩ | ⟨hnew, h0, hused, href⟩
  · refine ⟨false, { vs with pm := (vs.pm.allocate mode).2 }, ?_, ?_, ?_, by simp, rfl,
      fun _ _ => rfl⟩
    · rw [if_pos h0]
      rfl
    · apply Grown.of_pm h hused
      omega
    · intro _
      constructor
      · cases take with
        | false => rfl
        | true =>
            rw [hnone] at hmode
            cases hmode
      · simp only
        omega
  · obtain ⟨pdt, table, hinit, hw, hclear, hp, hb', ha⟩ := initPt_eq debug (vs.pm.allocate mode).1
    obtain ⟨hgrown, hhas⟩ := grown_withPt h hdir ht hb hw hclear hp hb' ha hnew hused href
    refine ⟨true, vs.withPt t pdt table (vs.pm.allocate mode).2, ?_, hgrown, by simp,
      fun _ => hhas, rfl, ?_⟩
    · rw [if_neg h0, hinit]
      rfl
    · intro t' hne
      simp only [withPt, setTable, Function.update_of_ne hne]

/-- Entering a table. -/
theorem enterPt_eq (h : Inv debug vs) (hdir : (vs.pdpt (t / 0x200)).present = true)
    (hb : (vs.pdt t).bypass = false) :
  ∃ res vs', enterPt debug vs t = .ok (res, vs') ∧ Grown debug vs vs' ∧
    (res = false → vs.pm.refusals < vs'.pm.refusals) ∧ (res = true → vs'.hasTable t = true)
  := by
  rw [enterPt]
  by_cases hp : (vs.pdt t).present = true
  · rw [if_pos hp]
    refine ⟨true, vs, rfl, Grown.refl h, by simp, fun _ => ?_⟩
    rw [hasTable, hdir, hp, Bool.and_self]
  · rw [if_neg hp]
    rw [Bool.not_eq_true] at hp
    obtain ⟨res, vs', heq, hgrown, href, hhas, -, -⟩ := newPt_eq h hdir hp hb false
    exact ⟨res, vs', heq, hgrown, fun hres => (href hres).2, hhas⟩

end Vspace

end UOS
