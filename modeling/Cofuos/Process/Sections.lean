import Cofuos.Process.Loader

/-!
# The sections of a program

Whatever the address space and the file answer, the sections are put into pages of the image that were
only reserved before, so that they lie apart from the header and from each other.
-/

namespace UOS

open Boot PE64

/-! ### Runs of pages -/

/-- Of two runs without a common page one lies before the other. -/
theorem Run.before_or_after {c d : Run} (hc : c.size ≠ 0) (hd : d.size ≠ 0)
    (h : ∀ p ∈ c, p ∉ d) :
  c.self + c.size ≤ d.self ∨ d.self + d.size ≤ c.self
  := by
  by_contra hne
  rw [not_or, not_le, not_le] at hne
  apply h (max c.self d.self) ⟨le_max_left _ _, by omega⟩
  exact ⟨le_max_right _ _, by omega⟩

namespace ImageFile

variable (f : ImageFile) (pe : ℕ)

/-- The base of the image. -/
def base : ℕ := imgbase f.byte pe

/-- The number of pages of the image. -/
def imagePages : ℕ := pagesFor 64 (imgsize f.byte pe)

/-- The number of pages of the header. -/
def headerPages : ℕ := pagesFor 64 (headerSize f.byte pe)

/-- The pages of the image. -/
def image : Run := ⟨f.base pe / 0x1000, f.imagePages pe⟩

/-- The pages of the header. -/
def header : Run := ⟨f.base pe / 0x1000, f.headerPages pe⟩

/-- A section of the file. -/
def sec (i : ℕ) : Section := sectionAt f.byte (sectionEntry f.byte pe i)

/-- The pages of a section. -/
def run (i : ℕ) : Run := ⟨(f.base pe + (f.sec pe i).offset) / 0x1000, (f.sec pe i).pageCount⟩

/-- A section is found in memory, followed by zeros up to the end of its pages. -/
def Contents (mem : Bytes) (i : ℕ) : Prop :=
  (∀ j < (f.sec pe i).datasize,
    mem (f.base pe + (f.sec pe i).offset + j) = f.byte ((f.sec pe i).fileoffset + j)) ∧
  ∀ j, (f.sec pe i).datasize ≤ j → j < (f.sec pe i).pageCount * 0x1000 →
    mem (f.base pe + (f.sec pe i).offset + j) = 0

variable {f pe} {i j : ℕ}

theorem size_lt (f : ImageFile) (pe i : ℕ) :
  max (f.sec pe i).datasize (f.sec pe i).size < 2 ^ 32
  := by
  apply max_lt
  · apply Bytes.dword_lt
  · apply Bytes.dword_lt

theorem imagePages_le (f : ImageFile) (pe : ℕ) : f.imagePages pe ≤ 2 ^ 20 := by
  have h : imgsize f.byte pe < 2 ^ 32 := Bytes.dword_lt
  rw [imagePages, pagesFor_eq]
  omega

/-- The header lies in its pages. -/
theorem header_le (f : ImageFile) (pe : ℕ) : headerSize f.byte pe ≤ f.headerPages pe * 0x1000 := by
  have h : headerSize f.byte pe < 2 ^ 32 := Bytes.dword_lt
  rw [headerPages, pagesFor_eq]
  omega

/-- Where the pages of a section lie that is aligned. -/
theorem run_self (h : Spawned f pe) (i : ℕ) :
  (f.run pe i).self = f.base pe / 0x1000 + (f.sec pe i).offset / 0x1000
  := by
  have hmod : f.base pe % 0x1000 = 0 := h.base_mod
  have hself : (f.run pe i).self = (f.base pe + (f.sec pe i).offset) / 0x1000 := rfl
  omega

end ImageFile

namespace Loader

variable {f : ImageFile} {env : Literal} {ans : Answers} {pe index i : ℕ} {st st' : Loader}

/-! ### What is kept at every access -/

/-- The pages of a section have been committed. -/
structure Placed (f : ImageFile) (pe : ℕ) (m : Kinds) (i : ℕ) : Prop where
  aligned : (f.sec pe i).offset % 0x1000 = 0
  pos : (f.sec pe i).pageCount ≠ 0
  header : f.headerPages pe ≤ (f.sec pe i).offset / 0x1000
  le : (f.sec pe i).offset / 0x1000 + (f.sec pe i).pageCount ≤ f.imagePages pe
  committed : ∀ p ∈ f.run pe i, m p = .committed

/-- An access lies in the pages of its section. -/
structure Within (f : ImageFile) (pe : ℕ) (a : Access) : Prop where
  le : f.base pe + (f.sec pe a.index).offset ≤ a.addr
  le' : a.addr + a.len ≤
    f.base pe + (f.sec pe a.index).offset + (f.sec pe a.index).pageCount * 0x1000

/-- The header is in memory, and the accesses so far were in pages of their own. -/
structure Kept (f : ImageFile) (pe : ℕ) (st : Loader) : Prop where
  bytes : Holds st.mem (f.base pe) f.byte (headerSize f.byte pe)
  header : ∀ p ∈ f.header pe, st.kinds p = .committed
  placed : ∀ a ∈ st.accesses, Placed f pe st.kinds a.index
  within : ∀ a ∈ st.accesses, Within f pe a
  apart : ∀ a ∈ st.accesses, ∀ b ∈ st.accesses, a.index ≠ b.index →
    ∀ p ∈ f.run pe a.index, p ∉ f.run pe b.index
  contents : ∀ a ∈ st.accesses, a.last = true → f.Contents pe st.mem a.index

/-- Two sections in pages of their own have no byte in common. -/
theorem Placed.byte_ne {m : Kinds} (hs : Spawned f pe) (hi : Placed f pe m i)
    (hj : Placed f pe m index) (h : ∀ p ∈ f.run pe i, p ∉ f.run pe index) {x y : ℕ}
    (hx : x < (f.sec pe i).pageCount * 0x1000) (hy : y < (f.sec pe index).pageCount * 0x1000) :
  f.base pe + (f.sec pe i).offset + x ≠ f.base pe + (f.sec pe index).offset + y
  := by
  have horder := Run.before_or_after hi.pos hj.pos h
  rw [f.run_self hs, f.run_self hs, ImageFile.run, ImageFile.run] at horder
  have hai := hi.aligned
  have haj := hj.aligned
  simp only at horder
  omega

namespace Kept

variable (h : Kept f pe st)

include h

/-- Pages may be committed, and memory may change outside of the header and of the pages in which
something has been placed. -/
theorem change {m : Kinds} {mem : Bytes}
    (hm : ∀ p, st.kinds p = .committed → m p = .committed)
    (hheader : ∀ j < headerSize f.byte pe, mem (f.base pe + j) = st.mem (f.base pe + j))
    (hmem : ∀ a ∈ st.accesses, a.last = true → ∀ j < (f.sec pe a.index).pageCount * 0x1000,
      mem (f.base pe + (f.sec pe a.index).offset + j) =
        st.mem (f.base pe + (f.sec pe a.index).offset + j)) :
  Kept f pe { st with kinds := m, mem := mem }
  := by
  refine ⟨?_, fun p hp => hm p (h.header p hp), ?_, h.within, h.apart, ?_⟩
  · intro j hj
    rw [← h.bytes j hj]
    exact hheader j hj
  · intro a ha
    have hp := h.placed a ha
    exact ⟨hp.aligned, hp.pos, hp.header, hp.le, fun p hpr => hm p (hp.committed p hpr)⟩
  · intro a ha hlast
    obtain ⟨hdata, hzero⟩ := h.contents a ha hlast
    have hle := Section.datasize_le (f.size_lt pe a.index) (h.placed a ha).pos
    constructor
    · intro j hj
      rw [← hdata j hj]
      exact hmem a ha hlast j (by omega)
    · intro j hj hlt
      rw [← hzero j hj hlt]
      exact hmem a ha hlast j hlt

/-- An access in the pages of a section that has them. -/
theorem access {action : Action} {addr len : ℕ} (hp : Placed f pe st.kinds index)
    (hw : Within f pe ⟨index, action, addr, len⟩)
    (hapart : ∀ a ∈ st.accesses, a.index ≠ index → ∀ p ∈ f.run pe a.index, p ∉ f.run pe index)
    (hlast : Access.last ⟨index, action, addr, len⟩ = true → f.Contents pe st.mem index) :
  Kept f pe (st.access index action addr len)
  := by
  refine ⟨h.bytes, h.header, ?_, ?_, ?_, ?_⟩
  · intro a ha
    rcases List.mem_cons.mp ha with rfl | ha
    · exact hp
    · exact h.placed a ha
  · intro a ha
    rcases List.mem_cons.mp ha with rfl | ha
    · exact hw
    · exact h.within a ha
  · intro a ha b hb hne
    rcases List.mem_cons.mp ha with rfl | ha
    · rcases List.mem_cons.mp hb with rfl | hb
      · exact absurd rfl hne
      · intro p hpa hpb
        exact hapart b hb hne.symm p hpb hpa
    · rcases List.mem_cons.mp hb with rfl | hb
      · exact hapart a ha hne
      · exact h.apart a ha b hb hne
  · intro a ha hl
    rcases List.mem_cons.mp ha with rfl | ha
    · exact hlast hl
    · exact h.contents a ha hl

end Kept

/-! ### Loading one section -/

/-- The state in which the loading of a section ends. -/
def final (res : Except Loader Loader) : Loader :=
  match res with
  | .error st => st
  | .ok st => st

/-- The pages of a section have been committed, and the section is being loaded. -/
structure Filling (f : ImageFile) (pe index : ℕ) (st : Loader) : Prop where
  kept : Kept f pe st
  placed : Placed f pe st.kinds index
  apart : ∀ a ∈ st.accesses, a.index ≠ index → ∀ p ∈ f.run pe a.index, p ∉ f.run pe index
  unfinished : ∀ a ∈ st.accesses, a.index = index → a.last = false

/-- Memory is written in the pages of a section that is being loaded. -/
theorem Filling.write (hs : Spawned f pe) (h : Filling f pe index st) {action : Action}
    {addr len : ℕ} {mem : Bytes} (hw : Within f pe ⟨index, action, addr, len⟩)
    (hl : Access.last ⟨index, action, addr, len⟩ = false)
    (hmem : ∀ x, (∀ j < (f.sec pe index).pageCount * 0x1000,
      x ≠ f.base pe + (f.sec pe index).offset + j) → mem x = st.mem x) :
  Filling f pe index ({ st with mem := mem }.access index action addr len)
  := by
  have hchange : Kept f pe { st with kinds := st.kinds, mem := mem } := by
    apply h.kept.change (fun p hp => hp)
    · intro j hj
      apply hmem
      intro y _
      have hle := f.header_le pe
      have hheader := h.placed.header
      omega
    · intro a ha hlast j hj
      apply hmem
      intro y hy
      have hne : a.index ≠ index := by
        intro heq
        rw [h.unfinished a ha heq] at hlast
        cases hlast
      apply (h.kept.placed a ha).byte_ne hs h.placed (h.apart a ha hne) hj hy
  refine ⟨?_, h.placed, ?_, ?_⟩
  · apply hchange.access h.placed hw h.apart
    intro hlast
    rw [hl] at hlast
    cases hlast
  · intro a ha hne
    rcases List.mem_cons.mp ha with rfl | ha
    · exact absurd rfl hne
    · exact h.apart a ha hne
  · intro a ha heq
    rcases List.mem_cons.mp ha with rfl | ha
    · exact hl
    · exact h.unfinished a ha heq

/-- Committing the pages of a section, which are only reserved before. -/
theorem Kept.commit (hs : Spawned f pe) (h : Kept f pe st) {granted : Bool} {m : Kinds}
    (haligned : (f.sec pe index).offset % 0x1000 = 0) (hpos : (f.sec pe index).pageCount ≠ 0)
    (hle : (f.sec pe index).offset / 0x1000 + (f.sec pe index).pageCount ≤ f.imagePages pe)
    (hm : st.kinds.commit (f.base pe + (f.sec pe index).offset) (f.sec pe index).pageCount granted =
      some m) :
  Filling f pe index ({ st with kinds := m }.access index .commit
    (f.base pe + (f.sec pe index).offset) ((f.sec pe index).pageCount * 0x1000))
  := by
  obtain ⟨⟨-, hreserved, -⟩, rfl⟩ := Kinds.change_eq_some_iff.mp hm
  replace hreserved : ∀ p ∈ f.run pe index, st.kinds p = .reserved := hreserved
  have hself := f.run_self hs (i := index)
  have hsize : (f.run pe index).size = (f.sec pe index).pageCount := rfl
  have hmono : ∀ p, st.kinds p = .committed →
      st.kinds.set (f.run pe index) .committed p = .committed := by
    intro p hp
    rw [Kinds.set]
    split_ifs
    · rfl
    · exact hp
  have hplaced : Placed f pe (st.kinds.set (f.run pe index) .committed) index := by
    refine ⟨haligned, hpos, ?_, hle, fun p hp => Kinds.set_of_mem hp⟩
    by_contra hlt
    have hmem : (f.run pe index).self ∈ f.run pe index := ⟨le_refl _, by omega⟩
    have hheader : (f.run pe index).self ∈ f.header pe := by
      constructor
      · rw [hself]
        exact Nat.le_add_right _ _
      · rw [hself]
        apply Nat.add_lt_add_left (not_le.mp hlt)
    have hne := hreserved _ hmem
    rw [h.header _ hheader] at hne
    cases hne
  have hapart : ∀ a ∈ st.accesses, ∀ p ∈ f.run pe a.index, p ∉ f.run pe index := by
    intro a ha p hp hp'
    have hne := hreserved p hp'
    rw [(h.placed a ha).committed p hp] at hne
    cases hne
  have hother : ∀ a ∈ st.accesses, a.index ≠ index := by
    rintro a ha rfl
    apply hapart a ha (f.run pe a.index).self
    · exact ⟨le_refl _, by omega⟩
    · exact ⟨le_refl _, by omega⟩
  have hchange : Kept f pe
      { st with kinds := st.kinds.set (f.run pe index) .committed, mem := st.mem } := by
    apply h.change hmono
    · intro j _
      rfl
    · intro a _ _ j _
      rfl
  refine ⟨?_, hplaced, ?_, ?_⟩
  · apply hchange.access hplaced ⟨le_refl _, le_refl _⟩ (fun a ha _ => hapart a ha)
    intro hlast
    cases hlast
  · intro a ha hne
    rcases List.mem_cons.mp ha with rfl | ha
    · exact absurd rfl hne
    · exact hapart a ha
  · intro a ha heq
    rcases List.mem_cons.mp ha with rfl | ha
    · rfl
    · exact absurd heq (hother a ha)

/-- Reading the data of a section. -/
theorem Filling.read (ans : Answers) (hs : Spawned f pe) (h : Filling f pe index st) :
  Filling f pe index (final (readSection f ans index (f.sec pe index)
      (f.base pe + (f.sec pe index).offset) st)) ∧
    st.accesses ⊆ (final (readSection f ans index (f.sec pe index)
      (f.base pe + (f.sec pe index).offset) st)).accesses ∧
    ∀ st', readSection f ans index (f.sec pe index) (f.base pe + (f.sec pe index).offset) st =
        .ok st' →
      (∀ j < (f.sec pe index).datasize, st'.mem (f.base pe + (f.sec pe index).offset + j) =
        f.byte ((f.sec pe index).fileoffset + j)) ∧
      ((f.sec pe index).datasize ≠ 0 →
        (f.sec pe index).fileoffset + (f.sec pe index).datasize ≤ f.length)
  := by
  have hle := Section.datasize_le (f.size_lt pe index) h.placed.pos
  rw [readSection]
  by_cases hzero : (f.sec pe index).datasize = 0
  · rw [if_pos hzero]
    refine ⟨h, List.Subset.refl _, ?_⟩
    rintro st' ⟨⟩
    constructor
    · intro j hj
      omega
    · intro hne
      exact absurd hzero hne
  rw [if_neg hzero]
  by_cases hseek : ans.sought index = false
  · rw [if_pos hseek]
    refine ⟨h, List.Subset.refl _, ?_⟩
    rintro st' ⟨⟩
  rw [if_neg hseek]
  have hn : f.delivered (f.sec pe index).fileoffset (f.sec pe index).datasize (ans.read index) ≤
      (f.sec pe index).datasize := by
    rw [ImageFile.delivered]
    omega
  have hfill : Filling f pe index ({ st with
      mem := st.mem.fill (f.base pe + (f.sec pe index).offset)
        (f.delivered (f.sec pe index).fileoffset (f.sec pe index).datasize (ans.read index))
        fun j => f.byte ((f.sec pe index).fileoffset + j) }.access index .read
      (f.base pe + (f.sec pe index).offset) (f.sec pe index).datasize) := by
    apply h.write hs ⟨le_refl _, Nat.add_le_add_left hle _⟩ rfl
    intro x hx
    apply Bytes.fill_of_not_mem
    rintro ⟨hge, hlt⟩
    apply hx (x - (f.base pe + (f.sec pe index).offset))
    · omega
    · omega
  simp only
  split_ifs with hfail
  · refine ⟨hfill, List.subset_cons_self _ _, ?_⟩
    rintro st' ⟨⟩
  · refine ⟨hfill, List.subset_cons_self _ _, ?_⟩
    rintro st' ⟨⟩
    rw [not_or, not_not] at hfail
    constructor
    · intro j hj
      simp only [access_mem]
      apply Bytes.fill_of_mem
      rw [hfail.2]
      exact hj
    · intro hne
      have hall := hfail.2
      rw [ImageFile.delivered] at hall
      omega

/-- Clearing what follows the data of a section. -/
theorem Filling.zero (hs : Spawned f pe) (h : Filling f pe index st)
    (hdata : ∀ j < (f.sec pe index).datasize, st.mem (f.base pe + (f.sec pe index).offset + j) =
      f.byte ((f.sec pe index).fileoffset + j)) :
  Filling f pe index (zeroSection index (f.sec pe index)
      (f.base pe + (f.sec pe index).offset) st) ∧
    f.Contents pe (zeroSection index (f.sec pe index)
      (f.base pe + (f.sec pe index).offset) st).mem index
  := by
  have hle := Section.datasize_le (f.size_lt pe index) h.placed.pos
  constructor
  · apply h.write hs
    · constructor
      · simp only
        omega
      · simp only
        omega
    · rfl
    · intro x hx
      apply Bytes.fill_of_not_mem
      rintro ⟨hge, hlt⟩
      apply hx (x - (f.base pe + (f.sec pe index).offset))
      · omega
      · omega
  · constructor
    · intro j hj
      rw [← hdata j hj, zeroSection_mem]
      apply Bytes.fill_of_not_mem
      omega
    · intro j hj hlt
      have hsplit : f.base pe + (f.sec pe index).offset + j = f.base pe + (f.sec pe index).offset +
          (f.sec pe index).datasize + (j - (f.sec pe index).datasize) := by omega
      rw [hsplit, zeroSection_mem]
      apply Bytes.fill_of_mem
      omega

/-- Setting the attributes of the pages of a section. -/
theorem Filling.protect (h : Filling f pe index st) (hc : f.Contents pe st.mem index) :
  Kept f pe (final (protectSection ans index (f.sec pe index)
    (f.base pe + (f.sec pe index).offset) st))
  := by
  rw [protectSection]
  cases hm : st.kinds.protect (f.base pe + (f.sec pe index).offset) (f.sec pe index).pageCount
      (ans.attributesSet index) with
  | none => exact h.kept
  | some m =>
      obtain ⟨-, rfl⟩ := Kinds.change_eq_some_iff.mp hm
      have hmono : ∀ p, st.kinds p = .committed →
          st.kinds.set (f.run pe index) .committed p = .committed := by
        intro p hp
        rw [Kinds.set]
        split_ifs
        · rfl
        · exact hp
      have hchange : Kept f pe
          { st with kinds := st.kinds.set (f.run pe index) .committed, mem := st.mem } := by
        apply h.kept.change hmono
        · intro j _
          rfl
        · intro a _ _ j _
          rfl
      apply hchange.access _ ⟨le_refl _, le_refl _⟩ h.apart fun _ => hc
      have hp := h.placed
      exact ⟨hp.aligned, hp.pos, hp.header, hp.le, fun p hpr => Kinds.set_of_mem hpr⟩

/-- What has been checked of a section that has been loaded. -/
structure Checked (f : ImageFile) (pe i : ℕ) : Prop where
  offset : (f.sec pe i).offset % 0x1000 = 0
  fileoffset : (f.sec pe i).fileoffset % 0x200 = 0
  datasize : (f.sec pe i).datasize % 0x200 = 0
  le : (f.sec pe i).pageCount ≠ 0 → (f.sec pe i).datasize ≠ 0 →
    (f.sec pe i).fileoffset + (f.sec pe i).datasize ≤ f.length

/-- A section has been loaded. -/
def Loaded (st : Loader) (i : ℕ) : Prop := ∃ a ∈ st.accesses, a.index = i ∧ a.last = true

/-- Loading a section: whatever happens, the accesses are kept apart, and if the loop goes on then the
section has been loaded or it takes no pages. -/
theorem fillSection_spec (ans : Answers) (hs : Spawned f pe) (h : Kept f pe st)
    (haligned : (f.sec pe index).offset % 0x1000 = 0) (hpos : (f.sec pe index).pageCount ≠ 0)
    (hle : (f.sec pe index).offset / 0x1000 + (f.sec pe index).pageCount ≤ f.imagePages pe) :
  Kept f pe (final (fillSection f ans index (f.sec pe index)
      (f.base pe + (f.sec pe index).offset) st)) ∧
    ∀ st', fillSection f ans index (f.sec pe index) (f.base pe + (f.sec pe index).offset) st =
      .ok st' → st.accesses ⊆ st'.accesses ∧ Loaded st' index ∧
        ((f.sec pe index).datasize ≠ 0 →
          (f.sec pe index).fileoffset + (f.sec pe index).datasize ≤ f.length)
  := by
  rw [fillSection]
  cases hm : st.kinds.commit (f.base pe + (f.sec pe index).offset) (f.sec pe index).pageCount
      (ans.committed index) with
  | none =>
      refine ⟨h, ?_⟩
      rintro st' ⟨⟩
  | some m =>
      have hcommit := h.commit hs haligned hpos hle hm
      obtain ⟨hread, hsub, hok⟩ := hcommit.read ans hs
      simp only
      cases hr : readSection f ans index (f.sec pe index) (f.base pe + (f.sec pe index).offset)
          ({ st with kinds := m }.access index .commit (f.base pe + (f.sec pe index).offset)
            ((f.sec pe index).pageCount * 0x1000)) with
      | error st₁ =>
          rw [hr] at hread
          refine ⟨hread.kept, ?_⟩
          rintro st' ⟨⟩
      | ok st₁ =>
          rw [hr] at hread hsub
          obtain ⟨hdata, hfile⟩ := hok st₁ hr
          obtain ⟨hzero, hcontents⟩ := hread.zero hs hdata
          refine ⟨hzero.protect hcontents, ?_⟩
          intro st' hst'
          change protectSection _ _ _ _ _ = _ at hst'
          rw [protectSection] at hst'
          split at hst'
          · cases hst'
          · cases hst'
            refine ⟨?_, ⟨_, List.mem_cons_self, rfl, rfl⟩, hfile⟩
            intro a ha
            apply List.mem_cons_of_mem
            apply List.mem_cons_of_mem
            apply hsub
            apply List.mem_cons_of_mem _ ha

/-- The section table that is read from memory is the one of the file. -/
theorem getSection_eq (hs : Spawned f pe) (h : Kept f pe st) :
  getSection st.mem (f.base pe + pe) index =
    if index < sectionCount f.byte pe then some (f.sec pe index) else none
  := by
  rw [hs.getSection h.bytes]
  rfl

/-- One pass through the loop. -/
theorem loadSection_spec (ans : Answers) (index : ℕ) (hs : Spawned f pe) (h : Kept f pe st) :
  Kept f pe (final (loadSection f ans (f.base pe) (f.imagePages pe) (f.base pe + pe) index st)) ∧
    ∀ st', loadSection f ans (f.base pe) (f.imagePages pe) (f.base pe + pe) index st = .ok st' →
      index < sectionCount f.byte pe ∧ st.accesses ⊆ st'.accesses ∧ Checked f pe index ∧
        ((f.sec pe index).pageCount = 0 ∨ Loaded st' index)
  := by
  rw [loadSection, getSection_eq hs h]
  by_cases hi : index < sectionCount f.byte pe
  · simp only [if_pos hi]
    split_ifs with hoffset hfile hpages hfit
    · refine ⟨h, ?_⟩
      rintro st' ⟨⟩
    · refine ⟨h, ?_⟩
      rintro st' ⟨⟩
    · refine ⟨h, ?_⟩
      rintro st' ⟨⟩
      rw [not_or, not_not, not_not] at hfile
      exact ⟨hi, List.Subset.refl _, ⟨not_not.mp hoffset, hfile.1, hfile.2,
        fun hne => absurd hpages hne⟩, .inl hpages⟩
    · refine ⟨h, ?_⟩
      rintro st' ⟨⟩
    · obtain ⟨hkept, hok⟩ :=
        fillSection_spec ans hs h (not_not.mp hoffset) hpages (not_lt.mp hfit)
      refine ⟨hkept, ?_⟩
      intro st' hst'
      obtain ⟨hsub, hloaded, hlen⟩ := hok st' hst'
      rw [not_or, not_not, not_not] at hfile
      exact ⟨hi, hsub, ⟨not_not.mp hoffset, hfile.1, hfile.2, fun _ => hlen⟩, .inr hloaded⟩
  · rw [if_neg hi]
    refine ⟨h, ?_⟩
    rintro st' ⟨⟩

/-- The loop is left at the end of the section table. -/
theorem loadSection_end (hs : Spawned f pe) (h : Kept f pe st)
    (hi : sectionCount f.byte pe ≤ index) :
  loadSection f ans (f.base pe) (f.imagePages pe) (f.base pe + pe) index st = .error st
  := by
  rw [loadSection, getSection_eq hs h, if_neg (not_lt.mpr hi)]

/-- All sections up to one have been passed by the loop. -/
def Passed (f : ImageFile) (pe : ℕ) (st : Loader) (k : ℕ) : Prop :=
  ∀ i < k, Checked f pe i ∧ ((f.sec pe i).pageCount = 0 ∨ Loaded st i)

theorem Loaded.mono (h : Loaded st i) (hsub : st.accesses ⊆ st'.accesses) : Loaded st' i := by
  obtain ⟨a, ha, hi, hl⟩ := h
  exact ⟨a, hsub ha, hi, hl⟩

/-- The loop over the sections: the index is the number of sections at the end only if all of them
have been passed. -/
theorem sectionLoop_spec (ans : Answers) (hs : Spawned f pe) (n : ℕ) : ∀ {index : ℕ} {st : Loader},
    index + n = 2 ^ 32 → index ≤ sectionCount f.byte pe → Kept f pe st → Passed f pe st index →
  Kept f pe (sectionLoop f ans (f.base pe) (f.imagePages pe) (f.base pe + pe) n index st).1 ∧
    ((sectionLoop f ans (f.base pe) (f.imagePages pe) (f.base pe + pe) n index st).2 =
        sectionCount f.byte pe →
      Passed f pe (sectionLoop f ans (f.base pe) (f.imagePages pe) (f.base pe + pe) n index st).1
        (sectionCount f.byte pe))
  := by
  have hcount : sectionCount f.byte pe < 2 ^ 16 := Bytes.word_lt
  induction n with
  | zero =>
      intro index st hn hle h hp
      omega
  | succ n ih =>
      intro index st hn hle h hp
      obtain ⟨hkept, hok⟩ := loadSection_spec ans index hs h
      rw [sectionLoop]
      cases hr : loadSection f ans (f.base pe) (f.imagePages pe) (f.base pe + pe) index st with
      | error st₁ =>
          rw [hr] at hkept
          refine ⟨hkept, ?_⟩
          intro heq
          change index = sectionCount f.byte pe at heq
          rw [loadSection_end hs h heq.ge] at hr
          cases hr
          rw [← heq]
          exact hp
      | ok st₁ =>
          rw [hr] at hkept
          obtain ⟨hi, hsub, hchecked, hloaded⟩ := hok st₁ hr
          apply ih (by omega) hi hkept
          intro i hi'
          rcases Nat.lt_succ_iff_lt_or_eq.mp hi' with hlt | rfl
          · obtain ⟨hc, hl⟩ := hp i hlt
            exact ⟨hc, hl.imp_right fun hl => hl.mono hsub⟩
          · exact ⟨hchecked, hloaded⟩

end Loader

end UOS
