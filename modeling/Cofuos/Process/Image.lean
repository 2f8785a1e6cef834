import Cofuos.Boot.Sectors
import Cofuos.Lib.Align

/-!
# Program images

The header of a program file, as `PE64` of `kernel/include/pe64.hpp` describes it, the checks that
`PE64::construct` and `process_manager::spawn` make of it, and its section table.
-/

namespace UOS

open Boot

/-- A program file. -/
structure ImageFile where
  length : ℕ
  byte : Bytes

/-- The number of pages for a size of `w` bits. -/
def pagesFor (w size : ℕ) : ℕ := alignUp w size 0x1000 / 0x1000

theorem pagesFor_eq (w size : ℕ) : pagesFor w size = (size + 0xFFF) % 2 ^ w / 0x1000 := by
  rw [pagesFor, alignUp_div (by decide)]
  rfl

namespace PE64

/-- `PE64::section`, without its name. -/
structure Section where
  size : ℕ
  offset : ℕ
  datasize : ℕ
  fileoffset : ℕ
  attrib : ℕ
  deriving DecidableEq, Repr

variable (s : Bytes) (pe : ℕ)

def sectionCount : ℕ := s.word (pe + 6)

def imgType : ℕ := s.word (pe + 22)

def entrance : ℕ := s.dword (pe + 40)

def imgbase : ℕ := s.qword (pe + 48)

def alignSection : ℕ := s.dword (pe + 56)

def alignFile : ℕ := s.dword (pe + 60)

def imgsize : ℕ := s.dword (pe + 80)

def headerSize : ℕ := s.dword (pe + 84)

def stkReserve : ℕ := s.qword (pe + 96)

def dirCount : ℕ := s.dword (pe + 132)

/-- Where the entry of a section lies. -/
def sectionEntry (index : ℕ) : ℕ := pe + 0x88 + dirCount s pe * 8 + index * 40

/-- The section whose entry is at an address. -/
def sectionAt (entry : ℕ) : Section :=
  { size := s.dword (entry + 8)
    offset := s.dword (entry + 12)
    datasize := s.dword (entry + 16)
    fileoffset := s.dword (entry + 20)
    attrib := s.dword (entry + 36) }

/-- `PE64::get_section` -/
def getSection (index : ℕ) : Option Section :=
  if index < sectionCount s pe then some (sectionAt s (sectionEntry s pe index)) else none

/-- What `PE64::construct` checks of a header whose offset in the module is `off`. -/
def valid (off : ℕ) : Bool :=
  s.dword pe = 0x4550 ∧
    s.word (pe + 20) = 0xF0 ∧ s.word (pe + 4) = 0x8664 ∧ s.word (pe + 24) = 0x20B ∧
    off + 0x88 + dirCount s pe * 8 + sectionCount s pe * 40 ≤ headerSize s pe

/-- `PE64::construct`: the address of the header of a module. -/
def construct (moduleBase length : ℕ) : Option ℕ :=
  if s.word moduleBase ≠ 0x5A4D then none
  else
    let off := s.dword (moduleBase + 0x3C)
    if length < off + 0x88 then none
    else if valid s (moduleBase + off) off = false then none
    else some (moduleBase + off)

/-- The checks of `process_manager::spawn`, which has read the first sector of the file. The header
is found in it. -/
def spawnHeader (f : ImageFile) : Option ℕ :=
  if f.length < SECTOR_SIZE then none
  else
    (construct f.byte 0 SECTOR_SIZE).filter fun pe =>
      imgType f.byte pe &&& 0x02 ≠ 0 ∧ imgType f.byte pe &&& 0x3000 = 0 ∧
      imgbase f.byte pe < 2 ^ 47 ∧ imgbase f.byte pe % 0x1000 = 0 ∧
      alignSection f.byte pe % 0x1000 = 0 ∧ alignFile f.byte pe % 0x200 = 0 ∧
      headerSize f.byte pe % 0x200 = 0 ∧ sectionCount f.byte pe ≠ 0

/-- The pages that a section takes in the image. The size is rounded up as a `dword`. -/
def Section.pageCount (sec : Section) : ℕ := pagesFor 32 (max sec.datasize sec.size)

/-- The size of a section does not wrap around when it is rounded up. -/
def Section.roundable (sec : Section) : Bool := max sec.datasize sec.size ≤ 0xFFFFF000

variable {s pe} {s' : Bytes} {base length n i off index : ℕ}

/-! ### Bytes at another place -/

/-- The first bytes of a buffer are found at an address. -/
def Holds (s' : Bytes) (base : ℕ) (s : Bytes) (n : ℕ) : Prop := ∀ j < n, s' (base + j) = s j

namespace Holds

variable (h : Holds s' base s n)

include h

theorem byte (hi : i < n) : s' (base + i) = s i := h i hi

theorem word (hi : i + 2 ≤ n) : s'.word (base + i) = s.word i := by
  rw [Bytes.word, Bytes.word, h.byte (by omega), Nat.add_assoc, h.byte (by omega)]

theorem dword (hi : i + 4 ≤ n) : s'.dword (base + i) = s.dword i := by
  rw [Bytes.dword, Bytes.dword, h.word (by omega), Nat.add_assoc, h.word (by omega)]

theorem qword (hi : i + 8 ≤ n) : s'.qword (base + i) = s.qword i := by
  rw [Bytes.qword, Bytes.qword, h.dword (by omega), Nat.add_assoc, h.dword (by omega)]

/-- The header of a module is found where the module is, if its header is there. -/
theorem valid (hpe : pe + 0x88 ≤ n) : PE64.valid s' (base + pe) off = PE64.valid s pe off := by
  rw [PE64.valid, PE64.valid, dirCount, dirCount, sectionCount, sectionCount, headerSize,
    headerSize, h.dword (by omega)]
  simp only [Nat.add_assoc base]
  rw [h.word (by omega), h.word (by omega), h.word (by omega), h.word (by omega),
    h.dword (by omega), h.dword (by omega)]

theorem construct (hn : 0x40 ≤ n) (hl : length ≤ n) :
  PE64.construct s' base length = (PE64.construct s 0 length).map (base + ·)
  := by
  have hword : s'.word base = s.word 0 := h.word (i := 0) (by omega)
  rw [PE64.construct, PE64.construct, hword, h.dword (by omega)]
  simp only [Nat.zero_add]
  split_ifs with h₀ h₁ h₂ h₃ h₄
  · rfl
  · rfl
  · rfl
  · rw [h.valid (by omega)] at h₂
    exact absurd h₂ h₃
  · rw [h.valid (by omega)] at h₂
    exact absurd h₄ h₂
  · rfl

end Holds

/-- What a header that has been accepted is like. -/
theorem construct_eq_some {a : ℕ} (h : construct s base length = some a) :
  s.word base = 0x5A4D ∧ a = base + s.dword (base + 0x3C) ∧
    s.dword (base + 0x3C) + 0x88 ≤ length ∧ valid s a (s.dword (base + 0x3C)) = true
  := by
  rw [construct] at h
  simp only [Option.ite_none_left_eq_some, Option.some.injEq] at h
  obtain ⟨h₀, h₁, h₂, rfl⟩ := h
  exact ⟨not_not.mp h₀, rfl, not_lt.mp h₁, by simpa using h₂⟩

/-- The facts about a file that is to be loaded which follow from the checks of
`process_manager::spawn`. -/
structure Spawned (f : ImageFile) (pe : ℕ) : Prop where
  magic : f.byte.word 0 = 0x5A4D
  offset : f.byte.dword 0x3C = pe
  le : pe + 0x88 ≤ 0x200
  valid : PE64.valid f.byte pe pe = true
  base_lt : imgbase f.byte pe < 2 ^ 47
  base_mod : imgbase f.byte pe % 0x1000 = 0
  size_mod : headerSize f.byte pe % 0x200 = 0

variable {f : ImageFile}

theorem spawnHeader_spec (h : spawnHeader f = some pe) : Spawned f pe := by
  rw [spawnHeader, Option.ite_none_left_eq_some, Option.filter_eq_some_iff] at h
  obtain ⟨-, hc, hchecks⟩ := h
  obtain ⟨hmagic, hpe, hle, hvalid⟩ := construct_eq_some hc
  rw [Nat.zero_add, Nat.zero_add] at hpe
  rw [Nat.zero_add] at hle hvalid
  rw [← hpe] at hle hvalid
  obtain ⟨-, -, hlt, hmod, -, -, hsize, -⟩ := of_decide_eq_true hchecks
  exact ⟨hmagic, hpe.symm, hle, hvalid, hlt, hmod, hsize⟩

namespace Spawned

variable (h : Spawned f pe)

include h

/-- The section table lies in the header. -/
theorem table_le :
  pe + 0x88 + dirCount f.byte pe * 8 + sectionCount f.byte pe * 40 ≤ headerSize f.byte pe
  := by
  have hv := of_decide_eq_true h.valid
  exact hv.2.2.2.2

/-- The header takes at least a sector of the file. -/
theorem sector_le : 0x200 ≤ headerSize f.byte pe := by
  have hle := h.table_le
  have hmod := h.size_mod
  omega

/-- The header is found in memory when it has been read. -/
theorem construct (hm : Holds s' base f.byte (headerSize f.byte pe)) :
  PE64.construct s' base (headerSize f.byte pe) = some (base + pe)
  := by
  have hle := h.sector_le
  have hpe := h.le
  rw [hm.construct (by omega) (le_refl _), PE64.construct, if_neg (not_not.mpr h.magic)]
  simp only [Nat.zero_add, h.offset]
  rw [if_neg (by omega), if_neg (by rw [h.valid]; decide)]
  rfl

/-- And so are the sections. -/
theorem getSection (hm : Holds s' base f.byte (headerSize f.byte pe)) (index : ℕ) :
  PE64.getSection s' (base + pe) index = PE64.getSection f.byte pe index
  := by
  have hle := h.table_le
  have hdir : dirCount s' (base + pe) = dirCount f.byte pe := by
    rw [dirCount, dirCount, Nat.add_assoc, hm.dword (by omega)]
  have hcount : sectionCount s' (base + pe) = sectionCount f.byte pe := by
    rw [sectionCount, sectionCount, Nat.add_assoc, hm.word (by omega)]
  rw [PE64.getSection, PE64.getSection, hcount]
  by_cases hi : index < sectionCount f.byte pe
  · have hentry : sectionEntry s' (base + pe) index = base + sectionEntry f.byte pe index := by
      rw [sectionEntry, sectionEntry, hdir]
      omega
    have hlast : sectionEntry f.byte pe index + 40 ≤ headerSize f.byte pe := by
      rw [sectionEntry]
      omega
    rw [if_pos hi, if_pos hi, hentry, sectionAt, sectionAt]
    simp only [Nat.add_assoc base]
    rw [hm.dword (by omega), hm.dword (by omega), hm.dword (by omega), hm.dword (by omega),
      hm.dword (by omega)]
  · rw [if_neg hi, if_neg hi]

/-- And the fields of the header. -/
theorem word (hm : Holds s' base f.byte (headerSize f.byte pe)) (hi : i + 2 ≤ 0x88) :
  s'.word (base + pe + i) = f.byte.word (pe + i)
  := by
  have hle := h.sector_le
  have hpe := h.le
  rw [Nat.add_assoc, hm.word (by omega)]

theorem dword (hm : Holds s' base f.byte (headerSize f.byte pe)) (hi : i + 4 ≤ 0x88) :
  s'.dword (base + pe + i) = f.byte.dword (pe + i)
  := by
  have hle := h.sector_le
  have hpe := h.le
  rw [Nat.add_assoc, hm.dword (by omega)]

theorem qword (hm : Holds s' base f.byte (headerSize f.byte pe)) (hi : i + 8 ≤ 0x88) :
  s'.qword (base + pe + i) = f.byte.qword (pe + i)
  := by
  have hle := h.sector_le
  have hpe := h.le
  rw [Nat.add_assoc, hm.qword (by omega)]

end Spawned

/-! ### Sizes of sections -/

namespace Section

variable {sec : Section}

theorem pageCount_eq (sec : Section) :
  sec.pageCount = (max sec.datasize sec.size + 0xFFF) % 2 ^ 32 / 0x1000
  := pagesFor_eq _ _

/-- The data of a section that takes pages fits into them. -/
theorem datasize_le (hlt : max sec.datasize sec.size < 2 ^ 32) (h : sec.pageCount ≠ 0) :
  sec.datasize ≤ sec.pageCount * 0x1000
  := by
  rw [pageCount_eq] at h ⊢
  omega

/-- A section whose size can be rounded takes no pages only if it is empty. -/
theorem pageCount_eq_zero_iff (h : sec.roundable = true) :
  sec.pageCount = 0 ↔ max sec.datasize sec.size = 0
  := by
  have hle : max sec.datasize sec.size ≤ 0xFFFFF000 := of_decide_eq_true h
  rw [pageCount_eq]
  omega

/-- A section whose size cannot be rounded takes no pages. -/
theorem pageCount_of_not_roundable (hlt : max sec.datasize sec.size < 2 ^ 32)
    (h : sec.roundable = false) :
  sec.pageCount = 0 ∧ max sec.datasize sec.size ≠ 0
  := by
  have hgt : ¬ max sec.datasize sec.size ≤ 0xFFFFF000 := of_decide_eq_false h
  rw [pageCount_eq]
  omega

end Section

end PE64

end UOS
