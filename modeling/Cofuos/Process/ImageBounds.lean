import Cofuos.Lib.Fault
import Cofuos.Process.Image

/-!
# Reading the header of an image within its bounds

`PE64::construct`, `PE64::get_directory` and `PE64::get_section` of `kernel/util/pe64.cpp` once
more, now with every access to the buffer: an access that is not below the length that is given to
`construct` is a fault. The offset of the header, its numbers of directories and sections and its size
come from the buffer itself.

`construct` looks at the signature and the offset of the header before it looks at the length. Whoever
calls it gives at least a sector, but with a length below 0x40 it would read behind it.
-/

namespace UOS

namespace ImageFile

/-- A byte is read that is not below the length. -/
def outside : Fault := .bugcheck "out of the buffer"

/-- Reads a `word` of a buffer. -/
def word (f : ImageFile) (i : ℕ) : Except Fault ℕ :=
  if i + 2 ≤ f.length then .ok (f.byte.word i) else .error outside

/-- Reads a `dword` of a buffer. -/
def dword (f : ImageFile) (i : ℕ) : Except Fault ℕ :=
  if i + 4 ≤ f.length then .ok (f.byte.dword i) else .error outside

variable {f : ImageFile} {i : ℕ}

theorem word_eq (h : i + 2 ≤ f.length) : f.word i = .ok (f.byte.word i) := if_pos h

theorem dword_eq (h : i + 4 ≤ f.length) : f.dword i = .ok (f.byte.dword i) := if_pos h

theorem word_outside (h : ¬ i + 2 ≤ f.length) : f.word i = .error outside := if_neg h

theorem dword_outside (h : ¬ i + 4 ≤ f.length) : f.dword i = .error outside := if_neg h

end ImageFile

namespace PE64

/-- `sizeof(PE64)` -/
def SIZE : ℕ := 0x88

/-- `sizeof(directory)` -/
def DIRECTORY_SIZE : ℕ := 8

/-- `sizeof(section)` -/
def SECTION_SIZE : ℕ := 40

/-- `PE64::construct`, for a module at the start of a buffer and the length that is given with it. -/
def readHeader (f : ImageFile) : Except Fault (Option ℕ) := do
  let mz ← f.word 0
  if mz ≠ 0x5A4D then return none
  else
    let pe ← f.dword 0x3C
    if f.length < pe + SIZE then return none
    else
      let signature ← f.dword pe
      if signature ≠ 0x4550 then return none
      else
        let sizeOptheader ← f.word (pe + 20)
        if sizeOptheader ≠ 0xF0 then return none
        else
          let machine ← f.word (pe + 4)
          if machine ≠ 0x8664 then return none
          else
            let magic ← f.word (pe + 24)
            if magic ≠ 0x20B then return none
            else
              let dirs ← f.dword (pe + 132)
              let sections ← f.word (pe + 6)
              let size ← f.dword (pe + 84)
              if size < pe + SIZE + dirs * DIRECTORY_SIZE + sections * SECTION_SIZE then
                return none
              else
                return some pe

/-- `PE64::get_directory`: where a directory lies. -/
def readDirectory (f : ImageFile) (pe index : ℕ) : Except Fault (Option ℕ) := do
  let dirs ← f.dword (pe + 132)
  if index < dirs then
    return some (pe + SIZE + index * DIRECTORY_SIZE)
  else
    return none

/-- `PE64::get_section`: where the entry of a section lies. -/
def readSection (f : ImageFile) (pe index : ℕ) : Except Fault (Option ℕ) := do
  let sections ← f.word (pe + 6)
  if index < sections then
    let dirs ← f.dword (pe + 132)
    return some (pe + SIZE + dirs * DIRECTORY_SIZE + index * SECTION_SIZE)
  else
    return none

/-- A function returns, and what it has found lies below a bound. -/
def EndsBelow (found : Except Fault (Option ℕ)) (size bound : ℕ) : Prop :=
  ∃ entry, found = .ok entry ∧ ∀ a, entry = some a → a + size ≤ bound

variable {f : ImageFile} {pe index : ℕ}

/-! ### The header -/

/-- What is checked of a header. -/
theorem valid_iff {s : Boot.Bytes} {off : ℕ} :
  valid s pe off = true ↔ s.dword pe = 0x4550 ∧ s.word (pe + 20) = 0xF0 ∧
    s.word (pe + 4) = 0x8664 ∧ s.word (pe + 24) = 0x20B ∧
    off + SIZE + s.dword (pe + 132) * DIRECTORY_SIZE + s.word (pe + 6) * SECTION_SIZE
      ≤ s.dword (pe + 84)
  := by
  rw [valid, decide_eq_true_eq]
  rfl

/-- Only bytes below the length are read, and the header is the one that is found. -/
theorem readHeader_eq (hlength : 0x40 ≤ f.length) :
  readHeader f = .ok (construct f.byte 0 f.length)
  := by
  rw [readHeader, construct, ImageFile.word_eq (by omega), Except.ok_bind]
  by_cases hmz : f.byte.word 0 ≠ 0x5A4D
  · rw [if_pos hmz, if_pos hmz]
    rfl
  rw [if_neg hmz, if_neg hmz, ImageFile.dword_eq (by omega), Except.ok_bind, Nat.zero_add]
  dsimp only
  rw [Nat.zero_add]
  obtain ⟨pe, hpe⟩ : ∃ pe, pe = f.byte.dword 0x3C := ⟨_, rfl⟩
  rw [← hpe]
  by_cases hshort : f.length < pe + 0x88
  · rw [if_pos hshort, SIZE, if_pos hshort]
    rfl
  have hinvalid : ∀ {c : Prop}, (valid f.byte pe pe = true → c) → ¬ c →
      (if valid f.byte pe pe = false then none else some pe) = none := by
    intro c himp hc
    rw [if_pos]
    apply Bool.eq_false_of_not_eq_true
    intro hvalid
    exact hc (himp hvalid)
  -- the fixed part of the header lies in the buffer
  rw [if_neg hshort, SIZE, if_neg hshort, ImageFile.dword_eq (by omega), Except.ok_bind]
  by_cases hsig : f.byte.dword pe ≠ 0x4550
  · rw [if_pos hsig, hinvalid (fun hv => (valid_iff.1 hv).1) hsig]
    rfl
  rw [if_neg hsig, ImageFile.word_eq (by omega), Except.ok_bind]
  by_cases hopt : f.byte.word (pe + 20) ≠ 0xF0
  · rw [if_pos hopt, hinvalid (fun hv => (valid_iff.1 hv).2.1) hopt]
    rfl
  rw [if_neg hopt, ImageFile.word_eq (by omega), Except.ok_bind]
  by_cases hmachine : f.byte.word (pe + 4) ≠ 0x8664
  · rw [if_pos hmachine, hinvalid (fun hv => (valid_iff.1 hv).2.2.1) hmachine]
    rfl
  rw [if_neg hmachine, ImageFile.word_eq (by omega), Except.ok_bind]
  by_cases hmagic : f.byte.word (pe + 24) ≠ 0x20B
  · rw [if_pos hmagic, hinvalid (fun hv => (valid_iff.1 hv).2.2.2.1) hmagic]
    rfl
  rw [if_neg hmagic, ImageFile.dword_eq (by omega), Except.ok_bind, ImageFile.word_eq (by omega),
    Except.ok_bind, ImageFile.dword_eq (by omega), Except.ok_bind]
  by_cases hsize : f.byte.dword (pe + 84) < pe + 0x88 + f.byte.dword (pe + 132) * DIRECTORY_SIZE +
      f.byte.word (pe + 6) * SECTION_SIZE
  · rw [if_pos hsize, hinvalid (fun hv => (valid_iff.1 hv).2.2.2.2) (not_le.2 hsize)]
    rfl
  · have hvalid : valid f.byte pe pe = true :=
      valid_iff.2 ⟨not_not.1 hsig, not_not.1 hopt, not_not.1 hmachine, not_not.1 hmagic,
        not_lt.1 hsize⟩
    rw [if_neg hsize, if_neg (by rw [hvalid]; decide)]
    rfl

/-- With a length that the signature and the offset of a header do not fit, no header is found. -/
theorem construct_short (hlength : f.length < 0x40) : construct f.byte 0 f.length = none := by
  rw [construct]
  split_ifs with hmz
  · rfl
  · exact if_pos (by omega)

/-- The bytes that are read before the length is looked at. -/
def Fits (f : ImageFile) : Prop := 0x40 ≤ f.length ∨ 2 ≤ f.length ∧ f.byte.word 0 ≠ 0x5A4D

/-- Only bytes below the length are read exactly when those that are read first are below it. -/
theorem readHeader_of_fits (h : Fits f) : readHeader f = .ok (construct f.byte 0 f.length) := by
  by_cases hlength : 0x40 ≤ f.length
  · exact readHeader_eq hlength
  · obtain ⟨hword, hmz⟩ := h.resolve_left hlength
    rw [construct_short (not_le.1 hlength), readHeader, ImageFile.word_eq hword, Except.ok_bind,
      if_pos hmz]
    rfl

theorem readHeader_of_not_fits (h : ¬ Fits f) : readHeader f = .error ImageFile.outside := by
  rw [Fits, not_or, not_and] at h
  by_cases hword : 2 ≤ f.length
  · have hmz := h.2 hword
    rw [readHeader, ImageFile.word_eq hword, Except.ok_bind, if_neg hmz,
      ImageFile.dword_outside (by omega)]
    rfl
  · rw [readHeader, ImageFile.word_outside hword]
    rfl

/-- The directories of a header lie in it. -/
theorem readDirectory_within (hfound : construct f.byte 0 f.length = some pe) (index : ℕ) :
  EndsBelow (readDirectory f pe index) DIRECTORY_SIZE (headerSize f.byte pe)
  := by
  obtain ⟨-, hpe, hle, hvalid⟩ := construct_eq_some hfound
  rw [Nat.zero_add, Nat.zero_add] at hpe
  rw [Nat.zero_add, ← hpe] at hle hvalid
  have htables := (valid_iff.1 hvalid).2.2.2.2
  change _ ≤ headerSize f.byte pe at htables
  rw [readDirectory, ImageFile.dword_eq (by omega), Except.ok_bind]
  by_cases hindex : index < f.byte.dword (pe + 132)
  · rw [if_pos hindex]
    refine ⟨_, rfl, ?_⟩
    rintro _ ⟨⟩
    rw [DIRECTORY_SIZE] at htables ⊢
    omega
  · rw [if_neg hindex]
    refine ⟨_, rfl, ?_⟩
    intro a ha
    cases ha

/-- The entries of the sections lie in the header. -/
theorem readSection_within (hfound : construct f.byte 0 f.length = some pe) (index : ℕ) :
  EndsBelow (readSection f pe index) SECTION_SIZE (headerSize f.byte pe)
  := by
  obtain ⟨-, hpe, hle, hvalid⟩ := construct_eq_some hfound
  rw [Nat.zero_add, Nat.zero_add] at hpe
  rw [Nat.zero_add, ← hpe] at hle hvalid
  have htables := (valid_iff.1 hvalid).2.2.2.2
  change _ ≤ headerSize f.byte pe at htables
  rw [readSection, ImageFile.word_eq (by omega), Except.ok_bind]
  by_cases hindex : index < f.byte.word (pe + 6)
  · rw [if_pos hindex, ImageFile.dword_eq (by omega), Except.ok_bind]
    refine ⟨_, rfl, ?_⟩
    rintro _ ⟨⟩
    rw [SECTION_SIZE] at htables ⊢
    omega
  · rw [if_neg hindex]
    refine ⟨_, rfl, ?_⟩
    intro a ha
    cases ha

/-- If a header is found that is not larger than what was given, its directories and its sections lie in
it. The header is found by reading only bytes below the length, exactly when the signature, and the offset
of the header after it, are below the length. -/
theorem header_within (f : ImageFile) :
  (∀ pe, construct f.byte 0 f.length = some pe → headerSize f.byte pe ≤ f.length →
    ∀ index, EndsBelow (readDirectory f pe index) DIRECTORY_SIZE (headerSize f.byte pe) ∧
      EndsBelow (readSection f pe index) SECTION_SIZE (headerSize f.byte pe)) ∧
  (Fits f → readHeader f = .ok (construct f.byte 0 f.length)) ∧
  (¬ Fits f → readHeader f = .error ImageFile.outside)
  := by
  refine ⟨?_, readHeader_of_fits, readHeader_of_not_fits⟩
  intro pe hfound _ index
  exact ⟨readDirectory_within hfound index, readSection_within hfound index⟩

/-- A sector with the header of an image that has one directory and one section. -/
def smallImage : ImageFile where
  length := 0x200
  byte
    | 0x00 => 0x4D
    | 0x01 => 0x5A
    | 0x3C => 0x40
    | 0x40 => 0x50
    | 0x41 => 0x45
    | 0x44 => 0x64
    | 0x45 => 0x86
    | 0x46 => 1
    | 0x54 => 0xF0
    | 0x58 => 0x0B
    | 0x59 => 0x02
    | 0x95 => 2
    | 0xC4 => 1
    | _ => 0

/-- The section of the small image lies in its header. -/
theorem header_within_small :
  readHeader smallImage = .ok (some 0x40) ∧
    EndsBelow (readSection smallImage 0x40 0) SECTION_SIZE 0x200
  := by
  obtain ⟨hwithin, hread, -⟩ := header_within smallImage
  have hfound : construct smallImage.byte 0 smallImage.length = some 0x40 := rfl
  have hsize : headerSize smallImage.byte 0x40 = 0x200 := rfl
  have hall := hwithin 0x40 hfound (by rw [hsize]; exact le_refl _) 0
  rw [hsize] at hall
  refine ⟨?_, hall.2⟩
  rw [hread (.inl (by decide)), hfound]

/-- With half of the first 0x40 bytes of the small image, the offset of the header is read behind them. -/
theorem header_outside_short :
  ¬ ∀ f : ImageFile, ∃ found, readHeader f = .ok found
  := by
  intro h
  obtain ⟨found, hfound⟩ := h { smallImage with length := 0x20 }
  have hread : readHeader { smallImage with length := 0x20 } = .error ImageFile.outside := rfl
  rw [hread] at hfound
  cases hfound

end PE64

end UOS
