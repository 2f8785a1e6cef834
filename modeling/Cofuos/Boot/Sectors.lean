import Mathlib.Tactic

/-!
# Disks and sectors

A disk is a number of sectors of `0x200` bytes. A sector that has been read and a buffer are
functions from offsets to bytes. Numbers are stored with their lowest byte first.
-/

namespace UOS

namespace Boot

/-- The bytes of a sector or of a buffer. -/
abbrev Bytes : Type := ℕ → UInt8

/-- `SECTOR_SIZE` -/
def SECTOR_SIZE : ℕ := 0x200

namespace Bytes

/-- The `word` at an offset. -/
def word (s : Bytes) (i : ℕ) : ℕ := (s i).toNat + 0x100 * (s (i + 1)).toNat

/-- The `dword` at an offset. -/
def dword (s : Bytes) (i : ℕ) : ℕ := s.word i + 0x10000 * s.word (i + 2)

/-- The `qword` at an offset. -/
def qword (s : Bytes) (i : ℕ) : ℕ := s.dword i + 0x100000000 * s.dword (i + 4)

/-- A buffer into which bytes are stored from an offset on. -/
def store (s : Bytes) (off : ℕ) (l : List UInt8) : Bytes := fun a =>
  if off ≤ a then (l[a - off]?).getD (s a) else s a

/-- A buffer into which a sector is read at an offset. -/
def load (s : Bytes) (off : ℕ) (sector : Bytes) : Bytes := fun a =>
  if off ≤ a ∧ a < off + SECTOR_SIZE then sector (a - off) else s a

/-- A buffer into which so many bytes are copied at an address. -/
def fill (s : Bytes) (addr n : ℕ) (src : Bytes) : Bytes := fun a =>
  if addr ≤ a ∧ a < addr + n then src (a - addr) else s a

variable {s s' : Bytes} {off i : ℕ} {l : List UInt8}

theorem word_lt : s.word i < 2 ^ 16 := by
  rw [word]
  have h := (s i).toNat_lt
  have h' := (s (i + 1)).toNat_lt
  omega

theorem dword_lt : s.dword i < 2 ^ 32 := by
  rw [dword]
  have h := word_lt (s := s) (i := i)
  have h' := word_lt (s := s) (i := i + 2)
  omega

theorem qword_lt : s.qword i < 2 ^ 64 := by
  rw [qword]
  have h := dword_lt (s := s) (i := i)
  have h' := dword_lt (s := s) (i := i + 4)
  omega

/-- Numbers are the same when their bytes are. -/
theorem dword_congr (h : ∀ j < 4, s (i + j) = s' (i + j)) : s.dword i = s'.dword i := by
  have h₀ := h 0 (by decide)
  have h₁ := h 1 (by decide)
  have h₂ := h 2 (by decide)
  have h₃ := h 3 (by decide)
  rw [Nat.add_zero] at h₀
  simp only [dword, word, Nat.add_assoc, Nat.reduceAdd, h₀, h₁, h₂, h₃]

theorem qword_congr (h : ∀ j < 8, s (i + j) = s' (i + j)) : s.qword i = s'.qword i := by
  have hlow : s.dword i = s'.dword i := dword_congr fun j hj => h j (by omega)
  have hhigh : s.dword (i + 4) = s'.dword (i + 4) := by
    apply dword_congr
    intro j hj
    have h' := h (4 + j) (by omega)
    rwa [← Nat.add_assoc] at h'
  rw [qword, qword, hlow, hhigh]

/-- Storing does not change what lies before. -/
theorem store_of_lt (h : i < off) : s.store off l i = s i := if_neg (Nat.not_le.mpr h)

/-- Storing does not change what lies after. -/
theorem store_of_le (h : off + l.length ≤ i) : s.store off l i = s i := by
  rw [store, if_pos (by omega), List.getElem?_eq_none (by omega), Option.getD_none]

theorem store_of_mem (h : i < l.length) : s.store off l (off + i) = l[i] := by
  rw [store, if_pos (by omega), Nat.add_sub_cancel_left, List.getElem?_eq_getElem h,
    Option.getD_some]

theorem fill_of_mem {src : Bytes} {n : ℕ} (h : i < n) : s.fill off n src (off + i) = src i := by
  rw [fill, if_pos ⟨by omega, by omega⟩, Nat.add_sub_cancel_left]

theorem fill_of_not_mem {src : Bytes} {n : ℕ} (h : ¬ (off ≤ i ∧ i < off + n)) :
  s.fill off n src i = s i
  := if_neg h

@[simp]
theorem fill_zero (s src : Bytes) (off : ℕ) : s.fill off 0 src = s := by
  funext a
  apply fill_of_not_mem
  omega

/-- Only the bytes that are copied count. -/
theorem fill_congr {src src' : Bytes} {n : ℕ} (h : ∀ j < n, src j = src' j) :
  s.fill off n src = s.fill off n src'
  := by
  funext a
  rw [fill, fill]
  split_ifs with ha
  · apply h
    omega
  · rfl

/-- Copying in two pieces is copying. -/
theorem fill_fill (s src : Bytes) (off n m : ℕ) :
  (s.fill off n src).fill (off + n) m (fun i => src (n + i)) = s.fill off (n + m) src
  := by
  funext a
  simp only [fill]
  by_cases hnext : off + n ≤ a ∧ a < off + n + m
  · rw [if_pos hnext, if_pos (by omega)]
    congr 1
    omega
  · rw [if_neg hnext]
    by_cases hfirst : off ≤ a ∧ a < off + n
    · rw [if_pos hfirst, if_pos (by omega)]
    · rw [if_neg hfirst, if_neg (by omega)]

end Bytes

/-! ### Numbers that are stored -/

/-- The bytes of a `dword`. -/
def dwordBytes (v : UInt32) : List UInt8 :=
  [v.toUInt8, (v >>> 8).toUInt8, (v >>> 16).toUInt8, (v >>> 24).toUInt8]

section Numbers

variable {s : Bytes} {n i : ℕ}

/-- A number is read back from its bytes. -/
theorem dword_dwordBytes {v : UInt32} (h : ∀ j (hj : j < 4), s (n + j) = (dwordBytes v)[j]) :
  s.dword n = v.toNat
  := by
  have h₀ : s n = v.toUInt8 := h 0 (by decide)
  have h₁ : s (n + 1) = (v >>> 8).toUInt8 := h 1 (by decide)
  have h₂ : s (n + 2) = (v >>> 16).toUInt8 := h 2 (by decide)
  have h₃ : s (n + 2 + 1) = (v >>> 24).toUInt8 := h 3 (by decide)
  have hv := v.toNat_lt
  simp only [Bytes.dword, Bytes.word, h₀, h₁, h₂, h₃, UInt32.toNat_toUInt8, UInt32.toNat_shiftRight,
    UInt32.reduceToNat, Nat.reduceMod, Nat.shiftRight_eq_div_pow]
  omega

theorem length_dwordBytes (x : UInt32) : (dwordBytes x).length = 4 := rfl

/-- The `dword` that is stored. -/
theorem dword_store (s : Bytes) (n : ℕ) {x : ℕ} (h : x < 2 ^ 32) :
  (s.store n (dwordBytes x.toUInt32)).dword n = x
  := by
  have hread : (s.store n (dwordBytes x.toUInt32)).dword n = x.toUInt32.toNat := by
    apply dword_dwordBytes
    intro j hj
    apply Bytes.store_of_mem
  rw [hread, Nat.toUInt32, UInt32.toNat_ofNat_of_lt' h]

/-- The other numbers stay. -/
theorem dword_store_of_ne (x : UInt32) (h : i + 4 ≤ n ∨ n + 4 ≤ i) :
  (s.store n (dwordBytes x)).dword i = s.dword i
  := by
  apply Bytes.dword_congr
  intro j hj
  obtain h | h := h
  · apply Bytes.store_of_lt (by omega)
  · apply Bytes.store_of_le
    rw [length_dwordBytes]
    omega

/-- The bytes of a `qword`. -/
def qwordBytes (v : ℕ) : List UInt8 :=
  dwordBytes (v % 2 ^ 32).toUInt32 ++ dwordBytes (v / 2 ^ 32).toUInt32

theorem length_qwordBytes (v : ℕ) : (qwordBytes v).length = 8 := rfl

theorem qword_store (s : Bytes) (n : ℕ) {v : ℕ} (h : v < 2 ^ 64) :
  (s.store n (qwordBytes v)).qword n = v
  := by
  have hlow : (s.store n (qwordBytes v)).dword n = (v % 2 ^ 32).toUInt32.toNat := by
    apply dword_dwordBytes
    intro j hj
    rw [Bytes.store_of_mem (by rw [length_qwordBytes]; omega)]
    apply List.getElem_append_left
  have hhigh : (s.store n (qwordBytes v)).dword (n + 4) = (v / 2 ^ 32).toUInt32.toNat := by
    apply dword_dwordBytes
    intro j hj
    rw [Nat.add_assoc, Bytes.store_of_mem (by rw [length_qwordBytes]; omega)]
    simp [qwordBytes, List.getElem_append, length_dwordBytes]
  have hvalue : ∀ x < 2 ^ 32, x.toUInt32.toNat = x := fun x hx => UInt32.toNat_ofNat_of_lt' hx
  rw [Bytes.qword, hlow, hhigh, hvalue _ (by omega), hvalue _ (by omega)]
  omega

theorem qword_store_of_ne (v : ℕ) (h : i + 8 ≤ n ∨ n + 8 ≤ i) :
  (s.store n (qwordBytes v)).qword i = s.qword i
  := by
  apply Bytes.qword_congr
  intro j hj
  obtain h | h := h
  · apply Bytes.store_of_lt (by omega)
  · apply Bytes.store_of_le
    rw [length_qwordBytes]
    omega

end Numbers

/-! ### Disks -/

/-- A disk with its number of sectors. -/
structure Disk where
  limit : ℕ
  byte : Bytes

namespace Disk

/-- The sector at an address, if the disk has it. -/
def read (d : Disk) (lba : ℕ) : Option Bytes :=
  if lba < d.limit then some fun i => d.byte (lba * SECTOR_SIZE + i) else none

/-- The disk after a sector has been written, if the disk has it. -/
def write (d : Disk) (lba : ℕ) (data : Bytes) : Option Disk :=
  if lba < d.limit then some { d with byte := d.byte.load (lba * SECTOR_SIZE) data } else none

variable {d : Disk} {lba : ℕ}

theorem read_of_lt (h : lba < d.limit) :
  d.read lba = some fun i => d.byte (lba * SECTOR_SIZE + i)
  := if_pos h

theorem read_eq_some {s : Bytes} (h : d.read lba = some s) :
  lba < d.limit ∧ s = fun i => d.byte (lba * SECTOR_SIZE + i)
  := by
  rw [read] at h
  split_ifs at h with hlt
  cases h
  exact ⟨hlt, rfl⟩

end Disk

end Boot

end UOS
