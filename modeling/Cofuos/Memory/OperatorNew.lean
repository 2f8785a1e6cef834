import Cofuos.Lib.Align
import Cofuos.Lib.Fault

/-!
# Memory of the kernel

`operator new` of `kernel/util/lang.cpp` takes a small block from the heap, and pages for a larger one.
`kernel_vspace::reserve` refuses more than a gigabyte of pages whatever is free, and `operator new` stops
when it does, so that nothing in the kernel is larger than a gigabyte.
-/

namespace UOS

/-- The largest size that is taken from the heap. -/
def hugeSize : ℕ := 0x1000 / 2

/-- The most pages that `kernel_vspace::reserve` finds a place for. -/
def maxReserve : ℕ := 0x40000

/-- The size of the largest block. -/
def maxBlock : ℕ := maxReserve * 0x1000

theorem maxBlock_eq : maxBlock = 2 ^ 30 := by decide

/-- What `operator new` says when it finds no memory. -/
def badAlloc : Fault := .bugcheck "operator new bad alloc size %x"

/-- What the allocators of the kernel have at the time of a request. -/
structure KernelMemory where
  /-- `buddy_heap::allocate` -/
  heapAllocate : ℕ → Option ℕ
  /-- Where so many free pages are found. -/
  search : ℕ → Option ℕ
  /-- There are frames for so many pages from an address on. -/
  commit : ℕ → ℕ → Bool

/-- A block of memory. A length that is far beyond the memory of any machine is not looked at. -/
structure Block (len : ℕ) where
  address : ℕ
  pos : 0 < len
  le : len < 2 ^ 43 → len ≤ maxBlock

namespace KernelMemory

variable (m : KernelMemory)

/-- `kernel_vspace::reserve` of any address. -/
def reserve (pageCount : ℕ) : Option ℕ :=
  if pageCount = 0 ∨ maxReserve < pageCount then none else m.search pageCount

/-- The number of pages for a length. -/
def pageCount (len : ℕ) : ℕ := alignUp 64 len 0x1000 / 2 ^ 12 % 2 ^ 32

variable {m} {len vbase : ℕ}

theorem pageCount_eq (h : len < 2 ^ 43) : pageCount len = (len + 0xFFF) / 0x1000 := by
  have hdiv : alignUp 64 len 0x1000 / 2 ^ 12 = (len + 0x1000 - 1) % 2 ^ 64 / 0x1000 :=
    alignUp_div (by decide)
  rw [pageCount, hdiv]
  lia

theorem le_of_hugeSize (h : len ≤ hugeSize) : len ≤ maxBlock := by
  rw [hugeSize] at h
  rw [maxBlock_eq]
  lia

/-- Pages for more than a gigabyte are not found. -/
theorem le_of_reserve (h : m.reserve (pageCount len) = some vbase) (hlen : len < 2 ^ 43) :
  len ≤ maxBlock
  := by
  rw [reserve, Option.ite_none_left_eq_some, not_or, not_lt, pageCount_eq hlen] at h
  have hle : (len + 0xFFF) / 0x1000 ≤ 0x40000 := h.1.2
  rw [maxBlock_eq]
  lia

variable (m) in
/-- `operator new` -/
def operatorNew (len : ℕ) : Except Fault (Block len) :=
  if h : len = 0 then .error (.bugcheck "operator new invalid size %x")
  else if hle : len ≤ hugeSize then match m.heapAllocate len with
    | some res => .ok ⟨res, Nat.pos_of_ne_zero h, fun _ => le_of_hugeSize hle⟩
    | none => .error badAlloc
  else match hres : m.reserve (pageCount len) with
    | some vbase =>
        if m.commit vbase (pageCount len) then
          .ok ⟨vbase, Nat.pos_of_ne_zero h, le_of_reserve hres⟩
        else .error badAlloc
    | none => .error badAlloc

variable (m) in
/-- There is memory for a block. -/
def Available (len : ℕ) : Prop :=
  if len ≤ hugeSize then (m.heapAllocate len).isSome = true
  else ∃ vbase, m.search (pageCount len) = some vbase ∧ m.commit vbase (pageCount len) = true

/-- Where there is memory, a block is allocated exactly for the sizes from one byte to a
gigabyte. -/
theorem operatorNew_ok_iff (hlen : len < 2 ^ 43) (havl : len ≠ 0 → m.Available len) :
  (∃ b, m.operatorNew len = .ok b) ↔ 0 < len ∧ len ≤ 2 ^ 30
  := by
  constructor
  · rintro ⟨b, -⟩
    rw [← maxBlock_eq]
    exact ⟨b.pos, b.le hlen⟩
  · rintro ⟨hpos, hle⟩
    have h := havl hpos.ne'
    rw [Available] at h
    rw [operatorNew, dif_neg hpos.ne']
    by_cases hhuge : len ≤ hugeSize
    · rw [if_pos hhuge] at h
      obtain ⟨res, hres⟩ := Option.isSome_iff_exists.1 h
      rw [dif_pos hhuge, hres]
      exact ⟨_, rfl⟩
    · rw [if_neg hhuge] at h
      obtain ⟨vbase, hsearch, hcommit⟩ := h
      have hreserve : m.reserve (pageCount len) = some vbase := by
        rw [reserve, pageCount_eq hlen, maxReserve, if_neg (by lia), ← pageCount_eq hlen, hsearch]
      rw [dif_neg hhuge]
      split
      case h_1 vbase' hres =>
        rw [hreserve, Option.some.injEq] at hres
        subst hres
        rw [if_pos hcommit]
        exact ⟨_, rfl⟩
      case h_2 hres =>
        rw [hreserve] at hres
        cases hres

end KernelMemory

end UOS
