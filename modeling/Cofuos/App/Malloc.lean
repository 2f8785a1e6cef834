import Cofuos.Boot.Sectors
import Cofuos.Lib.Align
import Cofuos.Lib.Fault
import Cofuos.Lib.Machine

/-!
# Blocks of the application heap

In front of a block, `malloc` puts a header with the size that it has asked for and with a guard, as
four numbers of 32 bits. `free` compares the guard and gives the size to the operator `delete`, which
gives the block back to the heap or its pages to the kernel. The definitions follow
`app/libuos/uoscrt.cpp`. What the heap and the kernel have given out is a multiset.

The first number holds the lower half of the guard, but `free` compares it with the whole guard. So it
aborts unless the upper half is zero.
-/

namespace UOS

open Fault

namespace Malloc

open Boot

/-- `huge_size` -/
def hugeSize : ℕ := 0x800

/-- What has been taken from the heap, or from the address space. -/
inductive Piece where
  | heap (ptr size : ℕ)
  | pages (va count : ℕ)
  deriving DecidableEq

/-- The number of pages for a size, in a `dword`. -/
def pageCount (size : ℕ) : ℕ := alignUp 64 size 0x1000 / 0x1000 % 2 ^ 32

/-- What the operator `new` takes for a size, if it returns. -/
def piece (ptr size : ℕ) : Piece :=
  if size ≤ hugeSize then .heap ptr size else .pages ptr (pageCount size)

/-- The operator `delete`. -/
def operatorDelete (debug : Bool) (taken : Multiset Piece) (ptr size : ℕ) :
    Except Fault (Multiset Piece) :=
  if ptr = 0 then .ok taken
  else if size ≤ hugeSize then .ok (taken.erase (.heap ptr size))
  else do
    assert debug (ptr % 0x1000 = 0)
    .ok (taken.erase (.pages ptr (pageCount size)))

/-- A `dword` is stored, from a number that may be larger. -/
def storeDword (mem : Bytes) (a x : ℕ) : Bytes := mem.store a (dwordBytes (x % 2 ^ 32).toUInt32)

/-- The size that `malloc` asks for. -/
def blockSize (n : ℕ) : ℕ := (0x10 + alignUp 64 n 8) % 2 ^ 64

/-- The memory after `malloc` has stored the header. -/
def storeHeader (guard size : ℕ) (mem : Bytes) (ptr : ℕ) : Bytes :=
  let mem := storeDword mem ptr guard
  let mem := storeDword mem (ptr + 4) size
  let mem := storeDword mem (ptr + 8) (size / 2 ^ 32)
  storeDword mem (ptr + 12) (guard / 2 ^ 32)

/-- What `free` gives to the operator `delete`, unless it aborts. -/
def readHeader (guard : ℕ) (mem : Bytes) (p : ℕ) : Option (ℕ × ℕ) :=
  let ptr := p - 0x10
  if mem.dword ptr ≠ guard ∨ mem.dword (ptr + 12) ≠ guard / 2 ^ 32 then none
  else some (ptr, mem.dword (ptr + 8) * 2 ^ 32 + mem.dword (ptr + 4))

/-- `free` -/
def free (debug : Bool) (guard : ℕ) (mem : Bytes) (taken : Multiset Piece) (p : ℕ) :
    Except Fault (Multiset Piece) :=
  match readHeader guard mem p with
  | none => .error (.bugcheck "abort")
  | some (ptr, size) => operatorDelete debug taken ptr size

/-! ### Runs -/

/-- The memory, what has been taken, and the blocks that have not been freed, each as the operator
`new` has returned it. -/
structure Runtime where
  mem : Bytes
  taken : Multiset Piece
  live : List (ℕ × ℕ)

/-- What a program does. The heap and the kernel leave some memory behind. -/
inductive Call where
  | malloc (n ptr : ℕ) (mem : Bytes)
  | free (p : ℕ) (mem : Bytes)
  | write (a : ℕ) (v : UInt8)

/-- A step of a program, if `free` does not abort. -/
def step (debug : Bool) (guard : ℕ) (s : Runtime) : Call → Option Runtime
  | .malloc n ptr mem => some
      { mem := storeHeader guard (blockSize n) mem ptr
        taken := piece ptr (blockSize n) ::ₘ s.taken
        live := (ptr, blockSize n) :: s.live }
  | .free p mem =>
      (free debug guard s.mem s.taken p).toOption.map fun taken =>
        { mem := mem, taken := taken, live := s.live.filter fun b => b.1 + 0x10 ≠ p }
  | .write a v => some { s with mem := Function.update s.mem a v }

/-- A program starts without blocks. -/
def machine (debug : Bool) (guard : ℕ) (base : Multiset Piece) : Machine Runtime Call where
  Start s := s.taken = base ∧ s.live = []
  step := step debug guard

/-- The headers of two blocks do not overlap. -/
def Apart (ptr ptr' : ℕ) : Prop := ptr + 0x10 ≤ ptr' ∨ ptr' + 0x10 ≤ ptr

/-- The header of a block is the same in two memories. -/
def SameHeader (mem mem' : Bytes) (ptr : ℕ) : Prop := ∀ j < 0x10, mem' (ptr + j) = mem (ptr + j)

/-- The operator `new` returns memory that is not in use, only blocks that have not been freed are
freed, and the headers of the other blocks are not written to. -/
def Allowed (s : Runtime) : Call → Prop
  | .malloc n ptr mem => n + 0x18 < 2 ^ 64 ∧ ptr ≠ 0 ∧ (hugeSize < blockSize n → ptr % 0x1000 = 0) ∧
      ∀ b ∈ s.live, Apart ptr b.1 ∧ SameHeader s.mem mem b.1
  | .free p mem => (∃ b ∈ s.live, p = b.1 + 0x10) ∧
      ∀ b ∈ s.live, p ≠ b.1 + 0x10 → SameHeader s.mem mem b.1
  | .write a _ => ∀ b ∈ s.live, a < b.1 ∨ b.1 + 0x10 ≤ a

/-- Every block can be freed, and the operator `delete` is given what the operator `new` has
returned. What is taken is what had been taken before and what belongs to the blocks. -/
structure Matches (debug : Bool) (guard : ℕ) (base : Multiset Piece) (s : Runtime) : Prop where
  freed : ∀ b ∈ s.live, ∃ taken, free debug guard s.mem s.taken (b.1 + 0x10) = .ok taken
  passed : ∀ b ∈ s.live, readHeader guard s.mem (b.1 + 0x10) = some b
  taken : s.taken = base + (s.live.map fun b => piece b.1 b.2 : List Piece)

/-! ### Headers -/

/-- The four numbers of a header. -/
structure HeaderAt (guard : ℕ) (mem : Bytes) (b : ℕ × ℕ) : Prop where
  low : mem.dword b.1 = guard % 2 ^ 32
  size : mem.dword (b.1 + 4) = b.2 % 2 ^ 32
  sizeHigh : mem.dword (b.1 + 8) = b.2 / 2 ^ 32
  high : mem.dword (b.1 + 12) = guard / 2 ^ 32

variable {debug : Bool} {guard : ℕ} {base : Multiset Piece} {mem mem' : Bytes} {b : ℕ × ℕ}
  {s s' : Runtime}

theorem dword_storeDword (mem : Bytes) (a x : ℕ) : (storeDword mem a x).dword a = x % 2 ^ 32 :=
  dword_store mem a (Nat.mod_lt _ (by decide))

theorem dword_storeDword_of_ne {a i : ℕ} (x : ℕ) (h : i + 4 ≤ a ∨ a + 4 ≤ i) :
  (storeDword mem a x).dword i = mem.dword i
  := dword_store_of_ne _ h

/-- The header that is stored. -/
theorem headerAt_storeHeader (mem : Bytes) (ptr : ℕ) {size : ℕ} (hguard : guard < 2 ^ 64)
    (hsize : size < 2 ^ 64) :
  HeaderAt guard (storeHeader guard size mem ptr) (ptr, size)
  := by
  constructor
  · rw [storeHeader, dword_storeDword_of_ne _ (by lia), dword_storeDword_of_ne _ (by lia),
      dword_storeDword_of_ne _ (by omega), dword_storeDword]
  · rw [storeHeader, dword_storeDword_of_ne _ (by lia), dword_storeDword_of_ne _ (by lia),
      dword_storeDword]
  · rw [storeHeader, dword_storeDword_of_ne _ (by omega), dword_storeDword]
    apply Nat.mod_eq_of_lt
    lia
  · rw [storeHeader, dword_storeDword]
    apply Nat.mod_eq_of_lt
    lia

/-- Storing a header does not change what lies outside of it. -/
theorem storeHeader_of_apart {size ptr a : ℕ} (h : a < ptr ∨ ptr + 0x10 ≤ a) :
  storeHeader guard size mem ptr a = mem a
  := by
  have hone : ∀ (mem : Bytes) (i x : ℕ), a < i ∨ i + 4 ≤ a → storeDword mem i x a = mem a := by
    rintro mem i x (hlt | hle)
    · apply Bytes.store_of_lt hlt
    · apply Bytes.store_of_le
      rw [length_dwordBytes]
      apply hle
  rw [storeHeader, hone _ _ _ (by lia), hone _ _ _ (by lia), hone _ _ _ (by lia),
    hone _ _ _ (by omega)]

/-- A header whose bytes stay stays. -/
theorem HeaderAt.congr (h : HeaderAt guard mem b) (hsame : SameHeader mem mem' b.1) :
  HeaderAt guard mem' b
  := by
  have hdword : ∀ k ≤ 12, mem'.dword (b.1 + k) = mem.dword (b.1 + k) := by
    intro k hk
    apply Bytes.dword_congr
    intro j hj
    rw [Nat.add_assoc]
    apply hsame _ (by omega)
  have hfirst := hdword 0 (by decide)
  rw [Nat.add_zero] at hfirst
  constructor
  · rw [hfirst, h.low]
  · rw [hdword 4 (by decide), h.size]
  · rw [hdword 8 (by decide), h.sizeHigh]
  · rw [hdword 12 (by decide), h.high]

/-- `free` reads what `malloc` has stored if the guard fits into 32 bits. -/
theorem HeaderAt.readHeader (h : HeaderAt guard mem b) (hguard : guard < 2 ^ 32) :
  readHeader guard mem (b.1 + 0x10) = some b
  := by
  rw [Malloc.readHeader, Nat.add_sub_cancel, h.low, h.high, h.size, h.sizeHigh, Nat.mod_eq_of_lt hguard, if_neg (by simp)]
  congr 2
  lia

/-! ### The invariant -/

/-- The blocks are apart, with their headers, and what is taken belongs to them. -/
structure Kept (guard : ℕ) (base : Multiset Piece) (s : Runtime) : Prop where
  header : ∀ b ∈ s.live, HeaderAt guard s.mem b
  placed : ∀ b ∈ s.live, b.1 ≠ 0 ∧ (hugeSize < b.2 → b.1 % 0x1000 = 0)
  apart : s.live.Pairwise fun b b' => Apart b.1 b'.1
  taken : s.taken = base + (s.live.map fun b => piece b.1 b.2 : List Piece)

/-- The operator `delete` gives back what the operator `new` has taken. -/
theorem operatorDelete_eq {taken : Multiset Piece} (hptr : b.1 ≠ 0)
    (haligned : hugeSize < b.2 → b.1 % 0x1000 = 0) :
  operatorDelete debug taken b.1 b.2 = .ok (taken.erase (piece b.1 b.2))
  := by
  rw [operatorDelete, piece, if_neg hptr]
  by_cases hsize : b.2 ≤ hugeSize
  · rw [if_pos hsize, if_pos hsize]
  · rw [if_neg hsize, if_neg hsize, assert_eq_ok fun _ => haligned (by omega)]
    rfl

/-- If the guard fits into 32 bits, every block can be freed. -/
theorem Kept.free_eq (h : Kept guard base s) (hguard : guard < 2 ^ 32) (hb : b ∈ s.live) :
  free debug guard s.mem s.taken (b.1 + 0x10) = .ok (s.taken.erase (piece b.1 b.2))
  := by
  rw [free, (h.header b hb).readHeader hguard]
  apply operatorDelete_eq (h.placed b hb).1 (h.placed b hb).2

theorem Kept.matches (h : Kept guard base s) (hguard : guard < 2 ^ 32) :
  Matches debug guard base s
  := by
  constructor
  · intro b hb
    exact ⟨_, h.free_eq hguard hb⟩
  · intro b hb
    apply (h.header b hb).readHeader hguard
  · apply h.taken

/-- One block is removed from blocks that are apart. -/
theorem map_filter_eq {l : List (ℕ × ℕ)} (hl : l.Pairwise fun b b' => Apart b.1 b'.1) (hb : b ∈ l)
    (f : ℕ × ℕ → Piece) :
  (l.map f : Multiset Piece) = f b ::ₘ ((l.filter fun c => c.1 + 0x10 ≠ b.1 + 0x10).map f : List Piece)
  := by
  induction l with
  | nil => cases hb
  | cons c l ih =>
      obtain ⟨hhead, htail⟩ := List.pairwise_cons.1 hl
      have hne : ∀ d ∈ l, d.1 + 0x10 ≠ c.1 + 0x10 := by
        intro d hd
        have hapart := hhead d hd
        rw [Apart] at hapart
        omega
      rcases List.mem_cons.1 hb with rfl | hb
      · rw [List.filter_cons_of_neg (by simp), List.filter_eq_self.2 (by simpa using hne)]
        rfl
      · have hc : (c.1 + 0x10 ≠ b.1 + 0x10) := (hne b hb).symm
        rw [List.filter_cons_of_pos (by simpa using hc), List.map_cons, List.map_cons,
          ← Multiset.cons_coe, ih htail hb, Multiset.cons_swap]
        rfl

/-- A header of `malloc` is well formed. -/
theorem blockSize_lt (n : ℕ) : blockSize n < 2 ^ 64 := Nat.mod_lt _ (by decide)

/-- A step keeps the invariant. -/
theorem Kept.step {c : Call} (h : Kept guard base s) (hguard : guard < 2 ^ 32) (hc : Allowed s c)
    (hs : step debug guard s c = some s') :
  Kept guard base s'
  := by
  cases c with
  | malloc n ptr mem =>
      cases hs
      obtain ⟨-, hptr, haligned, hlive⟩ := hc
      constructor
      · intro b hb
        rcases List.mem_cons.1 hb with rfl | hb
        · apply headerAt_storeHeader mem ptr (by omega) (blockSize_lt n)
        · apply ((h.header b hb).congr (hlive b hb).2).congr
          intro j hj
          apply storeHeader_of_apart
          have hapart := (hlive b hb).1
          rw [Apart] at hapart
          lia
      · intro b hb
        rcases List.mem_cons.1 hb with rfl | hb
        · exact ⟨hptr, haligned⟩
        · apply h.placed b hb
      · apply List.pairwise_cons.2
        exact ⟨fun b hb => (hlive b hb).1, h.apart⟩
      · dsimp only
        rw [h.taken, List.map_cons, ← Multiset.cons_coe, Multiset.add_cons]
  | free p mem =>
      obtain ⟨⟨b, hb, rfl⟩, hsame⟩ := hc
      rw [Malloc.step, h.free_eq hguard hb] at hs
      cases hs
      constructor
      · intro c hc
        obtain ⟨hmem, hne⟩ := List.mem_filter.1 hc
        apply (h.header c hmem).congr
        apply hsame c hmem
        have hne' := of_decide_eq_true hne
        apply Ne.symm hne'
      · intro c hc
        apply h.placed c (List.mem_filter.1 hc).1
      · apply h.apart.filter
      · dsimp only
        rw [h.taken, map_filter_eq h.apart hb, Multiset.add_cons, Multiset.erase_cons_head]
  | write a v =>
      cases hs
      constructor
      · intro b hb
        apply (h.header b hb).congr
        intro j hj
        apply Function.update_of_ne
        have hout := hc b hb
        lia
      · apply h.placed
      · apply h.apart
      · apply h.taken

/-- A program that has one block. -/
theorem reachable_one (debug : Bool) (guard : ℕ) (base : Multiset Piece) :
  ∃ s, (machine debug guard base).Reachable Allowed s ∧ s.live = [(0x1000, 0x10)]
  := by
  have h₀ : (machine debug guard base).Reachable Allowed ⟨fun _ => 0, base, []⟩ := .start ⟨rfl, rfl⟩
  have h₁ := h₀.step (Call.malloc 0 0x1000 fun _ => 0)
    ⟨by decide, by decide, by decide, fun b hb => by cases hb⟩ rfl
  exact ⟨_, h₁, rfl⟩

/-- A guard that does not fit into 32 bits is not read back. -/
theorem lt_of_readHeader {ptr : ℕ} {r : ℕ × ℕ}
    (h : readHeader guard mem ptr = some r) :
  guard < 2 ^ 32
  := by
  rw [readHeader] at h
  split_ifs at h with hbad
  rw [← not_not.1 (not_or.1 hbad).1]
  apply Bytes.dword_lt

/-- In every run of a program `malloc` and `free` match exactly if the guard fits into 32 bits. -/
theorem matches_iff (debug : Bool) (guard : UInt64) (base : Multiset Piece) :
  (∀ s, (machine debug guard.toNat base).Reachable Allowed s → Matches debug guard.toNat base s) ↔
    guard.toNat < 2 ^ 32
  := by
  constructor
  · intro hall
    obtain ⟨s, hs, hlive⟩ := reachable_one debug guard.toNat base
    apply lt_of_readHeader ((hall s hs).passed (0x1000, 0x10) (by rw [hlive]; simp))
  · intro hguard s hs
    apply Kept.matches _ hguard
    apply hs.invariant (P := Kept guard.toNat base)
    · rintro s ⟨htaken, hlive⟩
      constructor
      · simp [hlive]
      · simp [hlive]
      · simp [hlive]
      · simp [hlive, htaken]
    · intro s c s' hk hc hstep
      exact hk.step hguard hc hstep

/-- With the guard `2 ^ 32` the first block that is freed ends the program. -/
theorem large_guard_aborts :
  ¬ ∀ (debug : Bool) (guard : UInt64) (base : Multiset Piece) (s : Runtime),
    (machine debug guard.toNat base).Reachable Allowed s → Matches debug guard.toNat base s
  := by
  intro hall
  obtain ⟨s, hs, hlive⟩ := reachable_one false (0x100000000 : UInt64).toNat 0
  have hpassed := (hall false 0x100000000 0 s hs).passed (0x1000, 0x10) (by rw [hlive]; simp)
  have hlt := lt_of_readHeader hpassed
  revert hlt
  decide

end Malloc

end UOS
