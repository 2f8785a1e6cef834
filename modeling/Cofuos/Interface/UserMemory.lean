import Cofuos.Boot.Sectors

/-!
# Moving data from and to a process

`user_vspace::write`, `user_vspace::read` and `user_vspace::zero` of
`kernel/memory/user_vspace.cpp` move data page by page, up to the first page that is not mapped for
it, and return the number of bytes they have moved.

The memory of a process is given by the bytes at its addresses and by what the entries of its pages
say. Addresses of the kernel are left out: they are not given to the process.
-/

namespace UOS

/-- The memory of a process. -/
structure UserMemory where
  byte : Boot.Bytes
  /-- The page is present and belongs to the process. -/
  pageUser : ℕ → Bool
  /-- The page can also be written. -/
  pageWrite : ℕ → Bool

namespace UserMemory

/-- `PAGE_SIZE` -/
def PAGE_SIZE : ℕ := 0x1000

/-- The loop of `write`, `read` and `zero`, with what is done for the part of the data that lies in
a page. -/
def transfer {α : Type} (ok : ℕ → Bool) (move : ℕ → ℕ → ℕ → α → α) (length : ℕ) :
    ℕ → ℕ → ℕ → α → ℕ × α
  | 0, _, count, a => (count, a)
  | n + 1, va, count, a =>
    if count < length then
      if ok (va / PAGE_SIZE) = true then
        let len := min (length - count) (PAGE_SIZE - va % PAGE_SIZE)
        transfer ok move length n (va + len) (count + len) (move va count len a)
      else
        (count, a)
    else
      (count, a)

/-- The memory after bytes have been copied to an address. -/
def fill (m : UserMemory) (va n : ℕ) (data : Boot.Bytes) : UserMemory :=
  { m with byte := m.byte.fill va n data }

/-- A page that the kernel may write to for the process. -/
def writable (m : UserMemory) (page : ℕ) : Bool := m.pageUser page && m.pageWrite page

/-- `user_vspace::write` -/
def write (m : UserMemory) (va : ℕ) (data : Boot.Bytes) (length : ℕ) : ℕ × UserMemory :=
  transfer m.writable (fun va count len m => m.fill va len fun i => data (count + i))
    length length va 0 m

/-- `user_vspace::zero` -/
def zero (m : UserMemory) (va length : ℕ) : ℕ × UserMemory :=
  transfer m.writable (fun va _ len m => m.fill va len fun _ => 0) length length va 0 m

/-- `user_vspace::read` -/
def read (m : UserMemory) (va : ℕ) (buffer : Boot.Bytes) (off length : ℕ) : ℕ × Boot.Bytes :=
  transfer m.pageUser
    (fun va count len buffer => buffer.fill (off + count) len fun i => m.byte (va + i))
    length length va 0 buffer

theorem fill_zero (m : UserMemory) (va : ℕ) (data : Boot.Bytes) : m.fill va 0 data = m := by
  rw [fill, Boot.Bytes.fill_zero]

/-- Copying in two pieces is copying. -/
theorem fill_fill (m : UserMemory) (va n n' : ℕ) (data : Boot.Bytes) :
  (m.fill va n data).fill (va + n) n' (fun i => data (n + i)) = m.fill va (n + n') data
  := by
  rw [fill, fill, fill, Boot.Bytes.fill_fill]

/-- Only the bytes that are copied matter. -/
theorem fill_congr {m : UserMemory} {va n : ℕ} {data data' : Boot.Bytes}
    (h : ∀ i < n, data i = data' i) :
  m.fill va n data = m.fill va n data'
  := by
  rw [fill, fill]
  congr 1
  funext a
  simp only [Boot.Bytes.fill]
  split_ifs with hin
  · apply h
    omega
  · rfl

/-- Copying does not change which pages can be written. -/
@[simp]
theorem fill_writable (m : UserMemory) (va n : ℕ) (data : Boot.Bytes) :
  (m.fill va n data).writable = m.writable
  := rfl

/-! ### How much is moved -/

/-- The number of bytes from an address on that lie in pages that are mapped for it, of so many. -/
def accepted (ok : ℕ → Bool) (va : ℕ) : ℕ → ℕ
  | 0 => 0
  | n + 1 => if ok (va / PAGE_SIZE) = true then accepted ok (va + 1) n + 1 else 0

variable {ok : ℕ → Bool} {va n : ℕ}

theorem accepted_le (ok : ℕ → Bool) (va n : ℕ) : accepted ok va n ≤ n := by
  induction n generalizing va with
  | zero => exact le_rfl
  | succ n ih =>
      rw [accepted]
      have := ih (va + 1)
      split_ifs <;> lia

/-- Everything is moved when all pages are mapped. -/
theorem accepted_eq (h : ∀ i < n, ok ((va + i) / PAGE_SIZE) = true) : accepted ok va n = n := by
  induction n generalizing va with
  | zero => rfl
  | succ n ih =>
      have hfirst : ok (va / PAGE_SIZE) = true := h 0 (by omega)
      rw [accepted, if_pos hfirst, ih]
      intro i hi
      rw [Nat.add_assoc, Nat.add_comm 1]
      apply h
      omega

/-- The bytes that are moved lie in pages that are mapped. -/
theorem ok_of_lt_accepted {i : ℕ} (h : i < accepted ok va n) :
  ok ((va + i) / PAGE_SIZE) = true
  := by
  induction n generalizing va i with
  | zero => cases h
  | succ n ih =>
      rw [accepted] at h
      split_ifs at h with hok
      · cases i with
        | zero => exact hok
        | succ i =>
            rw [← Nat.add_assoc, Nat.add_right_comm]
            apply ih
            omega
      · cases h

/-- When everything is moved, so is what follows as far as it is mapped. -/
theorem accepted_append {m : ℕ} (h : accepted ok va n = n) :
  accepted ok va (n + m) = n + accepted ok (va + n) m
  := by
  induction n generalizing va with
  | zero => rw [Nat.zero_add, Nat.zero_add, Nat.add_zero]
  | succ n ih =>
      rw [accepted] at h
      split_ifs at h with hok
      rw [Nat.succ_add, accepted, if_pos hok, ih (by lia), show va + 1 + n = va + (n + 1) by lia]
      omega

/-- What follows a page that is not mapped is not moved. -/
theorem accepted_of_lt {m : ℕ} (h : accepted ok va n < n) (hle : n ≤ m) :
  accepted ok va m = accepted ok va n
  := by
  induction n generalizing va m with
  | zero => omega
  | succ n ih =>
      obtain ⟨m, rfl⟩ : ∃ k, m = k + 1 := ⟨m - 1, by lia⟩
      rw [accepted] at h
      rw [accepted, accepted]
      split_ifs at h ⊢ with hok
      · rw [ih (by lia) (by lia)]
      · rfl

/-- A part that lies in one page is moved, and then the rest. -/
theorem accepted_add (hok : ok (va / PAGE_SIZE) = true) {len : ℕ}
    (hlen : len ≤ PAGE_SIZE - va % PAGE_SIZE) :
  accepted ok va (len + n) = len + accepted ok (va + len) n
  := by
  induction len generalizing va with
  | zero => rw [Nat.zero_add, Nat.zero_add, Nat.add_zero]
  | succ len ih =>
      rw [Nat.succ_add, accepted, if_pos hok]
      cases len with
      | zero => rw [Nat.zero_add, Nat.zero_add, Nat.add_comm]
      | succ len =>
          have hpage : (va + 1) / PAGE_SIZE = va / PAGE_SIZE := by
            rw [PAGE_SIZE] at hlen ⊢
            lia
          rw [ih (by rw [hpage]; exact hok) (by rw [PAGE_SIZE] at hlen ⊢; lia),
            show va + 1 + (len + 1) = va + (len + 1 + 1) by omega]
          lia

/-- What the loop does, when the pieces that are moved can be put together. -/
theorem transfer_eq {α : Type} {move : ℕ → ℕ → ℕ → α → α}
    (hzero : ∀ va count a, move va count 0 a = a)
    (hadd : ∀ va count n m a, move (va + n) (count + n) m (move va count n a)
      = move va count (n + m) a)
    {length fuel count : ℕ} (hfuel : length ≤ count + fuel) (a : α) :
  transfer ok move length fuel va count a =
    (count + accepted ok va (length - count), move va count (accepted ok va (length - count)) a)
  := by
  induction fuel generalizing va count a with
  | zero =>
      rw [transfer, show length - count = 0 by lia, accepted, hzero, Nat.add_zero]
  | succ fuel ih =>
      rw [transfer]
      by_cases hlt : count < length
      · rw [if_pos hlt]
        by_cases hok : ok (va / PAGE_SIZE) = true
        · rw [if_pos hok]
          obtain ⟨len, hlen⟩ : ∃ len, len = min (length - count) (PAGE_SIZE - va % PAGE_SIZE) :=
            ⟨_, rfl⟩
          dsimp only
          rw [← hlen]
          have hpage := Nat.mod_lt va (show 0 < PAGE_SIZE by decide)
          rw [ih (by lia), hadd, show length - count = len + (length - (count + len)) by lia,
            accepted_add hok (by lia), Nat.add_assoc]
        · rw [if_neg hok, show length - count = length - count - 1 + 1 by lia, accepted,
            if_neg hok, hzero, Nat.add_zero]
      · rw [if_neg hlt, show length - count = 0 by lia, accepted, hzero, Nat.add_zero]

/-- `write` copies the bytes up to the first page that cannot be written. -/
theorem write_eq (m : UserMemory) (va : ℕ) (data : Boot.Bytes) (length : ℕ) :
  m.write va data length =
    (accepted m.writable va length, m.fill va (accepted m.writable va length) data)
  := by
  rw [write, transfer_eq, Nat.zero_add]
  · simp only [Nat.zero_add, Nat.sub_zero]
  · intro va count m
    apply fill_zero
  · intro va count n n' m
    simp only [Nat.add_assoc]
    apply fill_fill m va n n' (fun i => data (count + i))
  · omega

/-- `zero` clears the bytes up to the first page that cannot be written. -/
theorem zero_eq (m : UserMemory) (va length : ℕ) :
  m.zero va length =
    (accepted m.writable va length, m.fill va (accepted m.writable va length) fun _ => 0)
  := by
  rw [zero, transfer_eq, Nat.zero_add]
  · simp only [Nat.sub_zero]
  · intro va count m
    apply fill_zero
  · intro va count n n' m
    apply fill_fill m va n n' (fun _ => 0)
  · omega

/-- `read` copies the bytes up to the first page that is not present. -/
theorem read_eq (m : UserMemory) (va : ℕ) (buffer : Boot.Bytes) (off length : ℕ) :
  m.read va buffer off length = (accepted m.pageUser va length,
    buffer.fill off (accepted m.pageUser va length) fun i => m.byte (va + i))
  := by
  rw [read, transfer_eq, Nat.zero_add]
  · simp only [Nat.sub_zero, Nat.add_zero]
  · intro va count buffer
    rw [Boot.Bytes.fill_zero]
  · intro va count n n' buffer
    simp only [Nat.add_assoc]
    rw [← Boot.Bytes.fill_fill buffer (fun i => m.byte (va + i))]
    simp only [Nat.add_assoc]
  · omega

end UserMemory

end UOS
