import Cofuos.Boot.KernelStack
import Cofuos.Boot.Sectors

/-!
# The sections of the kernel

`load_image` takes frames for the sections of the kernel, maps them, reads what the file has of a
section, clears the rest of it, and sets the attributes of its pages. The definitions follow
`boot/krnldr.asm` from `.section` on.

A section that has nothing in the file is mapped, but not cleared. It contains what was in its
frames.
-/

namespace UOS

open Fault

namespace KernelImage

open Boot KernelStack

def HIGHADDR : ℕ := 0xFFFF800000000000

/-- What the loader knows of the kernel and of its file. -/
structure Loader where
  vbase : ℕ
  vbase_lt : vbase < 2 ^ 64
  /-- The address has been compared with this one. -/
  vbase_le : HIGHADDR + 0x1000000 ≤ vbase
  entry : UInt32
  /-- The entries of `PDT0` that point to a table. -/
  pdt : ℕ → Bool
  /-- A cluster has `2 ^ shift` sectors. -/
  shift : ℕ
  /-- The size of a cluster has been used as a divisor. -/
  shift_lt : shift < 23
  lbaHeap : ℕ
  /-- The table at `FAT_KRNL_CLUSTER`. -/
  cluster : ℕ → UInt32
  /-- What `read_sector` reads, if it does not fail. -/
  readSector : ℕ → Option Bytes

/-- What changes while the sections are loaded. -/
structure Machine where
  kernelPage : ℕ
  /-- The entries of the page tables, one table after the other. -/
  table : Table
  memory : Bytes

/-- What the header says of a section. -/
structure Section where
  memSize : ℕ
  rva : ℕ
  fileSize : ℕ
  fileOff : ℕ
  attrib : ℕ

/-- The section that is described at an offset. -/
def sectionAt (h : Bytes) (i : ℕ) : Section :=
  { memSize := h.dword (i + 8)
    rva := h.dword (i + 0xC)
    fileSize := h.dword (i + 0x10)
    fileOff := h.dword (i + 0x14)
    attrib := h.dword (i + 0x24) }

/-- The sections that are described from an offset on. -/
def sections (h : Bytes) (i count : ℕ) : List Section :=
  (List.range count).map fun k => sectionAt h (i + 0x28 * k)

namespace Section

variable (s : Section)

/-- `discard`, bit 9 of the upper half -/
def discard : Bool := (s.attrib / 2 ^ 16).testBit 9

/-- `X`, bit 13 of the upper half -/
def attribX : Bool := (s.attrib / 2 ^ 16).testBit 13

/-- `W`, bit 15 of the upper half -/
def attribW : Bool := (s.attrib / 2 ^ 16).testBit 15

/-- `sec_page_count` -/
def pageCount : ℕ :=
  if s.memSize % 0x1000 = 0 then s.memSize / 0x1000 else (s.memSize + 0x1000) % 2 ^ 32 / 0x1000

/-- The size that is left to clear. A difference with a sign counts as zero. -/
def rest : ℕ :=
  if 2 ^ 31 ≤ (s.memSize + 2 ^ 32 - s.fileSize) % 2 ^ 32 then 0
  else (s.memSize + 2 ^ 32 - s.fileSize) % 2 ^ 32

/-- An entry with the attributes of the section. -/
def protect (pt : PTE) : PTE :=
  { present := true
    write := s.attribW
    global := true
    xd := !s.attribX
    pageAddr := pt.pageAddr
    data := pt.data
    preserve := pt.preserve
    bypass := pt.bypass }

end Section

variable (l : Loader)

/-! ### Pages -/

/-- `get_PT`, with the index of the entry. -/
def getPT (va : ℕ) : Except Fault ℕ :=
  if va < HIGHADDR + 0x10000 ∨ 0x40000000 ≤ va % 2 ^ 32 ∨ l.pdt (va % 2 ^ 32 / 2 ^ 21) = false then
    .error (.bugcheck "BugCheck")
  else .ok (va % 2 ^ 32 / 0x1000)

/-- `map_page` -/
def mapPage (m : Machine) (va : ℕ) (pt : PTE) : Except Fault Machine := do
  let i ← getPT l va
  return { m with table := Function.update m.table i pt }

/-- The rounds of `.virtual_alloc`. -/
def virtualAlloc : ℕ → ℕ → Machine → Except Fault Machine
  | 0, _, m => .ok m
  | n + 1, va, m => do
      let (frame, kernelPage) ← pmmAlloc m.kernelPage
      let m ← mapPage l { m with kernelPage := kernelPage } va (stackPage frame)
      virtualAlloc n (va + 0x1000) m

/-- The rounds of `virtual_protect`. -/
def virtualProtect (s : Section) : ℕ → ℕ → Machine → Except Fault Machine
  | 0, _, m => .ok m
  | n + 1, va, m => do
      let i ← getPT l va
      virtualProtect s n (va + 0x1000)
        { m with table := Function.update m.table i (s.protect (m.table i)) }

/-- The place in memory that an address stands for, if its page passes a test. -/
def access (table : Table) (test : PTE → Bool) (va : ℕ) : Except Fault ℕ :=
  let pt := table (va % 2 ^ 32 / 0x1000)
  if HIGHADDR ≤ va ∧ va < HIGHADDR + 0x40000000 ∧ l.pdt (va % 2 ^ 32 / 2 ^ 21) = true ∧
      pt.present = true ∧ test pt = true then
    .ok (pt.pageAddr * 0x1000 + va % 0x1000)
  else .error (.bugcheck "page fault")

/-- So many bytes are written, one after the other. -/
def pokes (src : Bytes) (va : ℕ) : ℕ → Machine → Except Fault Machine
  | 0, m => .ok m
  | n + 1, m => do
      let m ← pokes src va n m
      let place ← access l m.table PTE.write (va + n)
      return { m with memory := Function.update m.memory place (src n) }

/-! ### The file -/

/-- The rounds of `read_file`, from a sector of the file on. -/
def readRounds : ℕ → ℕ → ℕ → Machine → Except Fault Machine
  | 0, _, _, m => .ok m
  | n + 1, va, i, m =>
      let product := (l.cluster (i / 2 ^ l.shift) - 2).toNat * 2 ^ l.shift
      if 2 ^ 32 ≤ product then .error (.bugcheck "BugCheck")
      else match l.readSector (l.lbaHeap + (product + i % 2 ^ l.shift) % 2 ^ 32) with
        | none => .error (.bugcheck "BugCheck")
        | some data => do
            let m ← pokes l data va SECTOR_SIZE m
            readRounds n (va + SECTOR_SIZE) (i + 1) m

/-- `read_file`. It is never called for nothing. -/
def readFile (va off size : ℕ) (m : Machine) : Except Fault Machine :=
  if off % SECTOR_SIZE ≠ 0 ∨ size % SECTOR_SIZE ≠ 0 then .error (.bugcheck "BugCheck")
  else readRounds l (size / SECTOR_SIZE) va (off / SECTOR_SIZE) m

/-! ### Sections -/

/-- `sec_vbase` -/
def secVbase (s : Section) : ℕ := (l.vbase + s.rva) % 2 ^ 64

/-- What is done between `.virtual_alloc` and `.nofile`. -/
def fillSection (s : Section) (m : Machine) : Except Fault Machine :=
  let va := secVbase l s
  if s.fileSize = 0 then .ok m
  else do
    let m ← readFile l va s.fileOff s.fileSize m
    -- `stosq` and `stosb`
    let m ← pokes l (fun _ => 0) (va + s.fileSize) (s.rest / 8 * 8) m
    pokes l (fun _ => 0) (va + s.fileSize + s.rest / 8 * 8) (s.rest % 8) m

/-- A round of `.section`. -/
def loadSection (m : Machine) (s : Section) : Except Fault Machine :=
  if s.discard = true then .ok m
  else do
    -- the counter is tested after it has been decremented
    let count := if s.pageCount = 0 then 2 ^ 32 else s.pageCount
    let m ← virtualAlloc l count (secVbase l s) m
    let m ← fillSection l s m
    virtualProtect l s s.pageCount (secVbase l s) m

/-- `load_image` from `.section` on, until the first instruction of the kernel is fetched. -/
def loadImage (h : Bytes) (i count : ℕ) (m : Machine) : Except Fault Machine := do
  let m ← (sections h i count).foldlM (loadSection l) m
  let m ← mapPage l m (HIGHADDR + 0x10000) {}
  let _ ← access l m.table (fun pt => !pt.xd) ((l.vbase + l.entry.toNat) % 2 ^ 64)
  return m

/-! ### What is wanted of the sections -/

/-- The sector of the volume with a sector of the file. -/
def lba (i : ℕ) : ℕ :=
  l.lbaHeap + (l.cluster (i / 2 ^ l.shift) - 2).toNat * 2 ^ l.shift + i % 2 ^ l.shift

/-- A byte of the file, if it can be read. -/
def fileByte (o : ℕ) : Option UInt8 :=
  (l.readSector (lba l (o / SECTOR_SIZE))).map fun data => data (o % SECTOR_SIZE)

/-- What a section should contain. -/
def content (s : Section) (o : ℕ) : Option UInt8 :=
  if o < s.fileSize then fileByte l (s.fileOff + o) else some 0

/-- The entry of a page of a section. -/
def pageOf (table : Table) (s : Section) (j : ℕ) : PTE :=
  table ((l.vbase + s.rva + 0x1000 * j) % 2 ^ 32 / 0x1000)

/-- A section contains what it should, and its pages have its attributes. -/
structure Loaded (m : Machine) (s : Section) : Prop where
  content : ∀ o < s.memSize, ∃ place,
    access l m.table (fun _ => true) (l.vbase + s.rva + o) = .ok place ∧
      content l s o = some (m.memory place)
  write : ∀ j, 0x1000 * j < s.memSize →
    ((pageOf l m.table s j).write = true ↔ s.attrib.testBit 31 = true)
  noExecute : ∀ j, 0x1000 * j < s.memSize →
    ((pageOf l m.table s j).xd = true ↔ ¬ s.attrib.testBit 29 = true)

/-- The sections are loaded, and their pages have frames of their own. -/
structure AllLoaded (m : Machine) (ss : List Section) : Prop where
  loaded : ∀ s ∈ ss, s.discard = false → Loaded l m s
  frames : ∀ s ∈ ss, ∀ t ∈ ss, s.discard = false → t.discard = false →
    ∀ j j', 0x1000 * j < s.memSize → 0x1000 * j' < t.memSize →
      (pageOf l m.table s j).pageAddr = (pageOf l m.table t j').pageAddr →
        s.rva + 0x1000 * j = t.rva + 0x1000 * j'

/-- A section lies in pages of the window of the kernel. -/
structure Placed (s : Section) : Prop where
  pos : 0 < s.memSize
  aligned : (l.vbase + s.rva) % 0x1000 = 0
  window : (l.vbase + s.rva) / 2 ^ 21 = l.vbase / 2 ^ 21
  inside : (l.vbase + s.rva) % 2 ^ 21 + s.memSize ≤ 2 ^ 21
  fileOff : s.fileOff % SECTOR_SIZE = 0
  fileSize : s.fileSize % SECTOR_SIZE = 0
  fits : s.fileSize ≤ (s.memSize + 0xFFF) / 0x1000 * 0x1000

/-- The sections that are not discarded lie in pages of the window, and do not overlap. -/
structure WellFormed (ss : List Section) : Prop where
  placed : ∀ s ∈ ss, s.discard = false → Placed l s
  disjoint : ss.Pairwise fun s t => s.discard = false → t.discard = false →
    s.rva + s.memSize ≤ t.rva ∨ t.rva + t.memSize ≤ s.rva

/-! ### Writing -/

section

variable {l} {m m' : Machine} {s : Section} {va base p n : ℕ}

/-- Addresses that can be written stand for consecutive places. -/
def Mapped (table : Table) (test : PTE → Bool) (va base n : ℕ) : Prop :=
  ∀ o < n, access l table test (va + o) = .ok (base + o)

theorem Mapped.sub {table : Table} {test : PTE → Bool} {o k : ℕ}
    (h : Mapped (l := l) table test va base n) (hle : o + k ≤ n) :
  Mapped (l := l) table test (va + o) (base + o) k
  := by
  intro i hi
  rw [Nat.add_assoc, Nat.add_assoc]
  apply h
  omega

/-- What is written is found in memory. -/
theorem pokes_eq (src : Bytes) (h : Mapped (l := l) m.table PTE.write va base n) :
  pokes l src va n m = .ok { m with memory := m.memory.fill base n src }
  := by
  induction n with
  | zero => rw [pokes, Bytes.fill_zero]
  | succ n ih =>
      rw [pokes, ih fun o ho => h o (by omega)]
      have hlast := h n (Nat.lt_succ_self n)
      change (access l m.table PTE.write (va + n) >>= _) = _
      rw [hlast, ← Bytes.fill_fill]
      have hupdate : ∀ b : Bytes, Function.update b (base + n) (src n) =
          b.fill (base + n) 1 fun i => src (n + i) := by
        intro b
        funext a
        by_cases ha : a = base + n
        · have hfirst : b.fill (base + n) 1 (fun i => src (n + i)) (base + n + 0) = src (n + 0) :=
            Bytes.fill_of_mem Nat.one_pos
          rw [ha, Function.update_self]
          exact hfirst.symm
        · rw [Function.update_of_ne ha, Bytes.fill_of_not_mem (by omega)]
      rw [← hupdate]
      rfl

theorem pokes_eq_ok {src : Bytes} (h : pokes l src va n m = .ok m')
    (hmap : Mapped (l := l) m.table PTE.write va base n) :
  m' = { m with memory := m.memory.fill base n src }
  := by
  rw [pokes_eq src hmap] at h
  cases h
  rfl

/-- The number of a sector is found without a carry. -/
theorem lba_eq {i : ℕ} (h : (l.cluster (i / 2 ^ l.shift) - 2).toNat * 2 ^ l.shift < 2 ^ 32) :
  l.lbaHeap + ((l.cluster (i / 2 ^ l.shift) - 2).toNat * 2 ^ l.shift + i % 2 ^ l.shift) % 2 ^ 32 =
    lba l i
  := by
  have hshift := l.shift_lt
  have hpow : 2 ^ (32 - l.shift) * 2 ^ l.shift = 2 ^ 32 := by
    rw [← Nat.pow_add, Nat.sub_add_cancel (by omega)]
  have hcluster : (l.cluster (i / 2 ^ l.shift) - 2).toNat < 2 ^ (32 - l.shift) := by
    rw [← hpow] at h
    apply Nat.lt_of_mul_lt_mul_right h
  have hnext := Nat.mul_le_mul_right (2 ^ l.shift) (Nat.succ_le_of_lt hcluster)
  have hrest := Nat.mod_lt i (Nat.two_pow_pos l.shift)
  rw [Nat.succ_mul, hpow] at hnext
  rw [Nat.mod_eq_of_lt (by omega), lba, Nat.add_assoc]

/-- The sectors of the file are found in memory, one after the other. -/
theorem readRounds_eq_ok {i : ℕ} (h : readRounds l n va i m = .ok m')
    (hmap : Mapped (l := l) m.table PTE.write va base (n * SECTOR_SIZE)) :
  m' = { m with memory :=
      m.memory.fill base (n * SECTOR_SIZE) fun o => (fileByte l (i * SECTOR_SIZE + o)).getD 0 } ∧
    ∀ o < n * SECTOR_SIZE, (fileByte l (i * SECTOR_SIZE + o)).isSome = true
  := by
  induction n generalizing va base i m with
  | zero =>
      cases h
      rw [Nat.zero_mul, Bytes.fill_zero]
      exact ⟨rfl, fun o ho => absurd ho (Nat.not_lt_zero o)⟩
  | succ n ih =>
      rw [readRounds] at h
      split_ifs at h with hproduct
      rw [lba_eq (by omega)] at h
      rcases hread : l.readSector (lba l i) with _ | data
      · rw [hread] at h
        cases h
      rw [hread] at h
      dsimp only at h
      rw [Nat.succ_mul] at hmap
      have hfirst : Mapped (l := l) m.table PTE.write va base SECTOR_SIZE :=
        hmap.sub (o := 0) (by omega)
      rw [Except.bind_eq_ok_iff] at h
      obtain ⟨m₁, hpokes, h⟩ := h
      obtain rfl := pokes_eq_ok hpokes hfirst
      obtain ⟨rfl, hsome⟩ := ih h (hmap.sub (by omega))
      have hbyte : ∀ o < SECTOR_SIZE, fileByte l (i * SECTOR_SIZE + o) = some (data o) := by
        intro o ho
        rw [fileByte, show (i * SECTOR_SIZE + o) / SECTOR_SIZE = i by
            rw [SECTOR_SIZE] at ho ⊢
            omega,
          show (i * SECTOR_SIZE + o) % SECTOR_SIZE = o by
            rw [SECTOR_SIZE] at ho ⊢
            omega, hread]
        rfl
      have hlater : ∀ o, (i + 1) * SECTOR_SIZE + o = i * SECTOR_SIZE + (SECTOR_SIZE + o) := by
        intro o
        rw [Nat.succ_mul, Nat.add_assoc]
      constructor
      · have hsector : m.memory.fill base SECTOR_SIZE data = m.memory.fill base SECTOR_SIZE
            fun o => (fileByte l (i * SECTOR_SIZE + o)).getD 0 := by
          apply Bytes.fill_congr
          intro o ho
          rw [hbyte o ho]
          rfl
        simp only [hlater]
        rw [hsector, Bytes.fill_fill, Nat.succ_mul, Nat.add_comm SECTOR_SIZE]
      · intro o ho
        by_cases hlow : o < SECTOR_SIZE
        · rw [hbyte o hlow]
          rfl
        · have hnext := hsome (o - SECTOR_SIZE) (by rw [Nat.succ_mul] at ho; omega)
          rwa [hlater, Nat.add_sub_cancel' (by omega)] at hnext

/-! ### Pages -/

/-- The entry of a page that has a table. -/
theorem getPT_eq_ok {i : ℕ} (hp : p < 0x40000) (h : getPT l (HIGHADDR + 0x1000 * p) = .ok i) :
  i = p ∧ l.pdt (p / 0x200) = true
  := by
  rw [getPT] at h
  split_ifs at h with hfail
  cases h
  simp only [not_or, Bool.not_eq_false] at hfail
  have hindex : (HIGHADDR + 0x1000 * p) % 2 ^ 32 = 0x1000 * p := by
    rw [HIGHADDR]
    omega
  rw [hindex] at hfail ⊢
  refine ⟨by omega, ?_⟩
  rw [show p / 0x200 = 0x1000 * p / 2 ^ 21 by omega]
  exact hfail.2.2

/-- Pages get consecutive frames. -/
theorem virtualAlloc_eq_ok (hp : p + n ≤ 0x40000)
    (h : virtualAlloc l n (HIGHADDR + 0x1000 * p) m = .ok m') :
  (∀ j < n, l.pdt ((p + j) / 0x200) = true) ∧
    m' = { m with
      kernelPage := m.kernelPage + n
      table := fun i =>
        if p ≤ i ∧ i < p + n then stackPage (0x10 + m.kernelPage + (i - p)) else m.table i }
  := by
  induction n generalizing p m with
  | zero =>
      cases h
      refine ⟨fun j hj => absurd hj (Nat.not_lt_zero j), ?_⟩
      have htable : (fun i => if p ≤ i ∧ i < p + 0 then
          stackPage (0x10 + m'.kernelPage + (i - p)) else m'.table i) = m'.table :=
        funext fun i => if_neg (by omega)
      rw [htable, Nat.add_zero]
  | succ n ih =>
      simp only [virtualAlloc, mapPage, Except.bind_eq_ok_iff] at h
      obtain ⟨⟨frame, kernelPage⟩, halloc, m₁, ⟨i, hget, hmap⟩, h⟩ := h
      obtain ⟨-, rfl, rfl⟩ := pmmAlloc_eq_ok halloc
      obtain ⟨rfl, hpdt⟩ := getPT_eq_ok (by omega) hget
      cases hmap
      rw [Nat.add_assoc HIGHADDR, ← Nat.mul_succ] at h
      obtain ⟨hpdts, rfl⟩ := ih (by omega) h
      constructor
      · intro j hj
        cases j with
        | zero => exact hpdt
        | succ j =>
            have hnext := hpdts j (by omega)
            rwa [Nat.succ_add_eq_add_succ] at hnext
      · dsimp only
        congr 1
        · omega
        · funext j
          by_cases hj : j = i
          · rw [if_neg (by omega), if_pos (by omega), hj, Function.update_self, Nat.sub_self]
            rfl
          · rw [Function.update_of_ne hj]
            by_cases hlater : i + 1 ≤ j ∧ j < i + 1 + n
            · rw [if_pos hlater, if_pos (by omega)]
              congr 1
              omega
            · rw [if_neg (by omega), if_neg (by omega)]

/-- Pages get the attributes of their section. -/
theorem virtualProtect_eq_ok (hp : p + n ≤ 0x40000)
    (h : virtualProtect l s n (HIGHADDR + 0x1000 * p) m = .ok m') :
  m' = { m with table := fun i => if p ≤ i ∧ i < p + n then s.protect (m.table i) else m.table i }
  := by
  induction n generalizing p m with
  | zero =>
      cases h
      have htable : (fun i => if p ≤ i ∧ i < p + 0 then s.protect (m'.table i) else m'.table i) =
          m'.table := funext fun i => if_neg (by omega)
      rw [htable]
  | succ n ih =>
      rw [virtualProtect, Except.bind_eq_ok_iff] at h
      obtain ⟨i, hget, h⟩ := h
      obtain ⟨rfl, -⟩ := getPT_eq_ok (by omega) hget
      rw [Nat.add_assoc HIGHADDR, ← Nat.mul_succ] at h
      rw [ih (by omega) h]
      dsimp only
      congr 1
      funext j
      by_cases hj : j = i
      · rw [if_neg (by omega), if_pos (by omega), hj, Function.update_self]
      · rw [Function.update_of_ne hj]
        by_cases hlater : i + 1 ≤ j ∧ j < i + 1 + n
        · rw [if_pos hlater, if_pos (by omega)]
        · rw [if_neg (by omega), if_neg (by omega)]

/-- Consecutive pages with consecutive frames. -/
theorem mapped_of_pages {table : Table} {test : PTE → Bool} {f k : ℕ} (hp : p + k ≤ 0x40000)
    (hpdt : ∀ j < k, l.pdt ((p + j) / 0x200) = true)
    (htable : ∀ j < k, (table (p + j)).present = true ∧ test (table (p + j)) = true ∧
      (table (p + j)).pageAddr = f + j) :
  Mapped (l := l) table test (HIGHADDR + 0x1000 * p) (0x1000 * f) (0x1000 * k)
  := by
  intro o ho
  have hj : o / 0x1000 < k := by omega
  have haddr : (HIGHADDR + 0x1000 * p + o) % 2 ^ 32 = 0x1000 * (p + o / 0x1000) + o % 0x1000 := by
    rw [HIGHADDR]
    omega
  have hindex : (HIGHADDR + 0x1000 * p + o) % 2 ^ 32 / 0x1000 = p + o / 0x1000 := by
    rw [haddr]
    omega
  have hdir : (HIGHADDR + 0x1000 * p + o) % 2 ^ 32 / 2 ^ 21 = (p + o / 0x1000) / 0x200 := by
    rw [haddr]
    omega
  obtain ⟨hpresent, htest, hframe⟩ := htable _ hj
  rw [access, hindex, hdir, if_pos ⟨by omega, by omega, hpdt _ hj, hpresent, htest⟩, hframe]
  have hin : (HIGHADDR + 0x1000 * p + o) % 0x1000 = o % 0x1000 := by
    rw [HIGHADDR]
    omega
  rw [hin]
  congr 1
  omega

/-! ### A section -/

/-- The first page of a section, from `HIGHADDR` on. -/
def page (l : Loader) (s : Section) : ℕ := (l.vbase + s.rva) % 2 ^ 32 / 0x1000

/-- The pages of a section. -/
def Section.pages (s : Section) : ℕ := (s.memSize + 0xFFF) / 0x1000

/-- Where a section lies. -/
structure Laid (l : Loader) (s : Section) : Prop where
  address : l.vbase + s.rva = HIGHADDR + 0x1000 * page l s
  low : 0x1000 ≤ page l s
  high : page l s + s.pages ≤ 0x40000

theorem Placed.laid (h : Placed l s) (hl : l.vbase < HIGHADDR + 0x40000000) : Laid l s := by
  have hle := l.vbase_le
  have hwindow := h.window
  have haligned := h.aligned
  have hinside := h.inside
  rw [HIGHADDR] at hl hle
  constructor
  · rw [HIGHADDR, page]
    omega
  · rw [page]
    omega
  · rw [page, Section.pages]
    omega

theorem Placed.pageCount_eq (h : Placed l s) : s.pageCount = s.pages ∧ s.pages ≠ 0 := by
  have hpos := h.pos
  have hinside := h.inside
  rw [Section.pageCount, Section.pages]
  constructor
  · split_ifs
    · omega
    · omega
  · omega

theorem Placed.rest_eq (h : Placed l s) : s.rest = s.memSize - s.fileSize := by
  have hinside := h.inside
  have hfits := h.fits
  rw [Section.rest]
  split_ifs
  · omega
  · omega

theorem Laid.secVbase_eq (h : Laid l s) : secVbase l s = HIGHADDR + 0x1000 * page l s := by
  have hhigh := h.high
  rw [secVbase, h.address, HIGHADDR, Nat.mod_eq_of_lt]
  omega

/-- The memory after what the file has of a section has been read, and the rest has been cleared. -/
def filled (l : Loader) (s : Section) (memory : Bytes) (base : ℕ) : Bytes :=
  if s.fileSize = 0 then memory
  else (memory.fill base s.fileSize fun o => (fileByte l (s.fileOff + o)).getD 0).fill
    (base + s.fileSize) s.rest fun _ => 0

/-- What the code between `.virtual_alloc` and `.nofile` does when it ends. -/
theorem fillSection_eq_ok (hs : Placed l s) (hlaid : Laid l s)
    (hmap : Mapped (l := l) m.table PTE.write (HIGHADDR + 0x1000 * page l s) base (0x1000 * s.pages))
    (h : fillSection l s m = .ok m') :
  m' = { m with memory := filled l s m.memory base } ∧
    ∀ o < s.fileSize, (fileByte l (s.fileOff + o)).isSome = true
  := by
  have hrest := hs.rest_eq
  have hfits := hs.fits
  have hsize : s.fileSize / SECTOR_SIZE * SECTOR_SIZE = s.fileSize :=
    Nat.div_mul_cancel (Nat.dvd_of_mod_eq_zero hs.fileSize)
  have hoff : s.fileOff / SECTOR_SIZE * SECTOR_SIZE = s.fileOff :=
    Nat.div_mul_cancel (Nat.dvd_of_mod_eq_zero hs.fileOff)
  have hpages : s.fileSize + s.rest ≤ 0x1000 * s.pages := by
    rw [hrest, Section.pages]
    omega
  rw [filled]
  rw [fillSection] at h
  by_cases hnone : s.fileSize = 0
  · rw [if_pos hnone] at h
    cases h
    rw [if_pos hnone]
    exact ⟨rfl, fun o ho => by omega⟩
  rw [if_neg hnone, Except.bind_eq_ok_iff] at h
  obtain ⟨m₁, hread, h⟩ := h
  rw [hlaid.secVbase_eq] at hread h
  rw [readFile, if_neg (by rw [hs.fileOff, hs.fileSize]; decide)] at hread
  have hfirst : Mapped (l := l) m.table PTE.write (HIGHADDR + 0x1000 * page l s) base
      (s.fileSize / SECTOR_SIZE * SECTOR_SIZE) := by
    rw [hsize]
    exact hmap.sub (o := 0) (by omega)
  obtain ⟨rfl, hsome⟩ := readRounds_eq_ok hread hfirst
  rw [hsize, hoff] at h hsome
  rw [Except.bind_eq_ok_iff] at h
  obtain ⟨m₂, hqwords, hbytes⟩ := h
  have hlater := hmap.sub hpages
  have hlow : Mapped (l := l) m.table PTE.write (HIGHADDR + 0x1000 * page l s + s.fileSize)
      (base + s.fileSize) (s.rest / 8 * 8) := hlater.sub (o := 0) (by omega)
  have hhigh : Mapped (l := l) m.table PTE.write
      (HIGHADDR + 0x1000 * page l s + s.fileSize + s.rest / 8 * 8)
      (base + s.fileSize + s.rest / 8 * 8) (s.rest % 8) := hlater.sub (by omega)
  obtain rfl := pokes_eq_ok hqwords hlow
  obtain rfl := pokes_eq_ok hbytes hhigh
  rw [if_neg hnone]
  refine ⟨?_, hsome⟩
  congr 1
  have hsplit := Bytes.fill_fill (m.memory.fill base s.fileSize fun o =>
    (fileByte l (s.fileOff + o)).getD 0) (fun _ => 0) (base + s.fileSize) (s.rest / 8 * 8)
    (s.rest % 8)
  rw [Nat.div_add_mod'] at hsplit
  exact hsplit

/-- What a round of `.section` does with a section that is not discarded. -/
structure Step (l : Loader) (s : Section) (m m' : Machine) : Prop where
  kernelPage : m'.kernelPage = m.kernelPage + s.pages
  pdt : ∀ j < s.pages, l.pdt ((page l s + j) / 0x200) = true
  table : m'.table = fun i => if page l s ≤ i ∧ i < page l s + s.pages then
    s.protect (stackPage (0x10 + m.kernelPage + (i - page l s))) else m.table i
  memory : m'.memory = filled l s m.memory (0x1000 * (0x10 + m.kernelPage))
  file : ∀ o < s.fileSize, (fileByte l (s.fileOff + o)).isSome = true

theorem loadSection_step (hs : Placed l s) (hlaid : Laid l s) (hkept : s.discard = false)
    (h : loadSection l m s = .ok m') :
  Step l s m m'
  := by
  obtain ⟨hcount, hpos⟩ := hs.pageCount_eq
  have hhigh := hlaid.high
  simp only [loadSection, hkept, Bool.false_eq_true, if_false, hcount, if_neg hpos,
    hlaid.secVbase_eq, Except.bind_eq_ok_iff] at h
  obtain ⟨m₁, halloc, m₂, hfill, hprotect⟩ := h
  obtain ⟨hpdt, rfl⟩ := virtualAlloc_eq_ok hhigh halloc
  have hmap : Mapped (l := l) (fun i => if page l s ≤ i ∧ i < page l s + s.pages then
        stackPage (0x10 + m.kernelPage + (i - page l s)) else m.table i) PTE.write
      (HIGHADDR + 0x1000 * page l s) (0x1000 * (0x10 + m.kernelPage)) (0x1000 * s.pages) := by
    apply mapped_of_pages hhigh hpdt
    intro j hj
    rw [if_pos (by omega), Nat.add_sub_cancel_left]
    exact ⟨rfl, rfl, rfl⟩
  obtain ⟨rfl, hfile⟩ := fillSection_eq_ok hs hlaid hmap hfill
  rw [virtualProtect_eq_ok hhigh hprotect]
  refine ⟨rfl, hpdt, ?_, rfl, hfile⟩
  funext i
  dsimp only
  by_cases hi : page l s ≤ i ∧ i < page l s + s.pages
  · rw [if_pos hi, if_pos hi, if_pos hi]
  · rw [if_neg hi, if_neg hi, if_neg hi]

/-! ### All sections -/

/-- The frames that sections take. -/
def used (ss : List Section) : ℕ :=
  (ss.map fun s => if s.discard = true then 0 else s.pageCount).sum

/-- Sections are laid out in the window. -/
def Window (l : Loader) (ss : List Section) : Prop :=
  ∀ s ∈ ss, s.discard = false → Placed l s ∧ Laid l s

theorem filled_of_not_mem {memory : Bytes} {a : ℕ} (hs : Placed l s)
    (ha : ¬ (base ≤ a ∧ a < base + 0x1000 * s.pages)) :
  filled l s memory base a = memory a
  := by
  have hrest := hs.rest_eq
  have hfits := hs.fits
  rw [Section.pages] at ha
  rw [filled]
  split_ifs
  · rfl
  · rw [Bytes.fill_of_not_mem (by omega), Bytes.fill_of_not_mem (by omega)]

/-- What a section contains, if its file can be read. -/
theorem filled_of_mem {memory : Bytes} {o : ℕ} (hs : Placed l s) (ho : o < s.memSize)
    (hfile : ∀ o < s.fileSize, (fileByte l (s.fileOff + o)).isSome = true) :
  some (filled l s memory base (base + o)) =
    if s.fileSize = 0 then some (memory (base + o)) else content l s o
  := by
  have hrest := hs.rest_eq
  rw [filled]
  split_ifs with hnone
  · rfl
  · rw [content]
    split_ifs with hlt
    · obtain ⟨byte, hbyte⟩ := Option.isSome_iff_exists.1 (hfile o hlt)
      rw [Bytes.fill_of_not_mem (by omega), Bytes.fill_of_mem hlt, hbyte]
      rfl
    · obtain ⟨i, rfl⟩ := Nat.exists_eq_add_of_le (Nat.le_of_not_lt hlt)
      rw [← Nat.add_assoc, Bytes.fill_of_mem (by omega)]

/-- What sections leave alone. -/
theorem foldlM_frame {ss : List Section} (hw : Window l ss)
    (h : ss.foldlM (loadSection l) m = .ok m') :
  m'.kernelPage = m.kernelPage + used ss ∧
    (∀ i, (∀ t ∈ ss, t.discard = false → ¬ (page l t ≤ i ∧ i < page l t + t.pages)) →
      m'.table i = m.table i) ∧
    ∀ a, a < 0x1000 * (0x10 + m.kernelPage) ∨ 0x1000 * (0x10 + m'.kernelPage) ≤ a →
      m'.memory a = m.memory a
  := by
  induction ss generalizing m with
  | nil =>
      cases h
      exact ⟨rfl, fun i _ => rfl, fun a _ => rfl⟩
  | cons s ss ih =>
      rw [List.foldlM_cons, Except.bind_eq_ok_iff] at h
      obtain ⟨m₁, hstep, h⟩ := h
      obtain ⟨hpage, htable, hmemory⟩ := ih (fun t ht => hw t (List.mem_cons_of_mem s ht)) h
      have hused : used (s :: ss) = (if s.discard = true then 0 else s.pageCount) + used ss := by
        rw [used, List.map_cons, List.sum_cons, used]
      cases hdiscard : s.discard with
      | true =>
          rw [loadSection, if_pos hdiscard] at hstep
          cases hstep
          rw [hused, if_pos hdiscard, Nat.zero_add]
          exact ⟨hpage, fun i hi => htable i fun t ht => hi t (List.mem_cons_of_mem s ht), hmemory⟩
      | false =>
          obtain ⟨hs, hlaid⟩ := hw s List.mem_cons_self hdiscard
          have hone := loadSection_step hs hlaid hdiscard hstep
          have hnext := hone.kernelPage
          rw [hused, hdiscard, if_neg Bool.false_ne_true, hs.pageCount_eq.1]
          refine ⟨by omega, ?_, ?_⟩
          · intro i hi
            rw [htable i fun t ht => hi t (List.mem_cons_of_mem s ht), hone.table]
            exact if_neg (hi s List.mem_cons_self hdiscard)
          · intro a ha
            rw [hmemory a (by omega), hone.memory, filled_of_not_mem hs]
            omega

/-- Sections that do not overlap have different pages. -/
theorem Laid.disjoint {t : Section} (hs : Laid l s) (ht : Laid l t)
    (h : s.rva + s.memSize ≤ t.rva ∨ t.rva + t.memSize ≤ s.rva) :
  page l s + s.pages ≤ page l t ∨ page l t + t.pages ≤ page l s
  := by
  have hsaddr := hs.address
  have htaddr := ht.address
  rw [Section.pages, Section.pages]
  omega

/-- The first frame of the section after some others. -/
def firstFrame (m : Machine) (ss : List Section) : ℕ := 0x10 + m.kernelPage + used ss

/-- What is left of a section when all of them have been loaded. -/
structure Settled (l : Loader) (f : ℕ) (m m' : Machine) (s : Section) : Prop where
  pdt : ∀ j < s.pages, l.pdt ((page l s + j) / 0x200) = true
  table : ∀ j < s.pages, m'.table (page l s + j) = s.protect (stackPage (f + j))
  memory : ∀ o < s.memSize, some (m'.memory (0x1000 * f + o)) =
    if s.fileSize = 0 then some (m.memory (0x1000 * f + o)) else content l s o

theorem foldlM_settled {ss before after : List Section} (hw : WellFormed l ss)
    (hwindow : Window l ss) (hss : ss = before ++ s :: after) (hkept : s.discard = false)
    (h : ss.foldlM (loadSection l) m = .ok m') :
  Settled l (firstFrame m before) m m' s
  := by
  have hpairs := hw.disjoint
  rw [hss] at hwindow hpairs h
  rw [List.foldlM_append, Except.bind_eq_ok_iff] at h
  obtain ⟨m₁, hbefore, h⟩ := h
  rw [List.foldlM_cons, Except.bind_eq_ok_iff] at h
  obtain ⟨m₂, hstep, hafter⟩ := h
  obtain ⟨hs, hlaid⟩ := hwindow s (by simp) hkept
  obtain ⟨hpage, -, hprior⟩ := foldlM_frame (fun t ht => hwindow t (by simp [ht])) hbefore
  obtain ⟨-, htable, hlater⟩ := foldlM_frame (fun t ht => hwindow t (by simp [ht])) hafter
  have hone := loadSection_step hs hlaid hkept hstep
  have hf : firstFrame m before = 0x10 + m₁.kernelPage := by
    rw [firstFrame]
    omega
  rw [hf]
  constructor
  · exact hone.pdt
  · intro j hj
    rw [htable, hone.table]
    · dsimp only
      rw [if_pos (by omega), Nat.add_sub_cancel_left]
    · intro t ht htkept
      have hpair := (List.pairwise_cons.1 (List.pairwise_append.1 hpairs).2.1).1 t ht hkept htkept
      have hdisjoint := hlaid.disjoint (hwindow t (by simp [ht]) htkept).2 hpair
      omega
  · intro o ho
    have hpages : o < 0x1000 * s.pages := by
      rw [Section.pages]
      omega
    have hnext := hone.kernelPage
    rw [hlater _ (by omega), hone.memory, filled_of_mem hs ho hone.file, hprior _ (by omega)]

/-- The window lies where `PDT0` maps it, because the kernel is entered. -/
theorem vbase_lt_of_access {table : Table} {test : PTE → Bool} {place : ℕ}
    (h : access l table test ((l.vbase + l.entry.toNat) % 2 ^ 64) = .ok place) :
  l.vbase < HIGHADDR + 0x40000000
  := by
  have hlt := l.vbase_lt
  have hle := l.vbase_le
  have hentry := l.entry.toNat_lt
  rw [access] at h
  split_ifs at h with hok
  have hlow := hok.1
  have hhigh := hok.2.1
  rw [HIGHADDR] at *
  omega

/-- The entry of a page of the window. -/
theorem Laid.pageOf_eq (h : Laid l s) (table : Table) {j : ℕ} (hj : j < s.pages) :
  pageOf l table s j = table (page l s + j)
  := by
  have hhigh := h.high
  rw [pageOf, h.address, HIGHADDR]
  congr 1
  omega

/-- Whether a section is as it should be depends on its frames only if the file has nothing of it. -/
theorem Settled.loaded_iff {f : ℕ} (h : Settled l f m m' s) (hlaid : Laid l s) :
  Loaded l m' s ↔ (s.fileSize = 0 → ∀ o < s.memSize, m.memory (0x1000 * f + o) = 0)
  := by
  have hmap : Mapped (l := l) m'.table (fun _ => true) (HIGHADDR + 0x1000 * page l s) (0x1000 * f)
      (0x1000 * s.pages) := by
    apply mapped_of_pages hlaid.high h.pdt
    intro j hj
    rw [h.table j hj]
    exact ⟨rfl, rfl, rfl⟩
  rw [← hlaid.address] at hmap
  have hpage : ∀ j, 0x1000 * j < s.memSize → j < s.pages := by
    intro j hj
    rw [Section.pages]
    omega
  have hplace : ∀ o < s.memSize,
      access l m'.table (fun _ => true) (l.vbase + s.rva + o) = .ok (0x1000 * f + o) := by
    intro o ho
    apply hmap
    rw [Section.pages]
    omega
  constructor
  · intro hloaded hnone o ho
    obtain ⟨place, haccess, hcontent⟩ := hloaded.content o ho
    rw [hplace o ho] at haccess
    cases haccess
    rw [h.memory o ho, if_pos hnone, content, if_neg (by omega)] at hcontent
    exact (Option.some.inj hcontent).symm
  · intro hzero
    constructor
    · intro o ho
      refine ⟨_, hplace o ho, ?_⟩
      rw [h.memory o ho]
      split_ifs with hnone
      · rw [content, if_neg (by omega), hzero hnone o ho]
      · rfl
    · intro j hj
      rw [hlaid.pageOf_eq _ (hpage j hj), h.table j (hpage j hj), Section.protect, Section.attribW,
        Nat.testBit_div_two_pow]
    · intro j hj
      rw [hlaid.pageOf_eq _ (hpage j hj), h.table j (hpage j hj), Section.protect, Section.attribX,
        Nat.testBit_div_two_pow]
      simp

/-- Frames of a section are followed by those of the sections after it. -/
theorem firstFrame_append (before after : List Section) (hs : Placed l s)
    (hkept : s.discard = false) :
  firstFrame m before + s.pages ≤ firstFrame m (before ++ s :: after)
  := by
  rw [firstFrame, firstFrame, used, used, List.map_append, List.sum_append, List.map_cons,
    List.sum_cons, hkept, if_neg Bool.false_ne_true, hs.pageCount_eq.1]
  omega

/-- Loading the sections, unmapping the header and entering the kernel. -/
theorem loadImage_eq_ok {h : Bytes} {i count : ℕ} (hrun : loadImage l h i count m = .ok m') :
  l.vbase < HIGHADDR + 0x40000000 ∧ ∃ m₁, (sections h i count).foldlM (loadSection l) m = .ok m₁ ∧
    m'.memory = m₁.memory ∧ ∀ i, 0x1000 ≤ i → m'.table i = m₁.table i
  := by
  simp only [loadImage, mapPage, Except.bind_eq_ok_iff] at hrun
  obtain ⟨m₁, hfold, m₂, ⟨k, hget, hunmap⟩, place, hfetch, hend⟩ := hrun
  cases hend
  cases hunmap
  obtain ⟨rfl, -⟩ := getPT_eq_ok (p := 0x10) (by decide) hget
  refine ⟨vbase_lt_of_access hfetch, m₁, hfold, rfl, ?_⟩
  intro j hj
  apply Function.update_of_ne
  omega

theorem Settled.congr {f : ℕ} {m₁ : Machine} (h : Settled l f m m₁ s) (hlaid : Laid l s)
    (hmemory : m'.memory = m₁.memory) (htable : ∀ i, 0x1000 ≤ i → m'.table i = m₁.table i) :
  Settled l f m m' s
  := by
  have hlow := hlaid.low
  constructor
  · exact h.pdt
  · intro j hj
    rw [htable _ (by omega), h.table j hj]
  · rw [hmemory]
    exact h.memory

/-- When the kernel is entered, the sections are settled in the frames that follow those of the
sections before them. -/
theorem settled_of_loadImage {h : Bytes} {i count : ℕ} (hw : WellFormed l (sections h i count))
    (hrun : loadImage l h i count m = .ok m') :
  Window l (sections h i count) ∧ ∀ before s after, sections h i count = before ++ s :: after →
    s.discard = false → Settled l (firstFrame m before) m m' s
  := by
  obtain ⟨hl, m₁, hfold, hmemory, htable⟩ := loadImage_eq_ok hrun
  have hwindow : Window l (sections h i count) := fun s hs hkept =>
    ⟨hw.placed s hs hkept, (hw.placed s hs hkept).laid hl⟩
  refine ⟨hwindow, fun before s after hss hkept => ?_⟩
  have hmem : s ∈ sections h i count := by
    rw [hss]
    simp
  exact (foldlM_settled hw hwindow hss hkept hfold).congr (hwindow s hmem hkept).2 hmemory htable

/-- No frame is used for two pages. -/
theorem frames_distinct {ss : List Section} (hwindow : Window l ss)
    (hsettled : ∀ before s after, ss = before ++ s :: after → s.discard = false →
      Settled l (firstFrame m before) m m' s) :
  ∀ s ∈ ss, ∀ t ∈ ss, s.discard = false → t.discard = false →
    ∀ j j', 0x1000 * j < s.memSize → 0x1000 * j' < t.memSize →
      (pageOf l m'.table s j).pageAddr = (pageOf l m'.table t j').pageAddr →
        s.rva + 0x1000 * j = t.rva + 0x1000 * j'
  := by
  intro s hs t ht hskept htkept j j' hj hj' hframe
  obtain ⟨before, after, hss⟩ := List.append_of_mem hs
  obtain ⟨before', after', hss'⟩ := List.append_of_mem ht
  obtain ⟨hsplaced, hslaid⟩ := hwindow s hs hskept
  obtain ⟨htplaced, htlaid⟩ := hwindow t ht htkept
  have hjpages : j < s.pages := by
    rw [Section.pages]
    omega
  have hjpages' : j' < t.pages := by
    rw [Section.pages]
    omega
  rw [hslaid.pageOf_eq _ hjpages, htlaid.pageOf_eq _ hjpages',
    (hsettled _ _ _ hss hskept).table j hjpages,
    (hsettled _ _ _ hss' htkept).table j' hjpages'] at hframe
  change firstFrame m before + j = firstFrame m before' + j' at hframe
  rcases List.append_eq_append_iff.1 (hss.symm.trans hss') with ⟨c, hc, hrest⟩ | ⟨c, hc, hrest⟩
  · rcases c with _ | ⟨x, c⟩
    · rw [List.nil_append] at hrest
      obtain ⟨rfl, -⟩ := List.cons.inj hrest
      rw [hc, List.append_nil] at hframe
      omega
    · obtain ⟨rfl, -⟩ := List.cons.inj hrest
      have hlater := firstFrame_append (m := m) before c hsplaced hskept
      rw [hc] at hframe
      omega
  · rcases c with _ | ⟨x, c⟩
    · rw [List.nil_append] at hrest
      obtain ⟨rfl, -⟩ := List.cons.inj hrest
      rw [hc, List.append_nil] at hframe
      omega
    · obtain ⟨rfl, -⟩ := List.cons.inj hrest
      have hlater := firstFrame_append (m := m) before' c htplaced htkept
      rw [hc] at hframe
      omega

end

/-- The sections are loaded if and only if the frames of those that have nothing in the file were
zero before. -/
theorem allLoaded_iff (l : Loader) {h : Bytes} {i count : ℕ} {m m' : Machine}
    (hw : WellFormed l (sections h i count)) (hrun : loadImage l h i count m = .ok m') :
  AllLoaded l m' (sections h i count) ↔
    ∀ before s after, sections h i count = before ++ s :: after → s.discard = false →
      s.fileSize = 0 → ∀ o < s.memSize, m.memory (0x1000 * firstFrame m before + o) = 0
  := by
  obtain ⟨hwindow, hsettled⟩ := settled_of_loadImage hw hrun
  constructor
  · intro hall before s after hss hkept
    have hmem : s ∈ sections h i count := by
      rw [hss]
      simp
    exact ((hsettled before s after hss hkept).loaded_iff (hwindow s hmem hkept).2).1
      (hall.loaded s hmem hkept)
  · intro hzero
    constructor
    · intro s hs hkept
      obtain ⟨before, after, hss⟩ := List.append_of_mem hs
      exact ((hsettled before s after hss hkept).loaded_iff (hwindow s hs hkept).2).2
        (hzero before s after hss hkept)
    · apply frames_distinct hwindow hsettled

/-- A kernel at the lowest address, with its file in consecutive sectors. -/
def lowest : Loader :=
  { vbase := HIGHADDR + 0x1000000
    vbase_lt := by decide
    vbase_le := le_rfl
    entry := 0x1000
    pdt := fun _ => true
    shift := 0
    shift_lt := by decide
    lbaHeap := 0
    cluster := fun i => i.toUInt32 + 2
    readSector := fun i => some fun _ => i.toUInt8 }

/-- A header with a section for code, with so many sectors in the file. -/
def oneSection (n : UInt8) : Bytes := fun i =>
  if i = 0x8 then 8 else if i = 0x9 then 2 else if i = 0xD then 0x10 else if i = 0x11 then 2 * n
  else if i = 0x15 then 2 else if i = 0x27 then 0x20 else 0

theorem oneSection_wellFormed {n : UInt8} (hn : n = 0 ∨ n = 1) :
  WellFormed lowest (sections (oneSection n) 0 1)
  := by
  have hplaced : Placed lowest (sectionAt (oneSection n) 0) := by
    rcases hn with rfl | rfl
    · constructor <;> decide
    · constructor <;> decide
  constructor
  · intro s hs _
    rw [List.mem_singleton.1 hs]
    exact hplaced
  · apply List.pairwise_singleton

theorem exists_of_isOk {x : Except Fault Machine} (h : x.toBool = true) : ∃ m, x = .ok m := by
  cases x with
  | error => cases h
  | ok m => exact ⟨m, rfl⟩

/-- A section with a sector in the file is loaded. -/
theorem one_sector_loaded :
  ∃ m', loadImage lowest (oneSection 1) 0 1
      { kernelPage := 3, table := fun _ => {}, memory := fun _ => 1 } = .ok m' ∧
    AllLoaded lowest m' (sections (oneSection 1) 0 1)
  := by
  obtain ⟨m', hrun⟩ := exists_of_isOk (show (loadImage lowest (oneSection 1) 0 1
    { kernelPage := 3, table := fun _ => {}, memory := fun _ => 1 }).toBool = true by decide +kernel)
  refine ⟨m', hrun, (allLoaded_iff lowest (oneSection_wellFormed (.inr rfl)) hrun).2 ?_⟩
  intro before s after hss _ hnone
  have hmem : s ∈ sections (oneSection 1) 0 1 := by simp [hss]
  rw [List.mem_singleton.1 hmem] at hnone
  exact absurd hnone (by decide)

/-- A section with nothing in the file contains what was in memory. -/
theorem no_file_not_loaded :
  ¬ ∀ (l : Loader) (h : Bytes) (i count : ℕ) (m m' : Machine), WellFormed l (sections h i count) →
    loadImage l h i count m = .ok m' → AllLoaded l m' (sections h i count)
  := by
  intro hall
  obtain ⟨m', hrun⟩ := exists_of_isOk (show (loadImage lowest (oneSection 0) 0 1
    { kernelPage := 3, table := fun _ => {}, memory := fun _ => 1 }).toBool = true by decide)
  have hw := oneSection_wellFormed (.inl rfl)
  have hss : sections (oneSection 0) 0 1 = [] ++ sectionAt (oneSection 0) 0 :: [] := rfl
  obtain ⟨hwindow, hsettled⟩ := settled_of_loadImage hw hrun
  have hmem : sectionAt (oneSection 0) 0 ∈ sections (oneSection 0) 0 1 := List.mem_singleton_self _
  have hkept : (sectionAt (oneSection 0) 0).discard = false := rfl
  have hloaded := (hall _ _ _ _ _ _ hw hrun).loaded _ hmem hkept
  have hzero := ((hsettled _ _ _ hss hkept).loaded_iff (hwindow _ hmem hkept).2).1 hloaded
    (by decide) 0 (by decide)
  cases hzero

end KernelImage

end UOS
