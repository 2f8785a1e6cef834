import Cofuos.Lib.Align
import Cofuos.Memory.Integrity

/-!
# The kernel stack

The loader maps the part of the kernel stack that is committed, downwards from its top, and leaves the
rest of the first page table to the kernel. The constructor of `kernel_vspace` marks the boot area, the
guard above the stack and the part of the stack that is reserved, and puts what is left into a free
list. The definitions follow `boot/krnldr.asm` and `kernel/memory/kernel_vspace.cpp`.

The loader rounds the size that is committed down to pages, and the kernel rounds it up. If it is not
a multiple of the size of a page, the lowest page that the kernel believes to be committed is not
mapped, and looks like a free one that is not in the list.
-/

namespace UOS

open Fault

namespace KernelStack

/-- Pages of the first table. -/
def DIRECT_MAP_TOP : ℕ := 0xA

def BOOT_AREA_TOP : ℕ := 0x10

def KRNL_STK_TOP : ℕ := 0x1FF

/-! ### The loader -/

/-- A page that is mapped with the attributes `0x80000000_00000103`. -/
def stackPage (frame : ℕ) : PTE :=
  { present := true, write := true, global := true, xd := true, pageAddr := frame }

/-- The table with the direct map of the boot area. -/
def bootTable : Table := fun i =>
  if i = 2 then { present := true, global := true, pageAddr := i }
  else if 3 ≤ i ∧ i < DIRECT_MAP_TOP then { stackPage i with wt := true, cd := true }
  else if i < BOOT_AREA_TOP then stackPage i
  else {}

/-- `pmm_alloc`: a frame, from the number of frames that have been allocated. -/
def pmmAlloc (kernelPage : ℕ) : Except Fault (ℕ × ℕ) :=
  if kernelPage ≥ 0x70 then .error (.bugcheck "BugCheck") else .ok (0x10 + kernelPage, kernelPage + 1)

/-- The rounds of `.makestk`, from a page downwards. -/
def makeStack : ℕ → ℕ → ℕ → Table → Except Fault Table
  | 0, _, _, table => .ok table
  | count + 1, page, kernelPage, table => do
      let (frame, kernelPage) ← pmmAlloc kernelPage
      makeStack count (page - 1) kernelPage (Function.update table (page - 1) (stackPage frame))

/-- The first table when the kernel is entered. The page above the boot area is mapped to the header
of the kernel while it is loaded. -/
def loadStack (reserve commit kernelPage : ℕ) : Except Fault Table := do
  let (header, kernelPage) ← pmmAlloc kernelPage
  let table := Function.update bootTable BOOT_AREA_TOP { stackPage header with global := false }
  if reserve > 0x100000 ∨ commit > reserve then .error (.bugcheck "BugCheck")
  else do
    -- the counter is tested after it has been decremented
    let count := if commit / 0x1000 = 0 then 2 ^ 32 else commit / 0x1000
    let table ← makeStack count KRNL_STK_TOP kernelPage table
    return Function.update table BOOT_AREA_TOP {}

/-! ### The kernel -/

/-- `align_up(size,PAGE_SIZE) >> 12` -/
def pages (size : ℕ) : ℕ := alignUp 64 size 0x1000 / 0x1000

/-- A loop over the entries from `i` on, with an assertion. -/
def editRange (debug : Bool) (test : PTE → Bool) (f : PTE → PTE) (table : Table) (i n : ℕ) :
    Except Fault Table :=
  (List.range' i n).foldlM (fun table j => do
    assert debug (test (table j) = true)
    return Function.update table j (f (table j))) table

/-- The constructor of `kernel_vspace`, with what is in the links of the block, which is not
initialized. -/
def kernelVspace (debug : Bool) (next prev reserve commit : ℕ) (pdt : PDTE) (table : Table) :
    Except Fault (PDTE × Table) := do
  assert debug (commit ≤ reserve ∧ reserve ≤ 0x100 * 0x1000)
  let reserve := pages reserve
  let commit := pages commit
  -- stack guard
  assert debug ((table KRNL_STK_TOP).present = false)
  let table := Function.update table KRNL_STK_TOP
    { table KRNL_STK_TOP with preserve := true, bypass := true }
  let table ← editRange debug (fun pt => !pt.present) (fun pt => { pt with preserve := true }) table
    (KRNL_STK_TOP - reserve) (reserve - commit)
  -- boot area
  let table ← editRange debug PTE.present (fun pt => { pt with bypass := true }) table 0 DIRECT_MAP_TOP
  let table ← editRange debug PTE.present
    (fun pt => { pt with present := false, preserve := true, bypass := true }) table DIRECT_MAP_TOP
    (BOOT_AREA_TOP - DIRECT_MAP_TOP)
  let block : BLOCK :=
    { self := BOOT_AREA_TOP, size := KRNL_STK_TOP - BOOT_AREA_TOP - reserve, next := next, prev := prev }
  let table ← block.put debug table block.self
  return (putMaxSize { pdt with head := block.self } block.size, table)

/-- The first table and its directory entry after the loader and the constructor. -/
def handOver (debug : Bool) (next prev reserve commit kernelPage : ℕ) : Except Fault (PDTE × Table) := do
  let table ← loadStack reserve commit kernelPage
  kernelVspace debug next prev reserve commit { present := true, write := true, ptAddr := 7 } table

/-! ### What is wanted of the table -/

/-- The kinds of entries. -/
inductive Kind where
  | boot
  | guard
  | committed
  | reserved
  | free
  deriving DecidableEq

/-- An entry is of a kind. -/
def Kind.Is (i : ℕ) (pt : PTE) : Kind → Prop
  | .boot => i < BOOT_AREA_TOP ∧ pt.bypass = true
  | .guard => i = KRNL_STK_TOP ∧ pt.bypass = true ∧ pt.present = false
  | .committed => i < KRNL_STK_TOP ∧ pt.bypass = false ∧ pt.present = true
  | .reserved => i < KRNL_STK_TOP ∧ pt.bypass = false ∧ pt.present = false ∧ pt.preserve = true
  | .free => pt.bypass = false ∧ pt.isFree = true

/-- Every entry is of one kind, the kinds are where they should be, and the free list is well formed. -/
structure HandedOver (debug : Bool) (reserve commit : ℕ) (pdt : PDTE) (table : Table) : Prop where
  kinds : ∀ i < 0x200, ∃! k, Kind.Is i (table i) k
  committed : ∀ i < 0x200,
    Kind.committed.Is i (table i) ↔ KRNL_STK_TOP - pages commit ≤ i ∧ i < KRNL_STK_TOP
  reserved : ∀ i < 0x200, Kind.reserved.Is i (table i) ↔
    KRNL_STK_TOP - pages reserve ≤ i ∧ i < KRNL_STK_TOP - pages commit
  free : ∀ i < 0x200,
    Kind.free.Is i (table i) ↔ BOOT_AREA_TOP ≤ i ∧ i < KRNL_STK_TOP - pages reserve
  wellFormed : WellFormed debug pdt table

/-! ### Loops -/

variable {debug : Bool} {table table' : Table} {n i k : ℕ}

/-- One more round of a loop. -/
theorem editRange_succ (test : PTE → Bool) (f : PTE → PTE) (table : Table) (i n : ℕ) :
  editRange debug test f table i (n + 1) = do
    let table ← editRange debug test f table i n
    assert debug (test (table (i + n)) = true)
    return Function.update table (i + n) (f (table (i + n)))
  := by
  rw [editRange, List.range'_1_concat, List.foldlM_append]
  simp only [List.foldlM_cons, List.foldlM_nil, bind_pure]
  rfl

/-- One more entry of a range. -/
theorem edit_succ (f : PTE → PTE) (table : Table) (i n : ℕ) :
  table.edit f ⟨i, n + 1⟩ = Function.update (table.edit f ⟨i, n⟩) (i + n) (f (table (i + n)))
  := by
  funext j
  by_cases hj : j = i + n
  · subst hj
    rw [Function.update_self, Table.edit, if_pos]
    simp only [Run.mem_iff]
    omega
  · rw [Function.update_of_ne hj]
    simp only [Table.edit, Run.mem_iff]
    split_ifs
    · rfl
    · omega
    · omega
    · rfl

/-- The entry behind a range is not changed. -/
theorem edit_next (f : PTE → PTE) (table : Table) (i n : ℕ) :
  table.edit f ⟨i, n⟩ (i + n) = table (i + n)
  := by
  apply Table.edit_of_not_mem
  simp only [Run.mem_iff]
  omega

/-- What a loop does when it ends. -/
theorem editRange_eq_ok {test : PTE → Bool} {f : PTE → PTE}
    (h : editRange debug test f table i n = .ok table') :
  table' = table.edit f ⟨i, n⟩
  := by
  induction n generalizing table' with
  | zero =>
      cases h
      funext j
      rw [Table.edit_of_not_mem]
      simp only [Run.mem_iff]
      omega
  | succ n ih =>
      rw [editRange_succ, Except.bind_eq_ok_iff] at h
      obtain ⟨table₁, hfirst, hlast⟩ := h
      rw [Except.bind_eq_ok_iff] at hlast
      obtain ⟨_, -, hlast⟩ := hlast
      cases hlast
      rw [ih hfirst, edit_succ, edit_next]

/-- Frames are taken one after the other. -/
theorem pmmAlloc_eq_ok {frame k' : ℕ} (h : pmmAlloc k = .ok (frame, k')) :
  k < 0x70 ∧ frame = 0x10 + k ∧ k' = k + 1
  := by
  rw [pmmAlloc] at h
  split_ifs at h with hk
  cases h
  exact ⟨by omega, rfl, rfl⟩

/-- There are frames for less than `0x71` pages. -/
theorem makeStack_count {page : ℕ} (h : makeStack n page k table = .ok table') :
  n = 0 ∨ k + n ≤ 0x70
  := by
  induction n generalizing page k table with
  | zero => apply Or.inl rfl
  | succ n ih =>
      rw [makeStack, Except.bind_eq_ok_iff] at h
      obtain ⟨⟨frame, k'⟩, halloc, hrest⟩ := h
      obtain ⟨hk, -, rfl⟩ := pmmAlloc_eq_ok halloc
      have hcount := ih hrest
      omega

/-- The pages that the loader maps. -/
theorem makeStack_apply {page : ℕ} (h : makeStack n page k table = .ok table') (hn : n ≤ page) (i : ℕ) :
  table' i = if page - n ≤ i ∧ i < page then stackPage (0x10 + k + (page - 1 - i)) else table i
  := by
  induction n generalizing page k table with
  | zero =>
      cases h
      rw [if_neg (by omega)]
  | succ n ih =>
      rw [makeStack, Except.bind_eq_ok_iff] at h
      obtain ⟨⟨frame, k'⟩, halloc, hrest⟩ := h
      obtain ⟨-, rfl, rfl⟩ := pmmAlloc_eq_ok halloc
      rw [ih hrest (by omega)]
      by_cases hlow : page - 1 - n ≤ i ∧ i < page - 1
      · rw [if_pos hlow, if_pos (by omega)]
        congr 1
        omega
      · rw [if_neg hlow]
        by_cases hlast : i = page - 1
        · rw [if_pos (by omega), hlast, Function.update_self, Nat.sub_self, Nat.add_zero]
        · rw [if_neg (by omega), Function.update_of_ne hlast]

/-! ### What the loader leaves -/

variable {reserve commit : ℕ}

/-- The part of the first table above the boot area, with so many pages of the stack. -/
def loaded (count k : ℕ) : Table := fun i =>
  if i < BOOT_AREA_TOP then bootTable i
  else if KRNL_STK_TOP - count ≤ i ∧ i < KRNL_STK_TOP then stackPage (0x10 + k + (KRNL_STK_TOP - 1 - i))
  else {}

/-- The loader accepts a stack of at least one page, and maps the whole pages of it. -/
theorem loadStack_eq_ok (h : loadStack reserve commit k = .ok table) :
  reserve ≤ 0x100000 ∧ commit ≤ reserve ∧ 1 ≤ commit / 0x1000 ∧
    table = loaded (commit / 0x1000) (k + 1)
  := by
  rw [loadStack, Except.bind_eq_ok_iff] at h
  obtain ⟨⟨header, k'⟩, halloc, h⟩ := h
  obtain ⟨-, -, rfl⟩ := pmmAlloc_eq_ok halloc
  dsimp only at h
  by_cases hsize : reserve > 0x100000 ∨ commit > reserve
  · rw [if_pos hsize] at h
    cases h
  rw [if_neg hsize, Except.bind_eq_ok_iff] at h
  obtain ⟨table₁, hmake, h⟩ := h
  cases h
  have hcount := makeStack_count hmake
  have hpos : commit / 0x1000 ≠ 0 := by
    intro hzero
    rw [if_pos hzero] at hcount
    omega
  rw [if_neg hpos] at hmake hcount
  refine ⟨by omega, by omega, by omega, ?_⟩
  have happly := makeStack_apply hmake (by rw [KRNL_STK_TOP]; omega)
  funext i
  rw [loaded]
  by_cases hgap : i = BOOT_AREA_TOP
  · rw [hgap, Function.update_self, if_neg (lt_irrefl _), if_neg]
    rw [BOOT_AREA_TOP, KRNL_STK_TOP]
    omega
  · rw [Function.update_of_ne hgap, happly i, Function.update_of_ne hgap]
    by_cases hboot : i < BOOT_AREA_TOP
    · rw [if_pos hboot, if_neg]
      rw [BOOT_AREA_TOP] at hboot
      rw [KRNL_STK_TOP]
      omega
    · rw [if_neg hboot]
      have hempty : bootTable i = {} := by
        rw [BOOT_AREA_TOP] at hboot
        rw [bootTable, DIRECT_MAP_TOP, BOOT_AREA_TOP, if_neg (by omega), if_neg (by omega),
          if_neg (by omega)]
      rw [hempty]

/-- A size that the loader accepts takes as many pages as it fills, and one more if it is not a
multiple of the size of a page. -/
theorem pages_eq {size : ℕ} (h : size ≤ 0x100000) : pages size = (size + 0xFFF) / 0x1000 := by
  rw [pages, alignUp_div (by decide), Nat.mod_eq_of_lt (by omega)]
  rfl

/-! ### What the constructor makes of it -/

/-- The marks of the constructor. -/
def marked (reserved committed : ℕ) (table : Table) : Table :=
  Table.edit (fun pt => { pt with present := false, preserve := true, bypass := true })
    ⟨DIRECT_MAP_TOP, BOOT_AREA_TOP - DIRECT_MAP_TOP⟩
    (Table.edit (fun pt => { pt with bypass := true }) ⟨0, DIRECT_MAP_TOP⟩
      (Table.edit (fun pt => { pt with preserve := true })
        ⟨KRNL_STK_TOP - reserved, reserved - committed⟩
        (Function.update table KRNL_STK_TOP
          { table KRNL_STK_TOP with preserve := true, bypass := true })))

/-- The block of the pages below the stack. -/
def freeBlock (next prev reserved : ℕ) : BLOCK :=
  { self := BOOT_AREA_TOP, size := KRNL_STK_TOP - BOOT_AREA_TOP - reserved, next := next, prev := prev }

/-- What the constructor does when it ends. -/
theorem kernelVspace_eq_ok {next prev : ℕ} {pdt pdt' : PDTE}
    (h : kernelVspace debug next prev reserve commit pdt table = .ok (pdt', table')) :
  (freeBlock next prev (pages reserve)).put debug (marked (pages reserve) (pages commit) table)
      BOOT_AREA_TOP = .ok table' ∧
    pdt' = putMaxSize { pdt with head := BOOT_AREA_TOP } (KRNL_STK_TOP - BOOT_AREA_TOP - pages reserve)
  := by
  simp only [kernelVspace, Except.bind_eq_ok_iff] at h
  obtain ⟨-, -, -, -, table₁, h₁, table₂, h₂, table₃, h₃, table₄, h₄, h⟩ := h
  cases h
  rw [editRange_eq_ok h₃, editRange_eq_ok h₂, editRange_eq_ok h₁] at h₄
  exact ⟨h₄, rfl⟩

section Marks

variable {reserved committed count : ℕ}

theorem marked_direct (hreserve : reserved ≤ 0x100) (hi : i < DIRECT_MAP_TOP) :
  marked reserved committed table i = { table i with bypass := true }
  := by
  rw [DIRECT_MAP_TOP] at hi
  simp only [marked, DIRECT_MAP_TOP, BOOT_AREA_TOP, KRNL_STK_TOP]
  rw [Table.edit_of_not_mem (by simp only [Run.mem_iff]; omega), Table.edit,
    if_pos (by simp only [Run.mem_iff]; omega),
    Table.edit_of_not_mem (by simp only [Run.mem_iff]; omega), Function.update_of_ne (by omega)]

theorem marked_boot (hreserve : reserved ≤ 0x100) (hi : DIRECT_MAP_TOP ≤ i) (hi' : i < BOOT_AREA_TOP) :
  marked reserved committed table i =
    { table i with present := false, preserve := true, bypass := true }
  := by
  rw [DIRECT_MAP_TOP] at hi
  rw [BOOT_AREA_TOP] at hi'
  simp only [marked, DIRECT_MAP_TOP, BOOT_AREA_TOP, KRNL_STK_TOP]
  rw [Table.edit, if_pos (by simp only [Run.mem_iff]; omega),
    Table.edit_of_not_mem (by simp only [Run.mem_iff]; omega),
    Table.edit_of_not_mem (by simp only [Run.mem_iff]; omega), Function.update_of_ne (by omega)]

theorem marked_guard (hreserve : reserved ≤ 0x100) :
  marked reserved committed table KRNL_STK_TOP =
    { table KRNL_STK_TOP with preserve := true, bypass := true }
  := by
  simp only [marked, DIRECT_MAP_TOP, BOOT_AREA_TOP]
  rw [Table.edit_of_not_mem (by simp only [Run.mem_iff, KRNL_STK_TOP]; omega),
    Table.edit_of_not_mem (by simp only [Run.mem_iff, KRNL_STK_TOP]; omega),
    Table.edit_of_not_mem (by simp only [Run.mem_iff, KRNL_STK_TOP]; omega), Function.update_self]

theorem marked_reserved (hcommit : committed ≤ reserved) (hreserve : reserved ≤ 0x100)
    (hi : KRNL_STK_TOP - reserved ≤ i) (hi' : i < KRNL_STK_TOP - committed) :
  marked reserved committed table i = { table i with preserve := true }
  := by
  rw [KRNL_STK_TOP] at hi hi'
  simp only [marked, DIRECT_MAP_TOP, BOOT_AREA_TOP, KRNL_STK_TOP]
  rw [Table.edit_of_not_mem (by simp only [Run.mem_iff]; omega),
    Table.edit_of_not_mem (by simp only [Run.mem_iff]; omega), Table.edit,
    if_pos (by simp only [Run.mem_iff]; omega), Function.update_of_ne (by omega)]

/-- The entries below and above the part of the stack that is reserved are not marked. -/
theorem marked_plain (hcommit : committed ≤ reserved) (hreserve : reserved ≤ 0x100)
    (hi : BOOT_AREA_TOP ≤ i) (hi' : i < KRNL_STK_TOP)
    (hout : i < KRNL_STK_TOP - reserved ∨ KRNL_STK_TOP - committed ≤ i) :
  marked reserved committed table i = table i
  := by
  rw [KRNL_STK_TOP] at hi' hout
  rw [BOOT_AREA_TOP] at hi
  simp only [marked, DIRECT_MAP_TOP, BOOT_AREA_TOP, KRNL_STK_TOP]
  rw [Table.edit_of_not_mem (by simp only [Run.mem_iff]; omega),
    Table.edit_of_not_mem (by simp only [Run.mem_iff]; omega),
    Table.edit_of_not_mem (by simp only [Run.mem_iff]; omega), Function.update_of_ne (by omega)]

/-- Above the boot area only the stack is mapped. -/
theorem loaded_empty (hi : BOOT_AREA_TOP ≤ i) (hout : i < KRNL_STK_TOP - count ∨ KRNL_STK_TOP ≤ i) :
  loaded count k i = {}
  := by
  rw [loaded, if_neg (by omega), if_neg (by omega)]

theorem loaded_stack (hcount : count ≤ 0x100) (hi : KRNL_STK_TOP - count ≤ i) (hi' : i < KRNL_STK_TOP) :
  loaded count k i = stackPage (0x10 + k + (KRNL_STK_TOP - 1 - i))
  := by
  have hboot : BOOT_AREA_TOP = 0x10 := rfl
  have htop : KRNL_STK_TOP = 0x1FF := rfl
  rw [loaded, if_neg (by omega), if_pos ⟨hi, hi'⟩]

theorem loaded_boot (hi : i < BOOT_AREA_TOP) :
  loaded count k i = bootTable i
  := if_pos hi

end Marks

/-! ### The free list -/

/-- Putting a block changes the tags only. -/
theorem setTag_sameMap (table : Table) (i : ℕ) (type : PTE.Tag) (data : ℕ) (valid : Bool) :
  SameMap table (BLOCK.setTag table i type data valid)
  := by
  intro j
  rw [BLOCK.setTag]
  by_cases hj : j = i
  · rw [hj, Function.update_self]
    rfl
  · rw [Function.update_of_ne hj]

/-- A loop each round of which changes the tags only. -/
theorem foldlM_sameMap {f : Table → ℕ → Except Fault Table}
    (hf : ∀ t j t', f t j = .ok t' → SameMap t t') (l : List ℕ) (h : l.foldlM f table = .ok table') :
  SameMap table table'
  := by
  induction l generalizing table with
  | nil =>
      cases h
      apply SameMap.refl
  | cons j l ih =>
      rw [List.foldlM_cons, Except.bind_eq_ok_iff] at h
      obtain ⟨table₁, hfirst, hrest⟩ := h
      apply (hf _ _ _ hfirst).trans (ih hrest)

theorem put_sameMap {block : BLOCK} (h : block.put debug table i = .ok table') :
  SameMap table table'
  := by
  simp only [BLOCK.put, Except.bind_eq_ok_iff] at h
  obtain ⟨-, -, -, -, -, -, h⟩ := h
  have h₁ := setTag_sameMap table i .NEXT block.next block.nextValid
  have h₂ := h₁.trans (setTag_sameMap _ (i + 1) .PREV block.prev block.prevValid)
  split_ifs at h with hone htwo
  · cases h
    apply h₁
  · simp only [Except.bind_eq_ok_iff] at h
    obtain ⟨-, -, -, -, h⟩ := h
    cases h
    apply h₂
  · simp only [Except.bind_eq_ok_iff] at h
    obtain ⟨-, -, -, -, -, -, -, -, table₃, hloop, -, -, h⟩ := h
    cases h
    apply (h₂.trans (setTag_sameMap _ (i + 2) .SIZE (block.size - 1) true)).trans
    apply foldlM_sameMap _ _ hloop
    intro t j t' hround
    simp only [Except.bind_eq_ok_iff] at hround
    obtain ⟨-, -, -, -, hround⟩ := hround
    cases hround
    apply setTag_sameMap

/-- The kinds of entries do not depend on the tags. -/
theorem Kind.is_untagged (kind : Kind) (i : ℕ) (pt : PTE) :
  kind.Is i pt.untagged ↔ kind.Is i pt
  := by
  cases kind <;> rfl

/-- An entry of a kind that excludes the others. -/
theorem Kind.is_iff {pt : PTE} {kind : Kind} (h : kind.Is i pt) (other : Kind) :
  other.Is i pt ↔ other = kind
  := by
  refine ⟨fun hother => ?_, fun heq => heq ▸ h⟩
  cases kind <;> cases other <;>
    simp_all [Kind.Is, PTE.isFree, BOOT_AREA_TOP, KRNL_STK_TOP]

/-- The kind that an entry should be of. -/
def kindAt (reserved committed i : ℕ) : Kind :=
  if i < BOOT_AREA_TOP then .boot
  else if i < KRNL_STK_TOP - reserved then .free
  else if i < KRNL_STK_TOP - committed then .reserved
  else if i < KRNL_STK_TOP then .committed
  else .guard

/-- If the loader has mapped what is committed, every entry is of the kind it should be. -/
theorem kindAt_is {reserved committed : ℕ} (hcommit : committed ≤ reserved) (hreserve : reserved ≤ 0x100)
    (hi : i < 0x200) :
  (kindAt reserved committed i).Is i (marked reserved committed (loaded committed k) i)
  := by
  have htop : KRNL_STK_TOP = 0x1FF := rfl
  have hboot : BOOT_AREA_TOP = 0x10 := rfl
  rw [kindAt]
  split_ifs with h₁ h₂ h₃ h₄
  · use h₁
    by_cases hdirect : i < DIRECT_MAP_TOP
    · rw [marked_direct hreserve hdirect]
    · rw [marked_boot hreserve (by omega) h₁]
  · rw [marked_plain hcommit hreserve (by omega) (by omega) (.inl h₂),
      loaded_empty (by omega) (.inl (by omega))]
    exact ⟨rfl, rfl⟩
  · rw [marked_reserved hcommit hreserve (by omega) h₃, loaded_empty (by omega) (.inl (by omega))]
    exact ⟨by omega, rfl, rfl, rfl⟩
  · rw [marked_plain hcommit hreserve (by omega) h₄ (.inr (by omega)),
      loaded_stack (by omega) (by omega) h₄]
    exact ⟨h₄, rfl, rfl⟩
  · obtain rfl : i = KRNL_STK_TOP := by omega
    rw [marked_guard hreserve, loaded_empty (by omega) (.inr le_rfl)]
    exact ⟨rfl, rfl, rfl⟩

theorem present_bootTable (hi : i < BOOT_AREA_TOP) : (bootTable i).present = true := by
  rw [bootTable]
  split_ifs <;> rfl

/-- Only the pages below the stack are free. -/
theorem kindAt_of_isFree {reserved committed : ℕ} (hcommit : committed ≤ reserved)
    (hreserve : reserved ≤ 0x100) (hi : i < 0x200)
    (hfree : (marked reserved committed (loaded committed k) i).isFree = true) :
  kindAt reserved committed i = .free
  := by
  have hkind := kindAt_is (k := k) hcommit hreserve hi
  by_cases hboot : i < BOOT_AREA_TOP
  · by_cases hdirect : i < DIRECT_MAP_TOP
    · rw [marked_direct hreserve hdirect, loaded_boot hboot] at hfree
      simp [PTE.isFree, present_bootTable hboot] at hfree
    · rw [marked_boot hreserve (by omega) hboot] at hfree
      cases hfree
  · by_cases hguard : i = KRNL_STK_TOP
    · rw [hguard, marked_guard hreserve] at hfree
      simp [PTE.isFree] at hfree
    · have hbypass : (marked reserved committed (loaded committed k) i).bypass = false := by
        rw [kindAt, if_neg hboot] at hkind
        have htop : KRNL_STK_TOP = 0x1FF := rfl
        split_ifs at hkind
        · exact hkind.1
        · exact hkind.2.1
        · exact hkind.2.1
        · omega
      exact ((Kind.is_iff hkind .free).1 ⟨hbypass, hfree⟩).symm

/-- The free pages below the stack are a run that cannot be extended. -/
theorem maximalRun_freeBlock {reserved committed : ℕ} (next prev : ℕ) (hcommit : committed ≤ reserved)
    (hreserve : reserved ≤ 0x100) (hpos : 1 ≤ committed) :
  MaximalRun (marked reserved committed (loaded committed k)) (freeBlock next prev reserved).run
  := by
  have htop : KRNL_STK_TOP = 0x1FF := rfl
  have hboot : BOOT_AREA_TOP = 0x10 := rfl
  have hrun : (freeBlock next prev reserved).run = ⟨0x10, 0x1EF - reserved⟩ := rfl
  rw [hrun]
  constructor
  · dsimp only
    omega
  · dsimp only
    omega
  · intro i hi
    simp only [Run.mem_iff] at hi
    rw [marked_plain hcommit hreserve (by omega) (by omega) (.inl (by omega)),
      loaded_empty (by omega) (.inl (by omega))]
    rfl
  · intro _
    rw [show (0x10 - 1 : ℕ) = 0xF from rfl, marked_boot hreserve (by decide) (by decide)]
    rfl
  · intro _
    dsimp only
    rw [show 0x10 + (0x1EF - reserved) = KRNL_STK_TOP - reserved by omega]
    by_cases hall : committed = reserved
    · rw [marked_plain hcommit hreserve (by omega) (by omega) (.inr (by omega)),
        loaded_stack (by omega) (by omega) (by omega)]
      rfl
    · rw [marked_reserved hcommit hreserve le_rfl (by omega), loaded_empty (by omega) (.inl (by omega))]
      rfl

/-- If the loader has mapped what is committed, the list of the constructor is well formed. -/
theorem wellFormed_freeBlock {next prev reserved committed : ℕ} (pdt : PDTE)
    (hcommit : committed ≤ reserved) (hreserve : reserved ≤ 0x100) (hpos : 1 ≤ committed)
    (hput : (freeBlock next prev reserved).put debug (marked reserved committed (loaded committed k))
      BOOT_AREA_TOP = .ok table') :
  WellFormed debug (putMaxSize { pdt with head := BOOT_AREA_TOP }
    (KRNL_STK_TOP - BOOT_AREA_TOP - reserved)) table'
  := by
  have hmax := maximalRun_freeBlock (k := k) next prev hcommit hreserve hpos
  have heq := BLOCK.put_eq debug hmax
  rw [show (freeBlock next prev reserved).self = BOOT_AREA_TOP from rfl, hput] at heq
  cases heq
  have hs := BLOCK.tagged_sameMap (freeBlock next prev reserved)
    (marked reserved committed (loaded committed k))
  have hchain : FreeChain debug (putMaxSize { pdt with head := BOOT_AREA_TOP }
      (KRNL_STK_TOP - BOOT_AREA_TOP - reserved))
      ((freeBlock next prev reserved).tagged (marked reserved committed (loaded committed k)))
      [(freeBlock next prev reserved).run] := by
    constructor
    · intro r hr
      rw [List.mem_singleton] at hr
      rw [hr]
      apply hmax.sameMap hs
    · simp
    · simp
    · rw [Linked.singleton_iff]
      apply BLOCK.records_tagged debug hmax
      · rfl
      · simp
      · intro _
        rfl
      · simp
    · rintro r ⟨⟩
      rfl
    · rfl
  apply hchain.wellFormed
  intro i hi hfree
  use (freeBlock next prev reserved).run, by simp
  rw [hs.isFree] at hfree
  have hkind := kindAt_of_isFree hcommit hreserve hi hfree
  have htop : KRNL_STK_TOP = 0x1FF := rfl
  have hboot : BOOT_AREA_TOP = 0x10 := rfl
  rw [kindAt] at hkind
  simp only [BLOCK.run, freeBlock, Run.mem_iff]
  split_ifs at hkind
  omega

/-! ### The hand-over -/

/-- What a hand-over that ends consists of. -/
theorem handOver_eq_ok {next prev : ℕ} {pdt : PDTE}
    (h : handOver debug next prev reserve commit k = .ok (pdt, table)) :
  pages reserve ≤ 0x100 ∧ pages commit ≤ pages reserve ∧ 1 ≤ commit / 0x1000 ∧
    pages commit = commit / 0x1000 + (if commit % 0x1000 = 0 then 0 else 1) ∧
    (freeBlock next prev (pages reserve)).put debug
      (marked (pages reserve) (pages commit) (loaded (commit / 0x1000) (k + 1))) BOOT_AREA_TOP =
        .ok table ∧
    pdt = putMaxSize { present := true, write := true, ptAddr := 7, head := BOOT_AREA_TOP }
      (KRNL_STK_TOP - BOOT_AREA_TOP - pages reserve)
  := by
  rw [handOver, Except.bind_eq_ok_iff] at h
  obtain ⟨table₁, hload, h⟩ := h
  obtain ⟨hreserve, hcommit, hpos, rfl⟩ := loadStack_eq_ok hload
  obtain ⟨hput, rfl⟩ := kernelVspace_eq_ok h
  have hR := pages_eq hreserve
  have hC := pages_eq (hcommit.trans hreserve)
  refine ⟨by omega, by omega, hpos, ?_, hput, rfl⟩
  split_ifs <;> omega

/-- If the size that is committed is not a multiple of the size of a page, the lowest page of the stack
that the kernel counts looks like a free one. -/
theorem free_of_odd {next prev : ℕ} {pdt : PDTE}
    (h : handOver debug next prev reserve commit k = .ok (pdt, table)) (hodd : commit % 0x1000 ≠ 0) :
  Kind.free.Is (KRNL_STK_TOP - pages commit) (table (KRNL_STK_TOP - pages commit)) ∧
    KRNL_STK_TOP - pages reserve ≤ KRNL_STK_TOP - pages commit ∧
    KRNL_STK_TOP - pages commit < 0x200
  := by
  obtain ⟨hreserve, hcommit, hpos, hpages, hput, -⟩ := handOver_eq_ok h
  rw [if_neg hodd] at hpages
  have htop : KRNL_STK_TOP = 0x1FF := rfl
  have hboot : BOOT_AREA_TOP = 0x10 := rfl
  refine ⟨?_, by omega, by omega⟩
  rw [← Kind.is_untagged, put_sameMap hput, Kind.is_untagged,
    marked_plain hcommit hreserve (by omega) (by omega) (.inr le_rfl),
    loaded_empty (by omega) (.inl (by omega))]
  exact ⟨rfl, rfl⟩

/-- The table that the kernel works with is as it should be exactly if the size that is committed is a
multiple of the size of a page. -/
theorem handedOver_iff {next prev : ℕ} {pdt : PDTE}
    (h : handOver debug next prev reserve commit k = .ok (pdt, table)) :
  HandedOver debug reserve commit pdt table ↔ commit % 0x1000 = 0
  := by
  constructor
  · intro hover
    by_contra hodd
    obtain ⟨hfree, hin, hlt⟩ := free_of_odd h hodd
    have hlow := (hover.free _ hlt).1 hfree
    omega
  · intro heven
    obtain ⟨hreserve, hcommit, hpos, hpages, hput, rfl⟩ := handOver_eq_ok h
    rw [if_pos heven, Nat.add_zero] at hpages
    rw [← hpages] at hput hpos
    have hs := put_sameMap hput
    have htop : KRNL_STK_TOP = 0x1FF := rfl
    have hboot : BOOT_AREA_TOP = 0x10 := rfl
    have hat : ∀ i < 0x200, ∀ kind, Kind.Is i (table i) kind ↔
        kind = kindAt (pages reserve) (pages commit) i := by
      intro i hi kind
      apply Kind.is_iff
      rw [← Kind.is_untagged, hs i, Kind.is_untagged]
      apply kindAt_is hcommit hreserve hi
    constructor
    · intro i hi
      exact ⟨_, (hat i hi _).2 rfl, fun kind hkind => (hat i hi kind).1 hkind⟩
    · intro i hi
      rw [hat i hi, kindAt]
      split_ifs <;> simp <;> omega
    · intro i hi
      rw [hat i hi, kindAt]
      split_ifs <;> simp <;> omega
    · intro i hi
      rw [hat i hi, kindAt]
      split_ifs <;> simp <;> omega
    · exact wellFormed_freeBlock { present := true, write := true, ptAddr := 7 } hcommit hreserve hpos hput

/-- What a run that ends leaves. -/
theorem exists_of_toBool {x : Except Fault (PDTE × Table)} (h : x.toBool = true) :
  ∃ pdt table, x = .ok (pdt, table)
  := by
  cases x with
  | error => cases h
  | ok p => exact ⟨p.1, p.2, rfl⟩

/-- A stack of two pages one of which is committed is handed over. -/
theorem two_pages_handed_over :
  ∃ pdt table, handOver false 0 0 0x2000 0x1000 0 = .ok (pdt, table) ∧
    HandedOver false 0x2000 0x1000 pdt table
  := by
  obtain ⟨pdt, table, h⟩ := exists_of_toBool
    (show (handOver false 0 0 0x2000 0x1000 0).toBool = true by decide +kernel)
  exact ⟨pdt, table, h, (handedOver_iff h).2 rfl⟩

/-- If a page and a half is committed, the second page is not mapped, and is taken for a free one. -/
theorem half_page_not_handed_over :
  ¬ ∀ (debug : Bool) (next prev reserve commit k : ℕ) (pdt : PDTE) (table : Table),
    handOver debug next prev reserve commit k = .ok (pdt, table) →
      HandedOver debug reserve commit pdt table
  := by
  intro hall
  obtain ⟨pdt, table, h⟩ := exists_of_toBool
    (show (handOver false 0 0 0x3000 0x1800 0).toBool = true by decide +kernel)
  obtain ⟨hfree, hin, hlt⟩ := free_of_odd h (by decide)
  have hlow := ((hall _ _ _ _ _ _ _ _ h).free _ hlt).1 hfree
  omega

end KernelStack

end UOS
