import Cofuos.Lib.Align
import Cofuos.Memory.Frames

/-!
# The construction of the physical memory manager

The loader has the BIOS list the ranges of addresses and keeps the highest end of those that are
usable. The constructor of `PM` puts the bitmap into one of the ranges, declares the pages of the
usable ranges free, and takes those that are in use: the pages that are mapped directly, the page
tables of the bitmap, the pages of the kernel and the bitmap itself. The definitions follow
`boot/krnldr.asm` and `kernel/memory/pm.cpp`.

The pages of the boot area that are neither mapped directly nor used for page tables are free.
-/

namespace UOS.PM

open Fault

/-- A range of addresses that the BIOS has found. -/
structure PMMSCAN where
  base : ℕ
  len : ℕ
  type : ℕ
  lt : base + len < 2 ^ 64
  /-- The type `0` ends the list. -/
  type_ne : type ≠ 0

/-- `aligned_base` -/
def PMMSCAN.alignedBase (r : PMMSCAN) : ℕ := alignUp 64 r.base PAGE_SIZE

/-- `aligned_size` -/
def PMMSCAN.alignedSize (r : PMMSCAN) : ℕ := alignDown (r.base + r.len - r.alignedBase) PAGE_SIZE

/-! ### The loader -/

/-- `set_PMM_top` -/
def setPMMTop (top : ℕ) (r : PMMSCAN) : ℕ :=
  if r.type ≠ 1 then top
  else if r.base + r.len = r.base then top
  else if top < r.base + r.len then r.base + r.len
  else top

/-- `sysinfo.PMM_avl_top` -/
def avlTop (scan : List PMMSCAN) : ℕ := scan.foldl setPMMTop 0

/-! ### The constructor -/

/-- `DIRECT_MAP_TOP >> 12` -/
def directMapCount : ℕ := 0xA

/-- `BOOT_AREA_TOP >> 12` -/
def bootAreaCount : ℕ := 0x10

/-- `pdt_limit` -/
def pdtLimit : ℕ := bootAreaCount - directMapCount

/-- `LOWADDR(PMMBMP_BASE) >> 21` -/
def pdtOff : ℕ := 2

/-- `bmp_size` -/
def sizeOf (scan : List PMMSCAN) : ℕ := avlTop scan / PAGE_SIZE

/-- `page_count` -/
def pagesOf (scan : List PMMSCAN) : ℕ := alignUp 64 (sizeOf scan) PAGE_SIZE / PAGE_SIZE

/-- `pdt_count` -/
def tablesOf (scan : List PMMSCAN) : ℕ := alignUp 64 (pagesOf scan) 0x200 / 0x200

/-- `bmp_pbase` -/
def findBase (pageCount : ℕ) : List PMMSCAN → ℕ
  | [] => 0
  | r :: scan =>
      if r.base < 0x100000 then findBase pageCount scan
      else if r.type ≠ 1 then findBase pageCount scan
      else if r.base + r.len < r.alignedBase then findBase pageCount scan
      else if r.alignedSize < pageCount * PAGE_SIZE then findBase pageCount scan
      else r.alignedBase

/-- An entry for a page with the attributes `0x80000000_00000103`. -/
def tableEntry (addr : ℕ) : ℕ := 0x8000000000000103 ||| addr

/-- The page tables of the bitmap are entered in the directory and filled. -/
def mapBitmap (debug : Bool) (tables pages base : ℕ) (pdt0 pt : ℕ → ℕ) :
    Except Fault ((ℕ → ℕ) × (ℕ → ℕ)) := do
  let pdt0 ← (List.range tables).foldlM (fun pdt0 i => do
    assert debug (pdt0 (pdtOff + i) = 0)
    return Function.update pdt0 (pdtOff + i) (tableEntry ((directMapCount + i) * PAGE_SIZE))) pdt0
  let pt ← (List.range pages).foldlM (fun pt i => do
    assert debug (i < pdtLimit * 0x200)
    return Function.update pt i (tableEntry (base + i * PAGE_SIZE))) pt
  let pt ← (List.range' pages (tables * 0x200 - pages)).foldlM (fun pt i => do
    assert debug (i < pdtLimit * 0x200)
    return Function.update pt i 0) pt
  return (pdt0, pt)

/-- The pages of a range are declared free, and those that were not are counted. -/
def fillPages (debug : Bool) (bmpSize : ℕ) :
    ℕ → ℕ → (ℕ → BLOCK) × ℕ → Except Fault ((ℕ → BLOCK) × ℕ)
  | 0, _, s => return s
  | count + 1, index, s => do
      assert debug (index < bmpSize)
      fillPages debug bmpSize count (index + 1)
        (if (s.1 index).free = false then (setFree s.1 index true, s.2 + 1) else s)

/-- A round of the second loop over the ranges. -/
def fillRange (debug : Bool) (bmpSize : ℕ) (s : (ℕ → BLOCK) × ℕ) (r : PMMSCAN) :
    Except Fault ((ℕ → BLOCK) × ℕ) :=
  if r.type ≠ 1 ∨ r.len = 0 then return s
  else if r.base + r.len < r.alignedBase then return s
  else fillPages debug bmpSize (r.alignedSize / PAGE_SIZE) (r.alignedBase / PAGE_SIZE) s

/-- Pages are taken. -/
def takePages (bmp : ℕ → BLOCK) (first count : ℕ) : ℕ → BLOCK :=
  (List.range count).foldl (fun bmp i => setFree bmp (first + i) false) bmp

/-- Pages are taken, with the assertion that they have entries. -/
def takeChecked (debug : Bool) (bmpSize : ℕ) (bmp : ℕ → BLOCK) (first count : ℕ) :
    Except Fault (ℕ → BLOCK) :=
  (List.range count).foldlM (fun bmp i => do
    assert debug (first + i < bmpSize)
    return setFree bmp (first + i) false) bmp

/-- What the constructor makes. -/
structure Made where
  pm : PM
  pdt0 : ℕ → ℕ
  bmpPt : ℕ → ℕ

/-- The constructor of `PM` from the place where `bmp_pbase` has been found. -/
def build (debug : Bool) (scan : List PMMSCAN) (kernelPage base : ℕ) (pdt0 pt : ℕ → ℕ) :
    Except Fault Made := do
  let (pdt0, pt) ← mapBitmap debug (tablesOf scan) (pagesOf scan) base pdt0 pt
  let (bmp, total) ← scan.foldlM (fillRange debug (sizeOf scan)) (fun _ => {}, 0)
  let bmp := takePages bmp 0 (directMapCount + tablesOf scan)
  let bmp ← takeChecked debug (sizeOf scan) bmp bootAreaCount kernelPage
  let bmp ← takeChecked debug (sizeOf scan) bmp (base / PAGE_SIZE) (pagesOf scan)
  let used := directMapCount + tablesOf scan + pagesOf scan + kernelPage
  assert debug (used < total)
  let bmp := (List.range (pagesOf scan)).foldl
    (fun bmp i => buildSolid (i * PAGE_SIZE) PAGE_SIZE bmp) bmp
  return {
    pm := { bmp := bmp, bmpSize := sizeOf scan, total := total, used := used }
    pdt0 := pdt0
    bmpPt := pt }

/-- The constructor of `PM`, with `sysinfo.kernel_page` and what is in the page tables. -/
def construct (debug : Bool) (scan : List PMMSCAN) (kernelPage : ℕ) (pdt0 pt : ℕ → ℕ) :
    Except Fault Made :=
  if tablesOf scan > pdtLimit then .error (.bugcheck "too many physical memory (0x%x pages)")
  else if findBase (pagesOf scan) scan = 0 then .error (.bugcheck "cannot allocate bmp_pbase")
  else build debug scan kernelPage (findBase (pagesOf scan) scan) pdt0 pt

/-! ### What is wanted of the manager -/

/-- A whole page lies in a usable range. -/
def Usable (scan : List PMMSCAN) (k : ℕ) : Prop :=
  ∃ r ∈ scan, r.type = 1 ∧ r.base ≤ k * PAGE_SIZE ∧ (k + 1) * PAGE_SIZE ≤ r.base + r.len

/-- The entries, the counters and the marks are right, when the boot area has so many pages. -/
structure Describes (scan : List PMMSCAN) (bootPages kernelPage : ℕ) (m : Made) : Prop where
  /-- The pages of the bitmap are those that its page tables map. -/
  free : ∃ first, (∀ i < pagesOf scan, m.bmpPt i = tableEntry ((first + i) * PAGE_SIZE)) ∧
    ∀ k, (m.pm.bmp k).free = true ↔ Usable scan k ∧ ¬ k < bootPages ∧
      ¬ (directMapCount ≤ k ∧ k < directMapCount + tablesOf scan) ∧
      ¬ (bootAreaCount ≤ k ∧ k < bootAreaCount + kernelPage) ∧
      ¬ (first ≤ k ∧ k < first + pagesOf scan)
  count : m.pm.freeFrames.card = m.pm.total - m.pm.used ∧ m.pm.used ≤ m.pm.total
  size : m.pm.bmpSize = sizeOf scan ∧ m.pm.total ≤ m.pm.bmpSize
  fresh : m.pm.reserved = 0 ∧ m.pm.next = 0 ∧ m.pm.hardCriticalLimit = 0
  marked : ∀ page < m.pm.pageCount, Marked m.pm.bmp (page * PAGE_SIZE)

/-! ### Loops -/

section Loops

variable {α σ : Type}

/-- A loop the assertions of which hold. -/
theorem foldlM_assert (debug : Bool) {c : α → Prop} [DecidablePred c] {f : σ → α → σ} {l : List α}
    (h : ∀ x ∈ l, c x) (s : σ) :
  (l.foldlM (fun s x => do
    assert debug (c x)
    return f s x) s : Except Fault σ) = .ok (l.foldl f s)
  := by
  induction l generalizing s with
  | nil => rfl
  | cons x l ih =>
      rw [List.foldlM_cons, assert_eq_ok (fun _ => h x List.mem_cons_self)]
      apply ih fun y hy => h y (List.mem_cons_of_mem x hy)

/-- Entries that are not stored stay. -/
theorem foldl_update_of_not_mem (g : ℕ → α) {k : ℕ} {l : List ℕ} (h : k ∉ l) (t : ℕ → α) :
  l.foldl (fun t i => Function.update t i (g i)) t k = t k
  := by
  induction l generalizing t with
  | nil => rfl
  | cons i l ih =>
      rw [List.mem_cons, not_or] at h
      rw [List.foldl_cons, ih h.2, Function.update_of_ne h.1]

/-- Entries that are stored one after the other. -/
theorem foldl_update_range (g : ℕ → α) {k n : ℕ} (h : k < n) (t : ℕ → α) :
  (List.range n).foldl (fun t i => Function.update t i (g i)) t k = g k
  := by
  induction n with
  | zero => exact absurd h (Nat.not_lt_zero k)
  | succ n ih =>
      rw [List.range_succ, List.foldl_append, List.foldl_cons, List.foldl_nil]
      by_cases hk : k = n
      · rw [hk, Function.update_self]
      · rw [Function.update_of_ne hk, ih (by omega)]

/-- The directory gets its entries, if there was nothing. -/
theorem mapTables_eq (debug : Bool) {n : ℕ} {pdt0 : ℕ → ℕ} (g : ℕ → ℕ) (hn : n ≤ pdtLimit)
    (hpdt : ∀ i < pdtLimit, pdt0 (pdtOff + i) = 0) :
  ∃ t, ((List.range n).foldlM (fun pdt0 i => do
    assert debug (pdt0 (pdtOff + i) = 0)
    return Function.update pdt0 (pdtOff + i) (g i)) pdt0 : Except Fault (ℕ → ℕ)) = .ok t ∧
      ∀ i, n ≤ i → i < pdtLimit → t (pdtOff + i) = 0
  := by
  induction n with
  | zero => exact ⟨pdt0, rfl, fun i _ hi => hpdt i hi⟩
  | succ n ih =>
      obtain ⟨t, heq, hzero⟩ := ih (by omega)
      refine ⟨Function.update t (pdtOff + n) (g n), ?_, ?_⟩
      · rw [List.range_succ, List.foldlM_append, heq, Except.ok_bind, List.foldlM_cons,
          assert_eq_ok fun _ => hzero n le_rfl (by omega)]
        rfl
      · intro i hi hlt
        rw [Function.update_of_ne (by omega), hzero i (by omega) hlt]

/-- The page tables of the bitmap are mapped and filled. -/
theorem mapBitmap_eq (debug : Bool) {tables pages base : ℕ} {pdt0 : ℕ → ℕ} (pt : ℕ → ℕ)
    (htables : tables ≤ pdtLimit) (hpages : pages ≤ tables * 0x200)
    (hpdt : ∀ i < pdtLimit, pdt0 (pdtOff + i) = 0) :
  ∃ pdt0' pt', mapBitmap debug tables pages base pdt0 pt = .ok (pdt0', pt') ∧
    ∀ i < pages, pt' i = tableEntry (base + i * PAGE_SIZE)
  := by
  obtain ⟨pdt0', hdir, -⟩ := mapTables_eq debug
    (fun i => tableEntry ((directMapCount + i) * PAGE_SIZE)) htables hpdt
  have hlimit : tables * 0x200 ≤ pdtLimit * 0x200 := Nat.mul_le_mul_right 0x200 htables
  have hfirst : ∀ i ∈ List.range pages, i < pdtLimit * 0x200 := by
    intro i hi
    rw [List.mem_range] at hi
    omega
  have hrest : ∀ i ∈ List.range' pages (tables * 0x200 - pages), i < pdtLimit * 0x200 := by
    intro i hi
    rw [List.mem_range'_1] at hi
    omega
  refine ⟨pdt0', (List.range' pages (tables * 0x200 - pages)).foldl
    (fun pt i => Function.update pt i 0) ((List.range pages).foldl
      (fun pt i => Function.update pt i (tableEntry (base + i * PAGE_SIZE))) pt), ?_, ?_⟩
  · rw [mapBitmap, hdir, Except.ok_bind, foldlM_assert debug hfirst, Except.ok_bind,
      foldlM_assert debug hrest]
    rfl
  · intro i hi
    have hnot : i ∉ List.range' pages (tables * 0x200 - pages) := by
      rw [List.mem_range'_1]
      omega
    rw [foldl_update_of_not_mem (fun _ => 0) hnot, foldl_update_range _ hi]

/-- Pages that are taken are not free. -/
theorem takePages_free (bmp : ℕ → BLOCK) (first count k : ℕ) :
  (takePages bmp first count k).free = true ↔
    (bmp k).free = true ∧ ¬ (first ≤ k ∧ k < first + count)
  := by
  induction count with
  | zero =>
      rw [takePages, List.range_zero, List.foldl_nil]
      exact (and_iff_left (by omega)).symm
  | succ count ih =>
      have hstep : takePages bmp first (count + 1) =
          setFree (takePages bmp first count) (first + count) false := by
        rw [takePages, List.range_succ, List.foldl_append]
        rfl
      rw [hstep]
      by_cases hk : k = first + count
      · rw [hk, setFree_self]
        exact iff_of_false Bool.false_ne_true fun h => h.2 (by omega)
      · rw [setFree_of_ne _ hk, ih]
        apply and_congr_right
        intro _
        apply not_congr
        omega

theorem takePages_solid (bmp : ℕ → BLOCK) (first count k : ℕ) :
  (takePages bmp first count k).solid = (bmp k).solid
  := by
  rw [takePages]
  induction List.range count generalizing bmp with
  | nil => rfl
  | cons i l ih => rw [List.foldl_cons, ih, setFree_solid]

theorem takeChecked_eq (debug : Bool) (bmp : ℕ → BLOCK) {bmpSize first count : ℕ}
    (h : ∀ i < count, first + i < bmpSize) :
  takeChecked debug bmpSize bmp first count = .ok (takePages bmp first count)
  := by
  apply foldlM_assert debug
  intro i hi
  apply h i (List.mem_range.1 hi)

end Loops

/-! ### The ranges -/

variable {scan : List PMMSCAN} {bmpSize : ℕ}

/-- The end of a usable range is not higher than the highest one. -/
theorem le_avlTop {r : PMMSCAN} (hr : r ∈ scan) (htype : r.type = 1) (hlen : r.len ≠ 0) :
  r.base + r.len ≤ avlTop scan
  := by
  have hstep : ∀ (top : ℕ) (x : PMMSCAN), top ≤ setPMMTop top x := by
    intro top x
    rw [setPMMTop]
    split_ifs
    · rfl
    · rfl
    · omega
    · rfl
  have hmono : ∀ (l : List PMMSCAN) (top : ℕ), top ≤ l.foldl setPMMTop top := by
    intro l
    induction l with
    | nil => exact fun top => le_rfl
    | cons x l ih => exact fun top => (hstep top x).trans (ih _)
  obtain ⟨before, after, rfl⟩ := List.append_of_mem hr
  rw [avlTop, List.foldl_append, List.foldl_cons]
  apply le_trans _ (hmono after _)
  rw [setPMMTop, if_neg (by omega), if_neg (by omega)]
  split_ifs with htop
  · rfl
  · omega

/-- The highest end is an address. -/
theorem avlTop_lt (scan : List PMMSCAN) : avlTop scan < 2 ^ 64 := by
  have hstep : ∀ (l : List PMMSCAN) (top : ℕ), top < 2 ^ 64 → l.foldl setPMMTop top < 2 ^ 64 := by
    intro l
    induction l with
    | nil => exact fun top htop => htop
    | cons x l ih =>
        intro top htop
        apply ih
        have hx := x.lt
        rw [setPMMTop]
        split_ifs
        · exact htop
        · exact htop
        · exact hx
        · exact htop
  apply hstep
  decide

theorem pagesOf_eq (scan : List PMMSCAN) : pagesOf scan = (sizeOf scan + 0xFFF) / 0x1000 := by
  have htop := avlTop_lt scan
  have hsize : sizeOf scan < 2 ^ 52 := by
    rw [sizeOf, PAGE_SIZE]
    omega
  rw [pagesOf, PAGE_SIZE, alignUp_div (by decide), Nat.mod_eq_of_lt (by omega)]
  rfl

theorem tablesOf_eq (scan : List PMMSCAN) : tablesOf scan = (pagesOf scan + 0x1FF) / 0x200 := by
  have hpages := pagesOf_eq scan
  have htop := avlTop_lt scan
  have hsize : sizeOf scan < 2 ^ 52 := by
    rw [sizeOf, PAGE_SIZE]
    omega
  rw [tablesOf, alignUp_div (by decide), Nat.mod_eq_of_lt (by omega)]
  rfl

/-- A page of a usable range has an entry. -/
theorem Usable.lt_sizeOf {k : ℕ} (h : Usable scan k) : k < sizeOf scan := by
  obtain ⟨r, hr, htype, hlow, hhigh⟩ := h
  rw [PAGE_SIZE] at hlow hhigh
  have htop := le_avlTop hr htype (by omega)
  rw [sizeOf, PAGE_SIZE]
  omega

/-- Without a carry the base is rounded up. -/
theorem PMMSCAN.alignedBase_eq (r : PMMSCAN) :
  r.alignedBase = if r.base + 0xFFF < 2 ^ 64 then (r.base + 0xFFF) / 0x1000 * 0x1000 else 0
  := by
  have hlt := r.lt
  rw [alignedBase, alignUp, alignDown, PAGE_SIZE]
  split_ifs with hcarry
  · rw [show r.base + 0x1000 - 1 = r.base + 0xFFF by omega, Nat.mod_eq_of_lt hcarry]
  · lia

/-- Where the bitmap is put. -/
theorem findBase_spec {pages : ℕ} (h : findBase pages scan ≠ 0) :
  ∃ r ∈ scan, 0x100000 ≤ r.base ∧ r.type = 1 ∧ r.alignedBase ≤ r.base + r.len ∧
    pages * PAGE_SIZE ≤ r.alignedSize ∧ findBase pages scan = r.alignedBase
  := by
  induction scan with
  | nil => exact absurd rfl h
  | cons r scan ih =>
      rw [findBase] at h ⊢
      split_ifs at h ⊢ with hlow htype hsmall hsize
      · obtain ⟨x, hx, hrest⟩ := ih h
        exact ⟨x, List.mem_cons_of_mem r hx, hrest⟩
      · obtain ⟨x, hx, hrest⟩ := ih h
        exact ⟨x, List.mem_cons_of_mem r hx, hrest⟩
      · obtain ⟨x, hx, hrest⟩ := ih h
        exact ⟨x, List.mem_cons_of_mem r hx, hrest⟩
      · obtain ⟨x, hx, hrest⟩ := ih h
        exact ⟨x, List.mem_cons_of_mem r hx, hrest⟩
      · exact ⟨r, List.mem_cons_self, by omega, by omega, by omega, by omega, rfl⟩

/-- The bitmap is put into usable pages above the first megabyte. -/
theorem findBase_usable {pages : ℕ} (h : findBase pages scan ≠ 0) :
  ∃ first, findBase pages scan = first * PAGE_SIZE ∧ 0x100 ≤ first ∧
    ∀ k, first ≤ k → k < first + pages → Usable scan k
  := by
  obtain ⟨r, hr, hlow, htype, hbase, hsize, heq⟩ := findBase_spec h
  have haligned := r.alignedBase_eq
  rw [heq] at h ⊢
  rw [PMMSCAN.alignedSize, alignDown, PAGE_SIZE] at hsize
  split_ifs at haligned with hcarry
  · refine ⟨(r.base + 0xFFF) / 0x1000, haligned, by omega, ?_⟩
    intro k hk hk'
    have hfit : pages ≤ (r.base + r.len - r.alignedBase) / 0x1000 :=
      Nat.le_of_mul_le_mul_right hsize (by decide)
    clear hcarry hsize
    use r, hr, htype
    rw [PAGE_SIZE]
    constructor
    · omega
    · lia
  · exact absurd haligned h

/-! ### Free pages -/

/-- The entries that are free have been counted, and nothing is marked. -/
structure Counted (bmpSize : ℕ) (s : (ℕ → BLOCK) × ℕ) : Prop where
  total : ((Finset.range bmpSize).filter fun k => (s.1 k).free = true).card = s.2
  within : ∀ k, (s.1 k).free = true → k < bmpSize
  unmarked : ∀ k, (s.1 k).solid = false

/-- A page is declared free. -/
theorem Counted.declareFree {s : (ℕ → BLOCK) × ℕ} {k : ℕ} (h : Counted bmpSize s) (hk : k < bmpSize)
    (hused : (s.1 k).free = false) :
  Counted bmpSize (setFree s.1 k true, s.2 + 1)
  := by
  constructor
  · have hinsert : ((Finset.range bmpSize).filter fun i => (setFree s.1 k true i).free = true) =
        Insert.insert k ((Finset.range bmpSize).filter fun i => (s.1 i).free = true) := by
      ext i
      rw [Finset.mem_insert, Finset.mem_filter, Finset.mem_filter, Finset.mem_range]
      by_cases hi : i = k
      · rw [hi, setFree_self]
        simp [hk]
      · rw [setFree_of_ne _ hi]
        simp [hi]
    rw [hinsert, Finset.card_insert_of_notMem, h.total]
    rw [Finset.mem_filter, hused]
    simp
  · intro i hi
    by_cases hik : i = k
    · rw [hik]
      exact hk
    · dsimp only at hi
      rw [setFree_of_ne _ hik] at hi
      apply h.within i hi
  · intro i
    rw [setFree_solid]
    apply h.unmarked

/-- The pages of a range are free when they have been gone through. -/
theorem fillPages_eq (debug : Bool) {count index : ℕ} {s : (ℕ → BLOCK) × ℕ} (h : Counted bmpSize s)
    (hlt : index + count ≤ bmpSize) :
  ∃ s', fillPages debug bmpSize count index s = .ok s' ∧ Counted bmpSize s' ∧
    ∀ k, (s'.1 k).free = true ↔ (s.1 k).free = true ∨ index ≤ k ∧ k < index + count
  := by
  induction count generalizing index s with
  | zero => exact ⟨s, rfl, h, fun k => (or_iff_left (by omega)).symm⟩
  | succ count ih =>
      rw [fillPages, assert_eq_ok fun _ => by omega, Except.ok_bind]
      by_cases hfree : (s.1 index).free = false
      · rw [if_pos hfree]
        obtain ⟨s', heq, hcounted, hs'⟩ :=
          ih (h.declareFree (by omega) hfree) (show index + 1 + count ≤ bmpSize by omega)
        refine ⟨s', heq, hcounted, fun k => ?_⟩
        rw [hs']
        dsimp only
        by_cases hk : k = index
        · rw [hk, setFree_self]
          exact iff_of_true (.inl rfl) (.inr (by omega))
        · rw [setFree_of_ne _ hk]
          apply or_congr_right
          omega
      · rw [if_neg hfree]
        obtain ⟨s', heq, hcounted, hs'⟩ := ih h (show index + 1 + count ≤ bmpSize by omega)
        refine ⟨s', heq, hcounted, fun k => ?_⟩
        rw [hs']
        by_cases hk : k = index
        · rw [hk]
          exact iff_of_true (.inl (by simpa using hfree)) (.inr (by omega))
        · apply or_congr_right
          omega

/-- With few page tables there are no addresses that large. -/
theorem avlTop_small (h : tablesOf scan ≤ pdtLimit) : avlTop scan < 2 ^ 63 := by
  rw [tablesOf_eq, pagesOf_eq, sizeOf, PAGE_SIZE, pdtLimit, bootAreaCount, directMapCount] at h
  omega

/-- The whole pages of a usable range are free when it has been gone through. -/
theorem fillRange_eq (debug : Bool) {s : (ℕ → BLOCK) × ℕ} {r : PMMSCAN} (hr : r ∈ scan)
    (htables : tablesOf scan ≤ pdtLimit) (h : Counted (sizeOf scan) s) :
  ∃ s', fillRange debug (sizeOf scan) s r = .ok s' ∧ Counted (sizeOf scan) s' ∧
    ∀ k, (s'.1 k).free = true ↔ (s.1 k).free = true ∨
      r.type = 1 ∧ r.base ≤ k * PAGE_SIZE ∧ (k + 1) * PAGE_SIZE ≤ r.base + r.len
  := by
  have htop := avlTop_small htables
  have haligned := r.alignedBase_eq
  rw [fillRange]
  by_cases hskip : r.type ≠ 1 ∨ r.len = 0
  · rw [if_pos hskip]
    refine ⟨s, rfl, h, fun k => (or_iff_left ?_).symm⟩
    rintro ⟨htype, hlow, hhigh⟩
    rw [PAGE_SIZE] at hlow hhigh
    omega
  rw [if_neg hskip]
  rw [not_or, not_not] at hskip
  have hend := le_avlTop hr hskip.1 hskip.2
  rw [if_pos (by omega)] at haligned
  by_cases hsmall : r.base + r.len < r.alignedBase
  · rw [if_pos hsmall]
    refine ⟨s, rfl, h, fun k => (or_iff_left ?_).symm⟩
    rintro ⟨-, hlow, hhigh⟩
    rw [PAGE_SIZE] at hlow hhigh
    lia
  rw [if_neg hsmall]
  have hsize : r.alignedSize / PAGE_SIZE = (r.base + r.len - r.alignedBase) / 0x1000 :=
    alignDown_div (by decide)
  have hindex : r.alignedBase / PAGE_SIZE = (r.base + 0xFFF) / 0x1000 := by
    rw [haligned, PAGE_SIZE, Nat.mul_div_cancel _ (by decide)]
  rw [hsize, hindex]
  obtain ⟨s', heq, hcounted, hs'⟩ := fillPages_eq debug h
    (show (r.base + 0xFFF) / 0x1000 + (r.base + r.len - r.alignedBase) / 0x1000 ≤ sizeOf scan by
      rw [sizeOf, PAGE_SIZE]
      lia)
  refine ⟨s', heq, hcounted, fun k => ?_⟩
  rw [hs', PAGE_SIZE]
  apply or_congr_right
  lia

/-- The whole pages of usable ranges are free when all of them have been gone through. -/
theorem foldlM_fillRange (debug : Bool) (htables : tablesOf scan ≤ pdtLimit) :
  ∃ s, scan.foldlM (fillRange debug (sizeOf scan)) (fun _ => {}, 0) = .ok s ∧
    Counted (sizeOf scan) s ∧ ∀ k, (s.1 k).free = true ↔ Usable scan k
  := by
  have hstep : ∀ l : List PMMSCAN, (∀ r ∈ l, r ∈ scan) → ∀ s, Counted (sizeOf scan) s →
      ∃ s', l.foldlM (fillRange debug (sizeOf scan)) s = .ok s' ∧ Counted (sizeOf scan) s' ∧
        ∀ k, (s'.1 k).free = true ↔ (s.1 k).free = true ∨ Usable l k := by
    intro l
    induction l with
    | nil =>
        intro _ s h
        refine ⟨s, rfl, h, fun k => (or_iff_left ?_).symm⟩
        rintro ⟨r, hr, -⟩
        exact absurd hr List.not_mem_nil
    | cons r l ih =>
        intro hl s h
        obtain ⟨s₁, heq₁, h₁, hs₁⟩ := fillRange_eq debug (hl r List.mem_cons_self) htables h
        obtain ⟨s₂, heq₂, h₂, hs₂⟩ := ih (fun x hx => hl x (List.mem_cons_of_mem r hx)) s₁ h₁
        refine ⟨s₂, ?_, h₂, fun k => ?_⟩
        · rw [List.foldlM_cons, heq₁]
          exact heq₂
        · have hcons : Usable (r :: l) k ↔ (r.type = 1 ∧ r.base ≤ k * PAGE_SIZE ∧
              (k + 1) * PAGE_SIZE ≤ r.base + r.len) ∨ Usable l k := by
            simp only [Usable, List.mem_cons, exists_eq_or_imp]
          rw [hs₂, hs₁, hcons, or_assoc]
  have hempty : Counted (sizeOf scan) (fun _ => {}, 0) := by
    constructor
    · simp
    · exact fun k hk => absurd hk Bool.false_ne_true
    · exact fun _ => rfl
  obtain ⟨s, heq, h, hs⟩ := hstep scan (fun _ hr => hr) _ hempty
  refine ⟨s, heq, h, fun k => ?_⟩
  rw [hs]
  exact or_iff_right Bool.false_ne_true

/-! ### Marks -/

/-- Marking a group leaves the others alone. -/
theorem buildSolid_frame {bmp : ℕ → BLOCK} {base : ℕ}
    (h : ∀ i < PAGE_SIZE, (bmp (base + i)).solid = false) :
  (∀ k, (buildSolid base PAGE_SIZE bmp k).free = (bmp k).free) ∧
    ∀ k, k < base ∨ base + PAGE_SIZE ≤ k → buildSolid base PAGE_SIZE bmp k = bmp k
  := by
  obtain ⟨bmp', heq, hfree, hout, -⟩ := markSolid_eq false h
  rw [markSolid_release, Except.ok.injEq] at heq
  rw [heq]
  exact ⟨hfree, hout⟩

/-- The groups are marked one after the other. -/
theorem foldl_buildSolid {bmp : ℕ → BLOCK} (h : ∀ k, (bmp k).solid = false) (n : ℕ) :
  let bmp' := (List.range n).foldl (fun bmp i => buildSolid (i * PAGE_SIZE) PAGE_SIZE bmp) bmp
  (∀ k, (bmp' k).free = (bmp k).free) ∧ (∀ page < n, Marked bmp' (page * PAGE_SIZE)) ∧
    ∀ k, n * PAGE_SIZE ≤ k → bmp' k = bmp k
  := by
  induction n with
  | zero =>
      exact ⟨fun _ => rfl, fun page hpage => absurd hpage (Nat.not_lt_zero page), fun _ _ => rfl⟩
  | succ n ih =>
      rw [List.range_succ, List.foldl_append]
      dsimp only [List.foldl_cons, List.foldl_nil] at ih ⊢
      obtain ⟨hfree, hmarked, hlater⟩ := ih
      have hunmarked : ∀ i < PAGE_SIZE, ((List.range n).foldl
          (fun bmp i => buildSolid (i * PAGE_SIZE) PAGE_SIZE bmp) bmp (n * PAGE_SIZE + i)).solid =
            false := by
        intro i _
        rw [hlater _ (by omega), h]
      obtain ⟨hframe, hout⟩ := buildSolid_frame hunmarked
      refine ⟨fun k => (hframe k).trans (hfree k), ?_, ?_⟩
      · intro page hpage
        rcases Nat.lt_succ_iff_lt_or_eq.1 hpage with hlt | rfl
        · apply (hmarked page hlt).congr
          intro i hi
          apply hout
          have hnext := Nat.mul_le_mul_right PAGE_SIZE (Nat.succ_le_of_lt hlt)
          rw [Nat.succ_mul] at hnext
          omega
        · apply marked_buildSolid hunmarked
      · intro k hk
        rw [Nat.succ_mul] at hk
        rw [hout k (by omega), hlater k (by omega)]

/-! ### The manager -/

/-- The pages that are in use from the beginning. -/
def taken (tables kernelPage first pages : ℕ) : Finset ℕ :=
  Finset.range (directMapCount + tables) ∪ Finset.Ico bootAreaCount (bootAreaCount + kernelPage) ∪
    Finset.Ico first (first + pages)

theorem mem_taken {tables kernelPage first pages k : ℕ} :
  k ∈ taken tables kernelPage first pages ↔ k < directMapCount + tables ∨
    bootAreaCount ≤ k ∧ k < bootAreaCount + kernelPage ∨ first ≤ k ∧ k < first + pages
  := by
  rw [taken, Finset.mem_union, Finset.mem_union, Finset.mem_range, Finset.mem_Ico, Finset.mem_Ico,
    or_assoc]

/-- They are different pages. -/
theorem card_taken {tables kernelPage first : ℕ} (pages : ℕ) (htables : tables ≤ pdtLimit)
    (hkernel : kernelPage ≤ 0x70) (hfirst : 0x100 ≤ first) :
  (taken tables kernelPage first pages).card = directMapCount + tables + pages + kernelPage
  := by
  rw [pdtLimit] at htables
  have hboot : bootAreaCount = 0x10 := rfl
  have hdirect : directMapCount = 0xA := rfl
  rw [taken, Finset.card_union_of_disjoint, Finset.card_union_of_disjoint, Finset.card_range,
    Nat.card_Ico, Nat.card_Ico]
  · omega
  · rw [Finset.disjoint_left]
    intro k hk hk'
    rw [Finset.mem_range] at hk
    rw [Finset.mem_Ico] at hk'
    omega
  · rw [Finset.disjoint_left]
    intro k hk hk'
    rw [Finset.mem_union, Finset.mem_range, Finset.mem_Ico] at hk
    rw [Finset.mem_Ico] at hk'
    omega

/-- If there is room, the manager describes the memory, and no assertion but the last one is
violated. -/
theorem construct_eq (debug : Bool) {kernelPage : ℕ} (pdt0 pt : ℕ → ℕ)
    (htables : tablesOf scan ≤ pdtLimit) (hbase : findBase (pagesOf scan) scan ≠ 0)
    (hkernel : kernelPage ≤ 0x70) (hpdt : ∀ i < pdtLimit, pdt0 (pdtOff + i) = 0)
    (hboot : ∀ k < directMapCount + tablesOf scan, Usable scan k)
    (hpages : ∀ i < kernelPage, Usable scan (bootAreaCount + i)) :
  ∃ m, Describes scan directMapCount kernelPage m ∧
    (∀ i < pagesOf scan, m.bmpPt i = tableEntry (findBase (pagesOf scan) scan + i * PAGE_SIZE)) ∧
    construct debug scan kernelPage pdt0 pt =
      if debug = true ∧ ¬ m.pm.used < m.pm.total then .error .assertFailed else .ok m
  := by
  obtain ⟨first, hfirst, hhigh, hbitmap⟩ := findBase_usable hbase
  have hcount := tablesOf_eq scan
  obtain ⟨pdt0', pt', hmap, hmapped⟩ := mapBitmap_eq debug pt htables
    (show pagesOf scan ≤ tablesOf scan * 0x200 by omega) hpdt
  obtain ⟨s, hfill, hcounted, husable⟩ := foldlM_fillRange debug htables
  have hpage : findBase (pagesOf scan) scan / PAGE_SIZE = first := by
    rw [hfirst, PAGE_SIZE, Nat.mul_div_cancel _ (by decide)]
  have hkernelPages := takeChecked_eq debug
    (takePages s.1 0 (directMapCount + tablesOf scan)) fun i hi => (hpages i hi).lt_sizeOf
  have hbitmapPages := takeChecked_eq debug
    (takePages (takePages s.1 0 (directMapCount + tablesOf scan)) bootAreaCount kernelPage)
    fun i (hi : i < pagesOf scan) => (hbitmap (first + i) (by omega) (by omega)).lt_sizeOf
  set bmp := takePages (takePages (takePages s.1 0 (directMapCount + tablesOf scan)) bootAreaCount
    kernelPage) first (pagesOf scan) with hbmp
  have hfree : ∀ k, (bmp k).free = true ↔
      Usable scan k ∧ k ∉ taken (tablesOf scan) kernelPage first (pagesOf scan) := by
    intro k
    rw [hbmp, takePages_free, takePages_free, takePages_free, husable, mem_taken]
    constructor
    · rintro ⟨⟨⟨h, hlow⟩, hkern⟩, hbit⟩
      exact ⟨h, by lia⟩
    · rintro ⟨h, hnot⟩
      exact ⟨⟨⟨h, by lia⟩, by lia⟩, by lia⟩
  have hunmarked : ∀ k, (bmp k).solid = false := by
    intro k
    rw [hbmp, takePages_solid, takePages_solid, takePages_solid, hcounted.unmarked]
  obtain ⟨hsame, hmarked, -⟩ := foldl_buildSolid hunmarked (pagesOf scan)
  refine ⟨{
    pm := {
      bmp := (List.range (pagesOf scan)).foldl
        (fun bmp i => buildSolid (i * PAGE_SIZE) PAGE_SIZE bmp) bmp
      bmpSize := sizeOf scan
      total := s.2
      used := directMapCount + tablesOf scan + pagesOf scan + kernelPage }
    pdt0 := pdt0'
    bmpPt := pt' }, ⟨⟨first, ?_, ?_⟩, ?_, ⟨rfl, ?_⟩, ⟨rfl, rfl, rfl⟩, ?_⟩, hmapped, ?_⟩
  · intro i hi
    rw [Nat.add_mul, ← hfirst]
    apply hmapped i hi
  · intro k
    dsimp only
    rw [hsame, hfree, mem_taken]
    apply and_congr_right
    intro _
    lia
  · have hfreeFrames : PM.freeFrames {
        bmp := (List.range (pagesOf scan)).foldl
          (fun bmp i => buildSolid (i * PAGE_SIZE) PAGE_SIZE bmp) bmp
        bmpSize := sizeOf scan
        total := s.2
        used := directMapCount + tablesOf scan + pagesOf scan + kernelPage } =
        ((Finset.range (sizeOf scan)).filter fun k => (s.1 k).free = true) \
          taken (tablesOf scan) kernelPage first (pagesOf scan) := by
      ext k
      rw [freeFrames, Finset.mem_filter, Finset.mem_sdiff, Finset.mem_filter, hsame, hfree, husable,
        and_assoc]
    have hsubset : taken (tablesOf scan) kernelPage first (pagesOf scan) ⊆
        (Finset.range (sizeOf scan)).filter fun k => (s.1 k).free = true := by
      intro k hk
      have huse : Usable scan k := by
        rcases mem_taken.1 hk with hlow | hkern | hbit
        · exact hboot k hlow
        · have hk' := hpages (k - bootAreaCount) (by omega)
          rwa [Nat.add_sub_cancel' hkern.1] at hk'
        · exact hbitmap k hbit.1 hbit.2
      rw [Finset.mem_filter, Finset.mem_range]
      exact ⟨huse.lt_sizeOf, (husable k).2 huse⟩
    have hcard := card_taken (pagesOf scan) htables hkernel hhigh
    have hle := Finset.card_le_card hsubset
    rw [hfreeFrames, Finset.card_sdiff_of_subset hsubset, hcounted.total, hcard]
    rw [hcounted.total, hcard] at hle
    exact ⟨rfl, hle⟩
  · have hall := Finset.card_filter_le (Finset.range (sizeOf scan)) fun k => (s.1 k).free = true
    rwa [hcounted.total, Finset.card_range] at hall
  · intro page hlt
    apply hmarked
    rw [pagesOf_eq]
    exact hlt
  · rw [construct, if_neg (by omega), if_neg hbase, build, hmap, Except.ok_bind]
    dsimp only
    rw [hfill, Except.ok_bind, hkernelPages, Except.ok_bind, hpage, hbitmapPages, Except.ok_bind]
    rw [assert]
    split_ifs
    · rfl
    · rfl

/-- A manager that describes the memory is one with which the histories begin. -/
theorem Describes.built {kernelPage : ℕ} {m : Made} (h : Describes scan directMapCount kernelPage m)
    (hfirst : Usable scan 0) :
  Built m.pm
  := by
  obtain ⟨hreserved, hnext, hlimit⟩ := h.fresh
  obtain ⟨hsize, htotal⟩ := h.size
  obtain ⟨hcard, hused⟩ := h.count
  obtain ⟨first, -, hfree⟩ := h.free
  have htop := avlTop_lt scan
  have hpos := hfirst.lt_sizeOf
  refine ⟨⟨h.marked, by omega⟩, ?_, hreserved, ?_⟩
  · constructor
    · rw [hsize, sizeOf, PAGE_SIZE]
      omega
    · intro k hk
      rw [← Bool.not_eq_true, hfree]
      intro hall
      have hlt := hall.1.lt_sizeOf
      omega
    · exact htotal
    · rw [hreserved]
      apply Nat.zero_le
    · rw [hlimit]
      decide
    · rw [hnext, pageCount, PAGE_SIZE]
      omega
  · rw [← Bool.not_eq_true, hfree]
    exact fun hall => hall.2.1 (by decide)

/-- Where an entry is free, not all of the memory is in use. -/
theorem Describes.used_lt {bootPages kernelPage k : ℕ} {m : Made}
    (h : Describes scan bootPages kernelPage m) (hk : (m.pm.bmp k).free = true) :
  m.pm.used < m.pm.total
  := by
  obtain ⟨hcard, -⟩ := h.count
  obtain ⟨first, -, hfree⟩ := h.free
  have hmem : k ∈ m.pm.freeFrames := by
    rw [freeFrames, Finset.mem_filter, Finset.mem_range, h.size.1]
    exact ⟨((hfree k).1 hk).1.lt_sizeOf, hk⟩
  have hpos := Finset.card_pos.2 ⟨k, hmem⟩
  lia

/-- For every list of ranges with the pages that are in use, the constructor stops because there is
no room, or the manager describes the memory and no assertion but the last one is violated. -/
theorem constructed (debug : Bool) (scan : List PMMSCAN) {kernelPage : ℕ} {pdt0 : ℕ → ℕ} (pt : ℕ → ℕ)
    (hkernel : kernelPage ≤ 0x70) (hpdt : ∀ i < pdtLimit, pdt0 (pdtOff + i) = 0)
    (hboot : ∀ k < directMapCount + tablesOf scan, Usable scan k)
    (hpages : ∀ i < kernelPage, Usable scan (bootAreaCount + i)) :
  construct debug scan kernelPage pdt0 pt =
      .error (.bugcheck "too many physical memory (0x%x pages)") ∨
    construct debug scan kernelPage pdt0 pt = .error (.bugcheck "cannot allocate bmp_pbase") ∨
    ∃ m, Describes scan directMapCount kernelPage m ∧ construct debug scan kernelPage pdt0 pt =
      if debug = true ∧ ¬ m.pm.used < m.pm.total then .error .assertFailed else .ok m
  := by
  by_cases htables : tablesOf scan > pdtLimit
  · exact .inl (if_pos htables)
  by_cases hbase : findBase (pagesOf scan) scan = 0
  · right
    left
    rw [construct, if_neg htables, if_pos hbase]
  · obtain ⟨m, hm, -, heq⟩ := construct_eq debug pdt0 pt (by omega) hbase hkernel hpdt hboot hpages
    exact .inr (.inr ⟨m, hm, heq⟩)

/-- Usable ranges below and above the first megabyte. -/
def twoRanges : List PMMSCAN :=
  [{ base := 0, len := 0x9FC00, type := 1, lt := by decide, type_ne := by decide },
    { base := 0x100000, len := 0x100000, type := 1, lt := by decide, type_ne := by decide }]

theorem usable_twoRanges {k : ℕ} (hk : k < 0x9F) : Usable twoRanges k := by
  refine ⟨_, List.mem_cons_self, rfl, Nat.zero_le _, ?_⟩
  rw [PAGE_SIZE]
  dsimp only
  omega

theorem sizeOf_twoRanges : tablesOf twoRanges = 1 ∧ pagesOf twoRanges = 1 ∧
    findBase (pagesOf twoRanges) twoRanges = 0x100000
  := by
  decide

/-- The manager for these ranges and three pages of the kernel is made, and describes them. -/
theorem twoRanges_constructed :
  ∃ m, Describes twoRanges directMapCount 3 m ∧
    construct true twoRanges 3 (fun _ => 0) (fun _ => 0) = .ok m
  := by
  obtain ⟨htables, hpages, hbase⟩ := sizeOf_twoRanges
  have hfew : tablesOf twoRanges ≤ pdtLimit := by
    rw [htables]
    decide
  have hroom : findBase (pagesOf twoRanges) twoRanges ≠ 0 := by
    rw [hbase]
    decide
  have hzero : ∀ i < pdtLimit, (fun _ : ℕ => (0 : ℕ)) (pdtOff + i) = 0 := fun _ _ => rfl
  have hdirect : ∀ k < directMapCount + tablesOf twoRanges, Usable twoRanges k := by
    intro k hk
    rw [htables, directMapCount] at hk
    apply usable_twoRanges (by omega)
  have hkernel : ∀ i < 3, Usable twoRanges (bootAreaCount + i) := by
    intro i hi
    rw [bootAreaCount]
    apply usable_twoRanges (by omega)
  -- One of two pages that are not taken for anything else is not taken for the bitmap either.
  have hleft : ∀ m, Describes twoRanges directMapCount 3 m → m.pm.used < m.pm.total := by
    intro m hm
    obtain ⟨first, -, hfree⟩ := hm.free
    rw [htables, hpages] at hfree
    have hk : ∃ k, 0x50 ≤ k ∧ k < 0x52 ∧ ¬ (first ≤ k ∧ k < first + 1) := by
      by_cases h : first = 0x50
      · exact ⟨0x51, by omega⟩
      · exact ⟨0x50, by omega⟩
    obtain ⟨k, hge, hlt, hbit⟩ := hk
    apply hm.used_lt ((hfree k).2 ⟨usable_twoRanges (by omega), ?_, ?_, ?_, hbit⟩)
    · rw [directMapCount]
      omega
    · rw [directMapCount]
      omega
    · rw [bootAreaCount]
      omega
  obtain ⟨m₀, hm₀, -, heq₀⟩ := construct_eq true (fun _ => 0) (fun _ => 0) hfew hroom
    (show 3 ≤ 0x70 by decide) hzero hdirect hkernel
  rw [if_neg fun h => h.2 (hleft m₀ hm₀)] at heq₀
  rcases @constructed true twoRanges 3 (fun _ => 0) (fun _ => 0) (by decide) hzero hdirect hkernel with
    h | h | ⟨m, hm, heq⟩
  · rw [heq₀] at h
    cases h
  · rw [heq₀] at h
    cases h
  · rw [if_neg fun h => h.2 (hleft m hm)] at heq
    exact ⟨m, hm, heq⟩

/-- The last page of the boot area is free. -/
theorem boot_area_not_taken :
  ¬ ∀ (debug : Bool) (scan : List PMMSCAN) (kernelPage : ℕ) (pdt0 pt : ℕ → ℕ), kernelPage ≤ 0x70 →
    (∀ i < pdtLimit, pdt0 (pdtOff + i) = 0) → (∀ k < bootAreaCount, Usable scan k) →
    (∀ i < kernelPage, Usable scan (bootAreaCount + i)) →
    construct debug scan kernelPage pdt0 pt =
        .error (.bugcheck "too many physical memory (0x%x pages)") ∨
      construct debug scan kernelPage pdt0 pt = .error (.bugcheck "cannot allocate bmp_pbase") ∨
      ∃ m, Describes scan bootAreaCount kernelPage m ∧ construct debug scan kernelPage pdt0 pt =
        if debug = true ∧ ¬ m.pm.used < m.pm.total then .error .assertFailed else .ok m
  := by
  intro hall
  obtain ⟨htables, hpages, hbase⟩ := sizeOf_twoRanges
  have hlow : ∀ k < 0x10, Usable twoRanges k := fun k hk => usable_twoRanges (by omega)
  have hfew : tablesOf twoRanges ≤ pdtLimit := by
    rw [htables]
    decide
  have hroom : findBase (pagesOf twoRanges) twoRanges ≠ 0 := by
    rw [hbase]
    decide
  have hzero : ∀ i < pdtLimit, (fun _ : ℕ => (0 : ℕ)) (pdtOff + i) = 0 := fun _ _ => rfl
  have hdirect : ∀ k < directMapCount + tablesOf twoRanges, Usable twoRanges k := by
    intro k hk
    rw [htables, directMapCount] at hk
    apply hlow k (by omega)
  have hnone : ∀ i < 0, Usable twoRanges (bootAreaCount + i) :=
    fun i hi => absurd hi (Nat.not_lt_zero i)
  obtain ⟨m, hm, hmapped, heq⟩ :=
    construct_eq false (fun _ => 0) (fun _ => 0) hfew hroom (Nat.zero_le 0x70) hzero hdirect hnone
  rw [if_neg fun h => absurd h.1 Bool.false_ne_true] at heq
  rcases hall false twoRanges 0 (fun _ => 0) (fun _ => 0) (Nat.zero_le 0x70) hzero hlow hnone with
    h | h | ⟨m', hm', heq'⟩
  · rw [heq] at h
    cases h
  · rw [heq] at h
    cases h
  · rw [if_neg fun h => absurd h.1 Bool.false_ne_true, heq] at heq'
    cases heq'
    obtain ⟨first, hfirst, hfree⟩ := hm.free
    obtain ⟨_, -, hfree'⟩ := hm'.free
    have hused : ¬ (m.pm.bmp 0xF).free = true := fun h => ((hfree' 0xF).1 h).2.1 (by decide)
    apply hused
    rw [hfree]
    rw [hpages] at hfirst hmapped ⊢
    have hentry := (hfirst 0 Nat.one_pos).symm.trans (hmapped 0 Nat.one_pos)
    refine ⟨hlow 0xF (by decide), by decide, by rw [htables]; decide, by decide, ?_⟩
    intro hbit
    obtain rfl : first = 0xF := by omega
    rw [← hpages, hbase] at hentry
    exact absurd hentry (by decide)

end UOS.PM
