import Cofuos.Lib.Fault
import Cofuos.Disk.Cache

/-!
# The allocation table and the allocation bitmap

The clusters of a volume are chained by the file allocation table, and a bitmap tells which of
them are in use. The definitions follow `fat_reader`, `exfat::allocator`, `exfat::lba_of_fat` and
`exfat::lba_of_cluster` of `kernel/filesystem/exfat.cpp`.

The entries of the table and the bits of the bitmap are kept as they are found in the cache of the
disk. Of the cache itself we keep what one thread sees of it: the pages whose slots the thread
holds, and whether it has asked for one of them again. Which accesses succeed is given from
outside.
-/

namespace UOS

/-- The cache of the disk, as one thread sees it. -/
structure Dm where
  /-- Which of the accesses succeed, by the order in which they are made. -/
  succeeds : ℕ → Bool
  gets : ℕ := 0
  /-- The pages whose slots the thread holds. -/
  held : List ℕ := []
  /-- The thread has asked for a page whose slot it held. -/
  asked : Bool := false

namespace Dm

/-- Asks for the slot of the page of `lba`. -/
def get (dm : Dm) (lba : ℕ) : Option ℕ × Dm :=
  let page := Disk.pageLba lba
  let dm' := { dm with gets := dm.gets + 1, asked := dm.asked || decide (page ∈ dm.held) }
  if dm.succeeds dm.gets = true then
    (some page, { dm' with held := page :: dm.held })
  else
    (none, dm')

/-- Gives the slot of a page back. -/
def relax (dm : Dm) (page : ℕ) : Dm := { dm with held := dm.held.erase page }

/-- Gives a slot back if there is one. -/
def relaxAny (dm : Dm) : Option ℕ → Dm
  | none => dm
  | some page => dm.relax page

end Dm

/-- The layout of a volume, its allocation table and its allocation bitmap. -/
structure Exfat where
  /-- The first sector of the allocation table. -/
  table : ℕ
  table_pos : 0 < table
  /-- The first sector of the allocation bitmap. -/
  bitmap : ℕ
  /-- The first sector of the cluster `2`. -/
  heap : ℕ
  clusterCount : ℕ
  count_lt : clusterCount < 2 ^ 32
  clusterShift : ℕ
  /-- The entries of the allocation table. -/
  fat : ℕ → ℕ
  /-- The bits of the allocation bitmap. -/
  used : ℕ → Bool
  bmpLastIndex : ℕ := 0
  last_lt : bmpLastIndex < clusterCount

namespace Exfat

def SECTOR_SIZE : ℕ := 512

/-- The entries of the allocation table in a sector. -/
def elementPerSector : ℕ := 128

/-- The bits of the allocation bitmap in a sector. -/
def bitPerSector : ℕ := 4096

/-- The entry of the last cluster of a chain is not less than this. -/
def END : ℕ := 0xFFFFFFF8

def clusterSize (fs : Exfat) : ℕ := 2 ^ fs.clusterShift

/-- The number of sectors of the allocation table, computed with 32 bits. -/
def fatLimit (fs : Exfat) : ℕ :=
  (fs.clusterCount + 2 + (elementPerSector - 1)) % 2 ^ 32 / elementPerSector

def lbaOfFat (fs : Exfat) (sector : ℕ) : ℕ :=
  if sector < fs.fatLimit then fs.table + sector else 0

def lbaOfCluster (debug : Bool) (fs : Exfat) (cluster : ℕ) : Except Fault ℕ := do
  Fault.assert debug (2 ≤ cluster ∧ cluster < 0xFFFFFFF7)
  if fs.clusterCount ≤ (cluster + 2 ^ 32 - 2) % 2 ^ 32 then
    return 0
  else
    return fs.heap + (cluster - 2) * (fs.clusterSize / SECTOR_SIZE)

/-- Sets the entry of a cluster. -/
def setEntry (fs : Exfat) (cluster next : ℕ) : Exfat :=
  { fs with fat := Function.update fs.fat cluster next }

/-- Sets the bit at a position that is less than the number of clusters, and continues from
there. -/
def setUsed (fs : Exfat) (pos : ℕ) (h : pos < fs.clusterCount) : Exfat :=
  { fs with used := Function.update fs.used pos true, bmpLastIndex := pos, last_lt := h }

end Exfat

/-! ### Reading the allocation table -/

/-- A reader of the allocation table, which keeps the slot of the last sector it has read. -/
structure FatReader where
  sectorIndex : ℕ := 0
  sectorLba : ℕ := 0
  /-- The page of the slot. -/
  fatSector : Option ℕ := none

namespace FatReader

/-- Obtains the slot of the sector of a cluster. A sector outside of the table leaves the former
slot in place, though it has been given back. -/
def load (fs : Exfat) (r : FatReader) (dm : Dm) (cluster : ℕ) : Bool × FatReader × Dm :=
  let sector := cluster / Exfat.elementPerSector
  if r.fatSector = none ∨ r.sectorIndex ≠ sector then
    let dm := dm.relaxAny r.fatSector
    let lba := fs.lbaOfFat sector
    if lba = 0 then
      -- cluster overflow
      (false, { r with sectorLba := lba }, dm)
    else
      match dm.get lba with
      | (none, dm) => (false, { r with sectorLba := lba, fatSector := none }, dm)
      | (some page, dm) =>
        (true, { sectorIndex := sector, sectorLba := lba, fatSector := some page }, dm)
  else
    (true, r, dm)

/-- Gives the slot back. -/
def close (r : FatReader) (dm : Dm) : Dm := dm.relaxAny r.fatSector

/-- The entry of a cluster, and `0` if it cannot be read. -/
def get (debug : Bool) (fs : Exfat) (r : FatReader) (dm : Dm) (cluster : ℕ) :
    Except Fault (ℕ × FatReader × Dm) := do
  Fault.assert debug (2 ≤ cluster)
  match r.load fs dm cluster with
  | (false, r, dm) => return (0, r, dm)
  | (true, r, dm) => return (fs.fat cluster, r, dm)

/-- Makes `next` the last cluster of a chain, and appends it to `tail` if that is not `0`. -/
def put (debug : Bool) (fs : Exfat) (r : FatReader) (dm : Dm) (tail next : ℕ) :
    Except Fault (Bool × Exfat × FatReader × Dm) := do
  Fault.assert debug (2 ≤ next)
  match r.load fs dm next with
  | (false, r, dm) => return (false, fs, r, dm)
  | (true, r, dm) =>
    let fs := fs.setEntry next 0xFFFFFFFF
    if tail = 0 then
      -- an empty file
      return (true, fs, r, dm)
    else
      Fault.assert debug (2 ≤ tail)
      match r.load fs dm tail with
      | (false, r, dm) => return (false, fs, r, dm)
      | (true, r, dm) =>
        if fs.fat tail < Exfat.END then
          -- not the last cluster of a chain
          return (false, fs, r, dm)
        else
          return (true, fs.setEntry tail next, r, dm)

end FatReader

/-! ### Allocating clusters -/

/-- An allocator of clusters, which keeps the slot of the last sector of the bitmap it has
read. -/
structure Allocator where
  blockLba : ℕ := 0
  /-- The page of the slot. -/
  block : Option ℕ := none

namespace Allocator

/-- Obtains the slot of the sector of the bitmap at `lba`. -/
def load (a : Allocator) (dm : Dm) (lba : ℕ) : Bool × Allocator × Dm :=
  if a.block = none ∨ a.blockLba ≠ lba then
    match (dm.relaxAny a.block).get lba with
    | (none, dm) => (false, { a with block := none }, dm)
    | (some page, dm) => (true, { blockLba := lba, block := some page }, dm)
  else
    (true, a, dm)

/-- Gives the slot back. -/
def close (a : Allocator) (dm : Dm) : Dm := dm.relaxAny a.block

/-- Searches a sector of the bitmap for a bit that is clear, from the position `pos`, where `n`
positions of the sector are left. Returns the position at which the search ends, and whether it
has found one. -/
def scan (fs : Exfat) : ℕ → ℕ → Bool × ℕ
  | 0, pos => (false, pos)
  | n + 1, pos =>
    if fs.clusterCount ≤ pos then
      (false, pos)
    else if fs.used pos = false then
      (true, pos)
    else
      scan fs n (pos + 1)

/-- A position at which a search succeeds is less than the number of clusters. -/
theorem scan_lt {fs : Exfat} {n pos : ℕ} (h : (scan fs n pos).1 = true) :
  (scan fs n pos).2 < fs.clusterCount
  := by
  induction n generalizing pos with
  | zero => simp [scan] at h
  | succ n ih =>
      rw [scan] at h ⊢
      split_ifs at h ⊢ with h₁ h₂
      · omega
      · apply ih h

/-- Searches one sector of the bitmap after the other, until the search comes back to the sector
it has started with. -/
def search (initial : ℕ) : ℕ → Exfat → Allocator → Dm → ℕ →
    Except Fault (ℕ × Exfat × Allocator × Dm)
  | 0, _, _, _, _ => .error .outOfFuel
  | fuel + 1, fs, a, dm, pos =>
    match a.load dm (fs.bitmap + pos / Exfat.bitPerSector) with
    | (false, a, dm) => .ok (0, fs, a, dm)
    | (true, a, dm) =>
      let found := scan fs (Exfat.bitPerSector - pos % Exfat.bitPerSector) pos
      if h : found.1 = true then
        .ok ((found.2 + 2) % 2 ^ 32, fs.setUsed found.2 (scan_lt h), a, dm)
      else
        let pos := if fs.clusterCount ≤ found.2 then 0 else found.2
        if pos = initial then .ok (0, fs, a, dm) else search initial fuel fs a dm pos

/-- Allocates a cluster. Returns `0` if none is found. -/
def get (fs : Exfat) (a : Allocator) (dm : Dm) : Except Fault (ℕ × Exfat × Allocator × Dm) :=
  search (fs.bmpLastIndex / Exfat.bitPerSector * Exfat.bitPerSector)
    (fs.clusterCount / Exfat.bitPerSector + 2) fs a dm fs.bmpLastIndex

end Allocator

/-! ### What is read -/

/-- All accesses to the disk succeed. -/
def Dm.Succeeds (dm : Dm) : Prop := ∀ n, dm.succeeds n = true

/-- The entry of a cluster, and `0` if it lies outside of the allocation table. -/
def Exfat.entry (fs : Exfat) (cluster : ℕ) : ℕ :=
  if cluster / elementPerSector < fs.fatLimit then fs.fat cluster else 0

variable {debug : Bool} {fs fs' : Exfat} {dm dm' : Dm}

theorem Dm.relaxAny_succeeds (h : dm.Succeeds) (page : Option ℕ) :
  (dm.relaxAny page).Succeeds
  := by
  cases page with
  | none => apply h
  | some page => apply h

/-- When the accesses succeed, a slot is obtained. -/
theorem Dm.get_eq (h : dm.Succeeds) (lba : ℕ) :
  ∃ dm', dm.get lba = (some (Disk.pageLba lba), dm') ∧ dm'.Succeeds
  := by
  rw [Dm.get, if_pos (h _)]
  exact ⟨_, rfl, h⟩

/-- The sector of a reader that has a slot lies in the allocation table. -/
def FatReader.Valid (fs : Exfat) (r : FatReader) : Prop :=
  r.fatSector ≠ none → r.sectorIndex < fs.fatLimit

theorem FatReader.valid_init : FatReader.Valid fs {} := by
  intro h
  simp at h

/-- A sector is loaded exactly if it lies in the allocation table. -/
theorem FatReader.load_eq {r : FatReader} (hr : r.Valid fs) (hdm : dm.Succeeds) (cluster : ℕ) :
  ∃ r' dm', r.load fs dm cluster
      = (decide (cluster / Exfat.elementPerSector < fs.fatLimit), r', dm')
    ∧ r'.Valid fs ∧ dm'.Succeeds
  := by
  rw [load]
  dsimp only
  split_ifs with h₁ h₂
  · -- outside of the table
    have hout : ¬ cluster / Exfat.elementPerSector < fs.fatLimit := by
      intro hlt
      rw [Exfat.lbaOfFat, if_pos hlt] at h₂
      apply fs.table_pos.ne' (Nat.add_eq_zero_iff.1 h₂).1
    rw [decide_eq_false hout]
    exact ⟨_, _, rfl, hr, Dm.relaxAny_succeeds hdm _⟩
  · have hin : cluster / Exfat.elementPerSector < fs.fatLimit := by
      by_contra hout
      rw [Exfat.lbaOfFat, if_neg hout] at h₂
      apply h₂ rfl
    obtain ⟨dm', hget, hdm'⟩ := Dm.get_eq (Dm.relaxAny_succeeds hdm r.fatSector)
      (fs.lbaOfFat (cluster / Exfat.elementPerSector))
    rw [hget, decide_eq_true hin]
    exact ⟨_, _, rfl, fun _ => hin, hdm'⟩
  · rw [not_or, not_not] at h₁
    rw [decide_eq_true (h₁.2 ▸ hr h₁.1)]
    exact ⟨_, _, rfl, hr, hdm⟩

/-- When the accesses succeed, the entry of a cluster is read. -/
theorem FatReader.get_eq {r : FatReader} {cluster : ℕ} (hr : r.Valid fs) (hdm : dm.Succeeds)
    (hc : debug = true → 2 ≤ cluster) :
  ∃ r' dm', r.get debug fs dm cluster = .ok (fs.entry cluster, r', dm')
    ∧ r'.Valid fs ∧ dm'.Succeeds
  := by
  obtain ⟨r', dm', hload, hr', hdm'⟩ := load_eq hr hdm cluster
  use r', dm'
  rw [get, Fault.assert_eq_ok hc, Except.ok_bind, hload, Exfat.entry]
  by_cases h : cluster / Exfat.elementPerSector < fs.fatLimit
  · rw [decide_eq_true h, if_pos h]
    exact ⟨rfl, hr', hdm'⟩
  · rw [decide_eq_false h, if_neg h]
    exact ⟨rfl, hr', hdm'⟩

/-- Whether or not an access succeeds, a sector that has been loaded lies in the allocation
table. -/
theorem FatReader.load_inv {r r' : FatReader} {cluster : ℕ} {b : Bool} (hr : r.Valid fs)
    (h : r.load fs dm cluster = (b, r', dm')) :
  r'.Valid fs ∧ (b = true → cluster / Exfat.elementPerSector < fs.fatLimit)
  := by
  rw [load] at h
  dsimp only at h
  split_ifs at h with h₁ h₂
  · cases h
    refine ⟨hr, ?_⟩
    intro hb
    cases hb
  · have hin : cluster / Exfat.elementPerSector < fs.fatLimit := by
      by_contra hout
      rw [Exfat.lbaOfFat, if_neg hout] at h₂
      apply h₂ rfl
    split at h
    · cases h
      refine ⟨?_, fun _ => hin⟩
      intro hnone
      apply absurd rfl hnone
    · cases h
      exact ⟨fun _ => hin, fun _ => hin⟩
  · cases h
    rw [not_or, not_not] at h₁
    exact ⟨hr, fun _ => h₁.2 ▸ hr h₁.1⟩

/-- Reading an entry returns, unless the number is not that of a cluster. -/
theorem FatReader.get_returns {cluster : ℕ} (hc : debug = true → 2 ≤ cluster) (fs : Exfat)
    (r : FatReader) (dm : Dm) :
  ∃ res, r.get debug fs dm cluster = .ok res
  := by
  rw [get, Fault.assert_eq_ok hc, Except.ok_bind]
  split
  · exact ⟨_, rfl⟩
  · exact ⟨_, rfl⟩

/-- What is read is the entry of the cluster, or `0`. -/
theorem FatReader.get_inv {r r' : FatReader} {cluster v : ℕ} (hr : r.Valid fs)
    (h : r.get debug fs dm cluster = .ok (v, r', dm')) :
  r'.Valid fs ∧ (v = 0 ∨ v = fs.entry cluster)
  := by
  rw [get, Except.bind_eq_ok_iff] at h
  obtain ⟨-, -, h⟩ := h
  split at h
  · rename_i hload
    cases h
    exact ⟨(load_inv hr hload).1, Or.inl rfl⟩
  · rename_i hload
    cases h
    obtain ⟨hr', hin⟩ := load_inv hr hload
    rw [Exfat.entry, if_pos (hin rfl)]
    exact ⟨hr', Or.inr rfl⟩

/-! ### Which accesses succeed -/

theorem Dm.relaxAny_succeeds_eq (dm : Dm) (page : Option ℕ) :
  (dm.relaxAny page).succeeds = dm.succeeds
  := by
  cases page with
  | none => rfl
  | some page => rfl

theorem Dm.get_succeeds_eq {lba : ℕ} {page : Option ℕ} (h : dm.get lba = (page, dm')) :
  dm'.succeeds = dm.succeeds
  := by
  rw [Dm.get] at h
  dsimp only at h
  split_ifs at h
  · cases h
    rfl
  · cases h
    rfl

namespace FatReader

variable {r r' : FatReader} {cluster tail next v : ℕ} {b : Bool}

theorem load_succeeds_eq (h : r.load fs dm cluster = (b, r', dm')) :
  dm'.succeeds = dm.succeeds
  := by
  rw [load] at h
  dsimp only at h
  split_ifs at h
  · cases h
    apply Dm.relaxAny_succeeds_eq
  · split at h
    · rename_i hget
      cases h
      apply (Dm.get_succeeds_eq hget).trans (Dm.relaxAny_succeeds_eq _ _)
    · rename_i hget
      cases h
      apply (Dm.get_succeeds_eq hget).trans (Dm.relaxAny_succeeds_eq _ _)
  · cases h
    rfl

theorem get_succeeds_eq (h : r.get debug fs dm cluster = .ok (v, r', dm')) :
  dm'.succeeds = dm.succeeds
  := by
  rw [get, Except.bind_eq_ok_iff] at h
  obtain ⟨-, -, h⟩ := h
  split at h
  · rename_i hload
    cases h
    apply load_succeeds_eq hload
  · rename_i hload
    cases h
    apply load_succeeds_eq hload

theorem put_succeeds_eq (h : r.put debug fs dm tail next = .ok (b, fs', r', dm')) :
  dm'.succeeds = dm.succeeds
  := by
  rw [put, Except.bind_eq_ok_iff] at h
  obtain ⟨-, -, h⟩ := h
  split at h
  · rename_i hload
    cases h
    apply load_succeeds_eq hload
  · rename_i hload
    dsimp only at h
    by_cases ht : tail = 0
    · rw [if_pos ht] at h
      cases h
      apply load_succeeds_eq hload
    · rw [if_neg ht, Except.bind_eq_ok_iff] at h
      obtain ⟨-, -, h⟩ := h
      split at h
      · rename_i hload'
        cases h
        apply (load_succeeds_eq hload').trans (load_succeeds_eq hload)
      · rename_i hload'
        split_ifs at h
        · cases h
          apply (load_succeeds_eq hload').trans (load_succeeds_eq hload)
        · cases h
          apply (load_succeeds_eq hload').trans (load_succeeds_eq hload)

end FatReader

namespace Allocator

variable {a a' : Allocator} {initial fuel pos next lba : ℕ} {b : Bool}

theorem load_succeeds_eq (h : a.load dm lba = (b, a', dm')) :
  dm'.succeeds = dm.succeeds
  := by
  rw [load] at h
  split_ifs at h
  · split at h
    · rename_i hget
      cases h
      apply (Dm.get_succeeds_eq hget).trans (Dm.relaxAny_succeeds_eq _ _)
    · rename_i hget
      cases h
      apply (Dm.get_succeeds_eq hget).trans (Dm.relaxAny_succeeds_eq _ _)
  · cases h
    rfl

theorem search_succeeds_eq (h : search initial fuel fs a dm pos = .ok (next, fs', a', dm')) :
  dm'.succeeds = dm.succeeds
  := by
  induction fuel generalizing a dm pos with
  | zero => cases h
  | succ fuel ih =>
      rw [search] at h
      split at h
      · rename_i hload
        cases h
        apply load_succeeds_eq hload
      · rename_i hload
        have heq := load_succeeds_eq hload
        dsimp only at h
        split_ifs at h
        · simp only [Except.ok.injEq, Prod.mk.injEq] at h
          rw [← h.2.2.2]
          apply heq
        · cases h
          apply heq
        · apply (ih h).trans heq
        · cases h
          apply heq
        · apply (ih h).trans heq

end Allocator

/-! ### What is changed -/

/-- The cluster `next`, which was free, has been allocated. It is the last of a chain or its own
successor, and one or more chains that ended have been continued by it. -/
structure Exfat.Appended (fs fs' : Exfat) (next : ℕ) : Prop where
  two_le : 2 ≤ next
  lt_count : next - 2 < fs.clusterCount
  free : fs.used (next - 2) = false
  count : fs'.clusterCount = fs.clusterCount
  used : fs'.used = Function.update fs.used (next - 2) true
  linked : ∀ c, c ≠ next → fs'.fat c = fs.fat c ∨ END ≤ fs.fat c ∧ fs'.fat c = next
  own : END ≤ fs'.fat next ∨ fs'.fat next = next

/-- A bit has been set, and nothing else has been changed. -/
structure Exfat.Marked (fs fs' : Exfat) : Prop where
  count : fs'.clusterCount = fs.clusterCount
  used : ∀ pos, fs.used pos = true → fs'.used pos = true
  fat : fs'.fat = fs.fat

/-- The ways in which the allocation table and the bitmap are changed. -/
inductive Exfat.Step (fs fs' : Exfat) : Prop
  | marked : fs.Marked fs' → Step fs fs'
  | appended (next : ℕ) : fs.Appended fs' next → Step fs fs'

/-- The changes of a sequence of steps. -/
def Exfat.Grows : Exfat → Exfat → Prop := Relation.ReflTransGen Exfat.Step

namespace Allocator

variable {a a' : Allocator} {initial fuel pos next : ℕ}

/-- A search that succeeds ends at a bit that is clear. -/
theorem scan_free {n : ℕ} (h : (scan fs n pos).1 = true) :
  fs.used (scan fs n pos).2 = false
  := by
  induction n generalizing pos with
  | zero => simp [scan] at h
  | succ n ih =>
      rw [scan] at h ⊢
      split_ifs at h ⊢ with h₁ h₂
      · apply h₂
      · apply ih h

/-- A search that fails ends at the end of the bitmap, or at the end of the sector. -/
theorem scan_end {n : ℕ} (h : (scan fs n pos).1 = false) :
  fs.clusterCount ≤ (scan fs n pos).2 ∧ (scan fs n pos).2 ≤ pos + n
    ∨ (scan fs n pos).2 = pos + n
  := by
  induction n generalizing pos with
  | zero => simp [scan]
  | succ n ih =>
      rw [scan] at h ⊢
      split_ifs at h ⊢ with h₁ h₂
      · left
        exact ⟨h₁, Nat.le_add_right pos (n + 1)⟩
      · have := ih h
        lia

/-- A search of the bitmap returns `0` and changes nothing, or it returns the cluster of a bit
that was clear and has been set. -/
theorem search_inv (h : search initial fuel fs a dm pos = .ok (next, fs', a', dm')) :
  next = 0 ∧ fs' = fs
    ∨ ∃ p hp, fs.used p = false ∧ next = (p + 2) % 2 ^ 32 ∧ fs' = fs.setUsed p hp
  := by
  induction fuel generalizing a dm pos with
  | zero => cases h
  | succ fuel ih =>
      rw [search] at h
      split at h
      · cases h
        left
        exact ⟨rfl, rfl⟩
      · dsimp only at h
        split_ifs at h with hfound hend hstop hstop
        · simp only [Except.ok.injEq, Prod.mk.injEq] at h
          right
          exact ⟨_, _, scan_free hfound, h.1.symm, h.2.1.symm⟩
        · cases h
          left
          exact ⟨rfl, rfl⟩
        · apply ih h
        · cases h
          left
          exact ⟨rfl, rfl⟩
        · apply ih h

/-- An allocated cluster was free. A cluster is not returned if its number exceeds the width of
the numbers, though its bit has been set. -/
theorem get_inv (h : a.get fs dm = .ok (next, fs', a', dm')) :
  next = 0 ∧ (fs' = fs ∨ fs.Marked fs')
    ∨ 2 ≤ next ∧ ∃ hp : next - 2 < fs.clusterCount,
        fs.used (next - 2) = false ∧ fs' = fs.setUsed (next - 2) hp
  := by
  have hlt := fs.count_lt
  obtain ⟨rfl, rfl⟩ | ⟨p, hp, hfree, rfl, rfl⟩ := search_inv h
  · left
    exact ⟨rfl, Or.inl rfl⟩
  · by_cases hlast : p + 2 < 2 ^ 32
    · right
      rw [Nat.mod_eq_of_lt hlast, Nat.add_sub_cancel]
      exact ⟨Nat.le_add_left 2 p, hp, hfree, rfl⟩
    · left
      constructor
      · lia
      · right
        constructor
        · rfl
        · intro q hq
          dsimp only [Exfat.setUsed]
          by_cases h : q = p
          · rw [h, Function.update_self]
          · rw [Function.update_of_ne h, hq]
        · rfl

/-- The rounds that are left of a search. As long as it has not come to the end of the bitmap it
goes through the sectors from the initial one on, and then through those before it. -/
def Left (fs : Exfat) (initial pos fuel : ℕ) : Prop :=
  initial / 4096 ≤ pos / 4096
      ∧ fs.clusterCount / 4096 + 1 + initial / 4096 ≤ fuel + pos / 4096
    ∨ pos % 4096 = 0 ∧ pos < initial ∧ initial / 4096 ≤ fuel + pos / 4096

/-- A search that has enough rounds left returns. -/
theorem search_returns (hi : initial % 4096 = 0) (hlt : initial < fs.clusterCount)
    (hpos : pos < fs.clusterCount) (hleft : Left fs initial pos fuel) :
  ∃ r, search initial fuel fs a dm pos = .ok r
  := by
  induction fuel generalizing a dm pos with
  | zero =>
      -- a round is left, as the search has not come back yet
      rcases hleft with ⟨_, _⟩ | ⟨_, _, _⟩ <;> lia
  | succ fuel ih =>
      rw [search]
      split
      · exact ⟨_, rfl⟩
      · dsimp only
        split_ifs with hfound hend hstop hstop
        · exact ⟨_, rfl⟩
        · exact ⟨_, rfl⟩
        · have hsector := scan_end (Bool.eq_false_iff.2 hfound)
          rw [show Exfat.bitPerSector = 4096 from rfl] at hsector hend
          apply ih (by lia)
          right
          rcases hleft with ⟨_, _⟩ | ⟨_, _, _⟩ <;> lia
        · exact ⟨_, rfl⟩
        · have hsector := scan_end (Bool.eq_false_iff.2 hfound)
          rw [show Exfat.bitPerSector = 4096 from rfl] at hsector hend hstop ⊢
          apply ih (by omega)
          rcases hleft with ⟨_, _⟩ | ⟨_, _, _⟩
          · left
            lia
          · right
            lia

/-- An allocation returns. -/
theorem get_returns (fs : Exfat) (a : Allocator) (dm : Dm) :
  ∃ r, a.get fs dm = .ok r
  := by
  have hlt := fs.last_lt
  have hb : Exfat.bitPerSector = 4096 := rfl
  rw [get, hb]
  apply search_returns
  · apply Nat.mul_mod_left
  · lia
  · apply hlt
  · left
    lia

end Allocator

namespace FatReader

variable {r r' : FatReader} {tail next : ℕ} {done : Bool}

/-- Appending a cluster fails without a change, or it makes the cluster the last of a chain. Then
it is appended to `tail` only if that was the last cluster of a chain. -/
theorem put_inv (h : r.put debug fs dm tail next = .ok (done, fs', r', dm')) :
  done = false ∧ fs' = fs
    ∨ fs' = fs.setEntry next 0xFFFFFFFF
    ∨ Exfat.END ≤ (fs.setEntry next 0xFFFFFFFF).fat tail
      ∧ fs' = (fs.setEntry next 0xFFFFFFFF).setEntry tail next
  := by
  rw [put, Except.bind_eq_ok_iff] at h
  obtain ⟨-, -, h⟩ := h
  split at h
  · cases h
    left
    exact ⟨rfl, rfl⟩
  · right
    dsimp only at h
    by_cases ht : tail = 0
    · rw [if_pos ht] at h
      cases h
      left
      rfl
    · rw [if_neg ht, Except.bind_eq_ok_iff] at h
      obtain ⟨-, -, h⟩ := h
      split at h
      · cases h
        left
        rfl
      · split_ifs at h with hend
        · cases h
          left
          rfl
        · cases h
          right
          exact ⟨not_lt.1 hend, rfl⟩

/-- The entry of `next` ends a chain, and `next` has been appended to `tail` if that is not
`0`. -/
structure Joined (fs fs' : Exfat) (tail next : ℕ) : Prop where
  mem_table : next / Exfat.elementPerSector < fs.fatLimit
  joined : tail = 0 ∧ fs' = fs.setEntry next 0xFFFFFFFF
    ∨ tail ≠ 0 ∧ tail / Exfat.elementPerSector < fs.fatLimit
      ∧ Exfat.END ≤ (fs.setEntry next 0xFFFFFFFF).fat tail
      ∧ fs' = (fs.setEntry next 0xFFFFFFFF).setEntry tail next

/-- Appending a cluster joins it to the tail, or it fails and at most makes the cluster the last
of a chain. -/
theorem put_joined (hr : r.Valid fs) (h : r.put debug fs dm tail next = .ok (done, fs', r', dm')) :
  r'.Valid fs' ∧ (done = true → Joined fs fs' tail next) ∧
    (done = false → fs' = fs ∨ fs' = fs.setEntry next 0xFFFFFFFF)
  := by
  rw [put, Except.bind_eq_ok_iff] at h
  obtain ⟨-, -, h⟩ := h
  split at h
  · rename_i hload
    cases h
    refine ⟨(load_inv hr hload).1, ?_, fun _ => Or.inl rfl⟩
    intro hb
    cases hb
  · rename_i r₁ dm₁ hload
    obtain ⟨hr₁, hin⟩ := load_inv hr hload
    have hr₂ : r₁.Valid (fs.setEntry next 0xFFFFFFFF) := hr₁
    dsimp only at h
    by_cases ht : tail = 0
    · rw [if_pos ht] at h
      cases h
      refine ⟨hr₂, fun _ => ⟨hin rfl, Or.inl ⟨ht, rfl⟩⟩, ?_⟩
      intro hb
      cases hb
    · rw [if_neg ht, Except.bind_eq_ok_iff] at h
      obtain ⟨-, -, h⟩ := h
      split at h
      · rename_i hload'
        cases h
        refine ⟨(load_inv hr₂ hload').1, ?_, fun _ => Or.inr rfl⟩
        intro hb
        cases hb
      · rename_i hload'
        obtain ⟨hr₃, hin'⟩ := load_inv hr₂ hload'
        split_ifs at h with hend
        · cases h
          refine ⟨hr₃, ?_, fun _ => Or.inr rfl⟩
          intro hb
          cases hb
        · cases h
          refine ⟨hr₃, fun _ => ⟨hin rfl, Or.inr ⟨ht, hin' rfl, not_lt.1 hend, rfl⟩⟩, ?_⟩
          intro hb
          cases hb

/-- A cluster cannot be appended: its entry or that of the tail cannot be obtained, or the tail is
not the last cluster of a chain. -/
inductive PutFails (debug : Bool) (fs : Exfat) (r : FatReader) (dm : Dm) (tail next : ℕ) : Prop
  | next {r' : FatReader} {dm' : Dm} : r.load fs dm next = (false, r', dm') →
      PutFails debug fs r dm tail next
  | tail {r' r'' : FatReader} {dm' dm'' : Dm} : r.load fs dm next = (true, r', dm') → tail ≠ 0 →
      (debug = true → 2 ≤ tail) →
      r'.load (fs.setEntry next 0xFFFFFFFF) dm' tail = (false, r'', dm'') →
      PutFails debug fs r dm tail next
  | last {r' r'' : FatReader} {dm' dm'' : Dm} : r.load fs dm next = (true, r', dm') → tail ≠ 0 →
      (debug = true → 2 ≤ tail) →
      r'.load (fs.setEntry next 0xFFFFFFFF) dm' tail = (true, r'', dm'') →
      (fs.setEntry next 0xFFFFFFFF).fat tail < Exfat.END →
      PutFails debug fs r dm tail next

/-- Appending a cluster fails exactly in these cases. -/
theorem put_eq_false_iff (hn : 2 ≤ next) :
  (∃ fs' r' dm', r.put debug fs dm tail next = .ok (false, fs', r', dm'))
    ↔ PutFails debug fs r dm tail next
  := by
  rw [put, Fault.assert_eq_ok (fun _ => hn), Except.ok_bind]
  constructor
  · rintro ⟨fs', r', dm', h⟩
    split at h
    · rename_i hload
      apply PutFails.next hload
    · rename_i hload
      dsimp only at h
      by_cases ht : tail = 0
      · rw [if_pos ht] at h
        cases h
      · rw [if_neg ht, Except.bind_eq_ok_iff] at h
        obtain ⟨_, hassert, h⟩ := h
        have htwo := Fault.assert_eq_ok_iff.1 hassert
        split at h
        · rename_i hload'
          apply PutFails.tail hload ht htwo hload'
        · rename_i hload'
          split_ifs at h with hend
          · apply PutFails.last hload ht htwo hload' hend
          · cases h
  · intro h
    cases h with
    | next hload =>
        rw [hload]
        exact ⟨_, _, _, rfl⟩
    | tail hload ht htwo hload' =>
        rw [hload]
        dsimp only
        rw [if_neg ht, Fault.assert_eq_ok htwo, Except.ok_bind, hload']
        exact ⟨_, _, _, rfl⟩
    | last hload ht htwo hload' hend =>
        rw [hload]
        dsimp only
        rw [if_neg ht, Fault.assert_eq_ok htwo, Except.ok_bind, hload']
        dsimp only
        rw [if_pos hend]
        exact ⟨_, _, _, rfl⟩

/-- Appending a cluster returns, unless a number is not that of a cluster. -/
theorem put_returns (hn : 2 ≤ next) (ht : debug = true → tail ≠ 0 → 2 ≤ tail) (fs : Exfat)
    (r : FatReader) (dm : Dm) :
  ∃ res, r.put debug fs dm tail next = .ok res
  := by
  rw [put, Fault.assert_eq_ok (fun _ => hn), Except.ok_bind]
  split
  · exact ⟨_, rfl⟩
  · dsimp only
    by_cases h₀ : tail = 0
    · rw [if_pos h₀]
      exact ⟨_, rfl⟩
    · rw [if_neg h₀, Fault.assert_eq_ok (fun hd => ht hd h₀), Except.ok_bind]
      split
      · exact ⟨_, rfl⟩
      · split_ifs
        · exact ⟨_, rfl⟩
        · exact ⟨_, rfl⟩

end FatReader

/-- Allocating a cluster and appending it is a step, whatever it is appended to. -/
theorem Exfat.step_of_put {a a' : Allocator} {r r' : FatReader} {dm₁ : Dm} {fs₁ : Exfat}
    {tail next : ℕ} {done : Bool} (hget : a.get fs dm = .ok (next, fs₁, a', dm₁)) (h₀ : next ≠ 0)
    (hput : r.put debug fs₁ dm₁ tail next = .ok (done, fs', r', dm')) :
  fs.Marked fs' ∧ done = false ∨ fs.Appended fs' next
  := by
  obtain ⟨h, -⟩ | ⟨hn, hp, hfree, rfl⟩ := Allocator.get_inv hget
  · apply absurd h h₀
  obtain ⟨hdone, rfl⟩ | rfl | ⟨hend, rfl⟩ := FatReader.put_inv hput
  · left
    refine ⟨⟨rfl, ?_, rfl⟩, hdone⟩
    intro pos hpos
    dsimp only [setUsed]
    by_cases h : pos = next - 2
    · rw [h, Function.update_self]
    · rw [Function.update_of_ne h, hpos]
  · right
    refine ⟨hn, hp, hfree, rfl, rfl, ?_, ?_⟩
    · intro c hc
      left
      apply Function.update_of_ne hc
    · left
      dsimp only [setEntry, setUsed]
      rw [Function.update_self, END]
      decide
  · right
    refine ⟨hn, hp, hfree, rfl, rfl, ?_, ?_⟩
    · intro c hc
      dsimp only [setEntry, setUsed] at hend ⊢
      by_cases h : c = tail
      · right
        rw [h, Function.update_self]
        rw [← h, Function.update_of_ne hc] at hend
        exact ⟨h ▸ hend, rfl⟩
      · left
        rw [Function.update_of_ne h, Function.update_of_ne hc]
    · dsimp only [setEntry, setUsed]
      by_cases h : next = tail
      · right
        rw [h, Function.update_self]
      · left
        rw [Function.update_of_ne h, Function.update_self, END]
        decide

end UOS
