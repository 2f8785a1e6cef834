import Mathlib.Data.UInt
import Cofuos.Disk.Pages
import Cofuos.FileSystem.Enumeration
import Cofuos.FileSystem.FileSectors

/-!
# Updating the records of a file

`update_size` and `update_chain` of `kernel/filesystem/instance.cpp` read the records of a file, change
a field of the second one, and have `reader::update` store the first two with a new checksum. The
records may be in different sectors. Whether they are is decided by a comparison that holds for every
record of a sector, and so both records are always copied to the memory behind the first byte of the
first one.

Behind a sector in memory there is the next one of its page. Behind the last sector of a page there is
the page of the next slot, whatever it is used for, and behind that of the last slot there is memory of
another kind.
-/

namespace UOS

open Exfat (SECTOR_SIZE)

open FileData (SizeFits)

open Disk (Pages)

namespace FolderRecord

/-! ### The fields of a record -/

/-- A number is stored in so many bytes from an offset on, its lowest byte first. -/
def store (r : FolderRecord) (off n v : ℕ) : FolderRecord := fun i =>
  if off ≤ i.val ∧ i.val < off + n then UInt8.ofNat (v / 0x100 ^ (i.val - off)) else r i

/-- The number in so many bytes from an offset on. -/
def number (r : FolderRecord) (off : ℕ) : ℕ → ℕ
  | 0 => 0
  | n + 1 => (r (Fin.ofNat 0x20 off)).toNat + 0x100 * number r (off + 1) n

/-- `valid_size`, in the second record -/
def validSize (r : FolderRecord) : ℕ := r.number 8 8

/-- `first_cluster`, in the second record -/
def firstCluster (r : FolderRecord) : ℕ := r.number 0x14 4

/-- `alloc_size`, in the second record -/
def allocSize (r : FolderRecord) : ℕ := r.number 0x18 8

/-- The sizes and the first cluster of a file, in the second record. -/
def extent (r : FolderRecord) : ℕ × ℕ × ℕ := (r.validSize, r.allocSize, r.firstCluster)

variable {r r' : FolderRecord} {l l' : List FolderRecord} {off n v : ℕ}

theorem store_of_not_mem {i : Fin 0x20} (h : ¬ (off ≤ i.val ∧ i.val < off + n)) :
  r.store off n v i = r i
  := if_neg h

theorem number_congr (h : ∀ k < n, r (Fin.ofNat 0x20 (off + k)) = r' (Fin.ofNat 0x20 (off + k))) :
  r.number off n = r'.number off n
  := by
  induction n generalizing off with
  | zero => rfl
  | succ n ih =>
      have hfirst := h 0 n.succ_pos
      rw [Nat.add_zero] at hfirst
      rw [number, number, hfirst, ih]
      intro k hk
      have hnext := h (k + 1) (Nat.succ_lt_succ hk)
      rwa [show off + (k + 1) = off + 1 + k by omega] at hnext

/-- What is in a number of bytes. -/
theorem number_eq (h : ∀ k < n, r (Fin.ofNat 0x20 (off + k)) = UInt8.ofNat (v / 0x100 ^ k)) :
  r.number off n = v % 0x100 ^ n
  := by
  induction n generalizing off v with
  | zero => rw [number, Nat.pow_zero, Nat.mod_one]
  | succ n ih =>
      have hfirst := h 0 n.succ_pos
      rw [Nat.add_zero, Nat.pow_zero, Nat.div_one] at hfirst
      have hrest : r.number (off + 1) n = v / 0x100 % 0x100 ^ n := by
        apply ih
        intro k hk
        have hnext := h (k + 1) (Nat.succ_lt_succ hk)
        rwa [show off + (k + 1) = off + 1 + k by omega, Nat.pow_succ', ← Nat.div_div_eq_div_mul]
          at hnext
      have hsplit : v % 0x100 ^ (n + 1) = v % 0x100 + 0x100 * (v / 0x100 % 0x100 ^ n) := by
        rw [Nat.pow_succ', Nat.mod_mul]
      rw [number, hfirst, UInt8.toNat_ofNat', hrest, hsplit]

/-- A number that is stored is read back. -/
theorem number_store (hroom : off + n ≤ 0x20) (hv : v < 0x100 ^ n) :
  (r.store off n v).number off n = v
  := by
  rw [number_eq (v := v), Nat.mod_eq_of_lt hv]
  intro k hk
  have hval : (Fin.ofNat 0x20 (off + k)).val = off + k := Nat.mod_eq_of_lt (by omega)
  rw [store, hval, if_pos ⟨by lia, by lia⟩, Nat.add_sub_cancel_left]

/-- A number elsewhere is not changed. -/
theorem number_store_of_disjoint {off' m : ℕ} (hroom : off + n ≤ 0x20)
    (h : off + n ≤ off' ∨ off' + m ≤ off) :
  (r.store off' m v).number off n = r.number off n
  := by
  apply number_congr
  intro k hk
  have hval : (Fin.ofNat 0x20 (off + k)).val = off + k := Nat.mod_eq_of_lt (by omega)
  apply store_of_not_mem
  rw [hval]
  lia

/-! ### The checksum -/

/-- The checksum does not depend on the bytes in which it is stored. -/
theorem checksum_congr {ptr ptr' : ℕ → UInt8} {limit : ℕ}
    (h : ∀ i < limit, i ≠ 2 → i ≠ 3 → ptr i = ptr' i) :
  checksum ptr limit = checksum ptr' limit
  := by
  rw [checksum, checksum]
  apply List.foldl_ext
  intro sum i hi
  rw [List.mem_range] at hi
  by_cases hskip : i = 2 ∨ i = 3
  · rw [if_pos hskip, if_pos hskip]
  · rw [not_or] at hskip
    rw [if_neg (not_or.2 hskip), if_neg (not_or.2 hskip), h i hi hskip.1 hskip.2]

theorem checksum_lt (ptr : ℕ → UInt8) (limit : ℕ) : checksum ptr limit < 2 ^ 16 := by
  rw [checksum]
  induction limit with
  | zero => exact Nat.two_pow_pos 16
  | succ limit ih =>
      rw [List.range_succ, List.foldl_append, List.foldl_cons, List.foldl_nil]
      split_ifs
      · apply ih
      · apply Nat.mod_lt _ (Nat.two_pow_pos 16)

/-- The records with a new checksum in the first one. -/
def withChecksum (l : List FolderRecord) : List FolderRecord :=
  l.modify 0 fun r => r.store 2 2 (checksum (bytes l) (0x20 * l.length))

theorem withChecksum_cons (r : FolderRecord) (l : List FolderRecord) :
  withChecksum (r :: l) = r.store 2 2 (checksum (bytes (r :: l)) (0x20 * (l.length + 1))) :: l
  := rfl

/-- The bytes of the first record and of the others. -/
theorem bytes_cons (i : ℕ) :
  bytes (r :: l) i = if i < 0x20 then r (Fin.ofNat 0x20 i) else bytes l (i - 0x20)
  := by
  rw [bytes, bytes]
  split_ifs with hi
  · rw [Nat.div_eq_of_lt hi]
    rfl
  · obtain ⟨k, rfl⟩ : ∃ k, i = 0x20 + k := ⟨i - 0x20, by lia⟩
    have hsame : Fin.ofNat 0x20 (0x20 + k) = Fin.ofNat 0x20 k := Fin.ext (Nat.add_mod_left 0x20 k)
    rw [Nat.add_div_left k (by decide), Nat.add_sub_cancel_left, hsame]
    rfl

theorem bytes_head (r : FolderRecord) (l : List FolderRecord) (x : Fin 0x20) :
  bytes (r :: l) x = r x
  := by
  have hval : Fin.ofNat 0x20 x.val = x := Fin.ext (Nat.mod_eq_of_lt x.isLt)
  rw [bytes_cons, if_pos x.isLt, hval]

theorem bytes_tail (r : FolderRecord) (l : List FolderRecord) (i : ℕ) :
  bytes (r :: l) (0x20 + i) = bytes l i
  := by rw [bytes_cons, if_neg (by omega), Nat.add_sub_cancel_left]

/-- The new checksum is right. -/
theorem sumRight_withChecksum (r : FolderRecord) (l : List FolderRecord) :
  SumRight (withChecksum (r :: l))
  := by
  obtain ⟨sum, hsum⟩ : ∃ sum, sum = checksum (bytes (r :: l)) (0x20 * (l.length + 1)) := ⟨_, rfl⟩
  have hlt : sum < 2 ^ 16 := hsum ▸ checksum_lt _ _
  rw [withChecksum_cons, ← hsum, SumRight, List.length_cons, List.headD_cons]
  have hsame : checksum (bytes (r.store 2 2 sum :: l)) (0x20 * (l.length + 1)) = sum := by
    rw [hsum]
    apply checksum_congr
    intro i _ h₂ h₃
    rw [bytes_cons, bytes_cons]
    split_ifs with hi
    · have hval : (Fin.ofNat 0x20 i).val = i := Nat.mod_eq_of_lt hi
      apply store_of_not_mem
      rw [hval]
      lia
    · rfl
  rw [hsame, word]
  have hlow : r.store 2 2 sum 2 = UInt8.ofNat sum := by
    rw [store, if_pos (by decide)]
    change UInt8.ofNat (sum / 0x100 ^ 0) = _
    rw [Nat.pow_zero, Nat.div_one]
  have hhigh : r.store 2 2 sum (2 + 1) = UInt8.ofNat (sum / 0x100) := by
    rw [store, if_pos (by decide)]
    change UInt8.ofNat (sum / 0x100 ^ 1) = _
    rw [Nat.pow_one]
  rw [hlow, hhigh, UInt8.toNat_ofNat', UInt8.toNat_ofNat']
  lia

end FolderRecord

namespace FileData

variable {debug : Bool} {updateChain : ℕ → Dm → Bool × Dm} {fs fs' : Exfat} {f : FileData}
  {c' : ClusterChain} {dm dm' : Dm} {offset k n lba cluster : ℕ}

/-- Whether or not the accesses to the disk succeed, what is looked up for a byte of a file is its
cluster, or `0`. -/
theorem Consistent.get_inv (h : Consistent debug fs f) (hk : f.clusterAt fs k ≠ 0)
    (hget : f.clusters.get debug fs dm (k % 2 ^ 32) = .ok (cluster, c', dm')) :
  (cluster = 0 ∨ cluster = f.clusterAt fs k) ∧ Consistent debug fs { f with clusters := c' } ∧
    ∀ j, ({ f with clusters := c' } : FileData).clusterAt fs j = f.clusterAt fs j
  := by
  cases hl : f.clusters.linear with
  | true =>
      rw [clusterAt_linear hl] at hk ⊢
      split_ifs at hk ⊢ with hin
      · have hrow := h.row hl hin.1
        have hcount := h.count
        rw [ClusterChain.get, if_neg hin.1, if_pos hl, Nat.add_mod_mod, Nat.mod_eq_of_lt (by omega)]
          at hget
        cases hget
        exact ⟨Or.inr rfl, h, fun _ => rfl⟩
      · apply absurd rfl hk
  | false =>
      have hlt : k < 2 ^ 32 := by
        by_contra hge
        apply hk
        apply h.clusterAt_eq_zero hl (not_lt.1 hge)
      rw [Nat.mod_eq_of_lt hlt] at hget
      obtain ⟨hcluster, hc, -, hsame⟩ := h.looked hl hget
      refine ⟨?_, hc, hsame⟩
      rcases hcluster with ⟨hzero, -⟩ | ⟨-, heq⟩
      · exact Or.inl hzero
      · exact Or.inr heq

/-- Whether or not the accesses to the disk succeed, a sector that is found for a byte of a file is the
right one. -/
theorem Consistent.getLba_inv (h : Consistent debug fs f)
    (hk : f.clusterAt fs (offset / fs.clusterSize) ≠ 0)
    (hlba : getLba debug updateChain false offset (n + 1) fs f.clusters dm
      = .ok (lba, fs', c', dm')) :
  (lba = 0 ∨ lba = f.sectorAt fs offset) ∧ Consistent debug fs { f with clusters := c' } ∧
    ∀ j, ({ f with clusters := c' } : FileData).clusterAt fs j = f.clusterAt fs j
  := by
  rw [getLba, Except.bind_eq_ok_iff] at hlba
  obtain ⟨⟨cluster, c₁, dm₁⟩, hget, hlba⟩ := hlba
  obtain ⟨hcluster, hfile⟩ := h.get_inv hk hget
  dsimp only at hlba
  by_cases hc : cluster ≠ 0
  · rw [if_pos hc, Except.bind_eq_ok_iff] at hlba
    obtain ⟨base, hbase, hlba⟩ := hlba
    by_cases hb : base ≠ 0
    · rw [if_pos hb] at hlba
      cases hlba
      rw [sectorAt, ← hcluster.resolve_left hc, (lbaOfCluster_inv hbase hb).2]
      exact ⟨Or.inr rfl, hfile⟩
    · rw [if_neg hb] at hlba
      cases hlba
      exact ⟨Or.inl rfl, hfile⟩
  · rw [if_neg hc, if_neg (by decide)] at hlba
    cases hlba
    exact ⟨Or.inl rfl, hfile⟩

end FileData

/-! ### Copies to the memory of the cache -/

/-- The memory with the pages of the cache. -/
structure SlotMemory where
  pages : Pages Boot.Bytes
  /-- A copy has gone to memory in which there is no page of the disk. -/
  stray : Bool := false

namespace SlotMemory

/-- The sector in memory behind a sector. The page in the slot behind that of a page is given. -/
def following (behind : ℕ → Option ℕ) (lba : ℕ) : Option ℕ :=
  if lba % 8 = 7 then behind (Disk.pageLba lba) else some (lba + 1)

/-- So many bytes of a sector are changed. -/
def put (m : SlotMemory) (lba off n : ℕ) (src : Boot.Bytes) : SlotMemory :=
  { m with
    pages := { m.pages with
      access := fun l i =>
        if l = lba ∧ off ≤ i ∧ i < off + n then src (i - off) else m.pages.access l i } }

/-- So many bytes are copied to an offset of a sector. Those for which there is no room go to the
memory behind the sector. -/
def copy (behind : ℕ → Option ℕ) (m : SlotMemory) (lba off n : ℕ) (src : Boot.Bytes) :
    SlotMemory :=
  let m := m.put lba off (min n (SECTOR_SIZE - off)) src
  if off + n ≤ SECTOR_SIZE then m
  else
    match following behind lba with
    | some next => m.put next 0 (off + n - SECTOR_SIZE) fun i => src (SECTOR_SIZE - off + i)
    | none => { m with stray := true }

/-- The page of a sector is obtained, and the sector is marked dirty. -/
def prepare (m : SlotMemory) (lba : ℕ) : SlotMemory :=
  { m with pages := (m.pages.get lba 1 false).upgrade lba 1 }

variable {behind : ℕ → Option ℕ} {m : SlotMemory} {lba l off n i : ℕ} {src : Boot.Bytes}

/-- Obtaining a page does not change what is found. -/
theorem view_prepare (h : m.pages.Clean) (lba : ℕ) : (m.prepare lba).pages.view = m.pages.view := by
  change (m.pages.load lba).view = m.pages.view
  rw [(h.load lba).view_eq, Pages.settled_load, h.view_eq]

theorem valid_prepare (m : SlotMemory) (lba : ℕ) : (m.prepare lba).pages.valid lba = true :=
  Pages.valid_load rfl

theorem dirty_prepare (m : SlotMemory) (lba : ℕ) : (m.prepare lba).pages.dirty lba = true := by
  change ((m.pages.load lba).dirty lba || decide (lba ≤ lba ∧ lba < lba + 1)) = true
  rw [Bool.or_eq_true, decide_eq_true_eq]
  exact Or.inr ⟨le_rfl, Nat.lt_succ_self lba⟩

/-- No other sector becomes dirty. -/
theorem dirty_prepare_of_ne (hne : l ≠ lba) (h : m.pages.dirty l = false) :
  (m.prepare lba).pages.dirty l = false
  := by
  change ((m.pages.load lba).dirty l || decide (lba ≤ l ∧ l < lba + 1)) = false
  rw [Bool.or_eq_false_iff, decide_eq_false_iff_not]
  refine ⟨?_, by omega⟩
  rw [Pages.load]
  split_ifs
  · exact h
  · simp [Pages.reload, Pages.flush, h]

/-- Nothing is found elsewhere that was not there. -/
theorem view_put_of_ne (hne : l ≠ lba) : (m.put lba off n src).pages.view l = m.pages.view l := by
  funext i
  change (if m.pages.valid l = true then fun i =>
      if l = lba ∧ off ≤ i ∧ i < off + n then src (i - off) else m.pages.access l i
    else m.pages.disk l) i = _
  rw [Pages.view]
  split_ifs
  · apply if_neg
    rintro ⟨heq, -⟩
    apply hne heq
  · rfl

/-- What is found after bytes of a valid sector have been changed. -/
theorem view_put (hvalid : m.pages.valid lba = true) :
  (m.put lba off n src).pages.view l i
    = if l = lba ∧ off ≤ i ∧ i < off + n then src (i - off) else m.pages.view l i
  := by
  by_cases hl : l = lba
  · rw [hl, Pages.view, Pages.view, if_pos hvalid, if_pos (by exact hvalid)]
    rfl
  · rw [if_neg fun hin => hl hin.1, view_put_of_ne hl]

/-- Bytes for which there is room stay in the sector. -/
theorem copy_inside (hroom : off + n ≤ SECTOR_SIZE) :
  m.copy behind lba off n src = m.put lba off n src
  := by
  rw [copy, if_pos hroom, min_eq_left (by lia)]

/-- A copy marks no sector. -/
theorem dirty_copy (behind : ℕ → Option ℕ) (m : SlotMemory) (lba off n : ℕ) (src : Boot.Bytes) :
  (m.copy behind lba off n src).pages.dirty = m.pages.dirty
  := by
  rw [copy]
  split_ifs
  · rfl
  · cases following behind lba with
    | none => rfl
    | some next => rfl

end SlotMemory

/-! ### The update -/

/-- What `update_size` and `update_chain` change in the second record of a file. -/
inductive RecordChange where
  | size (validSize allocSize : UInt64)
  | chain (firstCluster : UInt32)

namespace RecordChange

/-- The fields that are changed. -/
def store : RecordChange → FolderRecord → FolderRecord
  | size validSize allocSize, r => (r.store 8 8 validSize.toNat).store 0x18 8 allocSize.toNat
  | chain firstCluster, r => r.store 0x14 4 firstCluster.toNat

/-- What the sizes and the first cluster of a file become. -/
def apply : RecordChange → ℕ × ℕ × ℕ → ℕ × ℕ × ℕ
  | size validSize allocSize, (_, _, first) => (validSize.toNat, allocSize.toNat, first)
  | chain firstCluster, (valid, alloc, _) => (valid, alloc, firstCluster.toNat)

variable {change : RecordChange} {r : FolderRecord} {i : Fin 0x20}

/-- The fields that are stored are read back, and the others are as before. -/
theorem extent_store : (change.store r).extent = change.apply r.extent := by
  cases change with
  | size validSize allocSize =>
      rw [FolderRecord.extent, FolderRecord.extent, store, apply, FolderRecord.validSize,
        FolderRecord.number_store_of_disjoint (by decide) (by decide),
        FolderRecord.number_store (by decide) validSize.toNat_lt, FolderRecord.allocSize,
        FolderRecord.number_store (by decide) allocSize.toNat_lt, FolderRecord.firstCluster,
        FolderRecord.number_store_of_disjoint (by decide) (by decide),
        FolderRecord.number_store_of_disjoint (by decide) (by decide), FolderRecord.firstCluster]
  | chain firstCluster =>
      rw [FolderRecord.extent, FolderRecord.extent, store, apply, FolderRecord.validSize,
        FolderRecord.number_store_of_disjoint (by decide) (by decide), FolderRecord.validSize,
        FolderRecord.allocSize, FolderRecord.number_store_of_disjoint (by decide) (by decide),
        FolderRecord.allocSize, FolderRecord.firstCluster,
        FolderRecord.number_store (by decide) firstCluster.toNat_lt]

/-- The first byte of the valid size. -/
theorem store_size (v a : UInt64) (r : FolderRecord) :
  (size v a).store r 8 = UInt8.ofNat v.toNat
  := by
  rw [store, FolderRecord.store_of_not_mem (by decide), FolderRecord.store, if_pos (by decide)]
  change UInt8.ofNat (v.toNat / 0x100 ^ 0) = _
  rw [Nat.pow_zero, Nat.div_one]

/-- Some change of a record changes it. -/
theorem exists_store_ne (r : FolderRecord) : ∃ change : RecordChange, change.store r 8 ≠ r 8 := by
  by_cases hzero : r 8 = 0
  · use size 1 0
    rw [hzero, store_size]
    decide
  · use size 0 0
    intro heq
    apply hzero
    rw [← heq, store_size]
    rfl

/-- The bytes before the sizes are as before. -/
theorem store_head (hi : i.val < 8) : change.store r i = r i := by
  cases change with
  | size validSize allocSize =>
      rw [store, FolderRecord.store_of_not_mem (by omega), FolderRecord.store_of_not_mem (by omega)]
  | chain firstCluster => rw [store, FolderRecord.store_of_not_mem (by omega)]

end RecordChange

namespace FolderReader

open FolderRecord (slice listBefore found Run SumRight)

/-- `reader::update`. What the cache does to the pages when an access to the disk fails is left out. -/
def update (debug : Bool) (fs : Exfat) (behind : ℕ → Option ℕ) (validSize base : ℕ) (name : Bool)
    (p : FolderReader) (m : SlotMemory) : Except Fault (Bool × FolderReader × SlotMemory) :=
  let count := (p.list.headD fun _ => 0).count
  let limit := validSize / RECORD_SIZE % 2 ^ 32
  if p.list.length < 2 ∨ count + 1 ≠ p.list.length then
    return (false, p, m)
  else if (base + count + 1) % 2 ^ 32 ≠ p.index ∨ limit < p.index then
    return (false, p, m)
  else if name = true then
    return (false, p, m)
  else do
    let p := { p with list := FolderRecord.withChecksum p.list }
    let src := FolderRecord.bytes p.list
    let offset := base * RECORD_SIZE % 2 ^ 32
    let (lba, _, clusters, dm) ←
      FileData.getLba debug (fun _ dm => (true, dm)) false offset 1 fs p.clusters p.dm
    let p := { p with clusters := clusters, dm := dm }
    if lba = 0 then
      return (false, p, m)
    else
      match p.dm.get lba with
      | (none, dm) => return (false, { p with dm := dm }, m)
      | (some page, dm) =>
        let p := { p with dm := dm.relax page }
        let off := offset % SECTOR_SIZE
        if off ≤ SECTOR_SIZE - RECORD_SIZE then
          return (true, p, (m.prepare lba).copy behind lba off (2 * RECORD_SIZE) src)
        else do
          -- no record begins there
          let m := (m.prepare lba).copy behind lba off RECORD_SIZE src
          let offset := (offset + RECORD_SIZE) % 2 ^ 32
          let (lba, _, clusters, dm) ←
            FileData.getLba debug (fun _ dm => (true, dm)) false offset 1 fs p.clusters p.dm
          let p := { p with clusters := clusters, dm := dm }
          if lba = 0 then
            return (false, p, m)
          else
            match p.dm.get lba with
            | (none, dm) => return (false, { p with dm := dm }, m)
            | (some page, dm) =>
              let src := fun i => src (RECORD_SIZE + i)
              return (true, { p with dm := dm.relax page },
                (m.prepare lba).copy behind lba (offset % SECTOR_SIZE) RECORD_SIZE src)

/-- `update_size` and `update_chain`, for the index of the instance. The contents of the sectors are
those that the step finds, and the memory is that in which the records are stored. -/
def updateRecord (debug : Bool) (fs : Exfat) (behind : ℕ → Option ℕ) (content : ℕ → Boot.Bytes)
    (validSize index : ℕ) (change : RecordChange) (clusters : ClusterChain) (dm : Dm)
    (m : SlotMemory) : Except Fault (Bool × FolderReader × SlotMemory) := do
  let (stat, p) ←
    step debug fs content validSize ALLOW_ALL 0 { index := index, clusters := clusters, dm := dm }
  if stat ≠ .found then
    return (false, p, m)
  else
    Fault.assert debug (2 ≤ p.list.length)
    if (index + (p.list.headD fun _ => 0).count + 1) % 2 ^ 32 ≠ p.index then
      return (false, p, m)
    else
      update debug fs behind validSize index false
        { p with list := p.list.modify 1 change.store } m

/-- The records that are stored for a file. -/
def changed (change : RecordChange) (rec : ℕ → FolderRecord) (base : ℕ) : List FolderRecord :=
  FolderRecord.withChecksum ((slice rec base 3).modify 1 change.store)

/-- The records of the file at an index have been changed to those of a list, for the cache as it was
before: they have replaced the old ones, nothing else has changed, what has changed is marked, and
they are found again, with the new sizes and the new cluster. -/
structure Hits (debug : Bool) (fs : Exfat) (f : FileData) (content : ℕ → Boot.Bytes)
    (validSize base : ℕ) (change : RecordChange) (pages : Pages Boot.Bytes) (list : List FolderRecord)
    (m : SlotMemory) : Prop where
  stored : ∀ x < 2 * RECORD_SIZE,
    m.pages.view (f.sectorAt fs (RECORD_SIZE * base + x)) ((RECORD_SIZE * base + x) % SECTOR_SIZE)
      = FolderRecord.bytes list x
  kept : ∀ l i, (∀ x < 2 * RECORD_SIZE, l = f.sectorAt fs (RECORD_SIZE * base + x) →
    i ≠ (RECORD_SIZE * base + x) % SECTOR_SIZE) → m.pages.view l i = pages.view l i
  inside : m.stray = false
  dirty : ∀ l, m.pages.view l ≠ pages.view l → m.pages.dirty l = true
  sum : SumRight list
  extent : (list.getD 1 fun _ => 0).extent = change.apply (recordAt fs f content (base + 1)).extent
  found : ∀ mode hash p p', Sane debug fs f p → p.index ≤ base →
    p.list = listBefore mode hash (recordAt fs f content) p.index →
    step debug fs content validSize mode hash p = .ok (.found, p') → p'.index = base + 3 →
    ∃ p'', step debug fs m.pages.view validSize mode hash p = .ok (.found, p'') ∧
      p''.index = base + 3 ∧ p''.list = list

/-- Whenever the records of the file at an index are updated, and this is reported to have succeeded,
they have been. -/
def UpdatesRight (debug : Bool) (fs : Exfat) (f : FileData) (behind : ℕ → Option ℕ)
    (content : ℕ → Boot.Bytes) (validSize base : ℕ) : Prop :=
  ∀ pages dm change p m, pages.Clean → (∀ j l, f.sectors fs j = some l → pages.view l = content l) →
    updateRecord debug fs behind content validSize base change f.clusters dm { pages := pages }
      = .ok (true, p, m) →
    Hits debug fs f content validSize base change pages p.list m

variable {debug : Bool} {fs : Exfat} {f : FileData} {behind : ℕ → Option ℕ}
  {content : ℕ → Boot.Bytes} {mode : UInt8} {hash validSize limit i j n base k : ℕ}
  {rec rec' : ℕ → FolderRecord} {l : List FolderRecord} {p p' : FolderReader}
  {block block' : Option ℕ} {dm dm' : Dm} {change : RecordChange} {pages : Pages Boot.Bytes}
  {m m' : SlotMemory}

/-! ### A step that has found a file -/

/-- What is known of a reader of a folder, whichever accesses succeed. -/
structure Tracks (debug : Bool) (fs : Exfat) (f : FileData) (p : FolderReader) : Prop where
  file : FileData.Consistent debug fs { f with clusters := p.clusters }
  same : ∀ k, ({ f with clusters := p.clusters } : FileData).clusterAt fs k = f.clusterAt fs k

theorem Tracks.sectorAt_eq (h : Tracks debug fs f p) (offset : ℕ) :
  ({ f with clusters := p.clusters } : FileData).sectorAt fs offset = f.sectorAt fs offset
  := by
  rw [FileData.sectorAt, h.same, FileData.sectorAt]

/-- The sector of a byte of a folder is looked up. -/
theorem Tracks.getLba_inv (h : Tracks debug fs f p) {offset lba : ℕ} {fs' : Exfat}
    {c' : ClusterChain} (hk : f.clusterAt fs (offset / fs.clusterSize) ≠ 0)
    (hlba : FileData.getLba debug (fun _ dm => (true, dm)) false offset 1 fs p.clusters dm
      = .ok (lba, fs', c', dm')) :
  (lba = 0 ∨ lba = f.sectorAt fs offset) ∧
    ∀ l i dm, Tracks debug fs f { list := l, index := i, clusters := c', dm := dm }
  := by
  rw [← h.same] at hk
  obtain ⟨heq, hfile, hsame⟩ := h.file.getLba_inv hk hlba
  rw [h.sectorAt_eq] at heq
  refine ⟨heq, fun l i dm => ⟨hfile, ?_⟩⟩
  intro k
  rw [← h.same k]
  apply hsame k

/-- A loop that finds a file has gone through the sequence of the records. -/
theorem stepLoop_found (h : Tracks debug fs f p) (hfits : SizeFits fs)
    (hcovers : f.Covers fs (limit * RECORD_SIZE)) (hlimit : limit ≤ 2 ^ 27)
    (hloop : stepLoop debug fs content limit mode hash n p block = .ok (.found, p', block')) :
  next mode hash (recordAt fs f content) limit p.index p.list = (some .found, p'.index, p'.list) ∧
    Tracks debug fs f p'
  := by
  induction n generalizing p block with
  | zero => cases hloop
  | succ n ih =>
      rw [stepLoop] at hloop
      by_cases hi : p.index < limit
      · have hsize : RECORD_SIZE = 0x20 := rfl
        have hper : RECORD_PER_SECTOR = 16 := rfl
        have hmod := Nat.mod_lt p.index (show 0 < RECORD_PER_SECTOR by decide)
        have hoffset : p.index * RECORD_SIZE % 2 ^ 32 = p.index * RECORD_SIZE := by
          apply Nat.mod_eq_of_lt
          rw [hsize]
          lia
        have hk : f.clusterAt fs (p.index * RECORD_SIZE / fs.clusterSize) ≠ 0 := by
          apply hcovers
          rw [hsize]
          lia
        rw [if_pos hi, hoffset, Except.bind_eq_ok_iff] at hloop
        obtain ⟨⟨lba, fs', c', dm'⟩, hlba, hloop⟩ := hloop
        obtain ⟨heq, htracks⟩ := h.getLba_inv hk hlba
        dsimp only at hloop
        by_cases hz : lba = 0
        · rw [if_pos hz] at hloop
          cases hloop
        obtain rfl := heq.resolve_left hz
        rw [if_neg hz, Except.bind_eq_ok_iff] at hloop
        obtain ⟨_, -, hloop⟩ := hloop
        split at hloop
        · cases hloop
        · rename_i page dm₁ hget
          have hround := scan_eq (n := RECORD_PER_SECTOR - p.index % RECORD_PER_SECTOR) mode hash
            content f p.list hfits (Eq.refl (p.index / RECORD_PER_SECTOR)) (by lia) (by lia)
          rw [hround] at hloop
          rw [next_sector hi]
          generalize hadvance : advance mode hash (recordAt fs f content)
              (RECORD_PER_SECTOR - p.index % RECORD_PER_SECTOR) p.index p.list = result
            at hloop ⊢
          obtain ⟨stat, index, list⟩ := result
          cases stat with
          | some stat =>
              cases hloop
              rw [if_neg (Option.some_ne_none _)]
              exact ⟨rfl, htracks _ _ _⟩
          | none =>
              rw [if_pos rfl]
              apply ih (htracks list index dm₁) hloop
      · rw [if_neg hi] at hloop
        cases hloop

/-- A step that finds a file has gone through the sequence of the records. -/
theorem step_found (h : Tracks debug fs f p) (hfits : SizeFits fs) (hcovers : f.Covers fs validSize)
    (hsize : validSize < 2 ^ 32)
    (hstep : step debug fs content validSize mode hash p = .ok (.found, p')) :
  next mode hash (recordAt fs f content) (validSize / RECORD_SIZE) p.index p.list
      = (some .found, p'.index, p'.list) ∧
    Tracks debug fs f p'
  := by
  have hlimit : validSize / RECORD_SIZE < 2 ^ 27 := Nat.div_lt_of_lt_mul hsize
  have hcovers' : f.Covers fs (validSize / RECORD_SIZE * RECORD_SIZE) := by
    intro offset hlt
    apply hcovers
    apply hlt.trans_le (Nat.div_mul_le_self _ _)
  rw [step, Nat.mod_eq_of_lt (by omega), Except.bind_eq_ok_iff] at hstep
  obtain ⟨⟨stat, p₁, block⟩, hloop, hstep⟩ := hstep
  cases hstep
  obtain ⟨hnext, htracks⟩ := stepLoop_found h hfits hcovers' hlimit.le hloop
  exact ⟨hnext, htracks.file, htracks.same⟩

/-! ### Finding the records -/

theorem listBefore_congr (h : ∀ t < i, rec t = rec' t) :
  listBefore mode hash rec i = listBefore mode hash rec' i
  := by
  induction i with
  | zero => rfl
  | succ i ih =>
      rw [listBefore, listBefore, ih fun t ht => h t (Nat.lt_succ_of_lt ht), h i i.lt_succ_self]

theorem found_congr (h : ∀ t ≤ i, rec t = rec' t) :
  found mode hash rec i = found mode hash rec' i
  := by
  rw [found, found, listBefore_congr fun t ht => h t ht.le, h i le_rfl]

/-- A reader that begins at the first record of a file need not know the records before it. -/
theorem next_start (hi : i < limit) (h : rec i 0 = 0x85) :
  next mode hash rec limit i [] = next mode hash rec limit i (listBefore mode hash rec i)
  := by
  have hparse : ∀ l, (rec i).parse mode hash l = (rec i).parse mode hash [] := by
    intro l
    simp only [FolderRecord.parse, if_pos h]
  obtain ⟨n, hn⟩ : ∃ n, sectorEnd limit - i = n + 1 := by
    have hge : limit ≤ sectorEnd limit := sectorEnd_ge
    exact ⟨sectorEnd limit - i - 1, by lia⟩
  rw [next, next, if_pos hi, if_pos hi, hn, advance, advance, hparse (listBefore mode hash rec i)]
  have hne : rec i 0 ≠ 0 := by
    rw [h]
    decide
  rw [if_neg hne, if_neg hne]

/-- What a step has found is the first run that has reached the number of records in its first one. -/
theorem next_inv
    (h : next mode hash rec limit i (listBefore mode hash rec i) = (some .found, k, l)) :
  i < limit ∧ Quiet mode hash rec i (k - 1) ∧ ∃ j n, Run mode hash rec j n ∧ 3 ≤ n ∧
    (rec j).count ≤ n ∧ i < k ∧ k = j + n ∧ l = slice rec j n
  := by
  rw [next] at h
  split_ifs at h with hi
  · rcases advance_cases mode hash rec (sectorEnd limit - i) i with
      ⟨t, hle, hlt, hquiet, -, hfound, hadvance⟩ | ⟨t, -, -, -, -, hadvance⟩ | ⟨-, hadvance⟩
    · rw [hadvance] at h
      cases h
      obtain ⟨j, n, heq, hrun, hthree, hcount⟩ := FolderRecord.found_iff.1 hfound
      refine ⟨hi, hquiet, j, n, hrun, hthree, hcount, by lia, heq.symm, ?_⟩
      rw [← heq, FolderRecord.listBefore_of_run hrun]
    · rw [hadvance] at h
      cases h
    · rw [hadvance] at h
      cases h
  · cases h

/-- No run that is long enough ends at the first two records of a file. -/
theorem found_eq_false (h : rec base 0 = 0x85) (hj : base ≤ j) (hlt : j < base + 2) :
  found mode hash rec j = false
  := by
  rw [Bool.eq_false_iff]
  intro hfound
  obtain ⟨i, n, heq, hrun, hthree, -⟩ := FolderRecord.found_iff.1 hfound
  apply hrun.type_ne (t := base - i) (by lia) (by lia)
  rwa [Nat.add_sub_cancel' (by lia)]

/-- A file of three records is found by a step from before it, if nothing is found earlier. -/
theorem next_found (hrun : Run mode hash rec base 3) (hcount : (rec base).count = 2)
    (hi : i ≤ base) (hquiet : Quiet mode hash rec i base) (hlimit : base + 3 ≤ limit) :
  next mode hash rec limit i (listBefore mode hash rec i)
    = (some .found, base + 3, slice rec base 3)
  := by
  have hge : limit ≤ sectorEnd limit := sectorEnd_ge
  have hfound : found mode hash rec (base + 2) = true :=
    FolderRecord.found_iff.2 ⟨base, 3, rfl, hrun, le_rfl, by omega⟩
  -- the records of the file are not of type `0`
  have htype : ∀ t < 3, rec (base + t) 0 ≠ 0 := by
    intro t ht
    obtain rfl | rfl | rfl : t = 0 ∨ t = 1 ∨ t = 2 := by lia
    · rw [Nat.add_zero, hrun.starts.1]
      decide
    · rw [(hrun.seconds (by decide)).1]
      decide
    · rw [hrun.names 2 le_rfl (by decide)]
      decide
  rw [next, if_pos (by omega)]
  rcases advance_cases mode hash rec (sectorEnd limit - i) i with
    ⟨j, hle, hlt, hbefore, -, hfile, hadvance⟩ | ⟨j, hle, hlt, hbefore, hzero, hadvance⟩ |
      ⟨hall, -⟩
  · rcases Nat.lt_trichotomy j (base + 2) with hless | rfl | hmore
    · have hnot : found mode hash rec j = false := by
        by_cases hj : j < base
        · apply (hquiet j hle hj).2
        · apply found_eq_false hrun.starts.1 (by omega) hless
      rw [hnot] at hfile
      cases hfile
    · rw [hadvance, FolderRecord.listBefore_of_run hrun]
    · rw [(hbefore (base + 2) (by omega) hmore).2] at hfound
      cases hfound
  · exfalso
    by_cases hj : j < base
    · apply (hquiet j hle hj).1 hzero
    by_cases hmore : j < base + 3
    · apply htype (j - base) (by lia)
      rwa [Nat.add_sub_cancel' (by omega)]
    · rw [(hbefore (base + 2) (by lia) (by lia)).2] at hfound
      cases hfound
  · rw [(hall (base + 2) (by lia) (by lia)).2] at hfound
    cases hfound

/-- When a step from the first record of a file has found records that end where those of the file do,
the file has three records. -/
theorem IsSet.of_next (h : IsSet rec base) (hlimit : base < limit)
    (hnext : next ALLOW_ALL 0 rec limit base [] = (some .found, k, l))
    (hlength : (l.headD fun _ => 0).count + 1 = l.length)
    (hk : base + (l.headD fun _ => 0).count + 1 = k) :
  (rec base).count = 2 ∧ k = base + 3 ∧ l = slice rec base 3
  := by
  rw [next_start hlimit h.1] at hnext
  obtain ⟨-, hquiet, j, n, hrun, hthree, -, hlt, rfl, rfl⟩ := next_inv hnext
  rw [FolderRecord.slice_headD (by omega), FolderRecord.slice_length] at hlength
  rw [FolderRecord.slice_headD (by lia)] at hk
  obtain rfl : base = j := by lia
  have htwo : (rec base).count = 2 := by
    by_contra hne
    have hge := h.2.1
    -- the run without its last record is found
    have hfound : found ALLOW_ALL 0 rec (base + (rec base).count - 1) = true :=
      FolderRecord.found_iff.2 ⟨base, (rec base).count, by lia,
        hrun.part (by lia) (by lia), by lia, le_rfl⟩
    rw [(hquiet _ (by lia) (by lia)).2] at hfound
    cases hfound
  obtain rfl : n = 3 := by lia
  exact ⟨htwo, rfl, rfl⟩

/-! ### What an update does -/

/-- The memory after two records have been stored at an index. -/
def after (fs : Exfat) (f : FileData) (behind : ℕ → Option ℕ) (base : ℕ) (list : List FolderRecord)
    (m : SlotMemory) : SlotMemory :=
  (m.prepare (f.sectorAt fs (base * RECORD_SIZE))).copy behind (f.sectorAt fs (base * RECORD_SIZE))
    (base * RECORD_SIZE % SECTOR_SIZE) (2 * RECORD_SIZE) (FolderRecord.bytes list)

/-- Every record begins where there is room for one. -/
theorem offset_le (base : ℕ) : base * RECORD_SIZE % SECTOR_SIZE ≤ SECTOR_SIZE - RECORD_SIZE := by
  rw [RECORD_SIZE, SECTOR_SIZE]
  lia

/-- The bytes of a record lie before the end of the folder. -/
theorem record_lt (hj : j < validSize / RECORD_SIZE) {x : ℕ} (hx : x < RECORD_SIZE) :
  j * RECORD_SIZE + x < validSize
  := by
  have hle := Nat.div_mul_le_self validSize RECORD_SIZE
  rw [RECORD_SIZE] at hj hx hle ⊢
  lia

/-- A record begins before the end of the folder. -/
theorem index_lt (hj : j < validSize / RECORD_SIZE) : j * RECORD_SIZE < validSize :=
  record_lt hj (show 0 < RECORD_SIZE by decide)

/-- The offset of a record fits into 32 bits. -/
theorem offset_eq (hsize : validSize < 2 ^ 32) (hbase : base < validSize / RECORD_SIZE) :
  base * RECORD_SIZE % 2 ^ 32 = base * RECORD_SIZE
  := by
  apply Nat.mod_eq_of_lt
  apply (index_lt hbase).trans hsize

/-- An update that has succeeded has stored the first two records. -/
theorem update_inv (h : Tracks debug fs f p) (hcovers : f.Covers fs validSize)
    (hsize : validSize < 2 ^ 32) (hbase : base < validSize / RECORD_SIZE)
    (hupdate : update debug fs behind validSize base false p m = .ok (true, p', m')) :
  (p.list.headD fun _ => 0).count + 1 = p.list.length ∧
    base + (p.list.headD fun _ => 0).count + 1 = p.index ∧ p.index ≤ validSize / RECORD_SIZE ∧
    p'.list = FolderRecord.withChecksum p.list ∧
    m' = after fs f behind base (FolderRecord.withChecksum p.list) m
  := by
  have hlimit : validSize / RECORD_SIZE < 2 ^ 27 := Nat.div_lt_of_lt_mul hsize
  have hcount := ((p.list.headD fun _ => 0) 1).toNat_lt
  have hk : f.clusterAt fs (base * RECORD_SIZE / fs.clusterSize) ≠ 0 := by
    apply hcovers
    apply index_lt hbase
  have hoffset := offset_eq hsize hbase
  rw [update] at hupdate
  dsimp only at hupdate
  rw [hoffset, Nat.mod_eq_of_lt (show validSize / RECORD_SIZE < 2 ^ 32 by omega)] at hupdate
  by_cases hlength : p.list.length < 2 ∨ (p.list.headD fun _ => 0).count + 1 ≠ p.list.length
  · rw [if_pos hlength] at hupdate
    cases hupdate
  by_cases hindex : (base + (p.list.headD fun _ => 0).count + 1) % 2 ^ 32 ≠ p.index ∨
      validSize / RECORD_SIZE < p.index
  · rw [if_neg hlength, if_pos hindex] at hupdate
    cases hupdate
  rw [if_neg hlength, if_neg hindex, if_neg Bool.false_ne_true] at hupdate
  rw [not_or, not_not] at hlength
  rw [not_or, not_not, not_lt] at hindex
  rw [Except.bind_eq_ok_iff] at hupdate
  obtain ⟨⟨lba, fs', c', dm'⟩, hlba, hupdate⟩ := hupdate
  obtain ⟨heq, -⟩ := h.getLba_inv hk hlba
  dsimp only at hupdate
  by_cases hz : lba = 0
  · rw [if_pos hz] at hupdate
    cases hupdate
  obtain rfl := heq.resolve_left hz
  rw [if_neg hz] at hupdate
  split at hupdate
  · cases hupdate
  · rw [if_pos (offset_le base)] at hupdate
    cases hupdate
    refine ⟨hlength.2, ?_, hindex.2, rfl, rfl⟩
    rw [← hindex.1]
    symm
    apply Nat.mod_eq_of_lt
    change (p.list.headD fun _ => 0).count < _ at hcount
    lia

/-- An update succeeds when the accesses to the disk do. -/
theorem update_true (behind : ℕ → Option ℕ) (m : SlotMemory) (h : Sane debug fs f p) (hcovers : f.Covers fs validSize)
    (hsize : validSize < 2 ^ 32) (hbase : base < validSize / RECORD_SIZE)
    (hlength : (p.list.headD fun _ => 0).count + 1 = p.list.length) (htwo : 2 ≤ p.list.length)
    (hindex : base + (p.list.headD fun _ => 0).count + 1 = p.index)
    (hlimit : p.index ≤ validSize / RECORD_SIZE) :
  ∃ p', update debug fs behind validSize base false p m
      = .ok (true, p', after fs f behind base (FolderRecord.withChecksum p.list) m) ∧
    p'.list = FolderRecord.withChecksum p.list
  := by
  have hlt : validSize / RECORD_SIZE < 2 ^ 27 := Nat.div_lt_of_lt_mul hsize
  have hk : ({ f with clusters := p.clusters } : FileData).clusterAt fs
      (base * RECORD_SIZE / fs.clusterSize) ≠ 0 := by
    rw [h.same]
    apply hcovers
    apply index_lt hbase
  have hoffset := offset_eq hsize hbase
  obtain ⟨c', dm', hlba, h₀, -, -, hdm⟩ := h.file.getLba_eq (fun _ dm => (true, dm)) 0 h.dm hk
  have hat : ({ f with clusters := p.clusters } : FileData).sectorAt fs (base * RECORD_SIZE)
      = f.sectorAt fs (base * RECORD_SIZE) := by
    rw [FileData.sectorAt, h.same, FileData.sectorAt]
  rw [hat] at hlba h₀
  obtain ⟨dm'', hget, -⟩ := Dm.get_eq hdm (f.sectorAt fs (base * RECORD_SIZE))
  refine ⟨{ p with
    list := FolderRecord.withChecksum p.list
    clusters := c'
    dm := dm''.relax (Disk.pageLba (f.sectorAt fs (base * RECORD_SIZE))) }, ?_, rfl⟩
  rw [update]
  dsimp only
  rw [hoffset, Nat.mod_eq_of_lt (show validSize / RECORD_SIZE < 2 ^ 32 by omega), if_neg, if_neg,
    if_neg Bool.false_ne_true, hlba, Except.ok_bind]
  · dsimp only
    rw [if_neg h₀, hget]
    dsimp only
    rw [if_pos (offset_le base)]
    rfl
  · lia
  · lia

theorem headD_modify_one (l : List FolderRecord) (g : FolderRecord → FolderRecord) (d : FolderRecord) :
  (l.modify 1 g).headD d = l.headD d
  := by
  cases l with
  | nil => rfl
  | cons r l => rfl

/-- An update that has succeeded has stored the first two records of a file of three. -/
theorem updateRecord_inv (h : FileData.Consistent debug fs f) (hfits : SizeFits fs)
    (hcovers : f.Covers fs validSize) (hsize : validSize < 2 ^ 32)
    (hset : IsSet (recordAt fs f content) base) (hbase : base < validSize / RECORD_SIZE)
    (hupdate : updateRecord debug fs behind content validSize base change f.clusters dm m
      = .ok (true, p, m')) :
  (recordAt fs f content base).count = 2 ∧ p.list = changed change (recordAt fs f content) base ∧
    m' = after fs f behind base (changed change (recordAt fs f content) base) m
  := by
  rw [updateRecord, Except.bind_eq_ok_iff] at hupdate
  obtain ⟨⟨stat, p₁⟩, hstep, hupdate⟩ := hupdate
  dsimp only at hupdate
  by_cases hstat : stat = .found
  · subst hstat
    rw [if_neg (not_not.2 rfl), Except.bind_eq_ok_iff] at hupdate
    obtain ⟨_, -, hupdate⟩ := hupdate
    by_cases hindex : (base + (p₁.list.headD fun _ => 0).count + 1) % 2 ^ 32 ≠ p₁.index
    · rw [if_pos hindex] at hupdate
      cases hupdate
    rw [if_neg hindex] at hupdate
    obtain ⟨hnext, htracks⟩ := step_found ⟨h, fun _ => rfl⟩ hfits hcovers hsize hstep
    obtain ⟨hlength, hend, -, hlist, hafter⟩ := update_inv (f := f)
      (p := { p₁ with list := p₁.list.modify 1 change.store }) ⟨htracks.file, htracks.same⟩
      hcovers hsize hbase hupdate
    dsimp only at hlength hend hlist hafter
    rw [headD_modify_one, List.length_modify] at hlength
    rw [headD_modify_one] at hend
    obtain ⟨htwo, -, hslice⟩ := hset.of_next hbase hnext hlength hend
    rw [hslice] at hlist hafter
    exact ⟨htwo, hlist, hafter⟩
  · rw [if_pos hstat] at hupdate
    cases hupdate

/-- The update of a file of three records succeeds when the accesses to the disk do. -/
theorem updateRecord_true (behind : ℕ → Option ℕ) (change : RecordChange) (m : SlotMemory)
    (h : FileData.Consistent debug fs f) (hfits : SizeFits fs)
    (hcovers : f.Covers fs validSize) (hsize : validSize < 2 ^ 32) (hdm : dm.Succeeds)
    (hset : IsSet (recordAt fs f content) base) (htwo : (recordAt fs f content base).count = 2)
    (hlimit : base + 3 ≤ validSize / RECORD_SIZE) :
  ∃ p, updateRecord debug fs behind content validSize base change f.clusters dm m
      = .ok (true, p, after fs f behind base (changed change (recordAt fs f content) base) m) ∧
    p.list = changed change (recordAt fs f content) base
  := by
  have hsane : Sane debug fs f { index := base, clusters := f.clusters, dm := dm } :=
    ⟨h, fun _ => rfl, hdm⟩
  obtain ⟨p, hstep, hindex, hlist, hp⟩ := step_eq ALLOW_ALL 0 content hsane hfits hcovers hsize
  rw [next_start (by lia) hset.1, next_found (run_of_isSet hset htwo) htwo le_rfl
    (fun t ht hlt => by lia) hlimit] at hstep hindex hlist
  dsimp only at hindex hlist
  rw [if_pos rfl] at hlist
  have hhead : (p.list.headD fun _ => 0).count = 2 := by
    rw [hlist, FolderRecord.slice_headD (by decide), htwo]
  have hlength : p.list.length = 3 := by rw [hlist, FolderRecord.slice_length]
  have hpindex : base + 2 + 1 = p.index := hindex.symm
  obtain ⟨p', hupdate, hlist'⟩ := update_true behind m (f := f)
    (p := { p with list := p.list.modify 1 change.store }) ⟨hp.file, hp.same, hp.dm⟩ hcovers hsize
    (by lia : base < validSize / RECORD_SIZE)
    (by rw [headD_modify_one, hhead, List.length_modify, hlength])
    (by
      rw [List.length_modify, hlength]
      decide)
    (by rw [headD_modify_one, hhead, hpindex])
    (by
      rw [← hpindex]
      omega)
  have hlt : validSize / RECORD_SIZE < 2 ^ 27 := Nat.div_lt_of_lt_mul hsize
  dsimp only at hupdate hlist'
  rw [hlist] at hupdate hlist'
  refine ⟨p', ?_, hlist'⟩
  rw [updateRecord, hstep, Except.ok_bind]
  dsimp only
  rw [Option.getD_some, if_neg (not_not.2 rfl), Fault.assert_eq_ok (fun _ => by omega), Except.ok_bind,
    hhead, if_neg, hlist, hupdate]
  · rfl
  · rw [not_not, hpindex]
    apply Nat.mod_eq_of_lt
    lia

/-! ### When the right bytes are changed -/

/-- Two bytes of a file are not at the same place. -/
theorem offset_inj (h : FileData.Consistent debug fs f) (hfits : SizeFits fs)
    (hi : f.clusterAt fs (i / fs.clusterSize) ≠ 0) (hj : f.clusterAt fs (j / fs.clusterSize) ≠ 0)
    (hsector : f.sectorAt fs i = f.sectorAt fs j) (hmod : i % SECTOR_SIZE = j % SECTOR_SIZE) :
  i = j
  := by
  have hsi := FileData.sectors_of_clusterAt hfits hi
  rw [hsector] at hsi
  have hdiv := h.sectors_inj hfits hsi (FileData.sectors_of_clusterAt hfits hj)
  rw [← Nat.div_add_mod i SECTOR_SIZE, hdiv, hmod, Nat.div_add_mod]

theorem changed_eq (change : RecordChange) (rec : ℕ → FolderRecord) (base : ℕ) :
  ∃ sum, changed change rec base
    = [(rec base).store 2 2 sum, change.store (rec (base + 1)), rec (base + 2)]
  := ⟨_, rfl⟩

theorem sumRight_changed (change : RecordChange) (rec : ℕ → FolderRecord) (base : ℕ) :
  SumRight (changed change rec base)
  := FolderRecord.sumRight_withChecksum _ _

/-- The records of a folder after the first two of a file have been stored. -/
theorem recordAt_stored (h : FileData.Consistent debug fs f) (hfits : SizeFits fs)
    (hcovers : f.Covers fs validSize) (hlimit : base + 3 ≤ validSize / RECORD_SIZE)
    {view : ℕ → Boot.Bytes}
    (hsame : ∀ j l, f.sectors fs j = some l → pages.view l = content l)
    (hstored : ∀ x < 2 * RECORD_SIZE,
      view (f.sectorAt fs (RECORD_SIZE * base + x)) ((RECORD_SIZE * base + x) % SECTOR_SIZE)
        = FolderRecord.bytes (changed change (recordAt fs f content) base) x)
    (hkept : ∀ l i, (∀ x < 2 * RECORD_SIZE, l = f.sectorAt fs (RECORD_SIZE * base + x) →
      i ≠ (RECORD_SIZE * base + x) % SECTOR_SIZE) → view l i = pages.view l i) :
  slice (recordAt fs f view) base 3 = changed change (recordAt fs f content) base ∧
    ∀ j < validSize / RECORD_SIZE, j ≠ base → j ≠ base + 1 →
      recordAt fs f view j = recordAt fs f content j
  := by
  have hrest : ∀ j < validSize / RECORD_SIZE, j ≠ base → j ≠ base + 1 →
      recordAt fs f view j = recordAt fs f content j := by
    intro j hj hne hne'
    funext k
    have hcluster : ∀ i < validSize / RECORD_SIZE, ∀ x < RECORD_SIZE,
        f.clusterAt fs ((RECORD_SIZE * i + x) / fs.clusterSize) ≠ 0 := by
      intro i hi x hx
      apply hcovers
      rw [Nat.mul_comm]
      apply record_lt hi hx
    have hk := hcluster j hj k k.isLt
    rw [recordAt, recordAt, FileData.byteAt, FileData.byteAt, hkept,
      hsame _ _ (FileData.sectors_of_clusterAt hfits hk)]
    intro x hx hsector hmod
    have hx' : f.clusterAt fs ((RECORD_SIZE * base + x) / fs.clusterSize) ≠ 0 := by
      by_cases hfirst : x < RECORD_SIZE
      · apply hcluster base (by omega) x hfirst
      · have hnext := hcluster (base + 1) (by lia) (x - RECORD_SIZE) (by lia)
        rwa [Nat.mul_succ, Nat.add_assoc, Nat.add_sub_cancel' (not_lt.1 hfirst)] at hnext
    have heq := offset_inj h hfits hk hx' hsector hmod
    have hlt := k.isLt
    rw [RECORD_SIZE] at heq hx
    lia
  refine ⟨?_, hrest⟩
  obtain ⟨sum, hchanged⟩ := changed_eq change (recordAt fs f content) base
  rw [hchanged] at hstored ⊢
  have hfirst : recordAt fs f view base = (recordAt fs f content base).store 2 2 sum := by
    funext k
    have hk := hstored k (k.isLt.trans (by decide))
    rwa [FolderRecord.bytes_head] at hk
  have hsecond : recordAt fs f view (base + 1) = change.store (recordAt fs f content (base + 1)) := by
    funext k
    have hk := hstored (0x20 + k) (Nat.add_lt_add_left k.isLt 0x20)
    rwa [FolderRecord.bytes_tail, FolderRecord.bytes_head, ← Nat.add_assoc] at hk
  rw [FolderRecord.slice_succ, FolderRecord.slice_succ, FolderRecord.slice_one, hfirst, hsecond,
    hrest (base + 2) (by lia) (by lia) (by lia)]
  rfl

/-- The records of a file of three are still found after they have been changed. -/
theorem run_changed (hrun : Run mode hash rec base 3)
    (hslice : slice rec' base 3 = changed change rec base) (hnext : rec' (base + 2) = rec (base + 2)) :
  Run mode hash rec' base 3 ∧ (rec' base).count = (rec base).count
  := by
  have hsum : SumRight (slice rec' base 3) := hslice ▸ sumRight_changed change rec base
  obtain ⟨sum, hchanged⟩ := changed_eq change rec base
  rw [hchanged] at hslice
  injection hslice with hfirst htail
  injection htail with hsecond
  change rec' base = _ at hfirst
  change rec' (base + 1) = _ at hsecond
  have hbyte : ∀ i : Fin 0x20, i ≠ 2 → i ≠ 3 → rec' base i = rec base i := by
    intro i h₂ h₃
    rw [hfirst]
    apply FolderRecord.store_of_not_mem
    lia
  have hcount : (rec' base).count = (rec base).count := by
    rw [FolderRecord.count, hbyte 1 (by decide) (by decide), FolderRecord.count]
  have hkind : (rec' base).fileType = (rec base).fileType := by
    rw [FolderRecord.fileType, hbyte 4 (by decide) (by decide), FolderRecord.fileType]
  refine ⟨⟨by decide, ?_, ?_, ?_, ?_⟩, hcount⟩
  · obtain ⟨htype, hstarts⟩ := hrun.starts
    refine ⟨?_, ?_⟩
    · rw [hbyte 0 (by decide) (by decide), htype]
    · rwa [hcount, hkind]
  · intro _
    obtain ⟨htype, hhash⟩ := hrun.seconds (by decide)
    rw [hsecond]
    refine ⟨?_, ?_⟩
    · rw [RecordChange.store_head (by decide), htype]
    · intro hcheck
      rw [hhash hcheck, FolderRecord.word, FolderRecord.word, RecordChange.store_head (by decide),
        RecordChange.store_head (by decide)]
  · intro t ht hlt
    obtain rfl : t = 2 := by lia
    rw [hnext, hrun.names 2 le_rfl hlt]
  · intro n hn _ hle
    obtain rfl : n = 3 := by omega
    exact hsum

/-- Two records of one sector lie in it. -/
theorem offset_add_le (hroom : base % RECORD_PER_SECTOR ≠ RECORD_PER_SECTOR - 1) :
  base * RECORD_SIZE % SECTOR_SIZE + 2 * RECORD_SIZE ≤ SECTOR_SIZE
  := by
  rw [RECORD_PER_SECTOR] at hroom
  rw [RECORD_SIZE, SECTOR_SIZE]
  lia

/-- The bytes of two records of one sector. -/
theorem sectorAt_record (f : FileData) (hfits : SizeFits fs)
    (hroom : base % RECORD_PER_SECTOR ≠ RECORD_PER_SECTOR - 1) {x : ℕ} (hx : x < 2 * RECORD_SIZE) :
  f.sectorAt fs (RECORD_SIZE * base + x) = f.sectorAt fs (base * RECORD_SIZE) ∧
    (RECORD_SIZE * base + x) % SECTOR_SIZE = base * RECORD_SIZE % SECTOR_SIZE + x
  := by
  have hle := offset_add_le hroom
  rw [RECORD_SIZE, SECTOR_SIZE] at *
  refine ⟨sectorAt_congr hfits ?_, by lia⟩
  rw [SECTOR_SIZE]
  lia

theorem after_eq (list : List FolderRecord) (m : SlotMemory)
    (hroom : base % RECORD_PER_SECTOR ≠ RECORD_PER_SECTOR - 1) :
  after fs f behind base list m
    = (m.prepare (f.sectorAt fs (base * RECORD_SIZE))).put (f.sectorAt fs (base * RECORD_SIZE))
      (base * RECORD_SIZE % SECTOR_SIZE) (2 * RECORD_SIZE) (FolderRecord.bytes list)
  := SlotMemory.copy_inside (offset_add_le hroom)

/-- What is found after two records of one sector have been stored. -/
theorem view_after (fs : Exfat) (f : FileData) (behind : ℕ → Option ℕ) (list : List FolderRecord)
    (hclean : m.pages.Clean) (hroom : base % RECORD_PER_SECTOR ≠ RECORD_PER_SECTOR - 1)
    (l i : ℕ) :
  (after fs f behind base list m).pages.view l i
    = if l = f.sectorAt fs (base * RECORD_SIZE) ∧ base * RECORD_SIZE % SECTOR_SIZE ≤ i ∧
        i < base * RECORD_SIZE % SECTOR_SIZE + 2 * RECORD_SIZE then
      FolderRecord.bytes list (i - base * RECORD_SIZE % SECTOR_SIZE)
    else m.pages.view l i
  := by
  rw [after_eq list m hroom, SlotMemory.view_put (SlotMemory.valid_prepare _ _),
    SlotMemory.view_prepare hclean]

/-- Records of one sector are stored where they are. -/
theorem hits_after (h : FileData.Consistent debug fs f) (hfits : SizeFits fs)
    (hcovers : f.Covers fs validSize) (hsize : validSize < 2 ^ 32)
    (hset : IsSet (recordAt fs f content) base) (htwo : (recordAt fs f content base).count = 2)
    (hlimit : base + 3 ≤ validSize / RECORD_SIZE) (hclean : pages.Clean)
    (hsame : ∀ j l, f.sectors fs j = some l → pages.view l = content l)
    (hroom : base % RECORD_PER_SECTOR ≠ RECORD_PER_SECTOR - 1) :
  Hits debug fs f content validSize base change pages
    (changed change (recordAt fs f content) base)
    (after fs f behind base (changed change (recordAt fs f content) base) { pages := pages })
  := by
  obtain ⟨m', hm'⟩ : ∃ m', m' = after fs f behind base
    (changed change (recordAt fs f content) base) { pages := pages } := ⟨_, rfl⟩
  rw [← hm']
  have hview := view_after fs f behind (m := { pages := pages })
    (changed change (recordAt fs f content) base) hclean hroom
  rw [← hm'] at hview
  dsimp only at hview
  have hstored : ∀ x < 2 * RECORD_SIZE, m'.pages.view (f.sectorAt fs (RECORD_SIZE * base + x))
      ((RECORD_SIZE * base + x) % SECTOR_SIZE)
        = FolderRecord.bytes (changed change (recordAt fs f content) base) x := by
    intro x hx
    obtain ⟨hsector, hmod⟩ := sectorAt_record f hfits hroom hx
    rw [hview, hsector, hmod, if_pos ⟨rfl, by lia, by lia⟩, Nat.add_sub_cancel_left]
  have hkept : ∀ l i, (∀ x < 2 * RECORD_SIZE, l = f.sectorAt fs (RECORD_SIZE * base + x) →
      i ≠ (RECORD_SIZE * base + x) % SECTOR_SIZE) → m'.pages.view l i = pages.view l i := by
    intro l i hnot
    rw [hview, if_neg]
    rintro ⟨hl, hle, hlt⟩
    have hx : i - base * RECORD_SIZE % SECTOR_SIZE < 2 * RECORD_SIZE := by lia
    obtain ⟨hsector, hmod⟩ := sectorAt_record f hfits hroom hx
    apply hnot _ hx (hl.trans hsector.symm)
    rw [hmod]
    lia
  obtain ⟨hslice, hrest⟩ := recordAt_stored h hfits hcovers hlimit hsame hstored hkept
  refine ⟨hstored, hkept, ?_, ?_, sumRight_changed _ _ _, ?_, ?_⟩
  · rw [hm', after_eq _ _ hroom]
    rfl
  · intro l hne
    by_cases hl : l = f.sectorAt fs (base * RECORD_SIZE)
    · rw [hl, hm', after_eq _ _ hroom]
      apply SlotMemory.dirty_prepare
    · apply absurd _ hne
      funext i
      rw [hview, if_neg fun hin => hl hin.1]
  · rw [← RecordChange.extent_store]
    rfl
  · intro mode hash p p' hp hi hlist hstep hindex
    -- the run that ends there is the file
    obtain ⟨hnext, -⟩ := step_found ⟨hp.file, hp.same⟩ hfits hcovers hsize hstep
    rw [hlist, hindex] at hnext
    obtain ⟨-, hquiet, j, n, hrun, hthree, -, -, hend, -⟩ := next_inv hnext
    have hfirst : j = base := by
      by_contra hne
      apply hrun.type_ne (t := base - j) (by lia) (by lia)
      rw [Nat.add_sub_cancel' (by lia), hset.1]
    obtain rfl := hfirst
    obtain rfl : n = 3 := by lia
    -- nothing before it has changed
    have hbefore : ∀ t < j, recordAt fs f content t = recordAt fs f m'.pages.view t := by
      intro t ht
      rw [hrest t (by lia) (by lia) (by lia)]
    obtain ⟨hrun', hcount⟩ := run_changed hrun hslice
      (hrest (j + 2) (by lia) (by lia) (by lia))
    have hquiet' : Quiet mode hash (recordAt fs f m'.pages.view) p.index j := by
      intro t ht hlt
      rw [← hbefore t hlt, ← found_congr fun t' ht' => hbefore t' (by lia)]
      apply hquiet t ht (by lia)
    have hnext' := next_found hrun' (hcount.trans htwo) hi hquiet' hlimit
    obtain ⟨p'', hstep', hindex', hlist', -⟩ :=
      step_eq mode hash m'.pages.view hp hfits hcovers hsize
    rw [hlist, listBefore_congr fun t ht => hbefore t (by lia), hnext'] at hstep' hindex' hlist'
    dsimp only at hindex' hlist'
    rw [if_pos rfl, hslice] at hlist'
    exact ⟨p'', hstep', hindex', hlist'⟩

/-- When the second record is in another sector, it is not changed, or that sector is not marked. -/
theorem not_updatesRight (h : FileData.Consistent debug fs f) (hfits : SizeFits fs)
    (hcovers : f.Covers fs validSize) (hsize : validSize < 2 ^ 32)
    (hset : IsSet (recordAt fs f content) base) (htwo : (recordAt fs f content base).count = 2)
    (hlimit : base + 3 ≤ validSize / RECORD_SIZE)
    (hroom : base % RECORD_PER_SECTOR = RECORD_PER_SECTOR - 1) :
  ¬ UpdatesRight debug fs f behind content validSize base
  := by
  intro hright
  -- nothing is in the cache, and the size becomes another one
  let pages : Pages Boot.Bytes :=
    { disk := content, access := fun _ _ => 0, valid := fun _ => false, dirty := fun _ => false }
  have hclean : pages.Clean := by
    constructor
    · intro l hdirty
      cases hdirty
    · intro l hvalid
      cases hvalid
  obtain ⟨i, hi⟩ : ∃ i : Fin 0x20, i = 8 := ⟨8, rfl⟩
  have hval : i.val = 8 := congrArg Fin.val hi
  obtain ⟨change, hchange⟩ := RecordChange.exists_store_ne (recordAt fs f content (base + 1))
  rw [← hi] at hchange
  obtain ⟨p, hupdate, hlist⟩ := updateRecord_true behind change { pages := pages } h hfits hcovers
    hsize (show Chains.reading.Succeeds from fun _ => rfl) hset htwo hlimit
  have hhits := hright pages _ _ _ _ hclean (fun _ _ _ => rfl) hupdate
  rw [hlist] at hhits
  -- the second record begins in another sector
  have hsecond : f.clusterAt fs ((RECORD_SIZE * (base + 1) + i) / fs.clusterSize) ≠ 0 := by
    apply hcovers
    rw [Nat.mul_comm]
    apply record_lt (by omega) i.isLt
  have hne : f.sectorAt fs (RECORD_SIZE * (base + 1) + i) ≠ f.sectorAt fs (base * RECORD_SIZE) := by
    intro heq
    have hfirst : f.clusterAt fs (base * RECORD_SIZE / fs.clusterSize) ≠ 0 :=
      hcovers _ (index_lt (by omega))
    have hsector := FileData.sectors_of_clusterAt hfits hsecond
    rw [heq] at hsector
    have hdiv := h.sectors_inj hfits hsector (FileData.sectors_of_clusterAt hfits hfirst)
    rw [RECORD_PER_SECTOR] at hroom
    rw [RECORD_SIZE, SECTOR_SIZE] at hdiv
    lia
  obtain ⟨m', hm'⟩ : ∃ m', m' = after fs f behind base
    (changed change (recordAt fs f content) base) { pages := pages } := ⟨_, rfl⟩
  rw [← hm'] at hhits
  have hstored := hhits.stored (0x20 + i) (by
    rw [RECORD_SIZE]
    omega)
  obtain ⟨sum, hchanged⟩ := changed_eq change (recordAt fs f content) base
  rw [hchanged, FolderRecord.bytes_tail, FolderRecord.bytes_head, ← Nat.add_assoc] at hstored
  have hdirty := hhits.dirty (f.sectorAt fs (RECORD_SIZE * (base + 1) + i)) (by
    intro heq
    apply hchange
    rw [← hstored]
    apply congrFun heq)
  rw [hm', after, SlotMemory.dirty_copy, SlotMemory.dirty_prepare_of_ne hne rfl] at hdirty
  cases hdirty

/-- For every folder and every file of it, an update of the records of the file that is reported to have
succeeded has changed the right bytes and marked their sectors, whatever is in the cache, exactly if
the file has more than three records, and then none succeeds, or its first two records are in one
sector. -/
theorem updates_iff (h : FileData.Consistent debug fs f) (hfits : SizeFits fs)
    (hcovers : f.Covers fs validSize) (hsize : validSize < 2 ^ 32)
    (hset : IsSet (recordAt fs f content) base)
    (hlimit : base + (recordAt fs f content base).count + 1 ≤ validSize / RECORD_SIZE) :
  UpdatesRight debug fs f behind content validSize base ↔
    ((recordAt fs f content base).count = 2 →
      base % RECORD_PER_SECTOR ≠ RECORD_PER_SECTOR - 1)
  := by
  constructor
  · intro hright htwo hroom
    apply not_updatesRight h hfits hcovers hsize hset htwo (by omega) hroom hright
  · intro hroom pages dm change p m hclean hsame hupdate
    obtain ⟨htwo, hlist, hafter⟩ :=
      updateRecord_inv h hfits hcovers hsize hset (by omega) hupdate
    rw [hlist, hafter]
    apply hits_after h hfits hcovers hsize hset htwo (by omega) hclean hsame (hroom htwo)

/-- The records of a file at the beginning of a folder are updated. -/
theorem updates_first :
  UpdatesRight true (Chains.threeClusters true) FileData.chained (fun _ => none) shortName 0x3000 0
  := by
  apply (updates_iff FileData.consistent_chained ⟨by decide, by decide⟩ FileData.covers_chained
    (by decide) _ _).2
  · intro _
    decide
  · change IsSet (chainedRecords shortName) 0
    decide +kernel
  · change 0 + (chainedRecords shortName 0).count + 1 ≤ _
    decide

/-- A file whose first record is the last one of a sector. -/
def acrossSectors : ℕ → Boot.Bytes := fun lba =>
  if lba = 32 then folderOf (List.replicate 15 [1] ++ [[0x85, 2, 0x66, 0x0E, 0x20]]) lba
  else folderOf [[0xC0, 1, 0, 1], [0xC1, 0, 0x61]] lba

/-- The second record is in the next sector, which is not marked. -/
theorem across_not_updated :
  IsSet (chainedRecords acrossSectors) 15 ∧ 15 + 3 ≤ 0x3000 / RECORD_SIZE ∧
    ¬ UpdatesRight true (Chains.threeClusters true) FileData.chained (fun _ => none) acrossSectors
      0x3000 15
  := by
  have hset : IsSet (chainedRecords acrossSectors) 15 := by decide +kernel
  have hcount : (chainedRecords acrossSectors 15).count = 2 := rfl
  refine ⟨hset, by decide, ?_⟩
  apply not_updatesRight FileData.consistent_chained ⟨by decide, by decide⟩ FileData.covers_chained
    (by decide) hset hcount (by decide) (by decide)

end FolderReader

end UOS
