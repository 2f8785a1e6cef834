import Cofuos.Boot.MakeBoot

/-!
# The volume as the loader and as the kernel see it

Both the loader (`boot/krnldr.asm`) and the kernel (`exfat::parse_header` of
`kernel/filesystem/exfat.cpp`) take the position of the file allocation table and of the clusters
from the first sector of the volume, and compute the position of a sector of a cluster from them.
Shifts take the width of the processor into account: the number of bits is reduced modulo `32` or
`64`.

`read_sector` of the loader leaves a port number in the lower half of the register from which it takes
the position of the sector. `find_file` reads several sectors of a directory without setting the
register again.
-/

namespace UOS

namespace Boot

/-! ### The loader -/

/-- What `exFAT_verify` finds out about the volume. -/
structure LoaderVolume where
  lbaFat : ℕ
  lbaHeap : ℕ
  clusterSize : ℕ
  deriving DecidableEq, Repr

/-- The `dword` that `exFAT_verify` adds to the position of the table, for the number of tables and
the flags. -/
def secondFat (s : Bytes) : Option ℕ :=
  if s 0x6E = 1 then some 0
  else if s 0x6E = 2 then some (if s.word 0x6A % 2 = 1 then s.dword 0x54 else 0)
  else none

/-- `exFAT_verify`, for the base of the volume and the serial number that have been found before. -/
def exfatVerify (s : Bytes) (base sig : ℕ) : Option LoaderVolume :=
  if checkExfat s = true ∧ s.dword 0x64 = sig ∧ s.qword 0x40 = base then
    (secondFat s).map fun fat =>
      { lbaFat := ((fat + s.dword 0x50) % 2 ^ 32 + base) % 2 ^ 64
        lbaHeap := (s.dword 0x58 + base) % 2 ^ 64
        clusterSize := SECTOR_SIZE * 2 ^ ((s 0x6D).toNat % 32) % 2 ^ 32 }
  else none

namespace LoaderVolume

/-- The number of sectors in a cluster. -/
def sectors (v : LoaderVolume) : ℕ := v.clusterSize / SECTOR_SIZE

/-- The sector that `read_file` reads, for a sector of a cluster. It gives up when the product does
not fit into 32 bits. -/
def readFile (v : LoaderVolume) (cluster offset : ℕ) : Option ℕ :=
  if (cluster - 2) * v.sectors / 2 ^ 32 ≠ 0 then none
  else some ((v.lbaHeap + ((cluster - 2) * v.sectors + offset) % 2 ^ 32) % 2 ^ 64)

/-- What `read_sector` leaves in the register from which it takes the position of the sector. -/
def afterRead (rdx : ℕ) : ℕ := rdx / 0x10000 * 0x10000 + 0x1F0

/-- The sector that `find_file` reads in a round of its loop. -/
def findFile (v : LoaderVolume) (cluster : ℕ) : ℕ → ℕ
  | 0 => (v.lbaHeap + (cluster - 2) * v.sectors % 2 ^ 32) % 2 ^ 64
  | i + 1 => afterRead (v.findFile cluster i)

/-- The number of rounds that the loop of `find_file` takes. -/
def findRounds (v : LoaderVolume) : ℕ := min v.sectors 8

end LoaderVolume

/-! ### The kernel -/

/-- What `parse_header` finds out about the volume. -/
structure Exfat where
  top : ℕ
  table : ℕ
  heap : ℕ
  clusterCount : ℕ
  clusterShift : ℕ
  root : ℕ
  deriving DecidableEq, Repr

/-- The first sector of the table in use, for the number of tables and the flags. -/
def tableOf (s : Bytes) (base : ℕ) : Option ℕ :=
  if s 0x6E = 2 then
    some ((base + s.dword 0x50 + if s.word 0x6A % 2 = 1 then s.dword 0x54 else 0) % 2 ^ 64)
  else if s 0x6E = 1 ∧ s.word 0x6A % 2 = 0 then some ((base + s.dword 0x50) % 2 ^ 64)
  else none

/-- `exfat::parse_header`, for the position of the volume and its end in the partition table, which
is `0` if there is none. -/
def parseHeader (s : Bytes) (base top : ℕ) : Option Exfat :=
  if checkExfat s = false ∨ s.qword 0x40 ≠ base then none
  else
    let limit := (s.qword 0x40 + s.qword 0x48) % 2 ^ 64
    if top ≠ 0 ∧ limit > top then none
    else if s.dword 0x50 < 24 ∨ s.dword 0x54 = 0 ∨ s.dword 0x58 = 0 ∨ s.dword 0x5C = 0 then none
    else
      let heap := (base + s.dword 0x58) % 2 ^ 64
      (tableOf s base).bind fun table =>
        if ((2 + s.dword 0x5C) % 2 ^ 32 * 4 + 0x1FF) / SECTOR_SIZE > s.dword 0x54 then none
        else if (table + s.dword 0x54 * (s 0x6E).toNat % 2 ^ 32) % 2 ^ 64 > heap then none
        else if (heap + s.dword 0x5C * 2 ^ ((s 0x6D).toNat % 64)) % 2 ^ 64 > limit then none
        else if s.dword 0x60 < 2 then none
        else some
          { top := limit
            table := table
            heap := heap
            clusterCount := s.dword 0x5C
            clusterShift := (9 + (s 0x6D).toNat) % 2 ^ 8
            root := (if s.word 0x6A % 2 = 1 then 0x80000000 else 0) ||| s.dword 0x60 }

namespace Exfat

/-- `exfat::cluster_size` -/
def clusterSize (e : Exfat) : ℕ := 2 ^ (e.clusterShift % 32)

/-- `exfat::lba_of_fat`. The number of sectors is computed with 32 bits. -/
def lbaOfFat (e : Exfat) (sector : ℕ) : ℕ :=
  if sector < (e.clusterCount + 2 + 127) % 2 ^ 32 / 128 then (e.table + sector) % 2 ^ 64 else 0

/-- `exfat::lba_of_cluster`, without its assertion. The number of clusters before is computed with
32 bits. -/
def lbaOfCluster (e : Exfat) (cluster : ℕ) : ℕ :=
  let before := (cluster + 2 ^ 32 - 2) % 2 ^ 32
  if e.clusterCount ≤ before then 0
  else (e.heap + before * (e.clusterSize / SECTOR_SIZE)) % 2 ^ 64

end Exfat

/-! ### Agreement -/

/-- The loader and the kernel see the same volume: its parts lie at the same positions, and a sector
of a cluster is read from the same position. -/
structure Agree (v : LoaderVolume) (e : Exfat) : Prop where
  fat : v.lbaFat = e.table
  heap : v.lbaHeap = e.heap
  size : v.clusterSize = e.clusterSize
  readFile : ∀ cluster, 2 ≤ cluster → cluster < e.clusterCount + 2 →
    ∀ i < e.clusterSize / SECTOR_SIZE, v.readFile cluster i = some (e.lbaOfCluster cluster + i)
  findFile : ∀ cluster, 2 ≤ cluster → cluster < e.clusterCount + 2 →
    ∀ i < v.findRounds, v.findFile cluster i = e.lbaOfCluster cluster + i

variable {s : Bytes} {base sig top : ℕ} {v : LoaderVolume} {e : Exfat}

/-- What `exFAT_verify` finds out. -/
theorem exfatVerify_spec (h : exfatVerify s base sig = some v) :
  ∃ fat, secondFat s = some fat ∧ v.lbaFat = ((fat + s.dword 0x50) % 2 ^ 32 + base) % 2 ^ 64 ∧
    v.lbaHeap = (s.dword 0x58 + base) % 2 ^ 64 ∧
    v.clusterSize = SECTOR_SIZE * 2 ^ ((s 0x6D).toNat % 32) % 2 ^ 32
  := by
  rw [exfatVerify] at h
  split_ifs at h
  obtain ⟨fat, hfat, rfl⟩ := Option.map_eq_some_iff.mp h
  exact ⟨fat, hfat, rfl, rfl, rfl⟩

/-- What `parse_header` finds out. -/
theorem parseHeader_spec (h : parseHeader s base top = some e) :
  tableOf s base = some e.table ∧
    (e.table + s.dword 0x54 * (s 0x6E).toNat % 2 ^ 32) % 2 ^ 64 ≤ e.heap ∧
    e.heap = (base + s.dword 0x58) % 2 ^ 64 ∧
    e.clusterCount = s.dword 0x5C ∧ e.clusterCount ≠ 0 ∧
    e.clusterShift = (9 + (s 0x6D).toNat) % 2 ^ 8
  := by
  simp only [parseHeader, Option.ite_none_left_eq_some, Option.bind_eq_some_iff,
    Option.some.injEq] at h
  obtain ⟨-, -, hsizes, table, htable, -, hheap, -, -, rfl⟩ := h
  exact ⟨htable, by simp only; omega, rfl, rfl, by simp only; omega, rfl⟩

/-- The loader and the kernel find the table at the same position. -/
theorem fat_eq (hv : exfatVerify s base sig = some v) (he : parseHeader s base top = some e)
    (hbase : base < 2 ^ 32) :
  v.lbaFat = e.table
  := by
  obtain ⟨fat, hsecond, hfat, -⟩ := exfatVerify_spec hv
  obtain ⟨htable, hle, hheap, -⟩ := parseHeader_spec he
  have hcluster := Bytes.dword_lt (s := s) (i := 0x58)
  have hoffset := Bytes.dword_lt (s := s) (i := 0x50)
  have hlength := Bytes.dword_lt (s := s) (i := 0x54)
  have hsum : base + (fat + s.dword 0x50) = e.table ∧ fat < 2 ^ 32 := by
    rw [secondFat] at hsecond
    rw [tableOf] at htable
    by_cases htwo : s 0x6E = 2
    · have hone : s 0x6E ≠ 1 := by
        rw [htwo]
        decide
      rw [if_neg hone, if_pos htwo] at hsecond
      rw [if_pos htwo] at htable
      rw [Option.some.injEq] at hsecond htable
      rw [hsecond] at htable
      have hfat_lt : fat < 2 ^ 32 := by
        rw [← hsecond]
        split_ifs <;> omega
      omega
    · rw [if_neg htwo] at hsecond htable
      split_ifs at hsecond htable
      rw [Option.some.injEq] at hsecond htable
      omega
  obtain ⟨hsum, hfat_lt⟩ := hsum
  rw [hfat]
  omega

/-- The loader and the kernel find the clusters at the same position. -/
theorem heap_eq (hv : exfatVerify s base sig = some v) (he : parseHeader s base top = some e) :
  v.lbaHeap = e.heap
  := by
  obtain ⟨fat, -, -, hheap, -⟩ := exfatVerify_spec hv
  obtain ⟨-, -, hheap', -⟩ := parseHeader_spec he
  rw [hheap, hheap', Nat.add_comm]

/-! ### The size of a cluster -/

/-- The number of bits by which the size of a cluster is shifted, on the processor. -/
def shift (s : Bytes) : ℕ := (s 0x6D).toNat % 32

/-- In the loader the size of a cluster vanishes when it does not fit into 32 bits. -/
theorem clusterSize_loader (hv : exfatVerify s base sig = some v) :
  v.clusterSize = if shift s < 23 then SECTOR_SIZE * 2 ^ shift s else 0
  := by
  obtain ⟨fat, -, -, -, hsize⟩ := exfatVerify_spec hv
  have hlt : shift s < 32 := Nat.mod_lt _ (by decide)
  rw [hsize, ← shift, SECTOR_SIZE]
  split_ifs
  · interval_cases shift s <;> rfl
  · interval_cases shift s <;> rfl

/-- In the kernel the number of bits wraps around. -/
theorem clusterSize_kernel (he : parseHeader s base top = some e) :
  e.clusterSize = if shift s < 23 then SECTOR_SIZE * 2 ^ shift s else 2 ^ (shift s - 23)
  := by
  obtain ⟨-, -, -, -, -, hshift⟩ := parseHeader_spec he
  have hlt : shift s < 32 := Nat.mod_lt _ (by decide)
  have hmod : e.clusterShift % 32 = (9 + shift s) % 32 := by
    rw [hshift, shift]
    omega
  rw [Exfat.clusterSize, hmod, SECTOR_SIZE]
  split_ifs with hsmall
  · rw [Nat.mod_eq_of_lt (by omega), Nat.pow_add]
  · congr 1
    omega

/-- The loader and the kernel have the same size of a cluster when it fits into 32 bits. -/
theorem size_iff (hv : exfatVerify s base sig = some v) (he : parseHeader s base top = some e) :
  v.clusterSize = e.clusterSize ↔ shift s < 23
  := by
  rw [clusterSize_loader hv, clusterSize_kernel he]
  split_ifs with hsmall
  · exact iff_of_true rfl hsmall
  · apply iff_of_false _ hsmall
    intro heq
    exact absurd heq.symm (pow_ne_zero _ (by decide))

/-- The number of sectors in a cluster. -/
theorem sectors_eq (hv : exfatVerify s base sig = some v) (hsmall : shift s < 23) :
  v.sectors = 2 ^ shift s
  := by
  rw [LoaderVolume.sectors, clusterSize_loader hv, if_pos hsmall]
  exact Nat.mul_div_cancel_left _ (by decide)

/-! ### Where the loader and the kernel agree -/

/-- The register still has the position of the next sector only by coincidence. -/
theorem afterRead_eq_succ_iff (lba : ℕ) :
  LoaderVolume.afterRead lba = lba + 1 ↔ lba % 0x10000 = 0x1EF
  := by
  rw [LoaderVolume.afterRead]
  omega

/-- The register does not move on. -/
theorem afterRead_afterRead (lba : ℕ) :
  LoaderVolume.afterRead (LoaderVolume.afterRead lba) = LoaderVolume.afterRead lba
  := by
  simp only [LoaderVolume.afterRead]
  omega

/-- The sectors before a cluster, and in it, are so few that their number does not overflow. -/
theorem Exfat.sectors_lt {n : ℕ} (hn : n < 2 ^ 32) :
  n * (e.clusterSize / SECTOR_SIZE) < 2 ^ 55
  := by
  have hsize : e.clusterSize / SECTOR_SIZE < 2 ^ 23 := by
    have hlt : e.clusterSize < 2 ^ 32 := Nat.pow_lt_pow_right (by decide) (Nat.mod_lt _ (by decide))
    rw [SECTOR_SIZE]
    omega
  calc n * (e.clusterSize / SECTOR_SIZE) < 2 ^ 32 * 2 ^ 23 := Nat.mul_lt_mul'' hn hsize
    _ = 2 ^ 55 := by decide

/-- Where the first sector of a cluster that exists lies. -/
theorem lbaOfCluster_eq (he : parseHeader s base top = some e) (hbase : base < 2 ^ 32)
    {cluster : ℕ} (hge : 2 ≤ cluster) (hlt : cluster < e.clusterCount + 2) :
  e.lbaOfCluster cluster = e.heap + (cluster - 2) * (e.clusterSize / SECTOR_SIZE)
  := by
  obtain ⟨-, -, hheap, hcount, -⟩ := parseHeader_spec he
  have hcluster := Bytes.dword_lt (s := s) (i := 0x58)
  have hcount_lt := Bytes.dword_lt (s := s) (i := 0x5C)
  have hsectors := e.sectors_lt (n := cluster - 2) (by omega)
  have hbefore : (cluster + 2 ^ 32 - 2) % 2 ^ 32 = cluster - 2 := by omega
  rw [Exfat.lbaOfCluster, hbefore, if_neg (by omega), Nat.mod_eq_of_lt]
  omega

/-- When they agree, the position of a cluster of several sectors has a lower half that makes up for
the port number. -/
theorem Agree.coincidence (h : Agree v e) (hrounds : 1 < v.findRounds) (cluster : ℕ)
    (hge : 2 ≤ cluster) (hlt : cluster < e.clusterCount + 2) :
  e.lbaOfCluster cluster % 0x10000 = 0x1EF
  := by
  have hfirst := h.findFile cluster hge hlt 0 (by omega)
  have hsecond := h.findFile cluster hge hlt 1 hrounds
  rw [LoaderVolume.findFile, hfirst, Nat.add_zero] at hsecond
  exact (afterRead_eq_succ_iff _).mp hsecond

/-- When they agree, `find_file` does not read more than two sectors. -/
theorem Agree.findRounds_le (h : Agree v e) (hcount : e.clusterCount ≠ 0) : v.findRounds ≤ 2 := by
  by_contra hthree
  have hsecond := h.findFile 2 le_rfl (by omega) 1 (by omega)
  have hthird := h.findFile 2 le_rfl (by omega) 2 (by omega)
  rw [LoaderVolume.findFile] at hsecond
  rw [LoaderVolume.findFile, LoaderVolume.findFile, afterRead_afterRead, hsecond] at hthird
  omega

/-- For every boot sector that both accept, the loader and the kernel agree exactly if a cluster is
one sector, or if it is two and there is one cluster only, the position of which makes up for what
`read_sector` does to the register. -/
theorem agree_iff (hv : exfatVerify s base sig = some v) (he : parseHeader s base top = some e)
    (hbase : base < 2 ^ 32) :
  Agree v e ↔ shift s = 0 ∨
    (shift s = 1 ∧ s.dword 0x5C = 1 ∧ (base + s.dword 0x58) % 0x10000 = 0x1EF)
  := by
  obtain ⟨-, -, hheap, hcount, hne, -⟩ := parseHeader_spec he
  have hcluster := Bytes.dword_lt (s := s) (i := 0x58)
  have hcount_lt := Bytes.dword_lt (s := s) (i := 0x5C)
  rw [Nat.mod_eq_of_lt (by omega)] at hheap
  rw [← hcount, ← hheap]
  constructor
  · intro h
    have hsmall := (size_iff hv he).mp h.size
    have hsectors := sectors_eq hv hsmall
    rcases Nat.eq_zero_or_pos (shift s) with hzero | hpos
    · exact .inl hzero
    · right
      have hle := h.findRounds_le hne
      have hone : shift s = 1 := by
        by_contra hmore
        have hpow : 2 ^ 2 ≤ 2 ^ shift s := Nat.pow_le_pow_right (by decide) (by omega)
        rw [LoaderVolume.findRounds, hsectors] at hle
        omega
      have hrounds : 1 < v.findRounds := by
        rw [LoaderVolume.findRounds, hsectors, hone]
        decide
      have hsize : e.clusterSize / SECTOR_SIZE = 2 := by
        rw [← h.size]
        change v.sectors = 2
        rw [hsectors, hone, pow_one]
      have hfirst := h.coincidence hrounds 2 le_rfl (by omega)
      rw [lbaOfCluster_eq he hbase le_rfl (by omega), hsize] at hfirst
      refine ⟨hone, ?_, hfirst⟩
      by_contra hmore
      have hnext := h.coincidence hrounds 3 (by decide) (by omega)
      rw [lbaOfCluster_eq he hbase (by decide) (by omega), hsize] at hnext
      omega
  · intro hor
    have hsmall : shift s < 23 := by omega
    have hsize := (size_iff hv he).mpr hsmall
    have hsectors := sectors_eq hv hsmall
    have hsectors' : e.clusterSize / SECTOR_SIZE = 2 ^ shift s := by
      rw [← hsize, ← hsectors]
      rfl
    have hheap' := heap_eq hv he
    refine ⟨fat_eq hv he hbase, hheap', hsize, ?_, ?_⟩
    · intro cluster hge hlt i hi
      rw [hsectors'] at hi
      rw [LoaderVolume.readFile, lbaOfCluster_eq he hbase hge hlt, hsectors, hsectors', hheap']
      rcases hor with hzero | ⟨hone, hcount₁, -⟩
      · rw [hzero] at hi ⊢
        rw [if_neg (by omega), Option.some.injEq]
        omega
      · rw [hone] at hi ⊢
        rw [if_neg (by omega), Option.some.injEq]
        omega
    · intro cluster hge hlt i hi
      rw [LoaderVolume.findRounds, hsectors] at hi
      have hfirst : v.findFile cluster 0 = e.lbaOfCluster cluster := by
        rw [LoaderVolume.findFile, lbaOfCluster_eq he hbase hge hlt, hsectors, hsectors', hheap']
        rcases hor with hzero | ⟨hone, hcount₁, -⟩
        · rw [hzero]
          omega
        · rw [hone]
          omega
      rcases hor with hzero | ⟨hone, hcount₁, hlow⟩
      · rw [hzero] at hi
        obtain rfl : i = 0 := by omega
        exact hfirst
      · rw [hone] at hi
        obtain rfl | rfl : i = 0 ∨ i = 1 := by omega
        · exact hfirst
        · rw [LoaderVolume.findFile, hfirst, afterRead_eq_succ_iff, lbaOfCluster_eq he hbase hge hlt,
            hsectors', hone]
          rw [show cluster = 2 by omega]
          exact hlow

/-- A boot sector of a volume of four clusters at the beginning of a disk. -/
def bootSector (clusterShift : UInt8) : Bytes := fun i =>
  ([(3, 0x45), (4, 0x58), (5, 0x46), (6, 0x41), (7, 0x54), (8, 0x20), (9, 0x20), (10, 0x20),
    (0x49, 0x10), (0x50, 24), (0x54, 1), (0x58, 32), (0x5C, 4), (0x60, 4), (0x69, 1), (0x6C, 9),
    (0x6D, clusterShift), (0x6E, 1), (0x1FE, 0x55), (0x1FF, 0xAA)].lookup i).getD 0

/-- With one sector in a cluster they agree. -/
theorem agree_iff_sector :
  ∃ v e, exfatVerify (bootSector 0) 0 0 = some v ∧ parseHeader (bootSector 0) 0 0 = some e ∧
    (Agree v e ↔ shift (bootSector 0) = 0 ∨ (shift (bootSector 0) = 1 ∧
      (bootSector 0).dword 0x5C = 1 ∧ (0 + (bootSector 0).dword 0x58) % 0x10000 = 0x1EF))
  := by
  have hv : exfatVerify (bootSector 0) 0 0 = some ⟨24, 32, 0x200⟩ := rfl
  have he : parseHeader (bootSector 0) 0 0 = some ⟨0x1000, 24, 32, 4, 9, 4⟩ := by decide
  exact ⟨_, _, hv, he, agree_iff hv he (by decide)⟩

/-- With eight sectors in a cluster the loader does not find a file that is not in the first sector
of its directory. -/
theorem find_file_stuck :
  ∃ v e, exfatVerify (bootSector 3) 0 0 = some v ∧ parseHeader (bootSector 3) 0 0 = some e ∧
    ¬ Agree v e
  := by
  have hv : exfatVerify (bootSector 3) 0 0 = some ⟨24, 32, 0x1000⟩ := rfl
  have he : parseHeader (bootSector 3) 0 0 = some ⟨0x1000, 24, 32, 4, 12, 4⟩ := by decide
  refine ⟨_, _, hv, he, ?_⟩
  intro h
  exact absurd (h.findRounds_le (by decide)) (by decide)

end Boot

end UOS
