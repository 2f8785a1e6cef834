import Cofuos.Boot.Header
import Cofuos.Lib.Fault

/-!
# The search of the root directory

When the volume is mounted, `exfat::thread_init` of `kernel/filesystem/exfat.cpp` goes through the
root directory. It counts the records before the first one of type `0`, from which it takes the size
of the directory, and looks for the record of the allocation bitmap.

A round of its loop reads the first sector of a cluster and goes on to the next cluster of the chain.
The other sectors of the cluster are not read.
-/

namespace UOS

namespace Boot

/-! ### The search -/

/-- `exfat::record_per_sector` -/
def RECORD_PER_SECTOR : ℕ := 16

/-- The record at an index in a sector, the size of which is `exfat::record_size`. -/
def record (sector : Bytes) (i : ℕ) : Bytes := fun k => sector (0x20 * i + k)

/-- The first cluster of an allocation bitmap. -/
def firstCluster (r : Bytes) : ℕ := r.dword 0x14

/-- A cluster that passes the assertion of `lba_of_cluster`. -/
abbrev InRange (cluster : ℕ) : Prop := 2 ≤ cluster ∧ cluster < 0xFFFFFFF7

/-- The record is that of an allocation bitmap for a table, and it is long enough. -/
abbrev Exfat.IsBitmap (e : Exfat) (fatIndex : ℕ) (r : Bytes) : Prop :=
  r 0 = 0x81 ∧ (r 1).toNat % 2 = fatIndex ∧ (e.clusterCount + 7) % 2 ^ 32 / 8 ≤ r.qword 0x18

/-- What has been found so far. -/
structure RootScan where
  bitmap : ℕ := 0
  index : ℕ := 0
  deriving DecidableEq, Repr

/-- A record that is not the last one. -/
def RootScan.step (debug : Bool) (e : Exfat) (fatIndex : ℕ) (r : Bytes) (p : RootScan) :
    Except Fault RootScan :=
  let index := (p.index + 1) % 2 ^ 32
  if e.IsBitmap fatIndex r then do
    Fault.assert debug (InRange (firstCluster r))
    return { bitmap := e.lbaOfCluster (firstCluster r), index := index }
  else
    return { p with index := index }

/-- The loop over the records of a sector, of which so many are left. Returns whether it has been
left at a record of type `0`. -/
def scanSector (debug : Bool) (e : Exfat) (fatIndex : ℕ) (sector : Bytes) :
    ℕ → RootScan → Except Fault (Bool × RootScan)
  | 0, p => .ok (false, p)
  | n + 1, p =>
      let r := record sector (p.index % RECORD_PER_SECTOR)
      if r 0 = 0 then .ok (true, p)
      else do
        let p ← p.step debug e fatIndex r
        scanSector debug e fatIndex sector n p

/-- The loop over the clusters, which stops with a `bugcheck` when a sector is not found. -/
def scanRoot (debug : Bool) (e : Exfat) (get : ℕ → Option Bytes) (fatIndex : ℕ) :
    ℕ → ℕ → RootScan → Except Fault RootScan
  | 0, _, _ => .error .outOfFuel
  | fuel + 1, cluster, p => do
      let failed := Except.error (.bugcheck "failed reading exFAT root directory")
      Fault.assert debug (InRange cluster)
      let lba := e.lbaOfCluster cluster
      if lba = 0 then failed
      else
        match get lba with
        | none => failed
        | some sector => do
            let (found, p) ← scanSector debug e fatIndex sector RECORD_PER_SECTOR p
            if found = true then return p
            else
              let lba := e.lbaOfFat (cluster / 128)
              if lba = 0 then failed
              else
                match get lba with
                | none => failed
                | some fat =>
                    let next := fat.dword (4 * (cluster % 128))
                    if next < 0xFFFFFFF8 then scanRoot debug e get fatIndex fuel next p
                    else failed

/-- The allocation bitmap, and what the instance of the root directory is made from. -/
structure Root where
  bitmap : ℕ
  firstCluster : ℕ
  size : ℕ
  deriving DecidableEq, Repr

/-- `exfat::thread_init`, after the header has been accepted and its checksum is right. -/
def findRoot (debug : Bool) (e : Exfat) (get : ℕ → Option Bytes) (fuel : ℕ) : Except Fault Root := do
  let fatIndex := if e.root / 0x80000000 % 2 = 1 then 1 else 0
  let root := e.root % 0x80000000
  if root = 0 then .error (.bugcheck "failed locating root directory")
  else do
    let p ← scanRoot debug e get fatIndex fuel root {}
    if p.bitmap = 0 ∨ e.top ≤ p.bitmap then
      .error (.bugcheck "exFAT invalid allocation bitmap @ %x")
    else
      return { bitmap := p.bitmap, firstCluster := root, size := p.index * 0x20 % 2 ^ 32 }

/-! ### Directories -/

/-- The number of records in a cluster. -/
def Exfat.recordPerCluster (e : Exfat) : ℕ := e.clusterSize / SECTOR_SIZE * RECORD_PER_SECTOR

/-- The record of a directory at an index. -/
def recordAt (e : Exfat) (content : ℕ → Bytes) (chain : List ℕ) (i : ℕ) : Bytes :=
  record (content (e.lbaOfCluster (chain.getD (i / e.recordPerCluster) 0)
    + i % e.recordPerCluster / RECORD_PER_SECTOR)) (i % RECORD_PER_SECTOR)

/-- The record at an index when only the first sectors of the clusters are counted. -/
def firstRecordAt (e : Exfat) (content : ℕ → Bytes) (chain : List ℕ) (i : ℕ) : Bytes :=
  record (content (e.lbaOfCluster (chain.getD (i / RECORD_PER_SECTOR) 0))) (i % RECORD_PER_SECTOR)

/-- The entry of a cluster in the table in use. -/
def fatEntry (e : Exfat) (content : ℕ → Bytes) (cluster : ℕ) : ℕ :=
  (content (e.table + cluster / 128)).dword (4 * (cluster % 128))

/-- The table in use, by the flags of the header. -/
def activeFat (s : Bytes) : ℕ := s.word 0x6A % 2

/-- A root directory, the records of which end with one of type `0`. One of the records before is the
last one of the allocation bitmap. -/
structure RootDirectory (s : Bytes) (e : Exfat) (content : ℕ → Bytes) where
  chain : List ℕ
  records : ℕ
  bitmap : ℕ
  head : chain.head? = some (s.dword 0x60)
  cluster : ∀ c ∈ chain, InRange c ∧ c < e.clusterCount + 2
  next : ∀ i, i + 1 < chain.length → fatEntry e content (chain.getD i 0) = chain.getD (i + 1) 0
  tail : 0xFFFFFFF8 ≤ fatEntry e content (chain.getD (chain.length - 1) 0)
  room : records < chain.length * e.recordPerCluster
  used : ∀ i < records, recordAt e content chain i 0 ≠ 0
  ends : recordAt e content chain records 0 = 0
  bitmap_lt : bitmap < records
  isBitmap : e.IsBitmap (activeFat s) (recordAt e content chain bitmap)
  last : ∀ i, bitmap < i → i < records → ¬ e.IsBitmap (activeFat s) (recordAt e content chain i)
  inRange : ∀ i < records, e.IsBitmap (activeFat s) (recordAt e content chain i) →
    InRange (firstCluster (recordAt e content chain i)) ∧
      firstCluster (recordAt e content chain i) < e.clusterCount + 2

/-- A record that is passed over. -/
abbrev Passes (debug : Bool) (e : Exfat) (fatIndex : ℕ) (r : Bytes) : Prop :=
  r 0 ≠ 0 ∧ (debug = true → e.IsBitmap fatIndex r → InRange (firstCluster r))

/-- The first sectors of the clusters hold so many records before one of type `0`, and the clusters up
to there are found. -/
structure FirstSectors (debug : Bool) (e : Exfat) (fatIndex : ℕ) (content : ℕ → Bytes)
    (chain : List ℕ) (m : ℕ) : Prop where
  room : m / RECORD_PER_SECTOR < chain.length
  linked : ∀ i < m / RECORD_PER_SECTOR, e.lbaOfFat (chain.getD i 0 / 128) ≠ 0
  passes : ∀ i < m, Passes debug e fatIndex (firstRecordAt e content chain i)
  ends : firstRecordAt e content chain m 0 = 0

/-- The last allocation bitmap in the first sectors has this position. -/
def LastBitmap (e : Exfat) (fatIndex : ℕ) (content : ℕ → Bytes) (chain : List ℕ) (m lba : ℕ) :
    Prop :=
  ∃ k < m, e.IsBitmap fatIndex (firstRecordAt e content chain k) ∧
    (∀ i, k < i → i < m → ¬ e.IsBitmap fatIndex (firstRecordAt e content chain i)) ∧
    e.lbaOfCluster (firstCluster (firstRecordAt e content chain k)) = lba

namespace RootDirectory

variable {s : Bytes} {e : Exfat} {content : ℕ → Bytes}

/-- The first sector of the allocation bitmap. -/
def lba (d : RootDirectory s e content) : ℕ :=
  e.lbaOfCluster (firstCluster (recordAt e content d.chain d.bitmap))

/-- What `thread_init` should find. -/
def root (d : RootDirectory s e content) : Root :=
  { bitmap := d.lba, firstCluster := s.dword 0x60, size := 0x20 * d.records }

/-- The directory is such that `thread_init` finds the right things. Either a cluster is a sector,
or all records are in the first sector, or the first sectors of the clusters happen to hold a
directory of the same size with the same allocation bitmap. -/
structure Scannable (d : RootDirectory s e content) (debug : Bool) : Prop where
  root : s.dword 0x60 < 2 ^ 31
  records : d.records < 2 ^ 27
  inside : d.lba < e.top
  sectors :
    (e.clusterSize = SECTOR_SIZE ∧
      ∀ i < d.records / RECORD_PER_SECTOR, e.lbaOfFat (d.chain.getD i 0 / 128) ≠ 0) ∨
    d.records < RECORD_PER_SECTOR ∨
    ∃ m, m % 2 ^ 27 = d.records ∧ FirstSectors debug e (activeFat s) content d.chain m ∧
      LastBitmap e (activeFat s) content d.chain m d.lba

end RootDirectory

open Header

variable {s : Bytes} {base top : ℕ} {e : Exfat} {content : ℕ → Bytes} {debug : Bool}
  {fatIndex : ℕ} {chain : List ℕ} {r : Bytes} {p p' : RootScan} {m q : ℕ}

/-! ### A sector -/

/-- The state after a record. -/
def RootScan.next (e : Exfat) (fatIndex : ℕ) (r : Bytes) (p : RootScan) : RootScan where
  bitmap := if e.IsBitmap fatIndex r then e.lbaOfCluster (firstCluster r) else p.bitmap
  index := (p.index + 1) % 2 ^ 32

/-- A record is passed over when the assertion holds. -/
theorem RootScan.step_eq_ok_iff :
  p.step debug e fatIndex r = .ok p' ↔
    (debug = true → e.IsBitmap fatIndex r → InRange (firstCluster r)) ∧
      p' = p.next e fatIndex r
  := by
  rw [RootScan.step, RootScan.next]
  by_cases hbitmap : e.IsBitmap fatIndex r
  · rw [if_pos hbitmap, if_pos hbitmap, Except.bind_eq_ok_iff]
    constructor
    · rintro ⟨u, hassert, heq⟩
      cases heq
      exact ⟨fun hdebug _ => Fault.assert_eq_ok_iff.mp hassert hdebug, rfl⟩
    · rintro ⟨hassert, rfl⟩
      exact ⟨(), Fault.assert_eq_ok fun hdebug => hassert hdebug hbitmap, rfl⟩
  · rw [if_neg hbitmap, if_neg hbitmap]
    constructor
    · intro heq
      cases heq
      exact ⟨fun _ hat => absurd hat hbitmap, rfl⟩
    · rintro ⟨-, rfl⟩
      rfl

/-- What has been found after so many records of the first sectors. -/
def foundAfter (e : Exfat) (fatIndex : ℕ) (content : ℕ → Bytes) (chain : List ℕ) : ℕ → RootScan
  | 0 => {}
  | m + 1 =>
      (foundAfter e fatIndex content chain m).next e fatIndex (firstRecordAt e content chain m)

theorem foundAfter_index : (foundAfter e fatIndex content chain m).index = m % 2 ^ 32 := by
  induction m with
  | zero => rfl
  | succ m ih =>
      rw [foundAfter, RootScan.next]
      dsimp only
      rw [ih]
      omega

/-- The position that has been found is that of the last allocation bitmap. -/
theorem foundAfter_bitmap {lba : ℕ} (hlba : lba ≠ 0) :
  (foundAfter e fatIndex content chain m).bitmap = lba ↔
    LastBitmap e fatIndex content chain m lba
  := by
  induction m with
  | zero =>
      constructor
      · intro h
        exact absurd h.symm hlba
      · rintro ⟨k, hk, -⟩
        cases hk
  | succ m ih =>
      rw [foundAfter, RootScan.next]
      dsimp only
      by_cases hbitmap : e.IsBitmap fatIndex (firstRecordAt e content chain m)
      · rw [if_pos hbitmap]
        constructor
        · intro heq
          refine ⟨m, Nat.lt_succ_self m, hbitmap, ?_, heq⟩
          intro i hi hlt
          omega
        · rintro ⟨k, hk, -, hlast, heq⟩
          obtain rfl : k = m := by
            by_contra hne
            apply hlast m _ (Nat.lt_succ_self m) hbitmap
            omega
          exact heq
      · rw [if_neg hbitmap, ih]
        constructor
        · rintro ⟨k, hk, hat, hlast, heq⟩
          refine ⟨k, by omega, hat, ?_, heq⟩
          intro i hi hlt
          rcases Nat.lt_succ_iff_lt_or_eq.mp hlt with hlt | rfl
          · apply hlast i hi hlt
          · exact hbitmap
        · rintro ⟨k, hk, hat, hlast, heq⟩
          have hne : k ≠ m := by
            rintro rfl
            apply hbitmap hat
          exact ⟨k, by omega, hat, fun i hi hlt => hlast i hi (by omega), heq⟩

/-- The loop over a sector stops at the first record of type `0`, or passes all records. -/
theorem scanSector_eq_ok_iff {k n : ℕ} {found : Bool} (hk : k + n = RECORD_PER_SECTOR) :
  scanSector debug e fatIndex (content (e.lbaOfCluster (chain.getD q 0))) n
      (foundAfter e fatIndex content chain (RECORD_PER_SECTOR * q + k)) = .ok (found, p) ↔
    (found = true ∧ ∃ m, RECORD_PER_SECTOR * q + k ≤ m ∧ m < RECORD_PER_SECTOR * (q + 1) ∧
      (∀ i, RECORD_PER_SECTOR * q + k ≤ i → i < m →
        Passes debug e fatIndex (firstRecordAt e content chain i)) ∧
      firstRecordAt e content chain m 0 = 0 ∧ p = foundAfter e fatIndex content chain m) ∨
    (found = false ∧
      (∀ i, RECORD_PER_SECTOR * q + k ≤ i → i < RECORD_PER_SECTOR * (q + 1) →
        Passes debug e fatIndex (firstRecordAt e content chain i)) ∧
      p = foundAfter e fatIndex content chain (RECORD_PER_SECTOR * (q + 1)))
  := by
  have h16 : RECORD_PER_SECTOR = 16 := rfl
  have hnext := Nat.mul_add_one RECORD_PER_SECTOR q
  induction n generalizing k with
  | zero =>
      obtain rfl : k = RECORD_PER_SECTOR := hk
      rw [scanSector, ← Nat.mul_add_one]
      constructor
      · intro heq
        cases heq
        exact .inr ⟨rfl, fun i hi hlt => by omega, rfl⟩
      · rintro (⟨-, m, hle, hlt, -⟩ | ⟨rfl, -, rfl⟩)
        · omega
        · rfl
  | succ n ih =>
      have hrecord : record (content (e.lbaOfCluster (chain.getD q 0)))
          ((foundAfter e fatIndex content chain (RECORD_PER_SECTOR * q + k)).index
            % RECORD_PER_SECTOR)
          = firstRecordAt e content chain (RECORD_PER_SECTOR * q + k) := by
        have hsector : (RECORD_PER_SECTOR * q + k) / RECORD_PER_SECTOR = q := by
          rw [h16]
          omega
        rw [firstRecordAt, foundAfter_index, hsector, h16, Nat.mod_mod_of_dvd _ (by decide)]
      rw [scanSector, hrecord]
      by_cases hend : firstRecordAt e content chain (RECORD_PER_SECTOR * q + k) 0 = 0
      · rw [if_pos hend]
        constructor
        · intro heq
          cases heq
          exact .inl ⟨rfl, _, le_rfl, by omega, fun i hi hlt => by omega, hend, rfl⟩
        · rintro (⟨rfl, m, hle, -, hpasses, -, rfl⟩ | ⟨-, hpasses, -⟩)
          · rcases hle.lt_or_eq with hlt | rfl
            · exact absurd hend (hpasses _ le_rfl hlt).1
            · rfl
          · exact absurd hend (hpasses _ le_rfl (by omega)).1
      · rw [if_neg hend, Except.bind_eq_ok_iff]
        have hstep : ∀ p', (foundAfter e fatIndex content chain (RECORD_PER_SECTOR * q + k)).step
            debug e fatIndex (firstRecordAt e content chain (RECORD_PER_SECTOR * q + k)) = .ok p' ↔
            Passes debug e fatIndex (firstRecordAt e content chain (RECORD_PER_SECTOR * q + k)) ∧
              p' = foundAfter e fatIndex content chain (RECORD_PER_SECTOR * q + (k + 1)) := by
          intro p'
          rw [RootScan.step_eq_ok_iff]
          exact and_congr_left' ⟨fun hassert => ⟨hend, hassert⟩, And.right⟩
        simp only [hstep]
        constructor
        · rintro ⟨_, ⟨hpass, rfl⟩, hloop⟩
          have hrest := (ih (k := k + 1) (by omega)).mp hloop
          have hfirst : ∀ {bound}, (∀ i, RECORD_PER_SECTOR * q + (k + 1) ≤ i → i < bound →
              Passes debug e fatIndex (firstRecordAt e content chain i)) →
              ∀ i, RECORD_PER_SECTOR * q + k ≤ i → i < bound →
                Passes debug e fatIndex (firstRecordAt e content chain i) := by
            intro bound hlater i hi hlt
            rcases hi.lt_or_eq with hgt | rfl
            · apply hlater i (by omega) hlt
            · exact hpass
          rcases hrest with ⟨hfound, m, hle, hlt, hpasses, hends, hp⟩ | ⟨hfound, hpasses, hp⟩
          · exact .inl ⟨hfound, m, by omega, hlt, hfirst hpasses, hends, hp⟩
          · exact .inr ⟨hfound, hfirst hpasses, hp⟩
        · rintro (⟨hfound, m, hle, hlt, hpasses, hends, hp⟩ | ⟨hfound, hpasses, hp⟩)
          · have hne : m ≠ RECORD_PER_SECTOR * q + k := by
              rintro rfl
              apply hend hends
            refine ⟨_, ⟨hpasses _ le_rfl (by omega), rfl⟩, (ih (by omega)).mpr (.inl ?_)⟩
            exact ⟨hfound, m, by omega, hlt, fun i hi hlt' => hpasses i (by omega) hlt', hends, hp⟩
          · refine ⟨_, ⟨hpasses _ le_rfl (by omega), rfl⟩, (ih (by omega)).mpr (.inr ?_)⟩
            exact ⟨hfound, fun i hi hlt' => hpasses i (by omega) hlt', hp⟩

/-! ### The clusters -/

/-- Where the first sector of a cluster lies is not `0`. -/
theorem lbaOfCluster_pos (he : parseHeader s base top = some e) (hbase : base < 2 ^ 32) {cluster : ℕ}
    (hge : 2 ≤ cluster) (hlt : cluster < e.clusterCount + 2) :
  0 < e.lbaOfCluster cluster
  := by
  rw [lbaOfCluster_eq he hbase hge hlt]
  obtain ⟨-, -, ⟨-, -, hoffset, -⟩, -, -, -, -, -, rfl⟩ := parseHeader_eq_some_iff.mp he
  have hcluster := clusterOffset_lt (s := s)
  have hheap : (found s base).heap = base + clusterOffset s := Nat.mod_eq_of_lt (by omega)
  omega

/-- Where the sector of an entry lies, if it is in the table. -/
theorem lbaOfFat_eq (he : parseHeader s base top = some e) (hbase : base < 2 ^ 32) {sector : ℕ}
    (h : e.lbaOfFat sector ≠ 0) :
  e.lbaOfFat sector = e.table + sector
  := by
  have htable : e.table < 2 ^ 34 := by
    obtain ⟨-, -, -, -, -, -, -, -, rfl⟩ := parseHeader_eq_some_iff.mp he
    have hoffset : fatOffset s < 2 ^ 32 := Bytes.dword_lt
    have hlength : fatLength s < 2 ^ 32 := Bytes.dword_lt
    have hactive : active s ≤ fatLength s := by
      rw [active]
      split_ifs <;> omega
    have hlt : base + fatOffset s + active s < 2 ^ 34 := by omega
    exact lt_of_le_of_lt (Nat.mod_le _ _) hlt
  rw [Exfat.lbaOfFat] at h ⊢
  split_ifs at h ⊢ with hsector
  · rw [Nat.mod_eq_of_lt]
    omega
  · exact absurd rfl h

/-- A cluster of a directory by its index. -/
theorem RootDirectory.cluster_getD (d : RootDirectory s e content) (hq : q < d.chain.length) :
  InRange (d.chain.getD q 0) ∧ d.chain.getD q 0 < e.clusterCount + 2
  := by
  rw [List.getD_eq_getElem?_getD, List.getElem?_eq_getElem hq, Option.getD_some]
  apply d.cluster _ (List.getElem_mem hq)

/-- A round of the loop over the clusters ends at a record of type `0`, or goes on with the next
cluster. -/
theorem RootDirectory.scanRoot_succ (he : parseHeader s base top = some e) (hbase : base < 2 ^ 32)
    (d : RootDirectory s e content) (hq : q < d.chain.length) (fuel : ℕ) :
  scanRoot debug e (fun lba => some (content lba)) fatIndex (fuel + 1) (d.chain.getD q 0)
      (foundAfter e fatIndex content d.chain (RECORD_PER_SECTOR * q)) = .ok p ↔
    (∃ m, RECORD_PER_SECTOR * q ≤ m ∧ m < RECORD_PER_SECTOR * (q + 1) ∧
      (∀ i, RECORD_PER_SECTOR * q ≤ i → i < m →
        Passes debug e fatIndex (firstRecordAt e content d.chain i)) ∧
      firstRecordAt e content d.chain m 0 = 0 ∧ p = foundAfter e fatIndex content d.chain m) ∨
    ((∀ i, RECORD_PER_SECTOR * q ≤ i → i < RECORD_PER_SECTOR * (q + 1) →
        Passes debug e fatIndex (firstRecordAt e content d.chain i)) ∧
      e.lbaOfFat (d.chain.getD q 0 / 128) ≠ 0 ∧ q + 1 < d.chain.length ∧
      scanRoot debug e (fun lba => some (content lba)) fatIndex fuel (d.chain.getD (q + 1) 0)
        (foundAfter e fatIndex content d.chain (RECORD_PER_SECTOR * (q + 1))) = .ok p)
  := by
  obtain ⟨hrange, hcount⟩ := d.cluster_getD hq
  have hlba := lbaOfCluster_pos he hbase hrange.1 hcount
  have hnext := Nat.mul_add_one RECORD_PER_SECTOR q
  rw [scanRoot, Fault.assert_eq_ok fun _ => hrange, Except.ok_bind, if_neg hlba.ne']
  dsimp only
  rw [Except.bind_eq_ok_iff]
  constructor
  · rintro ⟨⟨found, p'⟩, hscan, hrest⟩
    rcases (scanSector_eq_ok_iff (k := 0) (Nat.zero_add _)).mp hscan with
      ⟨rfl, m, hle, hlt, hpasses, hends, rfl⟩ | ⟨rfl, hpasses, rfl⟩
    · cases hrest
      exact .inl ⟨m, hle, hlt, hpasses, hends, rfl⟩
    · right
      rw [if_neg Bool.false_ne_true] at hrest
      split_ifs at hrest with hfat hentry
      rw [lbaOfFat_eq he hbase hfat] at hentry hrest
      have hlast : q + 1 < d.chain.length := by
        by_contra hlast
        have htail := d.tail
        rw [show d.chain.length - 1 = q by omega, fatEntry] at htail
        exact absurd hentry (Nat.not_lt.mpr htail)
      refine ⟨hpasses, hfat, hlast, ?_⟩
      rw [← d.next q hlast]
      exact hrest
  · rintro (⟨m, hle, hlt, hpasses, hends, rfl⟩ | ⟨hpasses, hfat, hlast, hrest⟩)
    · exact ⟨(true, _), (scanSector_eq_ok_iff (k := 0) (Nat.zero_add _)).mpr
        (.inl ⟨rfl, m, hle, hlt, hpasses, hends, rfl⟩), rfl⟩
    · refine ⟨(false, _), (scanSector_eq_ok_iff (k := 0) (Nat.zero_add _)).mpr
        (.inr ⟨rfl, hpasses, rfl⟩), ?_⟩
      have hentry := d.next q hlast
      have hlink := (d.cluster_getD hlast).1.2
      rw [← hentry] at hrest hlink
      dsimp only
      rw [if_neg Bool.false_ne_true, if_neg hfat, lbaOfFat_eq he hbase hfat]
      rw [fatEntry] at hlink hrest
      rw [if_pos (by omega)]
      exact hrest

/-- The loop over the clusters, from one of them on, ends at a record of type `0` exactly if the first
sectors hold one before the chain ends. -/
theorem RootDirectory.scanRoot_eq_ok_iff (he : parseHeader s base top = some e)
    (hbase : base < 2 ^ 32) (d : RootDirectory s e content) (hq : q < d.chain.length) :
  (∃ fuel, scanRoot debug e (fun lba => some (content lba)) fatIndex fuel (d.chain.getD q 0)
      (foundAfter e fatIndex content d.chain (RECORD_PER_SECTOR * q)) = .ok p) ↔
    ∃ m, RECORD_PER_SECTOR * q ≤ m ∧ m / RECORD_PER_SECTOR < d.chain.length ∧
      (∀ i, q ≤ i → i < m / RECORD_PER_SECTOR → e.lbaOfFat (d.chain.getD i 0 / 128) ≠ 0) ∧
      (∀ i, RECORD_PER_SECTOR * q ≤ i → i < m →
        Passes debug e fatIndex (firstRecordAt e content d.chain i)) ∧
      firstRecordAt e content d.chain m 0 = 0 ∧ p = foundAfter e fatIndex content d.chain m
  := by
  have hin : ∀ {m q : ℕ}, RECORD_PER_SECTOR * q ≤ m → m < RECORD_PER_SECTOR * (q + 1) →
      m / RECORD_PER_SECTOR = q := fun hle hlt => Nat.div_eq_of_lt_le (by rwa [Nat.mul_comm])
    (by rwa [Nat.mul_comm])
  have hpos : 0 < RECORD_PER_SECTOR := by decide
  constructor
  · rintro ⟨fuel, h⟩
    induction fuel generalizing q with
    | zero => cases h
    | succ fuel ih =>
        have hnext := Nat.mul_add_one RECORD_PER_SECTOR q
        rcases (d.scanRoot_succ he hbase hq fuel).mp h with
          ⟨m, hle, hlt, hpasses, hends, hp⟩ | ⟨hpasses, hfat, hlast, hrest⟩
        · have hat := hin hle hlt
          exact ⟨m, hle, by omega, fun i hi hlt' => by omega, hpasses, hends, hp⟩
        · obtain ⟨m, hle, hroom, hlinked, hlater, hends, hp⟩ := ih hlast hrest
          refine ⟨m, by omega, hroom, ?_, ?_, hends, hp⟩
          · intro i hi hlt
            rcases hi.lt_or_eq with hgt | rfl
            · apply hlinked i hgt hlt
            · exact hfat
          · intro i hi hlt
            by_cases hin : i < RECORD_PER_SECTOR * (q + 1)
            · apply hpasses i hi hin
            · apply hlater i (by omega) hlt
  · rintro ⟨m, hle, hroom, hlinked, hpasses, hends, hp⟩
    obtain ⟨n, hn⟩ : ∃ n, m / RECORD_PER_SECTOR = q + n := by
      have : q ≤ m / RECORD_PER_SECTOR :=
        (Nat.le_div_iff_mul_le hpos).mpr (by rwa [Nat.mul_comm])
      exact ⟨m / RECORD_PER_SECTOR - q, by omega⟩
    use n + 1
    induction n generalizing q with
    | zero =>
        apply (d.scanRoot_succ he hbase hq 0).mpr
        have hlt := Nat.lt_mul_div_succ m hpos
        rw [hn, Nat.add_zero] at hlt
        exact .inl ⟨m, hle, hlt, hpasses, hends, hp⟩
    | succ n ih =>
        apply (d.scanRoot_succ he hbase hq (n + 1)).mpr
        have hnext := Nat.mul_add_one RECORD_PER_SECTOR q
        have hle' : RECORD_PER_SECTOR * (q + 1) ≤ m := by
          rw [Nat.mul_comm]
          exact (Nat.le_div_iff_mul_le hpos).mp (by omega)
        right
        refine ⟨fun i hi hlt => hpasses i hi (by omega), hlinked q le_rfl (by omega), by omega, ?_⟩
        apply ih (by omega) hle' _ _ (by omega)
        · intro i hi hlt
          apply hlinked i (by omega) hlt
        · intro i hi hlt
          apply hpasses i (by omega) hlt

/-! ### The root directory -/

/-- The first cluster of the root directory, without the bit of the table in use. -/
theorem root_mod (he : parseHeader s base top = some e) : e.root % 2 ^ 31 = s.dword 0x60 % 2 ^ 31 := by
  obtain ⟨-, -, -, -, -, -, -, -, rfl⟩ := parseHeader_eq_some_iff.mp he
  rw [found]
  dsimp only
  rw [Nat.or_mod_two_pow]
  split_ifs <;> simp

/-- The table in use, if the bit is free. -/
theorem root_div (he : parseHeader s base top = some e) (hroot : s.dword 0x60 < 2 ^ 31) :
  (if e.root / 0x80000000 % 2 = 1 then 1 else 0) = activeFat s
  := by
  obtain ⟨-, -, -, -, -, -, -, -, rfl⟩ := parseHeader_eq_some_iff.mp he
  rw [found, activeFat]
  dsimp only
  by_cases hactive : s.word 0x6A % 2 = 1
  · have hor : 0x80000000 ||| s.dword 0x60 = 0x80000000 + s.dword 0x60 :=
      (Nat.two_pow_add_eq_or_of_lt hroot 1).symm
    rw [if_pos hactive, hor, if_pos (by omega), hactive]
  · rw [if_neg hactive, Nat.zero_or, if_neg (by omega)]
    omega

/-- What `thread_init` finds out is what the first sectors of the clusters hold. -/
theorem RootDirectory.findRoot_eq_ok_iff (he : parseHeader s base top = some e)
    (hbase : base < 2 ^ 32) (d : RootDirectory s e content) :
  (∃ fuel, findRoot debug e (fun lba => some (content lba)) fuel = .ok d.root) ↔
    s.dword 0x60 < 2 ^ 31 ∧ d.records < 2 ^ 27 ∧ d.lba < e.top ∧
    ∃ m, m % 2 ^ 27 = d.records ∧ FirstSectors debug e (activeFat s) content d.chain m ∧
      LastBitmap e (activeFat s) content d.chain m d.lba
  := by
  have hmod := root_mod he
  have hlength : 0 < d.chain.length := by
    have := d.head
    cases hchain : d.chain with
    | nil => rw [hchain] at this; cases this
    | cons c l => exact Nat.succ_pos _
  have hhead : d.chain.getD 0 0 = s.dword 0x60 := by
    rw [List.getD_eq_getElem?_getD, ← List.head?_eq_getElem?, d.head, Option.getD_some]
  have hlba : d.lba ≠ 0 := by
    obtain ⟨hrange, hlt⟩ := d.inRange _ d.bitmap_lt d.isBitmap
    exact (lbaOfCluster_pos he hbase hrange.1 hlt).ne'
  have hroot : s.dword 0x60 ≠ 0 := by
    have := (d.cluster_getD hlength).1.1
    omega
  have hmod : e.root % 0x80000000 = s.dword 0x60 % 2 ^ 31 := root_mod he
  constructor
  · rintro ⟨fuel, h⟩
    rw [findRoot] at h
    by_cases hzero : e.root % 0x80000000 = 0
    · rw [if_pos hzero] at h
      cases h
    rw [if_neg hzero] at h
    obtain ⟨p, hp, h⟩ := Except.bind_eq_ok_iff.mp h
    split_ifs at h with hbad
    have hfound := Except.ok.inj h
    obtain ⟨hbitmap, hfirst, hsize⟩ : p.bitmap = d.lba ∧ e.root % 0x80000000 = s.dword 0x60 ∧
        p.index * 0x20 % 2 ^ 32 = 0x20 * d.records := by
      rw [RootDirectory.root] at hfound
      exact ⟨congrArg Root.bitmap hfound, congrArg Root.firstCluster hfound,
        congrArg Root.size hfound⟩
    have hsmall : s.dword 0x60 < 2 ^ 31 := by omega
    rw [root_div he hsmall, hfirst, ← hhead] at hp
    obtain ⟨m, -, hroom, hlinked, hpasses, hends, rfl⟩ :=
      (d.scanRoot_eq_ok_iff he hbase hlength).mp ⟨fuel, hp⟩
    rw [foundAfter_index] at hsize
    refine ⟨hsmall, by omega, by omega, m, by omega, ⟨hroom, ?_, ?_, hends⟩, ?_⟩
    · intro i hi
      apply hlinked i (Nat.zero_le i) hi
    · intro i hi
      apply hpasses i (Nat.zero_le i) hi
    · exact (foundAfter_bitmap hlba).mp hbitmap
  · rintro ⟨hsmall, hrecords, hinside, m, hm, ⟨hroom, hlinked, hpasses, hends⟩, hlast⟩
    obtain ⟨fuel, hp⟩ := (d.scanRoot_eq_ok_iff he hbase hlength).mpr
      ⟨m, Nat.zero_le m, hroom, fun i _ hi => hlinked i hi, fun i _ hi => hpasses i hi, hends, rfl⟩
    use fuel
    have hbitmap := (foundAfter_bitmap hlba).mpr hlast
    rw [hhead] at hp
    rw [findRoot, root_div he hsmall, hmod, Nat.mod_eq_of_lt hsmall, if_neg hroot]
    change (scanRoot debug e (fun lba => some (content lba)) (activeFat s) fuel (s.dword 0x60)
      (foundAfter e (activeFat s) content d.chain (RECORD_PER_SECTOR * 0)) >>= _) = _
    rw [hp, Except.ok_bind, hbitmap, if_neg (by omega), RootDirectory.root, foundAfter_index,
      show m % 2 ^ 32 * 0x20 % 2 ^ 32 = 0x20 * d.records by omega]
    rfl

/-- A directory whose records are found in the first sectors is of the size that they have. -/
theorem RootDirectory.firstSectors (d : RootDirectory s e content)
    (hsame : ∀ i ≤ d.records, firstRecordAt e content d.chain i = recordAt e content d.chain i)
    (hroom : d.records / RECORD_PER_SECTOR < d.chain.length)
    (hlinked : ∀ i < d.records / RECORD_PER_SECTOR, e.lbaOfFat (d.chain.getD i 0 / 128) ≠ 0) :
  FirstSectors debug e (activeFat s) content d.chain d.records ∧
    LastBitmap e (activeFat s) content d.chain d.records d.lba
  := by
  have hlt := d.bitmap_lt
  refine ⟨⟨hroom, hlinked, ?_, ?_⟩, d.bitmap, hlt, ?_, ?_, ?_⟩
  · intro i hi
    rw [hsame i hi.le]
    exact ⟨d.used i hi, fun _ hat => (d.inRange i hi hat).1⟩
  · rw [hsame _ le_rfl]
    exact d.ends
  · rw [hsame _ hlt.le]
    exact d.isBitmap
  · intro i hi hlt'
    rw [hsame i hlt'.le]
    apply d.last i hi hlt'
  · rw [hsame _ hlt.le, RootDirectory.lba]

/-- For every volume and every root directory in it, `thread_init` finds the allocation bitmap and the
size of the directory exactly if the first cluster leaves the bit of the table free, the size fits
into 32 bits, and the first sectors of the clusters are enough: a cluster is a sector, or the
records are in the first one, or the other sectors happen not to matter. -/
theorem findRoot_iff (debug : Bool) (he : parseHeader s base top = some e) (hbase : base < 2 ^ 32)
    (d : RootDirectory s e content) :
  (∃ fuel, findRoot debug e (fun lba => some (content lba)) fuel = .ok d.root) ↔ d.Scannable debug
  := by
  rw [d.findRoot_eq_ok_iff he hbase]
  constructor
  · rintro ⟨hroot, hrecords, hinside, hsectors⟩
    exact ⟨hroot, hrecords, hinside, .inr (.inr hsectors)⟩
  · rintro ⟨hroot, hrecords, hinside, hsectors⟩
    refine ⟨hroot, hrecords, hinside, ?_⟩
    have hroom := d.room
    have h16 : RECORD_PER_SECTOR = 16 := rfl
    rcases hsectors with ⟨hsize, hlinked⟩ | hfew | hsectors
    · have hper : e.recordPerCluster = RECORD_PER_SECTOR := by
        rw [Exfat.recordPerCluster, hsize]
        rfl
      rw [hper] at hroom
      refine ⟨d.records, Nat.mod_eq_of_lt hrecords, d.firstSectors ?_ ?_ hlinked⟩
      · intro i _
        rw [firstRecordAt, recordAt, hper, Nat.div_eq_of_lt (Nat.mod_lt _ (by decide)), Nat.add_zero]
      · exact Nat.div_lt_of_lt_mul (by rwa [Nat.mul_comm])
    · have hper : RECORD_PER_SECTOR ≤ e.recordPerCluster := by
        rw [Exfat.recordPerCluster] at hroom ⊢
        apply Nat.le_mul_of_pos_left
        apply Nat.pos_of_ne_zero
        intro hzero
        rw [hzero, Nat.zero_mul, Nat.mul_zero] at hroom
        cases hroom
      have hlength : 0 < d.chain.length := by
        apply Nat.pos_of_ne_zero
        intro hzero
        rw [hzero, Nat.zero_mul] at hroom
        cases hroom
      refine ⟨d.records, Nat.mod_eq_of_lt hrecords, d.firstSectors ?_ ?_ ?_⟩
      · intro i hi
        rw [firstRecordAt, recordAt, Nat.div_eq_of_lt (show i < RECORD_PER_SECTOR by omega),
          Nat.div_eq_of_lt (show i < e.recordPerCluster by omega),
          Nat.mod_eq_of_lt (show i < e.recordPerCluster by omega),
          Nat.div_eq_of_lt (show i < RECORD_PER_SECTOR by omega), Nat.add_zero]
      · rwa [Nat.div_eq_of_lt hfew]
      · intro i hi
        rw [Nat.div_eq_of_lt hfew] at hi
        cases hi
    · exact hsectors

/-- A volume whose root directory begins at a sector and has so many records, the first of which is
that of the allocation bitmap. -/
def rootVolume (root records : ℕ) : ℕ → Bytes := fun lba i =>
  if lba = 24 then (if 16 ≤ i ∧ i < 20 then 0xFF else 0)
  else
    let pos := (lba - root) * SECTOR_SIZE + i
    (([(0, 0x81), (0x14, 2), (0x18, 1)].lookup pos).getD
      (if pos % 0x20 = 0 ∧ pos < 0x20 * records then 0x05 else 0))

/-- In a volume whose clusters are sectors, a directory with one record is found. -/
theorem findRoot_iff_sector :
  ∃ e, parseHeader (bootSector 0) 0 0 = some e ∧
    ∃ d : RootDirectory (bootSector 0) e (rootVolume 34 1),
      ((∃ fuel, findRoot true e (fun lba => some (rootVolume 34 1 lba)) fuel = .ok d.root) ↔
        d.Scannable true) ∧ d.root = ⟨32, 4, 32⟩
  := by
  have he : parseHeader (bootSector 0) 0 0 = some ⟨0x1000, 24, 32, 4, 9, 4⟩ := by decide
  let d : RootDirectory (bootSector 0) ⟨0x1000, 24, 32, 4, 9, 4⟩ (rootVolume 34 1) :=
    { chain := [4]
      records := 1
      bitmap := 0
      head := rfl
      cluster := by decide
      next := fun i hi => by simp at hi
      tail := by decide
      room := by decide
      used := by decide
      ends := rfl
      bitmap_lt := by decide
      isBitmap := by decide
      last := fun i hi hlt => by omega
      inRange := by decide }
  exact ⟨_, he, d, findRoot_iff true he (by decide) d, by decide +kernel⟩

/-- In a volume whose clusters are two sectors, a directory with records in both of them is not
found. -/
theorem second_sector_skipped :
  ∃ e, parseHeader (bootSector 1) 0 0 = some e ∧
    ∃ d : RootDirectory (bootSector 1) e (rootVolume 36 17),
      ∀ debug, ¬ ∃ fuel, findRoot debug e (fun lba => some (rootVolume 36 17 lba)) fuel = .ok d.root
  := by
  have he : parseHeader (bootSector 1) 0 0 = some ⟨0x1000, 24, 32, 4, 10, 4⟩ := by decide
  let d : RootDirectory (bootSector 1) ⟨0x1000, 24, 32, 4, 10, 4⟩ (rootVolume 36 17) :=
    { chain := [4]
      records := 17
      bitmap := 0
      head := rfl
      cluster := by decide
      next := fun i hi => by simp at hi
      tail := by decide
      room := by decide
      used := by decide
      ends := rfl
      bitmap_lt := by decide
      isBitmap := by decide
      last := by
        intro i hi hlt
        revert hi
        revert i
        decide
      inRange := by decide }
  refine ⟨_, he, d, ?_⟩
  rintro debug ⟨fuel, h⟩
  cases fuel with
  | zero => cases h
  | succ fuel =>
      -- the chain ends after the first sector of its only cluster
      have hrun : findRoot debug ⟨0x1000, 24, 32, 4, 10, 4⟩
          (fun lba => some (rootVolume 36 17 lba)) (fuel + 1)
          = .error (.bugcheck "failed reading exFAT root directory") := by
        cases debug <;> rfl
      rw [hrun] at h
      cases h

end Boot

end UOS
