import Cofuos.Boot.Volume

/-!
# What the header of the volume promises

`exfat::parse_header` takes the layout of the volume from its first sector, and checks that the
table has an entry for each cluster, that the tables lie before the clusters, and that the clusters
lie before the end of the volume. The checks compute with 32 and 64 bits, and the number of bits of
a shift is reduced modulo 32 or 64.

When the second of two tables is in use, its position is already that of `table` when the lengths of
both are added to it.
-/

namespace UOS

namespace Boot

/-! ### The fields of the header -/

namespace Header

/-- `fat_offset` -/
def fatOffset (s : Bytes) : ℕ := s.dword 0x50

/-- `fat_length` -/
def fatLength (s : Bytes) : ℕ := s.dword 0x54

/-- `cluster_offset` -/
def clusterOffset (s : Bytes) : ℕ := s.dword 0x58

/-- `cluster_count` -/
def clusterCount (s : Bytes) : ℕ := s.dword 0x5C

/-- `cluster_shift` -/
def clusterShift (s : Bytes) : ℕ := (s 0x6D).toNat

/-- `fat_count` -/
def fatCount (s : Bytes) : ℕ := (s 0x6E).toNat

/-- Where the table in use begins, from the first one on. -/
def active (s : Bytes) : ℕ := if s.word 0x6A % 2 = 1 then fatLength s else 0

/-- There is one table, or there are two and either one is in use. -/
def Tables (s : Bytes) : Prop := fatCount s = 2 ∨ (fatCount s = 1 ∧ s.word 0x6A % 2 = 0)

/-- The end of the volume, as it is computed. -/
def limit (s : Bytes) (base : ℕ) : ℕ := (base + s.qword 0x48) % 2 ^ 64

/-- What `parse_header` stores when it does not fail. -/
def found (s : Bytes) (base : ℕ) : Exfat :=
  { top := limit s base
    table := (base + fatOffset s + active s) % 2 ^ 64
    heap := (base + clusterOffset s) % 2 ^ 64
    clusterCount := clusterCount s
    clusterShift := (9 + clusterShift s) % 2 ^ 8
    root := (if s.word 0x6A % 2 = 1 then 0x80000000 else 0) ||| s.dword 0x60 }

/-- The geometry of the volume is right, in numbers that do not overflow. -/
structure Geometry (s : Bytes) (base : ℕ) : Prop where
  /-- Each table has an entry for each cluster. -/
  holds : clusterCount s + 2 ≤ fatLength s * 128
  /-- The tables lie before the clusters. -/
  before : base + fatOffset s + fatLength s * fatCount s ≤ base + clusterOffset s
  /-- The clusters lie before the end. -/
  within : base + clusterOffset s + clusterCount s * 2 ^ clusterShift s ≤ limit s base
  /-- The size of a cluster is what the header says. -/
  size : (found s base).clusterSize = SECTOR_SIZE * 2 ^ clusterShift s

/-- The geometry is right, and what is looked up lies in the table in use and in the clusters. -/
structure Sound (s : Bytes) (base : ℕ) (e : Exfat) : Prop extends Geometry s base where
  top : e.top = limit s base
  clusterSize : e.clusterSize = SECTOR_SIZE * 2 ^ clusterShift s
  fat : ∀ cluster < clusterCount s + 2,
    base + fatOffset s + active s ≤ e.lbaOfFat (cluster / 128) ∧
      e.lbaOfFat (cluster / 128) < base + fatOffset s + active s + fatLength s
  cluster : ∀ cluster, 2 ≤ cluster → cluster < clusterCount s + 2 →
    base + clusterOffset s ≤ e.lbaOfCluster cluster ∧
      e.lbaOfCluster cluster + e.clusterSize / SECTOR_SIZE ≤
        base + clusterOffset s + clusterCount s * 2 ^ clusterShift s

/-- The header is that of a volume which lies where it says, and its geometry is right. -/
structure Valid (s : Bytes) (base top : ℕ) : Prop extends Geometry s base where
  signature : checkExfat s = true
  place : s.qword 0x40 = base
  top : top = 0 ∨ limit s base ≤ top
  offset : 24 ≤ fatOffset s
  count : clusterCount s ≠ 0
  root : 2 ≤ s.dword 0x60
  tables : Tables s

/-- Where `parse_header` computes the end of the tables. -/
def tableEnd (s : Bytes) (base : ℕ) : ℕ :=
  base + fatOffset s + active s + fatLength s * fatCount s

/-- Nothing that `parse_header` computes overflows, or it does not matter. -/
structure Fits (s : Bytes) (base : ℕ) : Prop where
  shift : clusterShift s < 23
  count : clusterCount s + 129 < 2 ^ 32
  length : fatLength s * fatCount s < 2 ^ 32
  top : base + clusterOffset s + clusterCount s * 2 ^ clusterShift s < 2 ^ 64
  table : tableEnd s base < 2 ^ 64 ∨ fatOffset s + fatLength s * fatCount s ≤ clusterOffset s

/-- The clusters begin after the place where `parse_header` computes the end of the tables. -/
def Spaced (s : Bytes) (base : ℕ) : Prop :=
  tableEnd s base ≤ base + clusterOffset s ∨ 2 ^ 64 ≤ tableEnd s base

end Header

open Header

variable {s : Bytes} {base top : ℕ} {e : Exfat}

/-! ### When the header is accepted -/

/-- The table in use is found when their number and the flags are right. -/
theorem tableOf_eq_some_iff {table : ℕ} :
  tableOf s base = some table ↔ Tables s ∧ table = (found s base).table
  := by
  have hone : s 0x6E = 1 ↔ fatCount s = 1 := by
    rw [fatCount, ← UInt8.toNat_inj]
    rfl
  have htwo : s 0x6E = 2 ↔ fatCount s = 2 := by
    rw [fatCount, ← UInt8.toNat_inj]
    rfl
  simp only [tableOf, found, active, fatOffset, fatLength, Tables, hone, htwo]
  by_cases h₂ : fatCount s = 2
  · rw [if_pos h₂, Option.some.injEq]
    simp only [h₂, true_or, true_and]
    exact eq_comm
  · rw [if_neg h₂]
    by_cases h₁ : fatCount s = 1 ∧ s.word 0x6A % 2 = 0
    · rw [if_pos h₁, Option.some.injEq, if_neg (by omega), Nat.add_zero]
      simp only [h₁, or_true, true_and, and_self]
      exact eq_comm
    · rw [if_neg h₁]
      simp only [h₁, h₂, or_self, false_and, reduceCtorEq]

/-- `parse_header` fails unless all of its checks pass. -/
theorem parseHeader_eq_some_iff :
  parseHeader s base top = some e ↔
    (checkExfat s = true ∧ s.qword 0x40 = base) ∧ (top = 0 ∨ limit s base ≤ top) ∧
      (24 ≤ fatOffset s ∧ fatLength s ≠ 0 ∧ clusterOffset s ≠ 0 ∧ clusterCount s ≠ 0) ∧
      Tables s ∧
      ((2 + clusterCount s) % 2 ^ 32 * 4 + 0x1FF) / SECTOR_SIZE ≤ fatLength s ∧
      ((found s base).table + fatLength s * fatCount s % 2 ^ 32) % 2 ^ 64 ≤ (found s base).heap ∧
      ((found s base).heap + clusterCount s * 2 ^ (clusterShift s % 64)) % 2 ^ 64 ≤ limit s base ∧
      2 ≤ s.dword 0x60 ∧ e = found s base
  := by
  simp only [parseHeader, Option.ite_none_left_eq_some, Option.bind_eq_some_iff,
    tableOf_eq_some_iff, Option.some.injEq, not_or, Bool.not_eq_false, ne_eq, not_not, not_and_or,
    not_lt]
  constructor
  · rintro ⟨⟨hsig, hbase⟩, htop, hsizes, table, ⟨htables, rfl⟩, hholds, hheap, hwithin, hroot, rfl⟩
    rw [hbase] at htop hwithin
    exact ⟨⟨hsig, hbase⟩, htop, hsizes, htables, hholds, hheap, hwithin, hroot, by rw [hbase]; rfl⟩
  · rintro ⟨⟨hsig, hbase⟩, htop, hsizes, htables, hholds, hheap, hwithin, hroot, rfl⟩
    rw [hbase]
    exact ⟨⟨hsig, rfl⟩, htop, hsizes, _, ⟨htables, rfl⟩, hholds, hheap, hwithin, hroot, rfl⟩

/-! ### The bounds of the fields -/

theorem Header.limit_lt (s : Bytes) (base : ℕ) : limit s base < 2 ^ 64 := Nat.mod_lt _ (by decide)

theorem Header.clusterOffset_lt : clusterOffset s < 2 ^ 32 := Bytes.dword_lt

theorem Header.clusterCount_lt : clusterCount s < 2 ^ 32 := Bytes.dword_lt

/-- The table in use is one of the tables. -/
theorem Header.active_add_le (h : Tables s) :
  active s + fatLength s ≤ fatLength s * fatCount s
  := by
  rw [active]
  rcases h with htwo | ⟨hone, hflag⟩
  · rw [htwo]
    split_ifs <;> omega
  · rw [hone, if_neg (by omega)]
    omega

/-- The size of a cluster is what the header says if it fits into 32 bits. -/
theorem Header.clusterSize_eq_iff :
  (found s base).clusterSize = SECTOR_SIZE * 2 ^ clusterShift s ↔ clusterShift s < 23
  := by
  have hlt : clusterShift s < 256 := (s 0x6D).toNat_lt
  have hpow : SECTOR_SIZE * 2 ^ clusterShift s = 2 ^ (9 + clusterShift s) := by
    rw [Nat.pow_add]
    rfl
  rw [hpow]
  change 2 ^ ((9 + clusterShift s) % 2 ^ 8 % 32) = _ ↔ _
  rw [Nat.pow_right_inj (by decide)]
  omega

/-! ### What a header that is accepted promises -/

/-- When the geometry is right, nothing that matters overflows, but for the number of sectors of the
table. -/
theorem Header.Sound.fits (he : parseHeader s base top = some e) (h : Sound s base e) :
  Fits s base
  := by
  obtain ⟨-, -, ⟨hoffset, -⟩, -, -, -, -, -, rfl⟩ := parseHeader_eq_some_iff.mp he
  have hlimit := limit_lt s base
  have hcluster := clusterOffset_lt (s := s)
  have hcount := clusterCount_lt (s := s)
  have hbefore := h.before
  have hwithin := h.within
  refine ⟨clusterSize_eq_iff.mp h.size, ?_, by omega, by omega, .inr (by omega)⟩
  by_contra hmany
  -- the position of the entry of the last cluster is not found
  have hlast := (h.fat (clusterCount s + 1) (by omega)).1
  rw [Exfat.lbaOfFat, if_neg (by simp only [found]; omega)] at hlast
  omega

/-- When nothing overflows, the geometry is right. -/
theorem Header.Fits.geometry (he : parseHeader s base top = some e) (h : Fits s base) :
  Geometry s base
  := by
  obtain ⟨-, -, -, -, hholds, hheap, hwithin, -, -⟩ := parseHeader_eq_some_iff.mp he
  have hshift := h.shift
  have htop := h.top
  have hcount := h.count
  have hlength := h.length
  have hheap_eq : (found s base).heap = base + clusterOffset s := Nat.mod_eq_of_lt (by omega)
  rw [hheap_eq] at hheap hwithin
  rw [Nat.mod_eq_of_lt (show clusterShift s < 64 by omega), Nat.mod_eq_of_lt htop] at hwithin
  refine ⟨?_, ?_, hwithin, clusterSize_eq_iff.mpr hshift⟩
  · rw [Nat.mod_eq_of_lt (by omega), SECTOR_SIZE] at hholds
    omega
  · rcases h.table with hend | hbefore
    · rw [tableEnd] at hend
      have htable : (found s base).table = base + fatOffset s + active s :=
        Nat.mod_eq_of_lt (by omega)
      rw [htable, Nat.mod_eq_of_lt hlength, Nat.mod_eq_of_lt hend] at hheap
      omega
    · omega

/-- When nothing overflows, the entry of a cluster lies in the table in use. -/
theorem Header.Fits.fat (he : parseHeader s base top = some e) (h : Fits s base) {cluster : ℕ}
    (hcluster : cluster < clusterCount s + 2) :
  base + fatOffset s + active s ≤ e.lbaOfFat (cluster / 128) ∧
    e.lbaOfFat (cluster / 128) < base + fatOffset s + active s + fatLength s
  := by
  obtain ⟨hholds, hbefore, -, -⟩ := h.geometry he
  obtain ⟨-, -, -, htables, -, -, -, -, rfl⟩ := parseHeader_eq_some_iff.mp he
  have hactive := active_add_le htables
  have htop := h.top
  have hcount := h.count
  have htable : (found s base).table = base + fatOffset s + active s :=
    Nat.mod_eq_of_lt (by omega)
  rw [Exfat.lbaOfFat, htable, if_pos (by simp only [found]; omega), Nat.mod_eq_of_lt (by omega)]
  omega

/-- When nothing overflows, a cluster lies among the clusters. -/
theorem Header.Fits.cluster (he : parseHeader s base top = some e) (h : Fits s base) {cluster : ℕ}
    (hge : 2 ≤ cluster) (hcluster : cluster < clusterCount s + 2) :
  base + clusterOffset s ≤ e.lbaOfCluster cluster ∧
    e.lbaOfCluster cluster + e.clusterSize / SECTOR_SIZE ≤
      base + clusterOffset s + clusterCount s * 2 ^ clusterShift s
  := by
  obtain ⟨-, -, -, -, -, -, -, -, rfl⟩ := parseHeader_eq_some_iff.mp he
  have htop := h.top
  have hheap : (found s base).heap = base + clusterOffset s := Nat.mod_eq_of_lt (by omega)
  have hsize : (found s base).clusterSize / SECTOR_SIZE = 2 ^ clusterShift s := by
    rw [clusterSize_eq_iff.mpr h.shift]
    exact Nat.mul_div_cancel_left _ (by decide)
  have hmul : (cluster - 2 + 1) * 2 ^ clusterShift s ≤ clusterCount s * 2 ^ clusterShift s :=
    Nat.mul_le_mul_right _ (by omega)
  rw [Nat.succ_mul] at hmul
  generalize 2 ^ clusterShift s = sectors at htop hsize hmul ⊢
  have hbefore : (cluster + 2 ^ 32 - 2) % 2 ^ 32 = cluster - 2 := by
    have := clusterCount_lt (s := s)
    omega
  rw [Exfat.lbaOfCluster, hbefore, if_neg (by simp only [found]; omega), hheap, hsize,
    Nat.mod_eq_of_lt (by omega)]
  omega

/-- A header that is accepted promises a sound volume exactly if nothing overflows. -/
theorem sound_iff (he : parseHeader s base top = some e) : Sound s base e ↔ Fits s base := by
  constructor
  · exact Header.Sound.fits he
  · intro h
    obtain ⟨-, -, -, -, -, -, -, -, hfound⟩ := parseHeader_eq_some_iff.mp he
    exact
      { h.geometry he with
        top := by rw [hfound]; rfl
        clusterSize := by rw [hfound]; exact clusterSize_eq_iff.mpr h.shift
        fat := fun _ hcluster => h.fat he hcluster
        cluster := fun _ hge hcluster => h.cluster he hge hcluster }

/-! ### Which volumes are accepted -/

/-- A valid header is accepted exactly if there is room for another table before the clusters
when the second one is in use. -/
theorem accepted_iff (h : Valid s base top) : (parseHeader s base top).isSome ↔ Spaced s base := by
  have hlimit := limit_lt s base
  have hcluster := clusterOffset_lt (s := s)
  have hactive := active_add_le h.tables
  have hoffset := h.offset
  have hbefore := h.before
  have hwithin := h.within
  have hholds := h.holds
  have hshift := clusterSize_eq_iff.mp h.size
  have hheap : (found s base).heap = base + clusterOffset s := Nat.mod_eq_of_lt (by omega)
  have htable : (found s base).table = base + fatOffset s + active s :=
    Nat.mod_eq_of_lt (by omega)
  have hcheck : ((found s base).table + fatLength s * fatCount s % 2 ^ 32) % 2 ^ 64 ≤
      (found s base).heap ↔ Spaced s base := by
    rw [htable, hheap, Nat.mod_eq_of_lt (show fatLength s * fatCount s < 2 ^ 32 by omega), Spaced,
      tableEnd]
    omega
  rw [Option.isSome_iff_exists]
  constructor
  · rintro ⟨e, he⟩
    obtain ⟨-, -, -, -, -, hspaced, -⟩ := parseHeader_eq_some_iff.mp he
    exact hcheck.mp hspaced
  · intro hspaced
    refine ⟨_, parseHeader_eq_some_iff.mpr ⟨⟨h.signature, h.place⟩, h.top, ⟨h.offset, by omega,
      by omega, h.count⟩, h.tables, ?_, hcheck.mpr hspaced, ?_, h.root, rfl⟩⟩
    · rw [SECTOR_SIZE]
      omega
    · rw [hheap, Nat.mod_eq_of_lt (show clusterShift s < 64 by omega), Nat.mod_eq_of_lt (by omega)]
      exact hwithin

/-- For every sector: when it is accepted, the volume is sound exactly if nothing overflows, and when
it is the header of a valid volume, it is accepted exactly if the clusters begin after the place
where the end of the tables is computed. -/
theorem parseHeader_iff (s : Bytes) (base top : ℕ) :
  (∀ e, parseHeader s base top = some e → (Sound s base e ↔ Fits s base)) ∧
    (Valid s base top → ((parseHeader s base top).isSome ↔ Spaced s base))
  := ⟨fun _ he => sound_iff he, accepted_iff⟩

/-- The header of a volume of four clusters with some of its bytes changed. -/
def patched (l : List (ℕ × UInt8)) : Bytes := fun i => (l.lookup i).getD (bootSector 0 i)

/-- A volume with one table, right before the clusters, is valid, and is accepted and sound. -/
theorem parseHeader_iff_adjacent :
  ∃ e, parseHeader (patched [(0x58, 25)]) 0 0 = some e ∧
    (Sound (patched [(0x58, 25)]) 0 e ↔ Fits (patched [(0x58, 25)]) 0) ∧
    Fits (patched [(0x58, 25)]) 0 ∧
    ((parseHeader (patched [(0x58, 25)]) 0 0).isSome ↔ Spaced (patched [(0x58, 25)]) 0)
  := by
  have he : parseHeader (patched [(0x58, 25)]) 0 0 = some ⟨0x1000, 24, 25, 4, 9, 4⟩ := by
    decide
  have hfits : Fits (patched [(0x58, 25)]) 0 := by
    constructor <;> decide
  have hvalid : Valid (patched [(0x58, 25)]) 0 0 := by
    refine ⟨⟨?_, ?_, ?_, ?_⟩, ?_, ?_, ?_, ?_, ?_, ?_, .inr ?_⟩ <;> decide
  exact ⟨_, he, (parseHeader_iff _ 0 0).1 _ he, hfits, (parseHeader_iff _ 0 0).2 hvalid⟩

/-- A valid volume with two tables, the second of which is in use and lies right before the
clusters, is not accepted. A volume whose size of a cluster overflows is accepted. -/
theorem second_rejected :
  (Valid (patched [(0x58, 26), (0x6A, 1), (0x6E, 2)]) 0 0 ∧
    parseHeader (patched [(0x58, 26), (0x6A, 1), (0x6E, 2)]) 0 0 = none) ∧
    ∃ e, parseHeader (patched [(0x6D, 64)]) 0 0 = some e ∧ ¬ Sound (patched [(0x6D, 64)]) 0 e
  := by
  have hvalid : Valid (patched [(0x58, 26), (0x6A, 1), (0x6E, 2)]) 0 0 := by
    refine ⟨⟨?_, ?_, ?_, ?_⟩, ?_, ?_, ?_, ?_, ?_, ?_, .inl ?_⟩ <;> decide
  have he : parseHeader (patched [(0x6D, 64)]) 0 0 = some ⟨0x1000, 24, 32, 4, 73, 4⟩ := by
    decide
  refine ⟨⟨hvalid, by decide⟩, _, he, ?_⟩
  intro hsound
  have hsize := clusterSize_eq_iff.mp hsound.size
  revert hsize
  decide

end Boot

end UOS
