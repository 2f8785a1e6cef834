import Cofuos.FileSystem.ReadFile

/-!
# The sectors of a file

The sectors of a file are numbered in the order of its bytes. A sector of the disk is that of at most
one number, the sectors of a cluster follow each other, and the sectors that a file has are still the
same after its chain has been extended.

The clusters of a file that lie in a row are not bounded by the size of the file, but by the end of
the volume.
-/

namespace UOS

namespace FileData

open Exfat (SECTOR_SIZE)

/-- The number of sectors in a cluster. -/
def perCluster (fs : Exfat) : ℕ := fs.clusterSize / SECTOR_SIZE

/-- The sector of the disk that a sector of a file is. -/
def sectors (fs : Exfat) (f : FileData) (j : ℕ) : Option ℕ :=
  if f.clusterAt fs (j / perCluster fs) ≠ 0 then
    some (fs.heap + (f.clusterAt fs (j / perCluster fs) - 2) * perCluster fs + j % perCluster fs)
  else
    none

/-- A file with the clusters of a chain. A row of clusters goes on to the end of the volume. -/
def extended (fs : Exfat) (c : ClusterChain) : FileData :=
  { clusters := c, allocSize := (fs.clusterCount + 2 - c.firstCluster) * fs.clusterSize }

variable {debug : Bool} {updateChain : ℕ → Dm → Bool × Dm} {fs fs' : Exfat} {f : FileData}
  {c c' : ClusterChain} {dm dm' : Dm} {offset n lba i j l d : ℕ}

theorem perCluster_pos (hfits : SizeFits fs) : 0 < perCluster fs :=
  Nat.div_pos (Nat.le_of_dvd (Nat.two_pow_pos _) (sector_dvd_cluster hfits)) (by decide)

theorem perCluster_mul (hfits : SizeFits fs) : perCluster fs * SECTOR_SIZE = fs.clusterSize :=
  Nat.div_mul_cancel (sector_dvd_cluster hfits)

/-- The cluster of a byte is that of its sector. -/
theorem div_perCluster (hfits : SizeFits fs) (offset : ℕ) :
  offset / SECTOR_SIZE / perCluster fs = offset / fs.clusterSize
  := by
  rw [Nat.div_div_eq_div_mul, Nat.mul_comm, perCluster_mul hfits]

/-- The place of a byte in its cluster is that of its sector. -/
theorem mod_perCluster (hfits : SizeFits fs) (offset : ℕ) :
  offset / SECTOR_SIZE % perCluster fs = offset % fs.clusterSize / SECTOR_SIZE
  := by
  rw [← perCluster_mul hfits, Nat.mul_comm, Nat.mod_mul_right_div_self]

/-- The sector of a byte. -/
theorem SectorOf.sectors_eq (hfits : SizeFits fs) (h : SectorOf fs f offset lba) :
  f.sectors fs (offset / SECTOR_SIZE) = some lba
  := by
  rw [sectors, div_perCluster hfits, mod_perCluster hfits, if_pos h.cluster, h.eq]
  rfl

/-- The sector of a byte that has a cluster. -/
theorem sectors_of_clusterAt (hfits : SizeFits fs) (h : f.clusterAt fs (offset / fs.clusterSize) ≠ 0) :
  f.sectors fs (offset / SECTOR_SIZE) = some (f.sectorAt fs offset)
  := SectorOf.sectors_eq hfits ⟨h, rfl⟩

theorem sectors_eq_some (h : f.sectors fs j = some l) :
  f.clusterAt fs (j / perCluster fs) ≠ 0 ∧
    l = fs.heap + (f.clusterAt fs (j / perCluster fs) - 2) * perCluster fs + j % perCluster fs
  := by
  rw [sectors] at h
  split_ifs at h with hc
  cases h
  exact ⟨hc, rfl⟩

/-- The sectors of a cluster follow each other. -/
theorem sectors_add (h : f.sectors fs j = some l) (hd : j % perCluster fs + d < perCluster fs) :
  f.sectors fs (j + d) = some (l + d)
  := by
  obtain ⟨hc, rfl⟩ := sectors_eq_some h
  have hpos : 0 < perCluster fs := by omega
  have hdiv : (j + d) / perCluster fs = j / perCluster fs := by
    rw [Nat.add_div hpos, if_neg (by
      have := Nat.mod_le d (perCluster fs)
      lia), Nat.div_eq_of_lt (a := d) (by lia)]
    rfl
  have hmod : (j + d) % perCluster fs = j % perCluster fs + d := by
    rw [Nat.add_mod, Nat.mod_eq_of_lt (show d < perCluster fs by omega), Nat.mod_eq_of_lt hd]
  rw [sectors, hdiv, if_pos hc, hmod, ← Nat.add_assoc]

/-- A sector of the disk is that of one number only. -/
theorem Consistent.sectors_inj (h : Consistent debug fs f) (hfits : SizeFits fs)
    (hi : f.sectors fs i = some l) (hj : f.sectors fs j = some l) :
  i = j
  := by
  have hpos := perCluster_pos hfits
  obtain ⟨hci, hl⟩ := sectors_eq_some hi
  obtain ⟨hcj, hl'⟩ := sectors_eq_some hj
  have hmi := Nat.mod_lt i hpos
  have hmj := Nat.mod_lt j hpos
  have heq := hl.symm.trans hl'
  rw [Nat.add_assoc, Nat.add_assoc, Nat.add_left_cancel_iff, Nat.add_comm,
    Nat.add_comm _ (j % perCluster fs)] at heq
  have hdiv := congrArg (fun x => x / perCluster fs) heq
  have hmod := congrArg (fun x => x % perCluster fs) heq
  simp only [Nat.add_mul_div_right _ _ hpos, Nat.div_eq_of_lt hmi, Nat.div_eq_of_lt hmj,
    Nat.add_mul_mod_self_right, Nat.mod_mod] at hdiv hmod
  have hbi := h.clusterAt_bounds hci
  have hbj := h.clusterAt_bounds hcj
  have hsame : i / perCluster fs = j / perCluster fs := by
    apply h.clusterAt_inj _ hci
    lia
  rw [← Nat.div_add_mod i (perCluster fs), ← Nat.div_add_mod j (perCluster fs), hsame, hmod]

/-- The sectors that a file has are still the same. -/
structure Extends (fs : Exfat) (f : FileData) (fs' : Exfat) (f' : FileData) : Prop where
  heap : fs'.heap = fs.heap
  shift : fs'.clusterShift = fs.clusterShift
  kept : ∀ j, f.clusterAt fs j ≠ 0 → f'.clusterAt fs' j = f.clusterAt fs j

namespace Extends

variable {f' f'' : FileData} {fs'' : Exfat}

theorem refl (fs : Exfat) (f : FileData) : Extends fs f fs f := ⟨rfl, rfl, fun _ _ => rfl⟩

theorem trans (h : Extends fs f fs' f') (h' : Extends fs' f' fs'' f'') :
  Extends fs f fs'' f''
  := by
  refine ⟨h'.heap.trans h.heap, h'.shift.trans h.shift, ?_⟩
  intro j hj
  rw [h'.kept j (by rwa [h.kept j hj]), h.kept j hj]

theorem clusterSize_eq (h : Extends fs f fs' f') : fs'.clusterSize = fs.clusterSize := by
  rw [Exfat.clusterSize, h.shift, Exfat.clusterSize]

theorem sizeFits (h : Extends fs f fs' f') (hfits : SizeFits fs) : SizeFits fs' := by
  rw [SizeFits, h.shift]
  exact hfits

theorem sectors_eq (h : Extends fs f fs' f') (hj : f.sectors fs j = some l) :
  f'.sectors fs' j = some l
  := by
  obtain ⟨hc, rfl⟩ := sectors_eq_some hj
  have hper : perCluster fs' = perCluster fs := by
    rw [perCluster, h.clusterSize_eq, perCluster]
  rw [sectors, hper, h.kept _ hc, if_pos hc, h.heap]

end Extends

/-! ### Rows that go on -/

theorem rowLength_extended (fs : Exfat) (c : ClusterChain) :
  (extended fs c).rowLength fs = fs.clusterCount + 2 - c.firstCluster
  := by
  have hpos : 0 < fs.clusterSize := Nat.two_pow_pos _
  change ((fs.clusterCount + 2 - c.firstCluster) * fs.clusterSize + fs.clusterSize - 1)
    / fs.clusterSize = _
  rw [Nat.add_sub_assoc hpos, Nat.mul_comm, Nat.mul_add_div hpos,
    Nat.div_eq_of_lt (Nat.sub_lt hpos Nat.one_pos), Nat.add_zero]

/-- A file whose clusters are not bounded by its size is consistent, too. -/
theorem Consistent.extended (h : Consistent debug fs f) :
  Consistent debug fs (extended fs f.clusters)
  := by
  refine ⟨h.heap, h.count, ?_, h.chain, h.closed⟩
  intro hl hf
  have hrow := h.row hl hf
  rw [rowLength_extended]
  change 2 ≤ f.clusters.firstCluster ∧ f.clusters.firstCluster + _ ≤ _
  lia

/-- The clusters that a file has are those of its chain. -/
theorem clusterAt_extended (h : Consistent debug fs f) (hk : f.clusterAt fs i ≠ 0) :
  (extended fs f.clusters).clusterAt fs i = f.clusterAt fs i
  := by
  cases hl : f.clusters.linear with
  | true =>
      rw [clusterAt_linear hl] at hk ⊢
      split_ifs at hk ⊢ with hin
      · have hrow := h.row hl hin.1
        rw [clusterAt_linear (by exact hl), rowLength_extended, if_pos]
        · rfl
        · exact ⟨hin.1, by lia⟩
      · apply absurd rfl hk
  | false =>
      rw [clusterAt_chain hl, clusterAt_chain (by exact hl)]
      rfl

/-- The position of a byte is one that the chain does not mistake for another. -/
def Near (fs : Exfat) (c : ClusterChain) (offset : ℕ) : Prop :=
  (if c.linear = true then c.firstCluster else 0) + offset / fs.clusterSize < 2 ^ 32

/-- A sector that is found for a byte to be written is that of the byte, and the file still has the
sectors it had. -/
theorem getLba_expand (h : Consistent debug fs (extended fs c)) (hfits : SizeFits fs)
    (hnear : Near fs c offset)
    (hlba : getLba debug updateChain true offset n fs c dm = .ok (lba, fs', c', dm')) (h₀ : lba ≠ 0) :
  Consistent debug fs' (extended fs' c') ∧ Extends fs (extended fs c) fs' (extended fs' c') ∧
    (extended fs' c').sectors fs' (offset / SECTOR_SIZE) = some lba ∧ c'.linear = c.linear ∧
    (c.linear = true → c'.firstCluster = c.firstCluster)
  := by
  cases hl : c.linear with
  | true =>
      rw [Near, if_pos hl] at hnear
      obtain ⟨rfl, rfl, hf, x, hx, h₂, hlt, heq⟩ := getLba_row (f := extended fs c) hl hlba h₀
      change x = (c'.firstCluster + offset / fs'.clusterSize) % 2 ^ 32 at hx
      rw [Nat.mod_eq_of_lt hnear] at hx
      have hsector : SectorOf fs' (extended fs' c') offset lba := by
        have hcluster : (extended fs' c').clusterAt fs' (offset / fs'.clusterSize) = x := by
          rw [clusterAt_linear (by exact hl), rowLength_extended, if_pos ⟨hf, by lia⟩, hx]
          rfl
        constructor
        · rw [hcluster]
          lia
        · rw [hcluster, heq]
      exact ⟨h, Extends.refl _ _, hsector.sectors_eq hfits, hl, fun _ => rfl⟩
  | false =>
      rw [Near, if_neg (by rw [hl]; decide), Nat.zero_add] at hnear
      obtain ⟨h', hshift, hsector, hheap, hl', hkept⟩ :=
        h.getLba_chain (f := extended fs c) hl hnear hlba h₀
      have hsame : ∀ j, (extended fs' c').clusterAt fs' j
          = ({ extended fs c with clusters := c' } : FileData).clusterAt fs' j := by
        intro j
        rw [clusterAt_chain (by exact hl'), clusterAt_chain (by exact hl')]
        rfl
      have hextends : Extends fs (extended fs c) fs' (extended fs' c') := by
        refine ⟨hheap, hshift, ?_⟩
        intro j hj
        rw [hsame, hkept j hj]
      refine ⟨⟨h'.heap, h'.count, ?_, h'.chain, h'.closed⟩, hextends, ?_, hl', ?_⟩
      · intro hrow
        rw [show (extended fs' c').clusters.linear = false from hl'] at hrow
        cases hrow
      · apply SectorOf.sectors_eq (hextends.sizeFits hfits)
        constructor
        · rw [hsame]
          exact hsector.cluster
        · rw [hsame]
          exact hsector.eq
      · intro hrow
        cases hrow

end FileData

end UOS
