import Cofuos.FileSystem.Expansion

/-!
# From the offset in a file to a sector

The sector of a byte of a file is found from the cluster at the position that is the offset divided
by the size of a cluster. The chain of the file is looked up at this position, and is extended to it
where a file is written. The definitions follow `file_instance::get_lba` of
`kernel/filesystem/instance.cpp`.

The position is a number of 64 bits, but the chain takes a number of 32 bits. A chain whose clusters
lie in a row does not know how many they are.
-/

namespace UOS

namespace Exfat

variable {fs fs' : Exfat} {first first' i j k : ℕ}

/-! ### The clusters of a chain -/

/-- The clusters of a chain that has an end are different from each other. -/
theorem clusterAt_inj (hend : ∃ n, fs.clusterAt first n = 0)
    (heq : fs.clusterAt first i = fs.clusterAt first j) (h₀ : fs.clusterAt first i ≠ 0) :
  i = j
  := by
  wlog hlt : i < j generalizing i j
  · by_contra hne
    apply hne
    symm
    apply this heq.symm (heq ▸ h₀)
    lia
  exfalso
  have hj : j < Nat.find hend := by
    by_contra hge
    apply h₀
    rw [heq, ← Nat.add_sub_cancel' (not_lt.1 hge)]
    apply clusterAt_add_eq_zero (Nat.find_spec hend)
  -- the chain would have come to its end as many entries earlier
  have hearly : fs.clusterAt first (Nat.find hend - j + i) = 0 := by
    have hlast := Nat.find_spec hend
    rw [← Nat.sub_add_cancel hj.le] at hlast
    rw [clusterAt, Function.iterate_add_apply] at hlast ⊢
    apply (congrArg _ heq).trans hlast
  apply Nat.find_min hend _ hearly
  lia

/-- A chain has an end, and its clusters lie on the volume. -/
structure Closed (fs : Exfat) (first : ℕ) : Prop where
  ends : ∃ n, fs.clusterAt first n = 0
  two_le : ∀ j, fs.clusterAt first j ≠ 0 → 2 ≤ fs.clusterAt first j
  lt_count : ∀ j, fs.clusterAt first j ≠ 0 → fs.clusterAt first j - 2 < fs.clusterCount

/-- A chain has no more clusters than the volume. -/
theorem Closed.lt_clusterCount (h : fs.Closed first) (hk : fs.clusterAt first k ≠ 0) :
  k < fs.clusterCount
  := by
  have hne : ∀ j ∈ Finset.range (k + 1), fs.clusterAt first j ≠ 0 := by
    intro j hj
    apply clusterAt_ne_zero_of_le hk (Nat.le_of_lt_succ (Finset.mem_range.1 hj))
  have hcard := Finset.card_le_card_of_injOn (s := Finset.range (k + 1))
    (t := Finset.range fs.clusterCount) (fun j => fs.clusterAt first j - 2) (by
      intro j hj
      apply Finset.mem_coe.2 (Finset.mem_range.2 (h.lt_count j (hne j hj)))) (by
      intro i hi j hj heq
      apply clusterAt_inj h.ends _ (hne i hi)
      have := h.two_le i (hne i hi)
      have := h.two_le j (hne j hj)
      dsimp only at heq
      lia)
  rw [Finset.card_range, Finset.card_range] at hcard
  exact hcard

theorem Prolonged.closed (h : fs.Prolonged fs' first first') (hc : fs.Closed first) :
  fs'.Closed first'
  := by
  constructor
  · apply h.ends hc.ends
  · intro j hj
    obtain heq | hadd := h.clusterAt_eq_or hj
    · rw [heq] at hj ⊢
      apply hc.two_le j hj
    · apply hadd.two_le
  · intro j hj
    rw [h.count]
    obtain heq | hadd := h.clusterAt_eq_or hj
    · rw [heq] at hj ⊢
      apply hc.lt_count j hj
    · apply hadd.lt_count

end Exfat

/-! ### Sectors of a file -/

/-- What an instance has of the contents of a file. -/
structure FileData where
  clusters : ClusterChain
  allocSize : ℕ

namespace FileData

/-- The sector of the byte at an offset, and `0` if there is none. The chain is extended if `expand`
says so, and `updateChain` writes the first cluster to the folder. The number of rounds is given. -/
def getLba (debug : Bool) (updateChain : ℕ → Dm → Bool × Dm) (expand : Bool) (offset : ℕ) :
    ℕ → Exfat → ClusterChain → Dm → Except Fault (ℕ × Exfat × ClusterChain × Dm)
  | 0, _, _, _ => .error .outOfFuel
  | n + 1, fs, c, dm => do
    let index := offset / fs.clusterSize
    let (cluster, c, dm) ← c.get debug fs dm (index % 2 ^ 32)
    if cluster ≠ 0 then
      let base ← fs.lbaOfCluster debug cluster
      if base ≠ 0 then
        return (base + offset % fs.clusterSize / Exfat.SECTOR_SIZE, fs, c, dm)
      else
        return (0, fs, c, dm)
    else if expand = true then
      let (done, fs, c, dm) ← c.expand debug fs dm (index % 2 ^ 32)
      if done = false then
        return (0, fs, c, dm)
      else if index = 0 then
        let (head, c, dm) ← c.get debug fs dm 0
        let (updated, dm) := updateChain head dm
        if updated = false then
          return (0, fs, c, dm)
        else
          -- retry, should succeed
          getLba debug updateChain expand offset n fs c dm
      else
        getLba debug updateChain expand offset n fs c dm
    else
      return (0, fs, c, dm)

/-- The number of clusters of a file whose clusters lie in a row. -/
def rowLength (fs : Exfat) (f : FileData) : ℕ := (f.allocSize + fs.clusterSize - 1) / fs.clusterSize

/-- The cluster at a position of a file, and `0` if the file is shorter. -/
def clusterAt (fs : Exfat) (f : FileData) (k : ℕ) : ℕ :=
  if f.clusters.linear = true then
    if f.clusters.firstCluster ≠ 0 ∧ k < f.rowLength fs then f.clusters.firstCluster + k else 0
  else
    fs.clusterAt f.clusters.firstCluster k

/-- The sector of the byte at an offset. -/
structure SectorOf (fs : Exfat) (f : FileData) (offset lba : ℕ) : Prop where
  cluster : f.clusterAt fs (offset / fs.clusterSize) ≠ 0
  eq : lba = fs.heap
    + (f.clusterAt fs (offset / fs.clusterSize) - 2) * (fs.clusterSize / Exfat.SECTOR_SIZE)
    + offset % fs.clusterSize / Exfat.SECTOR_SIZE

/-- The size of a cluster is that of one or more sectors, and a number of 32 bits. With a greater
shift `cluster_size` is not defined. -/
def SizeFits (fs : Exfat) : Prop := 9 ≤ fs.clusterShift ∧ fs.clusterShift < 32

/-- A sector that is found is that of the byte at the offset, and the bytes of other clusters of the
file are in other sectors. -/
def MapsRight (debug : Bool) (updateChain : ℕ → Dm → Bool × Dm) (fs : Exfat) (f : FileData)
    (dm : Dm) (offset : ℕ) (expand : Bool) : Prop :=
  SizeFits fs ∧ ∀ n lba fs' c' dm',
    getLba debug updateChain expand offset n fs f.clusters dm = .ok (lba, fs', c', dm') → lba ≠ 0 →
    SectorOf fs' { f with clusters := c' } offset lba ∧
      ∀ offset', SectorOf fs' { f with clusters := c' } offset' lba →
        offset' / fs'.clusterSize = offset / fs'.clusterSize

/-! ### Files that are consistent -/

/-- A file whose clusters lie in a row has them on the volume, and the chain of another file is
consistent. -/
structure Consistent (debug : Bool) (fs : Exfat) (f : FileData) : Prop where
  heap : 0 < fs.heap
  count : fs.clusterCount ≤ 0xFFFFFFF5
  row : f.clusters.linear = true → f.clusters.firstCluster ≠ 0 →
    2 ≤ f.clusters.firstCluster ∧
      f.clusters.firstCluster + f.rowLength fs ≤ fs.clusterCount + 2
  chain : f.clusters.linear = false → f.clusters.Consistent debug fs
  closed : f.clusters.linear = false → fs.Closed f.clusters.firstCluster

/-- A position that does not fit in 32 bits, or that is beyond the end of a row, does not lead to a
cluster. -/
structure InReach (debug : Bool) (fs : Exfat) (f : FileData) (dm : Dm) (offset : ℕ)
    (expand : Bool) : Prop where
  fits : SizeFits fs
  row : f.clusters.linear = true → f.clusters.firstCluster = 0 ∨
    offset / fs.clusterSize < f.rowLength fs ∨
    ¬ (2 ≤ (f.clusters.firstCluster + offset / fs.clusterSize) % 2 ^ 32 ∧
      (f.clusters.firstCluster + offset / fs.clusterSize) % 2 ^ 32 < fs.clusterCount + 2)
  chain : f.clusters.linear = false → offset / fs.clusterSize < 2 ^ 32 ∨
    fs.clusterAt f.clusters.firstCluster (offset / fs.clusterSize % 2 ^ 32) = 0 ∧
      (expand = true → ∀ dm₁ fs' c' dm',
        f.clusters.get debug fs dm (offset / fs.clusterSize % 2 ^ 32) = .ok (0, f.clusters, dm₁) →
        f.clusters.expand debug fs dm₁ (offset / fs.clusterSize % 2 ^ 32)
          ≠ .ok (true, fs', c', dm'))

variable {debug expand : Bool} {updateChain : ℕ → Dm → Bool × Dm} {fs fs' : Exfat} {f : FileData}
  {dm dm' : Dm} {c c' : ClusterChain} {offset offset' n lba i j k : ℕ}

theorem clusterAt_linear (hl : f.clusters.linear = true) :
  f.clusterAt fs k
    = if f.clusters.firstCluster ≠ 0 ∧ k < f.rowLength fs then f.clusters.firstCluster + k else 0
  := by
  rw [clusterAt, if_pos hl]

theorem clusterAt_chain (hl : f.clusters.linear = false) :
  f.clusterAt fs k = fs.clusterAt f.clusters.firstCluster k
  := by
  rw [clusterAt, if_neg (by rw [hl]; decide)]

namespace Consistent

variable (h : Consistent debug fs f)

include h

/-- The clusters of a file are different from each other. -/
theorem clusterAt_inj (heq : f.clusterAt fs i = f.clusterAt fs j) (h₀ : f.clusterAt fs i ≠ 0) :
  i = j
  := by
  cases hl : f.clusters.linear with
  | true =>
      rw [clusterAt_linear hl, clusterAt_linear hl] at heq
      rw [clusterAt_linear hl] at h₀
      split_ifs at heq h₀
      · lia
      · lia
      · apply absurd rfl h₀
      · apply absurd rfl h₀
  | false =>
      rw [clusterAt_chain hl] at heq h₀
      rw [clusterAt_chain hl] at heq
      apply Exfat.clusterAt_inj (h.closed hl).ends heq h₀

/-- The clusters of a file lie on the volume. -/
theorem clusterAt_bounds (h₀ : f.clusterAt fs k ≠ 0) :
  2 ≤ f.clusterAt fs k ∧ f.clusterAt fs k - 2 < fs.clusterCount
  := by
  cases hl : f.clusters.linear with
  | true =>
      rw [clusterAt_linear hl] at h₀ ⊢
      split_ifs at h₀ ⊢ with hk
      · have := h.row hl hk.1
        lia
      · apply absurd rfl h₀
  | false =>
      rw [clusterAt_chain hl] at h₀ ⊢
      exact ⟨(h.closed hl).two_le k h₀, (h.closed hl).lt_count k h₀⟩

/-- The bytes of different clusters are in different sectors. -/
theorem sectorOf_inj (hfits : SizeFits fs) (h₁ : SectorOf fs f offset lba)
    (h₂ : SectorOf fs f offset' lba) :
  offset' / fs.clusterSize = offset / fs.clusterSize
  := by
  have hdvd : Exfat.SECTOR_SIZE ∣ fs.clusterSize := by
    rw [Exfat.clusterSize, show Exfat.SECTOR_SIZE = 2 ^ 9 from rfl]
    apply pow_dvd_pow 2 hfits.1
  have hpos : 0 < fs.clusterSize := Nat.two_pow_pos _
  have hrest : ∀ o, o % fs.clusterSize / Exfat.SECTOR_SIZE < fs.clusterSize / Exfat.SECTOR_SIZE :=
    fun o => Nat.div_lt_div_of_lt_of_dvd hdvd (Nat.mod_lt o hpos)
  have hm := Nat.lt_of_le_of_lt (Nat.zero_le _) (hrest 0)
  have heq := h₁.eq.symm.trans h₂.eq
  rw [Nat.add_assoc, Nat.add_assoc, Nat.add_left_cancel_iff] at heq
  have hdiv := congrArg (fun s => s / (fs.clusterSize / Exfat.SECTOR_SIZE)) heq
  rw [Nat.add_comm, Nat.add_mul_div_right _ _ hm, Nat.div_eq_of_lt (hrest offset),
    Nat.add_comm _ (offset' % _ / _), Nat.add_mul_div_right _ _ hm,
    Nat.div_eq_of_lt (hrest offset')] at hdiv
  apply h.clusterAt_inj _ h₂.cluster
  have := h.clusterAt_bounds h₁.cluster
  have := h.clusterAt_bounds h₂.cluster
  lia

end Consistent

/-! ### Following the calls -/

/-- The first sector of a cluster, if there is one. -/
theorem lbaOfCluster_inv {cluster base : ℕ} (h : fs.lbaOfCluster debug cluster = .ok base)
    (h₀ : base ≠ 0) :
  (cluster + 2 ^ 32 - 2) % 2 ^ 32 < fs.clusterCount ∧
    base = fs.heap + (cluster - 2) * (fs.clusterSize / Exfat.SECTOR_SIZE)
  := by
  rw [Exfat.lbaOfCluster, Except.bind_eq_ok_iff] at h
  obtain ⟨-, -, h⟩ := h
  split_ifs at h with hlt
  · cases h
    apply absurd rfl h₀
  · cases h
    exact ⟨not_le.1 hlt, rfl⟩

/-- Looking up a cluster of the chain of a file leaves the file consistent. -/
theorem Consistent.looked (h : Consistent debug fs f) (hl : f.clusters.linear = false) {cluster : ℕ}
    (hget : f.clusters.get debug fs dm k = .ok (cluster, c', dm')) :
  (cluster = 0 ∧ c' = f.clusters ∨ cluster ≠ 0 ∧ cluster = f.clusterAt fs k) ∧
    Consistent debug fs { f with clusters := c' } ∧ c'.linear = false ∧
    ∀ k, ({ f with clusters := c' } : FileData).clusterAt fs k = f.clusterAt fs k
  := by
  obtain ⟨hcluster, hright, hfirst, hlinear⟩ := ClusterChain.get_inv (h.chain hl).right hl hget
  have hl' := hlinear.trans hl
  refine ⟨?_, ⟨h.heap, h.count, ?_, ?_, ?_⟩, hl', ?_⟩
  · rw [clusterAt_chain hl]
    apply hcluster
  · intro hl''
    dsimp only at hl''
    rw [hl'] at hl''
    cases hl''
  · intro _
    have := h.chain hl
    exact ⟨hfirst ▸ this.intact, hright, this.media⟩
  · intro _
    dsimp only
    rw [hfirst]
    apply h.closed hl
  · intro k
    rw [clusterAt_chain hl, clusterAt_chain hl']
    dsimp only
    rw [hfirst]

/-- Extending the chain of a file leaves the file consistent. -/
theorem Consistent.expanded (h : Consistent debug fs f) (hl : f.clusters.linear = false)
    (hexpand : f.clusters.expand debug fs dm k = .ok (true, fs', c', dm')) :
  Consistent debug fs' { f with clusters := c' } ∧ c'.linear = false ∧
    fs'.heap = fs.heap ∧ fs'.clusterShift = fs.clusterShift ∧
    ({ f with clusters := c' } : FileData).clusterAt fs' k ≠ 0 ∧
    ∀ j, f.clusterAt fs j ≠ 0 →
      ({ f with clusters := c' } : FileData).clusterAt fs' j = f.clusterAt fs j
  := by
  obtain ⟨hlong, hat⟩ := (h.chain hl).prolonged hexpand
  obtain ⟨hchain, hlinear⟩ := (h.chain hl).expanded hexpand
  have hl' := hlinear.trans hl
  refine ⟨⟨?_, ?_, ?_, fun _ => hchain, fun _ => hlong.closed (h.closed hl)⟩, hl', hlong.heap,
    hlong.shift, ?_, ?_⟩
  · rw [hlong.heap]
    apply h.heap
  · rw [hlong.count]
    apply h.count
  · intro hl''
    dsimp only at hl''
    rw [hl'] at hl''
    cases hl''
  · rw [clusterAt_chain hl']
    apply hat
  · intro j hj
    rw [clusterAt_chain hl] at hj
    rw [clusterAt_chain hl', clusterAt_chain hl]
    apply hlong.kept j hj

/-- At a position that fits in 32 bits, a sector that is found in a chain is the right one, and the
clusters that the chain had are still there. -/
theorem Consistent.getLba_chain (h : Consistent debug fs f) (hl : f.clusters.linear = false)
    (hk : offset / fs.clusterSize < 2 ^ 32)
    (hlba : getLba debug updateChain expand offset n fs f.clusters dm = .ok (lba, fs', c', dm'))
    (h₀ : lba ≠ 0) :
  Consistent debug fs' { f with clusters := c' } ∧ fs'.clusterShift = fs.clusterShift ∧
    SectorOf fs' { f with clusters := c' } offset lba ∧ fs'.heap = fs.heap ∧ c'.linear = false ∧
    ∀ j, f.clusterAt fs j ≠ 0 →
      ({ f with clusters := c' } : FileData).clusterAt fs' j = f.clusterAt fs j
  := by
  induction n generalizing fs f dm with
  | zero => cases hlba
  | succ n ih =>
      rw [getLba, Except.bind_eq_ok_iff] at hlba
      obtain ⟨⟨cluster, c₁, dm₁⟩, hget, hlba⟩ := hlba
      rw [Nat.mod_eq_of_lt hk] at hget
      obtain ⟨hcluster, h₁, hl₁, hat⟩ := h.looked hl hget
      dsimp only at hlba
      by_cases hc : cluster = 0
      · rw [if_neg (not_not.2 hc)] at hlba
        by_cases hexp : expand = true
        · rw [if_pos hexp, Except.bind_eq_ok_iff] at hlba
          obtain ⟨⟨done, fs₂, c₂, dm₂⟩, hexpand, hlba⟩ := hlba
          cases done with
          | false =>
              rw [if_pos rfl] at hlba
              cases hlba
              apply absurd rfl h₀
          | true =>
              rw [Nat.mod_eq_of_lt hk] at hexpand
              obtain ⟨h₂, hl₂, hheap, hshift, -, hkept⟩ := h₁.expanded hl₁ hexpand
              have hsize : fs₂.clusterSize = fs.clusterSize := by
                rw [Exfat.clusterSize, hshift, ← Exfat.clusterSize]
              have hk₂ : offset / fs₂.clusterSize < 2 ^ 32 := by
                rw [hsize]
                apply hk
              dsimp only at hlba
              rw [if_neg (by decide)] at hlba
              by_cases hz : offset / fs.clusterSize = 0
              · -- the first cluster of the file is written to the folder
                rw [if_pos hz, Except.bind_eq_ok_iff] at hlba
                obtain ⟨⟨head, c₃, dm₃⟩, hhead, hlba⟩ := hlba
                obtain ⟨-, h₃, hl₃, hat₃⟩ := h₂.looked hl₂ hhead
                dsimp only at hlba
                split_ifs at hlba
                · cases hlba
                  apply absurd rfl h₀
                · obtain ⟨h', hshift', hsector, hheap', hl', hkept'⟩ := ih h₃ hl₃ hk₂ hlba
                  refine ⟨h', hshift'.trans hshift, hsector, hheap'.trans hheap, hl', ?_⟩
                  intro j hj
                  have hj₁ := (hat j).symm ▸ hj
                  have hj₃ := (hat₃ j).trans (hkept j hj₁)
                  rw [← hat j, ← hj₃]
                  apply hkept' j
                  rw [hj₃]
                  apply hj₁
              · rw [if_neg hz] at hlba
                obtain ⟨h', hshift', hsector, hheap', hl', hkept'⟩ := ih h₂ hl₂ hk₂ hlba
                refine ⟨h', hshift'.trans hshift, hsector, hheap'.trans hheap, hl', ?_⟩
                intro j hj
                have hj₁ := (hat j).symm ▸ hj
                rw [← hat j, ← hkept j hj₁]
                apply hkept' j
                rw [hkept j hj₁]
                apply hj₁
        · rw [if_neg hexp] at hlba
          cases hlba
          apply absurd rfl h₀
      · rw [if_pos hc, Except.bind_eq_ok_iff] at hlba
        obtain ⟨base, hbase, hlba⟩ := hlba
        have hfound := (hcluster.resolve_left (fun hnot => hc hnot.1)).2
        split_ifs at hlba with hb
        · cases hlba
          refine ⟨h₁, rfl, ⟨?_, ?_⟩, rfl, hl₁, fun j _ => hat j⟩
          · rw [hat, ← hfound]
            apply hc
          · rw [hat, ← hfound, (lbaOfCluster_inv hbase hb).2]
        · cases hlba
          apply absurd rfl h₀

/-- A row of clusters is not extended. -/
theorem getLba_row_zero (hl : f.clusters.linear = true)
    (hget : f.clusters.get debug fs dm (offset / fs.clusterSize % 2 ^ 32)
      = .ok (0, f.clusters, dm))
    (hlba : getLba debug updateChain expand offset n fs f.clusters dm = .ok (lba, fs', c', dm')) :
  lba = 0
  := by
  cases n with
  | zero => cases hlba
  | succ n =>
      rw [getLba, hget, Except.ok_bind] at hlba
      dsimp only at hlba
      rw [if_neg (not_not.2 rfl)] at hlba
      by_cases hexp : expand = true
      · rw [if_pos hexp, ClusterChain.expand, if_pos hl] at hlba
        cases hlba
        rfl
      · rw [if_neg hexp] at hlba
        cases hlba
        rfl

/-- In a row of clusters, any number of a cluster of the volume leads to a sector. -/
theorem getLba_row (hl : f.clusters.linear = true)
    (hlba : getLba debug updateChain expand offset n fs f.clusters dm = .ok (lba, fs', c', dm'))
    (h₀ : lba ≠ 0) :
  fs' = fs ∧ c' = f.clusters ∧ f.clusters.firstCluster ≠ 0 ∧
    ∃ x, x = (f.clusters.firstCluster + offset / fs.clusterSize) % 2 ^ 32 ∧
      2 ≤ x ∧ x < fs.clusterCount + 2 ∧
      lba = fs.heap + (x - 2) * (fs.clusterSize / Exfat.SECTOR_SIZE)
        + offset % fs.clusterSize / Exfat.SECTOR_SIZE
  := by
  by_cases hf : f.clusters.firstCluster = 0
  · exfalso
    apply h₀
    apply getLba_row_zero hl _ hlba
    rw [ClusterChain.get, if_pos hf]
    rfl
  obtain ⟨x, hx⟩ : ∃ x, x = (f.clusters.firstCluster + offset / fs.clusterSize) % 2 ^ 32 :=
    ⟨_, rfl⟩
  have hget : f.clusters.get debug fs dm (offset / fs.clusterSize % 2 ^ 32)
      = .ok (x, f.clusters, dm) := by
    rw [ClusterChain.get, if_neg hf, if_pos hl, Nat.add_mod_mod, ← hx]
    rfl
  by_cases hz : x = 0
  · exfalso
    apply h₀
    apply getLba_row_zero hl (hz ▸ hget) hlba
  cases n with
  | zero => cases hlba
  | succ n =>
      rw [getLba, hget, Except.ok_bind] at hlba
      dsimp only at hlba
      rw [if_pos hz, Except.bind_eq_ok_iff] at hlba
      obtain ⟨base, hbase, hlba⟩ := hlba
      by_cases hb : base = 0
      · rw [if_neg (not_not.2 hb)] at hlba
        cases hlba
        apply absurd rfl h₀
      · rw [if_pos hb] at hlba
        cases hlba
        obtain ⟨hlt, heq⟩ := lbaOfCluster_inv hbase hb
        have hcount := fs.count_lt
        have hmod : x < 2 ^ 32 := hx ▸ Nat.mod_lt _ (Nat.two_pow_pos 32)
        refine ⟨rfl, rfl, hf, x, hx, ?_, ?_, ?_⟩
        · lia
        · lia
        · rw [heq]

/-- At a position that does not fit in 32 bits, no sector is found in a chain that is neither long
enough nor extended. -/
theorem Consistent.getLba_passed (h : Consistent debug fs f) (hl : f.clusters.linear = false)
    (hz : fs.clusterAt f.clusters.firstCluster (offset / fs.clusterSize % 2 ^ 32) = 0)
    (hexpand : expand = true → ∀ dm₁ fs' c' dm',
      f.clusters.get debug fs dm (offset / fs.clusterSize % 2 ^ 32) = .ok (0, f.clusters, dm₁) →
      f.clusters.expand debug fs dm₁ (offset / fs.clusterSize % 2 ^ 32) ≠ .ok (true, fs', c', dm'))
    (hlba : getLba debug updateChain expand offset n fs f.clusters dm = .ok (lba, fs', c', dm')) :
  lba = 0
  := by
  cases n with
  | zero => cases hlba
  | succ n =>
      rw [getLba, Except.bind_eq_ok_iff] at hlba
      obtain ⟨⟨cluster, c₁, dm₁⟩, hget, hlba⟩ := hlba
      obtain ⟨hcluster, -⟩ := h.looked hl hget
      rw [clusterAt_chain hl, hz] at hcluster
      obtain ⟨rfl, rfl⟩ := hcluster.resolve_right (fun hnot => hnot.1 hnot.2)
      dsimp only at hlba
      rw [if_neg (not_not.2 rfl)] at hlba
      by_cases hexp : expand = true
      · rw [if_pos hexp, Except.bind_eq_ok_iff] at hlba
        obtain ⟨⟨done, fs₂, c₂, dm₂⟩, hgrown, hlba⟩ := hlba
        cases done with
        | false =>
            cases hlba
            rfl
        | true => apply absurd hgrown (hexpand hexp _ _ _ _ hget)
      · rw [if_neg hexp] at hlba
        cases hlba
        rfl

/-- A cluster that is looked up leads to a sector. -/
theorem Consistent.getLba_found (h : Consistent debug fs f) {cluster : ℕ}
    (hget : f.clusters.get debug fs dm (offset / fs.clusterSize % 2 ^ 32) = .ok (cluster, c', dm'))
    (h₂ : 2 ≤ cluster) (hlt : cluster - 2 < fs.clusterCount) :
  ∃ lba, lba ≠ 0 ∧
    lba = fs.heap + (cluster - 2) * (fs.clusterSize / Exfat.SECTOR_SIZE)
      + offset % fs.clusterSize / Exfat.SECTOR_SIZE ∧
    getLba debug updateChain expand offset (n + 1) fs f.clusters dm = .ok (lba, fs, c', dm')
  := by
  have hcount := h.count
  have hheap := h.heap
  have hbase : fs.lbaOfCluster debug cluster
      = .ok (fs.heap + (cluster - 2) * (fs.clusterSize / Exfat.SECTOR_SIZE)) := by
    rw [Exfat.lbaOfCluster, Fault.assert_eq_ok (fun _ => ⟨h₂, by lia⟩), Except.ok_bind, if_neg]
    · rfl
    · rw [not_le, show cluster + 2 ^ 32 - 2 = cluster - 2 + 2 ^ 32 by lia, Nat.add_mod_right]
      apply lt_of_le_of_lt (Nat.mod_le _ _) hlt
  rw [getLba, hget, Except.ok_bind]
  dsimp only
  rw [if_pos (by lia), hbase, Except.ok_bind, if_pos (by lia)]
  refine ⟨_, ?_, rfl, rfl⟩
  apply Nat.ne_of_gt
  apply Nat.add_pos_left (Nat.add_pos_left hheap _)

/-- When the position does not lead astray, a sector that is found is the right one, whether or not
the accesses to the disk succeed. -/
theorem Consistent.mapsRight (h : Consistent debug fs f)
    (hreach : InReach debug fs f dm offset expand) :
  MapsRight debug updateChain fs f dm offset expand
  := by
  refine ⟨hreach.fits, ?_⟩
  intro n lba fs' c' dm' hlba h₀
  suffices hsector : Consistent debug fs' { f with clusters := c' } ∧
      fs'.clusterShift = fs.clusterShift ∧ SectorOf fs' { f with clusters := c' } offset lba by
    obtain ⟨h', hshift, hsector⟩ := hsector
    have hfits : SizeFits fs' := by
      rw [SizeFits, hshift]
      apply hreach.fits
    exact ⟨hsector, fun offset' hother => h'.sectorOf_inj hfits hsector hother⟩
  cases hl : f.clusters.linear with
  | true =>
      obtain ⟨rfl, rfl, hf, x, hx, h₂, hlt, heq⟩ := getLba_row hl hlba h₀
      have hk := ((hreach.row hl).resolve_left hf).resolve_right
        (fun hnot => hnot (hx ▸ ⟨h₂, hlt⟩))
      have hrow := h.row hl hf
      have hcount := h.count
      rw [Nat.mod_eq_of_lt (by lia)] at hx
      refine ⟨h, rfl, ?_, ?_⟩
      · rw [clusterAt_linear hl, if_pos ⟨hf, hk⟩]
        omega
      · rw [clusterAt_linear hl, if_pos ⟨hf, hk⟩, ← hx]
        apply heq
  | false =>
      obtain hk | ⟨hz, hexpand⟩ := hreach.chain hl
      · obtain ⟨h', hshift, hsector, -⟩ := h.getLba_chain hl hk hlba h₀
        exact ⟨h', hshift, hsector⟩
      · apply absurd (h.getLba_passed hl hz hexpand hlba) h₀

/-- Beyond `2 ^ 32` positions a chain has no clusters. -/
theorem Consistent.clusterAt_eq_zero (h : Consistent debug fs f) (hl : f.clusters.linear = false)
    (hk : 2 ^ 32 ≤ k) :
  f.clusterAt fs k = 0
  := by
  rw [clusterAt_chain hl]
  by_contra hne
  have := (h.closed hl).lt_clusterCount hne
  have := fs.count_lt
  omega

/-- A sector that is found for an offset in a file is that of the byte there exactly if the position
of the cluster leads to no other cluster. One direction does without the accesses to the disk. -/
theorem mapsRight_iff (h : Consistent debug fs f) :
  (InReach debug fs f dm offset expand → MapsRight debug updateChain fs f dm offset expand) ∧
    (dm.Succeeds →
      (MapsRight debug updateChain fs f dm offset expand ↔ InReach debug fs f dm offset expand))
  := by
  refine ⟨h.mapsRight, fun hdm => ⟨?_, h.mapsRight⟩⟩
  rintro ⟨hfits, hright⟩
  refine ⟨hfits, ?_, ?_⟩
  · intro hl
    by_contra hnot
    rw [not_or, not_or, not_not, not_lt] at hnot
    obtain ⟨hf, hle, h₂, hlt⟩ := hnot
    have hget : f.clusters.get debug fs dm (offset / fs.clusterSize % 2 ^ 32)
        = .ok ((f.clusters.firstCluster + offset / fs.clusterSize) % 2 ^ 32, f.clusters, dm) := by
      rw [ClusterChain.get, if_neg hf, if_pos hl, Nat.add_mod_mod]
      rfl
    obtain ⟨lba, h₀, -, hlba⟩ := h.getLba_found hget h₂ (by omega)
    apply (hright 1 lba _ _ _ hlba h₀).1.cluster
    rw [clusterAt_linear hl, if_neg]
    rintro ⟨-, hk⟩
    apply absurd hk (not_lt.2 hle)
  · intro hl
    by_contra hnot
    rw [not_or, not_lt, not_and_or] at hnot
    obtain ⟨hle, hnot⟩ := hnot
    obtain ⟨c₁, dm₁, hget, -⟩ := ClusterChain.get_eq (h.chain hl).intact (h.chain hl).right hl hdm
      (offset / fs.clusterSize % 2 ^ 32)
    obtain ⟨-, h₁, hl₁, hat⟩ := h.looked hl hget
    by_cases hz : fs.clusterAt f.clusters.firstCluster (offset / fs.clusterSize % 2 ^ 32) = 0
    · -- the chain is extended to the truncated position
      have hnot' := hnot.resolve_left (not_not.2 hz)
      push Not at hnot'
      obtain ⟨hexp, dm₂, fs₃, c₃, dm₃, hget₂, hgrown⟩ := hnot'
      obtain ⟨h₃, hl₃, -, hshift, hat₃, -⟩ := h.expanded hl hgrown
      have hdm₃ : dm₃.Succeeds := by
        intro i
        rw [ClusterChain.expand_succeeds_eq hgrown, ClusterChain.get_succeeds_eq hget₂]
        apply hdm
      have hsize : fs₃.clusterSize = fs.clusterSize := by
        rw [Exfat.clusterSize, hshift, ← Exfat.clusterSize]
      rw [clusterAt_chain hl₃] at hat₃
      rw [← hsize] at hat₃
      obtain ⟨c₄, dm₄, hget₄, -⟩ := ClusterChain.get_eq (h₃.chain hl₃).intact (h₃.chain hl₃).right
        hl₃ hdm₃ (offset / fs₃.clusterSize % 2 ^ 32)
      obtain ⟨-, h₄, hl₄, -⟩ := h₃.looked hl₃ hget₄
      obtain ⟨lba, h₀, -, hlba⟩ := h₃.getLba_found hget₄ ((h₃.closed hl₃).two_le _ hat₃)
        ((h₃.closed hl₃).lt_count _ hat₃)
      have hround : getLba debug updateChain expand offset 2 fs f.clusters dm
          = .ok (lba, fs₃, c₄, dm₄) := by
        rw [getLba, hget₂, Except.ok_bind]
        dsimp only
        rw [if_neg (not_not.2 rfl), if_pos hexp, hgrown, Except.ok_bind]
        dsimp only
        rw [if_neg (by decide), if_neg (by omega)]
        apply hlba
      apply (hright 2 lba _ _ _ hround h₀).1.cluster
      apply h₄.clusterAt_eq_zero hl₄
      rw [hsize]
      apply hle
    · obtain ⟨lba, h₀, -, hlba⟩ := h.getLba_found hget ((h.closed hl).two_le _ hz)
        ((h.closed hl).lt_count _ hz)
      apply (hright 1 lba _ _ _ hlba h₀).1.cluster
      apply h₁.clusterAt_eq_zero hl₁ hle

/-- A file with the chain of three clusters. -/
def chained : FileData where
  clusters := { firstCluster := 2 }
  allocSize := 0x3000

/-- A file whose only cluster is the cluster `2`. -/
def row : FileData where
  clusters := { firstCluster := 2, linear := true }
  allocSize := 0x1000

theorem consistent_chained : Consistent true (Chains.threeClusters true) chained := by
  refine ⟨by decide, by decide, (fun hl => by cases hl),
    fun _ => ClusterChain.consistent_threeClusters, ?_⟩
  intro _
  have hmem := Chains.clusterAt_threeClusters true
  refine ⟨⟨3, by decide⟩, ?_, ?_⟩
  · intro j
    have := hmem j
    change (Chains.threeClusters true).clusterAt 2 j ≠ 0 →
      2 ≤ (Chains.threeClusters true).clusterAt 2 j
    generalize (Chains.threeClusters true).clusterAt 2 j = c at this
    revert c
    decide
  · intro j
    have := hmem j
    change (Chains.threeClusters true).clusterAt 2 j ≠ 0 →
      (Chains.threeClusters true).clusterAt 2 j - 2 < 8
    generalize (Chains.threeClusters true).clusterAt 2 j = c at this
    revert c
    decide

/-- A byte of the third cluster of a chain is in its second sector. -/
theorem mapsRight_chained :
  ((getLba true (fun _ dm => (true, dm)) false 0x2200 1 (Chains.threeClusters true)
      chained.clusters Chains.reading).map Prod.fst).toOption = some 49 ∧
    MapsRight true (fun _ dm => (true, dm)) (Chains.threeClusters true) chained Chains.reading
      0x2200 false
  := by
  refine ⟨by decide, (mapsRight_iff consistent_chained).1 ⟨⟨by decide, by decide⟩, ?_, ?_⟩⟩
  · intro hl
    cases hl
  · intro _
    left
    decide

/-- The byte after the end of a row of one cluster is found in the next cluster of the volume, which
is that of another file. -/
theorem row_exceeded :
  Consistent true (Chains.threeClusters true) row ∧
    ¬ MapsRight true (fun _ dm => (true, dm)) (Chains.threeClusters true) row Chains.reading
      0x1000 true
  := by
  refine ⟨⟨by decide, by decide, fun _ _ => ⟨by decide, by decide⟩, (fun hl => by cases hl),
    fun hl => by cases hl⟩, ?_⟩
  intro h
  apply (h.2 1 40 _ _ _ rfl (by decide)).1.cluster
  decide

end FileData

end UOS
