import Cofuos.FileSystem.ClusterCache

/-!
# Extending a chain of clusters

A chain is extended by one cluster after the other: a cluster is taken from the bitmap, its entry is
made the end of a chain, and the entry of the last cluster is made to refer to it. Each of these may
fail for want of a sector of the disk, and nothing is undone then.

We show what an extension that succeeds has done to the volume, and which extensions that fail have
taken a cluster from the bitmap that no chain has got.
-/

namespace UOS

namespace Exfat

/-! ### Clusters that are added to a chain -/

/-- The bitmap has the clusters of a chain as used, and the entry `0` of the allocation table is not
that of a cluster. The entries of the chain may be of any kind. -/
structure Tracks (fs : Exfat) (first : ℕ) : Prop where
  used : ∀ j, 2 ≤ fs.clusterAt first j → fs.clusterAt first j - 2 < fs.clusterCount →
    fs.used (fs.clusterAt first j - 2) = true
  media : END ≤ fs.fat 0

/-- A cluster that was free is in use, and its entry can be read. -/
structure Added (fs fs' : Exfat) (cluster : ℕ) : Prop where
  two_le : 2 ≤ cluster
  lt_count : cluster - 2 < fs.clusterCount
  free : fs.used (cluster - 2) = false
  used : fs'.used (cluster - 2) = true
  entry : fs'.entry cluster ≠ 0

/-- The chain of `first` has become that of `first'`. It keeps its clusters, those that it has got
were free, there are no other clusters that have been taken from the bitmap, and it still has an
end. -/
structure Prolonged (fs fs' : Exfat) (first first' : ℕ) : Prop where
  count : fs'.clusterCount = fs.clusterCount
  heap : fs'.heap = fs.heap
  shift : fs'.clusterShift = fs.clusterShift
  media : fs'.fat 0 = fs.fat 0
  used : ∀ p, fs.used p = true → fs'.used p = true
  kept : ∀ j, fs.clusterAt first j ≠ 0 → fs'.clusterAt first' j = fs.clusterAt first j
  added : ∀ j, fs.clusterAt first j = 0 → fs'.clusterAt first' j ≠ 0 →
    fs.Added fs' (fs'.clusterAt first' j)
  marked : ∀ p, fs.used p = false → fs'.used p = true → ∃ j, fs'.clusterAt first' j = p + 2
  ends : (∃ n, fs.clusterAt first n = 0) → ∃ n, fs'.clusterAt first' n = 0
  alive : ∀ x, fs.entry x ≠ 0 → fs'.entry x ≠ 0
  others : ∀ x, 2 ≤ x → fs.used (x - 2) = true → (∀ j, fs.clusterAt first j ≠ x) →
    fs'.fat x = fs.fat x

variable {fs fs' fs'' : Exfat} {first first' first'' i j p x : ℕ}

/-- A cluster that is free does not belong to a chain whose clusters are in use. -/
theorem Tracks.clusterAt_ne (h : fs.Tracks first) (hp : p < fs.clusterCount)
    (hfree : fs.used p = false) (j : ℕ) :
  fs.clusterAt first j ≠ p + 2
  := by
  intro heq
  have hused := h.used j
  rw [heq, Nat.add_sub_cancel, hfree] at hused
  cases hused (Nat.le_add_left 2 p) hp

namespace Prolonged

theorem refl (fs : Exfat) (first : ℕ) : fs.Prolonged fs first first := by
  constructor
  · rfl
  · rfl
  · rfl
  · rfl
  · intro p h
    apply h
  · intro j _
    rfl
  · intro j h h'
    apply absurd h h'
  · intro p h h'
    rw [h] at h'
    cases h'
  · intro h
    apply h
  · intro x h
    apply h
  · intro x _ _ _
    rfl

/-- A cluster of a chain that has been prolonged was one before, or has been added. -/
theorem clusterAt_eq_or (h : fs.Prolonged fs' first first') (hj : fs'.clusterAt first' j ≠ 0) :
  fs'.clusterAt first' j = fs.clusterAt first j ∨ fs.Added fs' (fs'.clusterAt first' j)
  := by
  by_cases h₀ : fs.clusterAt first j = 0
  · right
    apply h.added j h₀ hj
  · left
    apply h.kept j h₀

theorem tracks (h : fs.Prolonged fs' first first') (ht : fs.Tracks first) :
  fs'.Tracks first'
  := by
  constructor
  · intro j h₂ hlt
    obtain heq | hadd := h.clusterAt_eq_or (j := j) (by omega)
    · rw [heq] at h₂ hlt ⊢
      rw [h.count] at hlt
      apply h.used _ (ht.used j h₂ hlt)
    · apply hadd.used
  · rw [h.media]
    apply ht.media

theorem trans (h : fs.Prolonged fs' first first') (h' : fs'.Prolonged fs'' first' first'') :
  fs.Prolonged fs'' first first''
  := by
  constructor
  · rw [h'.count, h.count]
  · rw [h'.heap, h.heap]
  · rw [h'.shift, h.shift]
  · rw [h'.media, h.media]
  · intro p hp
    apply h'.used p (h.used p hp)
  · intro j hj
    have hkept := h.kept j hj
    rw [h'.kept j (hkept ▸ hj), hkept]
  · intro j h₀ hj
    by_cases h₁ : fs'.clusterAt first' j = 0
    · have hadd := h'.added j h₁ hj
      refine ⟨hadd.two_le, h.count ▸ hadd.lt_count, ?_, hadd.used, hadd.entry⟩
      by_contra hused
      rw [Bool.not_eq_false] at hused
      have := h.used _ hused
      rw [hadd.free] at this
      cases this
    · have hadd := h.added j h₀ h₁
      rw [h'.kept j h₁]
      exact ⟨hadd.two_le, hadd.lt_count, hadd.free, h'.used _ hadd.used, h'.alive _ hadd.entry⟩
  · intro p hp hp''
    by_cases hp' : fs'.used p = true
    · obtain ⟨j, hj⟩ := h.marked p hp hp'
      use j
      rw [h'.kept j (by omega), hj]
    · apply h'.marked p (Bool.eq_false_iff.2 hp') hp''
  · intro hn
    apply h'.ends (h.ends hn)
  · intro x hx
    apply h'.alive x (h.alive x hx)
  · intro x h₂ hused hnot
    rw [h'.others x h₂ (h.used _ hused), h.others x h₂ hused hnot]
    rintro j rfl
    obtain heq | hadd := h.clusterAt_eq_or (j := j) (by omega)
    · apply hnot j heq.symm
    · have := hadd.free
      rw [hused] at this
      cases this

end Prolonged

/-! ### Appending one cluster -/

/-- A number whose entry lies in the allocation table does not mark the end of a chain. -/
theorem lt_END_of_mem_table (h : x / elementPerSector < fs.fatLimit) : x < END := by
  have hlimit : fs.fatLimit ≤ (2 ^ 32 - 1) / 128 := by
    apply Nat.div_le_div_right
    apply Nat.le_sub_one_of_lt (Nat.mod_lt _ (by decide))
  rw [show elementPerSector = 128 from rfl] at h
  rw [show END = 4294967288 from rfl]
  norm_num at hlimit
  lia

/-- A chain is prolonged when a free cluster becomes its last one, and the only other entry that is
changed is one of the chain. -/
theorem prolonged_of_new (hcount : fs'.clusterCount = fs.clusterCount) (hheap : fs'.heap = fs.heap)
    (hshift : fs'.clusterShift = fs.clusterShift)
    (hused : fs'.used = Function.update fs.used p true) (hp : p < fs.clusterCount)
    (hfree : fs.used p = false)
    (hkept : ∀ j, fs.clusterAt first j ≠ 0 → fs'.clusterAt first' j = fs.clusterAt first j)
    (hat : fs'.clusterAt first' i = p + 2) (hend : fs'.clusterAt first' (i + 1) = 0)
    (hbefore : ∀ j < i, fs.clusterAt first j ≠ 0) (hnew : fs'.entry (p + 2) ≠ 0)
    (hfat : ∀ x, x ≠ p + 2 → fs'.fat x = fs.fat x ∨
      (∃ j, fs.clusterAt first j = x) ∧ x ≠ 0 ∧ fs'.fat x ≠ 0) :
  fs.Prolonged fs' first first'
  := by
  have hset : fs'.used p = true := by
    rw [hused, Function.update_self]
  constructor
  · apply hcount
  · apply hheap
  · apply hshift
  · apply (hfat 0 (by lia)).resolve_right
    rintro ⟨-, h₀, -⟩
    apply h₀ rfl
  · intro q hq
    by_cases heq : q = p
    · rw [heq, hset]
    · rw [hused, Function.update_of_ne heq, hq]
  · apply hkept
  · intro j h₀ hj
    -- the only position at which there has been no cluster before
    have hle : i ≤ j := by
      by_contra hlt
      apply hbefore j (not_le.1 hlt) h₀
    have hlt : j < i + 1 := by
      by_contra hge
      apply hj
      rw [← Nat.add_sub_cancel' (not_lt.1 hge)]
      apply clusterAt_add_eq_zero hend
    rw [show j = i by lia, hat]
    rw [← Nat.add_sub_cancel p 2] at hp hfree hset
    exact ⟨Nat.le_add_left 2 p, hp, hfree, hset, hnew⟩
  · intro q hq hq'
    by_cases heq : q = p
    · rw [heq]
      exact ⟨i, hat⟩
    · rw [hused, Function.update_of_ne heq, hq] at hq'
      cases hq'
  · intro _
    exact ⟨i + 1, hend⟩
  · intro x hx
    by_cases heq : x = p + 2
    · rw [heq]
      apply hnew
    · rw [entry] at hx ⊢
      rw [fatLimit_eq hcount]
      split_ifs at hx ⊢ with hin
      · obtain h | ⟨-, -, h⟩ := hfat x heq
        · rw [h]
          apply hx
        · apply h
      · apply absurd rfl hx
  · intro x h₂ hx hnot
    apply (hfat x ?_).resolve_right
    · rintro ⟨⟨j, hj⟩, -⟩
      apply hnot j hj
    · rintro rfl
      rw [Nat.add_sub_cancel, hfree] at hx
      cases hx

variable {hp : p < fs.clusterCount} {tail : ℕ}

/-- A chain that was empty is begun by a free cluster. -/
theorem prolonged_empty (hfree : fs.used p = false)
    (hin : (p + 2) / elementPerSector < fs.fatLimit) :
  fs.Prolonged ((fs.setUsed p hp).setEntry (p + 2) 0xFFFFFFFF) 0 (p + 2)
  := by
  obtain ⟨fs', hfs'⟩ : ∃ fs', fs' = (fs.setUsed p hp).setEntry (p + 2) 0xFFFFFFFF := ⟨_, rfl⟩
  rw [← hfs']
  have hentry : fs'.entry (p + 2) = 0xFFFFFFFF := by
    rw [hfs']
    dsimp only [entry, setEntry, setUsed]
    rw [Function.update_self]
    apply if_pos hin
  have hzero : ∀ j, fs.clusterAt 0 j = 0 := by
    intro j
    rw [← Nat.zero_add j]
    apply clusterAt_add_eq_zero rfl
  apply prolonged_of_new (i := 0) (by rw [hfs']; rfl) (by rw [hfs']; rfl) (by rw [hfs']; rfl)
    (by rw [hfs']; rfl) hp hfree
  · intro j hj
    apply absurd (hzero j) hj
  · rfl
  · rw [clusterAt_succ, clusterAt_zero, next, hentry, if_pos (Or.inr (by decide))]
  · intro j hj
    apply absurd hj (Nat.not_lt_zero j)
  · rw [hentry]
    decide
  · intro x hx
    left
    rw [hfs']
    apply Function.update_of_ne hx

/-- A chain gets a free cluster after its last one. -/
theorem prolonged_last (ht : fs.Tracks first) (hfree : fs.used p = false)
    (hin : (p + 2) / elementPerSector < fs.fatLimit) (htail : fs.clusterAt first i = tail)
    (h₀ : tail ≠ 0) (hin' : tail / elementPerSector < fs.fatLimit)
    (hend : END ≤ ((fs.setUsed p hp).setEntry (p + 2) 0xFFFFFFFF).fat tail) :
  fs.Prolonged (((fs.setUsed p hp).setEntry (p + 2) 0xFFFFFFFF).setEntry tail (p + 2)) first first ∧
    (((fs.setUsed p hp).setEntry (p + 2) 0xFFFFFFFF).setEntry tail (p + 2)).clusterAt first (i + 1)
      = p + 2
  := by
  obtain ⟨fs', hfs'⟩ : ∃ fs', fs' = ((fs.setUsed p hp).setEntry (p + 2) 0xFFFFFFFF).setEntry tail
    (p + 2) := ⟨_, rfl⟩
  rw [← hfs']
  have hne : tail ≠ p + 2 := htail ▸ ht.clusterAt_ne hp hfree i
  have hlast : fs.next tail = 0 := by
    dsimp only [setEntry, setUsed] at hend
    rw [Function.update_of_ne hne] at hend
    rw [next, entry, if_pos hin']
    apply if_pos (Or.inr hend)
  have hother : ∀ x, x ≠ tail → x ≠ p + 2 → fs'.fat x = fs.fat x := by
    intro x h₁ h₂
    rw [hfs']
    dsimp only [setEntry, setUsed]
    rw [Function.update_of_ne h₁, Function.update_of_ne h₂]
  have htail' : fs'.fat tail = p + 2 := by
    rw [hfs']
    apply Function.update_self
  have hlimit : fs'.fatLimit = fs.fatLimit := fatLimit_eq (by rw [hfs']; rfl)
  have hentry : fs'.entry (p + 2) = 0xFFFFFFFF := by
    rw [entry, hlimit, if_pos hin, hfs']
    dsimp only [setEntry, setUsed]
    rw [Function.update_of_ne hne.symm, Function.update_self]
  have hkept : ∀ j, fs.clusterAt first j ≠ 0 → fs'.clusterAt first j = fs.clusterAt first j := by
    apply clusterAt_eq_of_next
    intro j hj hj'
    rw [next, next, entry, entry, hlimit, hother]
    · rintro heq
      rw [heq] at hj'
      apply hj' hlast
    · apply ht.clusterAt_ne hp hfree
  have hat : fs'.clusterAt first (i + 1) = p + 2 := by
    rw [clusterAt_succ, hkept i (htail ▸ h₀), htail, next, entry, hlimit, if_pos hin', htail',
      if_neg]
    rw [not_or]
    exact ⟨h₀, not_le.2 (lt_END_of_mem_table hin)⟩
  refine ⟨?_, hat⟩
  apply prolonged_of_new (by rw [hfs']; rfl) (by rw [hfs']; rfl) (by rw [hfs']; rfl)
    (by rw [hfs']; rfl) hp hfree hkept hat
  · rw [clusterAt_succ, hat, next, hentry, if_pos (Or.inr (by decide))]
  · intro j hj
    apply clusterAt_ne_zero_of_le (htail ▸ h₀) (Nat.le_of_lt_succ hj)
  · rw [hentry]
    decide
  · intro x hx
    by_cases heq : x = tail
    · right
      rw [heq, htail']
      exact ⟨⟨i, htail⟩, h₀, by lia⟩
    · left
      apply hother x heq hx

end Exfat

/-- A cluster that is allocated is that of a position of the bitmap, which was clear. -/
theorem Allocator.get_eq_add_two {fs fs₁ : Exfat} {alloc alloc' : Allocator} {dm dm₁ : Dm}
    {next : ℕ} (hget : alloc.get fs dm = .ok (next, fs₁, alloc', dm₁)) (h₀ : next ≠ 0) :
  ∃ p hp, fs.used p = false ∧ next = p + 2 ∧ fs₁ = fs.setUsed p hp
  := by
  obtain ⟨h, -⟩ | ⟨h₂, hp, hfree, hfs⟩ := Allocator.get_inv hget
  · apply absurd h h₀
  · exact ⟨next - 2, hp, hfree, (Nat.sub_add_cancel h₂).symm, hfs⟩

theorem Allocator.two_le_of_get {fs fs₁ : Exfat} {alloc alloc' : Allocator} {dm dm₁ : Dm}
    {next : ℕ} (hget : alloc.get fs dm = .ok (next, fs₁, alloc', dm₁)) (h₀ : next ≠ 0) :
  2 ≤ next
  := by
  obtain ⟨p, -, -, rfl, -⟩ := Allocator.get_eq_add_two hget h₀
  apply Nat.le_add_left

namespace ClusterChain

variable {debug : Bool} {fs fs' : Exfat} {c c' : ClusterChain} {dm dm' : Dm} {r r' : FatReader}
  {alloc alloc' : Allocator} {cur tail : Line} {done : Bool} {first index n next : ℕ}

/-! ### Appending clusters -/

/-- The line of a cluster that has been appended to `tail`. -/
def appendedLine (c : ClusterChain) (tail : Line) (next : ℕ) : Line :=
  { index := if c.firstCluster = 0 then tail.index else tail.index + 1, cluster := next }

/-- The chain after a cluster has been appended. -/
def begunBy (c : ClusterChain) (next : ℕ) : ClusterChain :=
  if c.firstCluster = 0 then { c with firstCluster := next } else c

/-- What a round of `allocate` comes to: there is no free cluster, or it cannot be appended, or it is
appended and is not the last one, or it is. -/
theorem allocate_cases
    (h : allocate debug index (n + 1) fs c tail alloc r dm = .ok (done, fs', c', dm')) :
  ∃ next fs₁ alloc₁ dm₁, alloc.get fs dm = .ok (next, fs₁, alloc₁, dm₁) ∧
    ((next = 0 ∧ done = false ∧ fs' = fs₁ ∧ c' = c ∧ dm' = r.close (alloc₁.close dm₁)) ∨
    next ≠ 0 ∧ ∃ joined fs₂ r₂ dm₂,
      r.put debug fs₁ dm₁ tail.cluster next = .ok (joined, fs₂, r₂, dm₂) ∧
      ((joined = false ∧ done = false ∧ fs' = fs₂ ∧ c' = c ∧ dm' = r₂.close (alloc₁.close dm₂)) ∨
      (joined = true ∧ (c.appendedLine tail next).index < index ∧
        allocate debug index n fs₂ (c.begunBy next) (c.appendedLine tail next) alloc₁ r₂ dm₂
          = .ok (done, fs', c', dm')) ∨
      (joined = true ∧ index ≤ (c.appendedLine tail next).index ∧ done = true ∧ fs' = fs₂ ∧
        c' = c.begunBy next ∧ dm' = r₂.close (alloc₁.close dm₂))))
  := by
  rw [allocate, Except.bind_eq_ok_iff] at h
  obtain ⟨⟨next, fs₁, alloc₁, dm₁⟩, hget, h⟩ := h
  refine ⟨next, fs₁, alloc₁, dm₁, hget, ?_⟩
  dsimp only at h
  by_cases h₀ : next = 0
  · rw [if_pos h₀] at h
    cases h
    exact .inl ⟨h₀, rfl, rfl, rfl, rfl⟩
  right
  rw [if_neg h₀, Except.bind_eq_ok_iff] at h
  obtain ⟨⟨joined, fs₂, r₂, dm₂⟩, hput, h⟩ := h
  refine ⟨h₀, joined, fs₂, r₂, dm₂, hput, ?_⟩
  dsimp only at h
  cases joined with
  | false =>
      rw [if_pos rfl] at h
      cases h
      exact .inl ⟨rfl, rfl, rfl, rfl, rfl⟩
  | true =>
      right
      rw [if_neg (by decide)] at h
      change (if (c.appendedLine tail next).index < index then
        allocate debug index n fs₂ (c.begunBy next) (c.appendedLine tail next) alloc₁ r₂ dm₂
        else _) = _ at h
      by_cases hlt : (c.appendedLine tail next).index < index
      · rw [if_pos hlt] at h
        exact .inl ⟨rfl, hlt, h⟩
      · rw [if_neg hlt] at h
        cases h
        exact .inr ⟨rfl, not_lt.1 hlt, rfl, rfl, rfl, rfl⟩

/-- A cluster is appended to the line of a cluster of the chain, or to nothing if the chain is
empty. -/
structure Ends (fs : Exfat) (c : ClusterChain) (tail : Line) : Prop where
  tracks : fs.Tracks c.firstCluster
  correct : tail.cluster = fs.clusterAt c.firstCluster tail.index
  empty : c.firstCluster = 0 → tail.index = 0
  nonempty : c.firstCluster ≠ 0 → tail.cluster ≠ 0

/-- Appending a cluster prolongs the chain. -/
theorem Ends.append {fs₁ : Exfat} {dm₁ : Dm} (h : Ends fs c tail)
    (hget : alloc.get fs dm = .ok (next, fs₁, alloc', dm₁)) (h₀ : next ≠ 0) (hr : r.Valid fs)
    (hput : r.put debug fs₁ dm₁ tail.cluster next = .ok (true, fs', r', dm')) :
  fs.Prolonged fs' c.firstCluster (c.begunBy next).firstCluster ∧
    Ends fs' (c.begunBy next) (c.appendedLine tail next) ∧ r'.Valid fs'
  := by
  obtain ⟨p, hp, hfree, rfl, rfl⟩ := Allocator.get_eq_add_two hget h₀
  have hr₁ : r.Valid (fs.setUsed p hp) := hr
  obtain ⟨hr', hjoined, -⟩ := FatReader.put_joined hr₁ hput
  obtain ⟨hin, hjoin⟩ := hjoined rfl
  by_cases hf : c.firstCluster = 0
  · have ht : tail.cluster = 0 := by
      rw [h.correct, h.empty hf]
      apply hf
    obtain ⟨-, rfl⟩ := hjoin.resolve_right (fun hnot => hnot.1 ht)
    have hlong : fs.Prolonged ((fs.setUsed p hp).setEntry (p + 2) 0xFFFFFFFF) c.firstCluster
        (p + 2) := by
      rw [hf]
      apply Exfat.prolonged_empty hfree hin
    rw [begunBy, if_pos hf, appendedLine, if_pos hf]
    refine ⟨hlong, ⟨hlong.tracks h.tracks, ?_, fun _ => h.empty hf, fun _ => h₀⟩, hr'⟩
    rw [h.empty hf]
    rfl
  · have ht := h.nonempty hf
    obtain ⟨-, hin', hend, rfl⟩ := hjoin.resolve_left (fun hnot => ht hnot.1)
    obtain ⟨hlong, hat⟩ := Exfat.prolonged_last h.tracks hfree hin h.correct.symm ht hin' hend
    rw [begunBy, if_neg hf, appendedLine, if_neg hf]
    refine ⟨hlong, ⟨hlong.tracks h.tracks, hat.symm, fun hf' => absurd hf' hf, fun _ => h₀⟩, hr'⟩

/-- An extension takes a cluster from the bitmap that the chain does not get. -/
inductive Strays (debug : Bool) (index : ℕ) :
    Exfat → ClusterChain → Line → Allocator → FatReader → Dm → Prop
  /-- The bit of a cluster is set whose number exceeds the width of the numbers. -/
  | number {fs fs₁ : Exfat} {c : ClusterChain} {tail : Line} {alloc alloc₁ : Allocator}
      {r : FatReader} {dm dm₁ : Dm} : alloc.get fs dm = .ok (0, fs₁, alloc₁, dm₁) →
      fs₁.used ≠ fs.used → Strays debug index fs c tail alloc r dm
  /-- The bit of a cluster is set, and the cluster cannot be appended. -/
  | entry {fs fs₁ : Exfat} {c : ClusterChain} {tail : Line} {alloc alloc₁ : Allocator}
      {r : FatReader} {dm dm₁ : Dm} {next : ℕ} :
      alloc.get fs dm = .ok (next, fs₁, alloc₁, dm₁) → next ≠ 0 →
      r.PutFails debug fs₁ dm₁ tail.cluster next →
      Strays debug index fs c tail alloc r dm
  /-- A cluster is appended, and a later one is not. -/
  | later {fs fs₁ fs₂ : Exfat} {c : ClusterChain} {tail : Line} {alloc alloc₁ : Allocator}
      {r r₂ : FatReader} {dm dm₁ dm₂ : Dm} {next : ℕ} :
      alloc.get fs dm = .ok (next, fs₁, alloc₁, dm₁) → next ≠ 0 →
      r.put debug fs₁ dm₁ tail.cluster next = .ok (true, fs₂, r₂, dm₂) →
      (c.appendedLine tail next).index < index →
      Strays debug index fs₂ (c.begunBy next) (c.appendedLine tail next) alloc₁ r₂ dm₂ →
      Strays debug index fs c tail alloc r dm

/-- Unless a cluster is lost, an extension prolongs the chain, whether or not it succeeds. -/
theorem allocate_prolonged
    (h : allocate debug index n fs c tail alloc r dm = .ok (done, fs', c', dm'))
    (hends : Ends fs c tail) (hr : r.Valid fs)
    (hstrays : done = true ∨ ¬ Strays debug index fs c tail alloc r dm) :
  fs.Prolonged fs' c.firstCluster c'.firstCluster ∧
    (done = true → fs'.clusterAt c'.firstCluster index ≠ 0)
  := by
  induction n generalizing fs c tail alloc r dm with
  | zero => cases h
  | succ n ih =>
      obtain ⟨next, fs₁, alloc₁, dm₁, hget, hround⟩ := allocate_cases h
      rcases hround with ⟨rfl, rfl, rfl, rfl, -⟩ | ⟨h₀, joined, fs₂, r₂, dm₂, hput, hround⟩
      · have hnot := hstrays.resolve_left (by decide)
        refine ⟨?_, fun hd => by cases hd⟩
        obtain ⟨-, rfl⟩ | ⟨p, hp, hfree, -, rfl⟩ := Allocator.search_inv hget
        · apply Exfat.Prolonged.refl
        · exfalso
          apply hnot
          apply Strays.number hget
          intro heq
          have := congrFun heq p
          rw [hfree] at this
          dsimp only [Exfat.setUsed] at this
          rw [Function.update_self] at this
          cases this
      rcases hround with ⟨rfl, rfl, -⟩ | ⟨rfl, hlt, hrest⟩ | ⟨rfl, hge, rfl, rfl, rfl, -⟩
      · exfalso
        apply hstrays.resolve_left (by decide)
        apply Strays.entry hget h₀
        apply (FatReader.put_eq_false_iff (Allocator.two_le_of_get hget h₀)).1 ⟨_, _, _, hput⟩
      · obtain ⟨hlong, hends', hr₂⟩ := hends.append hget h₀ hr hput
        obtain ⟨hlong', hat⟩ := ih hrest hends' hr₂
          (hstrays.imp_right fun hnot hs => hnot (Strays.later hget h₀ hput hlt hs))
        exact ⟨hlong.trans hlong', hat⟩
      · obtain ⟨hlong, hends', -⟩ := hends.append hget h₀ hr hput
        refine ⟨hlong, fun _ => ?_⟩
        apply Exfat.clusterAt_ne_zero_of_le _ hge
        rw [← hends'.correct]
        apply h₀

/-- A cluster that has been taken from the bitmap is lost: no entry of the chain refers to it. -/
def Lost (fs fs' : Exfat) (first' : ℕ) : Prop :=
  ∃ p, fs.used p = false ∧ fs'.used p = true ∧ ∀ j, fs'.clusterAt first' j ≠ p + 2

/-- A cluster that cannot be appended is lost. -/
theorem lost_of_put {fs₁ : Exfat} {dm₁ : Dm} (ht : fs.Tracks first) (hr : r.Valid fs)
    (hget : alloc.get fs dm = .ok (next, fs₁, alloc', dm₁)) (h₀ : next ≠ 0) {cluster : ℕ}
    (hput : r.put debug fs₁ dm₁ cluster next = .ok (false, fs', r', dm')) :
  Lost fs fs' first
  := by
  obtain ⟨p, hp, hfree, rfl, rfl⟩ := Allocator.get_eq_add_two hget h₀
  have hr₁ : r.Valid (fs.setUsed p hp) := hr
  have hset : (fs.setUsed p hp).used p = true := Function.update_self ..
  have hnot := ht.clusterAt_ne hp hfree
  obtain rfl | rfl := (FatReader.put_joined hr₁ hput).2.2 rfl
  · exact ⟨p, hfree, hset, hnot⟩
  · refine ⟨p, hfree, hset, ?_⟩
    -- the chain does not come to the entry that has been changed
    have hsame : ∀ j, ((fs.setUsed p hp).setEntry (p + 2) 0xFFFFFFFF).clusterAt first j
        = fs.clusterAt first j := by
      intro j
      induction j with
      | zero => rfl
      | succ j ih =>
          have hentry : ((fs.setUsed p hp).setEntry (p + 2) 0xFFFFFFFF).entry
              (fs.clusterAt first j) = fs.entry (fs.clusterAt first j) := by
            rw [Exfat.entry, Exfat.entry]
            congr 1
            apply Function.update_of_ne (hnot j)
          rw [Exfat.clusterAt_succ, Exfat.clusterAt_succ, ih, Exfat.next, Exfat.next, hentry]
    intro j
    rw [hsame]
    apply hnot

/-- An extension that takes a cluster which the chain does not get fails, and the cluster is
lost. -/
theorem Strays.lost (h : Strays debug index fs c tail alloc r dm) (hends : Ends fs c tail)
    (hr : r.Valid fs) (hn : index + (if c.firstCluster = 0 then 1 else 0) ≤ tail.index + n)
    (hpos : 1 ≤ n) :
  ∃ fs' c' dm', allocate debug index n fs c tail alloc r dm = .ok (false, fs', c', dm') ∧
    Lost fs fs' c'.firstCluster
  := by
  induction h generalizing n with
  | @number fs fs₁ c tail alloc alloc₁ r dm dm₁ hget hne =>
      obtain ⟨n, rfl⟩ := Nat.exists_eq_add_of_le' hpos
      rw [allocate, hget, Except.ok_bind]
      dsimp only
      rw [if_pos rfl]
      refine ⟨_, _, _, rfl, ?_⟩
      obtain ⟨-, rfl⟩ | ⟨p, hp, hfree, -, rfl⟩ := Allocator.search_inv hget
      · apply absurd rfl hne
      · exact ⟨p, hfree, Function.update_self .., hends.tracks.clusterAt_ne hp hfree⟩
  | entry hget h₀ hfails =>
      obtain ⟨fs₂, r₂, dm₂, hput⟩ :=
        (FatReader.put_eq_false_iff (Allocator.two_le_of_get hget h₀)).2 hfails
      obtain ⟨n, rfl⟩ := Nat.exists_eq_add_of_le' hpos
      rw [allocate, hget, Except.ok_bind]
      dsimp only
      rw [if_neg h₀, hput, Except.ok_bind]
      dsimp only
      rw [if_pos rfl]
      exact ⟨_, _, _, rfl, lost_of_put hends.tracks hr hget h₀ hput⟩
  | @later fs fs₁ fs₂ c tail alloc alloc₁ r r₂ dm dm₁ dm₂ next hget h₀ hput hlt _ ih =>
      obtain ⟨n, rfl⟩ := Nat.exists_eq_add_of_le' hpos
      obtain ⟨hlong, hends', hr₂⟩ := hends.append hget h₀ hr hput
      have hfirst : (c.begunBy next).firstCluster ≠ 0 := by
        rw [begunBy]
        split_ifs with hf
        · apply h₀
        · apply hf
      obtain ⟨fs', c', dm', hrest, p, hfree, hset, hnot⟩ := ih hends' hr₂ (n := n)
        (by
          rw [if_neg hfirst, appendedLine]
          dsimp only
          split_ifs at hn ⊢
          · lia
          · lia)
        (by
          rw [appendedLine] at hlt
          dsimp only at hlt
          split_ifs at hn hlt
          · lia
          · lia)
      rw [allocate, hget, Except.ok_bind]
      dsimp only
      rw [if_neg h₀, hput, Except.ok_bind]
      dsimp only
      rw [if_neg (by decide)]
      change ∃ fs' c' dm', (if (c.appendedLine tail next).index < index then
        allocate debug index n fs₂ (c.begunBy next) (c.appendedLine tail next) alloc₁ r₂ dm₂
        else _) = _ ∧ _
      rw [if_pos hlt]
      refine ⟨fs', c', dm', hrest, p, ?_, hset, hnot⟩
      by_contra hused
      rw [Bool.not_eq_false] at hused
      rw [hlong.used p hused] at hfree
      cases hfree

/-! ### The beginning of an extension -/

/-- A line has its true cluster, and it is the first one or not beyond the end of the chain. -/
structure Known (fs : Exfat) (first : ℕ) (l : Line) : Prop where
  correct : l.cluster = fs.clusterAt first l.index
  start : l = { index := 0, cluster := first } ∨ l.cluster ≠ 0

theorem known_first (fs : Exfat) (first : ℕ) : Known fs first { index := 0, cluster := first } :=
  ⟨rfl, Or.inl rfl⟩

/-- A cluster is appended to a line that is known. -/
theorem Known.ends (h : Known fs c.firstCluster tail) (ht : fs.Tracks c.firstCluster) :
  Ends fs c tail
  := by
  refine ⟨ht, h.correct, ?_, ?_⟩
  · intro hf
    obtain heq | h₀ := h.start
    · rw [heq]
    · exfalso
      apply h₀
      rw [h.correct, hf, ← Nat.zero_add tail.index]
      apply Exfat.clusterAt_add_eq_zero rfl
  · intro hf
    obtain heq | h₀ := h.start
    · rw [heq]
      apply hf
    · apply h₀

/-- The line of the cache with the greatest index, from which the last cluster is looked for. -/
def frontLine (c : ClusterChain) : Line :=
  (c.cacheLine.head?.map Prod.snd).getD { index := 0, cluster := c.firstCluster }

theorem Right.known_frontLine (h : Right debug fs c) : Known fs c.firstCluster c.frontLine := by
  rw [frontLine]
  cases hcons : c.cacheLine with
  | nil => apply known_first
  | cons m rest =>
      have := h.correct m (hcons ▸ List.mem_cons_self)
      exact ⟨this.2, Or.inr this.1⟩

/-- The line that a search for the last cluster returns is known. -/
theorem findTail_known (hm : Exfat.END ≤ fs.fat 0) (hr : r.Valid fs) (hcur : Known fs first cur)
    (h : findTail debug fs n cur r dm = .ok (some tail, r', dm')) :
  Known fs first tail ∧ r'.Valid fs
  := by
  induction n generalizing cur r dm with
  | zero =>
      cases h
      exact ⟨hcur, hr⟩
  | succ n ih =>
      rw [findTail, Except.bind_eq_ok_iff] at h
      obtain ⟨⟨v, r₁, dm₁⟩, hget, h⟩ := h
      obtain ⟨hr₁, hv⟩ := FatReader.get_inv hr hget
      dsimp only at h
      split_ifs at h with hz hend
      · cases h
      · cases h
        exact ⟨hcur, hr₁⟩
      · have hentry := hv.resolve_left hz
        have h₀ : cur.cluster ≠ 0 := by
          intro h₀
          rw [h₀, Exfat.entry] at hentry
          split_ifs at hentry
          · omega
          · apply hz hentry
        apply ih hr₁ _ h
        refine ⟨?_, Or.inr hz⟩
        dsimp only
        rw [Exfat.clusterAt_succ, ← hcur.correct, Exfat.next, ← hentry,
          if_neg (not_or.2 ⟨h₀, hend⟩)]

/-- The line to which an extension appends clusters, with the reader that has found it. Nothing is
returned if the extension does not come to that. -/
def lastLine (debug : Bool) (fs : Exfat) (c : ClusterChain) (dm : Dm) (index : ℕ) :
    Except Fault (Option (Line × FatReader × Dm)) := do
  if c.linear = true then
    return none
  else if index = 0 then
    return some ({ index := 0, cluster := c.firstCluster }, {}, dm)
  else if index ≤ c.frontLine.index then
    return none
  else
    let (found, r, dm) ← findTail debug fs (index - c.frontLine.index) c.frontLine {} dm
    match found with
    | none => return none
    | some tail => if index ≤ tail.index then return none else return some (tail, r, dm)

theorem lastLine_linear (h : lastLine debug fs c dm index = .ok (some (tail, r', dm'))) :
  c.linear = false
  := by
  by_contra hl
  rw [lastLine, if_pos (by simpa using hl)] at h
  cases h

/-- The number of rounds in which an extension appends clusters. -/
def rounds (index : ℕ) (tail : Line) : ℕ := if index = 0 then 2 else index - tail.index + 1

/-- From the line to which clusters are appended, an extension goes on by appending them. -/
theorem expand_eq_allocate (h : lastLine debug fs c dm index = .ok (some (tail, r', dm'))) :
  c.expand debug fs dm index
    = allocate debug index (rounds index tail) fs c tail {} r' dm'
  := by
  rw [lastLine] at h
  rw [expand, rounds]
  change (if c.linear = true then _ else if index = 0 then _ else
    if index ≤ c.frontLine.index then _ else
    findTail debug fs (index - c.frontLine.index) c.frontLine {} dm >>= _) = _
  by_cases hl : c.linear = true
  · rw [if_pos hl] at h
    cases h
  rw [if_neg hl] at h ⊢
  by_cases h₀ : index = 0
  · rw [if_pos h₀] at h
    cases h
    rw [if_pos h₀, if_pos h₀]
  rw [if_neg h₀] at h
  rw [if_neg h₀, if_neg h₀]
  by_cases hle : index ≤ c.frontLine.index
  · rw [if_pos hle] at h
    cases h
  rw [if_neg hle] at h ⊢
  rw [Except.bind_eq_ok_iff] at h
  obtain ⟨⟨found, r₁, dm₁⟩, hfind, h⟩ := h
  rw [hfind, Except.ok_bind]
  cases found with
  | none => cases h
  | some last =>
      dsimp only at h ⊢
      by_cases hle' : index ≤ last.index
      · rw [if_pos hle'] at h
        cases h
      · rw [if_neg hle'] at h ⊢
        cases h
        rfl

/-- An extension that returns appends clusters, or it leaves everything as it is. It succeeds then
only if the chain has a cluster with the index. -/
theorem expand_cases (h : c.expand debug fs dm index = .ok (done, fs', c', dm')) :
  (∃ tail r dm₁, lastLine debug fs c dm index = .ok (some (tail, r, dm₁))) ∨
    lastLine debug fs c dm index = .ok none ∧ fs' = fs ∧ c' = c ∧
      (done = true → index ≠ 0 ∧ (index ≤ c.frontLine.index ∨ ∃ tail r dm₁,
        findTail debug fs (index - c.frontLine.index) c.frontLine {} dm = .ok (some tail, r, dm₁) ∧
        index ≤ tail.index))
  := by
  rw [expand] at h
  change (if c.linear = true then _ else if index = 0 then _ else
    if index ≤ c.frontLine.index then _ else
    findTail debug fs (index - c.frontLine.index) c.frontLine {} dm >>= _) = _ at h
  rw [lastLine]
  by_cases hl : c.linear = true
  · rw [if_pos hl] at h ⊢
    cases h
    right
    exact ⟨rfl, rfl, rfl, fun hd => by cases hd⟩
  rw [if_neg hl] at h ⊢
  by_cases h₀ : index = 0
  · rw [if_pos h₀]
    left
    exact ⟨_, _, _, rfl⟩
  rw [if_neg h₀] at h ⊢
  by_cases hle : index ≤ c.frontLine.index
  · rw [if_pos hle] at h ⊢
    cases h
    right
    exact ⟨rfl, rfl, rfl, fun _ => ⟨h₀, Or.inl hle⟩⟩
  rw [if_neg hle] at h ⊢
  rw [Except.bind_eq_ok_iff] at h
  obtain ⟨⟨found, r₁, dm₁⟩, hfind, h⟩ := h
  rw [hfind, Except.ok_bind]
  cases found with
  | none =>
      cases h
      right
      exact ⟨rfl, rfl, rfl, fun hd => by cases hd⟩
  | some last =>
      dsimp only at h ⊢
      by_cases hle' : index ≤ last.index
      · rw [if_pos hle'] at h ⊢
        cases h
        right
        exact ⟨rfl, rfl, rfl, fun _ => ⟨h₀, Or.inr ⟨_, _, _, rfl, hle'⟩⟩⟩
      · rw [if_neg hle']
        left
        exact ⟨_, _, _, rfl⟩

/-- The line to which an extension appends clusters is known. -/
theorem lastLine_known (hm : Exfat.END ≤ fs.fat 0) (h : Right debug fs c)
    (hlast : lastLine debug fs c dm index = .ok (some (tail, r', dm'))) :
  Known fs c.firstCluster tail ∧ r'.Valid fs ∧ 1 ≤ rounds index tail ∧
    index + (if c.firstCluster = 0 then 1 else 0) ≤ tail.index + rounds index tail
  := by
  rw [lastLine] at hlast
  split_ifs at hlast with hl h₀ hle
  · cases hlast
  · cases hlast
    refine ⟨known_first _ _, FatReader.valid_init, ?_⟩
    rw [rounds, if_pos h₀, h₀]
    split_ifs
    · exact ⟨by decide, Nat.le_add_right 1 1⟩
    · exact ⟨by decide, Nat.zero_le 2⟩
  · cases hlast
  · rw [Except.bind_eq_ok_iff] at hlast
    obtain ⟨⟨found, r₁, dm₁⟩, hfind, hlast⟩ := hlast
    cases found with
    | none => cases hlast
    | some last =>
        dsimp only at hlast
        split_ifs at hlast with hle'
        · cases hlast
        cases hlast
        obtain ⟨hknown, hr⟩ := findTail_known hm FatReader.valid_init h.known_frontLine hfind
        refine ⟨hknown, hr, ?_⟩
        rw [rounds, if_neg h₀]
        split_ifs
        · lia
        · lia

/-! ### Which accesses succeed -/

theorem walk_succeeds_eq {found : Option Line}
    (h : walk debug fs n cur r dm = .ok (found, r', dm')) :
  dm'.succeeds = dm.succeeds
  := by
  induction n generalizing cur r dm with
  | zero =>
      cases h
      rfl
  | succ n ih =>
      rw [walk, Except.bind_eq_ok_iff] at h
      obtain ⟨⟨v, r₁, dm₁⟩, hget, h⟩ := h
      have heq := FatReader.get_succeeds_eq hget
      dsimp only at h
      split_ifs at h
      · cases h
        apply heq
      · apply (ih h).trans heq

/-- Looking up a cluster does not change which accesses succeed. -/
theorem get_succeeds_eq {cluster : ℕ} (h : c.get debug fs dm index = .ok (cluster, c', dm')) :
  dm'.succeeds = dm.succeeds
  := by
  rw [get] at h
  by_cases hf : c.firstCluster = 0
  · rw [if_pos hf] at h
    cases h
    rfl
  rw [if_neg hf] at h
  by_cases hl : c.linear = true
  · rw [if_pos hl] at h
    cases h
    rfl
  rw [if_neg hl] at h
  by_cases h₀ : index = 0
  · rw [if_pos h₀] at h
    cases h
    rfl
  rw [if_neg h₀] at h
  split at h
  · cases h
    rfl
  · dsimp only at h
    rw [Except.bind_eq_ok_iff] at h
    obtain ⟨-, -, h⟩ := h
    rw [Except.bind_eq_ok_iff] at h
    obtain ⟨⟨found, r₁, dm₁⟩, hwalk, h⟩ := h
    have heq := (Dm.relaxAny_succeeds_eq dm₁ r₁.fatSector).trans (walk_succeeds_eq hwalk)
    cases found with
    | none =>
        cases h
        apply heq
    | some l =>
        dsimp only at h
        rw [Except.bind_eq_ok_iff] at h
        obtain ⟨-, -, h⟩ := h
        rw [Except.bind_eq_ok_iff] at h
        obtain ⟨c₁, -, h⟩ := h
        cases h
        apply heq

theorem findTail_succeeds_eq {found : Option Line}
    (h : findTail debug fs n cur r dm = .ok (found, r', dm')) :
  dm'.succeeds = dm.succeeds
  := by
  induction n generalizing cur r dm with
  | zero =>
      cases h
      rfl
  | succ n ih =>
      rw [findTail, Except.bind_eq_ok_iff] at h
      obtain ⟨⟨v, r₁, dm₁⟩, hget, h⟩ := h
      have heq := FatReader.get_succeeds_eq hget
      dsimp only at h
      split_ifs at h
      · cases h
        apply heq
      · cases h
        apply heq
      · apply (ih h).trans heq

theorem allocate_succeeds_eq
    (h : allocate debug index n fs c tail alloc r dm = .ok (done, fs', c', dm')) :
  dm'.succeeds = dm.succeeds
  := by
  induction n generalizing fs c tail alloc r dm with
  | zero => cases h
  | succ n ih =>
      obtain ⟨next, fs₁, alloc₁, dm₁, hget, hround⟩ := allocate_cases h
      have heq : dm₁.succeeds = dm.succeeds := Allocator.search_succeeds_eq hget
      have hclose : ∀ (r : FatReader) (dm : Dm), (r.close (alloc₁.close dm)).succeeds = dm.succeeds := by
        intro r dm
        apply (Dm.relaxAny_succeeds_eq _ _).trans (Dm.relaxAny_succeeds_eq _ _)
      rcases hround with ⟨-, -, -, -, rfl⟩ | ⟨-, joined, fs₂, r₂, dm₂, hput, hround⟩
      · apply (hclose r dm₁).trans heq
      have heq₂ := (FatReader.put_succeeds_eq hput).trans heq
      rcases hround with ⟨-, -, -, -, rfl⟩ | ⟨-, -, hrest⟩ | ⟨-, -, -, -, -, rfl⟩
      · apply (hclose r₂ dm₂).trans heq₂
      · apply (ih hrest).trans heq₂
      · apply (hclose r₂ dm₂).trans heq₂

/-- An extension does not change which accesses succeed. -/
theorem expand_succeeds_eq (h : c.expand debug fs dm index = .ok (done, fs', c', dm')) :
  dm'.succeeds = dm.succeeds
  := by
  rw [expand] at h
  by_cases hl : c.linear = true
  · rw [if_pos hl] at h
    cases h
    rfl
  rw [if_neg hl] at h
  dsimp only at h
  by_cases h₀ : index = 0
  · rw [if_pos h₀] at h
    apply allocate_succeeds_eq h
  rw [if_neg h₀] at h
  split_ifs at h with hle
  · cases h
    rfl
  · rw [Except.bind_eq_ok_iff] at h
    obtain ⟨⟨found, r₁, dm₁⟩, hfind, h⟩ := h
    have heq := findTail_succeeds_eq hfind
    cases found with
    | none =>
        cases h
        apply (Dm.relaxAny_succeeds_eq _ _).trans heq
    | some tail =>
        dsimp only at h
        split_ifs at h
        · cases h
          apply (Dm.relaxAny_succeeds_eq _ _).trans heq
        · apply (allocate_succeeds_eq h).trans heq

/-! ### Extensions that succeed -/

/-- A chain, the allocation table and the bitmap are consistent. -/
structure Consistent (debug : Bool) (fs : Exfat) (c : ClusterChain) : Prop where
  intact : fs.Intact c.firstCluster
  right : c.Right debug fs
  media : Exfat.END ≤ fs.fat 0

/-- The chain has a cluster with the index. Its old clusters are the first of its new ones, and the
others were free, are in use, and have entries that belong to the chain or end it. No other cluster
has been taken from the bitmap. -/
structure Lengthened (debug : Bool) (fs fs' : Exfat) (c c' : ClusterChain) (index : ℕ) : Prop where
  long : ∀ j ≤ index, fs'.clusterAt c'.firstCluster j ≠ 0
  found : ∀ j ≤ index, ∀ dm : Dm, dm.Succeeds → ∃ cluster c'' dm',
    c'.get debug fs' dm j = .ok (cluster, c'', dm') ∧ cluster ≠ 0
  kept : ∀ j, fs.clusterAt c.firstCluster j ≠ 0 →
    fs'.clusterAt c'.firstCluster j = fs.clusterAt c.firstCluster j
  added : ∀ j, fs.clusterAt c.firstCluster j = 0 → fs'.clusterAt c'.firstCluster j ≠ 0 →
    fs.Added fs' (fs'.clusterAt c'.firstCluster j)
  linked : ∀ j, fs.clusterAt c.firstCluster j = 0 → fs'.clusterAt c'.firstCluster j ≠ 0 →
    Exfat.END ≤ fs'.fat (fs'.clusterAt c'.firstCluster j) ∨
      fs'.fat (fs'.clusterAt c'.firstCluster j) = fs'.clusterAt c'.firstCluster (j + 1)
  marked : ∀ p, fs.used p = false → fs'.used p = true → ∃ j, fs'.clusterAt c'.firstCluster j = p + 2

/-- An extension violates no assertion, and when it succeeds the chain has been extended. -/
def ExpandsRight (debug : Bool) (fs : Exfat) (c : ClusterChain) (dm : Dm) (index : ℕ) : Prop :=
  ∃ done fs' c' dm', c.expand debug fs dm index = .ok (done, fs', c', dm') ∧
    (done = true → Lengthened debug fs fs' c c' index)

theorem Consistent.tracks (h : Consistent debug fs c) : fs.Tracks c.firstCluster := by
  refine ⟨?_, h.media⟩
  intro j h₂ hlt
  apply (h.intact j (by omega)).used hlt

/-- An extension that succeeds prolongs the chain to the index. -/
theorem Consistent.prolonged (h : Consistent debug fs c)
    (hexpand : c.expand debug fs dm index = .ok (true, fs', c', dm')) :
  fs.Prolonged fs' c.firstCluster c'.firstCluster ∧ fs'.clusterAt c'.firstCluster index ≠ 0
  := by
  obtain ⟨tail, r, dm₁, hlast⟩ | ⟨-, rfl, rfl, hdone⟩ := expand_cases hexpand
  · rw [expand_eq_allocate hlast] at hexpand
    obtain ⟨hknown, hr, -⟩ := lastLine_known h.media h.right hlast
    obtain ⟨hlong, hat⟩ := allocate_prolonged hexpand (hknown.ends h.tracks) hr (Or.inl rfl)
    exact ⟨hlong, hat rfl⟩
  · -- the chain has had a cluster with the index
    refine ⟨Exfat.Prolonged.refl _ _, ?_⟩
    obtain ⟨h₀, hle⟩ := hdone rfl
    obtain ⟨l, hknown, hle⟩ : ∃ l, Known fs' c'.firstCluster l ∧ index ≤ l.index := by
      obtain hle | ⟨tail, r, dm₁, hfind, hle⟩ := hle
      · exact ⟨_, h.right.known_frontLine, hle⟩
      · have hfound := findTail_known h.media FatReader.valid_init h.right.known_frontLine hfind
        exact ⟨_, hfound.1, hle⟩
    apply Exfat.clusterAt_ne_zero_of_le _ hle
    rw [← hknown.correct]
    apply hknown.start.resolve_left
    rintro rfl
    apply h₀ (Nat.le_zero.1 hle)

/-- A chain that has been extended is consistent. -/
theorem Consistent.expanded (h : Consistent debug fs c)
    (hexpand : c.expand debug fs dm index = .ok (true, fs', c', dm')) :
  Consistent debug fs' c' ∧ c'.linear = c.linear
  := by
  obtain ⟨hgrows, hext⟩ := expand_inv hexpand
  obtain ⟨hright, hintact, hlinear⟩ := h.right.extended h.intact hgrows hext
  refine ⟨⟨hintact, hright, ?_⟩, hlinear⟩
  rw [(h.prolonged hexpand).1.media]
  apply h.media

/-- What an extension that succeeds has done. -/
theorem Consistent.lengthened (h : Consistent debug fs c) (hl : c.linear = false)
    (hexpand : c.expand debug fs dm index = .ok (true, fs', c', dm')) :
  Lengthened debug fs fs' c c' index
  := by
  obtain ⟨hlong, hat⟩ := h.prolonged hexpand
  obtain ⟨h', hlinear⟩ := h.expanded hexpand
  have hle : ∀ j ≤ index, fs'.clusterAt c'.firstCluster j ≠ 0 :=
    fun j hj => Exfat.clusterAt_ne_zero_of_le hat hj
  refine ⟨hle, ?_, hlong.kept, hlong.added, ?_, hlong.marked⟩
  · intro j hj dm₁ hdm₁
    obtain ⟨c'', dm'', hget, -⟩ := get_eq h'.intact h'.right (hlinear.trans hl) hdm₁ j
    exact ⟨_, c'', dm'', hget, hle j hj⟩
  · intro j h₀ hj
    have hentry := (hlong.added j h₀ hj).entry
    rw [Exfat.entry] at hentry
    split_ifs at hentry with hin
    · rw [Exfat.clusterAt_succ, Exfat.next, Exfat.entry, if_pos hin]
      split_ifs with hend
      · left
        apply hend.resolve_left hj
      · right
        rfl
    · apply absurd rfl hentry

/-- A chain is extended as it should, unless in a debug build it is empty and has to get more than
its first cluster. -/
theorem expandsRight_iff (hl : c.linear = false) (h : Consistent debug fs c) :
  ExpandsRight debug fs c dm index ↔ ¬ (debug = true ∧ c.firstCluster = 0 ∧ index ≠ 0)
  := by
  constructor
  · rintro ⟨done, fs', c', dm', hexpand, -⟩ ⟨rfl, hf, h₀⟩
    have hnil : c.cacheLine = [] := by
      rw [List.eq_nil_iff_forall_not_mem]
      intro m hm
      obtain ⟨hne, heq⟩ := h.right.correct m hm
      apply hne
      rw [heq, hf, ← Nat.zero_add m.2.index]
      apply Exfat.clusterAt_add_eq_zero rfl
    obtain ⟨n, rfl⟩ := Nat.exists_eq_succ_of_ne_zero h₀
    have hfind : findTail true fs (n + 1) { index := 0, cluster := 0 } {} dm
        = .error .assertFailed := rfl
    rw [expand, if_neg (by rw [hl]; decide), hnil, hf] at hexpand
    dsimp only at hexpand
    rw [if_neg h₀] at hexpand
    cases hexpand
  · intro hnot
    have hempty : debug = true → c.firstCluster = 0 → index = 0 :=
      fun hd hf => by_contra fun h₀ => hnot ⟨hd, hf, h₀⟩
    obtain ⟨⟨done, fs', c', dm'⟩, hexpand⟩ := expand_returns h.intact h.right hempty dm
    refine ⟨done, fs', c', dm', hexpand, ?_⟩
    rintro rfl
    apply h.lengthened hl hexpand

/-- A chain whose cache is empty is in order. -/
theorem right_init (debug : Bool) (fs : Exfat) (first : ℕ) :
  Right debug fs { firstCluster := first }
  := by
  refine ⟨⟨List.Pairwise.nil, ?_, ?_, List.nodup_nil, List.Perm.refl _, ?_⟩, Nat.zero_le _⟩ <;>
    · intro n hn
      cases hn

theorem consistent_threeClusters :
  Consistent true (Chains.threeClusters true) { firstCluster := 2 }
  := by
  refine ⟨Exfat.intact_iff.2 ⟨?_, ?_⟩, right_init _ _ _, by decide⟩
  · apply Chains.chained_threeClusters
  · apply Chains.covered_threeClusters

/-- A chain of three clusters is extended by two. -/
theorem expandsRight_threeClusters :
  ((expand true (Chains.threeClusters true) { firstCluster := 2 } Chains.reading 4).map
      Prod.fst).toOption = some true ∧
    ExpandsRight true (Chains.threeClusters true) { firstCluster := 2 } Chains.reading 4
  := by
  refine ⟨by decide, ?_⟩
  apply (expandsRight_iff rfl consistent_threeClusters).2
  rintro ⟨-, hf, -⟩
  cases hf

/-- In a debug build, an assertion fails when an empty chain has to get two clusters. -/
theorem expand_empty :
  Consistent true (Chains.threeClusters true) { firstCluster := 0 } ∧
    ¬ ExpandsRight true (Chains.threeClusters true) { firstCluster := 0 } Chains.reading 1
  := by
  refine ⟨⟨?_, right_init _ _ _, by decide⟩, ?_⟩
  · intro j hj
    exfalso
    apply hj
    rw [← Nat.zero_add j]
    apply Exfat.clusterAt_add_eq_zero rfl
  · rintro ⟨done, fs', c', dm', hexpand, -⟩
    cases hexpand

/-! ### Extensions that fail -/

/-- Every cluster that has been taken from the bitmap belongs to the chain, and the clusters in use
that do not belong to it have the entries that they had. -/
structure LosesNothing (fs fs' : Exfat) (first first' : ℕ) : Prop where
  reached : ∀ p, fs.used p = false → fs'.used p = true → ∃ j, fs'.clusterAt first' j = p + 2
  others : ∀ x, 2 ≤ x → fs.used (x - 2) = true → (∀ j, fs.clusterAt first j ≠ x) →
    fs'.fat x = fs.fat x

/-- An extension that fails loses no cluster. -/
def FailsSafely (debug : Bool) (fs : Exfat) (c : ClusterChain) (dm : Dm) (index : ℕ) : Prop :=
  ∀ fs' c' dm', c.expand debug fs dm index = .ok (false, fs', c', dm') →
    LosesNothing fs fs' c.firstCluster c'.firstCluster

/-- In the course of an extension a cluster is taken from the bitmap that the chain does not
get. -/
def ExpandStrays (debug : Bool) (fs : Exfat) (c : ClusterChain) (dm : Dm) (index : ℕ) : Prop :=
  ∃ tail r dm', lastLine debug fs c dm index = .ok (some (tail, r, dm')) ∧
    Strays debug index fs c tail {} r dm'

/-- An extension that fails loses no cluster exactly if every cluster that it takes from the bitmap
can be appended. -/
theorem failsSafely_iff
    (h : c.linear = false → fs.Tracks c.firstCluster ∧ Right debug fs c) :
  FailsSafely debug fs c dm index ↔ ¬ ExpandStrays debug fs c dm index
  := by
  constructor
  · rintro hsafe ⟨tail, r, dm₁, hlast, hstrays⟩
    obtain ⟨htracks, hright⟩ := h (lastLine_linear hlast)
    obtain ⟨hknown, hr, hpos, hn⟩ := lastLine_known htracks.media hright hlast
    obtain ⟨fs', c', dm', hexpand, p, hfree, hset, hnot⟩ :=
      hstrays.lost (hknown.ends htracks) hr hn hpos
    rw [← expand_eq_allocate hlast] at hexpand
    obtain ⟨j, hj⟩ := (hsafe fs' c' dm' hexpand).reached p hfree hset
    apply hnot j hj
  · intro hnot fs' c' dm' hexpand
    have hlong : fs.Prolonged fs' c.firstCluster c'.firstCluster := by
      obtain ⟨tail, r, dm₁, hlast⟩ | ⟨-, rfl, rfl, -⟩ := expand_cases hexpand
      · obtain ⟨htracks, hright⟩ := h (lastLine_linear hlast)
        obtain ⟨hknown, hr, -⟩ := lastLine_known htracks.media hright hlast
        rw [expand_eq_allocate hlast] at hexpand
        apply (allocate_prolonged hexpand (hknown.ends htracks) hr (Or.inr ?_)).1
        intro hstrays
        apply hnot ⟨tail, r, dm₁, hlast, hstrays⟩
      · apply Exfat.Prolonged.refl
    exact ⟨hlong.marked, hlong.others⟩

/-- A cache whose first `n` accesses succeed. -/
def failing (n : ℕ) : Dm where
  succeeds := fun i => i < n

theorem tracks_empty : (Chains.threeClusters true).Tracks 0 := by
  refine ⟨?_, by decide⟩
  intro j h₂
  have hz : (Chains.threeClusters true).clusterAt 0 j = 0 := by
    rw [← Nat.zero_add j]
    apply Exfat.clusterAt_add_eq_zero rfl
  omega

/-- When the bitmap cannot be read, an empty chain stays empty and no cluster is lost. -/
theorem failsSafely_unread :
  ((expand true (Chains.threeClusters true) { firstCluster := 0 } (failing 0) 0).map
      Prod.fst).toOption = some false ∧
    FailsSafely true (Chains.threeClusters true) { firstCluster := 0 } (failing 0) 0
  := by
  refine ⟨by decide, ?_⟩
  apply (failsSafely_iff fun _ => ⟨tracks_empty, right_init _ _ _⟩).2
  rintro ⟨tail, r, dm', hlast, hstrays⟩
  cases hlast
  cases hstrays with
  | number hget hne =>
      cases hget
      apply hne rfl
  | entry hget h₀ _ =>
      cases hget
      apply h₀ rfl
  | later hget h₀ _ _ _ =>
      cases hget
      apply h₀ rfl

/-- When the bitmap can be read and the allocation table cannot, the first cluster of an empty
chain is lost. -/
theorem expand_loses :
  (Chains.threeClusters true).Tracks 0 ∧
    ¬ FailsSafely true (Chains.threeClusters true) { firstCluster := 0 } (failing 1) 0
  := by
  refine ⟨tracks_empty, ?_⟩
  intro hsafe
  obtain ⟨j, hj⟩ := (hsafe ((Chains.threeClusters true).setUsed 3 (by decide)) { firstCluster := 0 }
    _ rfl).reached 3 (by decide) (by decide)
  rw [← Nat.zero_add j, Exfat.clusterAt_add_eq_zero rfl] at hj
  cases hj

end ClusterChain

end UOS
