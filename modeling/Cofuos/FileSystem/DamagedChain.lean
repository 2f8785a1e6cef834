import Cofuos.FileSystem.FatSlots
import Cofuos.FileSystem.FileOffset

/-!
# Chains on a damaged volume

The entries of the allocation table come from the disk, and may be any numbers. The functions that
they pass through have different ideas of which numbers are those of clusters: `fat_reader::get`
asserts that they are not less than `2`, `exfat::lba_of_cluster` in addition that they are less than
`0xFFFFFFF7`, `cluster_chain::get` ends a chain only at `0` and from `0xFFFFFFF8` on, and
`exfat::lba_of_fat` has no sector for a number beyond the clusters of the volume.

We say for which tables a lookup comes to its end nevertheless. The lines of the cache need not be
those of the table as it is now, since other chains may have been extended in between.
-/

namespace UOS

variable {debug : Bool} {fs fs' : Exfat}

/-! ### Clusters of the volume -/

namespace Exfat

/-- A sector of one of the clusters. -/
def Inside (fs : Exfat) (lba : ℕ) : Prop :=
  fs.heap ≤ lba ∧ lba < fs.heap + fs.clusterCount * (fs.clusterSize / SECTOR_SIZE)

/-- The numbers that `lba_of_cluster` is made for. -/
def Accepted (cluster : ℕ) : Prop := 2 ≤ cluster ∧ cluster < 0xFFFFFFF7

instance decidableAccepted (cluster : ℕ) : Decidable (Accepted cluster) :=
  inferInstanceAs (Decidable (2 ≤ cluster ∧ cluster < 0xFFFFFFF7))

/-- The sector of a cluster is found without a fault exactly if the number is accepted, or the build
has no assertions. -/
theorem lbaOfCluster_returns_iff {cluster : ℕ} :
  (∃ base, fs.lbaOfCluster debug cluster = .ok base) ↔ (debug = true → Accepted cluster)
  := by
  constructor
  · rintro ⟨base, h⟩
    rw [lbaOfCluster, Except.bind_eq_ok_iff] at h
    obtain ⟨_, hassert, -⟩ := h
    apply Fault.assert_eq_ok_iff.1 hassert
  · intro h
    have hassert : Fault.assert debug (2 ≤ cluster ∧ cluster < 0xFFFFFFF7) = .ok () :=
      Fault.assert_eq_ok h
    rw [lbaOfCluster, hassert, Except.ok_bind]
    split_ifs
    · exact ⟨_, rfl⟩
    · exact ⟨_, rfl⟩

/-- What is found for a cluster is one of its sectors. -/
theorem lbaOfCluster_inside {cluster base offset : ℕ} (hsize : 9 ≤ fs.clusterShift)
    (hlt : cluster < 2 ^ 32) (hoffset : offset < fs.clusterSize)
    (h : fs.lbaOfCluster debug cluster = .ok base) (hbase : base ≠ 0) :
  fs.Inside (base + offset / SECTOR_SIZE)
  := by
  obtain ⟨hcluster, rfl⟩ := FileData.lbaOfCluster_inv h hbase
  have hcount := fs.count_lt
  have hin : cluster - 2 < fs.clusterCount := by lia
  have hwhole : SECTOR_SIZE ∣ fs.clusterSize := by
    rw [show SECTOR_SIZE = 2 ^ 9 from rfl, clusterSize]
    apply Nat.pow_dvd_pow 2 hsize
  have hsector : offset / SECTOR_SIZE < fs.clusterSize / SECTOR_SIZE := by
    apply Nat.div_lt_div_of_lt_of_dvd hwhole hoffset
  have hclusters : (cluster - 2 + 1) * (fs.clusterSize / SECTOR_SIZE)
      ≤ fs.clusterCount * (fs.clusterSize / SECTOR_SIZE) := Nat.mul_le_mul_right _ hin
  rw [Nat.add_mul, Nat.one_mul] at hclusters
  constructor
  · rw [Nat.add_assoc]
    apply Nat.le_add_right
  · lia

/-- The clusters of the volume are where they were. -/
structure SameClusters (fs fs' : Exfat) : Prop where
  heap : fs'.heap = fs.heap
  count : fs'.clusterCount = fs.clusterCount
  shift : fs'.clusterShift = fs.clusterShift

namespace SameClusters

theorem refl (fs : Exfat) : SameClusters fs fs := ⟨rfl, rfl, rfl⟩

theorem trans {fs'' : Exfat} (h : SameClusters fs fs') (h' : SameClusters fs' fs'') :
  SameClusters fs fs''
  := ⟨h'.heap.trans h.heap, h'.count.trans h.count, h'.shift.trans h.shift⟩

theorem inside {lba : ℕ} (h : SameClusters fs fs') (hlba : fs'.Inside lba) : fs.Inside lba := by
  rw [Inside, clusterSize, h.heap, h.count, h.shift, ← clusterSize] at hlba
  apply hlba

end SameClusters

end Exfat

/-- An allocation leaves the clusters where they are. -/
theorem Allocator.get_sameClusters {a a' : Allocator} {dm dm' : Dm} {next : ℕ}
    (h : a.get fs dm = .ok (next, fs', a', dm')) :
  Exfat.SameClusters fs fs'
  := by
  obtain ⟨-, rfl⟩ | ⟨p, hp, -, -, rfl⟩ := search_inv h
  · apply Exfat.SameClusters.refl
  · exact ⟨rfl, rfl, rfl⟩

/-- Appending a cluster leaves the clusters where they are. -/
theorem FatReader.put_sameClusters {r r' : FatReader} {dm dm' : Dm} {tail next : ℕ} {done : Bool}
    (h : r.put debug fs dm tail next = .ok (done, fs', r', dm')) :
  Exfat.SameClusters fs fs'
  := by
  obtain ⟨-, rfl⟩ | rfl | ⟨-, rfl⟩ := put_inv h
  · apply Exfat.SameClusters.refl
  · exact ⟨rfl, rfl, rfl⟩
  · exact ⟨rfl, rfl, rfl⟩

/-! ### One entry -/

namespace SlotReader

variable {r r' : SlotReader} {s s' : SlotLog} {cluster : ℕ}

/-- A sector that has been loaded lies in the allocation table, and the reader has its slot. -/
theorem load_true (hr : r.Valid fs) (h : r.load fs s cluster = (true, r', s')) :
  cluster / Exfat.elementPerSector < fs.fatLimit ∧ r'.fatSector ≠ none
  := by
  rw [load] at h
  dsimp only at h
  split_ifs at h with h₁ h₂
  · cases h
  · have hin : cluster / Exfat.elementPerSector < fs.fatLimit := by
      by_contra hout
      apply h₂ (lbaOfFat_eq_zero_iff.2 hout)
    split at h
    · cases h
    · cases h
      exact ⟨hin, Option.some_ne_none _⟩
  · cases h
    rw [not_or, not_not] at h₁
    exact ⟨h₁.2 ▸ hr h₁.1, h₁.1⟩

/-- When the accesses succeed, only a sector outside of the allocation table is not loaded. -/
theorem load_false (hs : ∀ k, s.succeeds k = true) (h : r.load fs s cluster = (false, r', s')) :
  ¬ cluster / Exfat.elementPerSector < fs.fatLimit
  := by
  rw [load] at h
  dsimp only at h
  split_ifs at h with h₁ h₂
  · apply lbaOfFat_eq_zero_iff.1 h₂
  · have hsome : ((s.relaxAny r.fatSector).get).1 ≠ none := by
      rw [SlotLog.get, if_pos]
      · apply Option.some_ne_none
      · cases r.fatSector with
        | none => apply hs
        | some k => apply hs
    split at h
    · rename_i hget
      rw [hget] at hsome
      apply absurd rfl hsome
    · cases h
  · cases h

/-- Which accesses succeed is not changed. -/
theorem load_succeeds_eq {b : Bool} (h : r.load fs s cluster = (b, r', s')) :
  s'.succeeds = s.succeeds
  := by
  have hrelax : ∀ held, (s.relaxAny held).succeeds = s.succeeds := by
    intro held
    cases held with
    | none => rfl
    | some k => rfl
  have hget : ∀ s₁ : SlotLog, s₁.get.2.succeeds = s₁.succeeds := by
    intro s₁
    rw [SlotLog.get]
    split_ifs
    · rfl
    · rfl
  rw [load] at h
  dsimp only at h
  split_ifs at h
  · cases h
    apply hrelax
  · have heq := (hget (s.relaxAny r.fatSector)).trans (hrelax r.fatSector)
    split at h
    · rename_i hslot
      cases h
      rw [hslot] at heq
      apply heq
    · rename_i hslot
      cases h
      rw [hslot] at heq
      apply heq
  · cases h
    rfl

end SlotReader

/-! ### Following the entries -/

namespace Exfat

/-- The entries of `n` clusters in a row can be asked for: their numbers are passed by the assertion,
and their entries lie in the allocation table. If no slot is held, then the first entry need not. -/
def Followed (debug : Bool) (fs : Exfat) (n cluster : ℕ) (held : Prop) : Prop :=
  ∀ k < n, fs.clusterAt cluster k ≠ 0 →
    (debug = true → 2 ≤ fs.clusterAt cluster k) ∧
      (k ≠ 0 ∨ held → fs.clusterAt cluster k / elementPerSector < fs.fatLimit)

variable {n cluster : ℕ} {held held' : Prop}

/-- The chain of a cluster goes on with that of the next one. -/
theorem clusterAt_succ_next (k : ℕ) :
  fs.clusterAt cluster (k + 1) = fs.clusterAt (fs.next cluster) k
  := Function.iterate_succ_apply _ _ _

theorem followed_zero : Followed debug fs n 0 held := by
  intro k _ h₀
  have hzero : fs.clusterAt 0 (0 + k) = 0 := clusterAt_add_eq_zero rfl k
  rw [Nat.zero_add] at hzero
  apply absurd hzero h₀

theorem followed_succ (h₀ : cluster ≠ 0) :
  Followed debug fs (n + 1) cluster held ↔
    ((debug = true → 2 ≤ cluster) ∧ (held → cluster / elementPerSector < fs.fatLimit)) ∧
      Followed debug fs n (fs.next cluster) True
  := by
  constructor
  · intro h
    constructor
    · obtain ⟨htwo, hin⟩ := h 0 n.succ_pos h₀
      exact ⟨htwo, fun hheld => hin (Or.inr hheld)⟩
    · intro k hk hne
      rw [← clusterAt_succ_next] at hne ⊢
      obtain ⟨htwo, hin⟩ := h (k + 1) (Nat.succ_lt_succ hk) hne
      exact ⟨htwo, fun _ => hin (Or.inl k.succ_ne_zero)⟩
  · rintro ⟨⟨htwo, hin⟩, h⟩ k hk hne
    cases k with
    | zero => exact ⟨htwo, fun hheld => hin (hheld.resolve_left fun hne => hne rfl)⟩
    | succ k =>
        rw [clusterAt_succ_next] at hne ⊢
        obtain ⟨htwo, hin⟩ := h k (Nat.lt_of_succ_lt_succ hk) hne
        exact ⟨htwo, fun _ => hin (Or.inr trivial)⟩

/-- What can be asked for while a slot is held can be asked for without one. -/
theorem Followed.mono (h : Followed debug fs n cluster held') (himp : held → held') :
  Followed debug fs n cluster held
  := by
  intro k hk hne
  obtain ⟨htwo, hin⟩ := h k hk hne
  exact ⟨htwo, fun hor => hin (hor.imp_right himp)⟩

end Exfat

namespace ClusterChain

/-- Follows `n` entries from a cluster, and notes what is done with the slots. -/
def walkSlots (debug : Bool) (fs : Exfat) :
    ℕ → ℕ → SlotReader → SlotLog → Except Fault (SlotReader × SlotLog)
  | 0, _, r, s => .ok (r, s)
  | n + 1, cluster, r, s => do
    let (next, r, s) ← r.get debug fs s cluster
    if next = 0 ∨ Exfat.END ≤ next then
      return (r, s)
    else
      walkSlots debug fs n next r s

variable {r r' : SlotReader} {s s' : SlotLog} {q q' : FatReader} {dm dm' : Dm} {n cluster : ℕ}
  {cur l : Line}

/-- This is what is done when a line is looked for. -/
theorem walkSlots_agrees (h : SlotReader.Agrees r s q dm)
    (hwalk : walkSlots debug fs n cur.cluster r s = .ok (r', s')) :
  ∃ found q' dm', walk debug fs n cur q dm = .ok (found, q', dm')
  := by
  induction n generalizing cur r s q dm with
  | zero => exact ⟨_, _, _, rfl⟩
  | succ n ih =>
      rw [walkSlots, Except.bind_eq_ok_iff] at hwalk
      obtain ⟨⟨v, r₁, s₁⟩, hget, hwalk⟩ := hwalk
      obtain ⟨q₁, dm₁, hget', hagrees⟩ := h.get hget
      rw [walk, hget', Except.ok_bind]
      dsimp only at hwalk ⊢
      split_ifs at hwalk ⊢
      · exact ⟨_, _, _, rfl⟩
      · apply ih hagrees hwalk

/-- Entries that can be asked for are followed, and every slot is given back. -/
theorem walkSlots_fine (hfine : s.Fine r.fatSector) (hr : r.Valid fs) (h₀ : cluster ≠ 0)
    (h : fs.Followed debug n cluster (r.fatSector ≠ none)) :
  ∃ r' s', walkSlots debug fs n cluster r s = .ok (r', s') ∧ s'.Fine r'.fatSector
  := by
  induction n generalizing cluster r s with
  | zero => exact ⟨r, s, rfl, hfine⟩
  | succ n ih =>
      obtain ⟨⟨htwo, hin⟩, hlater⟩ := (Exfat.followed_succ h₀).1 h
      have hwithin : r.Within fs cluster := by
        by_cases hnone : r.fatSector = none
        · right
          apply hnone
        · left
          apply hin hnone
      rw [walkSlots, SlotReader.get, Fault.assert_eq_ok htwo, Except.ok_bind]
      obtain ⟨⟨b, r₁, s₁⟩, hload⟩ : ∃ res, r.load fs s cluster = res := ⟨_, rfl⟩
      obtain ⟨hfine₁, hr₁⟩ := SlotReader.load_fine hfine hr hwithin hload
      rw [hload]
      cases b with
      | false => exact ⟨r₁, s₁, rfl, hfine₁⟩
      | true =>
          change ∃ r' s', (if fs.fat cluster = 0 ∨ Exfat.END ≤ fs.fat cluster
            then .ok (r₁, s₁.use r₁.fatSector)
            else walkSlots debug fs n (fs.fat cluster) r₁ (s₁.use r₁.fatSector))
              = .ok (r', s') ∧ s'.Fine r'.fatSector
          split_ifs with hend
          · exact ⟨_, _, rfl, hfine₁.use⟩
          · have hnext : fs.next cluster = fs.fat cluster := by
              rw [Exfat.next, Exfat.entry, if_pos (SlotReader.load_true hr hload).1,
                if_neg (not_or.2 ⟨h₀, (not_or.1 hend).2⟩)]
            rw [hnext] at hlater
            apply ih hfine₁.use hr₁ (not_or.1 hend).1 (hlater.mono fun _ => trivial)

/-- When the accesses succeed and no slot is spoilt, the entries could be asked for. -/
theorem walkSlots_followed (hs : ∀ k, s.succeeds k = true) (hfine : s.Fine r.fatSector)
    (hr : r.Valid fs) (h₀ : cluster ≠ 0)
    (hwalk : walkSlots debug fs n cluster r s = .ok (r', s')) (hnot : ¬ s'.Doomed r'.fatSector) :
  fs.Followed debug n cluster (r.fatSector ≠ none)
  := by
  induction n generalizing cluster r s with
  | zero =>
      intro k hk
      apply absurd hk (Nat.not_lt_zero k)
  | succ n ih =>
      rw [walkSlots, SlotReader.get, Except.bind_eq_ok_iff] at hwalk
      obtain ⟨⟨v, r₁, s₁⟩, hget, hwalk⟩ := hwalk
      rw [Except.bind_eq_ok_iff] at hget
      obtain ⟨_, hassert, hget⟩ := hget
      have htwo := Fault.assert_eq_ok_iff.1 hassert
      obtain ⟨⟨b, r₂, s₂⟩, hload⟩ : ∃ res, r.load fs s cluster = res := ⟨_, rfl⟩
      rw [hload] at hget
      rw [Exfat.followed_succ h₀]
      cases b with
      | false =>
          cases hget
          cases hwalk
          have hout := SlotReader.load_false hs hload
          refine ⟨⟨htwo, ?_⟩, ?_⟩
          · intro hheld
            exfalso
            apply hnot (SlotReader.load_outside hfine hr _ hload).2
            apply not_or.2 ⟨hout, hheld⟩
          · rw [Exfat.next, Exfat.entry, if_neg hout, ite_self]
            apply Exfat.followed_zero
      | true =>
          cases hget
          obtain ⟨hin, hheld⟩ := SlotReader.load_true hr hload
          refine ⟨⟨htwo, fun _ => hin⟩, ?_⟩
          rw [Exfat.next, Exfat.entry, if_pos hin]
          dsimp only at hwalk
          by_cases hend : fs.fat cluster = 0 ∨ Exfat.END ≤ fs.fat cluster
          · have hzero : (if cluster = 0 ∨ Exfat.END ≤ fs.fat cluster then 0 else fs.fat cluster)
                = 0 := by
              split_ifs with hor
              · rfl
              · apply hend.resolve_right fun hle => hor (Or.inr hle)
            rw [hzero]
            apply Exfat.followed_zero
          · rw [if_neg hend] at hwalk
            rw [not_or] at hend
            rw [if_neg (not_or.2 ⟨h₀, hend.2⟩)]
            have hfine₁ := SlotReader.load_fine hfine hr (Or.inl hin) hload
            have hs₁ : ∀ k, (s₂.use r₁.fatSector).succeeds k = true := by
              intro k
              have heq := SlotReader.load_succeeds_eq hload
              cases hsector : r₁.fatSector with
              | none => apply absurd hsector hheld
              | some j => apply (congrFun heq k).trans (hs k)
            apply (ih hs₁ hfine₁.1.use hfine₁.2 hend.1 hwalk).mono
            intro _
            apply hheld

/-! ### The calls of a chain -/

/-- The line from which a lookup follows the entries, which is the last one of the cache with an
index that is not greater, or that of the first cluster. -/
def origin (c : ClusterChain) (index : ℕ) : Line :=
  let head : Line := { index := 0, cluster := c.firstCluster }
  if index = 0 then
    head
  else
    match c.hit index with
    | some node => (c.line node).getD head
    | none => ((c.cacheLine.span fun n => index ≤ n.2.index).2.head?.map Prod.snd).getD head

/-- What a lookup does with slots. -/
def slots (debug : Bool) (fs : Exfat) (c : ClusterChain) (s : SlotLog) (index : ℕ) :
    Except Fault SlotLog := do
  if c.firstCluster = 0 ∨ c.linear = true then
    return s
  else
    let cur := c.origin index
    let (r, s) ← walkSlots debug fs (index - cur.index) cur.cluster {} s
    return r.close s

/-- A chain that has a first cluster, and whose cache is in order. -/
structure Sane (c : ClusterChain) : Prop extends Ordered c where
  two_le : 2 ≤ c.firstCluster
  first_lt : c.firstCluster < 2 ^ 32
  lt : ∀ n ∈ c.cacheLine, n.2.cluster < Exfat.END

/-- A chain after any calls. The volume may be changed in between. -/
inductive Called (debug : Bool) (c₀ : ClusterChain) : ClusterChain → Prop
  | start : Called debug c₀ c₀
  | get {c c' : ClusterChain} {fs : Exfat} {dm dm' : Dm} {index cluster : ℕ} : Called debug c₀ c →
      c.get debug fs dm index = .ok (cluster, c', dm') → Called debug c₀ c'
  | expand {c c' : ClusterChain} {fs fs' : Exfat} {dm dm' : Dm} {index : ℕ} {done : Bool} :
      Called debug c₀ c → c.expand debug fs dm index = .ok (done, fs', c', dm') →
      Called debug c₀ c'

variable {c c' c₀ : ClusterChain} {index node : ℕ}

/-- A walk leads to the line with the index that it has counted to, whose number is that of an
entry if there has been one. -/
theorem walk_line (hwalk : walk debug fs n cur q dm = .ok (some l, q', dm')) (h₀ : cur.cluster ≠ 0) :
  l.index = cur.index + n ∧ l.cluster ≠ 0 ∧ (n = 0 ∧ l = cur ∨ l.cluster < Exfat.END)
  := by
  induction n generalizing cur q dm with
  | zero =>
      cases hwalk
      exact ⟨rfl, h₀, Or.inl ⟨rfl, rfl⟩⟩
  | succ n ih =>
      rw [walk, Except.bind_eq_ok_iff] at hwalk
      obtain ⟨⟨v, q₁, dm₁⟩, -, hwalk⟩ := hwalk
      dsimp only at hwalk
      by_cases hend : v = 0 ∨ Exfat.END ≤ v
      · rw [if_pos hend] at hwalk
        cases hwalk
      · rw [if_neg hend] at hwalk
        rw [not_or, not_le] at hend
        obtain ⟨hindex, hne, hor⟩ := ih hwalk hend.1
        refine ⟨?_, hne, ?_⟩
        · rw [hindex]
          dsimp only
          omega
        · right
          obtain ⟨-, rfl⟩ | hlt := hor
          · apply hend.2
          · apply hlt

namespace Sane

variable (h : Sane c)

include h

/-- The line of a hit is the line of the cache with the index. -/
theorem origin_hit (h₀ : index ≠ 0) (hhit : c.hit index = some node) :
  c.line node = some (c.origin index) ∧ node ∈ c.lruQueue ∧ (node, c.origin index) ∈ c.cacheLine ∧
    (c.origin index).index = index
  := by
  obtain ⟨l, hl, hmem, hline, hindex⟩ := h.toOrdered.hit_some hhit
  have horigin : c.origin index = l := by
    rw [origin]
    rw [if_neg h₀, hhit]
    change (c.line node).getD _ = l
    rw [hl, Option.getD_some]
  rw [horigin]
  exact ⟨hl, hmem, hline, hindex⟩

/-- When there is no line with the index, a lookup starts from a line before it, and the line with
the index belongs after the ones with greater indices. -/
theorem origin_miss (h₀ : index ≠ 0) (hhit : c.hit index = none) :
  ∃ before after, c.cacheLine.span (fun n => index ≤ n.2.index) = (before, after) ∧
    c.cacheLine = before ++ after ∧ (∀ n ∈ before, index < n.2.index) ∧
    (∀ n ∈ after, n.2.index < index) ∧
    (after.head?.map Prod.snd).getD { index := 0, cluster := c.firstCluster } = c.origin index ∧
    (c.origin index).index < index
  := by
  obtain ⟨before, after, hspan, hsplit, hbefore, hafter⟩ := h.toOrdered.exists_span hhit
  have horigin : (after.head?.map Prod.snd).getD { index := 0, cluster := c.firstCluster }
      = c.origin index := by
    rw [origin]
    rw [if_neg h₀, hhit]
    dsimp only
    rw [hspan]
  refine ⟨before, after, hspan, hsplit, hbefore, hafter, horigin, ?_⟩
  rw [← horigin]
  cases after with
  | nil => apply Nat.pos_of_ne_zero h₀
  | cons m rest => apply hafter m List.mem_cons_self

/-- A lookup starts from a line with the number of a cluster. -/
theorem origin_bounds (index : ℕ) :
  (c.origin index).index ≤ index ∧ (c.origin index).cluster ≠ 0 ∧
    (c.origin index).cluster < 2 ^ 32
  := by
  have htwo := h.two_le
  have hfirst := h.first_lt
  have hmember : ∀ n ∈ c.cacheLine, n.2.cluster ≠ 0 ∧ n.2.cluster < 2 ^ 32 := by
    intro n hn
    exact ⟨h.found n hn, lt_trans (h.lt n hn) (by decide)⟩
  by_cases h₀ : index = 0
  · have horigin : c.origin index = { index := 0, cluster := c.firstCluster } := if_pos h₀
    rw [horigin]
    refine ⟨Nat.zero_le _, ?_, hfirst⟩
    dsimp only
    omega
  cases hhit : c.hit index with
  | some node =>
      obtain ⟨-, -, hmem, hindex⟩ := h.origin_hit h₀ hhit
      exact ⟨hindex.le, hmember _ hmem⟩
  | none =>
      obtain ⟨before, after, -, hsplit, -, -, horigin, hlt⟩ := h.origin_miss h₀ hhit
      refine ⟨hlt.le, ?_⟩
      rw [← horigin]
      cases hcons : after with
      | nil =>
          refine ⟨?_, hfirst⟩
          change c.firstCluster ≠ 0
          omega
      | cons m rest =>
          apply hmember m
          rw [hsplit, hcons]
          apply List.mem_append_right _ List.mem_cons_self

/-- A lookup follows the entries from its origin. If the chain ends before the index, it finds no
cluster. -/
theorem get_of_walk (hl : c.linear = false) {found : Option Line}
    (hwalk : walk debug fs (index - (c.origin index).index) (c.origin index) {} dm
      = .ok (found, q', dm')) :
  ∃ c' dm'', c.get debug fs dm index = .ok ((found.map Line.cluster).getD 0, c', dm'') ∧
    Sane c' ∧ c'.firstCluster = c.firstCluster ∧ c'.linear = c.linear
  := by
  have htwo := h.two_le
  have hbounds := h.origin_bounds index
  rw [get, if_neg (by omega), if_neg (by rw [hl]; decide)]
  by_cases h₀ : index = 0
  · have horigin : c.origin index = { index := 0, cluster := c.firstCluster } := if_pos h₀
    rw [horigin, h₀] at hwalk
    cases hwalk
    rw [if_pos h₀]
    exact ⟨c, dm, rfl, h, rfl, rfl⟩
  rw [if_neg h₀]
  cases hhit : c.hit index with
  | some node =>
      obtain ⟨hline, hmem, -, hindex⟩ := h.origin_hit h₀ hhit
      rw [hindex, Nat.sub_self] at hwalk
      cases hwalk
      dsimp only
      rw [hline]
      refine ⟨c.touch node, dm, rfl, ⟨h.toOrdered.touch hmem, ?_, ?_, ?_⟩, touch_keeps⟩
      · rw [touch_keeps.1]
        apply htwo
      · rw [touch_keeps.1]
        apply h.first_lt
      · rw [cacheLine_touch]
        apply h.lt
  | none =>
      obtain ⟨before, after, hspan, hsplit, hbefore, hafter, horigin, hlt⟩ := h.origin_miss h₀ hhit
      dsimp only
      rw [hspan]
      dsimp only
      rw [h.toOrdered.assert_lines debug hsplit, Except.ok_bind, horigin, hwalk, Except.ok_bind]
      cases found with
      | none => exact ⟨c, _, rfl, h, rfl, rfl⟩
      | some l =>
          obtain ⟨hindex, hne, hor⟩ := walk_line hwalk hbounds.2.1
          rw [Nat.add_sub_cancel' hlt.le] at hindex
          have hend : l.cluster < Exfat.END := hor.resolve_left fun hz => by lia
          dsimp only
          rw [Fault.assert_eq_ok fun _ => hindex, Except.ok_bind]
          obtain ⟨c', hins, hc', -, hsub, hfirst, hlinear⟩ : ∃ c',
              c.insertLine debug before after l = .ok c' ∧ Ordered c' ∧ _ :=
            h.toOrdered.insertLine hsplit (hindex ▸ hbefore) (hindex ▸ hafter)
              (hindex ▸ Nat.pos_of_ne_zero h₀) hne
          rw [hins, Except.ok_bind]
          refine ⟨c', _, rfl, ⟨hc', hfirst ▸ htwo, hfirst ▸ h.first_lt, ?_⟩, hfirst, hlinear⟩
          intro n hn
          obtain rfl | hn := hsub n hn
          · apply hend
          · apply h.lt n hn

/-- A lookup that returns has followed the entries. -/
theorem walk_of_get (hl : c.linear = false) (hget : c.get debug fs dm index = .ok (cluster, c', dm')) :
  ∃ found q' dm', walk debug fs (index - (c.origin index).index) (c.origin index) {} dm
    = .ok (found, q', dm')
  := by
  have htwo := h.two_le
  by_cases h₀ : index = 0
  · rw [h₀, Nat.zero_sub]
    exact ⟨_, _, _, rfl⟩
  cases hhit : c.hit index with
  | some node =>
      obtain ⟨-, -, -, hindex⟩ := h.origin_hit h₀ hhit
      rw [hindex, Nat.sub_self]
      exact ⟨_, _, _, rfl⟩
  | none =>
      obtain ⟨before, after, hspan, -, -, -, horigin, -⟩ := h.origin_miss h₀ hhit
      rw [get, if_neg (by omega), if_neg (by rw [hl]; decide), if_neg h₀, hhit] at hget
      dsimp only at hget
      rw [hspan] at hget
      dsimp only at hget
      rw [Except.bind_eq_ok_iff] at hget
      obtain ⟨_, -, hget⟩ := hget
      rw [horigin, Except.bind_eq_ok_iff] at hget
      obtain ⟨⟨found, q', dm₁⟩, hwalk, -⟩ := hget
      exact ⟨found, q', dm₁, hwalk⟩

/-- A lookup in a row of clusters adds the index. -/
theorem get_row (hl : c.linear = true) :
  c.get debug fs dm index = .ok ((c.firstCluster + index) % 2 ^ 32, c, dm)
  := by
  have htwo := h.two_le
  rw [get, if_neg (by omega), if_pos hl]
  rfl

/-- A lookup leaves the cache in order, and finds a number of 32 bits. -/
theorem get_inv (hget : c.get debug fs dm index = .ok (cluster, c', dm')) :
  Sane c' ∧ cluster < 2 ^ 32 ∧ c'.firstCluster = c.firstCluster ∧ c'.linear = c.linear
  := by
  cases hl : c.linear with
  | true =>
      rw [h.get_row hl] at hget
      cases hget
      exact ⟨h, Nat.mod_lt _ (by decide), rfl, hl⟩
  | false =>
      obtain ⟨found, q', dm₁, hwalk⟩ := h.walk_of_get hl hget
      obtain ⟨c₁, dm₂, hget', hc₁, hkeep⟩ := h.get_of_walk hl hwalk
      rw [hget'] at hget
      cases hget
      rw [← hl]
      refine ⟨hc₁, ?_, hkeep⟩
      obtain ⟨-, hne, hlt⟩ := h.origin_bounds index
      cases found with
      | none => exact Nat.two_pow_pos 32
      | some l =>
          obtain ⟨-, -, ⟨-, rfl⟩ | hend⟩ := walk_line hwalk hne
          · apply hlt
          · apply lt_trans hend
            decide

/-- A chain with a first cluster is extended without a change to what it has in memory. -/
theorem expand_inv {done : Bool}
    (hexpand : c.expand debug fs dm index = .ok (done, fs', c', dm')) :
  c' = c
  := by
  have htwo := h.two_le
  obtain ⟨-, heq | ⟨hzero, -⟩⟩ := ClusterChain.expand_inv hexpand
  · apply heq
  · omega

end Sane

/-- Appending clusters to a chain leaves the clusters where they are. -/
theorem allocate_sameClusters {tail : Line} {alloc : Allocator} {done : Bool}
    (h : allocate debug index n fs c tail alloc q dm = .ok (done, fs', c', dm')) :
  fs.SameClusters fs'
  := by
  induction n generalizing fs c tail alloc q dm with
  | zero => cases h
  | succ n ih =>
      obtain ⟨next, fs₁, alloc₁, dm₁, hget, hround⟩ := allocate_cases h
      have hsame₁ := Allocator.get_sameClusters hget
      rcases hround with ⟨-, -, rfl, -⟩ | ⟨-, appended, fs₂, q₂, dm₂, hput, hround⟩
      · apply hsame₁
      have hsame₂ := hsame₁.trans (FatReader.put_sameClusters hput)
      rcases hround with ⟨-, -, rfl, -⟩ | ⟨-, -, hrest⟩ | ⟨-, -, -, rfl, -⟩
      · apply hsame₂
      · apply hsame₂.trans (ih hrest)
      · apply hsame₂

/-- Extending a chain leaves the clusters where they are. -/
theorem expand_sameClusters {done : Bool}
    (h : c.expand debug fs dm index = .ok (done, fs', c', dm')) :
  fs.SameClusters fs'
  := by
  have hsame : ∀ {b : Bool} {dm'' : Dm}, (.ok (b, fs, c, dm'') : Except Fault _)
      = .ok (done, fs', c', dm') → fs.SameClusters fs' := by
    intro b dm'' heq
    cases heq
    apply Exfat.SameClusters.refl
  rw [expand] at h
  dsimp only at h
  split_ifs at h
  · apply hsame h
  · apply allocate_sameClusters h
  · apply hsame h
  · rw [Except.bind_eq_ok_iff] at h
    obtain ⟨⟨found, q₁, dm₁⟩, -, h⟩ := h
    cases found with
    | none => apply hsame h
    | some tail =>
        dsimp only at h
        split_ifs at h
        · apply hsame h
        · apply allocate_sameClusters h

/-- A chain that has just been made is in order. -/
theorem sane_start {first : ℕ} (linear : Bool) (h₂ : 2 ≤ first) (hlt : first < 2 ^ 32) :
  Sane { firstCluster := first, linear := linear }
  := by
  constructor
  · constructor
    · apply List.Pairwise.nil
    · intro n hn
      cases hn
    · intro n hn
      cases hn
    · apply List.nodup_nil
    · apply List.Perm.refl
    · intro n hn
      cases hn
  · apply h₂
  · apply hlt
  · intro n hn
    cases hn

/-- A chain stays in order, whatever the calls and however the volume is changed. -/
theorem Called.sane (h : Called debug c₀ c) (h₀ : Sane c₀) : Sane c := by
  induction h with
  | start => apply h₀
  | get _ hget ih => apply (ih.get_inv hget).1
  | expand _ hexpand ih =>
      rw [ih.expand_inv hexpand]
      apply ih

/-- The cluster that a walk leads to is found by following the entries. If an access fails, there may
be none. -/
theorem walk_value {found : Option Line} (hq : q.Valid fs) (h₀ : cur.cluster ≠ 0)
    (hwalk : walk debug fs n cur q dm = .ok (found, q', dm')) :
  (found.map Line.cluster).getD 0 = fs.clusterAt cur.cluster n ∨
    (found.map Line.cluster).getD 0 = 0 ∧ ¬ dm.Succeeds
  := by
  induction n generalizing cur q dm with
  | zero =>
      cases hwalk
      left
      rfl
  | succ n ih =>
      rw [walk, Except.bind_eq_ok_iff] at hwalk
      obtain ⟨⟨v, q₁, dm₁⟩, hget, hwalk⟩ := hwalk
      obtain ⟨hq₁, hv⟩ := FatReader.get_inv hq hget
      dsimp only at hwalk
      rw [Exfat.clusterAt_succ_next]
      by_cases heq : v = fs.entry cur.cluster
      · by_cases hend : v = 0 ∨ Exfat.END ≤ v
        · rw [if_pos hend] at hwalk
          cases hwalk
          left
          have hnext : fs.next cur.cluster = 0 := by
            rw [Exfat.next, ← heq]
            split_ifs with hor
            · rfl
            · apply hend.resolve_right fun hle => hor (Or.inr hle)
          rw [hnext, ← Nat.zero_add n]
          symm
          apply Exfat.clusterAt_add_eq_zero rfl
        · rw [if_neg hend] at hwalk
          rw [not_or] at hend
          have hnext : fs.next cur.cluster = v := by
            rw [Exfat.next, ← heq, if_neg (not_or.2 ⟨h₀, hend.2⟩)]
          rw [hnext]
          have hdm₁ : dm₁.Succeeds ↔ dm.Succeeds := by
            rw [Dm.Succeeds, FatReader.get_succeeds_eq hget, Dm.Succeeds]
          obtain hvalue | ⟨hvalue, hnot⟩ := ih hq₁ hend.1 hwalk
          · left
            apply hvalue
          · right
            exact ⟨hvalue, fun hdm => hnot (hdm₁.2 hdm)⟩
      · -- the entry has not been read
        have hzero := hv.resolve_right heq
        rw [if_pos (Or.inl hzero)] at hwalk
        cases hwalk
        right
        refine ⟨rfl, ?_⟩
        intro hdm
        have htwo : debug = true → 2 ≤ cur.cluster := by
          rw [FatReader.get, Except.bind_eq_ok_iff] at hget
          obtain ⟨_, hassert, -⟩ := hget
          apply Fault.assert_eq_ok_iff.1 hassert
        obtain ⟨_, _, hread, -⟩ := FatReader.get_eq hq hdm htwo
        rw [hread] at hget
        cases hget
        apply heq rfl

/-! ### Lookups on a damaged volume -/

/-- Looking up a cluster and its sector comes to its end without a fault and gives back every slot
once, whichever accesses succeed, and what `get_lba` returns is a sector of the clusters of the volume
or `0`. -/
structure Survives (debug : Bool) (fs : Exfat) (c : ClusterChain) (index : ℕ) : Prop where
  returns : ∀ dm : Dm, ∃ cluster c' dm', c.get debug fs dm index = .ok (cluster, c', dm') ∧
    (cluster ≠ 0 → ∃ base, fs.lbaOfCluster debug cluster = .ok base)
  balanced : ∀ s : SlotLog, s.events = [] →
    ∃ s', c.slots debug fs s index = .ok s' ∧ s'.Balanced
  located : ∀ updateChain offset (dm : Dm), offset / fs.clusterSize % 2 ^ 32 = index →
    ∃ lba c' dm', FileData.getLba debug updateChain false offset 1 fs c dm = .ok (lba, fs, c', dm') ∧
      (lba = 0 ∨ fs.Inside lba)
  inside : ∀ updateChain expand offset n dm lba fs' c' dm',
    FileData.getLba debug updateChain expand offset n fs c dm = .ok (lba, fs', c', dm') →
      lba = 0 ∨ fs.Inside lba

/-- The entries that lead from the origin of a lookup to the index can be asked for, and the number
that they lead to is one that `lba_of_cluster` is made for, in a debug build. In a row of clusters it
is the sum that has to be such a number. -/
structure Harmless (debug : Bool) (fs : Exfat) (c : ClusterChain) (index : ℕ) : Prop where
  row : c.linear = true → debug = true → (c.firstCluster + index) % 2 ^ 32 ≠ 0 →
    Exfat.Accepted ((c.firstCluster + index) % 2 ^ 32)
  followed : c.linear = false →
    fs.Followed debug (index - (c.origin index).index) (c.origin index).cluster False
  target : c.linear = false → debug = true →
    fs.clusterAt (c.origin index).cluster (index - (c.origin index).index) ≠ 0 →
    Exfat.Accepted (fs.clusterAt (c.origin index).cluster (index - (c.origin index).index))

/-- A log in which nothing has happened is in order. -/
theorem fine_of_events (hs : s.events = []) : s.Fine none := by
  have hinit := SlotLog.fine_init s.succeeds
  constructor
  · intro k hk
    rw [hs] at hk
    cases hk
  · rw [hs]
    apply hinit.own
  · rw [hs]
    apply hinit.once
  · rw [hs]
    apply hinit.held
  · rw [hs]
    apply hinit.live

namespace Sane

variable (h : Sane c)

include h

/-- What `get_lba` returns is a sector of the clusters or `0`. -/
theorem getLba_inside {updateChain : ℕ → Dm → Bool × Dm} {expand : Bool} {offset lba : ℕ}
    (hsize : 9 ≤ fs.clusterShift)
    (hlba : FileData.getLba debug updateChain expand offset n fs c dm = .ok (lba, fs', c', dm')) :
  lba = 0 ∨ fs.Inside lba
  := by
  induction n generalizing fs c dm with
  | zero => cases hlba
  | succ n ih =>
      rw [FileData.getLba, Except.bind_eq_ok_iff] at hlba
      obtain ⟨⟨cluster, c₁, dm₁⟩, hget, hlba⟩ := hlba
      obtain ⟨h₁, hlt, -⟩ := h.get_inv hget
      dsimp only at hlba
      by_cases hcluster : cluster ≠ 0
      · rw [if_pos hcluster, Except.bind_eq_ok_iff] at hlba
        obtain ⟨base, hbase, hlba⟩ := hlba
        by_cases hb : base ≠ 0
        · rw [if_pos hb] at hlba
          cases hlba
          right
          apply Exfat.lbaOfCluster_inside hsize hlt _ hbase hb
          apply Nat.mod_lt _ (Nat.two_pow_pos _)
        · rw [if_neg hb] at hlba
          cases hlba
          left
          rfl
      · rw [if_neg hcluster] at hlba
        by_cases hexp : expand = true
        · rw [if_pos hexp, Except.bind_eq_ok_iff] at hlba
          obtain ⟨⟨done, fs₂, c₂, dm₂⟩, hexpand, hlba⟩ := hlba
          have hsame := expand_sameClusters hexpand
          have hsize₂ : 9 ≤ fs₂.clusterShift := hsame.shift ▸ hsize
          have hc₂ := h₁.expand_inv hexpand
          have hagain : ∀ {c₃ dm₃}, Sane c₃ →
              FileData.getLba debug updateChain expand offset n fs₂ c₃ dm₃
                = .ok (lba, fs', c', dm') → lba = 0 ∨ fs.Inside lba := by
            intro c₃ dm₃ h₃ hlba₃
            apply (ih h₃ hsize₂ hlba₃).imp_right hsame.inside
          dsimp only at hlba
          by_cases hdone : done = false
          · rw [if_pos hdone] at hlba
            cases hlba
            left
            rfl
          rw [if_neg hdone] at hlba
          by_cases hz : offset / fs.clusterSize = 0
          · rw [if_pos hz, Except.bind_eq_ok_iff] at hlba
            obtain ⟨⟨head, c₃, dm₃⟩, hhead, hlba⟩ := hlba
            have h₃ : Sane c₃ := ((hc₂ ▸ h₁).get_inv hhead).1
            dsimp only at hlba
            split_ifs at hlba
            · cases hlba
              left
              rfl
            · apply hagain h₃ hlba
          · rw [if_neg hz] at hlba
            apply hagain (hc₂ ▸ h₁) hlba
        · rw [if_neg hexp] at hlba
          cases hlba
          left
          rfl

/-- A lookup that returns locates a sector of the volume, or none. -/
theorem located {updateChain : ℕ → Dm → Bool × Dm} {offset : ℕ} (hsize : 9 ≤ fs.clusterShift)
    (hget : c.get debug fs dm (offset / fs.clusterSize % 2 ^ 32) = .ok (cluster, c', dm'))
    (hbase : cluster ≠ 0 → ∃ base, fs.lbaOfCluster debug cluster = .ok base) :
  ∃ lba, FileData.getLba debug updateChain false offset 1 fs c dm = .ok (lba, fs, c', dm') ∧
    (lba = 0 ∨ fs.Inside lba)
  := by
  suffices hlba : ∃ lba,
      FileData.getLba debug updateChain false offset 1 fs c dm = .ok (lba, fs, c', dm') by
    obtain ⟨lba, hlba⟩ := hlba
    exact ⟨lba, hlba, h.getLba_inside hsize hlba⟩
  rw [FileData.getLba, hget, Except.ok_bind]
  dsimp only
  by_cases hcluster : cluster ≠ 0
  · obtain ⟨base, hbase⟩ := hbase hcluster
    rw [if_pos hcluster, hbase, Except.ok_bind]
    split_ifs
    · exact ⟨_, rfl⟩
    · exact ⟨_, rfl⟩
  · rw [if_neg hcluster, if_neg (by decide)]
    exact ⟨_, rfl⟩

/-- A lookup that does no harm returns, and the sector of its cluster is found. -/
theorem returns_of_harmless (hc : c.Harmless debug fs index) (dm : Dm) :
  ∃ cluster c' dm', c.get debug fs dm index = .ok (cluster, c', dm') ∧
    (cluster ≠ 0 → ∃ base, fs.lbaOfCluster debug cluster = .ok base)
  := by
  cases hl : c.linear with
  | true =>
      refine ⟨_, _, _, h.get_row hl, ?_⟩
      intro hne
      rw [Exfat.lbaOfCluster_returns_iff]
      intro hdebug
      apply hc.row hl hdebug hne
  | false =>
      have h₀ := (h.origin_bounds index).2.1
      obtain ⟨s, hs⟩ : ∃ s : SlotLog, s = { succeeds := dm.succeeds, gets := dm.gets } := ⟨_, rfl⟩
      have hagrees : SlotReader.Agrees {} s {} dm := by
        rw [hs]
        exact ⟨rfl, rfl, Iff.rfl, rfl, rfl⟩
      have hfine : s.Fine ({} : SlotReader).fatSector := fine_of_events (hs ▸ rfl)
      obtain ⟨r', s', hslots, -⟩ := walkSlots_fine hfine (fun hne => absurd rfl hne) h₀
        ((hc.followed hl).mono fun hne => hne rfl)
      obtain ⟨found, q', dm₁, hwalk⟩ := walkSlots_agrees hagrees hslots
      obtain ⟨c', dm₂, hget, -⟩ := h.get_of_walk hl hwalk
      refine ⟨_, c', dm₂, hget, ?_⟩
      intro hne
      rw [Exfat.lbaOfCluster_returns_iff]
      intro hdebug
      obtain hvalue | ⟨hzero, -⟩ := walk_value FatReader.valid_init h₀ hwalk
      · rw [hvalue] at hne ⊢
        apply hc.target hl hdebug hne
      · apply absurd hzero hne

/-- A lookup that does no harm gives back every slot once. -/
theorem balanced_of_harmless (hc : c.Harmless debug fs index) (hs : s.events = []) :
  ∃ s', c.slots debug fs s index = .ok s' ∧ s'.Balanced
  := by
  have hfine := fine_of_events hs
  rw [slots]
  cases hl : c.linear with
  | true =>
      rw [if_pos (Or.inr rfl)]
      exact ⟨s, rfl, hfine.balanced⟩
  | false =>
      have htwo := h.two_le
      rw [if_neg (by simp only [Bool.false_eq_true, or_false]; omega)]
      obtain ⟨r', s', hslots, hfine'⟩ := walkSlots_fine (r := {}) hfine (fun hne => absurd rfl hne)
        (h.origin_bounds index).2.1 ((hc.followed hl).mono fun hne => hne rfl)
      dsimp only
      rw [hslots, Except.ok_bind]
      exact ⟨_, rfl, hfine'.relaxAny.balanced⟩

/-- A lookup that comes to its end does no harm. -/
theorem harmless_of_survives (hc : c.Survives debug fs index) : c.Harmless debug fs index := by
  have h₀ := (h.origin_bounds index).2.1
  constructor
  · intro hl hdebug hne
    obtain ⟨cluster, c', dm', hget, hbase⟩ := hc.returns { succeeds := fun _ => true }
    rw [h.get_row hl] at hget
    cases hget
    apply Exfat.lbaOfCluster_returns_iff.1 (hbase hne) hdebug
  · intro hl
    have htwo := h.two_le
    obtain ⟨s', hslots, hbalanced⟩ := hc.balanced { succeeds := fun _ => true } rfl
    rw [slots, hl, if_neg (by simp only [Bool.false_eq_true, or_false]; omega)] at hslots
    dsimp only at hslots
    rw [Except.bind_eq_ok_iff] at hslots
    obtain ⟨⟨r', s₁⟩, hwalk, hslots⟩ := hslots
    cases hslots
    apply (walkSlots_followed (fun _ => rfl) (SlotLog.fine_init _) (fun hne => absurd rfl hne) h₀
      hwalk _).mono False.elim
    intro hdoomed
    apply hdoomed.relaxAny.not_balanced hbalanced
  · intro hl hdebug hne
    obtain ⟨cluster, c', dm', hget, hbase⟩ := hc.returns { succeeds := fun _ => true }
    obtain ⟨found, q', dm₁, hwalk⟩ := h.walk_of_get hl hget
    obtain ⟨c₁, dm₂, hget', -⟩ := h.get_of_walk hl hwalk
    rw [hget] at hget'
    cases hget'
    have hvalue := (walk_value FatReader.valid_init h₀ hwalk).resolve_right
      fun hfail => hfail.2 fun _ => rfl
    rw [hvalue] at hbase
    apply Exfat.lbaOfCluster_returns_iff.1 (hbase hne) hdebug

end Sane

/-- On any volume, and after any calls, a lookup comes to its end exactly if the entries that it
follows can be asked for, and lead to a number that `lba_of_cluster` is made for. -/
theorem survives_iff {first : ℕ} {linear : Bool} (h₂ : 2 ≤ first) (hlt : first < 2 ^ 32)
    (hcalled : Called debug { firstCluster := first, linear := linear } c)
    (hsize : 9 ≤ fs.clusterShift) (index : ℕ) :
  c.Survives debug fs index ↔ c.Harmless debug fs index
  := by
  have h : Sane c := hcalled.sane (sane_start linear h₂ hlt)
  constructor
  · intro hc
    apply h.harmless_of_survives hc
  · intro hc
    constructor
    · apply h.returns_of_harmless hc
    · intro s hs
      apply h.balanced_of_harmless hc hs
    · intro updateChain offset dm hindex
      obtain ⟨cluster, c', dm', hget, hbase⟩ := h.returns_of_harmless hc dm
      obtain ⟨lba, hlba⟩ := h.located hsize (hindex ▸ hget) hbase
      exact ⟨lba, c', dm', hlba⟩
    · intro updateChain expand offset n dm lba fs' c' dm' hlba
      apply h.getLba_inside hsize hlba

/-- On a volume that is in order, the last cluster of a chain is looked up. -/
theorem survives_iff_last :
  Survives true (Chains.threeClusters true) { firstCluster := 2 } 2
  := by
  apply (survives_iff (by decide) (by decide) Called.start (by decide) 2).2
  have htwo : ∀ k < 2, (Chains.threeClusters true).clusterAt 2 k = 2 + k := by decide
  constructor
  · intro hl
    cases hl
  · intro _ k hk _
    change k < 2 at hk
    change (true = true → 2 ≤ (Chains.threeClusters true).clusterAt 2 k) ∧
      (k ≠ 0 ∨ False → (Chains.threeClusters true).clusterAt 2 k / 128 < 1)
    rw [htwo k hk]
    omega
  · intro _ _ _
    decide

/-- When the entry of the first cluster is `1`, the number `1` is returned for the next cluster, and
an assertion fails. When it is a number beyond the table, the slot of the sector before is given back
twice, also in a release build. -/
theorem damaged_faults :
  ¬ Survives true ((Chains.threeClusters true).setEntry 2 1) { firstCluster := 2 } 1 ∧
    ¬ Survives false ((Chains.threeClusters true).setEntry 2 200) { firstCluster := 2 } 2
  := by
  constructor
  · intro h
    obtain ⟨cluster, c', dm', hget, hbase⟩ := h.returns Chains.reading
    cases hget
    obtain ⟨base, hbase⟩ := hbase (by decide)
    cases hbase
  · intro h
    obtain ⟨s', hslots, hbalanced⟩ := h.balanced { succeeds := fun _ => true } rfl
    cases hslots
    apply absurd (hbalanced.once 0 (by decide))
    decide

end ClusterChain

end UOS
