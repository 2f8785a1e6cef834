import Cofuos.FileSystem.Fat

/-!
# Following the allocation table

The clusters of a chain are reached by following the entries of the allocation table from the
first cluster. We show that the chain keeps its clusters when the volume is changed by steps in
which free clusters are allocated and appended to chains, provided that the bitmap has the
clusters of the chain as used.
-/

namespace UOS

namespace Exfat

/-! ### Following the allocation table -/

/-- The successor of a cluster, and `0` after the last one. -/
def next (fs : Exfat) (cluster : ℕ) : ℕ :=
  if cluster = 0 ∨ END ≤ fs.entry cluster then 0 else fs.entry cluster

/-- The cluster that is reached from `first` by following `i` entries, and `0` if the chain is
shorter. -/
def clusterAt (fs : Exfat) (first i : ℕ) : ℕ := fs.next^[i] first

/-- The entries of a chain are the numbers of clusters, or mark its end. -/
def Chained (fs : Exfat) (first : ℕ) : Prop :=
  ∀ i, fs.clusterAt first i ≠ 0 →
    2 ≤ fs.clusterAt first i ∧
      (fs.clusterAt first i / elementPerSector < fs.fatLimit →
        2 ≤ fs.fat (fs.clusterAt first i) ∧ fs.fat (fs.clusterAt first i) ≤ fs.clusterCount + 1
          ∨ END ≤ fs.fat (fs.clusterAt first i))

/-- The bitmap has the clusters of a chain as used. -/
def Covered (fs : Exfat) (first : ℕ) : Prop :=
  ∀ i, fs.clusterAt first i ≠ 0 → fs.clusterAt first i - 2 < fs.clusterCount →
    fs.used (fs.clusterAt first i - 2) = true

variable {fs fs' : Exfat} {first cluster i n : ℕ}

@[simp]
theorem next_zero : fs.next 0 = 0 := by
  simp [next]

@[simp]
theorem clusterAt_zero : fs.clusterAt first 0 = first := rfl

theorem clusterAt_succ : fs.clusterAt first (i + 1) = fs.next (fs.clusterAt first i) :=
  Function.iterate_succ_apply' _ _ _

/-- Beyond its end a chain has no clusters. -/
theorem clusterAt_add_eq_zero (h : fs.clusterAt first i = 0) (n : ℕ) :
  fs.clusterAt first (i + n) = 0
  := by
  induction n with
  | zero => apply h
  | succ n ih => rw [← Nat.add_assoc, clusterAt_succ, ih, next_zero]

theorem clusterAt_ne_zero_of_le (h : fs.clusterAt first n ≠ 0) (hi : i ≤ n) :
  fs.clusterAt first i ≠ 0
  := by
  intro h₀
  apply h
  rw [← Nat.add_sub_cancel' hi]
  apply clusterAt_add_eq_zero h₀

/-- A cluster whose number and whose entry are in order, and that is in use. -/
structure Good (fs : Exfat) (cluster : ℕ) : Prop where
  two_le : 2 ≤ cluster
  fat : cluster / elementPerSector < fs.fatLimit →
    2 ≤ fs.fat cluster ∧ fs.fat cluster ≤ fs.clusterCount + 1 ∨ END ≤ fs.fat cluster
  used : cluster - 2 < fs.clusterCount → fs.used (cluster - 2) = true

/-- All clusters of a chain are in order and in use. -/
def Intact (fs : Exfat) (first : ℕ) : Prop :=
  ∀ i, fs.clusterAt first i ≠ 0 → fs.Good (fs.clusterAt first i)

theorem intact_iff : fs.Intact first ↔ fs.Chained first ∧ fs.Covered first := by
  constructor
  · intro h
    constructor
    · intro i hi
      exact ⟨(h i hi).two_le, (h i hi).fat⟩
    · intro i hi
      apply (h i hi).used
  · rintro ⟨hc, hu⟩ i hi
    exact ⟨(hc i hi).1, (hc i hi).2, hu i hi⟩

/-! ### Allocations and chains -/

/-- A set of clusters that contains the successors of its elements contains the chain of each of
them. -/
theorem intact_of_closed {P : ℕ → Prop} (hfirst : first ≠ 0 → P first)
    (hnext : ∀ c, P c → fs.next c ≠ 0 → P (fs.next c)) (hgood : ∀ c, P c → fs.Good c) :
  fs.Intact first
  := by
  have hall : ∀ i, fs.clusterAt first i ≠ 0 → P (fs.clusterAt first i) := by
    intro i
    induction i with
    | zero => apply hfirst
    | succ i ih =>
        intro hi
        rw [clusterAt_succ] at hi ⊢
        apply hnext _ (ih _) hi
        intro h₀
        rw [h₀, next_zero] at hi
        apply hi rfl
  intro i hi
  apply hgood _ (hall i hi)

/-- The clusters of an intact chain keep their places when each of them keeps its successor. -/
theorem clusterAt_eq_of_next
    (hnext : ∀ i, fs.clusterAt first i ≠ 0 → fs.next (fs.clusterAt first i) ≠ 0 →
      fs'.next (fs.clusterAt first i) = fs.next (fs.clusterAt first i)) :
  ∀ i, fs.clusterAt first i ≠ 0 → fs'.clusterAt first i = fs.clusterAt first i
  := by
  intro i
  induction i with
  | zero => intro _; rfl
  | succ i ih =>
      intro hi
      have hprev := clusterAt_ne_zero_of_le hi (Nat.le_succ i)
      rw [clusterAt_succ] at hi ⊢
      rw [clusterAt_succ, ih hprev, hnext i hprev hi]

theorem fatLimit_eq (h : fs'.clusterCount = fs.clusterCount) : fs'.fatLimit = fs.fatLimit := by
  rw [fatLimit, fatLimit, h]

/-- Setting a bit of the bitmap leaves a chain as it is. -/
theorem Marked.intact (h : fs.Marked fs') (hi : fs.Intact first) :
  fs'.Intact first ∧ ∀ i, fs'.clusterAt first i = fs.clusterAt first i
  := by
  have hentry : fs'.entry = fs.entry := by
    ext c
    rw [entry, entry, fatLimit_eq h.count, h.fat]
  have hnext : fs'.next = fs.next := by
    ext c
    rw [next, next, hentry]
  have hat : ∀ i, fs'.clusterAt first i = fs.clusterAt first i := by
    intro i
    rw [clusterAt, clusterAt, hnext]
  refine ⟨?_, hat⟩
  intro i h₀
  rw [hat] at h₀ ⊢
  constructor
  · apply (hi i h₀).two_le
  · rw [fatLimit_eq h.count, h.fat, h.count]
    apply (hi i h₀).fat
  · rw [h.count]
    intro hc
    apply h.used _ ((hi i h₀).used hc)

namespace Appended

variable {new : ℕ} (h : fs.Appended fs' new)

include h

/-- A cluster that is in use is not the one that is allocated. -/
theorem ne_of_good (hc : fs.Good cluster) : cluster ≠ new := by
  rintro rfl
  have := hc.used h.lt_count
  rw [h.free] at this
  cases this

/-- What was in order and in use still is. -/
theorem good (hc : fs.Good cluster) : fs'.Good cluster := by
  constructor
  · apply hc.two_le
  · rw [fatLimit_eq h.count, h.count]
    intro hin
    obtain heq | ⟨-, heq⟩ := h.linked cluster (h.ne_of_good hc)
    · rw [heq]
      apply hc.fat hin
    · left
      rw [heq]
      have := h.two_le
      have := h.lt_count
      lia
  · rw [h.count, h.used]
    intro hlt
    by_cases heq : cluster - 2 = new - 2
    · rw [heq, Function.update_self]
    · rw [Function.update_of_ne heq, hc.used hlt]

/-- The cluster that is allocated is in order and in use. -/
theorem good_new : fs'.Good new := by
  have h₂ := h.two_le
  have hlt := h.lt_count
  constructor
  · apply h₂
  · intro _
    rw [h.count]
    obtain hend | heq := h.own
    · right
      apply hend
    · left
      rw [heq]
      lia
  · intro _
    rw [h.used, Function.update_self]

/-- A cluster in use keeps its successor, or is continued by the new one. -/
theorem next_good (hc : fs.Good cluster) :
  fs'.next cluster = fs.next cluster ∨
    fs.next cluster = 0 ∧ (fs'.next cluster = new ∨ fs'.next cluster = 0)
  := by
  rw [next, next, entry, entry, fatLimit_eq h.count]
  obtain heq | ⟨hend, heq⟩ := h.linked cluster (h.ne_of_good hc)
  · left
    rw [heq]
  · by_cases hin : cluster / elementPerSector < fs.fatLimit
    · right
      rw [if_pos hin, if_pos hin, if_pos (Or.inr hend), heq]
      refine ⟨rfl, ?_⟩
      split_ifs
      · right
        rfl
      · left
        rfl
    · left
      rw [if_neg hin, if_neg hin]

/-- The new cluster has no successor but itself. -/
theorem next_new : fs'.next new = new ∨ fs'.next new = 0 := by
  rw [next, entry]
  by_cases hin : new / elementPerSector < fs'.fatLimit
  · rw [if_pos hin]
    obtain hend | heq := h.own
    · right
      rw [if_pos (Or.inr hend)]
    · rw [heq]
      split_ifs
      · right
        rfl
      · left
        rfl
  · right
    rw [if_neg hin, ite_self]

/-- The chain of the new cluster is intact. -/
theorem intact_new : fs'.Intact new := by
  apply intact_of_closed (P := fun c => c = new)
  · intro _
    rfl
  · rintro c rfl h₀
    apply h.next_new.resolve_right h₀
  · rintro c rfl
    apply h.good_new

/-- A chain whose clusters are in use stays intact, and keeps its clusters. -/
theorem intact (hi : fs.Intact first) :
  fs'.Intact first ∧
    ∀ i, fs.clusterAt first i ≠ 0 → fs'.clusterAt first i = fs.clusterAt first i
  := by
  constructor
  · apply intact_of_closed
      (P := fun c => (∃ i, c = fs.clusterAt first i ∧ c ≠ 0) ∨ c = new)
    · intro h₀
      left
      exact ⟨0, rfl, h₀⟩
    · rintro c (⟨i, rfl, hi₀⟩ | rfl) h₀
      · obtain heq | ⟨-, heq | heq⟩ := h.next_good (hi i hi₀)
        · left
          rw [heq] at h₀ ⊢
          exact ⟨i + 1, clusterAt_succ.symm, h₀⟩
        · right
          apply heq
        · apply absurd heq h₀
      · right
        apply h.next_new.resolve_right h₀
    · rintro c (⟨i, rfl, hi₀⟩ | rfl)
      · apply h.good (hi i hi₀)
      · apply h.good_new
  · apply clusterAt_eq_of_next
    intro i hi₀ hn₀
    apply (h.next_good (hi i hi₀)).resolve_right
    rintro ⟨h₀, -⟩
    apply hn₀ h₀

end Appended

/-- However the volume is changed, an intact chain stays intact and keeps its clusters. -/
theorem Grows.intact (h : fs.Grows fs') (hi : fs.Intact first) :
  fs'.Intact first ∧
    ∀ i, fs.clusterAt first i ≠ 0 → fs'.clusterAt first i = fs.clusterAt first i
  := by
  induction h with
  | refl =>
      refine ⟨hi, ?_⟩
      intro i _
      rfl
  | tail hgrows hstep ih =>
      obtain ⟨hi₁, hat₁⟩ := ih
      cases hstep with
      | marked hm =>
          obtain ⟨hi₂, hat₂⟩ := hm.intact hi₁
          refine ⟨hi₂, ?_⟩
          intro i h₀
          rw [hat₂, hat₁ i h₀]
      | appended new ha =>
          obtain ⟨hi₂, hat₂⟩ := ha.intact hi₁
          refine ⟨hi₂, ?_⟩
          intro i h₀
          rw [hat₂ i (by rw [hat₁ i h₀]; apply h₀), hat₁ i h₀]

end Exfat

end UOS
