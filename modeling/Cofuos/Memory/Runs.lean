import Cofuos.Memory.PageTable
import Cofuos.Lib.Linked

/-!
# Runs of free entries

A maximal run of free entries of a table is what a block of the free list stands for. The
block put at a maximal run is read back from every entry of the run, and what is read there
depends only on the entries of the run and on whether the run ends where it did.

In a debug build `BLOCK::get` asserts that the size stored in the third entry of a run is
that of a run of four entries. The results about reading a run therefore leave out the third
entry of a run of any other size in a debug build.
-/

namespace UOS

open Fault

/-! ### Entries without their tags -/

namespace PTE

/-- An entry without the bits that the free list uses. -/
def untagged (pt : PTE) : PTE := { pt with type := .OFF, valid := false, data := 0 }

@[simp]
theorem isFree_untagged (pt : PTE) : pt.untagged.isFree = pt.isFree := rfl

end PTE

/-- Two tables that differ at most in the bits that the free list uses. -/
def SameMap (table table' : Table) : Prop := ∀ i, (table' i).untagged = (table i).untagged

namespace SameMap

variable {table table' table'' : Table}

theorem refl (table : Table) : SameMap table table := fun _ => rfl

theorem trans (h : SameMap table table') (h' : SameMap table' table'') :
  SameMap table table''
  := by
  intro i
  rw [h' i, h i]

theorem isFree (h : SameMap table table') (i : ℕ) :
  (table' i).isFree = (table i).isFree
  := by
  rw [← PTE.isFree_untagged, h i, PTE.isFree_untagged]

end SameMap

/-! ### Runs -/

/-- The entries from `self` on, `size` of them. -/
structure Run where
  self : ℕ
  size : ℕ
  deriving DecidableEq, Repr

instance : Membership ℕ Run where
  mem r i := r.self ≤ i ∧ i < r.self + r.size

instance (r : Run) (i : ℕ) : Decidable (i ∈ r) :=
  inferInstanceAs (Decidable (r.self ≤ i ∧ i < r.self + r.size))

theorem Run.mem_iff {r : Run} {i : ℕ} :
  i ∈ r ↔ r.self ≤ i ∧ i < r.self + r.size
  := Iff.rfl

/-- A run of free entries that cannot be extended. -/
structure MaximalRun (table : Table) (r : Run) : Prop where
  pos : 0 < r.size
  le : r.self + r.size ≤ 0x200
  free : ∀ i ∈ r, (table i).isFree = true
  before : r.self ≠ 0 → (table (r.self - 1)).isFree = false
  after : r.self + r.size ≠ 0x200 → (table (r.self + r.size)).isFree = false

namespace MaximalRun

variable {table table' : Table} {r r' : Run} {i : ℕ}

theorem self_mem (h : MaximalRun table r) : r.self ∈ r := by
  have := h.pos
  rw [Run.mem_iff]
  omega

theorem self_lt (h : MaximalRun table r) : r.self < 0x200 := by
  have := h.pos
  have := h.le
  omega

/-- Of two maximal runs with a common entry, neither starts after the other. -/
theorem self_le (h : MaximalRun table r) (h' : MaximalRun table r') (hi : i ∈ r) (hi' : i ∈ r') :
  r.self ≤ r'.self
  := by
  rw [Run.mem_iff] at hi hi'
  by_contra hlt
  have hbefore := h.before (by omega)
  rw [h'.free _ (by rw [Run.mem_iff]; lia)] at hbefore
  cases hbefore

/-- Maximal runs with a common entry are equal. -/
theorem eq_of_mem (h : MaximalRun table r) (h' : MaximalRun table r') (hi : i ∈ r)
    (hi' : i ∈ r') :
  r = r'
  := by
  have hself : r.self = r'.self := le_antisymm (h.self_le h' hi hi') (h'.self_le h hi' hi)
  have hsize : ∀ {q q' : Run}, MaximalRun table q → MaximalRun table q' → q.self = q'.self →
      q.size ≤ q'.size := by
    intro q q' hq hq' heq
    by_contra hlt
    have hafter := hq'.after (by have := hq.le; lia)
    rw [hq.free _ (by rw [Run.mem_iff]; lia)] at hafter
    cases hafter
  have hle := hsize h h' hself
  have hge := hsize h' h hself.symm
  cases r
  cases r'
  simp only [Run.mk.injEq] at *
  lia

theorem eq_of_self (h : MaximalRun table r) (h' : MaximalRun table r') (hs : r.self = r'.self) :
  r = r'
  := by
  apply h.eq_of_mem h' h.self_mem
  rw [hs]
  apply h'.self_mem

/-- A maximal run stays maximal when its entries stay free and those next to it do not
become free. -/
theorem of_isFree (h : MaximalRun table r) (hrun : ∀ i ∈ r, (table' i).isFree = true)
    (hbefore : r.self ≠ 0 → (table' (r.self - 1)).isFree = false)
    (hafter : r.self + r.size ≠ 0x200 → (table' (r.self + r.size)).isFree = false) :
  MaximalRun table' r
  := ⟨h.pos, h.le, hrun, hbefore, hafter⟩

theorem sameMap (h : MaximalRun table r) (hs : SameMap table table') :
  MaximalRun table' r
  := by
  apply h.of_isFree
  · intro i hi
    rw [hs.isFree, h.free i hi]
  · intro hne
    rw [hs.isFree, h.before hne]
  · intro hne
    rw [hs.isFree, h.after hne]

/-- Every free entry lies in a maximal run. -/
theorem exists_of_free (hi : i < 0x200) (hfree : (table i).isFree = true) :
  ∃ r, MaximalRun table r ∧ i ∈ r
  := by
  -- the first and the last entry reachable from `i` through free entries
  obtain ⟨a, ⟨hai, ha⟩, hmin⟩ : ∃ a, (a ≤ i ∧ ∀ j, a ≤ j → j ≤ i → (table j).isFree = true) ∧
      ∀ b < a, ¬ (b ≤ i ∧ ∀ j, b ≤ j → j ≤ i → (table j).isFree = true) := by
    have hex : ∃ a, a ≤ i ∧ ∀ j, a ≤ j → j ≤ i → (table j).isFree = true := by
      use i, le_refl i
      intro j hj hj'
      rw [le_antisymm hj' hj]
      apply hfree
    classical
    exact ⟨Nat.find hex, Nat.find_spec hex, fun b hb => Nat.find_min hex hb⟩
  obtain ⟨n, ⟨hin, hn⟩, hmin'⟩ : ∃ n, (i < n ∧ (n = 0x200 ∨ (table n).isFree = false)) ∧
      ∀ m < n, ¬ (i < m ∧ (m = 0x200 ∨ (table m).isFree = false)) := by
    have hex : ∃ n, i < n ∧ (n = 0x200 ∨ (table n).isFree = false) := ⟨0x200, hi, .inl rfl⟩
    exact ⟨Nat.find hex, Nat.find_spec hex, fun b hb => Nat.find_min hex hb⟩
  have hn512 : n ≤ 0x200 := by
    by_contra hlt
    apply hmin' 0x200 (by omega) ⟨hi, .inl rfl⟩
  use ⟨a, n - a⟩
  constructor
  · constructor
    · simp only
      lia
    · simp only
      lia
    · intro j hj
      simp only [Run.mem_iff] at hj
      by_cases hji : j ≤ i
      · apply ha j hj.1 hji
      · by_contra hne
        apply hmin' j (by lia) ⟨by lia, .inr (by simpa using hne)⟩
    · intro hne
      simp only at hne ⊢
      by_contra hne'
      apply hmin (a - 1) (by lia)
      constructor
      · lia
      · intro j hj hji
        by_cases hja : a ≤ j
        · apply ha j hja hji
        · rw [show j = a - 1 by lia]
          simpa using hne'
    · intro hne
      simp only at hne ⊢
      rw [show a + (n - a) = n by lia] at hne ⊢
      apply hn.resolve_left hne
  · simp only [Run.mem_iff]
    lia

end MaximalRun

/-! ### Putting a block -/

namespace BLOCK

/-- The run a block stands for. -/
def run (block : BLOCK) : Run := ⟨block.self, block.size⟩

/-- The entry at distance `k` from the start of a block that has been put. -/
def tagEntry (block : BLOCK) (k : ℕ) (pt : PTE) : PTE :=
  match k with
  | 0 => { pt with type := .NEXT, data := block.next % 0x200, valid := block.nextValid }
  | 1 => { pt with type := .PREV, data := block.prev % 0x200, valid := block.prevValid }
  | 2 => { pt with type := .SIZE, data := (block.size - 1) % 0x200, valid := true }
  | k + 3 => { pt with type := .OFF, data := (k + 3) % 0x200, valid := true }

/-- The table after a block has been put. -/
def tagged (block : BLOCK) (table : Table) : Table := fun j =>
  if j ∈ block.run then block.tagEntry (j - block.self) (table j) else table j

variable {debug : Bool} {table : Table} {block : BLOCK}

@[simp]
theorem untagged_tagEntry (k : ℕ) (pt : PTE) :
  (block.tagEntry k pt).untagged = pt.untagged
  := by
  rcases k with _ | _ | _ | k <;> rfl

theorem tagged_sameMap (block : BLOCK) (table : Table) :
  SameMap table (block.tagged table)
  := by
  intro i
  rw [tagged]
  split_ifs
  · apply untagged_tagEntry
  · rfl

theorem tagged_of_not_mem {j : ℕ} (hj : j ∉ block.run) :
  block.tagged table j = table j
  := if_neg hj

/-- The entry at distance `k` from the start of a block that has been put. -/
theorem tagged_add (block : BLOCK) (table : Table) (k : ℕ) (hk : k < block.size) :
  block.tagged table (block.self + k) = block.tagEntry k (table (block.self + k))
  := by
  rw [tagged, if_pos, Nat.add_sub_cancel_left]
  simp only [run, Run.mem_iff]
  lia

/-- The loop of `put` over the entries from the fourth one on. -/
theorem put_loop (i n : ℕ)
    (hfree : ∀ k, 3 ≤ k → k < 3 + n → i + k ≠ 0x200 ∧ (table (i + k)).isFree = true) :
  (List.range' 3 n).foldlM (fun table k => do
      assert debug (i + k ≠ 0x200)
      assert debug ((table (i + k)).isFree = true)
      return setTag table (i + k) .OFF k true) table
    = .ok (fun j => if i + 3 ≤ j ∧ j < i + 3 + n then
        { table j with type := .OFF, data := (j - i) % 0x200, valid := true } else table j)
  := by
  induction n with
  | zero =>
      simp only [List.range'_zero, List.foldlM_nil]
      congr 1
      funext j
      rw [if_neg (by omega)]
  | succ n ih =>
      rw [List.range'_1_concat, List.foldlM_append, ih (fun k hk hk' => hfree k hk (by omega))]
      obtain ⟨hne, hk⟩ := hfree (3 + n) (by omega) (by omega)
      simp only [Except.ok_bind, List.foldlM_cons, List.foldlM_nil]
      rw [assert_eq_ok (fun _ => hne), assert_eq_ok]
      · simp only [Except.ok_bind, pure, Except.pure, setTag]
        congr 1
        funext j
        by_cases hj : j = i + (3 + n)
        · subst hj
          rw [Function.update_self, if_neg (by lia), if_pos (by lia)]
          simp
        · rw [Function.update_of_ne hj]
          by_cases hj' : i + 3 ≤ j ∧ j < i + 3 + n
          · rw [if_pos hj', if_pos (by lia)]
          · rw [if_neg hj', if_neg (by lia)]
      · intro _
        rw [if_neg (by omega)]
        apply hk

/-- The loop of `put` completes the tags of a block of at least three entries. -/
theorem put_loop_eq (h : MaximalRun table block.run) (h3 : 3 ≤ block.size) :
  (List.range' 3 (block.size - 3)).foldlM (fun table k => do
      assert debug (block.self + k ≠ 0x200)
      assert debug ((table (block.self + k)).isFree = true)
      return setTag table (block.self + k) .OFF k true)
      (setTag (setTag (setTag table block.self .NEXT block.next block.nextValid)
        (block.self + 1) .PREV block.prev block.prevValid)
        (block.self + 2) .SIZE (block.size - 1) true)
    = .ok (block.tagged table)
  := by
  rw [put_loop]
  · congr 1
    funext j
    by_cases hj : j ∈ block.run
    · simp only [run, Run.mem_iff] at hj
      obtain ⟨k, rfl⟩ := Nat.exists_eq_add_of_le hj.1
      rw [tagged_add _ _ _ (by omega)]
      rcases k with _ | _ | _ | k
      · rw [if_neg (by omega)]
        simp [setTag, tagEntry]
      · rw [if_neg (by omega)]
        simp [setTag, tagEntry]
      · rw [if_neg (by omega)]
        simp [setTag, tagEntry]
      · rw [if_pos (by lia)]
        simp [setTag, tagEntry]
    · rw [tagged_of_not_mem hj]
      simp only [run, Run.mem_iff] at hj
      rw [if_neg (by lia), setTag, Function.update_of_ne (by lia), setTag,
        Function.update_of_ne (by lia), setTag, Function.update_of_ne (by lia)]
  · intro k hk3 hk
    constructor
    · have := h.le
      simp only [run] at this
      lia
    · rw [setTag, Function.update_of_ne (by lia), setTag, Function.update_of_ne (by lia),
        setTag, Function.update_of_ne (by omega)]
      apply h.free
      simp only [run, Run.mem_iff]
      lia

/-- Putting a block at a maximal run passes every assertion and tags the entries of the
run. -/
theorem put_eq (debug : Bool) (h : MaximalRun table block.run) :
  block.put debug table block.self = .ok (block.tagged table)
  := by
  have hpos := h.pos
  have hle := h.le
  simp only [run] at hpos hle
  have hk : ∀ k, k < block.size → (table (block.self + k)).isFree = true := by
    intro k hk
    apply h.free
    simp only [run, Run.mem_iff]
    omega
  have h0 := hk 0 hpos
  rw [Nat.add_zero] at h0
  unfold put
  rw [assert_eq_ok (fun _ => rfl), assert_eq_ok (fun _ => by omega), assert_eq_ok (fun _ => h0)]
  simp only [Except.ok_bind]
  by_cases h1 : block.size = 1
  · rw [if_pos h1]
    simp only [pure, Except.pure, setTag]
    congr 1
    funext j
    by_cases hj : j = block.self
    · subst hj
      have := tagged_add block table 0 hpos
      rw [Nat.add_zero] at this
      rw [Function.update_self, this, tagEntry]
    · rw [Function.update_of_ne hj, tagged_of_not_mem]
      simp only [run, Run.mem_iff]
      lia
  rw [if_neg h1, assert_eq_ok (fun _ => by lia), assert_eq_ok]
  swap
  · intro _
    rw [setTag, Function.update_of_ne (by omega)]
    apply hk 1 (by omega)
  simp only [Except.ok_bind]
  by_cases h2 : block.size = 2
  · rw [if_pos h2]
    simp only [pure, Except.pure, setTag]
    congr 1
    funext j
    by_cases hj1 : j = block.self + 1
    · subst hj1
      rw [Function.update_self, tagged_add _ _ _ (by omega), tagEntry, Function.update_of_ne (by omega)]
    rw [Function.update_of_ne hj1]
    by_cases hj : j = block.self
    · subst hj
      have := tagged_add block table 0 hpos
      rw [Nat.add_zero] at this
      rw [Function.update_self, this, tagEntry]
    · rw [Function.update_of_ne hj, tagged_of_not_mem]
      simp only [run, Run.mem_iff]
      lia
  rw [if_neg h2, assert_eq_ok (fun _ => by lia), assert_eq_ok]
  swap
  · intro _
    rw [setTag, Function.update_of_ne (by lia), setTag, Function.update_of_ne (by lia)]
    apply hk 2 (by lia)
  simp only [Except.ok_bind]
  rw [put_loop_eq h (by lia), Except.ok_bind, assert_eq_ok]
  · rfl
  · intro _
    by_cases hend : block.self + block.size = 0x200
    · apply Or.inl hend
    · right
      rw [(tagged_sameMap block table).isFree]
      apply h.after hend

end BLOCK

/-! ### Reading a block -/

/-- A block that says what there is to say about the run `r` between the runs `p` and `n`.
A run of one entry has no room for the link to the previous run. -/
structure Recovered (p : Option Run) (r : Run) (n : Option Run) (block : BLOCK) : Prop where
  self_eq : block.self = r.self
  size_eq : block.size = r.size
  next_valid : block.nextValid = n.isSome
  next_eq : ∀ r' ∈ n, block.next = r'.self
  prev_valid : r.size ≠ 1 → block.prevValid = p.isSome
  prev_eq : r.size ≠ 1 → ∀ r' ∈ p, block.prev = r'.self
  prev_single : r.size = 1 → block.prevValid = false

/-- `BLOCK::get` on any entry of the run `r` recovers the run and its links. In a debug
build this leaves out the third entry of a run whose size is not four. -/
def Records (debug : Bool) (table : Table) (p : Option Run) (r : Run) (n : Option Run) : Prop :=
  ∀ i ∈ r, (debug = true → i = r.self + 2 → r.size = 4) → ∀ block,
    ∃ block', BLOCK.get debug table i block = .ok block' ∧ Recovered p r n block'

namespace BLOCK

variable {debug : Bool} {table table' : Table} {block : BLOCK} {r : Run}

/-- What `read` finds at the first entry of a maximal run. -/
theorem read_tagged (h : MaximalRun table block.run) (b : BLOCK) :
  read debug (block.tagged table) block.self b
    = .ok { block with
        next := block.next % 0x200
        prev := if block.size = 1 then b.prev else block.prev % 0x200
        prevValid := if block.size = 1 then false else block.prevValid }
  := by
  have hpos := h.pos
  have hle := h.le
  simp only [run] at hpos hle
  have hs := tagged_sameMap block table
  have hfree : ∀ k, k < block.size → (block.tagged table (block.self + k)).isFree = true := by
    intro k hk
    rw [hs.isFree]
    apply h.free
    simp only [run, Run.mem_iff]
    omega
  have hend : block.self + block.size = 0x200 ∨
      (block.tagged table (block.self + block.size)).isFree = false := by
    by_cases hend : block.self + block.size = 0x200
    · apply Or.inl hend
    · right
      rw [hs.isFree]
      apply h.after hend
  have h0 := tagged_add block table 0 hpos
  have hf0 := hfree 0 hpos
  rw [Nat.add_zero] at h0 hf0
  simp only [read]
  rw [assert_eq_ok (fun _ => hf0), assert_eq_ok (fun _ => by rw [h0]; rfl)]
  simp only [Except.ok_bind]
  by_cases h1 : block.size = 1
  · rw [h1] at hend
    rw [if_pos hend]
    simp only [pure, Except.pure, h0, tagEntry, h1, if_true]
  have ht1 := tagged_add block table 1 (by omega)
  rw [if_neg (by rw [hfree 1 (by lia)]; simp; lia), assert_eq_ok (fun _ => by rw [ht1]; rfl)]
  simp only [Except.ok_bind]
  by_cases h2 : block.size = 2
  · rw [h2] at hend
    rw [if_pos hend]
    simp only [pure, Except.pure, h0, ht1, tagEntry, h2, show ¬ 2 = 1 by omega, if_false]
  have ht2 := tagged_add block table 2 (by omega)
  have hsize : (block.tagged table (block.self + 2)).data + 1 = block.size := by
    rw [ht2]
    simp only [tagEntry]
    lia
  rw [if_neg (by rw [hfree 2 (by lia)]; simp; lia),
    assert_eq_ok (fun _ => by rw [ht2]; exact ⟨rfl, rfl⟩), assert_eq_ok (fun _ => by lia)]
  simp only [Except.ok_bind]
  have hloop : (List.range' 3 ((block.tagged table (block.self + 2)).data + 1 - 3)).forM (fun i => do
      assert debug (block.self + i ≠ 0x200)
      assert debug ((block.tagged table (block.self + i)).isFree = true)
      assert debug ((block.tagged table (block.self + i)).type = PTE.Tag.OFF)
      assert debug ((block.tagged table (block.self + i)).valid = true ∧
        (block.tagged table (block.self + i)).data = i)) = .ok () := by
    rw [hsize]
    apply Except.forM_eq_ok
    intro i hi
    obtain ⟨k, rfl⟩ : ∃ k, i = k + 3 := ⟨i - 3, by
      rw [List.mem_range'_1] at hi
      lia⟩
    have hlt : k + 3 < block.size := by
      rw [List.mem_range'_1] at hi
      lia
    have ht := tagged_add block table (k + 3) hlt
    rw [assert_eq_ok (fun _ => by lia), assert_eq_ok (fun _ => hfree _ hlt),
      assert_eq_ok (fun _ => by rw [ht]; rfl), assert_eq_ok]
    · rfl
    · intro _
      rw [ht]
      simp only [tagEntry, true_and]
      lia
  rw [hloop]
  simp only [Except.ok_bind, pure, Except.pure, hsize, h1, if_false]
  rw [h0, ht1]
  rfl

/-- The first entry of a run, found from any other one. -/
theorem first_tagged (h : MaximalRun table block.run) {i : ℕ} (hi : i ∈ block.run)
    (h2 : debug = true → i = block.self + 2 → block.size = 4) :
  first debug (block.tagged table) i = .ok block.self
  := by
  have hfree : (block.tagged table i).isFree = true := by
    rw [(tagged_sameMap block table).isFree]
    apply h.free i hi
  have hle := h.le
  simp only [run, Run.mem_iff] at hi hle
  obtain ⟨k, rfl⟩ := Nat.exists_eq_add_of_le hi.1
  have ht := tagged_add block table k (by omega)
  simp only [first]
  rw [assert_eq_ok (fun _ => hfree)]
  simp only [Except.ok_bind]
  obtain rfl | rfl | rfl | ⟨k, rfl⟩ : k = 0 ∨ k = 1 ∨ k = 2 ∨ ∃ j, k = j + 3 := by
    rcases k with _ | _ | _ | k
    · simp
    · simp
    · simp
    · simp
  · have htype : (block.tagged table (block.self + 0)).type = .NEXT := by rw [ht]; rfl
    simp only [htype]
    rfl
  · have htype : (block.tagged table (block.self + 1)).type = .PREV := by rw [ht]; rfl
    simp only [htype]
    rw [assert_eq_ok (fun _ => by omega)]
    rfl
  · have htype : (block.tagged table (block.self + 2)).type = .SIZE := by rw [ht]; rfl
    simp only [htype]
    rw [assert_eq_ok (fun _ => by rw [ht]; rfl), assert_eq_ok]
    · rfl
    · intro hd
      have hsize := h2 hd rfl
      rw [ht]
      simp only [tagEntry]
      lia
  · have htype : (block.tagged table (block.self + (k + 3))).type = .OFF := by rw [ht]; rfl
    have hdata : (block.tagged table (block.self + (k + 3))).data = k + 3 := by
      rw [ht]
      simp only [tagEntry]
      lia
    simp only [htype]
    rw [assert_eq_ok (fun _ => by rw [ht]; rfl), assert_eq_ok (fun _ => by lia)]
    simp only [Except.ok_bind, pure, Except.pure, hdata, Nat.add_sub_cancel]

/-- The entries of a run at which a block has been put record the run between the runs the
links of the block lead to. -/
theorem records_tagged (debug : Bool) (h : MaximalRun table block.run) (p n : Option Run)
    (hnv : block.nextValid = n.isSome) (hn : ∀ x ∈ n, block.next = x.self ∧ x.self < 0x200)
    (hpv : block.size ≠ 1 → block.prevValid = p.isSome)
    (hp : block.size ≠ 1 → ∀ x ∈ p, block.prev = x.self ∧ x.self < 0x200) :
  Records debug (block.tagged table) p block.run n
  := by
  intro i hi h2 b
  use { block with
    next := block.next % 0x200
    prev := if block.size = 1 then b.prev else block.prev % 0x200
    prevValid := if block.size = 1 then false else block.prevValid }
  constructor
  · rw [get, first_tagged h hi h2, Except.ok_bind, read_tagged h]
  · constructor
    · rfl
    · rfl
    · apply hnv
    · intro x hx
      obtain ⟨heq, hlt⟩ := hn x hx
      simp only [heq, Nat.mod_eq_of_lt hlt]
    · intro h1
      have h1' : block.size ≠ 1 := h1
      simp only [h1', if_false]
      apply hpv h1'
    · intro h1 x hx
      have h1' : block.size ≠ 1 := h1
      obtain ⟨heq, hlt⟩ := hp h1' x hx
      simp only [h1', if_false, heq, Nat.mod_eq_of_lt hlt]
    · intro h1
      have h1' : block.size = 1 := h1
      simp only [h1', if_true]

/-- `read` returns a block that starts where it was told to. -/
theorem read_self {s : ℕ} {b b' : BLOCK} (h : read debug table s b = .ok b') :
  b'.self = s
  := by
  simp only [read, Except.bind_eq_ok_iff] at h
  obtain ⟨-, -, -, -, h⟩ := h
  split_ifs at h
  · cases h
    rfl
  · simp only [Except.bind_eq_ok_iff] at h
    obtain ⟨-, -, h⟩ := h
    cases h
    rfl
  · simp only [Except.bind_eq_ok_iff] at h
    obtain ⟨-, -, -, -, -, -, -, -, h⟩ := h
    cases h
    rfl

/-- `read` takes the size of a run of at least three entries from its third entry. -/
theorem read_size {s : ℕ} {b b' : BLOCK} (h : read debug table s b = .ok b')
    (h1 : ¬ (s + 1 = 0x200 ∨ (table (s + 1)).isFree = false))
    (h2 : ¬ (s + 2 = 0x200 ∨ (table (s + 2)).isFree = false)) :
  b'.size = (table (s + 2)).data + 1
  := by
  simp only [read, Except.bind_eq_ok_iff] at h
  obtain ⟨-, -, -, -, h⟩ := h
  rw [if_neg h1] at h
  obtain ⟨-, -, h⟩ := Except.bind_eq_ok_iff.mp h
  rw [if_neg h2] at h
  simp only [Except.bind_eq_ok_iff] at h
  obtain ⟨-, -, -, -, -, -, h⟩ := h
  cases h
  rfl

/-- What `read` finds at a maximal run depends only on the entries of the run, and on the
run ending where it does. -/
theorem read_congr (hr : MaximalRun table r) (hrun : ∀ i ∈ r, table' i = table i)
    (hend : r.self + r.size ≠ 0x200 → (table' (r.self + r.size)).isFree = false)
    {b b' : BLOCK} (h : read debug table r.self b = .ok b') (hsize : b'.size = r.size) :
  read debug table' r.self b = .ok b'
  := by
  have hpos := hr.pos
  have hle := hr.le
  have hk : ∀ k, k < r.size → table' (r.self + k) = table (r.self + k) := by
    intro k hk
    apply hrun
    rw [Run.mem_iff]
    lia
  have hfree : ∀ k, k < r.size → (table (r.self + k)).isFree = true := by
    intro k hk
    apply hr.free
    rw [Run.mem_iff]
    omega
  have hafter : r.self + r.size = 0x200 ∨ (table (r.self + r.size)).isFree = false := by
    by_cases hend : r.self + r.size = 0x200
    · apply Or.inl hend
    · apply Or.inr (hr.after hend)
  have hafter' : r.self + r.size = 0x200 ∨ (table' (r.self + r.size)).isFree = false := by
    by_cases hend' : r.self + r.size = 0x200
    · apply Or.inl hend'
    · apply Or.inr (hend hend')
  have h0 := hk 0 hpos
  rw [Nat.add_zero] at h0
  rw [← h]
  have hread := h
  simp only [read, h0]
  by_cases h1 : r.size = 1
  · rw [h1] at hafter hafter'
    rw [if_pos hafter, if_pos hafter']
  have hf1 : ¬ (r.self + 1 = 0x200 ∨ (table (r.self + 1)).isFree = false) := by
    rw [hfree 1 (by omega)]
    simp
    lia
  rw [hk 1 (by lia), if_neg hf1, if_neg hf1]
  by_cases h2 : r.size = 2
  · rw [h2] at hafter hafter'
    rw [if_pos hafter, if_pos hafter']
  have hf2 : ¬ (r.self + 2 = 0x200 ∨ (table (r.self + 2)).isFree = false) := by
    rw [hfree 2 (by lia)]
    simp
    lia
  have hdata := read_size hread hf1 hf2
  rw [hk 2 (by lia), if_neg hf2, if_neg hf2]
  have hloop : (List.range' 3 ((table (r.self + 2)).data + 1 - 3)).forM (fun i => do
        assert debug (r.self + i ≠ 0x200)
        assert debug ((table' (r.self + i)).isFree = true)
        assert debug ((table' (r.self + i)).type = PTE.Tag.OFF)
        assert debug ((table' (r.self + i)).valid = true ∧ (table' (r.self + i)).data = i))
      = (List.range' 3 ((table (r.self + 2)).data + 1 - 3)).forM (fun i => do
        assert debug (r.self + i ≠ 0x200)
        assert debug ((table (r.self + i)).isFree = true)
        assert debug ((table (r.self + i)).type = PTE.Tag.OFF)
        assert debug ((table (r.self + i)).valid = true ∧ (table (r.self + i)).data = i)) := by
    apply Except.forM_congr
    intro i hi
    rw [List.mem_range'_1] at hi
    rw [hk i (by lia)]
  rw [hloop]

end BLOCK

namespace Records

variable {debug : Bool} {table table' : Table} {p p' n : Option Run} {r : Run}

/-- A run keeps what it records when its entries keep their values and it ends where it
did. -/
theorem congr (h : Records debug table p r n) (hr : MaximalRun table r)
    (hrun : ∀ i ∈ r, table' i = table i)
    (hend : r.self + r.size ≠ 0x200 → (table' (r.self + r.size)).isFree = false) :
  Records debug table' p r n
  := by
  intro i hi h2 b
  obtain ⟨b', hget, hrec⟩ := h i hi h2 b
  obtain ⟨s, hfirst, hread⟩ := Except.bind_eq_ok_iff.mp hget
  obtain rfl : s = r.self := by rw [← hrec.self_eq, BLOCK.read_self hread]
  use b'
  constructor
  · have hfirst' : BLOCK.first debug table' i = .ok r.self := by
      rw [← hfirst]
      simp only [BLOCK.first, hrun i hi]
    rw [BLOCK.get, hfirst', Except.ok_bind, BLOCK.read_congr hr hrun hend hread hrec.size_eq]
  · apply hrec

/-- A run of one entry does not record the run before it. -/
theorem single (h : Records debug table p r n) (h1 : r.size = 1) :
  Records debug table p' r n
  := by
  intro i hi h2 b
  obtain ⟨b', hget, hrec⟩ := h i hi h2 b
  use b', hget
  constructor
  · apply hrec.self_eq
  · apply hrec.size_eq
  · apply hrec.next_valid
  · apply hrec.next_eq
  · intro hne
    apply absurd h1 hne
  · intro hne
    apply absurd h1 hne
  · apply hrec.prev_single

/-- Reading the first entry of a run recovers the run. -/
theorem get_self (h : Records debug table p r n) (hr : MaximalRun table r) (block : BLOCK) :
  ∃ block', BLOCK.get debug table r.self block = .ok block' ∧ Recovered p r n block'
  := by
  apply h r.self hr.self_mem
  intro _ hne
  omega

end Records

end UOS
