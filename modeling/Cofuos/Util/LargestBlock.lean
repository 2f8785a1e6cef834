import Cofuos.Util.BuddyGrowth

/-!
# The largest free block of a heap

`max_size` of `util/include/buddy_heap.hpp` looks for the last list that is not empty. The list of the
blocks of `2 ^ sh` bytes is `pool[sh - bot]`, but `max_size` looks at `pool[sh]`, for every `sh` from
`bot` to `top - 1`. As there are `top - bot` lists and `bot` is not zero, the last of these is always
behind the array, where the size of the heap and its callback are.

So `max_size` never looks at the right lists only. What it returns is right if the last of the words
that it takes for a list, and is not null, has by chance the number of the last list with a block.
-/

namespace UOS

open Fault

namespace BuddyHeap

variable {bot top : ℕ}

/-! ### What is looked at -/

/-- `pool[i]` is not null. Behind the lists there are words of which `past` tells the same. -/
def pointed (h : BuddyHeap bot top) (past : ℕ → Bool) (i : ℕ) : Bool :=
  if i < top - bot then h.pool (bot + i) ≠ [] else past (i - (top - bot))

/-- The loop of `max_size`, over so many indices from one on. Returns the result and the indices that
it looks at. -/
def maxSizeLoop (pool : ℕ → Bool) : ℕ → ℕ → ℕ → ℕ × List ℕ
  | 0, _, res => (res, [])
  | n + 1, i, res =>
      let r := maxSizeLoop pool n (i + 1) (if pool i = true then i else res)
      (r.1, i :: r.2)

/-- `max_size`, with the indices of the lists that it looks at. -/
def maxSize (h : BuddyHeap bot top) (past : ℕ → Bool) : ℕ × List ℕ :=
  let r := maxSizeLoop (h.pointed past) (top - bot) bot top
  (if r.1 = top then 0 else 2 ^ r.1, r.2)

/-- A request is served without a callback, so that the heap does not grow. -/
def Serves (debug : Bool) (h : BuddyHeap bot top) (req : ℕ) : Prop :=
  ∃ p h', allocate debug none 1 0 h req = .ok (some p, h', [])

/-- The largest power of two that is served, or 0 if there is none. -/
def IsLargest (debug : Bool) (h : BuddyHeap bot top) (s : ℕ) : Prop :=
  (s = 0 ∧ ∀ k, ¬ h.Serves debug (2 ^ k)) ∨
  ∃ k, s = 2 ^ k ∧ h.Serves debug (2 ^ k) ∧ ∀ j, h.Serves debug (2 ^ j) → j ≤ k

/-- `max_size` looks at lists that are there, and returns the size of the largest free block. -/
structure Reports (debug : Bool) (h : BuddyHeap bot top) (past : ℕ → Bool) : Prop where
  existing : ∀ i ∈ (h.maxSize past).2, i < top - bot
  largest : h.IsLargest debug (h.maxSize past).1

/-- The last of the numbers from `bot` to `top - 1` that meet a condition. -/
def Topmost (bot top : ℕ) (P : ℕ → Prop) (i : ℕ) : Prop :=
  bot ≤ i ∧ i < top ∧ P i ∧ ∀ k, i < k → k < top → ¬ P k

variable {debug : Bool} {h h' : BuddyHeap bot top} {past : ℕ → Bool} {sh n i k s res : ℕ}
  {pool : ℕ → Bool}

/-- The loop looks at every index. -/
theorem maxSizeLoop_indices (pool : ℕ → Bool) (n i res : ℕ) :
  (maxSizeLoop pool n i res).2 = List.range' i n
  := by
  induction n generalizing i res with
  | zero => rfl
  | succ n ih =>
      rw [maxSizeLoop, List.range'_succ]
      dsimp only
      rw [ih]

/-- The loop finds the last index that is not null, if there is one. -/
theorem maxSizeLoop_result (pool : ℕ → Bool) (n i res : ℕ) :
  Topmost i (i + n) (fun j => pool j = true) (maxSizeLoop pool n i res).1 ∨
  (maxSizeLoop pool n i res).1 = res ∧ ∀ j, i ≤ j → j < i + n → ¬ pool j = true
  := by
  induction n generalizing i res with
  | zero =>
      right
      use rfl
      intro j hle hlt
      omega
  | succ n ih =>
      rw [maxSizeLoop]
      dsimp only
      have hend : i + 1 + n = i + (n + 1) := by
        omega
      rcases ih (i + 1) (if pool i = true then i else res) with ⟨hle, hlt, hpool, hlast⟩ | ⟨heq, hnone⟩
      · left
        rw [hend] at hlt hlast
        exact ⟨by omega, hlt, hpool, hlast⟩
      · rw [heq]
        rw [hend] at hnone
        split_ifs with hi
        · left
          refine ⟨le_rfl, by omega, hi, ?_⟩
          intro k hk
          apply hnone k hk
        · right
          use rfl
          intro j hle hlt
          rcases hle.eq_or_lt with rfl | hgt
          · apply hi
          · apply hnone j hgt hlt

/-- There is at most one last number. -/
theorem Topmost.unique {P : ℕ → Prop} (hi : Topmost bot top P i) (hk : Topmost bot top P k) :
  i = k
  := by
  rcases lt_trichotomy i k with hlt | heq | hgt
  · exact absurd hk.2.2.1 (hi.2.2.2 k hlt hk.2.1)
  · apply heq
  · exact absurd hi.2.2.1 (hk.2.2.2 i hgt hi.2.1)

/-- There is a last number, or none of them meets the condition. -/
theorem exists_topmost (bot top : ℕ) (P : ℕ → Prop) :
  (∃ i, Topmost bot top P i) ∨ ∀ i, bot ≤ i → i < top → ¬ P i
  := by
  classical
  rcases le_total bot top with hle | hge
  · have hend : bot + (top - bot) = top := Nat.add_sub_cancel' hle
    rcases maxSizeLoop_result (fun i => decide (P i)) (top - bot) bot top with hlast | ⟨-, hnone⟩
    · left
      rw [hend] at hlast
      simp only [decide_eq_true_eq] at hlast
      exact ⟨_, hlast⟩
    · right
      rw [hend] at hnone
      intro i hi hlt hP
      exact hnone i hi hlt (decide_eq_true hP)
  · right
    intro i hi hlt
    omega

/-- What `max_size` returns. -/
theorem maxSize_eq (hbot : bot < top) (h : BuddyHeap bot top) (past : ℕ → Bool) :
  (∃ i, Topmost bot top (fun j => h.pointed past j = true) i ∧ (h.maxSize past).1 = 2 ^ i) ∨
  (∀ i, bot ≤ i → i < top → ¬ h.pointed past i = true) ∧ (h.maxSize past).1 = 0
  := by
  have hend : bot + (top - bot) = top := Nat.add_sub_cancel' hbot.le
  have hres := maxSizeLoop_result (h.pointed past) (top - bot) bot top
  rw [hend] at hres
  rw [maxSize]
  dsimp only
  rcases hres with hlast | ⟨heq, hnone⟩
  · left
    refine ⟨_, hlast, ?_⟩
    rw [if_neg hlast.2.1.ne]
  · right
    use hnone
    rw [if_pos heq]

/-- The last index that is looked at is behind the lists. -/
theorem not_existing (hmin : 4 ≤ bot) (hbot : bot < top) (h : BuddyHeap bot top)
    (past : ℕ → Bool) :
  ¬ ∀ i ∈ (h.maxSize past).2, i < top - bot
  := by
  intro hall
  have hmem : top - 1 ∈ (h.maxSize past).2 := by
    rw [maxSize]
    dsimp only
    rw [maxSizeLoop_indices, List.mem_range'_1]
    lia
  have hlt := hall (top - 1) hmem
  lia

/-! ### What is served -/

/-- The block for a request that is a power of two. -/
theorem category_two_pow (debug : Bool) (hbot : bot < top) (hk : k < top) :
  category debug bot top (2 ^ k) = .ok (max k bot)
  := by
  have hle : 2 ^ k ≤ 2 ^ (top - 1) := Nat.pow_le_pow_right (by decide) (by lia)
  obtain ⟨sh, hcat, hge, -, hsize, hleast⟩ := category_eq debug hbot (Nat.two_pow_pos k).ne' hle
  rw [hcat]
  congr 1
  have hksh : k ≤ sh := (Nat.pow_le_pow_iff_right (by decide)).1 hsize
  rcases hge.eq_or_lt with rfl | hgt
  · exact (max_eq_right hksh).symm
  · have hpred : sh - 1 < k := (Nat.pow_lt_pow_iff_right (by decide)).1 (hleast hgt)
    lia

/-- No block is found where there are none. -/
theorem get_eq_none (debug : Bool) (hn : sh + n = top)
    (hempty : ∀ i, sh ≤ i → i < top → h.pool i = []) :
  BuddyHeap.get debug n h sh = .ok (none, h)
  := by
  induction n generalizing sh with
  | zero => rfl
  | succ n ih =>
      rw [BuddyHeap.get, hempty sh le_rfl (by omega)]
      dsimp only
      rw [ih (by omega) fun i hi => hempty i (by omega)]
      rfl

/-- A power of two is served exactly if there is a free block of its size or a larger size. -/
theorem Aligned.serves_two_pow_iff (ha : h.Aligned) (debug : Bool) (hbot : bot < top) (k : ℕ) :
  h.Serves debug (2 ^ k) ↔ ∃ sh, k ≤ sh ∧ bot ≤ sh ∧ sh < top ∧ h.pool sh ≠ []
  := by
  rw [Serves, BuddyHeap.allocate]
  by_cases hk : k < top
  · have hsh : max k bot < top := max_lt hk hbot
    rw [category_two_pow debug hbot hk, Except.ok_bind, if_neg (Nat.not_le.2 hsh)]
    obtain ⟨r, h₁, hget, -, -, hnone⟩ := ha.get debug (Nat.add_sub_cancel' hsh.le)
    constructor
    · rintro ⟨p, h', heq⟩
      by_contra hfree
      rw [get_eq_none debug (Nat.add_sub_cancel' hsh.le), Except.ok_bind] at heq
      · cases heq
      · intro i hi hlt
        by_contra hne
        exact hfree ⟨i, by lia, by lia, hlt, hne⟩
    · rintro ⟨sh, hksh, hge, hlt, hpool⟩
      rw [hget, Except.ok_bind]
      cases r with
      | none => exact absurd (hnone rfl sh (max_le hksh hge) hlt) hpool
      | some p => exact ⟨p, h₁, rfl⟩
  · have hlarge : 2 ^ (top - 1) < 2 ^ k := Nat.pow_lt_pow_right (by decide) (by lia)
    rw [category_of_lt hlarge, Except.ok_bind, if_pos le_rfl]
    constructor
    · rintro ⟨p, h', heq⟩
      cases heq
    · rintro ⟨sh, hksh, -, hlt, -⟩
      lia

/-- The largest power of two that is served is the size of the blocks in the last list that is not
empty. -/
theorem Aligned.isLargest_iff (ha : h.Aligned) (debug : Bool) (hbot : bot < top) (s : ℕ) :
  h.IsLargest debug s ↔ (∃ i, Topmost bot top (fun i => h.pool i ≠ []) i ∧ s = 2 ^ i) ∨
    (∀ i, bot ≤ i → i < top → ¬ h.pool i ≠ []) ∧ s = 0
  := by
  have hserves := ha.serves_two_pow_iff debug hbot
  constructor
  · rintro (⟨rfl, hnone⟩ | ⟨k, rfl, hk, hmax⟩)
    · right
      refine ⟨?_, rfl⟩
      intro i hi hlt hpool
      exact hnone i ((hserves i).2 ⟨i, le_rfl, hi, hlt, hpool⟩)
    · left
      obtain ⟨sh, hksh, hge, hlt, hpool⟩ := (hserves k).1 hk
      -- the block that serves the request is as large as what is served
      have hsh : sh ≤ k := hmax sh ((hserves sh).2 ⟨sh, le_rfl, hge, hlt, hpool⟩)
      obtain rfl : sh = k := le_antisymm hsh hksh
      refine ⟨sh, ⟨hge, hlt, hpool, ?_⟩, rfl⟩
      intro j hgt hj hne
      have hle := hmax j ((hserves j).2 ⟨j, le_rfl, by omega, hj, hne⟩)
      omega
  · rintro (⟨i, ⟨hge, hlt, hpool, hlast⟩, rfl⟩ | ⟨hnone, rfl⟩)
    · right
      refine ⟨i, rfl, (hserves i).2 ⟨i, le_rfl, hge, hlt, hpool⟩, ?_⟩
      intro j hj
      obtain ⟨sh, hjsh, -, hsh, hne⟩ := (hserves j).1 hj
      by_contra hgt
      exact hlast sh (by omega) hsh hne
    · left
      refine ⟨rfl, ?_⟩
      intro k hk
      obtain ⟨sh, -, hge, hlt, hne⟩ := (hserves k).1 hk
      exact hnone sh hge hlt hne

/-- The result is right exactly if the last word that is not null has the number of the last list that
is not empty. -/
theorem Aligned.largest_iff (ha : h.Aligned) (debug : Bool) (hbot : bot < top)
    (past : ℕ → Bool) :
  h.IsLargest debug (h.maxSize past).1 ↔
    ∀ i, Topmost bot top (fun j => h.pointed past j = true) i ↔
      Topmost bot top (fun j => h.pool j ≠ []) i
  := by
  rw [ha.isLargest_iff debug hbot]
  rcases maxSize_eq hbot h past with ⟨i, hi, heq⟩ | ⟨hnone, heq⟩
  · rw [heq]
    constructor
    · rintro (⟨k, hk, hpow⟩ | ⟨-, hzero⟩)
      · obtain rfl : i = k := Nat.pow_right_injective le_rfl hpow
        intro j
        constructor
        · intro hj
          rwa [hj.unique hi]
        · intro hj
          rwa [hj.unique hk]
      · exact absurd hzero (Nat.two_pow_pos i).ne'
    · intro hall
      left
      exact ⟨i, (hall i).1 hi, rfl⟩
  · rw [heq]
    constructor
    · rintro (⟨k, -, hpow⟩ | ⟨hempty, -⟩)
      · exact absurd hpow.symm (Nat.two_pow_pos k).ne'
      · intro i
        constructor
        · intro hi
          exact absurd hi.2.2.1 (hnone i hi.1 hi.2.1)
        · intro hi
          exact absurd hi.2.2.1 (hempty i hi.1 hi.2.1)
    · intro hall
      rcases exists_topmost bot top fun j => h.pool j ≠ [] with ⟨i, hi⟩ | hempty
      · have hpointed := (hall i).2 hi
        exact absurd hpointed.2.2.1 (hnone i hpointed.1 hpointed.2.1)
      · exact .inr ⟨hempty, rfl⟩

/-! ### Runs -/

/-- A use of a heap. There may be any callback, or none. -/
inductive Use where
  /-- A request, of which so many calls of itself are carried out. -/
  | allocate (callback : Option Expander) (rounds i req : ℕ)
  /-- A block is given back, if it is not null. -/
  | release (ptr : Option ℕ) (sz : ℕ)
  /-- A region is added from outside. -/
  | expand (ptr : Option ℕ) (len : ℕ)

/-- A heap and its uses. A use that stops the machine is not possible. -/
def uses (debug : Bool) (bot top : ℕ) : Machine (BuddyHeap bot top) Use where
  Start h := h = {}
  step h
    | .allocate callback rounds i req =>
        (allocate debug callback rounds i h req).toOption.map fun r => r.2.1
    | .release none _ => some h
    | .release (some ptr) sz => (release debug h ptr sz).toOption.map Prod.snd
    | .expand ptr len => (expand debug h ptr len).toOption.map Prod.snd

/-- A region that is not null lies in the address space. -/
def Region (ptr : Option ℕ) (len : ℕ) : Prop := ∀ base ∈ ptr, base ≠ 0 ∧ base + len ≤ 2 ^ 64

/-- Pointers that are not null have another address than 0, and regions lie in the address space. -/
def Use.Sound (_ : BuddyHeap bot top) : Use → Prop
  | .allocate callback _ _ _ => ∀ ex ∈ callback, ∀ i size, Region (ex i size).1 (ex i size).2
  | .release ptr _ => ptr ≠ some 0
  | .expand ptr len => Region ptr len

/-- A region in the address space can be added. -/
theorem Region.addable (debug : Bool) (hbot : bot < top) {ptr : Option ℕ} (hregion : Region ptr n) :
  Addable debug bot top ptr n
  := by
  cases ptr with
  | none => exact addable_none debug bot top n
  | some base =>
      obtain ⟨hbase, hend⟩ := hregion base rfl
      intro h ha
      apply ha.expand debug hbot hbase hend

/-- A use keeps the alignment of the free blocks. -/
theorem Aligned.use (ha : h.Aligned) (hbot : bot < top) {u : Use} (hsound : u.Sound h)
    (hstep : (uses debug bot top).step h u = some h') :
  h'.Aligned
  := by
  cases u with
  | allocate callback rounds i req =>
      obtain ⟨r, heq, rfl⟩ := Option.map_eq_some_iff.1 hstep
      apply ha.allocate_of _ (toOption_eq_some heq)
      intro ex hex i size
      apply (hsound ex hex i size).addable debug hbot
  | release ptr sz =>
      cases ptr with
      | none =>
          cases hstep
          exact ha
      | some p =>
          obtain ⟨r, heq, rfl⟩ := Option.map_eq_some_iff.1 hstep
          apply ha.release _ (toOption_eq_some heq)
          rintro rfl
          exact hsound rfl
  | expand ptr len =>
      obtain ⟨r, heq, rfl⟩ := Option.map_eq_some_iff.1 hstep
      obtain ⟨res, h₁, hexpand, hal⟩ := Region.addable debug hbot hsound h ha
      rw [toOption_eq_some heq] at hexpand
      cases hexpand
      exact hal

/-- The free blocks of a heap are aligned, whatever it is used for. -/
theorem aligned_of_uses (hbot : bot < top)
    (hreach : (uses debug bot top).Reachable Use.Sound h) :
  h.Aligned
  := by
  apply hreach.invariant
  · rintro s rfl sh a hmem
    cases hmem
  · intro s u s' ha hsound hstep
    exact ha.use hbot hsound hstep

/-- In every heap that is reached, `max_size` takes words behind the lists for lists. The size that it
returns is the right one exactly if the last word that it finds not to be null has the number of the
last list that is not empty. -/
theorem maxSize_never (debug : Bool) (hmin : 4 ≤ bot) (hbot : bot < top)
    (hreach : (uses debug bot top).Reachable Use.Sound h) (past : ℕ → Bool) :
  ¬ h.Reports debug past ∧
  (h.IsLargest debug (h.maxSize past).1 ↔
    ∀ i, Topmost bot top (fun j => h.pointed past j = true) i ↔
      Topmost bot top (fun j => h.pool j ≠ []) i)
  := by
  constructor
  · intro hreports
    exact not_existing hmin hbot h past hreports.existing
  · exact (aligned_of_uses hbot hreach).largest_iff debug hbot past

/-- The words behind the lists: the size of the heap and its callback, and others that are null. -/
def sizeBehind (i : ℕ) : Bool := i < 2

/-- A heap of one page, from which a block of 0x100 bytes has been taken. A half of the page is free,
but the callback is taken for the list of the blocks of 512 bytes. -/
theorem maxSize_never_taken :
  ∃ h, (uses true 4 12).exec {} [.expand (some 0x10000) 0x1000, .allocate none 1 0 0x100] = some h ∧
    h.pool 11 ≠ [] ∧ ¬ h.Reports true sizeBehind ∧ ¬ h.IsLargest true (h.maxSize sizeBehind).1
  := by
  obtain ⟨h, hexec, hhalf⟩ : ∃ h,
      (uses true 4 12).exec {} [.expand (some 0x10000) 0x1000, .allocate none 1 0 0x100] = some h ∧
      (h.pool 11).isEmpty = false :=
    ⟨_, rfl, rfl⟩
  have hne : h.pool 11 ≠ [] := by
    rwa [← Bool.not_eq_true, List.isEmpty_iff] at hhalf
  have hstart : (uses true 4 12).Reachable Use.Sound {} := .start rfl
  have hreach : (uses true 4 12).Reachable Use.Sound h := by
    apply hstart.exec hexec
    intro a ha s
    simp only [List.mem_cons, List.not_mem_nil, or_false] at ha
    rcases ha with rfl | rfl
    · rintro base hbase
      cases hbase
      decide
    · rintro ex hex
      cases hex
  obtain ⟨hnever, hiff⟩ := maxSize_never true (by decide) (by decide) hreach sizeBehind
  refine ⟨h, hexec, hne, hnever, ?_⟩
  intro hlargest
  have htop : Topmost 4 12 (fun j => h.pointed sizeBehind j = true) 9 := by
    refine ⟨by decide, by decide, rfl, ?_⟩
    intro k hlt hle
    have hk : k = 10 ∨ k = 11 := by lia
    rcases hk with rfl | rfl
    · exact Bool.false_ne_true
    · exact Bool.false_ne_true
  obtain ⟨-, -, -, hnone⟩ := (hiff.mp hlargest 9).mp htop
  exact hnone 11 (by decide) (by decide) hne
/-- A heap of one page, whose halves are free. A request of 2048 bytes is served, but the callback is
taken for the list of the blocks of 512 bytes. -/
theorem maxSize_of_page :
  ∃ h, (uses true 4 12).Reachable Use.Sound h ∧
    (uses true 4 12).step {} (.expand (some 0x10000) 0x1000) = some h ∧
    h.maxSize sizeBehind = (512, [4, 5, 6, 7, 8, 9, 10, 11]) ∧ h.Serves true 2048 ∧
    ¬ h.Reports true sizeBehind
  := by
  have hstep : ∃ h, (uses true 4 12).step {} (.expand (some 0x10000) 0x1000) = some h ∧
      h.maxSize sizeBehind = (512, [4, 5, 6, 7, 8, 9, 10, 11]) ∧ h.Serves true 2048 :=
    ⟨_, rfl, rfl, _, _, rfl⟩
  obtain ⟨h, hstep, hmax, hserves⟩ := hstep
  refine ⟨h, .step _ (.start rfl) ?_ hstep, hstep, hmax, hserves, ?_⟩
  · rintro base hbase
    cases hbase
    decide
  · intro hreports
    exact not_existing le_rfl (by decide) h sizeBehind hreports.existing

end BuddyHeap

end UOS
