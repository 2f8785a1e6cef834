import Cofuos.Memory.Runs

/-!
# The free list

`FreeChain debug pdt table l` says that the list of the table consists of the runs `l`: they
are maximal runs, ordered by size, each entry of them leads to its run and to the links of
the run, and the directory entry holds the head of the list and the size of its last run.
Not every maximal run has to be in the list.

`resolve_prior` completes the links of a block, `erase` takes a run out of the list, and
`insert` puts one in at the place its size gives it. Each of them passes all of its
assertions.
-/

namespace UOS

open Fault

/-! ### Sizes in four bits -/

/-- The four bits grow with the size. -/
theorem encodeSize_mono {a b : ℕ} (h : a ≤ b) (hb : b ≤ 0x200) :
  encodeSize a ≤ encodeSize b
  := by
  have hstep : ∀ n < 0x200, encodeSize n ≤ encodeSize (n + 1) := by decide +kernel
  obtain ⟨k, rfl⟩ := Nat.exists_eq_add_of_le h
  clear h
  induction k with
  | zero => exact le_refl _
  | succ k ih => exact le_trans (ih (by lia)) (hstep (a + k) (by lia))

/-- The size four bits stand for is no larger than the size they were taken from, and is
kept in the same four bits. -/
theorem decodeSize_encodeSize {a : ℕ} (h : a ≤ 0x200) :
  decodeSize (encodeSize a) ≤ a ∧ encodeSize (decodeSize (encodeSize a)) = encodeSize a
  := by
  have hall : ∀ n < 0x201, decodeSize (encodeSize n) ≤ n ∧
      encodeSize (decodeSize (encodeSize n)) = encodeSize n := by decide +kernel
  apply hall a (by omega)

/-- Only the size `0` is kept as `0`. -/
theorem encodeSize_eq_zero_iff {a : ℕ} (h : a ≤ 0x200) :
  encodeSize a = 0 ↔ a = 0
  := by
  constructor
  · intro hzero
    by_contra hne
    have hone : encodeSize 1 = 1 := by decide
    have hle := encodeSize_mono (Nat.one_le_iff_ne_zero.mpr hne) h
    rw [hone, hzero] at hle
    exact absurd hle (by decide)
  · rintro rfl
    decide

/-- Only the four bits of the size `0` stand for `0`. -/
theorem decodeSize_encodeSize_eq_zero_iff {a : ℕ} (h : a ≤ 0x200) :
  decodeSize (encodeSize a) = 0 ↔ a = 0
  := by
  constructor
  · intro hzero
    have hkept := (decodeSize_encodeSize h).2
    rw [hzero] at hkept
    apply (encodeSize_eq_zero_iff h).mp
    rw [← hkept]
    decide
  · rintro rfl
    decide

/-- Recording again the size that the four bits stand for, or a smaller one, changes
nothing. -/
theorem encodeSize_max {a b : ℕ} (h : a ≤ b) (hb : b ≤ 0x200) :
  encodeSize (max a (decodeSize (encodeSize b))) = encodeSize b
  := by
  obtain ⟨hle, heq⟩ := decodeSize_encodeSize hb
  apply le_antisymm
  · apply encodeSize_mono (max_le h hle) hb
  · calc encodeSize b = encodeSize (decodeSize (encodeSize b)) := heq.symm
      _ ≤ encodeSize (max a (decodeSize (encodeSize b))) :=
        encodeSize_mono (le_max_right _ _) (by lia)

/-! ### Segments of the list -/

section Segments

variable {debug : Bool} {table : Table} {p p' n n' : Option Run} {l : List Run} {q : Run}
  {block : BLOCK}

/-- Putting a block at a run outside of a segment leaves the segment linked. -/
theorem linked_tagged (h : Linked (Records debug table) p l n)
    (hl : ∀ x ∈ l, MaximalRun table x) (hb : MaximalRun table block.run)
    (hne : block.run ∉ l) :
  Linked (Records debug (block.tagged table)) p l n
  := by
  apply h.imp
  intro x hx p n hrec
  apply hrec.congr (hl x hx)
  · intro i hi
    apply BLOCK.tagged_of_not_mem
    intro hi'
    apply hne
    rw [hb.eq_of_mem (hl x hx) hi' hi]
    apply hx
  · intro hend
    rw [(BLOCK.tagged_sameMap block table).isFree]
    apply (hl x hx).after hend

/-- The last run of a segment is given another run as its successor. -/
theorem linked_setNext (h : Linked (Records debug table) p (l ++ [q]) n)
    (hl : ∀ x ∈ l ++ [q], MaximalRun table x) (hnd : (l ++ [q]).Nodup)
    (hp : ∀ x ∈ p, x.self < 0x200) (hrec : Recovered (l.getLast?.or p) q n block)
    (hq : block.run = q) {next : ℕ} {valid : Bool} (hv : valid = n'.isSome)
    (hn : ∀ x ∈ n', next = x.self ∧ x.self < 0x200) :
  Linked (Records debug
      (BLOCK.tagged { block with next := next, nextValid := valid } table)) p (l ++ [q]) n'
  := by
  have hrun : BLOCK.run { block with next := next, nextValid := valid } = q := hq
  have hqmax : MaximalRun table q := hl q (by simp)
  have hql : q ∉ l := by
    rw [List.nodup_append] at hnd
    intro hmem
    apply hnd.2.2 q hmem q (by simp) rfl
  have hb : MaximalRun table (BLOCK.run { block with next := next, nextValid := valid }) := by
    rw [hrun]
    apply hqmax
  rw [Linked.append_iff] at h ⊢
  constructor
  · apply linked_tagged h.1 (fun x hx => hl x (by simp [hx])) hb
    rw [hrun]
    apply hql
  · have hrecs := BLOCK.records_tagged debug hb (l.getLast?.or p) n' hv hn
      (fun h1 => hrec.prev_valid (hrec.size_eq ▸ h1))
      (fun h1 x hx => by
        constructor
        · apply hrec.prev_eq (hrec.size_eq ▸ h1) x hx
        · rw [Option.mem_def, Option.or_eq_some_iff] at hx
          rcases hx with hx | ⟨-, hx⟩
          · apply (hl x _).self_lt
            simp [List.mem_of_getLast? hx]
          · apply hp x hx)
    rw [hrun] at hrecs
    simpa using hrecs

/-- The first run of a segment is given another run as its predecessor. -/
theorem linked_setPrev (h : Linked (Records debug table) p (q :: l) n)
    (hl : ∀ x ∈ q :: l, MaximalRun table x) (hnd : (q :: l).Nodup)
    (hn : ∀ x ∈ n, x.self < 0x200) (hrec : Recovered p q (l.head?.or n) block)
    (hq : block.run = q) {prev : ℕ} {valid : Bool} (hv : valid = p'.isSome)
    (hp : ∀ x ∈ p', prev = x.self ∧ x.self < 0x200) :
  Linked (Records debug
      (BLOCK.tagged { block with prev := prev, prevValid := valid } table)) p' (q :: l) n
  := by
  have hrun : BLOCK.run { block with prev := prev, prevValid := valid } = q := hq
  have hqmax : MaximalRun table q := hl q (by simp)
  have hql : q ∉ l := (List.nodup_cons.mp hnd).1
  have hb : MaximalRun table (BLOCK.run { block with prev := prev, prevValid := valid }) := by
    rw [hrun]
    apply hqmax
  constructor
  · have hrecs := BLOCK.records_tagged debug hb p' (l.head?.or n) hrec.next_valid
      (fun x hx => by
        constructor
        · apply hrec.next_eq x hx
        · rw [Option.mem_def, Option.or_eq_some_iff] at hx
          rcases hx with hx | ⟨-, hx⟩
          · apply (hl x _).self_lt
            simp [List.mem_of_head? hx]
          · apply hn x hx)
      (fun _ => hv) (fun _ => hp)
    rw [hrun] at hrecs
    apply hrecs
  · apply linked_tagged h.2 (fun x hx => hl x (by simp [hx])) hb
    rw [hrun]
    apply hql

end Segments

/-! ### The list of a table -/

/-- A directory entry without the bits that the free list uses. -/
def PDTE.unlisted (pdt : PDTE) : PDTE := { pdt with head := 0, remain := 0 }

/-- The size of the last run of a list, `0` for the empty list. -/
def lastSize (l : List Run) : ℕ := (l.getLast?.map Run.size).getD 0

@[simp]
theorem lastSize_nil : lastSize [] = 0 := rfl

@[simp]
theorem lastSize_concat (l : List Run) (r : Run) : lastSize (l ++ [r]) = r.size := by
  simp [lastSize]

@[simp]
theorem lastSize_append_cons (l₁ l₂ : List Run) (r : Run) :
  lastSize (l₁ ++ r :: l₂) = lastSize (r :: l₂)
  := by
  simp [lastSize, List.getLast?_append, List.getLast?_cons]

/-- The free list of a table consists of the runs `l`. -/
structure FreeChain (debug : Bool) (pdt : PDTE) (table : Table) (l : List Run) : Prop where
  maximal : ∀ r ∈ l, MaximalRun table r
  nodup : l.Nodup
  sorted : l.Pairwise (fun r r' => r.size ≤ r'.size)
  links : Linked (Records debug table) none l none
  head : ∀ r ∈ l.head?, pdt.head = r.self
  remain : pdt.remain = encodeSize (lastSize l)

namespace FreeChain

variable {debug : Bool} {pdt : PDTE} {table : Table} {l l₁ l₂ : List Run} {r : Run}
  {block : BLOCK}

theorem lastSize_le (h : FreeChain debug pdt table l) : lastSize l ≤ 0x200 := by
  rcases List.eq_nil_or_concat l with rfl | ⟨l', r, rfl⟩
  · simp
  · rw [List.concat_eq_append, lastSize_concat]
    have := (h.maximal r (by simp)).le
    omega

theorem getMaxSize_eq_zero_iff (h : FreeChain debug pdt table l) :
  getMaxSize pdt = 0 ↔ l = []
  := by
  rw [getMaxSize, h.remain, decodeSize_encodeSize_eq_zero_iff h.lastSize_le]
  rcases List.eq_nil_or_concat l with rfl | ⟨l', r, rfl⟩
  · simp
  · rw [List.concat_eq_append, lastSize_concat]
    have := (h.maximal r (by simp)).pos
    simp
    omega

/-- The list has at most as many runs as the table has entries. -/
theorem length_le (h : FreeChain debug pdt table l) : l.length ≤ 0x200 := by
  have hnd : (l.map Run.self).Nodup := by
    apply List.Nodup.map_on _ h.nodup
    intro x hx y hy heq
    apply (h.maximal x hx).eq_of_self (h.maximal y hy) heq
  have hsub : (l.map Run.self).toFinset ⊆ Finset.range 0x200 := by
    intro i hi
    rw [List.mem_toFinset, List.mem_map] at hi
    obtain ⟨x, hx, rfl⟩ := hi
    rw [Finset.mem_range]
    apply (h.maximal x hx).self_lt
  calc l.length = (l.map Run.self).toFinset.card := by
        rw [List.toFinset_card_of_nodup hnd, List.length_map]
    _ ≤ (Finset.range 0x200).card := Finset.card_le_card hsub
    _ = 0x200 := Finset.card_range _

/-- The sizes of the runs before a run are no larger than its size. -/
theorem size_le (h : FreeChain debug pdt table (l₁ ++ r :: l₂)) {x : Run} (hx : x ∈ l₁) :
  x.size ≤ r.size
  := by
  apply (List.pairwise_append.mp h.sorted).2.2 x hx r
  simp

theorem not_mem_left (h : FreeChain debug pdt table (l₁ ++ r :: l₂)) : r ∉ l₁ := by
  intro hr
  apply (List.nodup_append.mp h.nodup).2.2 r hr r _ rfl
  simp

/-- The entry of a run of the list recovers the run and its neighbours. -/
theorem records (h : FreeChain debug pdt table (l₁ ++ r :: l₂)) :
  Records debug table l₁.getLast? r l₂.head?
  := by
  simpa using h.links.node

end FreeChain

/-! ### Resolving the previous block -/

/-- A block that says what there is to say about the run `r` between the runs `p` and `n`,
the link to the previous run included. -/
structure Resolved (p : Option Run) (r : Run) (n : Option Run) (block : BLOCK) : Prop where
  self_eq : block.self = r.self
  size_eq : block.size = r.size
  next_valid : block.nextValid = n.isSome
  next_eq : ∀ r' ∈ n, block.next = r'.self
  prev_valid : block.prevValid = p.isSome
  prev_eq : ∀ r' ∈ p, block.prev = r'.self

theorem Recovered.run_eq {p n : Option Run} {r : Run} {block : BLOCK}
    (h : Recovered p r n block) :
  block.run = r
  := by
  rw [BLOCK.run, h.self_eq, h.size_eq]

/-- The walk through the runs of one entry before the run `r` ends at the last of them. -/
theorem resolveWalk_eq {debug : Bool} {table : Table} {block : BLOCK} {r : Run}
    (hr : MaximalRun table r) (hself : block.self = r.self) {l₂ : List Run} :
    ∀ (l : List Run) (x : Run) (p : Option Run) (fuel : ℕ) (prevBlock : BLOCK),
      Linked (Records debug table) p (x :: l ++ r :: l₂) none →
      (∀ y ∈ x :: l, MaximalRun table y ∧ y.size = 1 ∧ y ≠ r) → l.length < fuel →
      ∃ q, (x :: l).getLast? = some q ∧
        resolveWalk debug table block fuel x.self prevBlock
          = .ok { block with prev := q.self, prevValid := true }
  | [], x, p, fuel, prevBlock, hlinked, hl, hfuel => by
      obtain ⟨fuel, rfl⟩ : ∃ k, fuel = k + 1 := ⟨fuel - 1, by simp at hfuel; lia⟩
      obtain ⟨hx, hx1, -⟩ := hl x (by simp)
      obtain ⟨b, hget, hrec⟩ := hlinked.1.get_self hx prevBlock
      use x, rfl
      rw [resolveWalk, hget, Except.ok_bind, assert_eq_ok (fun _ => by rw [hrec.size_eq, hx1]),
        Except.ok_bind, if_pos]
      · rw [hrec.self_eq]
        rfl
      · constructor
        · rw [hrec.next_valid]
          rfl
        · rw [hself]
          apply hrec.next_eq
          rfl
  | y :: l, x, p, fuel, prevBlock, hlinked, hl, hfuel => by
      obtain ⟨fuel, rfl⟩ : ∃ k, fuel = k + 1 := ⟨fuel - 1, by simp at hfuel; lia⟩
      obtain ⟨hx, hx1, -⟩ := hl x (by simp)
      obtain ⟨hy, -, hyr⟩ := hl y (by simp)
      obtain ⟨b, hget, hrec⟩ := hlinked.1.get_self hx prevBlock
      have hnext : b.next = y.self := by
        apply hrec.next_eq
        rfl
      have hvalid : b.nextValid = true := by
        rw [hrec.next_valid]
        rfl
      obtain ⟨q, hq, hwalk⟩ := resolveWalk_eq hr hself l y (some x) fuel b hlinked.2
        (fun z hz => hl z (by simp [hz])) (by simp at hfuel; omega)
      use q
      constructor
      · rw [← hq]
        simp [List.getLast?_cons]
      · rw [resolveWalk, hget, Except.ok_bind, assert_eq_ok (fun _ => by rw [hrec.size_eq, hx1]),
          Except.ok_bind, if_neg, if_pos hvalid, hnext, hwalk]
        rw [hnext, hself]
        rintro ⟨-, heq⟩
        apply hyr (hy.eq_of_self hr heq)

namespace FreeChain

variable {debug : Bool} {pdt : PDTE} {table : Table} {l l₁ l₂ : List Run} {r : Run}
  {block : BLOCK}

/-- `resolve_prior` completes a block that has been read. -/
theorem resolvePrior_eq (h : FreeChain debug pdt table (l₁ ++ r :: l₂))
    (hb : Recovered l₁.getLast? r l₂.head? block) :
  ∃ block', resolvePrior debug pdt table block = .ok block' ∧
    Resolved l₁.getLast? r l₂.head? block'
  := by
  have hr := h.maximal r (by simp)
  have hpos := hr.pos
  have hmax : getMaxSize pdt ≠ 0 := by
    rw [Ne, h.getMaxSize_eq_zero_iff]
    simp
  simp only [resolvePrior]
  rw [assert_eq_ok (fun _ => by rw [hb.size_eq]; omega), assert_eq_ok (fun _ => hmax)]
  simp only [Except.ok_bind]
  cases l₁ with
  | nil =>
      have hhead : pdt.head = block.self := by
        rw [hb.self_eq]
        apply h.head
        rfl
      have hvalid : block.prevValid = false := by
        by_cases h1 : r.size = 1
        · apply hb.prev_single h1
        · apply hb.prev_valid h1
      use block
      constructor
      · rw [if_pos hhead, assert_eq_ok (fun _ => hvalid)]
        rfl
      · constructor
        · apply hb.self_eq
        · apply hb.size_eq
        · apply hb.next_valid
        · apply hb.next_eq
        · apply hvalid
        · intro x hx
          cases hx
  | cons x l₁ =>
      have hx := h.maximal x (by simp)
      have hne : x ≠ r := by
        rintro rfl
        apply h.not_mem_left
        simp
      rw [if_neg]
      swap
      · rw [h.head x rfl, hb.self_eq]
        intro heq
        apply hne (hx.eq_of_self hr heq)
      by_cases h1 : r.size = 1
      · have hall : ∀ y ∈ x :: l₁, MaximalRun table y ∧ y.size = 1 ∧ y ≠ r := by
          intro y hy
          have hmaxy := h.maximal y (by simp at hy ⊢; tauto)
          have hle := h.size_le hy
          have := hmaxy.pos
          refine ⟨hmaxy, by lia, ?_⟩
          rintro rfl
          apply h.not_mem_left hy
        have hlen := h.length_le
        simp only [List.cons_append, List.length_cons, List.length_append] at hlen
        obtain ⟨q, hq, hwalk⟩ := resolveWalk_eq hr hb.self_eq l₁ x none 0x200 {} h.links hall
          (by omega)
        use { block with prev := q.self, prevValid := true }
        constructor
        · rw [if_neg (by rw [hb.size_eq]; omega), h.head x rfl, hwalk]
        · rw [hq]
          constructor
          · apply hb.self_eq
          · apply hb.size_eq
          · apply hb.next_valid
          · apply hb.next_eq
          · rfl
          · intro y hy
            cases hy
            rfl
      · have hvalid : block.prevValid = true := by
          rw [hb.prev_valid h1, List.getLast?_cons]
          rfl
        use block
        constructor
        · rw [if_pos (by rw [hb.size_eq]; omega), assert_eq_ok (fun _ => hvalid)]
          rfl
        · constructor
          · apply hb.self_eq
          · apply hb.size_eq
          · apply hb.next_valid
          · apply hb.next_eq
          · apply hb.prev_valid h1
          · apply hb.prev_eq h1

end FreeChain

/-! ### Erasing a run -/

namespace FreeChain

variable {debug : Bool} {pdt : PDTE} {table : Table} {l l₁ l₂ : List Run} {r : Run}
  {block : BLOCK}

/-- Both parts of the list next to a run are linked. -/
theorem links_split (h : FreeChain debug pdt table (l₁ ++ r :: l₂)) :
  Linked (Records debug table) none l₁ (some r) ∧ Linked (Records debug table) (some r) l₂ none
  := by
  obtain ⟨h₁, h₂⟩ := Linked.append_iff.mp h.links
  constructor
  · simpa using h₁
  · apply h₂.2

theorem size_le_lastSize (hs : l.Pairwise (fun r r' : Run => r.size ≤ r'.size)) {x : Run}
    (hx : x ∈ l) :
  x.size ≤ lastSize l
  := by
  rcases List.eq_nil_or_concat l with rfl | ⟨l, q, rfl⟩
  · cases hx
  · rw [List.concat_eq_append] at hs hx ⊢
    rw [lastSize_concat]
    rw [List.mem_append, List.mem_singleton] at hx
    rcases hx with hx | rfl
    · apply (List.pairwise_append.mp hs).2.2 x hx q (by simp)
    · apply le_refl

/-- The first half of `erase` links the part of the list before the run to the part after
it. -/
theorem unlinkPrev_eq (h : FreeChain debug pdt table (l₁ ++ r :: l₂))
    (hb : Resolved l₁.getLast? r l₂.head? block) :
  ∃ pdt' table', unlinkPrev debug pdt table block = .ok (pdt', table', lastSize l₁) ∧
    SameMap table table' ∧ pdt'.unlisted = pdt.unlisted ∧ pdt'.remain = pdt.remain ∧
    (∀ x ∈ (l₁ ++ l₂).head?, pdt'.head = x.self) ∧
    Linked (Records debug table') none l₁ l₂.head? ∧
    Linked (Records debug table') (some r) l₂ none
  := by
  have hr := h.maximal r (by simp)
  obtain ⟨hl₁, hl₂⟩ := h.links_split
  rcases List.eq_nil_or_concat l₁ with rfl | ⟨l, q, rfl⟩
  · refine ⟨{ pdt with head := block.next % 0x200 }, table, ?_, SameMap.refl _, rfl, rfl, ?_,
      trivial, hl₂⟩
    · have hvalid : block.prevValid = false := hb.prev_valid
      have hhead : pdt.head = block.self := by
        rw [hb.self_eq]
        apply h.head
        rfl
      rw [unlinkPrev, hvalid, if_neg (by simp), assert_eq_ok (fun _ => hhead)]
      rfl
    · intro x hx
      rw [List.nil_append] at hx
      have hlt := (h.maximal x (by simp [List.mem_of_head? hx])).self_lt
      simp only [hb.next_eq x hx, Nat.mod_eq_of_lt hlt]
  · simp only [List.concat_eq_append] at *
    have hq := h.maximal q (by simp)
    have hrec : Records debug table l.getLast? q (some r) := by
      have hnode := Linked.node (show Linked _ none (l ++ q :: []) (some r) from hl₁)
      simpa using hnode
    obtain ⟨b, hget, hbrec⟩ := hrec.get_self hq {}
    have hprev : block.prev = q.self := hb.prev_eq q (by simp)
    have hvalid : block.prevValid = true := by
      rw [hb.prev_valid]
      simp
    have hrun : BLOCK.run { b with next := block.next, nextValid := block.nextValid } = q :=
      hbrec.run_eq
    have hb' : MaximalRun table (BLOCK.run { b with next := block.next, nextValid := block.nextValid }) := by
      rw [hrun]
      apply hq
    have hput := BLOCK.put_eq debug hb'
    refine ⟨pdt, BLOCK.tagged { b with next := block.next, nextValid := block.nextValid } table,
      ?_, BLOCK.tagged_sameMap _ _, rfl, rfl, ?_, ?_, ?_⟩
    · rw [unlinkPrev, if_pos hvalid, hprev, hget, Except.ok_bind, assert_eq_ok]
      · simp only [Except.ok_bind] at hput ⊢
        rw [hput]
        simp only [Except.ok_bind, lastSize_concat, ← hbrec.size_eq]
        rfl
      · intro _
        constructor
        · rw [hbrec.next_valid]
          rfl
        · rw [hb.self_eq]
          apply hbrec.next_eq
          rfl
    · intro x hx
      apply h.head
      simpa using hx
    · apply linked_setNext hl₁ (fun x hx => h.maximal x (by simp at hx ⊢; tauto))
        (List.nodup_append.mp h.nodup).1 (by simp) (by simpa using hbrec) hbrec.run_eq hb.next_valid
      intro x hx
      constructor
      · apply hb.next_eq x hx
      · apply (h.maximal x (by simp [List.mem_of_head? hx])).self_lt
    · apply linked_tagged hl₂ (fun x hx => h.maximal x (by simp [hx])) hb'
      rw [hrun]
      intro hmem
      apply (List.nodup_append.mp h.nodup).2.2 q (by simp) q _ rfl
      simp [hmem]

/-- The second half of `erase` links the part of the list after the run to the part before
it. -/
theorem unlinkNext_eq (hmax : ∀ x ∈ l₁ ++ l₂, MaximalRun table x) (hnd : (l₁ ++ l₂).Nodup)
    (hsorted : (l₁ ++ l₂).Pairwise (fun r r' : Run => r.size ≤ r'.size))
    (hl₁ : Linked (Records debug table) none l₁ l₂.head?)
    (hl₂ : Linked (Records debug table) (some r) l₂ none)
    (hremain : l₂ ≠ [] → pdt.remain = encodeSize (lastSize (l₁ ++ l₂)))
    (hb : Resolved l₁.getLast? r l₂.head? block) :
  ∃ table' maxSize, unlinkNext debug pdt table block (lastSize l₁) = .ok (table', maxSize) ∧
    SameMap table table' ∧ encodeSize maxSize = encodeSize (lastSize (l₁ ++ l₂)) ∧
    Linked (Records debug table') none (l₁ ++ l₂) none
  := by
  cases l₂ with
  | nil =>
      refine ⟨table, lastSize l₁, ?_, SameMap.refl _, by simp, by simpa using hl₁⟩
      have hvalid : block.nextValid = false := hb.next_valid
      rw [unlinkNext, hvalid, if_neg (by simp)]
      rfl
  | cons q l =>
      have hq := hmax q (by simp)
      have hvalid : block.nextValid = true := hb.next_valid
      have hnext : block.next = q.self := hb.next_eq q rfl
      have hle : lastSize (l₁ ++ q :: l) ≤ 0x200 := by
        rcases List.eq_nil_or_concat (l₁ ++ q :: l) with hnil | ⟨l', x, hl'⟩
        · simp at hnil
        · rw [List.concat_eq_append] at hl'
          rw [hl', lastSize_concat]
          have := (hmax x (by rw [hl']; simp)).le
          omega
      obtain ⟨b, hget, hbrec⟩ := hl₂.1.get_self hq {}
      have henc : encodeSize (max b.size (getMaxSize pdt))
          = encodeSize (lastSize (l₁ ++ q :: l)) := by
        rw [getMaxSize, hremain (by simp), encodeSize_max _ hle]
        rw [hbrec.size_eq]
        apply size_le_lastSize hsorted
        simp
      have hpos := hq.pos
      have hnd₂ := (List.nodup_append.mp hnd).2.1
      by_cases h1 : q.size = 1
      · refine ⟨table, max b.size (getMaxSize pdt), ?_, SameMap.refl _, henc, ?_⟩
        · rw [unlinkNext, if_pos hvalid, hnext, hget, Except.ok_bind,
            if_neg (by rw [hbrec.size_eq]; omega)]
          rfl
        · rw [Linked.append_iff]
          refine ⟨by simpa using hl₁, hl₂.1.single h1, hl₂.2⟩
      · have hrun : BLOCK.run { b with prev := block.prev, prevValid := block.prevValid } = q :=
          hbrec.run_eq
        have hb' : MaximalRun table (BLOCK.run { b with prev := block.prev, prevValid := block.prevValid }) := by
          rw [hrun]
          apply hq
        have hput := BLOCK.put_eq debug hb'
        refine ⟨BLOCK.tagged { b with prev := block.prev, prevValid := block.prevValid } table,
          max b.size (getMaxSize pdt), ?_, BLOCK.tagged_sameMap _ _, henc, ?_⟩
        · rw [unlinkNext, if_pos hvalid, hnext, hget, Except.ok_bind,
            if_pos (by rw [hbrec.size_eq]; lia), assert_eq_ok]
          · simp only [Except.ok_bind] at hput ⊢
            rw [hput]
            rfl
          · intro _
            constructor
            · apply hbrec.prev_valid h1
            · rw [hb.self_eq]
              apply hbrec.prev_eq h1
              rfl
        · rw [Linked.append_iff]
          constructor
          · apply linked_tagged (by simpa using hl₁) (fun x hx => hmax x (by simp [hx])) hb'
            rw [hrun]
            intro hmem
            apply (List.nodup_append.mp hnd).2.2 q hmem q _ rfl
            simp
          · apply linked_setPrev hl₂ (fun x hx => hmax x (by simp at hx ⊢; tauto)) hnd₂
              (by simp) hbrec hbrec.run_eq
            · simpa using hb.prev_valid
            · intro x hx
              have hx' : l₁.getLast? = some x := by simpa using hx
              constructor
              · apply hb.prev_eq x hx'
              · apply (hmax x (by simp [List.mem_of_getLast? hx'])).self_lt

/-- `erase` takes a run out of the list. -/
theorem erase_eq (h : FreeChain debug pdt table (l₁ ++ r :: l₂))
    (hb : Resolved l₁.getLast? r l₂.head? block) :
  ∃ pdt' table', erase debug pdt table block = .ok (pdt', table') ∧
    FreeChain debug pdt' table' (l₁ ++ l₂) ∧ SameMap table table' ∧
    pdt'.unlisted = pdt.unlisted
  := by
  have hsub : (l₁ ++ l₂).Sublist (l₁ ++ r :: l₂) :=
    List.Sublist.append_left (List.sublist_cons_self r l₂) l₁
  obtain ⟨pdt₁, table₁, hprev, hs₁, hu₁, hremain, hhead, hl₁, hl₂⟩ := h.unlinkPrev_eq hb
  have hmax : ∀ x ∈ l₁ ++ l₂, MaximalRun table₁ x :=
    fun x hx => (h.maximal x (hsub.subset hx)).sameMap hs₁
  have hremain' : l₂ ≠ [] → pdt₁.remain = encodeSize (lastSize (l₁ ++ l₂)) := by
    intro hne
    obtain ⟨q, l, rfl⟩ := List.exists_cons_of_ne_nil hne
    rw [hremain, h.remain]
    simp only [lastSize, List.getLast?_append, List.getLast?_cons_cons]
  obtain ⟨table₂, maxSize, hnext, hs₂, henc, hlinks⟩ := unlinkNext_eq hmax
    (h.nodup.sublist hsub) (h.sorted.sublist hsub) hl₁ hl₂ hremain' hb
  refine ⟨putMaxSize pdt₁ maxSize, table₂, ?_, ?_, hs₁.trans hs₂, hu₁⟩
  · rw [erase, hprev]
    simp only [Except.ok_bind]
    rw [hnext]
    rfl
  · exact {
      maximal := fun x hx => (hmax x hx).sameMap hs₂
      nodup := h.nodup.sublist hsub
      sorted := h.sorted.sublist hsub
      links := hlinks
      head := hhead
      remain := henc }

end FreeChain

/-! ### Finding the place of a run -/

/-- The two blocks of a gap are the ones next to the seam of `l₁` and `l₂`. -/
structure GapAt (l₁ l₂ : List Run) (gap : Gap) : Prop where
  prev : ∀ l q, l₁ = l ++ [q] → Recovered l.getLast? q l₂.head? gap.prevBlock
  prev_nil : l₁ = [] → gap.prevBlock.size = 0
  next : ∀ q l, l₂ = q :: l → Recovered l₁.getLast? q l.head? gap.nextBlock
  next_nil : l₂ = [] → gap.nextBlock.size = 0

/-- The links of a block lead to the runs next to the seam of `l₁` and `l₂`. -/
structure Hinted (l₁ l₂ : List Run) (block : BLOCK) : Prop where
  next_valid : block.nextValid = l₂.head?.isSome
  next_eq : ∀ x ∈ l₂.head?, block.next = x.self
  prev_valid : block.prevValid = l₁.getLast?.isSome
  prev_eq : ∀ x ∈ l₁.getLast?, block.prev = x.self

namespace FreeChain

variable {debug : Bool} {pdt : PDTE} {table : Table} {l l₁ l₂ : List Run} {r : Run}
  {block : BLOCK} {gap : Gap}

/-- The block read through the link to the previous run. -/
theorem getLink_prev (h : FreeChain debug pdt table (l₁ ++ l₂)) (hb : Hinted l₁ l₂ block) :
  ∃ b, getLink debug table block.prevValid block.prev = .ok b ∧
    (∀ l q, l₁ = l ++ [q] → Recovered l.getLast? q l₂.head? b) ∧ (l₁ = [] → b.size = 0)
  := by
  rcases List.eq_nil_or_concat l₁ with rfl | ⟨l, q, rfl⟩
  · refine ⟨{ size := 0 }, ?_, by simp, by simp⟩
    rw [getLink, hb.prev_valid]
    rfl
  · simp only [List.concat_eq_append] at *
    have h' : FreeChain debug pdt table (l ++ q :: l₂) := by simpa using h
    obtain ⟨b, hget, hrec⟩ := h'.records.get_self (h'.maximal q (by simp)) {}
    refine ⟨b, ?_, ?_, by simp⟩
    · rw [getLink, hb.prev_valid, hb.prev_eq q (by simp), if_pos (by simp), hget]
    · intro l' q' heq
      obtain ⟨rfl, hq⟩ := List.append_inj' heq rfl
      obtain rfl : q = q' := by simpa using hq
      apply hrec

/-- The block read through the link to the next run. -/
theorem getLink_next (h : FreeChain debug pdt table (l₁ ++ l₂)) (hb : Hinted l₁ l₂ block) :
  ∃ b, getLink debug table block.nextValid block.next = .ok b ∧
    (∀ q l, l₂ = q :: l → Recovered l₁.getLast? q l.head? b) ∧ (l₂ = [] → b.size = 0)
  := by
  cases l₂ with
  | nil =>
      refine ⟨{ size := 0 }, ?_, by simp, by simp⟩
      rw [getLink, hb.next_valid]
      rfl
  | cons q l =>
      obtain ⟨b, hget, hrec⟩ := h.records.get_self (h.maximal q (by simp)) {}
      refine ⟨b, ?_, ?_, by simp⟩
      · rw [getLink, hb.next_valid, hb.next_eq q rfl, if_pos (by simp), hget]
      · intro q' l' heq
        cases heq
        apply hrec

/-- The blocks of a gap are in the order of the list. -/
theorem gap_check (h : FreeChain debug pdt table (l₁ ++ l₂)) (hg : GapAt l₁ l₂ gap) :
  gap.check debug = .ok ()
  := by
  apply assert_eq_ok
  intro _ hprev hnext
  rcases List.eq_nil_or_concat l₁ with rfl | ⟨l, q, rfl⟩
  · apply absurd (hg.prev_nil rfl) hprev
  cases l₂ with
  | nil => apply absurd (hg.next_nil rfl) hnext
  | cons q' l' =>
      rw [List.concat_eq_append] at *
      rw [(hg.prev l q rfl).size_eq, (hg.next q' l' rfl).size_eq]
      apply h.size_le
      simp

/-- Moving to the left ends at a place for the block. -/
theorem shiftLeft_eq (h : FreeChain debug pdt table (l₁ ++ l₂)) (hg : GapAt l₁ l₂ gap)
    (hpos : 0 < block.size) (hl₂ : ∀ x ∈ l₂, block.size ≤ x.size) {fuel : ℕ}
    (hfuel : l₁.length < fuel) :
  ∃ gap' m₁ m₂, shiftLeft debug table block fuel gap = .ok gap' ∧ GapAt m₁ m₂ gap' ∧
    m₁ ++ m₂ = l₁ ++ l₂ ∧ (∀ x ∈ m₁, x.size ≤ block.size) ∧ ∀ x ∈ m₂, block.size ≤ x.size
  := by
  induction l₁ using List.reverseRecOn generalizing l₂ gap fuel with
  | nil =>
      obtain ⟨fuel, rfl⟩ : ∃ k, fuel = k + 1 := ⟨fuel - 1, by simp at hfuel; lia⟩
      refine ⟨gap, [], l₂, ?_, hg, rfl, by simp, hl₂⟩
      rw [shiftLeft, h.gap_check hg, Except.ok_bind, if_neg]
      · rfl
      · rw [hg.prev_nil rfl]
        simp
  | append_singleton l q ih =>
      obtain ⟨fuel, rfl⟩ : ∃ k, fuel = k + 1 := ⟨fuel - 1, by simp at hfuel; lia⟩
      have hrec := hg.prev l q rfl
      have h' : FreeChain debug pdt table (l ++ q :: l₂) := by simpa using h
      rw [shiftLeft, h.gap_check hg, Except.ok_bind]
      by_cases hq : block.size < q.size
      · rw [if_pos (by rw [hrec.size_eq]; lia)]
        have hl₂' : ∀ x ∈ q :: l₂, block.size ≤ x.size := by
          rintro x (_ | ⟨_, hx⟩)
          · omega
          · apply hl₂ x hx
        have hvalid : gap.prevBlock.prevValid = l.getLast?.isSome := hrec.prev_valid (by omega)
        rcases List.eq_nil_or_concat l with rfl | ⟨l', q', rfl⟩
        · refine ⟨⟨{ gap.prevBlock with size := 0 }, gap.prevBlock⟩, [], q :: l₂, ?_, ?_, by simp,
            by simp, hl₂'⟩
          · dsimp only
            rw [if_pos (by simp [hvalid])]
            rfl
          · constructor
            · simp
            · simp
            · rintro x l ⟨⟩
              apply hrec
            · simp
        · simp only [List.concat_eq_append] at *
          have h'' : FreeChain debug pdt table (l' ++ q' :: q :: l₂) := by simpa using h'
          obtain ⟨b, hget, hbrec⟩ :=
            h''.records.get_self (h''.maximal q' (by simp)) gap.prevBlock
          have hgap : GapAt (l' ++ [q']) (q :: l₂) ⟨b, gap.prevBlock⟩ := by
            constructor
            · intro l x heq
              obtain ⟨rfl, hx⟩ := List.append_inj' heq rfl
              obtain rfl : q' = x := by simpa using hx
              apply hbrec
            · simp
            · rintro x l ⟨⟩
              apply hrec
            · simp
          have hfuel' : (l' ++ [q']).length < fuel := by
            simp at hfuel ⊢
            omega
          obtain ⟨gap', m₁, m₂, hshift, hgap', hm, hle⟩ := ih h' hgap hl₂' hfuel'
          refine ⟨gap', m₁, m₂, ?_, hgap', by simpa using hm, hle⟩
          rw [if_neg (by simp [hvalid]), hrec.prev_eq (by lia) q' (by simp), hget,
            Except.ok_bind, hshift]
      · refine ⟨gap, l ++ [q], l₂, ?_, hg, rfl, ?_, hl₂⟩
        · rw [if_neg (by rw [hrec.size_eq]; omega)]
          rfl
        · intro x hx
          rw [List.mem_append, List.mem_singleton] at hx
          rcases hx with hx | rfl
          · have := h'.size_le hx
            omega
          · omega

/-- Moving to the right ends at a place for the block. -/
theorem shiftRight_eq (h : FreeChain debug pdt table (l₁ ++ l₂)) (hg : GapAt l₁ l₂ gap)
    (hl₁ : ∀ x ∈ l₁, x.size ≤ block.size) {fuel : ℕ} (hfuel : l₂.length < fuel) :
  ∃ gap' m₁ m₂, shiftRight debug table block fuel gap = .ok gap' ∧ GapAt m₁ m₂ gap' ∧
    m₁ ++ m₂ = l₁ ++ l₂ ∧ (∀ x ∈ m₁, x.size ≤ block.size) ∧ ∀ x ∈ m₂, block.size ≤ x.size
  := by
  induction l₂ generalizing l₁ gap fuel with
  | nil =>
      obtain ⟨fuel, rfl⟩ : ∃ k, fuel = k + 1 := ⟨fuel - 1, by simp at hfuel; omega⟩
      refine ⟨gap, l₁, [], ?_, hg, rfl, hl₁, by simp⟩
      rw [shiftRight, h.gap_check hg, Except.ok_bind, if_neg]
      · rfl
      · rw [hg.next_nil rfl]
        simp
  | cons q l ih =>
      obtain ⟨fuel, rfl⟩ : ∃ k, fuel = k + 1 := ⟨fuel - 1, by simp at hfuel; lia⟩
      have hrec := hg.next q l rfl
      have hqpos := (h.maximal q (by simp)).pos
      rw [shiftRight, h.gap_check hg, Except.ok_bind]
      by_cases hq : q.size < block.size
      · rw [if_pos (by rw [hrec.size_eq]; omega)]
        have hl₁' : ∀ x ∈ l₁ ++ [q], x.size ≤ block.size := by
          intro x hx
          rw [List.mem_append, List.mem_singleton] at hx
          rcases hx with hx | rfl
          · apply hl₁ x hx
          · omega
        have hvalid : gap.nextBlock.nextValid = l.head?.isSome := hrec.next_valid
        have hprev : ∀ l' x, l₁ ++ [q] = l' ++ [x] →
            Recovered l'.getLast? x l.head? gap.nextBlock := by
          intro l' x heq
          obtain ⟨rfl, hx⟩ := List.append_inj' heq rfl
          obtain rfl : q = x := by simpa using hx
          apply hrec
        cases l with
        | nil =>
            refine ⟨⟨gap.nextBlock, { gap.nextBlock with size := 0 }⟩, l₁ ++ [q], [], ?_, ?_,
              by simp, hl₁', by simp⟩
            · dsimp only
              rw [if_pos (by simp [hvalid])]
              rfl
            · constructor
              · apply hprev
              · simp
              · simp
              · simp
        | cons q' l' =>
            have h' : FreeChain debug pdt table ((l₁ ++ [q]) ++ q' :: l') := by simpa using h
            obtain ⟨b, hget, hbrec⟩ :=
              h'.records.get_self (h'.maximal q' (by simp)) gap.nextBlock
            have hgap : GapAt (l₁ ++ [q]) (q' :: l') ⟨gap.nextBlock, b⟩ := by
              constructor
              · apply hprev
              · simp
              · rintro x l ⟨⟩
                apply hbrec
              · simp
            have hfuel' : (q' :: l').length < fuel := by
              simp at hfuel ⊢
              omega
            obtain ⟨gap', m₁, m₂, hshift, hgap', hm, hle⟩ := ih h' hgap hl₁' hfuel'
            refine ⟨gap', m₁, m₂, ?_, hgap', by simpa using hm, hle⟩
            dsimp only
            rw [if_neg (by simp [hvalid]), hrec.next_eq q' rfl, hget, Except.ok_bind, hshift]
      · refine ⟨gap, l₁, q :: l, ?_, hg, rfl, hl₁, ?_⟩
        · rw [if_neg (by rw [hrec.size_eq]; omega)]
          rfl
        · rintro x (_ | ⟨_, hx⟩)
          · omega
          · have := (List.pairwise_cons.mp (List.pairwise_append.mp h.sorted).2.1).1 x hx
            omega

end FreeChain

/-! ### Inserting a run -/

namespace FreeChain

variable {debug : Bool} {pdt : PDTE} {table : Table} {l l₁ l₂ : List Run} {r : Run}
  {block : BLOCK} {gap : Gap}

/-- The first half of linking a block links it to the block after the gap. -/
theorem linkNext_eq (h : FreeChain debug pdt table (l₁ ++ l₂)) (hg : GapAt l₁ l₂ gap)
    (hr : MaximalRun table block.run) (hl₂ : ∀ x ∈ l₂, block.size ≤ x.size) :
  ∃ pdt' table' block', linkNext debug pdt table block gap = .ok (pdt', table', block') ∧
    SameMap table table' ∧ pdt'.unlisted = pdt.unlisted ∧ pdt'.head = pdt.head ∧
    pdt'.remain = encodeSize (lastSize (l₁ ++ block.run :: l₂)) ∧
    block'.run = block.run ∧ block'.nextValid = l₂.head?.isSome ∧
    (∀ x ∈ l₂.head?, block'.next = x.self) ∧
    Linked (Records debug table') none l₁ l₂.head? ∧
    Linked (Records debug table') (some block.run) l₂ none
  := by
  obtain ⟨hlk₁, hlk₂⟩ := Linked.append_iff.mp h.links
  rw [Option.or_none] at hlk₁ hlk₂
  cases l₂ with
  | nil =>
      refine ⟨putMaxSize pdt block.size, table, { block with nextValid := false }, ?_,
        SameMap.refl _, rfl, rfl, ?_, rfl, rfl, by simp, hlk₁, trivial⟩
      · rw [linkNext, hg.next_nil rfl, if_neg (by simp)]
        rfl
      · rw [lastSize_concat]
        rfl
  | cons q l =>
      have hq := h.maximal q (by simp)
      have hrec := hg.next q l rfl
      have hrun : BLOCK.run { gap.nextBlock with prev := block.self, prevValid := true } = q :=
        hrec.run_eq
      have hb' : MaximalRun table (BLOCK.run { gap.nextBlock with prev := block.self, prevValid := true }) := by
        rw [hrun]
        apply hq
      have hput := BLOCK.put_eq debug hb'
      have hnd := List.nodup_append.mp h.nodup
      refine ⟨pdt, BLOCK.tagged { gap.nextBlock with prev := block.self, prevValid := true } table,
        { block with next := gap.nextBlock.self, nextValid := true }, ?_,
        BLOCK.tagged_sameMap _ _, rfl, rfl, ?_, rfl, rfl, ?_, ?_, ?_⟩
      · have hpos := hq.pos
        have hle := hl₂ q (by simp)
        rw [linkNext, if_pos (by rw [hrec.size_eq]; omega),
          assert_eq_ok (fun _ => by rw [hrec.size_eq]; exact hle)]
        simp only [Except.ok_bind] at hput ⊢
        rw [hput]
        rfl
      · rw [h.remain]
        simp only [lastSize, List.getLast?_append, List.getLast?_cons_cons]
      · rintro x ⟨⟩
        apply hrec.self_eq
      · apply linked_tagged hlk₁ (fun x hx => h.maximal x (by simp [hx])) hb'
        rw [hrun]
        intro hmem
        apply hnd.2.2 q hmem q _ rfl
        simp
      · have hp : ∀ x ∈ some block.run, block.self = x.self ∧ x.self < 0x200 := by
          rintro x ⟨⟩
          exact ⟨rfl, hr.self_lt⟩
        apply linked_setPrev hlk₂ (fun x hx => h.maximal x (by simp at hx ⊢; tauto)) hnd.2.1
          (by simp) (by simpa using hrec) hrec.run_eq rfl hp

/-- The second half of linking a block links it to the block before the gap. -/
theorem linkPrev_eq (hmax : ∀ x ∈ l₁ ++ l₂, MaximalRun table x) (hnd : (l₁ ++ l₂).Nodup)
    (hg : GapAt l₁ l₂ gap) (hhead : ∀ x ∈ (l₁ ++ l₂).head?, pdt.head = x.self)
    (hlk₁ : Linked (Records debug table) none l₁ l₂.head?)
    (hlk₂ : Linked (Records debug table) (some block.run) l₂ none)
    (hr : MaximalRun table block.run) (hl₁ : ∀ x ∈ l₁, x.size ≤ block.size) :
  ∃ pdt' table' block', linkPrev debug pdt table block gap = .ok (pdt', table', block') ∧
    SameMap table table' ∧ pdt'.unlisted = pdt.unlisted ∧ pdt'.remain = pdt.remain ∧
    (∀ x ∈ (l₁ ++ block.run :: l₂).head?, pdt'.head = x.self) ∧
    block'.run = block.run ∧ block'.nextValid = block.nextValid ∧ block'.next = block.next ∧
    block'.prevValid = l₁.getLast?.isSome ∧ (∀ x ∈ l₁.getLast?, block'.prev = x.self) ∧
    Linked (Records debug table') none l₁ (some block.run) ∧
    Linked (Records debug table') (some block.run) l₂ none
  := by
  rcases List.eq_nil_or_concat l₁ with rfl | ⟨l, q, rfl⟩
  · refine ⟨{ pdt with head := block.self % 0x200 }, table, { block with prevValid := false }, ?_,
      SameMap.refl _, rfl, rfl, ?_, rfl, rfl, rfl, rfl, by simp, trivial, hlk₂⟩
    · rw [linkPrev, hg.prev_nil rfl, if_neg (by simp), assert_eq_ok]
      · rfl
      · intro _
        cases l₂ with
        | nil => apply Or.inl (hg.next_nil rfl)
        | cons x l =>
            right
            rw [(hg.next x l rfl).self_eq]
            apply hhead
            rfl
    · rintro x ⟨⟩
      have := hr.self_lt
      simp only [BLOCK.run] at this ⊢
      lia
  · simp only [List.concat_eq_append] at *
    have hq := hmax q (by simp)
    have hrec := hg.prev l q rfl
    have hrun : BLOCK.run { gap.prevBlock with next := block.self, nextValid := true } = q :=
      hrec.run_eq
    have hb' : MaximalRun table (BLOCK.run { gap.prevBlock with next := block.self, nextValid := true }) := by
      rw [hrun]
      apply hq
    have hput := BLOCK.put_eq debug hb'
    rw [List.nodup_append] at hnd
    refine ⟨pdt, BLOCK.tagged { gap.prevBlock with next := block.self, nextValid := true } table,
      { block with prev := gap.prevBlock.self, prevValid := true }, ?_,
      BLOCK.tagged_sameMap _ _, rfl, rfl, ?_, rfl, rfl, rfl, by simp, ?_, ?_, ?_⟩
    · have hpos := hq.pos
      have hle := hl₁ q (by simp)
      rw [linkPrev, if_pos (by rw [hrec.size_eq]; omega),
        assert_eq_ok (fun _ => by rw [hrec.size_eq]; exact hle)]
      simp only [Except.ok_bind] at hput ⊢
      rw [hput]
      rfl
    · intro x hx
      apply hhead
      simpa using hx
    · intro x hx
      obtain rfl : q = x := by simpa using hx
      apply hrec.self_eq
    · have hn : ∀ x ∈ some block.run, block.self = x.self ∧ x.self < 0x200 := by
        rintro x ⟨⟩
        exact ⟨rfl, hr.self_lt⟩
      apply linked_setNext hlk₁ (fun x hx => hmax x (by simp at hx ⊢; tauto)) hnd.1
        (by simp) (by simpa using hrec) hrec.run_eq rfl hn
    · apply linked_tagged hlk₂ (fun x hx => hmax x (by simp [hx])) hb'
      rw [hrun]
      intro hmem
      apply hnd.2.2 q (by simp) q hmem rfl

/-- Linking a block into a gap that has the place of its size. -/
theorem insertAt_eq (h : FreeChain debug pdt table (l₁ ++ l₂)) (hg : GapAt l₁ l₂ gap)
    (hr : MaximalRun table block.run) (hnew : block.run ∉ l₁ ++ l₂)
    (hl₁ : ∀ x ∈ l₁, x.size ≤ block.size) (hl₂ : ∀ x ∈ l₂, block.size ≤ x.size) :
  ∃ pdt' table', insertAt debug pdt table block gap = .ok (pdt', table') ∧
    FreeChain debug pdt' table' (l₁ ++ block.run :: l₂) ∧ SameMap table table' ∧
    pdt'.unlisted = pdt.unlisted
  := by
  obtain ⟨pdt₁, table₁, b₁, hnext, hs₁, hu₁, hhead₁, hremain₁, hrun₁, hnv₁, hn₁, hlk₁, hlk₁'⟩ :=
    h.linkNext_eq hg hr hl₂
  have hmax₁ : ∀ x ∈ l₁ ++ l₂, MaximalRun table₁ x := fun x hx => (h.maximal x hx).sameMap hs₁
  have hr₁ := hr.sameMap hs₁
  rw [← hrun₁] at hr₁ hlk₁'
  have hsize₁ : b₁.size = block.size := congrArg Run.size hrun₁
  obtain ⟨pdt₂, table₂, b₂, hprev, hs₂, hu₂, hremain₂, hhead₂, hrun₂, hnv₂, hn₂, hpv₂, hp₂, hlk₂,
      hlk₂'⟩ :=
    linkPrev_eq hmax₁ h.nodup hg (show ∀ x ∈ (l₁ ++ l₂).head?, pdt₁.head = x.self by
      rw [hhead₁]; exact h.head) hlk₁ hlk₁' hr₁ (by rw [hsize₁]; exact hl₁)
  rw [hrun₁] at hrun₂ hhead₂ hlk₂ hlk₂'
  have hs := hs₁.trans hs₂
  have hmax₂ : ∀ x ∈ l₁ ++ l₂, MaximalRun table₂ x := fun x hx => (h.maximal x hx).sameMap hs
  have hr₂ : MaximalRun table₂ b₂.run := by
    rw [hrun₂]
    apply hr.sameMap hs
  have hput := BLOCK.put_eq debug hr₂
  have hs₃ := BLOCK.tagged_sameMap b₂ table₂
  refine ⟨pdt₂, b₂.tagged table₂, ?_, ?_, hs.trans hs₃, hu₂.trans hu₁⟩
  · rw [insertAt, hnext]
    simp only [Except.ok_bind]
    rw [hprev]
    simp only [Except.ok_bind]
    rw [hput]
    rfl
  · have hmem : ∀ x, x ∈ l₁ ++ block.run :: l₂ → x = block.run ∨ x ∈ l₁ ++ l₂ := by
      intro x hx
      simp only [List.mem_append, List.mem_cons] at hx ⊢
      tauto
    constructor
    · intro x hx
      rcases hmem x hx with rfl | hx
      · apply (hr.sameMap hs).sameMap hs₃
      · apply (hmax₂ x hx).sameMap hs₃
    · rw [List.nodup_middle, List.nodup_cons]
      exact ⟨hnew, h.nodup⟩
    · have hsorted := List.pairwise_append.mp h.sorted
      rw [List.pairwise_append, List.pairwise_cons]
      refine ⟨hsorted.1, ⟨hl₂, hsorted.2.1⟩, ?_⟩
      rintro x hx y (_ | ⟨_, hy⟩)
      · apply hl₁ x hx
      · apply hsorted.2.2 x hx y hy
    · rw [Linked.append_iff]
      have hout : ∀ {m : List Run}, (∀ x ∈ m, x ∈ l₁ ++ l₂) → b₂.run ∉ m := by
        intro m hm hin
        apply hnew
        rw [← hrun₂]
        apply hm _ hin
      refine ⟨?_, ?_, ?_⟩
      · apply linked_tagged (by simpa using hlk₂) (fun x hx => hmax₂ x (by simp [hx])) hr₂
        apply hout
        intro x hx
        simp [hx]
      · rw [← hrun₂]
        apply BLOCK.records_tagged debug hr₂
        · rw [hnv₂, hnv₁]
          simp
        · intro x hx
          rw [Option.or_none] at hx
          constructor
          · rw [hn₂, hn₁ x hx]
          · apply (hmax₂ x (by simp [List.mem_of_head? hx])).self_lt
        · intro _
          rw [hpv₂]
          simp
        · intro _ x hx
          rw [Option.or_none] at hx
          constructor
          · apply hp₂ x hx
          · apply (hmax₂ x (by simp [List.mem_of_getLast? hx])).self_lt
      · apply linked_tagged hlk₂' (fun x hx => hmax₂ x (by simp [hx])) hr₂
        apply hout
        intro x hx
        simp [hx]
    · apply hhead₂
    · rw [hremain₂, hremain₁]

/-- The search ends at the place of the block, wherever it starts. -/
theorem findGap_eq (h : FreeChain debug pdt table (l₁ ++ l₂)) (hg : GapAt l₁ l₂ gap)
    (hpos : 0 < block.size) :
  ∃ gap' m₁ m₂, findGap debug table block gap = .ok gap' ∧ GapAt m₁ m₂ gap' ∧
    m₁ ++ m₂ = l₁ ++ l₂ ∧ (∀ x ∈ m₁, x.size ≤ block.size) ∧ ∀ x ∈ m₂, block.size ≤ x.size
  := by
  have hlen := h.length_le
  rw [List.length_append] at hlen
  rw [findGap]
  by_cases hc : gap.prevBlock.size ≠ 0 ∧ gap.prevBlock.size > block.size
  · rw [if_pos hc]
    apply h.shiftLeft_eq hg hpos _ (by omega)
    intro x hx
    rcases List.eq_nil_or_concat l₁ with rfl | ⟨l, q, rfl⟩
    · apply absurd (hg.prev_nil rfl) hc.1
    · rw [List.concat_eq_append] at *
      have hq := (hg.prev l q rfl).size_eq
      have := (List.pairwise_append.mp h.sorted).2.2 q (by simp) x hx
      lia
  · rw [if_neg hc]
    apply h.shiftRight_eq hg _ (by omega)
    intro x hx
    rcases List.eq_nil_or_concat l₁ with rfl | ⟨l, q, rfl⟩
    · cases hx
    · rw [List.concat_eq_append] at *
      have hq := (hg.prev l q rfl).size_eq
      have hqpos := (h.maximal q (by simp)).pos
      have := size_le_lastSize (List.pairwise_append.mp h.sorted).1 hx
      rw [lastSize_concat] at this
      lia

/-- A block without links is given the link to the head of the list, so that the links of
every block to be inserted are those of a seam. -/
theorem hinted_head (h : FreeChain debug pdt table (l₁ ++ l₂))
    (hb : Hinted l₁ l₂ block ∨ block.prevValid = false ∧ block.nextValid = false) :
  ∃ b k₁ k₂,
    (if block.prevValid = false ∧ block.nextValid = false ∧ getMaxSize pdt ≠ 0 then
      { block with next := pdt.head, nextValid := true } else block) = b ∧
    k₁ ++ k₂ = l₁ ++ l₂ ∧ Hinted k₁ k₂ b ∧ b.run = block.run
  := by
  have hzero := h.getMaxSize_eq_zero_iff
  by_cases hc : block.prevValid = false ∧ block.nextValid = false ∧ getMaxSize pdt ≠ 0
  · refine ⟨_, [], l₁ ++ l₂, if_pos hc, rfl, ?_, rfl⟩
    constructor
    · cases hl : l₁ ++ l₂ with
      | nil => apply absurd (hzero.mpr hl) hc.2.2
      | cons x l => rfl
    · intro x hx
      apply h.head x hx
    · apply hc.1
    · simp
  · rw [if_neg hc]
    rcases hb with hb | ⟨hpv, hnv⟩
    · exact ⟨block, l₁, l₂, rfl, rfl, hb, rfl⟩
    · have hnil : l₁ ++ l₂ = [] := by
        rw [← hzero]
        tauto
      refine ⟨block, [], [], rfl, by simp [hnil], ?_, rfl⟩
      constructor
      · apply hnv
      · simp
      · apply hpv
      · simp

/-- `insert` puts a run in the list. The links of the block are those of a seam of the
list, or there are none. -/
theorem insert_eq (h : FreeChain debug pdt table (l₁ ++ l₂)) (hr : MaximalRun table block.run)
    (hnew : block.run ∉ l₁ ++ l₂)
    (hb : Hinted l₁ l₂ block ∨ block.prevValid = false ∧ block.nextValid = false) :
  ∃ pdt' table' m₁ m₂, insert debug pdt table block = .ok (pdt', table') ∧
    FreeChain debug pdt' table' (m₁ ++ block.run :: m₂) ∧ m₁ ++ m₂ = l₁ ++ l₂ ∧
    SameMap table table' ∧ pdt'.unlisted = pdt.unlisted
  := by
  have hpos : 0 < block.size := hr.pos
  obtain ⟨b, k₁, k₂, hb', hk, hhint, hrun⟩ := h.hinted_head hb
  have hsize : b.size = block.size := congrArg Run.size hrun
  rw [← hk] at h hnew ⊢
  obtain ⟨bp, hgetp, hbp, hbp₀⟩ := h.getLink_prev hhint
  obtain ⟨bn, hgetn, hbn, hbn₀⟩ := h.getLink_next hhint
  have hg : GapAt k₁ k₂ ⟨bp, bn⟩ := ⟨hbp, hbp₀, hbn, hbn₀⟩
  obtain ⟨gap, m₁, m₂, hfind, hgap, hm, hm₁, hm₂⟩ := h.findGap_eq hg (by rwa [hsize])
  rw [← hm] at h hnew
  rw [← hrun] at hr hnew
  obtain ⟨pdt', table', hins, hchain, hs, hu⟩ := h.insertAt_eq hgap hr hnew hm₁ hm₂
  refine ⟨pdt', table', m₁, m₂, ?_, by rwa [← hrun], hm, hs, hu⟩
  rw [insert, if_neg (by omega)]
  simp only [hb', hgetp, hgetn, Except.ok_bind]
  rw [hfind, Except.ok_bind, hins]

end FreeChain

end UOS
