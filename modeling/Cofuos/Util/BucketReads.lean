import Cofuos.Util.Iteration

/-!
# The buckets that an iterator reads

An iterator of a `hash_set` whose list has come to its end is moved to the next bucket, and the head
of the list of that bucket is read, until there is a node or there are no more buckets. The head is
read before the number of the bucket is compared with the end of the array. A step that arrives at
the end has read the memory behind the array as if it were a bucket. What it has found there is in
the iterator, but nothing looks at it: iterators at the end are equal whatever their nodes are.

The operations of iterators are given here with the numbers of the buckets that they read, in order.
The definitions follow `iterator_base`, `begin`, `find` and `erase` of `util/include/hash_set.hpp`.
-/

namespace UOS

namespace HashedSet

variable {α κ ι : Type}

/-! ### Operations -/

/-- The first node of a list. -/
def headOf (c : List (ℕ × Node α)) : Option ℕ := c.head?.map fun e => e.2.addr

/-- `operator==`. The nodes of iterators at the end are not compared. -/
def same (s : HashedSet α κ) (it it' : Iterator) : Bool :=
  it.bucket == it'.bucket && (it.bucket == s.bucketCount || it.chain == it'.chain)

/-- `bucket->begin()`, where `junk` is what lies behind the buckets. -/
def load (s : HashedSet α κ) (junk : ℕ → Option ℕ) (b : ℕ) : Option ℕ :=
  if b < s.bucketCount then headOf (s.chainAt b) else junk b

/-- The loop of the constructor of `iterator_base` and of `operator++`, before so many more buckets.
Returns the buckets that it reads as well. -/
def skip (s : HashedSet α κ) (junk : ℕ → Option ℕ) : ℕ → Iterator → List ℕ × Iterator
  | 0, it => ([], it)
  | n + 1, it => match it.chain with
      | some _ => ([], it)
      | none =>
          let r := skip s junk n ⟨it.bucket + 1, s.load junk (it.bucket + 1)⟩
          ((it.bucket + 1) :: r.1, r.2)

/-- The constructor of `iterator_base`. -/
def iteratorAt (s : HashedSet α κ) (junk : ℕ → Option ℕ) (b : ℕ) (chain : Option ℕ) :
    List ℕ × Iterator :=
  s.skip junk (s.bucketCount - b) ⟨b, chain⟩

/-- `begin` -/
def beginAt (s : HashedSet α κ) (junk : ℕ → Option ℕ) : List ℕ × Iterator :=
  let r := s.iteratorAt junk 0 (s.load junk 0)
  (0 :: r.1, r.2)

/-- `operator++` -/
def advance (debug : Bool) (s : HashedSet α κ) (junk : ℕ → Option ℕ) (it : Iterator) :
    Except Fault (List ℕ × Iterator) := do
  if it.bucket = s.bucketCount then .error (.bugcheck "iterator move past the end @ %p")
  else
    Fault.assert debug (it.chain ≠ none)
    match it.chain with
    | none => .error (.bugcheck "iterator move past the end @ %p")
    | some a => .ok (s.iteratorAt junk it.bucket (headOf (after (s.chainAt it.bucket) a)))

/-- `find`, which reads the bucket of the hash of the key. -/
def findAt (debug : Bool) (s : HashedSet α κ) (k : κ) : Except Fault (List ℕ × Iterator) := do
  let it ← find debug s k
  .ok ([s.obj.hashKey k % s.bucketCount], it)

/-- `erase` -/
def eraseAt (debug : Bool) (s : HashedSet α κ) (junk : ℕ → Option ℕ) (pos : Iterator) :
    Except Fault (List ℕ × Iterator × HashedSet α κ) := do
  if s.same pos s.end then .error (.bugcheck "invalid iterator %p for erase @ %p")
  else
    Fault.assert debug (pos.chain ≠ none)
    Fault.assert debug (s.size ≠ 0)
    match pos.chain with
    | none => .error (.bugcheck "invalid iterator %p for erase @ %p")
    | some a => do
        let (_, s') ← erase s pos
        let r := s'.iteratorAt junk pos.bucket (headOf (after (s.chainAt pos.bucket) a))
        .ok (pos.bucket :: r.1, r.2, s')

/-- The element at an iterator, with its node. -/
def elementAt (s : HashedSet α κ) (it : Iterator) : Option (Node α) :=
  match it.chain, s.deref it with
  | some a, some p => some ⟨a, p⟩
  | _, _ => none

/-- A loop over the elements from an iterator to the end. Returns the elements that it visits, and
the buckets that it reads. -/
def visit (debug : Bool) (s : HashedSet α κ) (junk : ℕ → Option ℕ) :
    ℕ → Iterator → Except Fault (List (Node α) × List ℕ)
  | 0, _ => .error .outOfFuel
  | n + 1, it =>
      if s.same it s.end then .ok ([], [])
      else match s.elementAt it with
        | none => .error (.bugcheck "deref empty iterator @ %p")
        | some e => do
            let (reads, it') ← s.advance debug junk it
            let (es, rest) ← visit debug s junk n it'
            .ok (e :: es, reads ++ rest)

/-- A loop over all elements. -/
def visitAll (debug : Bool) (s : HashedSet α κ) (junk : ℕ → Option ℕ) (n : ℕ) :
    Except Fault (List (Node α) × List ℕ) := do
  let (es, reads) ← s.visit debug junk n (s.beginAt junk).2
  .ok (es, (s.beginAt junk).1 ++ reads)

/-! ### What a client relies on -/

/-- The buckets that are read are all there. -/
def InRange (s : HashedSet α κ) (reads : List ℕ) : Prop := ∀ i ∈ reads, i < s.bucketCount

/-- The elements in the order of the buckets. -/
def nodes (s : HashedSet α κ) : List (Node α) := s.table.entries.map Prod.snd

/-- A loop visits every element exactly once, `find` goes on in the same order, `erase` returns the
position of the element that followed, and all that is read meets a condition. -/
structure Iterates (debug : Bool) (s : HashedSet α κ) (junk : ℕ → Option ℕ)
    (P : List ℕ → Prop) : Prop where
  all : ∃ n reads, s.visitAll debug junk n = .ok (s.nodes, reads) ∧ P reads
  find : ∀ k reads it, s.findAt debug k = .ok (reads, it) → s.same it s.end = false →
    ∃ l₁ e l₂ n reads', s.nodes = l₁ ++ e :: l₂ ∧ it = s.position e ∧
      s.visit debug junk n it = .ok (e :: l₂, reads') ∧ P (reads ++ reads')
  erase : ∀ l₁ e l₂, s.nodes = l₁ ++ e :: l₂ →
    ∃ reads it s' n reads', s.eraseAt debug junk (s.position e) = .ok (reads, it, s') ∧
      s'.nodes = l₁ ++ l₂ ∧ s'.visit debug junk n it = .ok (l₂, reads') ∧ P (reads ++ reads')

variable {debug : Bool} {s s' : HashedSet α κ} {b : Bag α κ} {it it' it₀ : Iterator}
  {junk : ℕ → Option ℕ} {n i : ℕ} {rest : List (ℕ × Node α)} {reads : List ℕ} {es : List (Node α)}

/-! ### What is read -/

/-- The loop reads the buckets up to the one at which it stops. -/
theorem skip_reads (s : HashedSet α κ) (junk : ℕ → Option ℕ) (n : ℕ) (it : Iterator) :
  ∃ m ≤ n, (s.skip junk n it).2.bucket = it.bucket + m ∧
    (s.skip junk n it).1 = List.range' (it.bucket + 1) m
  := by
  induction n generalizing it with
  | zero => exact ⟨0, le_rfl, rfl, rfl⟩
  | succ n ih =>
      rw [skip]
      cases it.chain with
      | some a => exact ⟨0, Nat.zero_le _, rfl, rfl⟩
      | none =>
          obtain ⟨m, hm, hbucket, hreads⟩ := ih ⟨it.bucket + 1, s.load junk (it.bucket + 1)⟩
          refine ⟨m + 1, by lia, ?_, ?_⟩
          · rw [hbucket, Nat.add_assoc, Nat.add_comm 1]
          · dsimp only
            rw [hreads, List.range'_succ]

variable (junk) in
theorem iteratorAt_reads (hb : i ≤ s.bucketCount) (chain : Option ℕ) :
  ∃ m, (s.iteratorAt junk i chain).2.bucket = i + m ∧ i + m ≤ s.bucketCount ∧
    (s.iteratorAt junk i chain).1 = List.range' (i + 1) m
  := by
  obtain ⟨m, hm, hbucket, hreads⟩ := skip_reads s junk (s.bucketCount - i) ⟨i, chain⟩
  exact ⟨m, hbucket, by lia, hreads⟩

theorem same_end_iff : s.same it s.end = true ↔ it.bucket = s.bucketCount := by
  rw [same, HashedSet.end, Bool.and_eq_true, beq_iff_eq, Bool.or_eq_true, beq_iff_eq]
  exact ⟨fun h => h.1, fun h => ⟨h, .inl h⟩⟩

/-- A step from a position within the set stays within it, and reads the buckets up to the one at
which it stops. -/
theorem advance_reads (hit : it.bucket ≤ s.bucketCount)
    (h : s.advance debug junk it = .ok (reads, it')) :
  ∃ m, it'.bucket = it.bucket + m ∧ it.bucket + m ≤ s.bucketCount ∧
    reads = List.range' (it.bucket + 1) m
  := by
  rw [advance] at h
  split_ifs at h with hend
  obtain ⟨-, -, h⟩ := Except.bind_eq_ok_iff.1 h
  cases hchain : it.chain with
  | none =>
      rw [hchain] at h
      cases h
  | some a =>
      rw [hchain] at h
      obtain ⟨m, hbucket, hle, hreads⟩ := iteratorAt_reads junk hit
        (headOf (after (s.chainAt it.bucket) a))
      rw [Except.ok.inj h] at hbucket hreads
      exact ⟨m, hbucket, hle, hreads⟩

/-- A step reads what lies behind the buckets exactly if it arrives at the end. -/
theorem advance_inRange_iff (hit : it.bucket ≤ s.bucketCount)
    (h : s.advance debug junk it = .ok (reads, it')) :
  s.InRange reads ↔ s.same it' s.end = false
  := by
  have hne : it.bucket ≠ s.bucketCount := by
    intro heq
    rw [advance, if_pos heq] at h
    cases h
  obtain ⟨m, hbucket, hle, rfl⟩ := advance_reads hit h
  rw [← Bool.not_eq_true, same_end_iff, hbucket]
  constructor
  · intro hrange heq
    have hlt := hrange s.bucketCount (List.mem_range'_1.2 (by lia))
    exact lt_irrefl _ hlt
  · intro hlt i hi
    rw [List.mem_range'_1] at hi
    lia

/-- A loop that comes to the end has read all buckets after the one at which it starts, and what lies
behind them. -/
theorem visit_reads (hit : it.bucket ≤ s.bucketCount)
    (h : s.visit debug junk n it = .ok (es, reads)) :
  reads = List.range' (it.bucket + 1) (s.bucketCount - it.bucket)
  := by
  induction n generalizing it es reads with
  | zero => cases h
  | succ n ih =>
      rw [visit] at h
      split_ifs at h with hend
      · rw [same_end_iff.1 hend, Nat.sub_self]
        cases h
        rfl
      · cases helem : s.elementAt it with
        | none =>
            rw [helem] at h
            cases h
        | some e =>
            rw [helem] at h
            obtain ⟨⟨reads₁, it₁⟩, hadvance, h⟩ := Except.bind_eq_ok_iff.1 h
            obtain ⟨⟨es₂, reads₂⟩, hvisit, h⟩ := Except.bind_eq_ok_iff.1 h
            obtain ⟨m, hbucket, hle, hreads⟩ := advance_reads hit hadvance
            have hrest := ih (by lia) hvisit
            cases h
            rw [hreads, hrest, hbucket, show it.bucket + m + 1 = it.bucket + 1 + m by omega,
              List.range'_append_1]
            congr 1
            lia

/-- A loop over all elements reads all buckets, and what lies behind them. -/
theorem visitAll_reads (h : s.visitAll debug junk n = .ok (es, reads)) :
  reads = List.range (s.bucketCount + 1)
  := by
  obtain ⟨⟨es', reads'⟩, hvisit, h⟩ := Except.bind_eq_ok_iff.1 h
  obtain ⟨m, hbucket, hle, hreads⟩ := iteratorAt_reads junk (Nat.zero_le s.bucketCount)
    (s.load junk 0)
  have hbegin : (s.beginAt junk).2.bucket = m := by
    rw [← Nat.zero_add m]
    exact hbucket
  have hrest := visit_reads (by omega) hvisit
  cases h
  rw [List.range_eq_range', List.range'_succ, beginAt, hrest, hbegin]
  change 0 :: ((s.iteratorAt junk 0 (s.load junk 0)).1 ++ _) = _
  rw [hreads, Nat.add_comm m 1, Nat.zero_add, List.range'_append_1]
  congr 2
  lia

/-- No set is iterated over without reading what lies behind the buckets. -/
theorem not_iterates (debug : Bool) (s : HashedSet α κ) (junk : ℕ → Option ℕ) :
  ¬ s.Iterates debug junk s.InRange
  := by
  intro h
  obtain ⟨n, reads, hvisit, hrange⟩ := h.all
  rw [visitAll_reads hvisit] at hrange
  exact lt_irrefl _ (hrange s.bucketCount (List.mem_range.2 (Nat.lt_succ_self _)))

/-! ### What is visited -/

variable (junk) in
/-- Moving on from a bucket whose head has been read arrives at the first node. -/
theorem skip_first (h : i + n = s.bucketCount) :
  s.same (s.skip junk n ⟨i, s.load junk i⟩).2 (first (s.table.bucket.drop i) i) = true
  := by
  induction n generalizing i with
  | zero =>
      have hlen : s.table.bucket.drop i = [] := by
        apply List.drop_eq_nil_of_le
        exact h.ge
      rw [hlen, same]
      change (i == i && (i + 0 == s.bucketCount || _)) = true
      rw [beq_self_eq_true, beq_iff_eq.2 h]
      rfl
  | succ n ih =>
      have hlt : i < s.bucketCount := by omega
      have hdrop : s.table.bucket.drop i = s.chainAt i :: s.table.bucket.drop (i + 1) := by
        rw [chainAt, List.getElem?_eq_getElem hlt]
        exact List.drop_eq_getElem_cons hlt
      rw [load, if_pos hlt, hdrop]
      cases hchain : s.chainAt i with
      | nil => exact ih (show i + 1 + n = s.bucketCount by lia)
      | cons e c =>
          change s.same ⟨i, some e.2.addr⟩ ⟨i, some e.2.addr⟩ = true
          rw [same, beq_self_eq_true, beq_self_eq_true, Bool.or_true]
          rfl

variable (junk) in
/-- Moving on within a bucket arrives where the iteration goes on. -/
theorem iteratorAt_settle (h : i < s.bucketCount) (c : List (ℕ × Node α)) :
  s.same (s.iteratorAt junk i (headOf c)).2 (s.settle i c) = true
  := by
  obtain ⟨n, hn⟩ : ∃ n, s.bucketCount - i = n + 1 := ⟨s.bucketCount - i - 1, by lia⟩
  rw [iteratorAt, hn]
  cases c with
  | nil => exact skip_first junk (show i + 1 + n = s.bucketCount by lia)
  | cons e c =>
      change s.same ⟨i, some e.2.addr⟩ ⟨i, some e.2.addr⟩ = true
      rw [same, beq_self_eq_true, beq_self_eq_true, Bool.or_true]
      rfl

/-- A position that is not the end has the node of any position that is equal to it. -/
theorem eq_of_same (h : s.same it it₀ = true) (hne : it₀.bucket ≠ s.bucketCount) : it = it₀ := by
  rw [same, Bool.and_eq_true, beq_iff_eq, Bool.or_eq_true, beq_iff_eq, beq_iff_eq] at h
  obtain ⟨hbucket, hend | hchain⟩ := h
  · exact absurd (hbucket.symm.trans hend) hne
  · cases it
    cases it₀
    cases hbucket
    cases hchain
    rfl

/-- Where a part of a list of lists begins. -/
theorem exists_flatten_eq {β : Type} {L : List (List β)} {l₁ l₂ : List β} {e : β}
    (h : L.flatten = l₁ ++ e :: l₂) :
  ∃ a₁ c₁ c₂ a₂, L = a₁ ++ (c₁ ++ e :: c₂) :: a₂ ∧ l₁ = a₁.flatten ++ c₁ ∧ l₂ = c₂ ++ a₂.flatten
  := by
  induction L generalizing l₁ with
  | nil =>
      rw [List.flatten_nil] at h
      exact absurd h.symm (List.append_ne_nil_of_right_ne_nil _ (List.cons_ne_nil _ _))
  | cons c L ih =>
      rw [List.flatten_cons] at h
      rcases List.append_eq_append_iff.1 h with ⟨l, rfl, hrest⟩ | ⟨l, rfl, hrest⟩
      · obtain ⟨a₁, c₁, c₂, a₂, rfl, rfl, rfl⟩ := ih hrest
        exact ⟨c :: a₁, c₁, c₂, a₂, rfl, by rw [List.flatten_cons, List.append_assoc], rfl⟩
      · cases l with
        | nil =>
            have hflat : L.flatten = [] ++ e :: l₂ := hrest.symm
            obtain ⟨a₁, c₁, c₂, a₂, rfl, hnil, rfl⟩ := ih hflat
            refine ⟨(l₁ ++ []) :: a₁, c₁, c₂, a₂, rfl, ?_, rfl⟩
            rw [List.flatten_cons, List.append_nil, List.append_assoc, ← hnil, List.append_nil]
        | cons e' l =>
            obtain ⟨rfl, rfl⟩ := List.cons.inj hrest
            exact ⟨[], l₁, l, L, rfl, rfl, rfl⟩

namespace Holds

variable (h : Holds s b)

include h

/-- The element that an iterator stands before. -/
theorem elementAt_before {e : ℕ × Node α} (hb : Before s.table.bucket it (e :: rest)) :
  s.elementAt it = some e.2
  := by
  have hderef := h.deref_before hb
  cases hb with
  | node l₁ l₂ c₁ c₂ _ hb =>
      rw [elementAt]
      dsimp only
      rw [hderef]

/-- `operator++` goes on to where the next element is. -/
theorem advance_before {e : ℕ × Node α} (debug : Bool) (junk : ℕ → Option ℕ)
    (hb : Before s.table.bucket it (e :: rest)) :
  ∃ reads it' it₀, s.advance debug junk it = .ok (reads, it') ∧
    Before s.table.bucket it₀ rest ∧ s.same it' it₀ = true
  := by
  have hne : it.bucket ≠ s.bucketCount := by
    intro hend
    cases hb.eq_end_iff.1 hend
  cases hb with
  | node l₁ l₂ c₁ c₂ _ hb =>
      have hlt : l₁.length < s.bucketCount := by
        rw [bucketCount, hb, List.length_append, List.length_cons]
        omega
      refine ⟨(s.iteratorAt junk l₁.length (headOf c₂)).1,
        (s.iteratorAt junk l₁.length (headOf c₂)).2, s.settle l₁.length c₂, ?_, ?_,
        iteratorAt_settle junk hlt c₂⟩
      · rw [advance, if_neg hne, Fault.assert_eq_ok fun _ => Option.some_ne_none _, Except.ok_bind]
        dsimp only
        rw [h.after_eq hb]
      · apply before_settle (c₁ ++ [e]) c₂
        rw [hb, List.append_assoc]
        rfl

/-- A loop visits what the iterator stands before. -/
theorem visit_before (debug : Bool) (junk : ℕ → Option ℕ)
    (hb : Before s.table.bucket it₀ rest) (hsame : s.same it it₀ = true) (hn : rest.length < n) :
  ∃ reads, s.visit debug junk n it = .ok (rest.map Prod.snd, reads)
  := by
  induction rest generalizing it it₀ n with
  | nil =>
      obtain ⟨n, rfl⟩ : ∃ m, n = m + 1 := ⟨n - 1, by lia⟩
      have hend : s.same it s.end = true := by
        rw [same_end_iff, ← hb.eq_end_iff.2 rfl]
        rw [same, Bool.and_eq_true, beq_iff_eq] at hsame
        exact hsame.1
      exact ⟨[], by rw [visit, if_pos hend]; rfl⟩
  | cons e rest ih =>
      obtain ⟨n, rfl⟩ : ∃ m, n = m + 1 := ⟨n - 1, by lia⟩
      have hne : it₀.bucket ≠ s.bucketCount := by
        intro hend
        cases hb.eq_end_iff.1 hend
      obtain rfl := eq_of_same hsame hne
      obtain ⟨reads, it', it₁, hadvance, hb', hsame'⟩ := h.advance_before debug junk hb
      obtain ⟨reads', hvisit⟩ := ih hb' hsame' (Nat.lt_of_succ_lt_succ hn)
      refine ⟨reads ++ reads', ?_⟩
      rw [visit, if_neg fun hend => hne (same_end_iff.1 hend), h.elementAt_before hb]
      dsimp only
      rw [hadvance, Except.ok_bind]
      dsimp only
      rw [hvisit]
      rfl

/-- A loop over all elements visits them in the order of the buckets. -/
theorem visitAll_eq (debug : Bool) (junk : ℕ → Option ℕ) :
  ∃ n, s.visitAll debug junk n = .ok (s.nodes, List.range (s.bucketCount + 1))
  := by
  have hsame : s.same (s.beginAt junk).2 s.begin = true := by
    have hfirst := skip_first junk (Nat.zero_add s.bucketCount)
    rw [List.drop_zero] at hfirst
    exact hfirst
  obtain ⟨reads, hvisit⟩ := h.visit_before debug junk s.before_begin hsame (Nat.lt_succ_self _)
  have hall : s.visitAll debug junk (s.table.entries.length + 1) =
      .ok (s.nodes, (s.beginAt junk).1 ++ reads) := by
    rw [visitAll, hvisit]
    rfl
  rw [← visitAll_reads hall]
  exact ⟨_, hall⟩

/-- Where an element lies in the buckets. -/
theorem exists_before {l₁ l₂ : List (Node α)} {e : Node α} (hnodes : s.nodes = l₁ ++ e :: l₂) :
  ∃ x rest, Before s.table.bucket (s.position e) ((x, e) :: rest) ∧ rest.map Prod.snd = l₂
  := by
  obtain ⟨c₁, c, hc, rfl, hmap⟩ := List.map_eq_append_iff.1 hnodes
  obtain ⟨⟨x, e'⟩, c₂, rfl, rfl, rfl⟩ := List.map_eq_cons_iff.1 hmap
  obtain ⟨a₁, d₁, d₂, a₂, hbucket, -, rfl⟩ := exists_flatten_eq hc
  refine ⟨x, d₂ ++ a₂.flatten, ?_, rfl⟩
  rw [(h.position_eq hbucket).1]
  exact .node a₁ a₂ d₁ d₂ (x, e') hbucket

/-- `erase` returns the position of the element that followed. -/
theorem eraseAt_eq (debug : Bool) (junk : ℕ → Option ℕ) {l₁ l₂ : List (Node α)} {e : Node α}
    (hnodes : s.nodes = l₁ ++ e :: l₂) :
  ∃ reads it s' n reads', s.eraseAt debug junk (s.position e) = .ok (reads, it, s') ∧
    s'.nodes = l₁ ++ l₂ ∧ s'.visit debug junk n it = .ok (l₂, reads')
  := by
  obtain ⟨c₁, c, hc, rfl, hmap⟩ := List.map_eq_append_iff.1 hnodes
  obtain ⟨⟨x, e'⟩, c₂, rfl, rfl, rfl⟩ := List.map_eq_cons_iff.1 hmap
  obtain ⟨a₁, d₁, d₂, a₂, hbucket, rfl, rfl⟩ := exists_flatten_eq hc
  obtain ⟨hposition, helem⟩ := h.position_eq hbucket
  obtain ⟨s', herase, hs', hbucket'⟩ := h.erase_bucket hbucket
  have hlt : a₁.length < s.bucketCount := by
    rw [bucketCount, hbucket, List.length_append, List.length_cons]
    omega
  have hlt' : a₁.length < s'.bucketCount := by
    rw [bucketCount, hbucket', List.length_append, List.length_cons]
    omega
  have hsize : s.size ≠ 0 := by
    rw [h.size_eq]
    exact (List.length_pos_of_mem helem).ne'
  have hend : ¬ s.same ⟨a₁.length, some e'.addr⟩ s.end = true := by
    intro heq
    exact hlt.ne (same_end_iff.1 heq)
  obtain ⟨reads, hvisit⟩ := hs'.visit_before debug junk (before_settle d₁ d₂ hbucket')
    (iteratorAt_settle junk hlt' d₂) (Nat.lt_succ_self _)
  refine ⟨a₁.length :: (s'.iteratorAt junk a₁.length (headOf d₂)).1,
    (s'.iteratorAt junk a₁.length (headOf d₂)).2, s', _, reads, ?_, ?_, hvisit⟩
  · rw [hposition, eraseAt, if_neg hend, Fault.assert_eq_ok fun _ => Option.some_ne_none _,
      Except.ok_bind, Fault.assert_eq_ok fun _ => hsize, Except.ok_bind]
    dsimp only
    rw [herase, Except.ok_bind]
    dsimp only
    rw [h.after_eq hbucket]
  · rw [nodes, HashSet.entries, hbucket', List.flatten_append, List.flatten_cons, ← List.map_append,
      List.append_assoc, List.append_assoc]

/-- A look-up goes on in the same order. -/
theorem findAt_eq (debug : Bool) (junk : ℕ → Option ℕ) (hlaw : b.obj.Lawful) {k : κ}
    (hfind : s.findAt debug k = .ok (reads, it)) (hne : s.same it s.end = false) :
  ∃ l₁ e l₂ n reads', s.nodes = l₁ ++ e :: l₂ ∧ it = s.position e ∧
    s.visit debug junk n it = .ok (e :: l₂, reads')
  := by
  rw [findAt, h.find_eq hlaw] at hfind
  cases hbag : b.find k with
  | none =>
      rw [hbag] at hfind
      cases hfind
      rw [same_end_iff.2 rfl] at hne
      cases hne
  | some e =>
      rw [hbag] at hfind
      cases hfind
      have hmem : e ∈ s.nodes := by
        rw [nodes, h.perm_elems.mem_iff]
        exact List.mem_of_find?_eq_some hbag
      obtain ⟨l₁, l₂, hnodes⟩ := List.append_of_mem hmem
      obtain ⟨x, rest, hbefore, rfl⟩ := h.exists_before hnodes
      have hsame : s.same (s.position e) (s.position e) = true := by
        rw [same, beq_self_eq_true, beq_self_eq_true, Bool.or_true]
        rfl
      obtain ⟨reads', hvisit⟩ := h.visit_before debug junk hbefore hsame (Nat.lt_succ_self _)
      exact ⟨l₁, e, _, _, reads', hnodes, rfl, hvisit⟩

/-- The order of an iteration is right, whatever is read. -/
theorem iterates (debug : Bool) (junk : ℕ → Option ℕ) (hlaw : b.obj.Lawful) :
  s.Iterates debug junk fun _ => True
  := by
  refine ⟨?_, ?_, ?_⟩
  · obtain ⟨n, hvisit⟩ := h.visitAll_eq debug junk
    exact ⟨n, _, hvisit, trivial⟩
  · intro k reads it hfind hne
    obtain ⟨l₁, e, l₂, n, reads', hnodes, heq, hvisit⟩ := h.findAt_eq debug junk hlaw hfind hne
    exact ⟨l₁, e, l₂, n, reads', hnodes, heq, hvisit, trivial⟩
  · intro l₁ e l₂ hnodes
    obtain ⟨reads, it, s', n, reads', herase, hnodes', hvisit⟩ := h.eraseAt_eq debug junk hnodes
    exact ⟨reads, it, s', n, reads', herase, hnodes', hvisit, trivial⟩

end Holds

/-! ### Runs -/

variable [DecidableEq ι]

/-- In every set that is reached, an iteration reads what lies behind the buckets, in the step that
arrives at the end and in no other. Where the counters suffice, it visits every element exactly once
nevertheless, and reads every bucket once before. -/
theorem reads_behind_buckets {fac : ι → ℕ} {obj : ι → Hashing α κ} (hfac : ∀ i, 0 < fac i)
    (hlaw : ∀ i, (obj i).Lawful) (debug : Bool) (ops : List (Op ι α)) (w : ι → HashedSet α κ)
    (hrun : run debug (fun i => construct (fac i) (obj i)) ops = .ok w) (i : ι)
    (junk : ℕ → Option ℕ) :
  ¬ (w i).Iterates debug junk (w i).InRange ∧
  (∀ it reads it', it.bucket ≤ (w i).bucketCount →
    (w i).advance debug junk it = .ok (reads, it') →
      ((w i).InRange reads ↔ (w i).same it' (w i).end = false)) ∧
  (Along debug (fun w op => op.Legal w ∧ op.Fits w) (fun i => construct (fac i) (obj i)) ops →
    (w i).Iterates debug junk (fun _ => True) ∧
    ∃ n, (w i).visitAll debug junk n = .ok ((w i).nodes, List.range ((w i).bucketCount + 1)))
  := by
  refine ⟨not_iterates debug _ junk, fun _ _ _ hit h => advance_inRange_iff hit h, ?_⟩
  intro halong
  have h := run_holds ops (fun i => holds_construct (hfac i)) halong hrun
  have hlawful : (Bag.run (fun i => ⟨[], obj i⟩) ops i).obj.Lawful := Bag.run_obj hlaw ops i
  exact ⟨(h i).iterates debug junk hlawful, (h i).visitAll_eq debug junk⟩

/-- A set that has grown twice, and from which one of two equal elements has been erased. -/
theorem reads_behind_grown :
  ∃ w, run true (fun _ : Unit => construct 1 sample) [.insert () 0x10 5, .insert () 0x20 5,
      .insert () 0x30 6, .erase () ⟨0, some 0x20⟩] = .ok w ∧
    (w ()).bucketCount = 4 ∧ ¬ (w ()).Iterates true (fun _ => none) (w ()).InRange ∧
    ∃ n, (w ()).visitAll true (fun _ => none) n = .ok ((w ()).nodes, List.range 5)
  := by
  have hrun : ∃ w, run true (fun _ : Unit => construct 1 sample) [.insert () 0x10 5,
      .insert () 0x20 5, .insert () 0x30 6, .erase () ⟨0, some 0x20⟩] = .ok w ∧
      (w ()).bucketCount = 4 := ⟨_, rfl, rfl⟩
  obtain ⟨w, hrun, hcount⟩ := hrun
  have halong : Along true (fun w op => op.Legal w ∧ op.Fits w) (fun _ : Unit => construct 1 sample)
      [.insert () 0x10 5, .insert () 0x20 5, .insert () 0x30 6, .erase () ⟨0, some 0x20⟩] := by
    have hfits : ∀ s : HashedSet ℕ ℕ, s.size = 0 ∨ s.size = 1 ∨ s.size = 2 → s.bucketCount ≠ 0 →
        ¬ s.Overflows := by
      intro s hsize hbuckets
      rw [Overflows]
      lia
    refine ⟨⟨by intro i; decide +revert, hfits _ (by decide) (by decide)⟩, ?_⟩
    intro w₁ h₁
    cases h₁
    refine ⟨⟨by intro i; decide +revert, hfits _ (by decide) (by decide)⟩, ?_⟩
    intro w₂ h₂
    cases h₂
    refine ⟨⟨by intro i; decide +revert, hfits _ (by decide) (by decide)⟩, ?_⟩
    intro w₃ h₃
    cases h₃
    exact ⟨⟨⟨(0, ⟨0x20, 5⟩), by decide, rfl⟩, trivial⟩, fun _ _ => trivial⟩
  obtain ⟨hbehind, -, hall⟩ := reads_behind_buckets (fun _ => Nat.one_pos) (fun _ => sample_lawful)
    true _ w hrun () fun _ => none
  obtain ⟨-, n, hvisit⟩ := hall halong
  rw [hcount] at hvisit
  exact ⟨w, hrun, hcount, hbehind, n, hvisit⟩

/-- An iteration over a set of sixteen buckets and no element reads a seventeenth bucket. -/
theorem begin_reads_behind :
  ∃ w, run true (fun _ : Unit => construct 16 sample) [] = .ok w ∧ (w ()).bucketCount = 16 ∧
    16 ∈ ((w ()).beginAt fun _ => none).1 ∧
    ¬ (w ()).Iterates true (fun _ => none) (w ()).InRange
  := ⟨_, rfl, rfl, by decide, not_iterates true _ _⟩

end HashedSet

end UOS
