import Mathlib.Tactic

/-!
# Hash sets with chains

The elements of a hash set are kept in buckets, each with its hash, and the bucket is found from
the hash. An element is looked up by a hash and a predicate. When there are as many elements as
buckets, the number of buckets is doubled.

The elements of a hash set, in whatever order, are those that have been inserted and not erased,
and a look-up finds one of them that has the hash and the predicate, if there is one.
-/

/-- The buckets of a hash set, and the number of its elements. -/
structure HashSet (α : Type) where
  bucket : List (List (ℕ × α))
  count : ℕ := 0

namespace HashSet

variable {α : Type}

/-- The set without elements. -/
def empty (fac : ℕ) : HashSet α where
  bucket := List.replicate fac []

/-- The bucket of a hash. -/
def chain (t : HashSet α) (hash : ℕ) : List (ℕ × α) :=
  (t.bucket[hash % t.bucket.length]?).getD []

/-- Replaces the bucket of a hash. -/
def setChain (t : HashSet α) (hash : ℕ) (c : List (ℕ × α)) : HashSet α :=
  { t with bucket := t.bucket.set (hash % t.bucket.length) c }

/-- Looks up an element that has the hash and the predicate. -/
def find (t : HashSet α) (hash : ℕ) (p : α → Bool) : Option α :=
  ((t.chain hash).find? fun e => e.1 = hash && p e.2).map Prod.snd

/-- Removes the element that is found. -/
def erase (t : HashSet α) (hash : ℕ) (p : α → Bool) : HashSet α :=
  { t.setChain hash ((t.chain hash).eraseP fun e => e.1 = hash && p e.2) with
    count := t.count - 1 }

/-- Moves an element to the end of its bucket. -/
def splice (t : HashSet α) (e : ℕ × α) : HashSet α :=
  { t.setChain e.1 (t.chain e.1 ++ [e]) with count := t.count + 1 }

/-- Moves all elements to new buckets. -/
def rehash (t : HashSet α) (fac : ℕ) : HashSet α := t.bucket.flatten.foldl splice (empty fac)

/-- Makes sure that there are more buckets than elements. -/
def grow (t : HashSet α) : HashSet α :=
  if t.bucket.length ≤ t.count then t.rehash (2 * t.count) else t

/-- Puts an element at the front of its bucket. -/
def putFront (t : HashSet α) (hash : ℕ) (a : α) : HashSet α :=
  { t.setChain hash ((hash, a) :: t.chain hash) with count := t.count + 1 }

/-- Inserts an element. -/
def insert (t : HashSet α) (hash : ℕ) (a : α) : HashSet α := t.grow.putFront hash a

/-- The elements, each with its hash. -/
def entries (t : HashSet α) : List (ℕ × α) := t.bucket.flatten

/-- There are buckets, and every element is in the bucket of its hash. -/
structure Valid (t : HashSet α) : Prop where
  pos : 0 < t.bucket.length
  placed : ∀ i c, t.bucket[i]? = some c → ∀ e ∈ c, e.1 % t.bucket.length = i
  count : t.count = t.entries.length

variable {t : HashSet α} {hash : ℕ} {p : α → Bool} {a : α} {c c' : List (ℕ × α)} {e : ℕ × α}

theorem valid_empty {fac : ℕ} (h : 0 < fac) : Valid (empty fac : HashSet α) := by
  constructor
  · rw [empty, List.length_replicate]
    apply h
  · intro i c hc e he
    rw [empty, List.getElem?_replicate] at hc
    split_ifs at hc
    cases hc
    cases he
  · rw [entries, empty, List.flatten_replicate_nil]
    rfl

@[simp]
theorem entries_empty {fac : ℕ} : (empty fac : HashSet α).entries = [] := by
  rw [entries, empty, List.flatten_replicate_nil]

namespace Valid

variable (h : t.Valid)

include h

/-- The buckets around the bucket of a hash. -/
theorem exists_bucket (hash : ℕ) :
  ∃ l₁ l₂, t.bucket = l₁ ++ t.chain hash :: l₂ ∧ l₁.length = hash % t.bucket.length
  := by
  have hlt : hash % t.bucket.length < t.bucket.length := Nat.mod_lt _ h.pos
  refine ⟨t.bucket.take (hash % t.bucket.length), t.bucket.drop (hash % t.bucket.length + 1), ?_, ?_⟩
  · rw [chain, List.getElem?_eq_getElem hlt, Option.getD_some, ← List.drop_eq_getElem_cons hlt,
      List.take_append_drop]
  · rw [List.length_take, Nat.min_eq_left hlt.le]

/-- Replacing the bucket of a hash replaces its elements. -/
theorem entries_setChain (hash : ℕ) (c : List (ℕ × α)) :
  ∃ l, (t.chain hash ++ l).Perm t.entries ∧ (c ++ l).Perm (t.setChain hash c).entries
  := by
  obtain ⟨l₁, l₂, hb, hlen⟩ := h.exists_bucket hash
  have hset : (t.setChain hash c).bucket = l₁ ++ c :: l₂ := by
    rw [setChain]
    dsimp only
    rw [← hlen]
    nth_rewrite 1 [hb]
    rw [List.set_append_right _ _ le_rfl, Nat.sub_self, List.set_cons_zero]
  refine ⟨l₁.flatten ++ l₂.flatten, ?_, ?_⟩
  · have hentries : t.entries = (l₁ ++ t.chain hash :: l₂).flatten := congrArg List.flatten hb
    rw [hentries, List.flatten_append, List.flatten_cons, ← List.append_assoc, ← List.append_assoc]
    apply (List.perm_append_comm).append_right
  · rw [entries, hset, List.flatten_append, List.flatten_cons, ← List.append_assoc,
      ← List.append_assoc]
    apply (List.perm_append_comm).append_right

/-- The elements of the bucket of a hash belong to it. -/
theorem mod_of_mem_chain (he : e ∈ t.chain hash) :
  e.1 % t.bucket.length = hash % t.bucket.length
  := by
  have hlt : hash % t.bucket.length < t.bucket.length := Nat.mod_lt _ h.pos
  apply h.placed _ (t.chain hash) _ _ he
  rw [chain, List.getElem?_eq_getElem hlt, Option.getD_some]

/-- The elements with a hash are those of its bucket. -/
theorem mem_chain_iff (he : e.1 = hash) : e ∈ t.chain hash ↔ e ∈ t.entries := by
  constructor
  · intro hmem
    obtain ⟨l₁, l₂, hb, -⟩ := h.exists_bucket hash
    rw [entries, hb, List.flatten_append, List.flatten_cons]
    apply List.mem_append_right _ (List.mem_append_left _ hmem)
  · intro hmem
    obtain ⟨c, hc, hec⟩ := List.mem_flatten.1 hmem
    obtain ⟨i, hi⟩ := List.mem_iff_getElem?.1 hc
    have hplace := h.placed i c hi e hec
    rw [chain, ← he, hplace, hi]
    apply hec

/-- A bucket may be replaced by elements that belong to it. -/
theorem setChain {n : ℕ} (hc : ∀ e ∈ c, e.1 % t.bucket.length = hash % t.bucket.length)
    (hn : n = (t.setChain hash c).entries.length) :
  Valid { t.setChain hash c with count := n }
  := by
  have hlen : (t.setChain hash c).bucket.length = t.bucket.length := List.length_set
  constructor
  · dsimp only
    rw [hlen]
    apply h.pos
  · intro i c' hc' e he
    dsimp only at hc' ⊢
    rw [hlen]
    rw [HashSet.setChain, List.getElem?_set] at hc'
    split_ifs at hc' with hi hlt
    · cases hc'
      rw [hc e he, hi]
    · apply h.placed i c' hc' e he
  · apply hn

/-- A look-up finds an element that has the hash and the predicate. -/
theorem find_some (hf : t.find hash p = some a) : (hash, a) ∈ t.entries ∧ p a = true := by
  rw [find, Option.map_eq_some_iff] at hf
  obtain ⟨e, he, rfl⟩ := hf
  have hp := List.find?_some he
  rw [Bool.and_eq_true, decide_eq_true_eq] at hp
  have hmem := (h.mem_chain_iff hp.1).1 (List.mem_of_find?_eq_some he)
  exact ⟨hp.1 ▸ hmem, hp.2⟩

/-- A look-up fails only if no element has the hash and the predicate. -/
theorem find_none (hf : t.find hash p = none) : ∀ a, (hash, a) ∈ t.entries → p a = false := by
  intro a ha
  rw [find, Option.map_eq_none_iff, List.find?_eq_none] at hf
  have := hf _ ((h.mem_chain_iff rfl).2 ha)
  simpa using this

/-- The element that is found is erased. -/
theorem erase (hf : t.find hash p = some a) :
  (t.erase hash p).Valid ∧ ((hash, a) :: (t.erase hash p).entries).Perm t.entries
  := by
  rw [find, Option.map_eq_some_iff] at hf
  obtain ⟨e, he, rfl⟩ := hf
  have hp := List.find?_some he
  have hp₁ := hp
  rw [Bool.and_eq_true, decide_eq_true_eq] at hp₁
  have heq : e = (hash, e.2) := by
    rw [← hp₁.1]
  obtain ⟨l, hl, hl'⟩ := h.entries_setChain hash
    ((t.chain hash).eraseP fun e => e.1 = hash && p e.2)
  have hchain : (t.chain hash).Perm (e :: (t.chain hash).eraseP fun e => e.1 = hash && p e.2) := by
    obtain ⟨-, as, bs, hsplit, hall⟩ := List.find?_eq_some_iff_append.1 he
    have hcons : (e :: bs).eraseP (fun e => e.1 = hash && p e.2) = bs :=
      List.eraseP_cons_of_pos hp
    rw [hsplit, List.eraseP_append_right, hcons]
    · apply List.perm_middle
    · intro b hb
      have hnot := hall b hb
      rw [Bool.not_eq_true'] at hnot
      rw [hnot]
      apply Bool.false_ne_true
  have hperm : (e :: (t.erase hash p).entries).Perm t.entries := by
    apply List.Perm.trans _ hl
    apply List.Perm.trans _ (hchain.symm.append_right l)
    apply hl'.symm.cons
  refine ⟨?_, heq ▸ hperm⟩
  apply h.setChain
  · intro e' he'
    apply h.mod_of_mem_chain (List.mem_of_mem_eraseP he')
  · rw [h.count, ← hperm.length_eq]
    rfl

/-- Moving an element to its bucket adds it to the elements. -/
theorem splice (e : ℕ × α) :
  (t.splice e).Valid ∧ (e :: t.entries).Perm (t.splice e).entries
  := by
  obtain ⟨l, hl, hl'⟩ := h.entries_setChain e.1 (t.chain e.1 ++ [e])
  have hperm : (e :: t.entries).Perm (t.splice e).entries := by
    apply List.Perm.trans _ hl'
    apply List.Perm.trans (hl.symm.cons e)
    rw [← List.cons_append]
    apply (List.perm_append_singleton _ _).symm.append_right
  refine ⟨?_, hperm⟩
  apply h.setChain
  · intro e' he'
    obtain he' | he' := List.mem_append.1 he'
    · apply h.mod_of_mem_chain he'
    · rw [List.mem_singleton.1 he']
  · rw [h.count, ← List.length_cons]
    apply hperm.length_eq

/-- Moving elements to their buckets adds them to the elements. -/
theorem foldl_splice (l : List (ℕ × α)) :
  (l.foldl HashSet.splice t).Valid ∧ (l ++ t.entries).Perm (l.foldl HashSet.splice t).entries
  := by
  induction l generalizing t with
  | nil => exact ⟨h, List.Perm.refl _⟩
  | cons e l ih =>
      obtain ⟨hv, hp⟩ := h.splice e
      obtain ⟨hv', hp'⟩ := ih hv
      refine ⟨hv', ?_⟩
      apply List.Perm.trans _ hp'
      apply List.Perm.trans _ (hp.append_left l)
      apply List.perm_middle.symm

/-- More buckets leave the elements as they are. -/
theorem grow : t.grow.Valid ∧ t.entries.Perm t.grow.entries := by
  rw [HashSet.grow]
  split_ifs with hle
  · have hpos : 0 < 2 * t.count := by
      have := h.pos
      lia
    obtain ⟨hv, hp⟩ := (valid_empty hpos).foldl_splice t.entries
    rw [entries_empty, List.append_nil] at hp
    exact ⟨hv, hp⟩
  · exact ⟨h, List.Perm.refl _⟩

/-- An element that is put into its bucket is added to the elements. -/
theorem putFront (hash : ℕ) (a : α) :
  (t.putFront hash a).Valid ∧ ((hash, a) :: t.entries).Perm (t.putFront hash a).entries
  := by
  obtain ⟨l, hl, hl'⟩ := h.entries_setChain hash ((hash, a) :: t.chain hash)
  have hperm : ((hash, a) :: t.entries).Perm (t.putFront hash a).entries := by
    apply List.Perm.trans _ hl'
    apply List.Perm.cons _ hl.symm
  refine ⟨?_, hperm⟩
  apply h.setChain
  · intro e he
    obtain rfl | he := List.mem_cons.1 he
    · rfl
    · apply h.mod_of_mem_chain he
  · rw [h.count, ← List.length_cons]
    apply hperm.length_eq

/-- An element is inserted. -/
theorem insert (hash : ℕ) (a : α) :
  (t.insert hash a).Valid ∧ ((hash, a) :: t.entries).Perm (t.insert hash a).entries
  := by
  obtain ⟨hv, hp⟩ := h.grow
  obtain ⟨hv', hp'⟩ := hv.putFront hash a
  exact ⟨hv', (hp.cons _).trans hp'⟩

end Valid

/-- The number of buckets after all elements have been moved. -/
theorem length_rehash (t : HashSet α) (fac : ℕ) : (t.rehash fac).bucket.length = fac := by
  have hfold (l : List (ℕ × α)) (t : HashSet α) :
      (l.foldl splice t).bucket.length = t.bucket.length := by
    induction l generalizing t with
    | nil => rfl
    | cons e l ih =>
        rw [List.foldl_cons, ih]
        apply List.length_set
  rw [rehash, hfold, empty, List.length_replicate]

/-! ### The order of elements with one hash -/

/-- The elements with a hash, in their order. -/
def view (t : HashSet α) (hash : ℕ) : List (ℕ × α) :=
  (t.chain hash).filter fun e => e.1 = hash

/-- Two lists that have the same elements with every hash have the same elements. -/
theorem perm_of_filter {l l' : List (ℕ × α)}
    (h : ∀ hash, l.filter (fun e => e.1 = hash) = l'.filter fun e => e.1 = hash) : l.Perm l'
  := by
  classical
  apply List.perm_iff_count.mpr
  intro e
  have hcount (l : List (ℕ × α)) : (l.filter fun e' => e'.1 = e.1).count e = l.count e := by
    apply List.count_filter
    apply decide_eq_true rfl
  rw [← hcount l, ← hcount l', h e.1]

/-- Removing the element with a name removes all of them, if the names are different. -/
theorem eraseP_eq_filter {β ν : Type} [DecidableEq ν] {f : β → ν} {l : List β} (x : ν)
    (h : (l.map f).Nodup) : (l.eraseP fun e => f e = x) = l.filter fun e => f e ≠ x
  := by
  induction l with
  | nil => rfl
  | cons e l ih =>
      rw [List.map_cons, List.nodup_cons] at h
      by_cases hx : f e = x
      · rw [List.eraseP_cons_of_pos (by simpa using hx), List.filter_cons_of_neg (by simpa using hx)]
        symm
        apply List.filter_eq_self.mpr
        intro e' he'
        apply decide_eq_true
        rintro rfl
        exact h.1 (hx ▸ List.mem_map_of_mem he')
      · rw [List.eraseP_cons_of_neg (by simpa using hx), List.filter_cons_of_pos (by simpa using hx),
          ih h.2]

/-- A look-up sees the elements with the hash. -/
theorem find_eq (t : HashSet α) (hash : ℕ) (p : α → Bool) :
  t.find hash p = ((t.view hash).find? fun e => p e.2).map Prod.snd
  := by
  rw [find, view, List.find?_filter]
  simp only [decide_eq_true_eq, Bool.decide_and, Bool.decide_eq_true]

@[simp]
theorem view_empty {fac : ℕ} : (empty fac : HashSet α).view hash = [] := by
  have hchain : (empty fac : HashSet α).chain hash = [] := by
    rw [chain, empty, List.getElem?_replicate]
    split_ifs
    · rfl
    · rfl
  rw [view, hchain]
  rfl

namespace Valid

variable {hash' : ℕ} (h : t.Valid)

include h

/-- The buckets after one of them has been replaced. -/
theorem chain_setChain (hash hash' : ℕ) (c : List (ℕ × α)) :
  (t.setChain hash c).chain hash' =
    if hash' % t.bucket.length = hash % t.bucket.length then c else t.chain hash'
  := by
  have hlt : hash % t.bucket.length < t.bucket.length := Nat.mod_lt _ h.pos
  rw [chain, HashSet.setChain]
  dsimp only
  rw [List.length_set, List.getElem?_set]
  by_cases heq : hash' % t.bucket.length = hash % t.bucket.length
  · rw [if_pos heq.symm, if_pos (heq ▸ hlt), if_pos heq, Option.getD_some]
  · rw [if_neg (Ne.symm heq), if_neg heq, chain]

/-- What a look-up with a hash sees after a bucket has been replaced. -/
theorem view_setChain (hash hash' : ℕ) (c : List (ℕ × α)) :
  (t.setChain hash c).view hash' =
    if hash' % t.bucket.length = hash % t.bucket.length then c.filter fun e => e.1 = hash'
    else t.view hash'
  := by
  rw [view, h.chain_setChain]
  split_ifs
  · rfl
  · rfl

/-- An element that is put at the front of its bucket is the first one with its hash. -/
theorem view_putFront (hash hash' : ℕ) (a : α) :
  (t.putFront hash a).view hash' =
    if hash' = hash then (hash, a) :: t.view hash' else t.view hash'
  := by
  change (t.setChain hash ((hash, a) :: t.chain hash)).view hash' = _
  rw [h.view_setChain]
  by_cases heq : hash' = hash
  · subst heq
    rw [if_pos rfl, if_pos rfl, List.filter_cons_of_pos (by simp), view]
  · rw [if_neg heq]
    split_ifs with hmod
    · rw [List.filter_cons_of_neg (by simpa using Ne.symm heq), view, chain, chain, hmod]
    · rfl

/-- An element that is moved to the end of its bucket is the last one with its hash. -/
theorem view_splice (e : ℕ × α) (hash' : ℕ) :
  (t.splice e).view hash' = t.view hash' ++ [e].filter fun e => e.1 = hash'
  := by
  change (t.setChain e.1 (t.chain e.1 ++ [e])).view hash' = _
  rw [h.view_setChain]
  split_ifs with hmod
  · rw [List.filter_append, view, chain, chain, hmod]
  · have hne : e.1 ≠ hash' := by
      rintro rfl
      exact hmod rfl
    rw [List.filter_cons_of_neg (by simpa using hne), List.filter_nil, List.append_nil]

/-- Elements that are moved to their buckets keep their order. -/
theorem view_foldl_splice (l : List (ℕ × α)) (hash' : ℕ) :
  (l.foldl HashSet.splice t).view hash' = t.view hash' ++ l.filter fun e => e.1 = hash'
  := by
  induction l generalizing t with
  | nil => rw [List.foldl_nil, List.filter_nil, List.append_nil]
  | cons e l ih =>
      rw [List.foldl_cons, ih (h.splice e).1, h.view_splice, List.append_assoc, ← List.filter_append]
      rfl

/-- The elements with a hash are those that a look-up sees, in the same order. -/
theorem filter_entries (hash : ℕ) : (t.entries.filter fun e => e.1 = hash) = t.view hash := by
  obtain ⟨l₁, l₂, hb, hlen⟩ := h.exists_bucket hash
  have hother : ∀ i c, t.bucket[i]? = some c → i ≠ hash % t.bucket.length →
      (c.filter fun e => e.1 = hash) = [] := by
    intro i c hc hi
    rw [List.filter_eq_nil_iff]
    intro e he heq
    rw [decide_eq_true_eq] at heq
    apply hi
    rw [← h.placed i c hc e he, heq]
  have hbefore : (l₁.flatten.filter fun e => e.1 = hash) = [] := by
    rw [List.filter_flatten, List.flatten_eq_nil_iff]
    intro c hc
    obtain ⟨c', hc', rfl⟩ := List.mem_map.mp hc
    obtain ⟨i, hi, rfl⟩ := List.mem_iff_getElem.mp hc'
    apply hother i
    · rw [hb, List.getElem?_append_left hi, List.getElem?_eq_getElem hi]
    · omega
  have hafter : (l₂.flatten.filter fun e => e.1 = hash) = [] := by
    rw [List.filter_flatten, List.flatten_eq_nil_iff]
    intro c hc
    obtain ⟨c', hc', rfl⟩ := List.mem_map.mp hc
    obtain ⟨i, hi, rfl⟩ := List.mem_iff_getElem.mp hc'
    apply hother (l₁.length + 1 + i)
    · rw [hb, List.getElem?_append_right (by omega), Nat.add_assoc, Nat.add_sub_cancel_left,
        Nat.add_comm 1 i, List.getElem?_cons_succ, List.getElem?_eq_getElem hi]
    · omega
  rw [entries, hb, List.flatten_append, List.flatten_cons, List.filter_append, List.filter_append,
    hbefore, hafter, List.nil_append, List.append_nil]
  rfl

/-- Moving all elements to new buckets does not change what look-ups see. -/
theorem rehash {fac : ℕ} (hfac : 0 < fac) :
  (t.rehash fac).Valid ∧ t.entries.Perm (t.rehash fac).entries ∧
    ∀ hash, (t.rehash fac).view hash = t.view hash
  := by
  obtain ⟨hv, hp⟩ := (valid_empty hfac).foldl_splice t.entries
  rw [entries_empty, List.append_nil] at hp
  refine ⟨hv, hp, ?_⟩
  intro hash
  rw [HashSet.rehash, (valid_empty hfac).view_foldl_splice, view_empty, List.nil_append]
  apply h.filter_entries

end Valid

end HashSet
