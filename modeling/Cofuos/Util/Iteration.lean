import Cofuos.Util.HashSet

/-!
# Iteration over a hash set

An iterator stands before the elements that are still to come: the rest of the list of its bucket, and the
lists of the buckets after it. `operator++` drops the first of them, and so does `erase`, which
removes it from the set as well.
-/

namespace UOS

namespace HashedSet

variable {α κ : Type} {s s' : HashedSet α κ} {b : Bag α κ} {it : Iterator} {e : ℕ × Node α}
  {rest c₁ c₂ : List (ℕ × Node α)} {l₁ l₂ : List (List (ℕ × Node α))} {i : ℕ}

/-- An iterator stands before some elements of the buckets. -/
inductive Before (bucket : List (List (ℕ × Node α))) : Iterator → List (ℕ × Node α) → Prop
  | done : Before bucket ⟨bucket.length, none⟩ []
  | node (l₁ l₂ : List (List (ℕ × Node α))) (c₁ c₂ : List (ℕ × Node α)) (e : ℕ × Node α) :
      bucket = l₁ ++ (c₁ ++ e :: c₂) :: l₂ →
      Before bucket ⟨l₁.length, some e.2.addr⟩ (e :: (c₂ ++ l₂.flatten))

/-- The first position of the buckets from one on. -/
theorem before_first (l₁ l₂ : List (List (ℕ × Node α))) :
  Before (l₁ ++ l₂) (first l₂ l₁.length) l₂.flatten
  := by
  induction l₂ generalizing l₁ with
  | nil =>
      rw [List.append_nil]
      exact .done
  | cons c l₂ ih =>
      cases c with
      | nil =>
          have hl := ih (l₁ ++ [[]])
          rw [List.length_append, List.append_assoc] at hl
          exact hl
      | cons e c => exact .node l₁ l₂ [] c e rfl

/-- The position before what is left of a bucket. -/
theorem before_settle (c₁ c₂ : List (ℕ × Node α)) (h : s.table.bucket = l₁ ++ (c₁ ++ c₂) :: l₂) :
  Before s.table.bucket (s.settle l₁.length c₂) (c₂ ++ l₂.flatten)
  := by
  cases c₂ with
  | nil =>
      have hfirst := before_first (l₁ ++ [c₁ ++ []]) l₂
      have hdrop : s.table.bucket.drop (l₁.length + 1) = l₂ := by
        rw [h, ← List.drop_drop, List.drop_left]
        rfl
      rw [List.length_append, List.append_assoc] at hfirst
      rw [settle, hdrop, h]
      exact hfirst
  | cons e c₂ =>
      rw [h]
      exact .node l₁ l₂ c₁ c₂ e rfl

/-- An iteration starts before all elements. -/
theorem before_begin (s : HashedSet α κ) : Before s.table.bucket s.begin s.table.entries :=
  before_first [] s.table.bucket

/-- At the end of the iteration there are no elements left. -/
theorem Before.eq_end_iff (h : Before s.table.bucket it rest) :
  it.bucket = s.bucketCount ↔ rest = []
  := by
  cases h with
  | done => exact iff_of_true rfl rfl
  | node l₁ l₂ c₁ c₂ e hb =>
      apply iff_of_false
      · rw [bucketCount, hb, List.length_append, List.length_cons]
        simp only
        omega
      · exact List.cons_ne_nil _ _

/-- The elements that are still to come are the last ones of the iteration. -/
theorem Before.suffix (h : Before s.table.bucket it rest) : rest <:+ s.table.entries := by
  cases h with
  | done => exact List.nil_suffix
  | node l₁ l₂ c₁ c₂ e hb =>
      refine ⟨l₁.flatten ++ c₁, ?_⟩
      rw [HashSet.entries, hb, List.flatten_append, List.flatten_cons, List.append_assoc,
        List.append_assoc]
      rfl

/-- `operator++` does not go past the end. -/
theorem Before.next_eq_error (h : Before s.table.bucket it []) :
  next s it = .error (.bugcheck "iterator move past the end @ %p")
  := by
  generalize hrest : ([] : List (ℕ × Node α)) = rest at h
  cases h with
  | done => rfl
  | node => cases hrest

namespace Holds

variable (h : Holds s b)

include h

/-- The elements of one bucket are in different nodes. -/
theorem nodup_chain (hb : s.table.bucket = l₁ ++ c₁ :: l₂) : (c₁.map fun e => e.2.addr).Nodup := by
  have hall : (s.table.entries.map fun e => e.2.addr).Nodup := by
    rw [(h.perm.map _).nodup_iff, Bag.hashed, List.map_map]
    exact h.nodup
  rw [HashSet.entries, hb, List.flatten_append, List.flatten_cons, List.map_append, List.map_append]
    at hall
  exact hall.of_append_right.of_append_left

/-- The elements that are still to come are different elements of the set. -/
theorem rest_elems (hb : Before s.table.bucket it rest) :
  (rest.map Prod.snd).Nodup ∧ ∀ x ∈ rest.map Prod.snd, x ∈ b.elems
  := by
  have hsuffix := hb.suffix.sublist.map Prod.snd
  have hnodup : (s.table.entries.map Prod.snd).Nodup := by
    rw [h.perm_elems.nodup_iff]
    exact h.nodup.of_map
  refine ⟨hsuffix.nodup hnodup, ?_⟩
  intro x hx
  rw [← h.perm_elems.mem_iff]
  exact hsuffix.subset hx

/-- What follows an element in its bucket. -/
theorem after_eq (hb : s.table.bucket = l₁ ++ (c₁ ++ e :: c₂) :: l₂) :
  after (s.chainAt l₁.length) e.2.addr = c₂
  := by
  have hchain : s.chainAt l₁.length = c₁ ++ e :: c₂ := by
    rw [chainAt, hb, List.getElem?_append_right (le_refl _), Nat.sub_self]
    rfl
  have hnodup := h.nodup_chain hb
  rw [List.map_append, List.map_cons, List.nodup_append] at hnodup
  have hdrop : (c₁ ++ e :: c₂).dropWhile (fun e' => e'.2.addr ≠ e.2.addr) = e :: c₂ := by
    rw [List.dropWhile_append_of_pos]
    · rw [List.dropWhile_cons_of_neg (by simp)]
    · intro e' he'
      apply decide_eq_true
      apply hnodup.2.2 _ (List.mem_map_of_mem he') _ List.mem_cons_self
  rw [after, hchain, hdrop, List.tail_cons]

/-- An element that an iterator stands before is found there. -/
theorem position_eq (hb : s.table.bucket = l₁ ++ (c₁ ++ e :: c₂) :: l₂) :
  s.position e.2 = ⟨l₁.length, some e.2.addr⟩ ∧ e.2 ∈ b.elems
  := by
  have hmem : (e.1, e.2) ∈ s.table.entries := by
    rw [HashSet.entries, hb, List.flatten_append, List.flatten_cons]
    apply List.mem_append_right
    apply List.mem_append_left
    apply List.mem_append_right _ List.mem_cons_self
  have helem := h.mem_iff.mp ⟨e.1, hmem⟩
  have hhash := (h.eq_of_addr helem hmem rfl).2
  have hplaced := h.valid.placed l₁.length (c₁ ++ e :: c₂)
    (by rw [hb, List.getElem?_append_right (le_refl _), Nat.sub_self]; rfl) e
    (List.mem_append_right _ List.mem_cons_self)
  refine ⟨?_, helem⟩
  rw [position, ← hhash]
  exact congrArg (fun i => (⟨i, some e.2.addr⟩ : Iterator)) hplaced

/-- The element that an iterator stands before. -/
theorem deref_before (hb : Before s.table.bucket it (e :: rest)) :
  s.deref it = some e.2.payload
  := by
  cases hb with
  | node l₁ l₂ c₁ c₂ _ hb =>
      obtain ⟨hposition, helem⟩ := h.position_eq hb
      rw [← hposition]
      exact h.deref_position helem

/-- `operator++` goes on to the next element. -/
theorem next_before (hb : Before s.table.bucket it (e :: rest)) :
  ∃ it', next s it = .ok it' ∧ Before s.table.bucket it' rest
  := by
  cases hb with
  | node l₁ l₂ c₁ c₂ _ hb =>
      refine ⟨s.settle l₁.length c₂, ?_, ?_⟩
      · simp only [next, h.after_eq hb]
      · apply before_settle (c₁ ++ [e]) c₂
        rw [hb, List.append_assoc]
        rfl

/-- `erase` takes one node from the list of its bucket. -/
theorem erase_bucket (hb : s.table.bucket = l₁ ++ (c₁ ++ e :: c₂) :: l₂) :
  ∃ s', HashedSet.erase s ⟨l₁.length, some e.2.addr⟩ = .ok (s'.settle l₁.length c₂, s') ∧
    Holds s' (b.erase e.2.addr) ∧ s'.table.bucket = l₁ ++ (c₁ ++ c₂) :: l₂
  := by
  obtain ⟨hposition, helem⟩ := h.position_eq hb
  obtain ⟨it', s', heq, hs'⟩ := h.erase helem
  rw [hposition] at heq
  have hchain : s.chainAt l₁.length = c₁ ++ e :: c₂ := by
    rw [chainAt, hb, List.getElem?_append_right (le_refl _), Nat.sub_self]
    rfl
  have hnodup := h.nodup_chain hb
  rw [List.map_append, List.map_cons, List.nodup_append] at hnodup
  have herase : (c₁ ++ e :: c₂).eraseP (fun e' => e'.2.addr = e.2.addr) = c₁ ++ c₂ := by
    rw [List.eraseP_append_right]
    · rw [List.eraseP_cons_of_pos (by simp)]
    · intro e' he'
      have hne := hnodup.2.2 _ (List.mem_map_of_mem he') _ List.mem_cons_self
      simpa using hne
  have hres := heq
  simp only [HashedSet.erase, h.after_eq hb, Except.ok.injEq, Prod.mk.injEq] at hres
  obtain ⟨rfl, rfl⟩ := hres
  refine ⟨_, heq, hs', ?_⟩
  simp only
  rw [hchain, herase, hb, List.set_append_right _ _ (le_refl _), Nat.sub_self, List.set_cons_zero]

/-- `erase` goes on to the next element as well, in the set from which the first one is removed. -/
theorem erase_before (hb : Before s.table.bucket it (e :: rest)) :
  ∃ it' s', HashedSet.erase s it = .ok (it', s') ∧ Holds s' (b.erase e.2.addr) ∧
    Before s'.table.bucket it' rest
  := by
  cases hb with
  | node l₁ l₂ c₁ c₂ _ hb =>
      obtain ⟨s', heq, hs', hbucket⟩ := h.erase_bucket hb
      exact ⟨_, s', heq, hs', before_settle c₁ c₂ hbucket⟩

end Holds

end HashedSet

end UOS
