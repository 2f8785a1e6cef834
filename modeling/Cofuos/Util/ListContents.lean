import Cofuos.Util.LinkedList

/-!
# What linked lists hold

The contents of linked lists are described by a list of nodes for each of them. Besides there are
nodes that have been taken from a list and not been put into another one yet. A node that is not
mentioned may be the next one to be allocated.

Each operation changes the contents in the same way as the links: a node appears or disappears at one
place of one list. The node itself may have any links before it is put there.
-/

namespace UOS

namespace LinkedLists

open Fault

variable {w : ℕ} {ι τ α : Type}

/-- The nodes of lists in their order, the nodes that are in no list, and what is in the nodes. -/
structure Content (ι τ α : Type) where
  seq : ι → List τ
  loose : Set τ
  value : τ → α

/-- A node is in one place. -/
structure Content.Valid (c : Content ι τ α) : Prop where
  nodup : ∀ i, (c.seq i).Nodup
  apart : ∀ i j t, t ∈ c.seq i → t ∈ c.seq j → i = j
  kept : ∀ i, ∀ t ∈ c.seq i, t ∉ c.loose

/-- A node records its payload, and its neighbours. -/
def Records (S : LinkedLists w ι τ α) (value : τ → α) (p : Option τ) (t : τ) (n : Option τ) : Prop :=
  S.node t = some ⟨p, n, value t⟩

/-- The memory holds the contents. -/
structure Holds (S : LinkedLists w ι τ α) (c : Content ι τ α) : Prop where
  valid : c.Valid
  head : ∀ i, S.head i = (c.seq i).head?
  tail : ∀ i, S.tail i = (c.seq i).getLast?
  size : ∀ i, S.size i = (c.seq i).length
  linked : ∀ i, Linked (S.Records c.value) none (c.seq i) none
  loose : ∀ t ∈ c.loose, ∃ n, S.node t = some n ∧ n.payload = c.value t

/-- The nodes that are in no list are replaced. -/
def Content.setLoose (c : Content ι τ α) (L : Set τ) : Content ι τ α := { c with loose := L }

variable {debug : Bool} {S S' : LinkedLists w ι τ α} {c : Content ι τ α} {i j : ι} {t u x : τ}
  {l l₁ l₂ m m' : List τ} {L : Set τ}

@[simp]
theorem Content.setLoose_seq : (c.setLoose L).seq = c.seq := rfl

@[simp]
theorem Content.setLoose_value : (c.setLoose L).value = c.value := rfl

variable [DecidableEq ι]

/-- The nodes of a list are replaced. -/
def Content.setSeq (c : Content ι τ α) (i : ι) (l : List τ) : Content ι τ α :=
  { c with seq := Function.update c.seq i l }

@[simp]
theorem Content.setSeq_self : (c.setSeq i l).seq i = l := Function.update_self ..

theorem Content.setSeq_of_ne (h : j ≠ i) : (c.setSeq i l).seq j = c.seq j :=
  Function.update_of_ne h ..

/-! ### Nodes in one place -/

/-- One of the lists is changed. -/
theorem Content.Valid.setSeq (h : c.Valid) (hnodup : l.Nodup)
    (hapart : ∀ x ∈ l, ∀ j ≠ i, x ∉ c.seq j) (hkept : ∀ x ∈ l, x ∉ L)
    (hloose : ∀ x ∈ L, ∀ j ≠ i, x ∉ c.seq j) :
  ((c.setSeq i l).setLoose L).Valid
  := by
  constructor
  · intro j
    by_cases hj : j = i
    · rw [hj, Content.setLoose_seq, Content.setSeq_self]
      apply hnodup
    · rw [Content.setLoose_seq, Content.setSeq_of_ne hj]
      apply h.nodup
  · intro j k x hxj hxk
    rw [Content.setLoose_seq] at hxj hxk
    by_cases hj : j = i
    · by_cases hk : k = i
      · rw [hj, hk]
      · rw [hj, Content.setSeq_self] at hxj
        rw [Content.setSeq_of_ne hk] at hxk
        exact absurd hxk (hapart x hxj k hk)
    · rw [Content.setSeq_of_ne hj] at hxj
      by_cases hk : k = i
      · rw [hk, Content.setSeq_self] at hxk
        exact absurd hxj (hapart x hxk j hj)
      · rw [Content.setSeq_of_ne hk] at hxk
        apply h.apart j k x hxj hxk
  · intro j x hx hxL
    rw [Content.setLoose_seq] at hx
    by_cases hj : j = i
    · rw [hj, Content.setSeq_self] at hx
      apply hkept x hx hxL
    · rw [Content.setSeq_of_ne hj] at hx
      apply hloose x hxL j hj hx

/-- A node is taken from a list. -/
theorem Content.Valid.detach (h : c.Valid) (hl : c.seq i = l₁ ++ t :: l₂)
    (hL : ∀ x ∈ L, x = t ∨ x ∈ c.loose) :
  ((c.setSeq i (l₁ ++ l₂)).setLoose L).Valid
  := by
  have hnodup := h.nodup i
  rw [hl, List.nodup_middle, List.nodup_cons] at hnodup
  have hmem : ∀ x ∈ l₁ ++ l₂, x ∈ c.seq i := by
    intro x hx
    rw [hl, List.mem_append, List.mem_cons]
    rcases List.mem_append.mp hx with hx | hx
    · left
      apply hx
    · right
      right
      apply hx
  have ht : t ∈ c.seq i := by
    rw [hl]
    apply List.mem_append_right _ List.mem_cons_self
  apply h.setSeq hnodup.2
  · intro x hx j hj hxj
    apply hj (h.apart j i x hxj (hmem x hx))
  · intro x hx hxL
    rcases hL x hxL with rfl | hxL
    · apply hnodup.1 hx
    · apply h.kept i x (hmem x hx) hxL
  · intro x hxL j hj hxj
    rcases hL x hxL with rfl | hxL
    · apply hj (h.apart j i x hxj ht)
    · apply h.kept j x hxj hxL

/-- A node that is in no list is put into one. -/
theorem Content.Valid.attach (h : c.Valid) (hl : c.seq i = l₁ ++ l₂) (ht : t ∈ c.loose) :
  ((c.setSeq i (l₁ ++ t :: l₂)).setLoose (c.loose \ {t})).Valid
  := by
  have hnot : ∀ j, t ∉ c.seq j := by
    intro j htj
    apply h.kept j t htj ht
  have hmem : ∀ x ∈ l₁ ++ t :: l₂, x = t ∨ x ∈ c.seq i := by
    intro x hx
    rw [List.mem_append, List.mem_cons] at hx
    rw [hl, List.mem_append]
    tauto
  have hnodup := h.nodup i
  have hti := hnot i
  rw [hl] at hnodup hti
  apply h.setSeq
  · rw [List.nodup_middle, List.nodup_cons]
    use hti, hnodup
  · intro x hx j hj hxj
    rcases hmem x hx with rfl | hxi
    · apply hnot j hxj
    · apply hj (h.apart j i x hxj hxi)
  · rintro x hx ⟨hxL, hxt⟩
    rcases hmem x hx with rfl | hxi
    · apply hxt rfl
    · apply h.kept i x hxi hxL
  · rintro x ⟨hxL, -⟩ j _ hxj
    apply h.kept j x hxj hxL

/-! ### Counters -/

omit [DecidableEq ι] in
theorem toNat_one_of_lt (h : 1 < 2 ^ w) : (1 : BitVec w).toNat = 1 := by
  change 1 % 2 ^ w = 1
  rw [Nat.mod_eq_of_lt h]

omit [DecidableEq ι] in
/-- A counter that is not zero can be decremented. -/
theorem toNat_sub_one {k : ℕ} {b : BitVec w} (h : b.toNat = k + 1) : (b - 1).toNat = k := by
  have hlt := b.isLt
  have hsum : 2 ^ w - 1 + (k + 1) = k + 2 ^ w := by
    lia
  rw [BitVec.toNat_sub, toNat_one_of_lt (by lia), h, hsum, Nat.add_mod_right,
    Nat.mod_eq_of_lt (by lia)]

omit [DecidableEq ι] in
/-- A counter that is not at its largest value can be incremented. -/
theorem toNat_add_one {k : ℕ} {b : BitVec w} (h : b.toNat = k) (hlt : k + 1 < 2 ^ w) :
  (b + 1).toNat = k + 1
  := by
  rw [BitVec.toNat_add, toNat_one_of_lt (by omega), h, Nat.mod_eq_of_lt hlt]

/-! ### Links -/

omit [DecidableEq ι] in
/-- A node of a list and its neighbours. -/
theorem Holds.node (h : Holds S c) (hl : c.seq i = l₁ ++ t :: l₂) :
  S.node t = some ⟨l₁.getLast?, l₂.head?, c.value t⟩
  := by
  have hlinked := h.linked i
  rw [hl] at hlinked
  have hnode := hlinked.node
  rw [Option.or_none, Option.or_none] at hnode
  apply hnode

omit [DecidableEq ι] in
theorem Holds.exists_node (h : Holds S c) (ht : t ∈ c.seq i) : ∃ n, S.node t = some n := by
  obtain ⟨l₁, l₂, hl⟩ := List.append_of_mem ht
  exact ⟨_, h.node hl⟩

/-- The end of one list and the beginning of another one that has no node with it in common are
different from all other nodes, and from each other. -/
theorem ne_ends (h : (l₁ ++ l₂).Nodup) :
  (∀ x ∈ l₁.getLast?, l₂.head? ≠ some x) ∧
  ∀ x ∈ l₁.dropLast ++ l₂.tail, l₁.getLast? ≠ some x ∧ l₂.head? ≠ some x
  := by
  rw [List.nodup_append] at h
  obtain ⟨h₁, h₂, hapart⟩ := h
  constructor
  · intro x hx hhead
    apply hapart x (List.mem_of_getLast? hx) x (List.mem_of_mem_head? hhead) rfl
  · intro x hx
    rcases List.mem_append.mp hx with hx | hx
    · constructor
      · intro hlast
        rcases List.eq_nil_or_concat' l₁ with rfl | ⟨l, y, rfl⟩
        · cases hlast
        · rw [List.getLast?_concat] at hlast
          cases hlast
          rw [List.dropLast_concat] at hx
          rw [List.nodup_append] at h₁
          apply h₁.2.2 x hx x (List.mem_singleton_self x) rfl
      · intro hhead
        apply hapart x (List.mem_of_mem_dropLast hx) x (List.mem_of_mem_head? hhead) rfl
    · constructor
      · intro hlast
        apply hapart x (List.mem_of_getLast? hlast) x (List.mem_of_mem_tail hx) rfl
      · intro hhead
        cases l₂ with
        | nil => cases hhead
        | cons y l =>
            cases hhead
            apply (List.nodup_cons.mp h₂).1 hx

omit [DecidableEq ι] in
/-- There is a place for a node between two parts of a list. -/
theorem Holds.place (h : Holds S c) (hnodup : (l₁ ++ l₂).Nodup)
    (hmem : ∀ x ∈ l₁ ++ l₂, x ∈ c.seq i) (ht : t ∉ l₁ ++ l₂) :
  S.Place t l₁.getLast? l₂.head?
  := by
  constructor
  · intro x hx
    apply h.exists_node (hmem x _)
    apply List.mem_append_left _ (List.mem_of_getLast? hx)
  · intro x hx
    apply h.exists_node (hmem x _)
    apply List.mem_append_right _ (List.mem_of_mem_head? hx)
  · intro hlast
    apply ht (List.mem_append_left _ (List.mem_of_getLast? hlast))
  · intro hhead
    apply ht (List.mem_append_right _ (List.mem_of_mem_head? hhead))
  · apply (ne_ends hnodup).1

variable [DecidableEq τ]

/-- A node that is not next to the place stays as it is. -/
theorem Rewired.node_of_not_mem {a b : Option τ}
    (hr : S.Rewired S' i t l₁.getLast? l₂.head? a b) (ht : x ≠ t) (hx : x ∉ l₁ ++ l₂) :
  S'.node x = S.node x
  := by
  rw [hr.node x ht, if_neg, if_neg]
  · intro hhead
    apply hx (List.mem_append_right _ (List.mem_of_mem_head? hhead))
  · intro hlast
    apply hx (List.mem_append_left _ (List.mem_of_getLast? hlast))

/-- The nodes of a list are linked after those in the middle have been exchanged. -/
theorem Rewired.linked {v : τ → α} (h : Linked (S.Records v) none (l₁ ++ (m ++ l₂)) none)
    (hnodup : (l₁ ++ l₂).Nodup) (ht : t ∉ l₁ ++ l₂)
    (hr : S.Rewired S' i t l₁.getLast? l₂.head? (m' ++ l₂).head? (l₁ ++ m').getLast?)
    (hm : Linked (S'.Records v) l₁.getLast? m' l₂.head?) :
  Linked (S'.Records v) none (l₁ ++ (m' ++ l₂)) none
  := by
  obtain ⟨hends, hothers⟩ := ne_ends hnodup
  have hne : ∀ x ∈ l₁ ++ l₂, x ≠ t := by
    rintro x hx rfl
    apply ht hx
  apply h.replace
  · rw [Option.or_none, Option.or_none]
    apply hm
  · intro x hx q hq
    rw [Option.or_none] at hq ⊢
    rw [Records] at hq ⊢
    rw [hr.node x (hne x (List.mem_append_left _ (List.mem_of_getLast? hx))),
      if_pos (Option.mem_def.mp hx), hq]
    rfl
  · intro x hx q hq
    rw [Option.or_none] at hq ⊢
    rw [Records] at hq ⊢
    have hlast : l₁.getLast? ≠ some x := by
      intro hlast
      apply hends x hlast hx
    rw [hr.node x (hne x (List.mem_append_right _ (List.mem_of_mem_head? hx))), if_neg hlast,
      if_pos (Option.mem_def.mp hx), hq, List.getLast?_append]
    rfl
  · intro x hx q k hq
    have hmem : x ∈ l₁ ++ l₂ := by
      rcases List.mem_append.mp hx with hx | hx
      · apply List.mem_append_left _ (List.mem_of_mem_dropLast hx)
      · apply List.mem_append_right _ (List.mem_of_mem_tail hx)
    rw [Records] at hq ⊢
    rw [hr.node x (hne x hmem), if_neg (hothers x hx).1, if_neg (hothers x hx).2, hq]

/-- The contents after the nodes in the middle of a list have been exchanged. The node `t` is the one
that is taken away or added. -/
theorem Holds.rewire (h : Holds S c) (hl : c.seq i = l₁ ++ (m ++ l₂)) (ht : t ∉ l₁ ++ l₂)
    (hother : ∀ j ≠ i, t ∉ c.seq j)
    (hr : S.Rewired S' i t l₁.getLast? l₂.head? (m' ++ l₂).head? (l₁ ++ m').getLast?)
    (hm : Linked (S'.Records c.value) l₁.getLast? m' l₂.head?)
    (hsize : S'.size i = (l₁ ++ (m' ++ l₂)).length) (hcount : ∀ j ≠ i, S'.count j = S.count j)
    (hvalid : ((c.setSeq i (l₁ ++ (m' ++ l₂))).setLoose L).Valid)
    (hloose : ∀ x ∈ L, x ≠ t → x ∈ c.loose)
    (hself : t ∈ L → ∃ n, S'.node t = some n ∧ n.payload = c.value t) :
  Holds S' ((c.setSeq i (l₁ ++ (m' ++ l₂))).setLoose L)
  := by
  have hnodup : (l₁ ++ l₂).Nodup := by
    have hnodup := h.valid.nodup i
    rw [hl] at hnodup
    apply List.Nodup.sublist _ hnodup
    apply (List.sublist_append_right m l₂).append_left
  have hmem : ∀ x ∈ l₁ ++ l₂, x ∈ c.seq i := by
    intro x hx
    rw [hl]
    apply ((List.sublist_append_right m l₂).append_left l₁).mem hx
  constructor
  · apply hvalid
  · intro j
    rw [hr.head, Content.setLoose_seq]
    by_cases hj : j = i
    · rw [hj, Content.setSeq_self]
      cases hlast : l₁.getLast? with
      | none =>
          rw [List.getLast?_eq_none_iff] at hlast
          rw [if_pos rfl, Function.update_self, hlast, List.nil_append]
      | some x =>
          have hne : l₁ ≠ [] := by
            rintro rfl
            cases hlast
          rw [if_neg (Option.some_ne_none x), h.head, hl, List.head?_append_of_ne_nil _ hne,
            List.head?_append_of_ne_nil _ hne]
    · rw [Content.setSeq_of_ne hj, ← h.head]
      split_ifs
      · rw [Function.update_of_ne hj]
      · rfl
  · intro j
    rw [hr.tail, Content.setLoose_seq]
    by_cases hj : j = i
    · rw [hj, Content.setSeq_self]
      cases hhead : l₂.head? with
      | none =>
          rw [List.head?_eq_none_iff] at hhead
          rw [if_pos rfl, Function.update_self, hhead, List.append_nil]
      | some x =>
          have hne : l₂ ≠ [] := by
            rintro rfl
            cases hhead
          rw [if_neg (Option.some_ne_none x), h.tail, hl, ← List.append_assoc, ← List.append_assoc,
            List.getLast?_append_of_ne_nil _ hne, List.getLast?_append_of_ne_nil _ hne]
    · rw [Content.setSeq_of_ne hj, ← h.tail]
      split_ifs
      · rw [Function.update_of_ne hj]
      · rfl
  · intro j
    rw [Content.setLoose_seq]
    by_cases hj : j = i
    · rw [hj, Content.setSeq_self, hsize]
    · rw [Content.setSeq_of_ne hj, LinkedLists.size, hcount j hj]
      apply h.size
  · intro j
    rw [Content.setLoose_seq]
    by_cases hj : j = i
    · rw [hj, Content.setSeq_self]
      have hlinked := h.linked i
      rw [hl] at hlinked
      apply hr.linked hlinked hnodup ht hm
    · rw [Content.setSeq_of_ne hj]
      apply (h.linked j).imp
      intro x hx q k hq
      rw [Records] at hq ⊢
      rw [hr.node_of_not_mem, hq]
      · rfl
      · rintro rfl
        apply hother j hj hx
      · intro hxi
        apply hj (h.valid.apart j i x hx (hmem x hxi))
  · intro x hx
    by_cases hxt : x = t
    · rw [hxt]
      apply hself
      rw [← hxt]
      apply hx
    · have hxL := hloose x hx hxt
      rw [hr.node_of_not_mem hxt]
      · apply h.loose x hxL
      · intro hxi
        apply h.valid.kept i x (hmem x hxi) hxL

/-- The contents after a node has been taken from a list. -/
theorem Holds.detach (h : Holds S c) (hl : c.seq i = l₁ ++ t :: l₂)
    (hr : S.Rewired S' i t l₁.getLast? l₂.head? l₂.head? l₁.getLast?)
    (hcount : S'.count = Function.update S.count i (S.count i - 1))
    (hL : ∀ x ∈ L, x = t ∨ x ∈ c.loose)
    (hself : t ∈ L → ∃ n, S'.node t = some n ∧ n.payload = c.value t) :
  Holds S' ((c.setSeq i (l₁ ++ l₂)).setLoose L)
  := by
  have hnodup := h.valid.nodup i
  rw [hl, List.nodup_middle, List.nodup_cons] at hnodup
  have ht : t ∈ c.seq i := by
    rw [hl]
    apply List.mem_append_right _ List.mem_cons_self
  have hr' : S.Rewired S' i t l₁.getLast? l₂.head? ([] ++ l₂).head? (l₁ ++ []).getLast? := by
    rw [List.nil_append, List.append_nil]
    apply hr
  have hsize : S'.size i = (l₁ ++ ([] ++ l₂)).length := by
    have hold := h.size i
    rw [hl, List.length_append, List.length_cons, ← Nat.add_assoc] at hold
    rw [List.nil_append, List.length_append, LinkedLists.size, hcount, Function.update_self]
    apply toNat_sub_one hold
  have hl' : c.seq i = l₁ ++ ([t] ++ l₂) := hl
  apply h.rewire hl' hnodup.1 _ hr' Linked.nil hsize
  · intro j hj
    rw [hcount, Function.update_of_ne hj]
  · apply h.valid.detach hl hL
  · intro x hx hxt
    apply (hL x hx).resolve_left hxt
  · apply hself
  · intro j hj htj
    apply hj (h.valid.apart j i t htj ht)

/-- The contents after a node has been taken from a list and deleted. -/
theorem Holds.delete (h : Holds S c) (hl : c.seq i = l₁ ++ t :: l₂)
    (hr : S.Rewired S' i t l₁.getLast? l₂.head? l₂.head? l₁.getLast?)
    (hcount : S'.count = Function.update S.count i (S.count i - 1)) :
  Holds S' (c.setSeq i (l₁ ++ l₂))
  := by
  have hdetach : Holds S' ((c.setSeq i (l₁ ++ l₂)).setLoose c.loose) := by
    apply h.detach hl hr hcount
    · intro x hx
      right
      apply hx
    · intro ht
      apply absurd ht (h.valid.kept i t _)
      rw [hl]
      apply List.mem_append_right _ List.mem_cons_self
  apply hdetach

/-- The contents after a node has been put into a list. -/
theorem Holds.attach (h : Holds S c) (hl : c.seq i = l₁ ++ l₂) (ht : t ∈ c.loose)
    (hr : S.Rewired S' i t l₁.getLast? l₂.head? (some t) (some t))
    (hcount : S'.count = Function.update S.count i (S.count i + 1))
    (hlt : (c.seq i).length + 1 < 2 ^ w)
    (hself : S'.node t = some ⟨l₁.getLast?, l₂.head?, c.value t⟩) :
  Holds S' ((c.setSeq i (l₁ ++ t :: l₂)).setLoose (c.loose \ {t}))
  := by
  have hnot : ∀ j, t ∉ c.seq j := by
    intro j htj
    apply h.valid.kept j t htj ht
  have hti : t ∉ l₁ ++ l₂ := by
    rw [← hl]
    apply hnot
  have hr' : S.Rewired S' i t l₁.getLast? l₂.head? ([t] ++ l₂).head? (l₁ ++ [t]).getLast? := by
    rw [List.getLast?_concat]
    apply hr
  have hsize : S'.size i = (l₁ ++ ([t] ++ l₂)).length := by
    have hold := h.size i
    rw [hl, List.length_append] at hold hlt
    rw [List.length_append, List.singleton_append, List.length_cons, ← Nat.add_assoc,
      LinkedLists.size, hcount, Function.update_self]
    apply toNat_add_one hold hlt
  have hl' : c.seq i = l₁ ++ ([] ++ l₂) := hl
  apply h.rewire hl' hti _ hr' _ hsize
  · intro j hj
    rw [hcount, Function.update_of_ne hj]
  · apply h.valid.attach hl ht
  · rintro x ⟨hx, -⟩ _
    apply hx
  · rintro ⟨-, hne⟩
    exact absurd rfl hne
  · intro j _
    apply hnot
  · rw [Linked.singleton_iff]
    apply hself

/-! ### Operations -/

omit [DecidableEq ι] [DecidableEq τ] in
/-- The first node of a list has no node before it. -/
theorem Holds.head_of_getLast? (h : Holds S c) (hl : c.seq i = l₁ ++ l₂) (hnone : l₁.getLast? = none) :
  S.head i = l₂.head?
  := by
  rw [List.getLast?_eq_none_iff] at hnone
  rw [h.head, hl, hnone, List.nil_append]

omit [DecidableEq ι] [DecidableEq τ] in
/-- The last node of a list has no node after it. -/
theorem Holds.tail_of_head? (h : Holds S c) (hl : c.seq i = l₁ ++ l₂) (hnone : l₂.head? = none) :
  S.tail i = l₁.getLast?
  := by
  rw [List.head?_eq_none_iff] at hnone
  rw [h.tail, hl, hnone, List.append_nil]

omit [DecidableEq ι] [DecidableEq τ] in
/-- The place of a node of a list. -/
theorem Holds.place_of_mem (h : Holds S c) (hl : c.seq i = l₁ ++ t :: l₂) :
  S.Place t l₁.getLast? l₂.head?
  := by
  have hnodup := h.valid.nodup i
  rw [hl, List.nodup_middle, List.nodup_cons] at hnodup
  apply h.place (i := i) hnodup.2 _ hnodup.1
  intro x hx
  rw [hl]
  apply ((List.sublist_cons_self t l₂).append_left l₁).mem hx

/-- `get_node` of a node of the list. -/
theorem Holds.getNode (h : Holds S c) (debug : Bool) (hl : c.seq i = l₁ ++ t :: l₂) :
  ∃ S', S.getNode debug i ⟨some i, some t⟩ = .ok (t, S') ∧
    Holds S' ((c.setSeq i (l₁ ++ l₂)).setLoose (Insert.insert t c.loose))
  := by
  have hl' : c.seq i = (l₁ ++ [t]) ++ l₂ := by
    rw [hl, List.append_assoc, List.singleton_append]
  have htail : l₂.head? = none → S.tail i = some t := by
    intro hnone
    rw [h.tail_of_head? hl' hnone, List.getLast?_concat]
  have hhead : l₁.getLast? = none → S.head i = some t := h.head_of_getLast? hl
  obtain ⟨S', heq, hr, hself, hcount⟩ := (h.place_of_mem hl).getNode debug (h.node hl) hhead htail
  use S', heq
  apply h.detach hl hr hcount
  · intro x hx
    apply hx
  · intro _
    exact ⟨_, hself, rfl⟩

/-- `put_node` of a node that is in no list. -/
theorem Holds.putNode (h : Holds S c) (debug : Bool) (hl : c.seq i = l₁ ++ l₂) (ht : t ∈ c.loose)
    (hlt : (c.seq i).length + 1 < 2 ^ w) :
  ∃ S', S.putNode debug i ⟨some i, l₂.head?⟩ t = .ok S' ∧
    Holds S' ((c.setSeq i (l₁ ++ t :: l₂)).setLoose (c.loose \ {t}))
  := by
  have hnodup := h.valid.nodup i
  have hti : t ∉ c.seq i := by
    intro hti
    apply h.valid.kept i t hti ht
  have hplace : S.Place t l₁.getLast? l₂.head? := by
    rw [hl] at hnodup hti
    apply h.place (i := i) hnodup _ hti
    intro x hx
    rw [hl]
    apply hx
  obtain ⟨m, hm, hvalue⟩ := h.loose t ht
  rw [LinkedLists.putNode, if_neg (not_not.2 rfl)]
  cases l₂ with
  | nil =>
      have hl' := hl
      rw [List.append_nil] at hl
      have hnull : l₁.getLast? = none ↔ S.head i = none := by
        rw [h.head, hl, List.getLast?_eq_none_iff, List.head?_eq_none_iff]
      have hsize : l₁.getLast? = none ↔ S.size i = 0 := by
        rw [h.size, hl, List.getLast?_eq_none_iff, List.length_eq_zero_iff]
      have hlast : ∀ x ∈ l₁.getLast?, ∀ k, S.node x = some k → k.next = none := by
        intro x hx k hk
        obtain ⟨l, rfl⟩ := List.getLast?_eq_some_iff.mp hx
        rw [h.node hl, Option.some.injEq] at hk
        rw [← hk]
        rfl
      have htail : S.tail i = l₁.getLast? := by
        rw [h.tail, hl]
      obtain ⟨S', heq, hr, hself, hcount⟩ := hplace.putLast debug hm htail hnull hsize hlast
      use S', heq
      apply h.attach hl' ht hr hcount hlt
      rw [hself, hvalue]
      rfl
  | cons u l₂ =>
      have hhead : l₁.getLast? = none → S.head i = some u := h.head_of_getLast? hl
      obtain ⟨S', heq, hr, hself, hcount⟩ := Place.putBefore debug hplace hm (h.node hl) hhead
      use S', heq
      apply h.attach hl ht hr hcount hlt
      rw [hself, hvalue]
      rfl

/-- `pop_back` of a list that is not empty. -/
theorem Holds.popBack (h : Holds S c) (debug : Bool) (hl : c.seq i = l ++ [t]) :
  ∃ S', S.popBack debug i = .ok S' ∧ Holds S' (c.setSeq i l)
  := by
  have hnode := h.node hl
  have hsize := h.size i
  rw [hl, List.length_append, List.length_singleton] at hsize
  have htail : S.tail i = some t := by
    rw [h.tail, hl, List.getLast?_concat]
  have hnull : S.head i ≠ none := by
    rw [h.head, hl, Ne, List.head?_eq_none_iff]
    simp
  have hhead : l.getLast? = none → S.head i = some t ∧ S.size i = 1 := by
    intro hnone
    use h.head_of_getLast? hl hnone
    rw [List.getLast?_eq_none_iff] at hnone
    rw [hsize, hnone]
    rfl
  have hprev : ∀ x ∈ l.getLast?, 1 < S.size i ∧ ∀ k, S.node x = some k → k.next = some t := by
    intro x hx
    obtain ⟨l₀, rfl⟩ := List.getLast?_eq_some_iff.mp hx
    constructor
    · rw [hsize, List.length_append, List.length_singleton]
      omega
    · intro k hk
      rw [List.append_assoc] at hl
      rw [h.node hl, Option.some.injEq] at hk
      rw [← hk]
      rfl
  obtain ⟨S', heq, hr, hcount⟩ := Place.popBack debug (h.place_of_mem hl) hnode rfl htail hnull
    hhead hprev (by rw [hsize]; apply Nat.succ_ne_zero)
  use S', heq
  have hdelete := h.delete hl hr hcount
  rw [List.append_nil] at hdelete
  apply hdelete

/-- `pop_front` of a list that is not empty. -/
theorem Holds.popFront (h : Holds S c) (debug : Bool) (hl : c.seq i = t :: l) :
  ∃ S', S.popFront debug i = .ok S' ∧ Holds S' (c.setSeq i l)
  := by
  have hl' : c.seq i = [] ++ t :: l := hl
  have hnode := h.node hl'
  have hsize := h.size i
  rw [hl, List.length_cons] at hsize
  have hhead : S.head i = some t := by
    rw [h.head, hl, List.head?_cons]
  have hnull : S.tail i ≠ none := by
    rw [h.tail, hl, Ne, List.getLast?_eq_none_iff]
    apply List.cons_ne_nil
  have htail : l.head? = none → S.tail i = some t ∧ S.size i = 1 := by
    intro hnone
    rw [List.head?_eq_none_iff] at hnone
    rw [h.tail, hl, hsize, hnone]
    use rfl
    rfl
  have hnext : ∀ x ∈ l.head?, 1 < S.size i ∧ ∀ k, S.node x = some k → k.prev = some t := by
    intro x hx
    obtain ⟨l₀, rfl⟩ := List.head?_eq_some_iff.mp hx
    constructor
    · rw [hsize, List.length_cons]
      omega
    · intro k hk
      have hl'' : c.seq i = [t] ++ x :: l₀ := hl
      rw [h.node hl'', Option.some.injEq] at hk
      rw [← hk]
      rfl
  obtain ⟨S', heq, hr, hcount⟩ := Place.popFront debug (h.place_of_mem hl') hnode rfl hhead hnull
    htail hnext (by rw [hsize]; apply Nat.succ_ne_zero)
  use S', heq
  apply h.delete hl' hr hcount

/-! ### Nodes that come and go -/

/-- A node that is neither in a list nor kept besides. -/
def Content.Fresh (c : Content ι τ α) (t : τ) : Prop := t ∉ c.loose ∧ ∀ i, t ∉ c.seq i

/-- Something is put into a node. -/
def Content.setValue (c : Content ι τ α) (t : τ) (x : α) : Content ι τ α :=
  { c with value := Function.update c.value t x }

omit [DecidableEq ι] in
theorem Content.setValue_of_ne {a : α} (h : x ≠ t) : (c.setValue t a).value x = c.value x :=
  Function.update_of_ne h ..

omit [DecidableEq ι] in
/-- A new node is in no list. -/
theorem Holds.alloc (h : Holds S c) (a : α) (ht : c.Fresh t) :
  Holds (S.alloc t a) ((c.setValue t a).setLoose (Insert.insert t c.loose))
  := by
  have hne : ∀ i, ∀ x ∈ c.seq i, x ≠ t := by
    rintro i x hx rfl
    apply ht.2 i hx
  have hnode : ∀ x ≠ t, (S.alloc t a).node x = S.node x := by
    intro x hx
    apply Function.update_of_ne hx
  constructor
  · constructor
    · apply h.valid.nodup
    · apply h.valid.apart
    · intro i x hx hxL
      rcases hxL with rfl | hxL
      · apply ht.2 i hx
      · apply h.valid.kept i x hx hxL
  · apply h.head
  · apply h.tail
  · apply h.size
  · intro i
    apply (h.linked i).imp
    intro x hx q k hq
    rw [Records] at hq ⊢
    rw [hnode x (hne i x hx), hq, Content.setLoose_value, Content.setValue_of_ne (hne i x hx)]
  · intro x hx
    by_cases hxt : x = t
    · rw [hxt]
      refine ⟨{ payload := a }, Function.update_self .., ?_⟩
      symm
      apply Function.update_self
    · obtain ⟨n, hn, hvalue⟩ := h.loose x (hx.resolve_left hxt)
      refine ⟨n, ?_, ?_⟩
      · rw [hnode x hxt, hn]
      · rw [hvalue, Content.setLoose_value, Content.setValue_of_ne hxt]

omit [DecidableEq ι] in
/-- A node that is in no list is deleted. -/
theorem Holds.free (h : Holds S c) (ht : t ∈ c.loose) :
  Holds (S.free t) (c.setLoose (c.loose \ {t}))
  := by
  have hne : ∀ i, ∀ x ∈ c.seq i, x ≠ t := by
    rintro i x hx rfl
    apply h.valid.kept i x hx ht
  constructor
  · constructor
    · apply h.valid.nodup
    · apply h.valid.apart
    · rintro i x hx ⟨hxL, -⟩
      apply h.valid.kept i x hx hxL
  · apply h.head
  · apply h.tail
  · apply h.size
  · intro i
    apply (h.linked i).imp
    intro x hx q k hq
    rw [Records] at hq ⊢
    rw [free_node_of_ne (hne i x hx), hq]
    rfl
  · rintro x ⟨hxL, hxt⟩
    rw [free_node_of_ne hxt]
    apply h.loose x hxL

end LinkedLists

end UOS
