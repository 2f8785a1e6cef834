import Cofuos.Util.ListContents

/-!
# Operations on linked lists

The operations of `util/include/linked_list.hpp`, one after another, on any number of lists. What is
expected of them is said by lists: a node is inserted before the node at an iterator, or it is
removed, and nothing else changes.

They do what is expected until a list has so many nodes that its counter wraps around. Then the list
is taken for an empty one.
-/

namespace UOS

namespace LinkedLists

open Fault

variable {w : ℕ} {ι τ α : Type}

/-! ### Operations -/

/-- An operation on lists, or on nodes that are in no list. The node that is allocated is given with
it. -/
inductive Op (ι τ α : Type) where
  | pushFront (i : ι) (t : τ) (a : α)
  | pushBack (i : ι) (t : τ) (a : α)
  | insert (i : ι) (pos : Iterator ι τ) (t : τ) (a : α)
  | popFront (i : ι)
  | popBack (i : ι)
  | erase (i : ι) (pos : Iterator ι τ)
  | splice (i : ι) (pos : Iterator ι τ) (j : ι) (it : Iterator ι τ)
  | getNode (i : ι) (it : Iterator ι τ)
  | putNode (i : ι) (it : Iterator ι τ) (t : τ)
  | newNode (t : τ) (a : α)
  | deleteNode (t : τ)

/-- What an operation returns. -/
inductive Reply (ι τ : Type) where
  | nothing
  | position (it : Iterator ι τ)
  | node (t : τ)

/-- Lists without nodes, as they are constructed. -/
def empty : LinkedLists w ι τ α := ⟨fun _ => none, fun _ => none, fun _ => none, fun _ => 0⟩

/-- No nodes. What is in a node that is not allocated does not matter. -/
def Content.empty (value : τ → α) : Content ι τ α := ⟨fun _ => [], ∅, value⟩

variable [DecidableEq ι] [DecidableEq τ]

/-- Carries out an operation. -/
def step (debug : Bool) (S : LinkedLists w ι τ α) : Op ι τ α →
    Except Fault (Reply ι τ × LinkedLists w ι τ α)
  | .pushFront i t a => do return (.nothing, ← S.pushFront debug i t a)
  | .pushBack i t a => do return (.nothing, ← S.pushBack debug i t a)
  | .insert i pos t a => do
      let (it, S) ← S.insert debug i pos t a
      return (.position it, S)
  | .popFront i => do return (.nothing, ← S.popFront debug i)
  | .popBack i => do return (.nothing, ← S.popBack debug i)
  | .erase i pos => do
      let (it, S) ← S.erase debug i pos
      return (.position it, S)
  | .splice i pos j it => do return (.nothing, ← S.splice debug i pos j it)
  | .getNode i it => do
      let (t, S) ← S.getNode debug i it
      return (.node t, S)
  | .putNode i it t => do return (.nothing, ← S.putNode debug i it t)
  | .newNode t a => return (.nothing, S.alloc t a)
  | .deleteNode t => return (.nothing, S.free t)

/-- The position of an iterator in a list, which is the end if there is no node. -/
def position (l : List τ) : Option τ → ℕ
  | some t => l.idxOf t
  | none => l.length

/-- A node is inserted before the position of an iterator. -/
def inserted (l : List τ) (p : Option τ) (t : τ) : List τ := l.insertIdx (position l p) t

/-- The node at the position of an iterator is removed. -/
def removed (l : List τ) (p : Option τ) : List τ := l.eraseIdx (position l p)

/-- What an operation is expected to do. -/
def Content.step (c : Content ι τ α) : Op ι τ α → Content ι τ α
  | .pushFront i t a => (c.setValue t a).setSeq i (t :: c.seq i)
  | .pushBack i t a => (c.setValue t a).setSeq i (c.seq i ++ [t])
  | .insert i pos t a => (c.setValue t a).setSeq i (inserted (c.seq i) pos.ptr t)
  | .popFront i => c.setSeq i (c.seq i).tail
  | .popBack i => c.setSeq i (c.seq i).dropLast
  | .erase i pos => c.setSeq i (removed (c.seq i) pos.ptr)
  | .splice i pos j it => match it.ptr with
      | some t => (c.setSeq j (removed (c.seq j) (some t))).setSeq i (inserted (c.seq i) pos.ptr t)
      | none => c
  | .getNode i it => match it.ptr with
      | some t => (c.setSeq i (removed (c.seq i) (some t))).setLoose (Insert.insert t c.loose)
      | none => c
  | .putNode i it t => (c.setSeq i (inserted (c.seq i) it.ptr t)).setLoose (c.loose \ {t})
  | .newNode t a => (c.setValue t a).setLoose (Insert.insert t c.loose)
  | .deleteNode t => c.setLoose (c.loose \ {t})

/-- What an operation is expected to return: the position of the new node, the position after the
node that is removed, or the node. -/
def Content.reply (c : Content ι τ α) : Op ι τ α → Reply ι τ
  | .insert i _ t _ => .position ⟨some i, some t⟩
  | .erase i pos => .position ⟨some i, (c.seq i)[position (c.seq i) pos.ptr + 1]?⟩
  | .getNode _ it => match it.ptr with
      | some t => .node t
      | none => .nothing
  | _ => .nothing

/-- The node that an operation removes from its list. -/
def Op.taken (c : Content ι τ α) : Op ι τ α → Option τ
  | .popFront i => (c.seq i).head?
  | .popBack i => (c.seq i).getLast?
  | .erase _ it | .splice _ _ _ it | .getNode _ it => it.ptr
  | _ => none

/-- An iterator of a list, which may be at its end. -/
def Content.Points (c : Content ι τ α) (i : ι) (it : Iterator ι τ) : Prop :=
  it.owner = some i ∧ ∀ t ∈ it.ptr, t ∈ c.seq i

/-- An operation has valid iterators, and its lists are two: a node is removed at an iterator that is
not at the end, a new node is not in use, and one that is put into a list is in no other one. -/
def Op.Legal (c : Content ι τ α) : Op ι τ α → Prop
  | .pushFront _ t _ | .pushBack _ t _ | .newNode t _ => c.Fresh t
  | .insert i pos t _ => c.Points i pos ∧ c.Fresh t
  | .popFront _ | .popBack _ => True
  | .erase i it | .getNode i it => c.Points i it ∧ it.ptr ≠ none
  | .splice i pos j it => i ≠ j ∧ c.Points i pos ∧ c.Points j it ∧ it.ptr ≠ none
  | .putNode i it t => c.Points i it ∧ t ∈ c.loose
  | .deleteNode t => t ∈ c.loose

/-- The counter suffices for one more node, and nothing is taken from an empty list. -/
def Op.Fits (w : ℕ) (c : Content ι τ α) : Op ι τ α → Prop
  | .pushFront i _ _ | .pushBack i _ _ | .insert i _ _ _ | .splice i _ _ _ | .putNode i _ _ =>
      (c.seq i).length + 1 < 2 ^ w
  | .popFront i | .popBack i => c.seq i ≠ []
  | .erase _ _ | .getNode _ _ | .newNode _ _ | .deleteNode _ => True

/-- Each operation of a sequence has a property, for the contents that are expected before it. -/
def Along (P : Content ι τ α → Op ι τ α → Prop) : Content ι τ α → List (Op ι τ α) → Prop
  | _, [] => True
  | c, op :: ops => P c op ∧ Along P (c.step op) ops

/-! ### What is seen of the lists -/

omit [DecidableEq ι] [DecidableEq τ] in
/-- The link of a node to the one after it. -/
def nextOf (S : LinkedLists w ι τ α) (t : τ) : Option τ := (S.node t).bind ListNode.next

omit [DecidableEq ι] [DecidableEq τ] in
/-- The link of a node to the one before it. -/
def prevOf (S : LinkedLists w ι τ α) (t : τ) : Option τ := (S.node t).bind ListNode.prev

/-- The nodes of a list are linked in both directions, and counted. -/
structure WellFormed (S : LinkedLists w ι τ α) (i : ι) (l : List τ) : Prop where
  head_null : S.head i = none ↔ S.count i = 0
  tail_null : S.tail i = none ↔ S.count i = 0
  allocated : ∀ t ∈ l, S.node t ≠ none
  nodup : l.Nodup
  head_prev : ∀ t ∈ S.head i, t ∈ l ∧ S.prevOf t = none
  tail_next : ∀ t ∈ S.tail i, t ∈ l ∧ S.nextOf t = none
  inverse : ∀ t ∈ l, ∀ u ∈ l, S.nextOf t = some u ↔ S.prevOf u = some t
  size : S.size i = l.length

/-- The lists are seen as what they are expected to hold, also by iterators, which go from one node to
the next one. -/
structure Shows (S : LinkedLists w ι τ α) (c : Content ι τ α) : Prop where
  wellFormed : ∀ i, S.WellFormed i (c.seq i)
  begin : ∀ i, S.begin i = ⟨some i, (c.seq i).head?⟩
  last : ∀ i, S.tail i = (c.seq i).getLast?
  advance : ∀ i l₁ t l₂, c.seq i = l₁ ++ t :: l₂ →
    S.advance ⟨some i, some t⟩ = .ok ⟨some i, l₂.head?⟩
  deref : ∀ i, ∀ t ∈ c.seq i, S.deref ⟨some i, some t⟩ = .ok (c.value t)

/-- Iterators to other elements than the one that an operation removes denote the same elements
afterwards. -/
def Keeps (S' : LinkedLists w ι τ α) (c : Content ι τ α) (op : Op ι τ α) : Prop :=
  ∀ i, ∀ t ∈ c.seq i, op.taken c ≠ some t →
    t ∈ (c.step op).seq i ∧ S'.deref ⟨some i, some t⟩ = .ok (c.value t)

/-- Each operation of a sequence ends, without an assertion that fails, and does and returns what is
expected. -/
def Right (debug : Bool) : LinkedLists w ι τ α → Content ι τ α → List (Op ι τ α) → Prop
  | _, _, [] => True
  | S, c, op :: ops => ∃ S', S.step debug op = .ok (c.reply op, S') ∧ Shows S' (c.step op) ∧
      Keeps S' c op ∧ Right debug S' (c.step op) ops

variable {debug : Bool} {S S' : LinkedLists w ι τ α} {c : Content ι τ α} {i j : ι} {t u : τ}
  {l l₁ l₂ : List τ} {p : Option τ} {op : Op ι τ α} {ops : List (Op ι τ α)} {a : α}

omit [DecidableEq ι] [DecidableEq τ] in
theorem Holds.nextOf_eq (h : Holds S c) (hl : c.seq i = l₁ ++ t :: l₂) : S.nextOf t = l₂.head? := by
  rw [nextOf, h.node hl]
  rfl

omit [DecidableEq ι] [DecidableEq τ] in
theorem Holds.prevOf_eq (h : Holds S c) (hl : c.seq i = l₁ ++ t :: l₂) :
  S.prevOf t = l₁.getLast?
  := by
  rw [prevOf, h.node hl]
  rfl

omit [DecidableEq ι] [DecidableEq τ] in
/-- A list that holds nodes is linked as it should be. -/
theorem Holds.wellFormed (h : Holds S c) (i : ι) : S.WellFormed i (c.seq i) := by
  have hcount : S.count i = 0 ↔ c.seq i = [] := by
    rw [← List.length_eq_zero_iff, ← h.size i, LinkedLists.size, BitVec.toNat_eq,
      BitVec.ofNat_eq_ofNat, BitVec.toNat_ofNat, Nat.zero_mod]
  constructor
  · rw [h.head, List.head?_eq_none_iff, hcount]
  · rw [h.tail, List.getLast?_eq_none_iff, hcount]
  · intro t ht
    obtain ⟨n, hn⟩ := h.exists_node ht
    rw [hn]
    apply Option.some_ne_none
  · apply h.valid.nodup
  · intro t ht
    rw [Option.mem_def, h.head] at ht
    obtain ⟨l, hl⟩ := List.head?_eq_some_iff.mp ht
    have hl' : c.seq i = [] ++ t :: l := hl
    use List.mem_of_mem_head? ht
    rw [h.prevOf_eq hl']
    rfl
  · intro t ht
    rw [Option.mem_def, h.tail] at ht
    obtain ⟨l, hl⟩ := List.getLast?_eq_some_iff.mp ht
    use List.mem_of_getLast? ht
    rw [h.nextOf_eq hl]
    rfl
  · intro t ht u hu
    constructor
    · intro hnext
      obtain ⟨l₁, l₂, hl⟩ := List.append_of_mem ht
      rw [h.nextOf_eq hl] at hnext
      obtain ⟨l, rfl⟩ := List.head?_eq_some_iff.mp hnext
      have hl' : c.seq i = (l₁ ++ [t]) ++ u :: l := by
        rw [hl, List.append_assoc, List.singleton_append]
      rw [h.prevOf_eq hl', List.getLast?_concat]
    · intro hprev
      obtain ⟨l₁, l₂, hl⟩ := List.append_of_mem hu
      rw [h.prevOf_eq hl] at hprev
      obtain ⟨l, rfl⟩ := List.getLast?_eq_some_iff.mp hprev
      rw [List.append_assoc, List.singleton_append] at hl
      rw [h.nextOf_eq hl, List.head?_cons]
  · apply h.size

omit [DecidableEq ι] [DecidableEq τ] in
theorem Holds.deref_eq (h : Holds S c) (ht : t ∈ c.seq i) :
  S.deref ⟨some i, some t⟩ = .ok (c.value t)
  := by
  obtain ⟨l₁, l₂, hl⟩ := List.append_of_mem ht
  rw [deref]
  dsimp only
  rw [load_eq (h.node hl)]
  rfl

omit [DecidableEq ι] [DecidableEq τ] in
theorem Holds.shows (h : Holds S c) : Shows S c := by
  constructor
  · apply h.wellFormed
  · intro i
    rw [begin, h.head]
  · apply h.tail
  · intro i l₁ t l₂ hl
    rw [LinkedLists.advance]
    dsimp only
    rw [load_eq (h.node hl)]
    rfl
  · intro i t ht
    apply h.deref_eq ht

/-! ### One operation -/

omit [DecidableEq ι] in
/-- A valid iterator divides its list. -/
theorem exists_split (hnodup : l.Nodup) (hp : ∀ t ∈ p, t ∈ l) :
  ∃ l₁ l₂, l = l₁ ++ l₂ ∧ p = l₂.head? ∧ position l p = l₁.length
  := by
  cases p with
  | none => exact ⟨l, [], (List.append_nil l).symm, rfl, rfl⟩
  | some t =>
      obtain ⟨l₁, l₂, rfl⟩ := List.append_of_mem (hp t rfl)
      refine ⟨l₁, t :: l₂, rfl, rfl, ?_⟩
      rw [List.nodup_middle, List.nodup_cons, List.mem_append, not_or] at hnodup
      rw [position, List.idxOf_append_of_notMem hnodup.1.1, List.idxOf_cons_self, Nat.add_zero]

omit [DecidableEq ι] in
theorem inserted_eq (h : position (l₁ ++ l₂) p = l₁.length) :
  inserted (l₁ ++ l₂) p t = l₁ ++ t :: l₂
  := by
  rw [inserted, h]
  clear h
  induction l₁ with
  | nil => rfl
  | cons x l₁ ih => rw [List.cons_append, List.length_cons, List.insertIdx_succ_cons, ih, List.cons_append]

omit [DecidableEq ι] in
theorem removed_eq (h : position (l₁ ++ t :: l₂) p = l₁.length) :
  removed (l₁ ++ t :: l₂) p = l₁ ++ l₂
  := by
  rw [removed, h, List.eraseIdx_append_of_length_le le_rfl, Nat.sub_self, List.eraseIdx_cons_zero]

omit [DecidableEq ι] in
theorem length_inserted (hnodup : l.Nodup) (hp : ∀ t ∈ p, t ∈ l) :
  (inserted l p t).length = l.length + 1
  := by
  obtain ⟨l₁, l₂, rfl, -, hpos⟩ := exists_split hnodup hp
  rw [inserted_eq hpos, List.length_append, List.length_cons, List.length_append, Nat.add_assoc]

omit [DecidableEq ι] in
/-- The elements of a list are still there after one has been inserted. -/
theorem mem_inserted (hnodup : l.Nodup) (hp : ∀ t ∈ p, t ∈ l) (hu : u ∈ l) : u ∈ inserted l p t := by
  obtain ⟨l₁, l₂, rfl, -, hpos⟩ := exists_split hnodup hp
  rw [inserted_eq hpos]
  apply ((List.sublist_cons_self t l₂).append_left l₁).mem hu

omit [DecidableEq ι] in
/-- The other elements of a list are still there after one has been removed. -/
theorem mem_removed (hnodup : l.Nodup) (ht : t ∈ l) (hu : u ∈ l) (hne : t ≠ u) :
  u ∈ removed l (some t)
  := by
  have hp : ∀ x ∈ some t, x ∈ l := by
    rintro x ⟨⟩
    apply ht
  obtain ⟨l₁, l₂, rfl, hhead, hpos⟩ := exists_split hnodup hp
  obtain ⟨l₃, rfl⟩ := List.head?_eq_some_iff.mp hhead.symm
  rw [removed_eq hpos]
  rw [List.mem_append, List.mem_cons] at hu
  rw [List.mem_append]
  rcases hu with hu | rfl | hu
  · left
    apply hu
  · exact absurd rfl hne
  · right
    apply hu

omit [DecidableEq ι] [DecidableEq τ] in
/-- A node that has come and gone is not kept. -/
theorem Content.setLoose_diff (ht : t ∉ c.loose) :
  (c.setLoose (Insert.insert t c.loose \ {t})) = c
  := by
  rw [Content.setLoose, Set.insert_sdiff_self_of_notMem ht]

/-- A new node is put into a list. -/
theorem Holds.putNew (h : Holds S c) (debug : Bool) (hl : c.seq i = l₁ ++ l₂) (ht : c.Fresh t)
    (hlt : (c.seq i).length + 1 < 2 ^ w) :
  ∃ S', (S.alloc t a).putNode debug i ⟨some i, l₂.head?⟩ t = .ok S' ∧
    Holds S' ((c.setValue t a).setSeq i (l₁ ++ t :: l₂))
  := by
  obtain ⟨S', heq, hS'⟩ := (h.alloc a ht).putNode debug hl (Set.mem_insert t _) hlt
  use S', heq
  rw [← Content.setLoose_diff (c := (c.setValue t a).setSeq i (l₁ ++ t :: l₂)) ht.1]
  apply hS'

omit [DecidableEq ι] [DecidableEq τ] in
/-- A list with a node has a first and a last node. -/
theorem Holds.ends_ne_none (h : Holds S c) (ht : t ∈ c.seq i) :
  S.size i ≠ 0 ∧ S.head i ≠ none ∧ S.tail i ≠ none
  := by
  have hne : c.seq i ≠ [] := List.ne_nil_of_mem ht
  rw [h.size, h.head, h.tail, Ne, List.length_eq_zero_iff, Ne, List.head?_eq_none_iff, Ne,
    List.getLast?_eq_none_iff]
  use hne, hne

/-- `erase` of a node of the list. -/
theorem Holds.erase (h : Holds S c) (debug : Bool) (hl : c.seq i = l₁ ++ t :: l₂) :
  ∃ S', S.erase debug i ⟨some i, some t⟩ = .ok (⟨some i, l₂.head?⟩, S') ∧
    Holds S' (c.setSeq i (l₁ ++ l₂))
  := by
  have ht : t ∈ c.seq i := by
    rw [hl]
    apply List.mem_append_right _ List.mem_cons_self
  obtain ⟨S₁, heq, h₁⟩ := h.getNode debug hl
  have h₂ := h₁.free (Set.mem_insert t _)
  have hends : (S₁.free t).size i = 0 → (S₁.free t).head i = none ∧ (S₁.free t).tail i = none := by
    rw [h₂.size, h₂.head, h₂.tail, List.length_eq_zero_iff]
    intro hnil
    rw [hnil]
    exact ⟨rfl, rfl⟩
  use S₁.free t
  constructor
  · rw [LinkedLists.erase, outside_eq, Except.ok_bind, if_neg Bool.false_ne_true,
      assert_eq_ok fun _ => h.ends_ne_none ht, Except.ok_bind]
    dsimp only
    rw [load_eq (h.node hl), Except.ok_bind]
    dsimp only
    rw [heq, Except.ok_bind]
    dsimp only
    rw [assert_eq_ok fun _ => hends]
    rfl
  · rw [← Content.setLoose_diff (c := c.setSeq i (l₁ ++ l₂)) (h.valid.kept i t ht)]
    apply h₂

/-- `splice` of a node of one list into another list. -/
theorem Holds.splice {m₁ m₂ : List τ} (h : Holds S c) (debug : Bool) (hij : i ≠ j)
    (hi : c.seq i = l₁ ++ l₂) (hj : c.seq j = m₁ ++ t :: m₂) (hlt : (c.seq i).length + 1 < 2 ^ w) :
  ∃ S', S.splice debug i ⟨some i, l₂.head?⟩ j ⟨some j, some t⟩ = .ok S' ∧
    Holds S' ((c.setSeq j (m₁ ++ m₂)).setSeq i (l₁ ++ t :: l₂))
  := by
  have ht : t ∈ c.seq j := by
    rw [hj]
    apply List.mem_append_right _ List.mem_cons_self
  obtain ⟨S₁, heq, h₁⟩ := h.getNode debug hj
  have hi₁ : ((c.setSeq j (m₁ ++ m₂)).setLoose (Insert.insert t c.loose)).seq i = l₁ ++ l₂ := by
    rw [Content.setLoose_seq, Content.setSeq_of_ne hij, hi]
  have hlt₁ : (((c.setSeq j (m₁ ++ m₂)).setLoose (Insert.insert t c.loose)).seq i).length + 1 < 2 ^ w := by
    rw [hi₁, ← hi]
    apply hlt
  obtain ⟨S₂, heq₂, h₂⟩ := h₁.putNode debug hi₁ (Set.mem_insert t _) hlt₁
  use S₂
  constructor
  · rw [LinkedLists.splice, if_neg (not_not.2 rfl), outside_eq, Except.ok_bind,
      if_neg Bool.false_ne_true, assert_eq_ok fun _ => h.ends_ne_none ht, Except.ok_bind, heq, Except.ok_bind]
    apply heq₂
  · rw [← Content.setLoose_diff (c := (c.setSeq j (m₁ ++ m₂)).setSeq i (l₁ ++ t :: l₂))
      (h.valid.kept j t ht)]
    apply h₂

/-- An operation for which the counter suffices does what is expected. -/
theorem Holds.step (h : Holds S c) (debug : Bool) (hlegal : op.Legal c) (hfits : op.Fits w c) :
  ∃ S', S.step debug op = .ok (c.reply op, S') ∧ Holds S' (c.step op)
  := by
  cases op with
  | pushFront i t a =>
      have hl : c.seq i = [] ++ c.seq i := rfl
      obtain ⟨S', heq, hS'⟩ := h.putNew (a := a) debug hl hlegal hfits
      rw [← h.head] at heq
      have hpush : S.pushFront debug i t a = .ok S' := heq
      use S'
      constructor
      · rw [LinkedLists.step, hpush]
        rfl
      · apply hS'
  | pushBack i t a =>
      have hl : c.seq i = c.seq i ++ [] := (List.append_nil _).symm
      obtain ⟨S', heq, hS'⟩ := h.putNew (a := a) debug hl hlegal hfits
      have hpush : S.pushBack debug i t a = .ok S' := heq
      use S'
      constructor
      · rw [LinkedLists.step, hpush]
        rfl
      · apply hS'
  | insert i pos t a =>
      obtain ⟨⟨howner, hptr⟩, hfresh⟩ := hlegal
      obtain ⟨owner, p⟩ := pos
      obtain rfl : owner = some i := howner
      obtain ⟨l₁, l₂, hl, rfl, hpos⟩ := exists_split (h.valid.nodup i) hptr
      obtain ⟨S', heq, hS'⟩ := h.putNew (a := a) debug hl hfresh hfits
      use S'
      constructor
      · rw [LinkedLists.step, LinkedLists.insert, heq]
        rfl
      · rw [hl] at hpos
        rw [Content.step]
        dsimp only
        rw [hl, inserted_eq hpos]
        apply hS'
  | popFront i =>
      obtain ⟨t, l, hl⟩ := List.exists_cons_of_ne_nil hfits
      obtain ⟨S', heq, hS'⟩ := h.popFront debug hl
      use S'
      constructor
      · rw [LinkedLists.step, heq]
        rfl
      · rw [Content.step, hl]
        apply hS'
  | popBack i =>
      obtain ⟨l, t, hl⟩ := (List.eq_nil_or_concat' (c.seq i)).resolve_left hfits
      obtain ⟨S', heq, hS'⟩ := h.popBack debug hl
      use S'
      constructor
      · rw [LinkedLists.step, heq]
        rfl
      · rw [Content.step, hl, List.dropLast_concat]
        apply hS'
  | erase i pos =>
      obtain ⟨⟨howner, hptr⟩, hne⟩ := hlegal
      obtain ⟨owner, p⟩ := pos
      obtain rfl : owner = some i := howner
      obtain ⟨l₁, l₂, hl, rfl, hpos⟩ := exists_split (h.valid.nodup i) hptr
      cases l₂ with
      | nil => exact absurd rfl hne
      | cons t l₂ =>
          obtain ⟨S', heq, hS'⟩ := h.erase debug hl
          use S'
          rw [hl] at hpos
          constructor
          · rw [LinkedLists.step, List.head?_cons, heq, Content.reply]
            dsimp only
            rw [List.head?_cons] at hpos
            rw [hl, hpos, List.getElem?_append_right (Nat.le_add_right _ 1), Nat.add_sub_cancel_left,
              List.getElem?_cons_succ, ← List.head?_eq_getElem?]
            rfl
          · rw [Content.step, hl, removed_eq hpos]
            apply hS'
  | splice i pos j it =>
      obtain ⟨hij, ⟨howner, hptr⟩, ⟨howner', hptr'⟩, hne⟩ := hlegal
      obtain ⟨owner, p⟩ := pos
      obtain ⟨owner', p'⟩ := it
      obtain rfl : owner = some i := howner
      obtain rfl : owner' = some j := howner'
      obtain ⟨l₁, l₂, hl, rfl, hpos⟩ := exists_split (h.valid.nodup i) hptr
      obtain ⟨m₁, m₂, hm, rfl, hpos'⟩ := exists_split (h.valid.nodup j) hptr'
      cases m₂ with
      | nil => exact absurd rfl hne
      | cons t m₂ =>
          obtain ⟨S', heq, hS'⟩ := h.splice debug hij hl hm hfits
          use S'
          rw [hl] at hpos
          rw [hm, List.head?_cons] at hpos'
          constructor
          · rw [LinkedLists.step, List.head?_cons, heq]
            rfl
          · rw [Content.step, List.head?_cons]
            dsimp only
            rw [hl, hm, inserted_eq hpos, removed_eq hpos']
            apply hS'
  | getNode i it =>
      obtain ⟨⟨howner, hptr⟩, hne⟩ := hlegal
      obtain ⟨owner, p⟩ := it
      obtain rfl : owner = some i := howner
      obtain ⟨l₁, l₂, hl, rfl, hpos⟩ := exists_split (h.valid.nodup i) hptr
      cases l₂ with
      | nil => exact absurd rfl hne
      | cons t l₂ =>
          obtain ⟨S', heq, hS'⟩ := h.getNode debug hl
          use S'
          rw [hl, List.head?_cons] at hpos
          constructor
          · rw [LinkedLists.step, List.head?_cons, heq]
            rfl
          · rw [Content.step, List.head?_cons]
            dsimp only
            rw [hl, removed_eq hpos]
            apply hS'
  | putNode i it t =>
      obtain ⟨⟨howner, hptr⟩, hloose⟩ := hlegal
      obtain ⟨owner, p⟩ := it
      obtain rfl : owner = some i := howner
      obtain ⟨l₁, l₂, hl, rfl, hpos⟩ := exists_split (h.valid.nodup i) hptr
      obtain ⟨S', heq, hS'⟩ := h.putNode debug hl hloose hfits
      use S'
      constructor
      · rw [LinkedLists.step, heq]
        rfl
      · rw [hl] at hpos
        rw [Content.step]
        dsimp only
        rw [hl, inserted_eq hpos]
        apply hS'
  | newNode t a => exact ⟨_, rfl, h.alloc a hlegal⟩
  | deleteNode t => exact ⟨_, rfl, h.free hlegal⟩

omit [DecidableEq ι] [DecidableEq τ] in
theorem mem_ne (hp : p ≠ none) (hmem : ∀ t ∈ p, t ∈ l) (hu : p ≠ some u) :
  ∃ t ∈ l, p = some t ∧ t ≠ u
  := by
  obtain ⟨t, rfl⟩ := Option.ne_none_iff_exists'.mp hp
  refine ⟨t, hmem t rfl, rfl, ?_⟩
  rintro rfl
  apply hu rfl

omit [DecidableEq τ] in
theorem mem_setSeq (hu : u ∈ c.seq j) (hl : j = i → u ∈ l) : u ∈ (c.setSeq i l).seq j := by
  by_cases hj : j = i
  · rw [hj, Content.setSeq_self]
    apply hl hj
  · rw [Content.setSeq_of_ne hj]
    apply hu

/-- The other elements stay where they are. -/
theorem Content.Valid.mem_step (hv : c.Valid) (hlegal : op.Legal c) (hu : u ∈ c.seq j)
    (hne : op.taken c ≠ some u) :
  u ∈ (c.step op).seq j
  := by
  cases op with
  | pushFront i t a =>
      apply mem_setSeq (c := c.setValue t a) hu
      rintro rfl
      apply List.mem_cons_of_mem _ hu
  | pushBack i t a =>
      apply mem_setSeq (c := c.setValue t a) hu
      rintro rfl
      apply List.mem_append_left _ hu
  | insert i pos t a =>
      apply mem_setSeq (c := c.setValue t a) hu
      rintro rfl
      apply mem_inserted (hv.nodup j) hlegal.1.2 hu
  | popFront i =>
      apply mem_setSeq hu
      rintro rfl
      obtain ⟨l₁, l₂, hl⟩ := List.append_of_mem hu
      rw [Op.taken, hl] at hne
      rw [hl]
      cases l₁ with
      | nil => exact absurd rfl hne
      | cons x l₁ => simp
  | popBack i =>
      apply mem_setSeq hu
      rintro rfl
      obtain ⟨l₁, l₂, hl⟩ := List.append_of_mem hu
      rcases List.eq_nil_or_concat' l₂ with rfl | ⟨l, x, rfl⟩
      · rw [Op.taken, hl, List.getLast?_concat] at hne
        exact absurd rfl hne
      · rw [hl, ← List.cons_append, ← List.append_assoc, List.dropLast_concat]
        simp
  | erase i pos =>
      obtain ⟨⟨-, hptr⟩, hnone⟩ := hlegal
      apply mem_setSeq hu
      rintro rfl
      obtain ⟨t, ht, hpos, htu⟩ := mem_ne hnone hptr hne
      rw [hpos]
      apply mem_removed (hv.nodup j) ht hu htu
  | splice i pos k it =>
      obtain ⟨hik, ⟨-, hptr⟩, ⟨-, hptr'⟩, hnone⟩ := hlegal
      obtain ⟨t, ht, hpos, htu⟩ := mem_ne hnone hptr' hne
      rw [Content.step, hpos]
      apply mem_setSeq
      · apply mem_setSeq hu
        rintro rfl
        apply mem_removed (hv.nodup j) ht hu htu
      · rintro rfl
        apply mem_inserted (hv.nodup j) hptr hu
  | getNode i it =>
      obtain ⟨⟨-, hptr⟩, hnone⟩ := hlegal
      obtain ⟨t, ht, hpos, htu⟩ := mem_ne hnone hptr hne
      rw [Content.step, hpos]
      apply mem_setSeq hu
      rintro rfl
      apply mem_removed (hv.nodup j) ht hu htu
  | putNode i it t =>
      apply mem_setSeq hu
      rintro rfl
      apply mem_inserted (hv.nodup j) hlegal.1.2 hu
  | newNode t a => exact hu
  | deleteNode t => exact hu

/-- What is in a node does not change as long as the node is there. -/
theorem value_step (hlegal : op.Legal c) (hu : u ∈ c.seq j) : (c.step op).value u = c.value u := by
  have hnew : ∀ (t : τ) (a : α), c.Fresh t → (c.setValue t a).value u = c.value u := by
    intro t a ht
    apply Content.setValue_of_ne
    rintro rfl
    apply ht.2 j hu
  cases op with
  | pushFront i t a => exact hnew t a hlegal
  | pushBack i t a => exact hnew t a hlegal
  | insert i pos t a => exact hnew t a hlegal.2
  | popFront i => rfl
  | popBack i => rfl
  | erase i pos => rfl
  | splice i pos k it =>
      rw [Content.step]
      cases it.ptr with
      | none => rfl
      | some t => rfl
  | getNode i it =>
      rw [Content.step]
      cases it.ptr with
      | none => rfl
      | some t => rfl
  | putNode i it t => rfl
  | newNode t a => exact hnew t a hlegal
  | deleteNode t => rfl

/-- An operation for which the counter does not suffice makes it wrong, or there is nothing to take. -/
theorem Holds.fits (h : Holds S c) (hlegal : op.Legal c)
    (heq : S.step debug op = .ok (c.reply op, S')) (hshows : Shows S' (c.step op)) :
  op.Fits w c
  := by
  have hlt : ∀ i, ((c.step op).seq i).length < 2 ^ w := by
    intro i
    rw [← (hshows.wellFormed i).size]
    apply BitVec.isLt
  have hempty : ∀ i, c.seq i = [] → ¬ S.size i ≠ 0 := by
    intro i hnil hsize
    apply hsize
    rw [h.size, hnil, List.length_nil]
  cases op with
  | pushFront i t a =>
      have hi := hlt i
      rw [Content.step, Content.setSeq_self, List.length_cons] at hi
      apply hi
  | pushBack i t a =>
      have hi := hlt i
      rw [Content.step, Content.setSeq_self, List.length_append, List.length_singleton] at hi
      apply hi
  | insert i pos t a =>
      have hi := hlt i
      rw [Content.step, Content.setSeq_self, length_inserted (h.valid.nodup i) hlegal.1.2] at hi
      apply hi
  | popFront i =>
      intro hnil
      rw [LinkedLists.step, LinkedLists.popFront, if_neg (hempty i hnil)] at heq
      cases heq
  | popBack i =>
      intro hnil
      rw [LinkedLists.step, LinkedLists.popBack, if_neg (hempty i hnil)] at heq
      cases heq
  | erase i pos => trivial
  | splice i pos j it =>
      obtain ⟨-, ⟨-, hptr⟩, -, hnone⟩ := hlegal
      obtain ⟨t, ht⟩ := Option.ne_none_iff_exists'.mp hnone
      have hi := hlt i
      rw [Content.step, ht] at hi
      dsimp only at hi
      rw [Content.setSeq_self, length_inserted (h.valid.nodup i) hptr] at hi
      apply hi
  | getNode i it => trivial
  | putNode i it t =>
      have hi := hlt i
      rw [Content.step, Content.setLoose_seq, Content.setSeq_self,
        length_inserted (h.valid.nodup i) hlegal.1.2] at hi
      apply hi
  | newNode t a => trivial
  | deleteNode t => trivial

/-! ### Runs -/

/-- A sequence of operations is right exactly if the counters suffice for each of them. -/
theorem Holds.right_iff_fits (h : Holds S c) (hlegal : Along Op.Legal c ops) :
  Right debug S c ops ↔ Along (Op.Fits w) c ops
  := by
  induction ops generalizing S c with
  | nil => exact Iff.rfl
  | cons op ops ih =>
      obtain ⟨hop, hrest⟩ := hlegal
      constructor
      · rintro ⟨S', heq, hshows, -, hright⟩
        have hfits := h.fits hop heq hshows
        obtain ⟨S'', heq', hholds⟩ := h.step debug hop hfits
        rw [heq] at heq'
        cases heq'
        use hfits
        apply (ih hholds hrest).mp hright
      · rintro ⟨hfits, hfitsRest⟩
        obtain ⟨S', heq, hholds⟩ := h.step debug hop hfits
        refine ⟨S', heq, hholds.shows, ?_, (ih hholds hrest).mpr hfitsRest⟩
        intro i t ht hne
        have hmem := h.valid.mem_step hop ht hne
        use hmem
        rw [hholds.deref_eq hmem, value_step hop ht]

omit [DecidableEq ι] [DecidableEq τ] in
/-- Lists that have been constructed hold nothing. -/
theorem holds_empty (value : τ → α) : Holds (empty : LinkedLists w ι τ α) (Content.empty value) := by
  constructor
  · constructor
    · intro i
      apply List.nodup_nil
    · intro i j t ht
      cases ht
    · intro i t ht
      cases ht
  · intro i
    rfl
  · intro i
    rfl
  · intro i
    apply BitVec.toNat_zero
  · intro i
    apply Linked.nil
  · intro t ht
    cases ht

/-- From lists that have been constructed, every sequence of operations with valid iterators is right
exactly if nothing is taken from an empty list and no list gets more nodes than its counter can
count. -/
theorem linked_lists_iff (debug : Bool) (value : τ → α) (ops : List (Op ι τ α))
    (hlegal : Along Op.Legal (Content.empty value) ops) :
  Right debug (empty : LinkedLists w ι τ α) (Content.empty value) ops
    ↔ Along (Op.Fits w) (Content.empty value) ops
  := (holds_empty value).right_iff_fits hlegal

/-- Two lists between which nodes travel. -/
def exchange : List (Op Bool ℕ ℕ) :=
  [.pushBack false 1 10, .pushFront false 2 20, .insert false ⟨some false, some 1⟩ 3 30,
    .splice true ⟨some true, none⟩ false ⟨some false, some 3⟩, .getNode false ⟨some false, some 2⟩,
    .putNode true ⟨some true, some 3⟩ 2, .erase false ⟨some false, some 1⟩, .popBack true,
    .popFront true]

theorem exchange_right :
  Right true (empty : LinkedLists 32 Bool ℕ ℕ) (Content.empty fun _ => 0) exchange
  := by
  apply (linked_lists_iff true (fun _ => 0) exchange _).mpr
  · simp [exchange, Along, Op.Fits, Content.step, Content.empty, Content.setSeq, Content.setLoose,
      Content.setValue, inserted, removed, position]
  · simp [exchange, Along, Op.Legal, Content.Points, Content.Fresh, Content.step, Content.empty,
      Content.setSeq, Content.setLoose, Content.setValue, inserted, removed, position]

/-! ### Too many nodes -/

/-- So many nodes are put at the end of a list. -/
def pushes (k n : ℕ) : List (Op Unit ℕ Unit) := (List.range' k n).map fun t => .pushBack () t ()

/-- A list of so many nodes. -/
def filled (k : ℕ) : Content Unit ℕ Unit := ⟨fun _ => List.range k, ∅, fun _ => ()⟩

theorem step_filled (k : ℕ) : (filled k).step (.pushBack () k ()) = filled (k + 1) := by
  have hseq : Function.update (fun _ : Unit => List.range k) () (List.range k ++ [k]) =
      fun _ => List.range (k + 1) := by
    funext i
    rw [Function.update_self, List.range_succ]
  exact congrArg (fun seq => Content.mk seq ∅ fun _ => ()) hseq

theorem pushes_succ (k n : ℕ) : pushes k (n + 1) = .pushBack () k () :: pushes (k + 1) n := by
  rw [pushes, List.range'_succ, List.map_cons, pushes]

theorem legal_pushes (k n : ℕ) : Along Op.Legal (filled k) (pushes k n) := by
  induction n generalizing k with
  | zero => trivial
  | succ n ih =>
      rw [pushes_succ]
      constructor
      · constructor
        · apply Set.notMem_empty
        · intro i hk
          apply lt_irrefl k (List.mem_range.mp hk)
      · rw [step_filled]
        apply ih

/-- The counter suffices for fewer nodes than it has values. -/
theorem lt_of_fits_pushes {k n : ℕ} (hk : k < 2 ^ w) (h : Along (Op.Fits w) (filled k) (pushes k n)) :
  k + n < 2 ^ w
  := by
  induction n generalizing k with
  | zero => exact hk
  | succ n ih =>
      rw [pushes_succ] at h
      obtain ⟨hfits, hrest⟩ := h
      have hlt : (List.range k).length + 1 < 2 ^ w := hfits
      rw [List.length_range] at hlt
      rw [step_filled] at hrest
      rw [Nat.add_comm n 1, ← Nat.add_assoc]
      apply ih hlt hrest

/-- A counter of one byte has wrapped around when the list has `2 ^ 8` nodes. -/
theorem counter_wraps :
  Along Op.Legal (Content.empty fun _ => ()) (pushes 0 (2 ^ 8)) ∧
    ¬ Right true (empty : LinkedLists 8 Unit ℕ Unit) (Content.empty fun _ => ()) (pushes 0 (2 ^ 8))
  := by
  have hlegal := legal_pushes 0 (2 ^ 8)
  constructor
  · apply hlegal
  · intro hright
    have hfits := ((holds_empty fun _ => ()).right_iff_fits hlegal).mp hright
    have hlt : 0 + 2 ^ 8 < 2 ^ 8 := lt_of_fits_pushes (Nat.two_pow_pos 8) hfits
    rw [Nat.zero_add] at hlt
    apply lt_irrefl _ hlt

end LinkedLists

end UOS
