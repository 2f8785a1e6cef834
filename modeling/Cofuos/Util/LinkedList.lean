import Cofuos.Lib.Fault
import Cofuos.Lib.Linked

/-!
# The linked list

`linked_list` of `util/include/linked_list.hpp`. The nodes of a list are linked in both directions, and
the list has pointers to the first and the last node and a counter, whose type is a parameter of the
list. A node may be taken from one list and put into another one, and until then it keeps the links
that it had.

We describe several lists together with the memory of their nodes, and follow the definitions
pointer by pointer. An access to a node that is not there (the pointer is null, or the node has been
deleted) is a fault.

What a list holds is a list of nodes. The operations do to it what is expected of them as long as the
counter does not wrap around.
-/

namespace UOS

/-- `node` -/
structure ListNode (τ α : Type) where
  prev : Option τ := none
  next : Option τ := none
  payload : α
  deriving DecidableEq, Repr

/-- Lists that are named by `ι`, with the nodes that are allocated. A counter has `w` bits. -/
structure LinkedLists (w : ℕ) (ι τ α : Type) where
  node : τ → Option (ListNode τ α)
  head : ι → Option τ
  tail : ι → Option τ
  count : ι → BitVec w

namespace LinkedLists

open Fault

/-- `iterator`, and `const_iterator` -/
structure Iterator (ι τ : Type) where
  owner : Option ι := none
  ptr : Option τ := none
  deriving DecidableEq, Repr

variable {w : ℕ} {ι τ α : Type} [DecidableEq ι] [DecidableEq τ]

/-! ### Nodes -/

/-- Reads a node. -/
def load (S : LinkedLists w ι τ α) (p : Option τ) : Except Fault (τ × ListNode τ α) :=
  match p with
  | none => .error (.bugcheck "null pointer")
  | some t => match S.node t with
      | none => .error (.bugcheck "deleted node")
      | some n => .ok (t, n)

def setPrev (S : LinkedLists w ι τ α) (t : τ) (p : Option τ) :
    Except Fault (LinkedLists w ι τ α) := do
  let (t, n) ← S.load (some t)
  return { S with node := Function.update S.node t (some { n with prev := p }) }

def setNext (S : LinkedLists w ι τ α) (t : τ) (p : Option τ) :
    Except Fault (LinkedLists w ι τ α) := do
  let (t, n) ← S.load (some t)
  return { S with node := Function.update S.node t (some { n with next := p }) }

/-- `new node` -/
def alloc (S : LinkedLists w ι τ α) (t : τ) (x : α) : LinkedLists w ι τ α :=
  { S with node := Function.update S.node t (some { payload := x }) }

/-- `delete` of a node -/
def free (S : LinkedLists w ι τ α) (t : τ) : LinkedLists w ι τ α :=
  { S with node := Function.update S.node t none }

/-! ### The fields of a list -/

def setHead (S : LinkedLists w ι τ α) (i : ι) (p : Option τ) : LinkedLists w ι τ α :=
  { S with head := Function.update S.head i p }

def setTail (S : LinkedLists w ι τ α) (i : ι) (p : Option τ) : LinkedLists w ι τ α :=
  { S with tail := Function.update S.tail i p }

/-- `++count` -/
def increment (S : LinkedLists w ι τ α) (i : ι) : LinkedLists w ι τ α :=
  { S with count := Function.update S.count i (S.count i + 1) }

/-- `--count` -/
def decrement (S : LinkedLists w ι τ α) (i : ι) : LinkedLists w ι τ α :=
  { S with count := Function.update S.count i (S.count i - 1) }

/-- `size` -/
def size (S : LinkedLists w ι τ α) (i : ι) : ℕ := (S.count i).toNat

/-! ### Iterators -/

/-- `begin` -/
def begin (S : LinkedLists w ι τ α) (i : ι) : Iterator ι τ := ⟨some i, S.head i⟩

/-- `end` -/
def «end» (i : ι) : Iterator ι τ := ⟨some i, none⟩

/-- `operator==` -/
def Iterator.eq (it cmp : Iterator ι τ) : Except Fault Bool :=
  if it.owner = cmp.owner then .ok (it.ptr = cmp.ptr)
  else .error (.bugcheck "compare iterators of different containers (%p,%p)")

/-- `operator++` -/
def advance (S : LinkedLists w ι τ α) (it : Iterator ι τ) : Except Fault (Iterator ι τ) :=
  match it.ptr with
  | none => .error (.bugcheck "iterator move past the end @ %p")
  | some t => do
      let (_, n) ← S.load (some t)
      return { it with ptr := n.next }

/-- `operator*` -/
def deref (S : LinkedLists w ι τ α) (it : Iterator ι τ) : Except Fault α :=
  match it.ptr with
  | none => .error (.bugcheck "deref empty iterator @ %p")
  | some t => do
      let (_, n) ← S.load (some t)
      return n.payload

/-- `it.owner != this || it == end()` -/
def Iterator.outside (it : Iterator ι τ) (i : ι) : Except Fault Bool :=
  if it.owner ≠ some i then .ok true else it.eq («end» i)

/-! ### Taking and putting nodes -/

/-- The node before `pos`, or the list if there is none, gets another node after it. -/
def setAfter (debug : Bool) (S : LinkedLists w ι τ α) (i : ι) (pos : τ) (prev next : Option τ) :
    Except Fault (LinkedLists w ι τ α) :=
  match prev with
  | some t => S.setNext t next
  | none => do
      assert debug (S.head i = some pos)
      return S.setHead i next

/-- The node after `pos`, or the list if there is none, gets another node before it. -/
def setBefore (debug : Bool) (S : LinkedLists w ι τ α) (i : ι) (pos : τ) (next prev : Option τ) :
    Except Fault (LinkedLists w ι τ α) :=
  match next with
  | some t => S.setPrev t prev
  | none => do
      assert debug (S.tail i = some pos)
      return S.setTail i prev

/-- `get_node` -/
def getNode (debug : Bool) (S : LinkedLists w ι τ α) (i : ι) (it : Iterator ι τ) :
    Except Fault (τ × LinkedLists w ι τ α) := do
  if ← it.outside i then .error (.bugcheck "invalid iterator %p for get_node @ %p")
  else
    let (pos, n) ← S.load it.ptr
    let S ← S.setAfter debug i pos n.prev n.next
    let (pos, n) ← S.load (some pos)
    let S ← S.setBefore debug i pos n.next n.prev
    return (pos, S.decrement i)

/-- `put_node` before a node. -/
def putBefore (debug : Bool) (S : LinkedLists w ι τ α) (i : ι) (pos cur : τ) :
    Except Fault (LinkedLists w ι τ α) := do
  let (_, n) ← S.load (some pos)
  let S ← S.setPrev cur n.prev
  let S ← S.setNext cur (some pos)
  let (_, n) ← S.load (some pos)
  let S ← S.setAfter debug i pos n.prev (some cur)
  let S ← S.setPrev pos (some cur)
  return S.increment i

/-- `put_node` at the end. -/
def putLast (debug : Bool) (S : LinkedLists w ι τ α) (i : ι) (cur : τ) :
    Except Fault (LinkedLists w ι τ α) := do
  let S ← S.setNext cur none
  if S.size i ≠ 0 then
    assert debug (S.head i ≠ none ∧ S.tail i ≠ none)
    let (last, n) ← S.load (S.tail i)
    assert debug (n.next = none)
    let S ← S.setNext last (some cur)
    let S ← S.setPrev cur (S.tail i)
    return (S.setTail i (some cur)).increment i
  else
    assert debug (S.head i = none ∧ S.tail i = none)
    let S ← S.setPrev cur none
    return ((S.setHead i (some cur)).setTail i (some cur)).increment i

/-- `put_node` -/
def putNode (debug : Bool) (S : LinkedLists w ι τ α) (i : ι) (it : Iterator ι τ) (cur : τ) :
    Except Fault (LinkedLists w ι τ α) :=
  if it.owner ≠ some i then .error (.bugcheck "invalid iterator %p for put_node @ %p")
  else match it.ptr with
    | some pos => S.putBefore debug i pos cur
    | none => S.putLast debug i cur

/-! ### Inserting and removing -/

/-- `push_back`, where a node is allocated at `t`. -/
def pushBack (debug : Bool) (S : LinkedLists w ι τ α) (i : ι) (t : τ) (x : α) :
    Except Fault (LinkedLists w ι τ α) :=
  (S.alloc t x).putNode debug i («end» i) t

/-- `push_front`, where a node is allocated at `t`. -/
def pushFront (debug : Bool) (S : LinkedLists w ι τ α) (i : ι) (t : τ) (x : α) :
    Except Fault (LinkedLists w ι τ α) :=
  let S := S.alloc t x
  S.putNode debug i (S.begin i) t

/-- `insert`, where a node is allocated at `t`. -/
def insert (debug : Bool) (S : LinkedLists w ι τ α) (i : ι) (pos : Iterator ι τ) (t : τ) (x : α) :
    Except Fault (Iterator ι τ × LinkedLists w ι τ α) := do
  let S ← (S.alloc t x).putNode debug i pos t
  return (⟨some i, some t⟩, S)

/-- `pop_back` -/
def popBack (debug : Bool) (S : LinkedLists w ι τ α) (i : ι) :
    Except Fault (LinkedLists w ι τ α) := do
  if S.size i ≠ 0 then
    assert debug (S.head i ≠ none ∧ S.tail i ≠ none)
    let (cur, n) ← S.load (S.tail i)
    assert debug (n.next = none)
    match n.prev with
    | some prev =>
        assert debug (1 < S.size i)
        let (prev, m) ← S.load (some prev)
        assert debug (m.next = some cur)
        let S ← (S.setTail i (some prev)).setNext prev none
        return (S.free cur).decrement i
    | none =>
        assert debug (S.size i = 1)
        assert debug (S.head i = S.tail i)
        return (((S.setHead i none).setTail i none).free cur).decrement i
  else .error (.bugcheck "access empty list @ %p")

/-- `pop_front` -/
def popFront (debug : Bool) (S : LinkedLists w ι τ α) (i : ι) :
    Except Fault (LinkedLists w ι τ α) := do
  if S.size i ≠ 0 then
    assert debug (S.head i ≠ none ∧ S.tail i ≠ none)
    let (cur, n) ← S.load (S.head i)
    assert debug (n.prev = none)
    match n.next with
    | some next =>
        assert debug (1 < S.size i)
        let (next, m) ← S.load (some next)
        assert debug (m.prev = some cur)
        let S ← (S.setHead i (some next)).setPrev next none
        return (S.free cur).decrement i
    | none =>
        assert debug (S.size i = 1)
        assert debug (S.head i = S.tail i)
        return (((S.setHead i none).setTail i none).free cur).decrement i
  else .error (.bugcheck "access empty list @ %p")

/-- `erase`. Returns the position after the node. -/
def erase (debug : Bool) (S : LinkedLists w ι τ α) (i : ι) (pos : Iterator ι τ) :
    Except Fault (Iterator ι τ × LinkedLists w ι τ α) := do
  if ← pos.outside i then .error (.bugcheck "invalid iterator %p for erase @ %p")
  else
    assert debug (S.size i ≠ 0 ∧ S.head i ≠ none ∧ S.tail i ≠ none)
    let (_, n) ← S.load pos.ptr
    let (t, S) ← S.getNode debug i pos
    let S := S.free t
    assert debug (S.size i = 0 → S.head i = none ∧ S.tail i = none)
    return (⟨some i, n.next⟩, S)

/-- `splice` of a node of the list `j` into the list `i`. -/
def splice (debug : Bool) (S : LinkedLists w ι τ α) (i : ι) (pos : Iterator ι τ) (j : ι)
    (it : Iterator ι τ) : Except Fault (LinkedLists w ι τ α) := do
  if pos.owner ≠ some i then .error (.bugcheck "invalid iterator (%p,%p) for splice @ (%p,%p)")
  else if ← it.outside j then
    .error (.bugcheck "invalid iterator (%p,%p) for splice @ (%p,%p)")
  else
    assert debug (S.size j ≠ 0 ∧ S.head j ≠ none ∧ S.tail j ≠ none)
    let (t, S) ← S.getNode debug j it
    S.putNode debug i pos t

/-! ### The memory after a change of links -/

variable {debug : Bool} {S S' : LinkedLists w ι τ α} {i j : ι} {t u x : τ} {m n : ListNode τ α}
  {p q v : Option τ} {l l₁ l₂ : List τ}

/-- The link of a node to the one after it is changed, or the first node of a list. -/
def withNext (S : LinkedLists w ι τ α) (i : ι) (p v : Option τ) : LinkedLists w ι τ α :=
  { S with
    node := fun x => if p = some x then (S.node x).map fun n => { n with next := v } else S.node x
    head := if p = none then Function.update S.head i v else S.head }

/-- The link of a node to the one before it is changed, or the last node of a list. -/
def withPrev (S : LinkedLists w ι τ α) (i : ι) (p v : Option τ) : LinkedLists w ι τ α :=
  { S with
    node := fun x => if p = some x then (S.node x).map fun n => { n with prev := v } else S.node x
    tail := if p = none then Function.update S.tail i v else S.tail }

@[simp]
theorem withNext_node : (S.withNext i p v).node x =
    if p = some x then (S.node x).map fun n => { n with next := v } else S.node x
  := rfl

@[simp]
theorem withPrev_node : (S.withPrev i p v).node x =
    if p = some x then (S.node x).map fun n => { n with prev := v } else S.node x
  := rfl

@[simp]
theorem withNext_tail : (S.withNext i p v).tail = S.tail := rfl

omit [DecidableEq ι] [DecidableEq τ] in
theorem load_eq (h : S.node t = some n) : S.load (some t) = .ok (t, n) := by
  rw [load, h]

omit [DecidableEq ι] in
/-- A node is changed. -/
theorem update_map (h : S.node t = some n) (f : ListNode τ α → ListNode τ α) :
  Function.update S.node t (some (f n)) =
    fun x => if some t = some x then (S.node x).map f else S.node x
  := by
  funext x
  by_cases hx : x = t
  · rw [hx, Function.update_self, if_pos rfl, h, Option.map_some]
  · rw [Function.update_of_ne hx, if_neg]
    rintro ⟨⟩
    apply hx rfl

theorem setNext_eq (h : S.node t = some n) (i : ι) (v : Option τ) :
  S.setNext t v = .ok (S.withNext i (some t) v)
  := by
  rw [setNext, load_eq h, withNext, if_neg (Option.some_ne_none t),
    ← update_map h fun n => { n with next := v }]
  rfl

theorem setPrev_eq (h : S.node t = some n) (i : ι) (v : Option τ) :
  S.setPrev t v = .ok (S.withPrev i (some t) v)
  := by
  rw [setPrev, load_eq h, withPrev, if_neg (Option.some_ne_none t),
    ← update_map h fun n => { n with prev := v }]
  rfl

omit [DecidableEq ι] in
theorem free_node_of_ne (h : x ≠ t) : (S.free t).node x = S.node x := Function.update_of_ne h ..

theorem setHead_eq : S.setHead i v = S.withNext i none v := by
  simp [setHead, withNext]

theorem setTail_eq : S.setTail i v = S.withPrev i none v := by
  simp [setTail, withPrev]

theorem setAfter_eq (debug : Bool) (hnode : ∀ x ∈ p, ∃ n, S.node x = some n)
    (hhead : p = none → S.head i = some t) :
  S.setAfter debug i t p v = .ok (S.withNext i p v)
  := by
  cases p with
  | none =>
      rw [setAfter, assert_eq_ok fun _ => hhead rfl, Except.ok_bind, setHead_eq]
      rfl
  | some x =>
      obtain ⟨n, hn⟩ := hnode x rfl
      rw [setAfter, setNext_eq hn i]

theorem setBefore_eq (debug : Bool) (hnode : ∀ x ∈ p, ∃ n, S.node x = some n)
    (htail : p = none → S.tail i = some t) :
  S.setBefore debug i t p v = .ok (S.withPrev i p v)
  := by
  cases p with
  | none =>
      rw [setBefore, assert_eq_ok fun _ => htail rfl, Except.ok_bind, setTail_eq]
      rfl
  | some x =>
      obtain ⟨n, hn⟩ := hnode x rfl
      rw [setBefore, setPrev_eq hn i]

theorem outside_eq (i : ι) (t : τ) : (Iterator.mk (some i) (some t)).outside i = .ok false := by
  simp [Iterator.outside, Iterator.eq, «end»]

/-! ### What the operations do to the links -/

/-- A place for the node `t` between the nodes `p` and `q`, of which there is none at the end of a
list. -/
structure Place (S : LinkedLists w ι τ α) (t : τ) (p q : Option τ) : Prop where
  prev_node : ∀ x ∈ p, ∃ n, S.node x = some n
  next_node : ∀ x ∈ q, ∃ n, S.node x = some n
  prev_ne : p ≠ some t
  next_ne : q ≠ some t
  apart : ∀ x ∈ p, q ≠ some x

/-- The node before a place gets `a` after it, and the node after it gets `b` before it. Of the other
nodes only `t` may change. -/
structure Rewired (S S' : LinkedLists w ι τ α) (i : ι) (t : τ) (p q a b : Option τ) : Prop where
  node : ∀ x ≠ t, S'.node x =
    if p = some x then (S.node x).map fun n => { n with next := a }
    else if q = some x then (S.node x).map fun n => { n with prev := b }
    else S.node x
  head : S'.head = if p = none then Function.update S.head i a else S.head
  tail : S'.tail = if q = none then Function.update S.tail i b else S.tail

/-- The node at a place may be deleted, and counted no more. -/
theorem Rewired.delete {a b : Option τ} (h : S.Rewired S' i t p q a b) :
  S.Rewired ((S'.free t).decrement i) i t p q a b
  := by
  constructor
  · intro x hx
    rw [← h.node x hx]
    apply free_node_of_ne hx
  · apply h.head
  · apply h.tail

/-- A node is taken from its place. -/
theorem Place.getNode (debug : Bool) (h : S.Place t n.prev n.next) (ht : S.node t = some n)
    (hhead : n.prev = none → S.head i = some t) (htail : n.next = none → S.tail i = some t) :
  ∃ S', S.getNode debug i ⟨some i, some t⟩ = .ok (t, S') ∧
    S.Rewired S' i t n.prev n.next n.next n.prev ∧ S'.node t = some n ∧
    S'.count = Function.update S.count i (S.count i - 1)
  := by
  have ht' : (S.withNext i n.prev n.next).node t = some n := by
    rw [withNext_node, if_neg h.prev_ne, ht]
  have hnext : ∀ x ∈ n.next, ∃ m, (S.withNext i n.prev n.next).node x = some m := by
    intro x hx
    rw [withNext_node, if_neg]
    · apply h.next_node x hx
    · intro hp
      apply h.apart x hp hx
  have htail' : n.next = none → (S.withNext i n.prev n.next).tail i = some t := by
    rw [withNext_tail]
    apply htail
  use ((S.withNext i n.prev n.next).withPrev i n.next n.prev).decrement i
  constructor
  · rw [LinkedLists.getNode, outside_eq, Except.ok_bind, if_neg Bool.false_ne_true, load_eq ht,
      Except.ok_bind]
    dsimp only
    rw [setAfter_eq debug h.prev_node hhead, Except.ok_bind, load_eq ht', Except.ok_bind]
    dsimp only
    rw [setBefore_eq debug hnext htail']
    rfl
  · refine ⟨⟨?_, rfl, rfl⟩, ?_, rfl⟩
    · intro x _
      change (if n.next = some x then _ else _) = _
      by_cases hp : n.prev = some x
      · rw [if_neg (h.apart x hp), if_pos hp, withNext_node, if_pos hp]
      · rw [if_neg hp, withNext_node, if_neg hp]
    · change (if n.next = some t then _ else _) = _
      rw [if_neg h.next_ne, ht']

/-- A node is put at its place, before another node. -/
theorem Place.putBefore (debug : Bool) (h : S.Place t n.prev (some u)) (ht : S.node t = some m)
    (hu : S.node u = some n) (hhead : n.prev = none → S.head i = some u) :
  ∃ S', S.putBefore debug i u t = .ok S' ∧
    S.Rewired S' i t n.prev (some u) (some t) (some t) ∧
    S'.node t = some { m with prev := n.prev, next := some u } ∧
    S'.count = Function.update S.count i (S.count i + 1)
  := by
  have htu : t ≠ u := by
    rintro rfl
    apply h.next_ne rfl
  have hne : ∀ x ≠ t, (some t : Option τ) ≠ some x := by
    rintro x hx ⟨⟩
    apply hx rfl
  let S₁ := S.withPrev i (some t) n.prev
  let S₂ := S₁.withNext i (some t) (some u)
  let S₃ := S₂.withNext i n.prev (some t)
  have ht₁ : S₁.node t = some { m with prev := n.prev } := by
    rw [withPrev_node, if_pos rfl, ht, Option.map_some]
  have hother : ∀ x ≠ t, S₂.node x = S.node x := by
    intro x hx
    rw [withNext_node, if_neg (hne x hx), withPrev_node, if_neg (hne x hx)]
  have hu₂ : S₂.node u = some n := by
    rw [hother u htu.symm, hu]
  have hnode₂ : ∀ x ∈ n.prev, ∃ k, S₂.node x = some k := by
    intro x hx
    rw [hother x]
    · apply h.prev_node x hx
    · rintro rfl
      apply h.prev_ne hx
  have hu₃ : S₃.node u = some n := by
    rw [withNext_node, if_neg, hu₂]
    intro hp
    apply h.apart u hp rfl
  use (S₃.withPrev i (some u) (some t)).increment i
  constructor
  · rw [LinkedLists.putBefore, load_eq hu, Except.ok_bind]
    dsimp only
    rw [setPrev_eq ht i, Except.ok_bind, setNext_eq ht₁ i, Except.ok_bind, load_eq hu₂,
      Except.ok_bind]
    dsimp only
    rw [setAfter_eq debug hnode₂ hhead, Except.ok_bind, setPrev_eq hu₃ i]
    rfl
  · refine ⟨⟨?_, rfl, rfl⟩, ?_, rfl⟩
    · intro x hx
      change (if some u = some x then Option.map _ (S₃.node x) else S₃.node x) = _
      by_cases hp : n.prev = some x
      · rw [if_neg (h.apart x hp), if_pos hp, withNext_node, if_pos hp, hother x hx]
      · rw [if_neg hp, withNext_node, if_neg hp, hother x hx]
    · change (if some u = some t then Option.map _ (S₃.node t) else S₃.node t) = _
      rw [if_neg h.next_ne, withNext_node, if_neg h.prev_ne, withNext_node, if_pos rfl, ht₁,
        Option.map_some]

/-- A node is put at its place, at the end of a list. -/
theorem Place.putLast (debug : Bool) (h : S.Place t p none) (ht : S.node t = some m)
    (htail : S.tail i = p) (hnull : p = none ↔ S.head i = none) (hsize : p = none ↔ S.size i = 0)
    (hlast : ∀ x ∈ p, ∀ k, S.node x = some k → k.next = none) :
  ∃ S', S.putLast debug i t = .ok S' ∧ S.Rewired S' i t p none (some t) (some t) ∧
    S'.node t = some { m with prev := p, next := none } ∧
    S'.count = Function.update S.count i (S.count i + 1)
  := by
  have hne : ∀ x ≠ t, (some t : Option τ) ≠ some x := by
    rintro x hx ⟨⟩
    apply hx rfl
  let S₁ := S.withNext i (some t) none
  have ht₁ : S₁.node t = some { m with next := none } := by
    rw [withNext_node, if_pos rfl, ht, Option.map_some]
  have hother : ∀ x ≠ t, S₁.node x = S.node x := by
    intro x hx
    rw [withNext_node, if_neg (hne x hx)]
  cases p with
  | none =>
      have hzero : S₁.size i = 0 := hsize.mp rfl
      use ((((S₁.withPrev i (some t) none).withNext i none (some t)).withPrev i none
        (some t)).increment i)
      constructor
      · rw [LinkedLists.putLast, setNext_eq ht i, Except.ok_bind, if_neg (not_not.2 hzero),
          assert_eq_ok fun _ => ⟨hnull.mp rfl, htail⟩, Except.ok_bind, setPrev_eq ht₁ i,
          Except.ok_bind, setHead_eq, setTail_eq]
        rfl
      · refine ⟨⟨?_, rfl, rfl⟩, ?_, rfl⟩
        · intro x hx
          change (if some t = some x then Option.map _ (S₁.node x) else S₁.node x) = _
          rw [if_neg (hne x hx), hother x hx]
          rfl
        · change (if some t = some t then Option.map _ (S₁.node t) else S₁.node t) = _
          rw [if_pos rfl, ht₁, Option.map_some]
  | some y =>
      obtain ⟨k, hk⟩ := h.prev_node y rfl
      have hyt : y ≠ t := by
        rintro rfl
        apply h.prev_ne rfl
      have hy₁ : S₁.node y = some k := by
        rw [hother y hyt, hk]
      let S₂ := S₁.withNext i (some y) (some t)
      have ht₂ : S₂.node t = some { m with next := none } := by
        rw [withNext_node, if_neg h.prev_ne, ht₁]
      have hzero : S₁.size i ≠ 0 := by
        intro hzero
        cases hsize.mpr hzero
      have hnot : S₁.head i ≠ none ∧ S₁.tail i ≠ none := by
        constructor
        · intro hnone
          cases hnull.mpr hnone
        · change S.tail i ≠ none
          rw [htail]
          apply Option.some_ne_none
      use ((S₂.withPrev i (some t) (some y)).withPrev i none (some t)).increment i
      constructor
      · rw [LinkedLists.putLast, setNext_eq ht i, Except.ok_bind, if_pos hzero,
          assert_eq_ok fun _ => hnot, Except.ok_bind]
        change (S₁.load (S.tail i) >>= _) = _
        rw [htail, load_eq hy₁, Except.ok_bind]
        dsimp only
        rw [assert_eq_ok fun _ => hlast y rfl k hk, Except.ok_bind, setNext_eq hy₁ i,
          Except.ok_bind]
        change (S₂.setPrev t (S.tail i) >>= _) = _
        rw [htail, setPrev_eq ht₂ i, Except.ok_bind, setTail_eq]
        rfl
      · refine ⟨⟨?_, rfl, rfl⟩, ?_, rfl⟩
        · intro x hx
          change (if some t = some x then Option.map _ (S₂.node x) else S₂.node x) = _
          rw [if_neg (hne x hx), withNext_node, hother x hx]
          rfl
        · change (if some t = some t then Option.map _ (S₂.node t) else S₂.node t) = _
          rw [if_pos rfl, ht₂, Option.map_some]

/-- The last node is taken from its place and deleted. -/
theorem Place.popBack (debug : Bool) (h : S.Place t n.prev none) (ht : S.node t = some n)
    (hnext : n.next = none) (htail : S.tail i = some t) (hnull : S.head i ≠ none)
    (hhead : n.prev = none → S.head i = some t ∧ S.size i = 1)
    (hprev : ∀ x ∈ n.prev, 1 < S.size i ∧ ∀ k, S.node x = some k → k.next = some t)
    (hsize : S.size i ≠ 0) :
  ∃ S', S.popBack debug i = .ok S' ∧ S.Rewired S' i t n.prev none none n.prev ∧
    S'.count = Function.update S.count i (S.count i - 1)
  := by
  have hends : S.head i ≠ none ∧ S.tail i ≠ none := by
    refine ⟨hnull, ?_⟩
    rw [htail]
    apply Option.some_ne_none
  rw [LinkedLists.popBack, if_pos hsize, assert_eq_ok fun _ => hends, Except.ok_bind, htail,
    load_eq ht, Except.ok_bind]
  dsimp only
  rw [assert_eq_ok fun _ => hnext, Except.ok_bind]
  cases hp : n.prev with
  | none =>
      obtain ⟨hfirst, hone⟩ := hhead hp
      dsimp only
      rw [assert_eq_ok fun _ => hone, Except.ok_bind, hfirst, assert_eq_ok fun _ => rfl,
        Except.ok_bind, setHead_eq, setTail_eq]
      refine ⟨_, rfl, Rewired.delete ⟨?_, rfl, rfl⟩, rfl⟩
      intro x _
      rfl
  | some y =>
      obtain ⟨hone, hlink⟩ := hprev y hp
      obtain ⟨k, hk⟩ := h.prev_node y hp
      have hk' : (S.setTail i (some y)).node y = some k := hk
      dsimp only
      rw [assert_eq_ok fun _ => hone, Except.ok_bind, load_eq hk, Except.ok_bind]
      dsimp only
      rw [assert_eq_ok fun _ => hlink k hk, Except.ok_bind, setNext_eq hk' i, Except.ok_bind,
        setTail_eq]
      refine ⟨_, rfl, Rewired.delete ⟨?_, rfl, rfl⟩, rfl⟩
      intro x _
      rfl

/-- The first node is taken from its place and deleted. -/
theorem Place.popFront (debug : Bool) (h : S.Place t none n.next) (ht : S.node t = some n)
    (hprev : n.prev = none) (hhead : S.head i = some t) (hnull : S.tail i ≠ none)
    (htail : n.next = none → S.tail i = some t ∧ S.size i = 1)
    (hnext : ∀ x ∈ n.next, 1 < S.size i ∧ ∀ k, S.node x = some k → k.prev = some t)
    (hsize : S.size i ≠ 0) :
  ∃ S', S.popFront debug i = .ok S' ∧ S.Rewired S' i t none n.next n.next none ∧
    S'.count = Function.update S.count i (S.count i - 1)
  := by
  have hends : S.head i ≠ none ∧ S.tail i ≠ none := by
    refine ⟨?_, hnull⟩
    rw [hhead]
    apply Option.some_ne_none
  rw [LinkedLists.popFront, if_pos hsize, assert_eq_ok fun _ => hends, Except.ok_bind, hhead,
    load_eq ht, Except.ok_bind]
  dsimp only
  rw [assert_eq_ok fun _ => hprev, Except.ok_bind]
  cases hn : n.next with
  | none =>
      obtain ⟨hlast, hone⟩ := htail hn
      dsimp only
      rw [assert_eq_ok fun _ => hone, Except.ok_bind, hlast, assert_eq_ok fun _ => rfl,
        Except.ok_bind, setHead_eq, setTail_eq]
      refine ⟨_, rfl, Rewired.delete ⟨?_, rfl, rfl⟩, rfl⟩
      intro x _
      rfl
  | some y =>
      obtain ⟨hone, hlink⟩ := hnext y hn
      obtain ⟨k, hk⟩ := h.next_node y hn
      have hk' : (S.setHead i (some y)).node y = some k := hk
      dsimp only
      rw [assert_eq_ok fun _ => hone, Except.ok_bind, load_eq hk, Except.ok_bind]
      dsimp only
      rw [assert_eq_ok fun _ => hlink k hk, Except.ok_bind, setPrev_eq hk' i, Except.ok_bind,
        setHead_eq]
      refine ⟨_, rfl, Rewired.delete ⟨?_, rfl, rfl⟩, rfl⟩
      intro x _
      rfl

end LinkedLists

end UOS
