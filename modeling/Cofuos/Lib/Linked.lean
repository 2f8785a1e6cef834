import Mathlib.Tactic

/-!
# Linked lists of nodes

A list of nodes linked in memory is described by a predicate `N p x n` on a node `x`, the
node `p` before it and the node `n` after it, which says that the memory at `x` records
what it has to record about its neighbours. `Linked N p l n` says this of every node of
the segment `l` that has `p` before it and `n` after it.

The segment of a concatenation splits at the seam, and an edit of the memory leaves a
segment linked when it leaves every node of the segment alone.
-/

variable {α : Type}

/-- The nodes of the segment `l`, which has `p` before it and `n` after it, record their
neighbours. -/
def Linked (N : Option α → α → Option α → Prop) : Option α → List α → Option α → Prop
  | _, [], _ => True
  | p, x :: l, n => N p x (l.head?.or n) ∧ Linked N (some x) l n

namespace Linked

variable {N N' : Option α → α → Option α → Prop} {p n : Option α} {x : α} {l l₁ l₂ : List α}

@[simp]
theorem nil : Linked N p [] n := trivial

theorem cons_iff :
  Linked N p (x :: l) n ↔ N p x (l.head?.or n) ∧ Linked N (some x) l n
  := Iff.rfl

@[simp]
theorem singleton_iff :
  Linked N p [x] n ↔ N p x n
  := by
  simp [cons_iff]

/-- A concatenation is linked when both parts are, each with the other as its
neighbour. -/
theorem append_iff :
  Linked N p (l₁ ++ l₂) n
    ↔ Linked N p l₁ (l₂.head?.or n) ∧ Linked N (l₁.getLast?.or p) l₂ n
  := by
  induction l₁ generalizing p with
  | nil => simp
  | cons x l₁ ih =>
      rw [List.cons_append, cons_iff, cons_iff, ih, and_assoc]
      cases l₁ with
      | nil => simp
      | cons y l₁ => simp [List.getLast?_cons]

/-- A segment stays linked when every node of it keeps what it records. -/
theorem imp (h : Linked N p l n) (hN : ∀ x ∈ l, ∀ q m, N q x m → N' q x m) :
  Linked N' p l n
  := by
  induction l generalizing p with
  | nil => trivial
  | cons x l ih =>
      constructor
      · apply hN x List.mem_cons_self
        apply h.1
      · apply ih h.2
        intro y hy
        apply hN y (List.mem_cons_of_mem _ hy)

/-- A node of a linked segment, with the parts of the segment before and after it. -/
theorem node (h : Linked N p (l₁ ++ x :: l₂) n) :
  N (l₁.getLast?.or p) x (l₂.head?.or n)
  := (append_iff.mp h).2.1

/-- The last node of a segment records another node after it. -/
theorem congr_last {n' : Option α} (h : Linked N p l n)
    (hlast : ∀ x ∈ l.getLast?, ∀ q, N q x n → N' q x n')
    (hkeep : ∀ x ∈ l.dropLast, ∀ q m, N q x m → N' q x m) :
  Linked N' p l n'
  := by
  rcases List.eq_nil_or_concat' l with rfl | ⟨l, x, rfl⟩
  · trivial
  · rw [List.dropLast_concat] at hkeep
    rw [append_iff] at h ⊢
    constructor
    · apply imp h.1 hkeep
    · rw [singleton_iff] at h ⊢
      apply hlast x List.getLast?_concat _ h.2

/-- The first node of a segment records another node before it. -/
theorem congr_first {p' : Option α} (h : Linked N p l n)
    (hfirst : ∀ x ∈ l.head?, ∀ m, N p x m → N' p' x m)
    (hkeep : ∀ x ∈ l.tail, ∀ q m, N q x m → N' q x m) :
  Linked N' p' l n
  := by
  cases l with
  | nil => trivial
  | cons x l =>
      constructor
      · apply hfirst x rfl _ h.1
      · apply imp h.2 hkeep

/-- The middle of a segment is replaced by another segment, which the nodes on both sides of it
record. -/
theorem replace {m m' : List α} (h : Linked N p (l₁ ++ (m ++ l₂)) n)
    (hm : Linked N' (l₁.getLast?.or p) m' (l₂.head?.or n))
    (hbefore : ∀ x ∈ l₁.getLast?, ∀ q,
      N q x ((m ++ l₂).head?.or n) → N' q x ((m' ++ l₂).head?.or n))
    (hafter : ∀ x ∈ l₂.head?, ∀ q,
      N (m.getLast?.or (l₁.getLast?.or p)) x q → N' (m'.getLast?.or (l₁.getLast?.or p)) x q)
    (hkeep : ∀ x ∈ l₁.dropLast ++ l₂.tail, ∀ q k, N q x k → N' q x k) :
  Linked N' p (l₁ ++ (m' ++ l₂)) n
  := by
  rw [append_iff, append_iff] at h ⊢
  obtain ⟨h₁, -, h₂⟩ := h
  constructor
  · apply congr_last h₁ hbefore
    intro x hx
    apply hkeep x (List.mem_append_left _ hx)
  · constructor
    · apply hm
    · apply congr_first h₂ hafter
      intro x hx
      apply hkeep x (List.mem_append_right _ hx)

end Linked
