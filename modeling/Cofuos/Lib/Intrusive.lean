import Mathlib.Tactic
import Cofuos.Lib.Linked

/-!
# Queues through a common pointer

A node has one pointer to the node after it, which serves all queues that the node may be put on.
A queue is given by its first and its last node. Nothing prevents a node from being put on a queue
while it is still on another one, which damages both of them.

We describe the contents of all queues at once by a family of lists. The operations do what they do
to lists as long as no node is listed twice.
-/

/-- Nodes `τ`, each with a pointer to the next node, and queues named by `ι`. -/
structure Queues (ι τ : Type) where
  next : τ → Option τ
  head : ι → Option τ
  tail : ι → Option τ

namespace Queues

variable {ι τ : Type} [DecidableEq ι] [DecidableEq τ]

/-! ### Operations -/

/-- Empty queues. -/
def empty : Queues ι τ := ⟨fun _ => none, fun _ => none, fun _ => none⟩

/-- Puts a node at the end of a queue. -/
def put (Q : Queues ι τ) (i : ι) (t : τ) : Queues ι τ :=
  match Q.tail i with
  | some u =>
      { Q with
        next := Function.update (Function.update Q.next t none) u (some t)
        tail := Function.update Q.tail i (some t) }
  | none =>
      { next := Function.update Q.next t none
        head := Function.update Q.head i (some t)
        tail := Function.update Q.tail i (some t) }

/-- Takes the first node from a queue. -/
def get (Q : Queues ι τ) (i : ι) : Option τ × Queues ι τ :=
  match Q.head i with
  | some t =>
      (some t,
        { next := Function.update Q.next t none
          head := Function.update Q.head i (Q.next t)
          tail := if Q.next t = none then Function.update Q.tail i none else Q.tail })
  | none => (none, Q)

/-- Forgets the nodes of a queue. -/
def clear (Q : Queues ι τ) (i : ι) : Queues ι τ :=
  { Q with head := Function.update Q.head i none, tail := Function.update Q.tail i none }

/-- Looks for the node before a node. -/
def seek (Q : Queues ι τ) (t : τ) : ℕ → Option τ → Option τ
  | 0, _ => none
  | _ + 1, none => none
  | n + 1, some p => if Q.next p = some t then some p else Q.seek t n (Q.next p)

/-- Takes a node from the middle of a queue, by a search of a bounded number of steps. There is no
result if the node is not found. -/
def unlink (Q : Queues ι τ) (fuel : ℕ) (i : ι) (t : τ) : Option (Queues ι τ) :=
  if Q.head i = some t then some (Q.get i).2
  else
    match Q.seek t fuel (Q.head i) with
    | some p =>
        match Q.next t with
        | some u => some { Q with next := Function.update Q.next p (some u) }
        | none =>
            some { Q with
              next := Function.update Q.next p none
              tail := Function.update Q.tail i (some p) }
    | none => none

/-- A node is found on a queue by following the pointers. -/
inductive Mem (Q : Queues ι τ) (i : ι) : τ → Prop
  | head {t : τ} : Q.head i = some t → Mem Q i t
  | next {t u : τ} : Mem Q i t → Q.next t = some u → Mem Q i u

/-! ### Contents -/

/-- The nodes of a list follow each other. -/
def Follows (Q : Queues ι τ) (l : List τ) : Prop :=
  Linked (fun _ t n => Q.next t = n) none l none

/-- The queues hold the nodes that are listed, each node being listed once. -/
structure Lays (Q : Queues ι τ) (list : ι → List τ) : Prop where
  head : ∀ i, Q.head i = (list i).head?
  tail : ∀ i, Q.tail i = (list i).getLast?
  follows : ∀ i, Q.Follows (list i)
  nodup : ∀ i, (list i).Nodup
  apart : ∀ i j t, t ∈ list i → t ∈ list j → i = j

variable {Q : Queues ι τ} {list : ι → List τ} {i : ι} {t u : τ} {l : List τ}

omit [DecidableEq ι] [DecidableEq τ] in
/-- The queues are empty at first. -/
theorem lays_empty : (empty : Queues ι τ).Lays fun _ => [] := by
  constructor
  · intro i
    rfl
  · intro i
    rfl
  · intro i
    apply Linked.nil
  · intro i
    apply List.nodup_nil
  · intro i j t ht
    cases ht

omit [DecidableEq ι] [DecidableEq τ] in
/-- What follows a node that is found is found as well. -/
theorem mem_of_follows {p : Option τ} (h : Linked (fun _ t n => Q.next t = n) p l none)
    (hhead : ∀ u ∈ l.head?, Q.Mem i u) (ht : t ∈ l) :
  Q.Mem i t
  := by
  induction l generalizing p with
  | nil => cases ht
  | cons x l ih =>
      have hx : Q.Mem i x := hhead x rfl
      rcases List.mem_cons.mp ht with rfl | ht
      · apply hx
      · apply ih h.2 _ ht
        intro u hu
        apply hx.next
        rw [h.1, Option.mem_def.mp hu, Option.some_or]

omit [DecidableEq ι] [DecidableEq τ] in
/-- The node after a node of a list. -/
theorem Follows.next_eq {l₁ l₂ : List τ} (h : Q.Follows (l₁ ++ t :: l₂)) :
  Q.next t = l₂.head?
  := by
  have hnode := Linked.node h
  rwa [Option.or_none] at hnode

omit [DecidableEq ι] [DecidableEq τ] in
/-- The nodes that are found are those that are listed. -/
theorem Lays.mem_iff (h : Q.Lays list) :
  Q.Mem i t ↔ t ∈ list i
  := by
  constructor
  · intro hmem
    induction hmem with
    | head hhead =>
        rw [h.head] at hhead
        apply List.mem_of_mem_head? hhead
    | next _ hnext ih =>
        obtain ⟨l₁, l₂, hl⟩ := List.append_of_mem ih
        have hfollows := h.follows i
        rw [hl] at hfollows
        rw [hfollows.next_eq] at hnext
        rw [hl]
        apply List.mem_append_right
        apply List.mem_cons_of_mem
        apply List.mem_of_mem_head? hnext
  · intro ht
    apply mem_of_follows (h.follows i) _ ht
    intro u hu
    apply Mem.head
    rw [h.head, Option.mem_def.mp hu]

omit [DecidableEq ι] [DecidableEq τ] in
/-- It does not matter what is before a list. -/
theorem follows_of_linked {p : Option τ} (h : Linked (fun _ t n => Q.next t = n) p l none) :
  Q.Follows l
  := by
  cases l with
  | nil => trivial
  | cons x l => apply h

omit [DecidableEq ι] [DecidableEq τ] in
theorem linked_of_follows {p : Option τ} (h : Q.Follows l) :
  Linked (fun _ t n => Q.next t = n) p l none
  := by
  cases l with
  | nil => trivial
  | cons x l => apply h

omit [DecidableEq ι] [DecidableEq τ] in
/-- A list is left alone when none of its nodes gets another pointer. -/
theorem Follows.congr {Q' : Queues ι τ} (h : Q.Follows l) (hnext : ∀ x ∈ l, Q'.next x = Q.next x) :
  Q'.Follows l
  := by
  apply Linked.imp h
  intro x hx _ _ hn
  rw [hnext x hx, hn]

omit [DecidableEq ι] [DecidableEq τ] in
/-- A queue is not longer than a list of all the nodes. -/
theorem Lays.length_le {members : List τ} (h : Q.Lays list) (hsub : ∀ u ∈ list i, u ∈ members) :
  (list i).length ≤ members.length
  := by
  apply List.Subperm.length_le
  apply (h.nodup i).subperm hsub

/-! ### Putting and taking -/

omit [DecidableEq τ] in
/-- The family of lists after one of them has changed. -/
theorem Lays.update (h : Q.Lays list) {Q' : Queues ι τ} {l : List τ}
    (hhead : Q'.head = Function.update Q.head i l.head?)
    (htail : Q'.tail = Function.update Q.tail i l.getLast?)
    (hnext : ∀ j ≠ i, ∀ x ∈ list j, Q'.next x = Q.next x)
    (hfollows : Q'.Follows l) (hnodup : l.Nodup)
    (hapart : ∀ x ∈ l, ∀ j ≠ i, x ∉ list j) :
  Q'.Lays (Function.update list i l)
  := by
  constructor
  · intro j
    rw [hhead]
    by_cases hj : j = i
    · rw [hj, Function.update_self, Function.update_self]
    · rw [Function.update_of_ne hj, Function.update_of_ne hj, h.head]
  · intro j
    rw [htail]
    by_cases hj : j = i
    · rw [hj, Function.update_self, Function.update_self]
    · rw [Function.update_of_ne hj, Function.update_of_ne hj, h.tail]
  · intro j
    by_cases hj : j = i
    · rw [hj, Function.update_self]
      apply hfollows
    · rw [Function.update_of_ne hj]
      apply Linked.imp (h.follows j)
      intro x hx _ _ hn
      rw [hnext j hj x hx, hn]
  · intro j
    by_cases hj : j = i
    · rw [hj, Function.update_self]
      apply hnodup
    · rw [Function.update_of_ne hj]
      apply h.nodup
  · intro j k x hxj hxk
    by_cases hj : j = i
    · by_cases hk : k = i
      · rw [hj, hk]
      · rw [hj, Function.update_self] at hxj
        rw [Function.update_of_ne hk] at hxk
        exact absurd hxk (hapart x hxj k hk)
    · rw [Function.update_of_ne hj] at hxj
      by_cases hk : k = i
      · rw [hk, Function.update_self] at hxk
        exact absurd hxj (hapart x hxk j hj)
      · rw [Function.update_of_ne hk] at hxk
        apply h.apart j k x hxj hxk

theorem put_next (Q : Queues ι τ) (i : ι) (t x : τ) :
  (Q.put i t).next x = if Q.tail i = some x then some t else if x = t then none else Q.next x
  := by
  rw [put]
  cases htail : Q.tail i with
  | none => simp [Function.update_apply]
  | some u => simp [Function.update_apply, eq_comm]

/-- A node that is on no queue is put at the end of one. -/
theorem Lays.put (h : Q.Lays list) (ht : ∀ j, t ∉ list j) :
  (Q.put i t).Lays (Function.update list i (list i ++ [t]))
  := by
  have hne : ∀ j, ∀ x ∈ list j, x ≠ t := by
    rintro j x hx rfl
    apply ht j hx
  have hkept : ∀ x, Q.tail i ≠ some x → x ≠ t → (Q.put i t).next x = Q.next x := by
    intro x hx hxt
    rw [put_next, if_neg hx, if_neg hxt]
  have hlast : ∀ x, Q.tail i = some x → x ∈ list i := by
    intro x hx
    rw [h.tail] at hx
    apply List.mem_of_getLast? hx
  apply h.update
  · rw [Queues.put]
    cases htail : Q.tail i with
    | none =>
        rw [h.tail, List.getLast?_eq_none_iff] at htail
        simp [htail]
    | some u =>
        have hhead : (list i ++ [t]).head? = Q.head i := by
          rw [h.head, List.head?_append_of_ne_nil]
          apply List.ne_nil_of_mem (hlast u htail)
        simp [hhead]
  · rw [Queues.put]
    cases Q.tail i with
    | none => simp
    | some u => simp
  · intro j hj x hx
    apply hkept x _ (hne j x hx)
    intro htail
    apply hj (h.apart j i x hx (hlast x htail))
  · rcases List.eq_nil_or_concat' (list i) with hnil | ⟨l, u, hl⟩
    · have htail : Q.tail i = none := by rw [h.tail, hnil]; rfl
      rw [hnil, List.nil_append, Follows, Linked.singleton_iff, put_next, htail]
      simp
    · have hu : u ∈ list i := by rw [hl]; simp
      have htail : Q.tail i = some u := by rw [h.tail, hl, List.getLast?_concat]
      have hnodup : u ∉ l := by
        have := h.nodup i
        rw [hl, List.nodup_append] at this
        intro hul
        apply this.2.2 u hul u (List.mem_singleton_self u) rfl
      have hfollows := h.follows i
      rw [hl, Follows, Linked.append_iff] at hfollows
      rw [hl, List.append_assoc, Follows, Linked.append_iff]
      constructor
      · apply Linked.imp hfollows.1
        intro x hx _ _ hn
        rw [hkept x, hn]
        · rw [htail]
          rintro ⟨⟩
          apply hnodup hx
        · apply hne i
          rw [hl]
          apply List.mem_append_left _ hx
      · constructor
        · simp [put_next, htail]
        · change Linked _ _ [t] none
          rw [Linked.singleton_iff, put_next, if_neg, if_pos rfl]
          rw [htail]
          rintro ⟨⟩
          apply ht i hu
  · rw [List.nodup_append]
    refine ⟨h.nodup i, List.nodup_singleton t, ?_⟩
    intro x hx y hy
    rw [List.mem_singleton.mp hy]
    apply hne i x hx
  · intro x hx j hj hxj
    rcases List.mem_append.mp hx with hx | hx
    · apply hj (h.apart j i x hxj hx)
    · apply ht j
      rwa [← List.mem_singleton.mp hx]

/-- Nodes that have been forgotten still follow each other after another one has been put on a
queue. -/
theorem Follows.put (h : Q.Follows l) (hlays : Q.Lays list) (ht : t ∉ l)
    (hl : ∀ x ∈ l, ∀ j, x ∉ list j) :
  (Q.put i t).Follows l
  := by
  apply h.congr
  intro x hx
  rw [put_next, if_neg, if_neg]
  · rintro rfl
    apply ht hx
  · intro htail
    rw [hlays.tail] at htail
    apply hl x hx i (List.mem_of_getLast? htail)

omit [DecidableEq τ] in
/-- Nothing is taken from an empty queue. -/
theorem Lays.get_nil [DecidableEq τ] (h : Q.Lays list) (hl : list i = []) :
  Q.get i = (none, Q)
  := by
  have hhead : Q.head i = none := by rw [h.head, hl]; rfl
  rw [Queues.get, hhead]

/-- The first node is taken from a queue. -/
theorem Lays.get_cons (h : Q.Lays list) (hl : list i = t :: l) :
  (Q.get i).1 = some t ∧ (Q.get i).2.Lays (Function.update list i l)
  := by
  have hhead : Q.head i = some t := by rw [h.head, hl]; rfl
  have hfollows := h.follows i
  rw [hl] at hfollows
  have hnext : Q.next t = l.head? := by
    have := hfollows.1
    rwa [Option.or_none] at this
  have hnodup := h.nodup i
  rw [hl, List.nodup_cons] at hnodup
  have hmem : ∀ x ∈ l, x ∈ list i := by
    intro x hx
    rw [hl]
    apply List.mem_cons_of_mem _ hx
  rw [Queues.get, hhead]
  refine ⟨rfl, ?_⟩
  apply h.update
  · change Function.update Q.head i (Q.next t) = _
    rw [hnext]
  · change (if Q.next t = none then Function.update Q.tail i none else Q.tail) = _
    rw [hnext]
    cases l with
    | nil => simp
    | cons y l =>
        have htail : Q.tail i = (y :: l).getLast? := by
          rw [h.tail, hl, List.getLast?_cons_cons]
        rw [if_neg (by simp), ← htail, Function.update_eq_self]
  · intro j hj x hx
    apply Function.update_of_ne
    rintro rfl
    apply hj (h.apart j i x hx _)
    rw [hl]
    apply List.mem_cons_self
  · apply (follows_of_linked hfollows.2).congr
    intro x hx
    apply Function.update_of_ne
    rintro rfl
    apply hnodup.1 hx
  · apply hnodup.2
  · intro x hx j hj hxj
    apply hj (h.apart j i x hxj (hmem x hx))

/-- A node that has been taken has no successor. -/
theorem next_get (h : (Q.get i).1 = some t) :
  (Q.get i).2.next t = none
  := by
  rw [get] at h ⊢
  cases hhead : Q.head i with
  | none => simp [hhead] at h
  | some u =>
      simp only [hhead, Option.some.injEq] at h ⊢
      rw [h, Function.update_self]

omit [DecidableEq τ] in
/-- A queue is forgotten. -/
theorem Lays.clear (h : Q.Lays list) :
  (Q.clear i).Lays (Function.update list i [])
  := by
  apply h.update
  · rfl
  · rfl
  · intro j _ x _
    rfl
  · apply Linked.nil
  · apply List.nodup_nil
  · intro x hx
    cases hx

omit [DecidableEq ι] in
/-- The node before a node is found. -/
theorem seek_eq {l₁ l₂ : List τ} {p : τ} {o : Option τ} {n : ℕ}
    (h : Linked (fun _ t n => Q.next t = n) o (l₁ ++ p :: t :: l₂) none) (ht : t ∉ l₁)
    (hp : p ≠ t) (hn : l₁.length < n) :
  Q.seek t n (l₁ ++ p :: t :: l₂).head? = some p
  := by
  induction l₁ generalizing o n with
  | nil =>
      obtain ⟨n, rfl⟩ := Nat.exists_eq_succ_of_ne_zero (Nat.ne_of_gt hn)
      have hnext : Q.next p = some t := h.1
      rw [List.nil_append, List.head?_cons, seek, if_pos hnext]
  | cons x l₁ ih =>
      obtain ⟨n, rfl⟩ := Nat.exists_eq_succ_of_ne_zero (Nat.ne_of_gt (Nat.zero_lt_of_lt hn))
      have hnext : Q.next x = (l₁ ++ p :: t :: l₂).head? := by
        have := h.1
        rwa [Option.or_none] at this
      have hne : Q.next x ≠ some t := by
        rw [hnext]
        cases l₁ with
        | nil =>
            rintro ⟨⟩
            apply hp rfl
        | cons y l₁ =>
            rintro ⟨⟩
            apply ht
            simp
      rw [List.cons_append, List.head?_cons, seek, if_neg hne, hnext]
      apply ih h.2
      · intro hmem
        apply ht (List.mem_cons_of_mem _ hmem)
      · apply Nat.lt_of_succ_lt_succ hn

omit [DecidableEq ι] in
/-- A node is passed over. -/
theorem Follows.skip {Q' : Queues ι τ} {l₁ l₂ : List τ} {p : τ}
    (h : Q.Follows (l₁ ++ p :: t :: l₂)) (h₁ : p ∉ l₁) (h₂ : p ∉ l₂)
    (hnext : Q'.next = Function.update Q.next p l₂.head?) :
  Q'.Follows (l₁ ++ p :: l₂)
  := by
  have hne : ∀ x ≠ p, Q'.next x = Q.next x := by
    intro x hx
    rw [hnext, Function.update_of_ne hx]
  rw [Follows, Linked.append_iff] at h ⊢
  constructor
  · apply Linked.imp h.1
    intro x hx _ _ hn
    rw [hne x _, hn]
    rintro rfl
    apply h₁ hx
  · constructor
    · change Q'.next p = _
      rw [hnext, Function.update_self, Option.or_none]
    · have hrest : Q'.Follows l₂ := by
        apply (follows_of_linked h.2.2.2).congr
        intro x hx
        apply hne
        rintro rfl
        apply h₂ hx
      apply linked_of_follows hrest

/-- A node is taken from the middle of a queue. -/
theorem Lays.unlink {fuel : ℕ} (h : Q.Lays list) (ht : t ∈ list i)
    (hfuel : (list i).length ≤ fuel) :
  ∃ Q', Q.unlink fuel i t = some Q' ∧ Q'.Lays (Function.update list i ((list i).erase t))
  := by
  obtain ⟨l₁, l₂, hl⟩ := List.append_of_mem ht
  have hnodup := h.nodup i
  rw [hl, List.nodup_append] at hnodup
  obtain ⟨hnodup₁, hnodup₂, hdisjoint⟩ := hnodup
  have ht₁ : t ∉ l₁ := fun hmem => hdisjoint t hmem t List.mem_cons_self rfl
  have herase : (list i).erase t = l₁ ++ l₂ := by
    rw [hl, List.erase_append_right _ ht₁, List.erase_cons_head]
  rw [herase]
  rcases List.eq_nil_or_concat' l₁ with rfl | ⟨l₀, p, rfl⟩
  · rw [Queues.unlink, if_pos (by rw [h.head, hl]; rfl)]
    exact ⟨_, rfl, (h.get_cons hl).2⟩
  · rw [List.append_assoc, List.cons_append, List.nil_append] at hl
    have hp : p ≠ t := by
      rintro rfl
      apply ht₁
      simp
    have hfollows := h.follows i
    rw [hl] at hfollows
    have hnext : Q.next t = l₂.head? := by
      apply Follows.next_eq
      rwa [List.append_cons] at hfollows
    have hhead : Q.head i ≠ some t := by
      rw [h.head, hl]
      cases l₀ with
      | nil =>
          rintro ⟨⟩
          apply hp rfl
      | cons x l₀ =>
          rintro ⟨⟩
          apply ht₁
          simp
    have hseek : Q.seek t fuel (Q.head i) = some p := by
      rw [h.head, hl]
      apply seek_eq hfollows _ hp
      · rw [hl, List.length_append] at hfuel
        simp only [List.length_cons] at hfuel
        lia
      · intro hmem
        apply ht₁
        apply List.mem_append_left _ hmem
    have hpl : p ∉ l₀ ∧ p ∉ l₂ := by
      constructor
      · intro hmem
        rw [List.nodup_append] at hnodup₁
        apply hnodup₁.2.2 p hmem p (List.mem_singleton_self p) rfl
      · intro hmem
        apply hdisjoint p _ p (List.mem_cons_of_mem _ hmem) rfl
        simp
    have hapart : ∀ x ∈ l₀ ++ p :: l₂, ∀ j ≠ i, x ∉ list j := by
      intro x hx j hj hxj
      apply hj (h.apart j i x hxj _)
      rw [hl]
      simp only [List.mem_append, List.mem_cons] at hx ⊢
      tauto
    have hnodup : (l₀ ++ p :: l₂).Nodup := by
      have := (h.nodup i).erase t
      rwa [herase, List.append_assoc] at this
    have hother : ∀ j ≠ i, ∀ x ∈ list j, x ≠ p := by
      rintro j hj x hx rfl
      apply hapart x _ j hj hx
      simp
    have hlays : ∀ Q' : Queues ι τ, Q'.head = Q.head →
        Q'.tail = Function.update Q.tail i (l₀ ++ p :: l₂).getLast? →
        Q'.next = Function.update Q.next p l₂.head? →
        Q'.Lays (Function.update list i (l₀ ++ p :: l₂)) := by
      intro Q' hhead' htail' hnext'
      apply h.update
      · rw [hhead', eq_comm, Function.update_eq_self_iff, h.head, hl]
        cases l₀ <;> rfl
      · apply htail'
      · intro j hj x hx
        rw [hnext', Function.update_of_ne (hother j hj x hx)]
      · apply hfollows.skip hpl.1 hpl.2 hnext'
      · apply hnodup
      · apply hapart
    rw [Queues.unlink, if_neg hhead, hseek, List.append_assoc, List.singleton_append, hnext]
    cases l₂ with
    | nil =>
        refine ⟨_, rfl, ?_⟩
        apply hlays
        · rfl
        · rw [List.getLast?_concat]
        · rfl
    | cons u l₂ =>
        refine ⟨_, rfl, ?_⟩
        apply hlays
        · rfl
        · change Q.tail = _
          rw [eq_comm, Function.update_eq_self_iff, h.tail, hl]
          simp [List.getLast?_append, List.getLast?_cons_cons]
        · rfl

end Queues
