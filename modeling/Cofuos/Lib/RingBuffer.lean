import Mathlib.Tactic

/-!
# Ring buffers

A ring buffer stores a queue in an array of fixed size, between a head, from which elements are
taken, and a tail, at which elements are put. Both wrap at the end of the array. One place is
always left free, so that a full buffer can be told from an empty one.
-/

/-- A ring buffer of `limit` places. -/
structure RingBuffer (α : Type) where
  limit : ℕ
  buffer : ℕ → α
  head : ℕ
  tail : ℕ
  head_lt : head < limit
  tail_lt : tail < limit

namespace RingBuffer

variable {α : Type} (r : RingBuffer α)

/-- The place after `i` in an array of `limit` places. -/
def next (limit i : ℕ) : ℕ := if i + 1 = limit then 0 else i + 1

theorem next_lt {limit i : ℕ} (h : i < limit) :
  next limit i < limit
  := by
  rw [next]
  split <;> lia

/-- The number of elements in the buffer. -/
def size : ℕ := if r.head ≤ r.tail then r.tail - r.head else r.tail + r.limit - r.head

/-- The number of elements that fit into the buffer. -/
def room : ℕ := r.limit - 1 - r.size

/-- The place of the `i`-th element. -/
def place (i : ℕ) : ℕ := if r.head + i < r.limit then r.head + i else r.head + i - r.limit

/-- The elements of the buffer, the oldest one first. -/
def contents : List α := (List.range r.size).map fun i => r.buffer (r.place i)

/-- The oldest element. -/
def front : α := r.buffer r.head

/-- Removes the oldest element. -/
def pop : RingBuffer α := { r with head := next r.limit r.head, head_lt := next_lt r.head_lt }

/-- Puts an element behind the others. -/
def push (x : α) : RingBuffer α :=
  { r with
    buffer := Function.update r.buffer r.tail x
    tail := next r.limit r.tail
    tail_lt := next_lt r.tail_lt }

@[simp]
theorem length_contents :
  r.contents.length = r.size
  := by
  simp [contents]

theorem size_lt :
  r.size < r.limit
  := by
  have := r.head_lt
  have := r.tail_lt
  rw [size]
  split <;> lia

theorem size_add_room :
  r.size + r.room = r.limit - 1
  := by
  have := r.size_lt
  rw [room]
  lia

/-- The buffer is empty when the tail is at the head. -/
theorem size_eq_zero_iff :
  r.size = 0 ↔ r.head = r.tail
  := by
  have := r.head_lt
  rw [size]
  split <;> lia

/-- The buffer is full when the place after the tail is the head. -/
theorem room_eq_zero_iff :
  r.room = 0 ↔ (r.tail + 1) % r.limit = r.head
  := by
  have := r.head_lt
  have := r.tail_lt
  have hmod : (r.tail + 1) % r.limit = next r.limit r.tail := by
    rw [next]
    split
    case isTrue h => rw [h, Nat.mod_self]
    case isFalse h => rw [Nat.mod_eq_of_lt (by lia)]
  rw [hmod, room, size, next]
  split <;> split <;> lia

/-- The free places, as the distance from the tail to the head. -/
theorem room_eq :
  r.room = (r.head + r.limit - r.tail - 1) % r.limit
  := by
  have := r.head_lt
  have := r.tail_lt
  rw [room, size]
  split
  case isTrue h =>
    rw [Nat.mod_eq_of_lt (by lia)]
    lia
  case isFalse h =>
    rw [Nat.mod_eq_sub_mod (by lia), Nat.mod_eq_of_lt (by lia)]
    lia

theorem contents_eq_nil (h : r.size = 0) :
  r.contents = []
  := by
  rw [contents, h]
  rfl

theorem size_pop (h : r.size ≠ 0) :
  r.pop.size + 1 = r.size
  := by
  have := r.head_lt
  have := r.tail_lt
  rw [size] at h ⊢
  rw [size]
  dsimp only [pop, next]
  split_ifs at h ⊢ <;> lia

theorem size_push (h : r.room ≠ 0) (x : α) :
  (r.push x).size = r.size + 1
  := by
  have := r.head_lt
  have := r.tail_lt
  rw [room, size] at h
  rw [size, size]
  dsimp only [push, next]
  split_ifs at h ⊢ <;> lia

/-- An element that is taken from the buffer was the oldest one. -/
theorem contents_pop (h : r.size ≠ 0) :
  r.contents = r.front :: r.pop.contents
  := by
  have hhead := r.head_lt
  have hlt := r.size_lt
  rw [contents, contents, ← r.size_pop h, List.range_succ_eq_map, List.map_cons, List.map_map]
  congr 1
  · simp [front, place, r.head_lt]
  · apply List.map_congr_left
    intro i hi
    rw [List.mem_range] at hi
    have hsize := r.size_pop h
    have hplace : r.place (i + 1) = r.pop.place i := by
      simp only [place, pop, next]
      split_ifs <;> lia
    simp only [Function.comp_apply, hplace]
    rfl

/-- An element that is put into the buffer comes behind the others. -/
theorem contents_push (h : r.room ≠ 0) (x : α) :
  (r.push x).contents = r.contents ++ [x]
  := by
  have hhead := r.head_lt
  have htail := r.tail_lt
  rw [contents, r.size_push h x, List.range_succ, List.map_append, contents]
  have hlast : r.place r.size = r.tail := by
    simp only [place, size]
    split_ifs <;> lia
  congr 1
  · apply List.map_congr_left
    intro i hi
    rw [List.mem_range] at hi
    have hne : r.place i ≠ r.tail := by
      rw [size] at hi
      rw [place]
      split_ifs at hi ⊢ <;> lia
    apply Function.update_of_ne hne
  · have hplace : (r.push x).place r.size = r.tail := hlast
    have hput : (r.push x).buffer r.tail = x := Function.update_self ..
    rw [List.map_singleton, hplace, hput]

theorem room_push (h : r.room ≠ 0) (x : α) :
  (r.push x).room + 1 = r.room
  := by
  have := r.size_push h x
  have : (r.push x).limit = r.limit := rfl
  rw [room] at h ⊢
  rw [room]
  lia

/-! ### Places -/

/-- The place before `i` in an array of `limit` places. -/
def prev (limit i : ℕ) : ℕ := if i = 0 then limit - 1 else i - 1

theorem place_size :
  r.place r.size = r.tail
  := by
  have := r.head_lt
  have := r.tail_lt
  simp only [place, size]
  split_ifs <;> lia

theorem prev_place (i : ℕ) :
  prev r.limit (r.place (i + 1)) = r.place i
  := by
  have := r.head_lt
  rw [prev, place]
  by_cases hwrap : r.head + (i + 1) < r.limit
  · rw [if_pos hwrap, if_neg (by lia), place, if_pos (by lia)]
    lia
  · rw [if_neg hwrap, place]
    split_ifs <;> lia

/-- The size and the places as remainders. -/
theorem size_eq_mod :
  r.size = (r.tail + r.limit - r.head) % r.limit
  := by
  have := r.head_lt
  have := r.tail_lt
  rw [size]
  by_cases hle : r.head ≤ r.tail
  · rw [if_pos hle, Nat.mod_eq_sub_mod (by lia), Nat.mod_eq_of_lt (by lia)]
    lia
  · rw [if_neg hle, Nat.mod_eq_of_lt (by lia)]

theorem place_eq_mod {i : ℕ} (h : i < r.limit) :
  r.place i = (r.head + i) % r.limit
  := by
  have := r.head_lt
  rw [place]
  by_cases hwrap : r.head + i < r.limit
  · rw [if_pos hwrap, Nat.mod_eq_of_lt hwrap]
  · rw [if_neg hwrap, Nat.mod_eq_sub_mod (by lia), Nat.mod_eq_of_lt (by lia)]

/-- Different elements have different places. -/
theorem place_ne {i j : ℕ} (hi : i < r.limit) (hj : j < r.limit) (h : i ≠ j) :
  r.place i ≠ r.place j
  := by
  have := r.head_lt
  simp only [place]
  split_ifs <;> lia

/-- Takes the element that was put last. -/
def popBack : RingBuffer α :=
  { r with
    tail := prev r.limit r.tail
    tail_lt := by
      have := r.tail_lt
      rw [prev]
      split <;> omega }

/-- The element that is taken was behind the others. -/
theorem contents_popBack (h : r.size ≠ 0) :
  r.contents = r.popBack.contents ++ [r.buffer (prev r.limit r.tail)]
  := by
  have hhead := r.head_lt
  have htail := r.tail_lt
  have hlt := r.size_lt
  have hsize : r.size = r.popBack.size + 1 := by
    rw [size] at h
    simp only [size, popBack, prev]
    split_ifs at h ⊢ <;> lia
  have hlast : r.place r.popBack.size = prev r.limit r.tail := by
    rw [← r.place_size, hsize, r.prev_place]
  rw [contents, hsize, List.range_succ, List.map_append, List.map_singleton, hlast]
  rfl

/-- When every element moves to the next place, the elements are the same. -/
theorem contents_slide (r r' : RingBuffer α) (hlimit : r'.limit = r.limit)
    (hhead : r'.head = next r.limit r.head) (htail : r'.tail = next r.limit r.tail)
    (hbuffer : ∀ i < r.size, r'.buffer (r.place (i + 1)) = r.buffer (r.place i)) :
  r'.contents = r.contents
  := by
  have hlt := r.head_lt
  have hlt' := r.tail_lt
  have hle := r.size_lt
  have hsize : r'.size = r.size := by
    simp only [size, hhead, htail, hlimit, next]
    split_ifs <;> lia
  rw [contents, contents, hsize]
  apply List.map_congr_left
  intro i hi
  rw [List.mem_range] at hi
  have hplace : r'.place i = r.place (i + 1) := by
    simp only [place, hhead, hlimit, next]
    split_ifs <;> lia
  rw [hplace, hbuffer i hi]

end RingBuffer
