import Cofuos.Lib.Machine
import Cofuos.Lib.RingBuffer

/-!
# The text of a terminal

A terminal keeps its text in a ring, in which what has been typed and not been committed lies between
`tail` and `edit`. Output is put in front of it: the pending text is moved by one place, from its end to
its start. The definitions follow `text_buffer` and `CUI::get` of `app/shell/cui.cpp`.

As long as the pending text is shorter than the ring, it is what has been typed, however much output has
been put in between.
-/

namespace UOS

namespace Cui

/-- `text_buffer` -/
structure TextBuffer where
  limit : ℕ
  buffer : ℕ → UInt8
  tail : ℕ
  edit : ℕ
  tail_lt : tail < limit
  edit_lt : edit < limit

namespace TextBuffer

/-- An index that has been incremented, and is `0` from the limit on. -/
theorem wrap_lt {limit i : ℕ} (h : 0 < limit) : (if i ≥ limit then 0 else i) < limit := by
  split <;> omega

/-- The loop that moves the pending text, which ends within `limit` rounds. -/
def slide (limit tail : ℕ) : ℕ → ℕ → (ℕ → UInt8) → Option (ℕ → UInt8)
  | 0, _, _ => none
  | rounds + 1, it, buffer =>
      let prev := if it = 0 then limit - 1 else it - 1
      let buffer := Function.update buffer it (buffer prev)
      if prev ≠ tail then slide limit tail rounds prev buffer else some buffer

/-- `push` of a character that has been typed. -/
def type (b : TextBuffer) (ch : UInt8) : TextBuffer :=
  { b with
    buffer := Function.update b.buffer b.edit ch
    edit := if b.edit + 1 ≥ b.limit then 0 else b.edit + 1
    edit_lt := wrap_lt (Nat.zero_lt_of_lt b.tail_lt) }

/-- The characters after the pending text has been moved by one place. -/
def moved (b : TextBuffer) : Option (ℕ → UInt8) :=
  if b.tail ≠ b.edit then slide b.limit b.tail b.limit b.edit b.buffer else some b.buffer

/-- `push` of a character of the program. -/
def output (b : TextBuffer) (ch : UInt8) : Option TextBuffer :=
  b.moved.map fun buffer =>
    { b with
      buffer := Function.update buffer b.tail ch
      tail := if b.tail + 1 ≥ b.limit then 0 else b.tail + 1
      edit := if b.edit + 1 ≥ b.limit then 0 else b.edit + 1
      tail_lt := wrap_lt (Nat.zero_lt_of_lt b.tail_lt)
      edit_lt := wrap_lt (Nat.zero_lt_of_lt b.tail_lt) }

/-- `pop`, with the character that it returns. -/
def pop (b : TextBuffer) : UInt8 × TextBuffer :=
  if b.tail = b.edit then (0, b)
  else
    let edit := (if b.edit = 0 then b.limit else b.edit) - 1
    (b.buffer edit, { b with
      edit := edit
      edit_lt := by
        have htail := b.tail_lt
        have hedit := b.edit_lt
        dsimp only [edit]
        split <;> omega })

/-- `commit`, with the position of the iterator that it returns. -/
def commit (b : TextBuffer) : ℕ × TextBuffer :=
  (b.tail, { b with tail := b.edit, tail_lt := b.edit_lt })

/-- The loop of `CUI::get` over an iterator. -/
def collect (b : TextBuffer) : ℕ → ℕ → List UInt8
  | 0, _ => []
  | len + 1, it =>
      if it ≠ b.tail then b.buffer it :: collect b len (if it + 1 ≥ b.limit then 0 else it + 1) else []

/-- `CUI::get`, with the characters that it stores. -/
def get (b : TextBuffer) (len : ℕ) : List UInt8 × TextBuffer :=
  if b.tail = b.edit then ([], b)
  else
    let r := b.commit
    (r.2.collect len r.1, r.2)

/-- The characters between `tail` and `edit`. -/
def pending (b : TextBuffer) : List UInt8 :=
  (List.range ((b.edit + b.limit - b.tail) % b.limit)).map fun i => b.buffer ((b.tail + i) % b.limit)

end TextBuffer

/-- What is done with a buffer. -/
inductive Action where
  | type (ch : UInt8)
  | output (ch : UInt8)
  | pop
  | commit
  | get (len : ℕ)
  deriving DecidableEq

/-- A step of a buffer, and of the characters that have been typed and neither been popped nor been
committed. -/
def step (s : TextBuffer × List UInt8) : Action → Option (TextBuffer × List UInt8)
  | .type ch => some (s.1.type ch, s.2 ++ [ch])
  | .output ch => (s.1.output ch).map fun b => (b, s.2)
  | .pop => some (s.1.pop.2, s.2.dropLast)
  | .commit => some (s.1.commit.2, [])
  | .get len => some ((s.1.get len).2, [])

/-- A buffer starts empty, with any content. -/
def machine : Machine (TextBuffer × List UInt8) Action where
  Start s := s.1.tail = 0 ∧ s.1.edit = 0 ∧ s.2 = []
  step := step

/-- The pending text stays shorter than the limit. -/
def Fits (s : TextBuffer × List UInt8) : Action → Prop
  | .type _ => s.2.length + 1 < s.1.limit
  | _ => True

/-- The buffer holds the text that has been typed, and gives it back. -/
structure Keeps (b : TextBuffer) (typed : List UInt8) : Prop where
  pending : b.pending = typed
  pop : b.pop.1 = typed.getLast?.getD 0
  get : ∀ len, (b.get len).1 = typed.take len
  output : ∀ ch, (b.output ch).isSome = true

/-! ### The ring -/

namespace TextBuffer

variable (b : TextBuffer)

/-- The pending text is a queue in a ring. -/
def ring : RingBuffer UInt8 :=
  { limit := b.limit, buffer := b.buffer, head := b.tail, tail := b.edit, head_lt := b.tail_lt,
    tail_lt := b.edit_lt }

theorem wrap_eq {limit i : ℕ} (h : i < limit) :
  (if i + 1 ≥ limit then 0 else i + 1) = RingBuffer.next limit i
  := by
  rw [RingBuffer.next]
  split_ifs <;> lia

theorem pending_eq :
  b.pending = b.ring.contents
  := by
  have hsize : b.ring.size = (b.edit + b.limit - b.tail) % b.limit := b.ring.size_eq_mod
  have hlt := b.ring.size_lt
  rw [pending, RingBuffer.contents, ← hsize]
  apply List.map_congr_left
  intro i hi
  rw [List.mem_range] at hi
  rw [b.ring.place_eq_mod (hi.trans hlt)]
  rfl

/-- There is no pending text when `edit` is at `tail`. -/
theorem contents_eq_nil (h : b.tail = b.edit) :
  b.ring.contents = []
  := b.ring.contents_eq_nil (b.ring.size_eq_zero_iff.2 h)

theorem size_ne_zero (h : b.tail ≠ b.edit) :
  b.ring.size ≠ 0
  := fun hzero => h (b.ring.size_eq_zero_iff.1 hzero)

/-- A character that is typed is put behind the pending text. -/
theorem contents_type (ch : UInt8) (h : b.ring.contents.length + 1 < b.limit) :
  (b.type ch).ring.contents = b.ring.contents ++ [ch]
  := by
  have hring : (b.type ch).ring = b.ring.push ch := by
    simp only [ring, type, RingBuffer.push, wrap_eq b.edit_lt]
  have hroom := b.ring.size_add_room
  have hlimit : b.ring.limit = b.limit := rfl
  rw [RingBuffer.length_contents] at h
  rw [hring, b.ring.contents_push (by lia)]

/-- The last character of the pending text is popped. -/
theorem pop_eq (h : b.tail ≠ b.edit) :
  b.ring.contents = b.pop.2.ring.contents ++ [b.pop.1]
  := by
  have hprev : (if b.edit = 0 then b.limit else b.edit) - 1 = RingBuffer.prev b.limit b.edit := by
    rw [RingBuffer.prev]
    split_ifs <;> rfl
  have hpop := b.ring.contents_popBack (b.size_ne_zero h)
  simp only [pop, if_neg h, hprev]
  apply hpop

/-- The loop of `CUI::get` reads the text of a ring from its head on. -/
theorem collect_eq (r : RingBuffer UInt8) (htail : b.tail = r.tail) (hlimit : b.limit = r.limit)
    (hbuffer : b.buffer = r.buffer) (len : ℕ) :
  b.collect len r.head = r.contents.take len
  := by
  induction len generalizing r with
  | zero => rfl
  | succ len ih =>
      rw [collect, htail]
      by_cases hend : r.head = r.tail
      · rw [if_neg (not_not_intro hend), r.contents_eq_nil (r.size_eq_zero_iff.2 hend), List.take_nil]
      · have hne : r.size ≠ 0 := fun hzero => hend (r.size_eq_zero_iff.1 hzero)
        have hrest := ih r.pop htail hlimit hbuffer
        rw [if_pos hend, r.contents_pop hne, List.take_succ_cons, ← hrest, hlimit, wrap_eq r.head_lt,
          hbuffer]
        rfl

/-- What is got is the beginning of the pending text. -/
theorem get_eq (len : ℕ) :
  (b.get len).1 = b.ring.contents.take len
  := by
  rw [get]
  by_cases hend : b.tail = b.edit
  · rw [if_pos hend, b.contents_eq_nil hend, List.take_nil]
  · rw [if_neg hend]
    apply collect_eq b.commit.2 b.ring rfl rfl rfl

/-! ### Output -/

/-- The loop moves the first elements of a ring by one place. -/
theorem slide_eq (r : RingBuffer UInt8) {k rounds : ℕ} (hk : k < r.limit) (hpos : 0 < k)
    (hrounds : k ≤ rounds) (buffer : ℕ → UInt8) :
  ∃ buffer', slide r.limit r.head rounds (r.place k) buffer = some buffer' ∧
    (∀ j < k, buffer' (r.place (j + 1)) = buffer (r.place j)) ∧
    ∀ j, k < j → j < r.limit → buffer' (r.place j) = buffer (r.place j)
  := by
  induction k generalizing rounds buffer with
  | zero => lia
  | succ k ih =>
      obtain ⟨rounds, rfl⟩ : ∃ n, rounds = n + 1 := ⟨rounds - 1, by lia⟩
      have hprev : (if r.place (k + 1) = 0 then r.limit - 1 else r.place (k + 1) - 1) = r.place k :=
        r.prev_place k
      have hzero : r.head = r.place 0 := by
        rw [RingBuffer.place, Nat.add_zero, if_pos r.head_lt]
      have hother : ∀ j < r.limit, j ≠ k + 1 →
          Function.update buffer (r.place (k + 1)) (buffer (r.place k)) (r.place j) =
            buffer (r.place j) := by
        intro j hj hne
        apply Function.update_of_ne
        apply r.place_ne hj hk hne
      rw [slide, hprev]
      by_cases hlast : k = 0
      · subst hlast
        rw [if_neg (not_not_intro hzero.symm)]
        refine ⟨_, rfl, ?_, ?_⟩
        · intro j hj
          obtain rfl : j = 0 := by lia
          apply Function.update_self
        · intro j hj hj'
          apply hother j hj' (by omega)
      · rw [if_pos (by rw [hzero]; exact r.place_ne (by lia) (by lia) hlast)]
        obtain ⟨buffer', heq, hmoved, hkept⟩ := ih (by lia) (by lia)
          (show k ≤ rounds by omega)
          (Function.update buffer (r.place (k + 1)) (buffer (r.place k)))
        refine ⟨buffer', heq, ?_, ?_⟩
        · intro j hj
          by_cases hjk : j = k
          · rw [hjk, hkept (k + 1) (by omega) hk, Function.update_self]
          · rw [hmoved j (by lia), hother j (by lia) (by lia)]
        · intro j hj hj'
          rw [hkept j (by lia) hj', hother j hj' (by lia)]

/-- Every pending character moves by one place. -/
theorem moved_eq :
  ∃ buffer, b.moved = some buffer ∧
    ∀ i < b.ring.size, buffer (b.ring.place (i + 1)) = b.buffer (b.ring.place i)
  := by
  have hlimit : b.ring.limit = b.limit := rfl
  rw [moved]
  by_cases hempty : b.tail = b.edit
  · rw [if_neg (not_not_intro hempty)]
    refine ⟨_, rfl, fun i hi => ?_⟩
    rw [b.ring.size_eq_zero_iff.2 hempty] at hi
    omega
  · have hlt := b.ring.size_lt
    obtain ⟨buffer, heq, hmoved, -⟩ := slide_eq b.ring hlt (Nat.pos_of_ne_zero (b.size_ne_zero hempty))
      (show b.ring.size ≤ b.limit by omega) b.buffer
    rw [b.ring.place_size] at heq
    rw [if_pos hempty]
    exact ⟨buffer, heq, hmoved⟩

/-- Output does not change the pending text. -/
theorem output_eq (ch : UInt8) :
  ∃ b', b.output ch = some b' ∧ b'.ring.contents = b.ring.contents
  := by
  obtain ⟨buffer, heq, hmoved⟩ := b.moved_eq
  rw [output, heq]
  refine ⟨_, rfl, ?_⟩
  apply RingBuffer.contents_slide
  · rfl
  · apply wrap_eq b.tail_lt
  · apply wrap_eq b.edit_lt
  · intro i hi
    -- the output is stored in front of the text
    have hlt := b.ring.size_lt
    have hhead : b.tail = b.ring.place 0 := by
      rw [RingBuffer.place, Nat.add_zero, if_pos b.ring.head_lt]
      rfl
    have hne : b.ring.place (i + 1) ≠ b.tail := by
      rw [hhead]
      apply b.ring.place_ne (by lia) (by lia) (by lia)
    apply (Function.update_of_ne hne ch buffer).trans (hmoved i hi)

end TextBuffer

/-! ### Runs -/

variable {s s' : TextBuffer × List UInt8}

/-- A step keeps the text. -/
theorem contents_step {a : Action} (h : s.1.ring.contents = s.2) (hfits : Fits s a)
    (hs : step s a = some s') :
  s'.1.ring.contents = s'.2
  := by
  cases a with
  | type ch =>
      cases hs
      rw [s.1.contents_type ch (by rw [h]; exact hfits), h]
  | output ch =>
      obtain ⟨b', heq, hcontents⟩ := s.1.output_eq ch
      rw [step, heq] at hs
      cases hs
      rw [hcontents, h]
  | pop =>
      cases hs
      by_cases hempty : s.1.tail = s.1.edit
      · have hnil := s.1.contents_eq_nil hempty
        rw [TextBuffer.pop, if_pos hempty]
        dsimp only
        rw [← h, hnil]
        rfl
      · rw [← h, s.1.pop_eq hempty, List.dropLast_concat]
  | commit =>
      cases hs
      apply TextBuffer.contents_eq_nil
      rfl
  | get len =>
      cases hs
      apply TextBuffer.contents_eq_nil
      rw [TextBuffer.get]
      by_cases hempty : s.1.tail = s.1.edit
      · rw [if_pos hempty]
        exact hempty
      · rw [if_neg hempty]
        rfl

/-- In every run in which the pending text stays shorter than the limit, the buffer holds what has been
typed and neither been popped nor been committed. -/
theorem keeps_of_reachable (h : machine.Reachable Fits s) :
  Keeps s.1 s.2
  := by
  have hcontents : s.1.ring.contents = s.2 := by
    apply h.invariant (P := fun s => s.1.ring.contents = s.2)
    · rintro s ⟨htail, hedit, hnil⟩
      rw [hnil, s.1.contents_eq_nil (htail.trans hedit.symm)]
    · intro s a s' hs hfits hstep
      exact contents_step hs hfits hstep
  constructor
  · rw [s.1.pending_eq, hcontents]
  · by_cases hempty : s.1.tail = s.1.edit
    · rw [← hcontents, s.1.contents_eq_nil hempty, TextBuffer.pop, if_pos hempty]
      rfl
    · rw [← hcontents, s.1.pop_eq hempty, List.getLast?_concat]
      rfl
  · intro len
    rw [s.1.get_eq, hcontents]
  · intro ch
    obtain ⟨b', heq, -⟩ := s.1.output_eq ch
    rw [heq]
    rfl

/-- A ring of three characters, with output between two that are typed, so that the second one comes
behind the end of the ring. -/
theorem wrapped_text_kept :
  ∃ b, machine.Reachable Fits (b, [0x61, 0x62]) ∧ b.tail = 2 ∧ b.edit = 1 ∧ Keeps b [0x61, 0x62]
  := by
  have h₀ : machine.Reachable Fits (⟨3, fun _ => 0, 0, 0, by decide, by decide⟩, []) :=
    .start ⟨rfl, rfl, rfl⟩
  have h₁ := h₀.step (Action.output 0x3E) trivial rfl
  have h₂ := h₁.step (Action.type 0x61) (by change _ < _; decide) rfl
  have h₃ := h₂.step (Action.output 0x21) trivial rfl
  have h₄ := h₃.step (Action.type 0x62) (by change _ < _; decide) rfl
  exact ⟨_, h₄, rfl, rfl, keeps_of_reachable h₄⟩

end Cui

end UOS
