import Cofuos.Lib.Fault
import Mathlib.Data.Stream.Init

/-!
# Buffered input

`block_read`, `fgetc`, `fgets` and `ungetc` of `app/libuos/uoscrt.cpp`. A `FILE` has a ring of `0x1F0`
bytes between `head` and `tail`, into which the bytes that `stream_read` delivers are copied, and from
which they are taken. Characters that are pushed back are put behind the bytes of the ring.

What a program is to see is a stream: reading takes its first bytes, and pushing a character back puts
it before them. The copy into the ring takes the size of a pointer for the number of bytes that fit
before the end of the ring, so a program sees the stream as long as no copy crosses the end at
another place.
-/

namespace UOS

namespace Stdio

/-! ### The file -/

/-- `FILE`, without its handle. -/
structure File where
  flags : UInt16 := 0
  head : ℕ := 0
  tail : ℕ := 0
  buffer : ℕ → UInt8 := fun _ => 0

/-- The size of the ring. -/
def ringSize : ℕ := 0x1F0

/-- `FILE::EOF_BIT` -/
def eofBit : UInt16 := 1

/-- `FILE::FAIL_BIT` -/
def failBit : UInt16 := 2

/-- `FILE::BAD_BIT` -/
def badBit : UInt16 := 4

/-- What the system calls of one refill return: `stream_read` a status and the number of bytes that it
has put into the buffer, and when there are none, `wait_for` a reason and `stream_state` the state
together with the number of bytes that have been put there in the meantime. -/
structure Answer where
  status : ℕ := 0
  size : ℕ := 0
  reason : ℕ := 0
  state : ℕ := 0
  result : ℕ := 0

/-- The bytes of a stream that are still to be delivered, and what the system calls return. -/
structure Source where
  rest : Stream' UInt8
  answers : ℕ → Answer
  calls : ℕ := 0

/-- Why a function does not return. -/
inductive Stop where
  /-- A copy leaves the ring. -/
  | overrun
  /-- A loop exceeds the number of rounds it is given. -/
  | outOfFuel
  deriving DecidableEq, Repr

namespace File

/-- The number of bytes in the ring. -/
def size (f : File) : ℕ := (f.tail + ringSize - f.head) % ringSize

/-- Some bytes of the ring from a place on. -/
def slice (f : File) (place count : ℕ) : List UInt8 :=
  (List.range count).map fun i => f.buffer (place + i)

/-- The first bytes of the ring. -/
def front (f : File) (sz : ℕ) : List UInt8 :=
  if f.head + sz ≤ ringSize then f.slice f.head sz
  else f.slice f.head (ringSize - f.head) ++ f.slice 0 (sz - (ringSize - f.head))

/-- Takes the first bytes from the ring. -/
def drop (f : File) (sz : ℕ) : File := { f with head := (f.head + sz) % ringSize }

/-- The file with bytes at a place of its buffer. -/
def store (f : File) (place : ℕ) (src : List UInt8) : File :=
  { f with buffer := fun i => if place ≤ i then (src[i - place]?).getD (f.buffer i) else f.buffer i }

/-- Copies bytes to a place of the ring. -/
def copy (f : File) (place : ℕ) (src : List UInt8) : Except Stop File :=
  if place + src.length ≤ ringSize then .ok (f.store place src) else .error .overrun

/-- Moves the tail behind bytes that have been copied. -/
def grow (f : File) (sz : ℕ) : File := { f with tail := (f.tail + sz) % ringSize }

/-- The size of `stream->buffer - stream->tail`, which is a pointer. -/
def pointerSize : ℕ := 8

/-- Puts the bytes of a refill into the ring. -/
def fill (f : File) (src : List UInt8) : Except Stop File :=
  if f.tail + src.length ≤ ringSize then do
    let f ← f.copy f.tail src
    .ok (f.grow src.length)
  else do
    let f ← f.copy f.tail (src.take pointerSize)
    let f ← f.copy 0 (src.drop pointerSize)
    .ok (f.grow src.length)

/-- Sets a flag. -/
def mark (f : File) (flag : UInt16) : File := { f with flags := f.flags ||| flag }

end File

/-- The number of bytes that a refill asks for when so many are needed. -/
def request (length : ℕ) : ℕ := min (max 0x40 length) 0x100

namespace Source

/-- The answer to the next system calls. -/
def answer (src : Source) : Answer := src.answers src.calls

/-- Some of the bytes are delivered. -/
def advance (src : Source) (sz : ℕ) : Source :=
  { src with rest := src.rest.drop sz, calls := src.calls + 1 }

/-- The number of bytes that the next refill delivers. It is never more than what is asked for. -/
def chunk (src : Source) (length : ℕ) : ℕ :=
  if min src.answer.size (request length) = 0 then min src.answer.result (request length)
  else min src.answer.size (request length)

end Source

/-- A refill, when so many bytes are needed. -/
def refill (f : File) (src : Source) (length : ℕ) : Except Stop (Bool × File × Source) :=
  let a := src.answer
  if a.status ≠ 0 then .ok (false, f.mark failBit, src.advance 0)
  else if min a.size (request length) = 0 then
    if a.reason ≠ 1 ∧ a.reason ≠ 2 then .ok (false, f.mark failBit, src.advance 0)
    else if a.state > 0xFF then .ok (false, f.mark failBit, src.advance 0)
    else
      let f := if a.state.testBit 0 then f.mark eofBit else f
      if a.state.testBit 2 || a.state.testBit 3 then .ok (false, f.mark failBit, src.advance 0)
      else if a.state.testBit 5 || a.state.testBit 4 then .ok (false, f.mark badBit, src.advance 0)
      else do
        let f ← f.fill (src.rest.take (src.chunk length))
        .ok (true, f, src.advance (src.chunk length))
  else do
    let f ← f.fill (src.rest.take (src.chunk length))
    .ok (true, f, src.advance (src.chunk length))

/-- `block_read`. Returns the bytes that it has put into the buffer of its caller. -/
def blockRead : ℕ → File → Source → ℕ → Except Stop (Bool × List UInt8 × File × Source)
  | 0, _, _, _ => .error .outOfFuel
  | n + 1, f, src, length =>
      let sz := min f.size length
      let out := f.front sz
      if length - sz = 0 then .ok (true, out, f.drop sz, src)
      else do
        let (res, f, src) ← refill (f.drop sz) src (length - sz)
        if res = false then .ok (false, out, f, src)
        else do
          let (res, more, f, src) ← blockRead n f src (length - sz)
          .ok (res, out ++ more, f, src)

/-- `EOF` -/
def eof : ℤ := -1

/-- A `char` as an `int`. -/
def toInt (ch : UInt8) : ℤ := ch.toInt8.toInt

/-- An `int` as a `char`. -/
def toChar (ch : ℤ) : UInt8 := UInt8.ofNat (ch % 256).toNat

/-- `fgetc` -/
def fgetc (n : ℕ) (f : File) (src : Source) : Except Stop (ℤ × File × Source) := do
  let (res, out, f, src) ← blockRead n f src 1
  .ok (if res = true then toInt (out.headD 0) else eof, f, src)

/-- The end of a line. -/
def newline : UInt8 := 0x0A

/-- The loop of `fgets`. -/
def fgetsLoop (n : ℕ) : ℕ → File → Source → Except Stop (List UInt8 × File × Source)
  | 0, f, src => .ok ([], f, src)
  | k + 1, f, src => do
      let (res, out, f, src) ← blockRead n f src 1
      if res = false then .ok ([], f, src)
      else
        let ch := out.headD 0
        if ch = newline then .ok ([ch], f, src)
        else do
          let (str, f, src) ← fgetsLoop n k f src
          .ok (ch :: str, f, src)

/-- `fgets`. Returns the characters before the terminating null. -/
def fgets (n : ℕ) (f : File) (src : Source) (count : ℤ) :
    Except Stop (Option (List UInt8) × File × Source) :=
  if count = 0 then .ok (none, f, src)
  else if count = 1 then .ok (some [], f, src)
  else do
    let (str, f, src) ← fgetsLoop n (count - 1).toNat f src
    .ok (if str ≠ [] then some str else none, f, src)

/-- `ungetc` -/
def ungetc (ch : ℤ) (f : File) : ℤ × File :=
  if ch = eof then (eof, f)
  else
    let newTail := (f.tail + 1) % ringSize
    if newTail = f.head then (eof, f)
    else (ch, { f with buffer := Function.update f.buffer f.tail (toChar ch), tail := newTail })

/-! ### Calls -/

/-- The calls of a program. -/
inductive Op where
  | blockRead (length : ℕ)
  | fgetc
  | fgets (count : ℤ)
  | ungetc (ch : ℤ)

/-- What a call returns. -/
inductive Result where
  | blockRead (res : Bool) (out : List UInt8)
  | fgetc (ch : ℤ)
  | fgets (str : Option (List UInt8))
  | ungetc (ch : ℤ)
  deriving DecidableEq

/-- Carries out a call, whose loops have so many rounds. -/
def step (n : ℕ) (f : File) (src : Source) : Op → Except Stop (Result × File × Source)
  | .blockRead length => do
      let (res, out, f, src) ← blockRead n f src length
      .ok (.blockRead res out, f, src)
  | .fgetc => do
      let (ch, f, src) ← fgetc n f src
      .ok (.fgetc ch, f, src)
  | .fgets count => do
      let (str, f, src) ← fgets n f src count
      .ok (.fgets str, f, src)
  | .ungetc ch => .ok (.ungetc (ungetc ch f).1, (ungetc ch f).2, src)

/-! ### The stream that a program sees -/

/-- The indices of a file lie in its ring. -/
structure File.Valid (f : File) : Prop where
  head : f.head < ringSize
  tail : f.tail < ringSize

/-- The bytes in the ring. -/
def File.contents (f : File) : List UInt8 := f.front f.size

/-- The bytes in the ring, and those that are still to be delivered after them. -/
def remaining (f : File) (src : Source) : Stream' UInt8 := f.contents ++ₛ src.rest

/-- System calls that do not fail. -/
structure Answer.Calm (a : Answer) : Prop where
  status : a.status = 0
  reason : a.reason = 1 ∨ a.reason = 2
  state : a.state = 0 ∨ a.state = 1

/-- No system call fails. -/
def Source.Calm (src : Source) : Prop := ∀ k, (src.answers k).Calm

/-- There is always a later refill that delivers a byte. -/
def Source.Lively (src : Source) : Prop :=
  ∀ k, ∃ j, k ≤ j ∧ ((src.answers j).size ≠ 0 ∨ (src.answers j).result ≠ 0)

/-- The characters up to the end of a line, and at most so many. -/
def line : ℕ → Stream' UInt8 → List UInt8
  | 0, _ => []
  | k + 1, s => if s.head = newline then [s.head] else s.head :: line k s.tail

/-- What a call is to return when a stream is before it, and the stream that is left. -/
inductive Delivers (input : Stream' UInt8) : Op → Result → Stream' UInt8 → Prop
  | blockRead (length : ℕ) :
      Delivers input (.blockRead length) (.blockRead true (input.take length)) (input.drop length)
  | fgetc : Delivers input .fgetc (.fgetc (toInt input.head)) input.tail
  | fgets (count : ℤ) (str : List UInt8) : str = line (count - 1).toNat input →
      Delivers input (.fgets count) (.fgets (if count = 1 ∨ str ≠ [] then some str else none))
        (input.drop str.length)
  | ungetc (ch : ℤ) : ch ≠ eof →
      Delivers input (.ungetc ch) (.ungetc ch) (Stream'.cons (toChar ch) input)
  | refused (ch : ℤ) : Delivers input (.ungetc ch) (.ungetc eof) input

/-- Calls that are carried out one after another deliver the bytes of a stream. No call writes outside
of the ring, and each returns when the source always delivers another byte later. -/
def Follows : File → Source → Stream' UInt8 → List Op → Prop
  | _, _, _, [] => True
  | f, src, input, op :: ops =>
      (∀ n, step n f src op ≠ .error .overrun) ∧
      (src.Lively → ∃ n res f' src', step n f src op = .ok (res, f', src')) ∧
      ∀ n res f' src', step n f src op = .ok (res, f', src') →
        ∃ input', Delivers input op res input' ∧ Follows f' src' input' ops

/-! ### Where the ring is used as it has to be -/

/-- So many bytes are copied to the right places: they fit before the end of the ring, or the ring ends
a pointer's size after the tail. -/
def File.Fits (f : File) (sz : ℕ) : Prop :=
  f.tail + sz ≤ ringSize ∨ f.tail + File.pointerSize = ringSize

/-- Every refill of `block_read` is copied to the right places. -/
def Smooth : ℕ → File → Source → ℕ → Prop
  | 0, _, _, _ => True
  | n + 1, f, src, length =>
      f.size < length → f.Fits (src.chunk (length - f.size)) ∧
        ∀ f' src', refill (f.drop f.size) src (length - f.size) = .ok (true, f', src') →
          Smooth n f' src' (length - f.size)

/-- Every refill of `fgets` is copied to the right places. -/
def SmoothLine : ℕ → File → Source → Prop
  | 0, _, _ => True
  | k + 1, f, src =>
      (∀ n, Smooth n f src 1) ∧ ∀ n ch f' src', blockRead n f src 1 = .ok (true, [ch], f', src') →
        ch ≠ newline → SmoothLine k f' src'

/-- A call uses the ring as it has to be: every refill is copied to the right places, and a character
is pushed back while the ring is empty, or it is refused. -/
def Op.Serves (f : File) (src : Source) : Op → Prop
  | .blockRead length => ∀ n, Smooth n f src length
  | .fgetc => ∀ n, Smooth n f src 1
  | .fgets count => SmoothLine (count - 1).toNat f src
  | .ungetc ch => ch = eof ∨ (f.tail + 1) % ringSize = f.head ∨ f.head = f.tail

/-- Every call of a run uses the ring as it has to be. -/
def Along : File → Source → List Op → Prop
  | _, _, [] => True
  | f, src, op :: ops =>
      op.Serves f src ∧
        ∀ n res f' src', step n f src op = .ok (res, f', src') → Along f' src' ops

/-! ### The ring -/

variable {f f' : File} {src src' : Source} {n k length sz : ℕ} {op : Op} {l : List UInt8}

namespace File

theorem size_lt (f : File) : f.size < ringSize := Nat.mod_lt _ (by decide)

theorem Valid.drop (h : f.Valid) (sz : ℕ) : (f.drop sz).Valid := ⟨Nat.mod_lt _ (by decide), h.tail⟩

/-- The first bytes of the ring are in the places from the head on, which wrap around. -/
theorem Valid.front_eq (h : f.Valid) (hsz : sz ≤ ringSize) :
  f.front sz = (List.range sz).map fun i => f.buffer ((f.head + i) % ringSize)
  := by
  have hhead := h.head
  rw [front]
  split_ifs with hle
  · apply List.map_congr_left
    intro i hi
    rw [List.mem_range] at hi
    rw [Nat.mod_eq_of_lt (by lia)]
  · obtain ⟨m, rfl⟩ : ∃ m, sz = (ringSize - f.head) + m := ⟨sz - (ringSize - f.head), by lia⟩
    rw [List.range_add, List.map_append, Nat.add_sub_cancel_left, List.map_map]
    congr 1
    · apply List.map_congr_left
      intro i hi
      rw [List.mem_range] at hi
      rw [Nat.mod_eq_of_lt (by lia)]
    · apply List.map_congr_left
      intro i hi
      rw [List.mem_range] at hi
      have hplace : f.head + (ringSize - f.head + i) = i + ringSize := by lia
      rw [Function.comp_apply, hplace, Nat.add_mod_right, Nat.mod_eq_of_lt (by lia), Nat.zero_add]

theorem Valid.size_drop (h : f.Valid) (hsz : sz ≤ f.size) : (f.drop sz).size = f.size - sz := by
  have hhead := h.head
  have htail := h.tail
  rw [size, File.drop]
  rw [size] at hsz ⊢
  simp only [ringSize] at *
  lia

/-- Taking the first bytes leaves the others. -/
theorem Valid.contents_eq (h : f.Valid) (hsz : sz ≤ f.size) :
  f.contents = f.front sz ++ (f.drop sz).contents
  := by
  have hlt := f.size_lt
  rw [contents, contents, h.size_drop hsz, h.front_eq (by lia), h.front_eq (by lia),
    (h.drop sz).front_eq (by lia)]
  obtain ⟨m, hm⟩ : ∃ m, f.size = sz + m := ⟨f.size - sz, by lia⟩
  rw [hm, Nat.add_sub_cancel_left, List.range_add, List.map_append, List.map_map]
  congr 1
  apply List.map_congr_left
  intro i _
  rw [Function.comp_apply, File.drop, Nat.mod_add_mod, Nat.add_assoc]

theorem length_contents (h : f.Valid) : f.contents.length = f.size := by
  rw [contents, h.front_eq f.size_lt.le, List.length_map, List.length_range]

theorem Valid.length_front (h : f.Valid) (hsz : sz ≤ ringSize) : (f.front sz).length = sz := by
  rw [h.front_eq hsz, List.length_map, List.length_range]

/-- The bytes of the ring, given one by one. -/
theorem Valid.contents_of (h : f.Valid) (hsize : f.size = l.length)
    (hbyte : ∀ i (hi : i < l.length), f.buffer ((f.head + i) % ringSize) = l[i]) :
  f.contents = l
  := by
  rw [contents, h.front_eq f.size_lt.le, hsize]
  apply List.ext_getElem
  · rw [List.length_map, List.length_range]
  · intro i hi hi'
    rw [List.getElem_map, List.getElem_range, hbyte i hi']

/-- The size of a ring into which bytes have been put. -/
theorem Valid.size_fill (sz : ℕ) (h : f.Valid) (hempty : f.head = f.tail) (hsz : sz < ringSize) :
  ((f.tail + sz) % ringSize + ringSize - f.head) % ringSize = sz
  := by
  have htail := h.tail
  rw [hempty]
  simp only [ringSize] at *
  lia

/-- Copying the bytes of a refill into an empty ring. -/
theorem Valid.fill_eq (h : f.Valid) (hempty : f.head = f.tail) (hfits : f.Fits l.length)
    (hl : l.length ≤ 0x100) :
  ∃ f', f.fill l = .ok f' ∧ f'.Valid ∧ f'.contents = l
  := by
  have htail := h.tail
  have hlt : l.length < ringSize := hl.trans_lt (by decide)
  by_cases hle : f.tail + l.length ≤ ringSize
  · have hv : ((f.store f.tail l).grow l.length).Valid := ⟨h.head, Nat.mod_lt _ (by decide)⟩
    refine ⟨_, ?_, hv, hv.contents_of (h.size_fill _ hempty hlt) ?_⟩
    · rw [fill, if_pos hle, copy, if_pos hle]
      rfl
    · intro i hi
      have hmod : (f.head + i) % ringSize = f.tail + i := by
        rw [hempty, Nat.mod_eq_of_lt (by lia)]
      change (f.store f.tail l).buffer ((f.head + i) % ringSize) = _
      rw [hmod, store]
      simp only [Nat.le_add_right, if_true, Nat.add_sub_cancel_left, List.getElem?_eq_getElem hi,
        Option.getD_some]
  · have hplace : f.tail + pointerSize = ringSize := hfits.resolve_left hle
    have hlong : pointerSize < l.length := by lia
    have hfirst : f.tail + (l.take pointerSize).length ≤ ringSize := by
      rw [List.length_take]
      lia
    have hsecond : 0 + (l.drop pointerSize).length ≤ ringSize := by
      rw [List.length_drop]
      lia
    have hv : (((f.store f.tail (l.take pointerSize)).store 0 (l.drop pointerSize)).grow
        l.length).Valid := ⟨h.head, Nat.mod_lt _ (by decide)⟩
    refine ⟨_, ?_, hv, hv.contents_of (h.size_fill _ hempty hlt) ?_⟩
    · rw [fill, if_neg hle, copy, if_pos hfirst, Except.ok_bind, copy, if_pos hsecond]
      rfl
    · intro i hi
      change (((l.drop pointerSize)[(f.head + i) % ringSize - 0]?).getD
        ((f.store f.tail (l.take pointerSize)).buffer ((f.head + i) % ringSize))) = _
      by_cases hi' : i < pointerSize
      · have hmod : (f.head + i) % ringSize = f.tail + i := by
          rw [hempty, Nat.mod_eq_of_lt (by lia)]
        have hnone : (l.drop pointerSize)[f.tail + i]? = none := by
          rw [List.getElem?_eq_none_iff, List.length_drop]
          simp only [ringSize, pointerSize] at *
          lia
        rw [hmod, Nat.sub_zero, hnone, Option.getD_none, store]
        simp only [Nat.le_add_right, if_true, Nat.add_sub_cancel_left, List.getElem?_take_of_lt hi',
          List.getElem?_eq_getElem hi, Option.getD_some]
      · have hmod : (f.head + i) % ringSize = i - pointerSize := by
          have hsum : f.head + i = i - pointerSize + ringSize := by lia
          rw [hsum, Nat.add_mod_right, Nat.mod_eq_of_lt (by lia)]
        have hget : (l.drop pointerSize)[i - pointerSize]? = some l[i] := by
          rw [List.getElem?_drop, Nat.add_sub_cancel' (Nat.le_of_not_lt hi'),
            List.getElem?_eq_getElem hi]
        rw [hmod, Nat.sub_zero, hget, Option.getD_some]

end File

/-! ### Refills -/

theorem Source.Calm.of_eq (h : src.Calm) (hans : src'.answers = src.answers) : src'.Calm := by
  intro k
  rw [hans]
  exact h k

theorem Source.Lively.of_eq (h : src.Lively) (hans : src'.answers = src.answers) : src'.Lively := by
  intro k
  rw [hans]
  exact h k

theorem Source.chunk_le (src : Source) (length : ℕ) : src.chunk length ≤ 0x100 := by
  have hrequest : request length ≤ 0x100 := Nat.min_le_right _ _
  rw [chunk]
  split_ifs
  · exact (Nat.min_le_right _ _).trans hrequest
  · exact (Nat.min_le_right _ _).trans hrequest

/-- A refill of an empty ring that is copied to the right places. -/
theorem refill_eq (length : ℕ) (h : f.Valid) (hcalm : src.Calm) (hempty : f.head = f.tail)
    (hfits : f.Fits (src.chunk length)) :
  ∃ f', refill f src length = .ok (true, f', src.advance (src.chunk length)) ∧ f'.Valid ∧
    f'.contents = src.rest.take (src.chunk length)
  := by
  have hlen : (src.rest.take (src.chunk length)).length = src.chunk length := Stream'.length_take _ _
  have hfill : ∀ f : File, f.Valid → f.head = f.tail → f.Fits (src.chunk length) →
      ∃ f', f.fill (src.rest.take (src.chunk length)) = .ok f' ∧ f'.Valid ∧
        f'.contents = src.rest.take (src.chunk length) := by
    intro f h hempty hfits
    apply h.fill_eq hempty
    · rw [hlen]
      exact hfits
    · rw [hlen]
      exact src.chunk_le length
  have ha : src.answer.Calm := hcalm src.calls
  rw [refill]
  simp only [ha.status, ne_eq, not_true_eq_false, if_false]
  by_cases hzero : min src.answer.size (request length) = 0
  · have hreason : ¬ (¬ src.answer.reason = 1 ∧ ¬ src.answer.reason = 2) := by
      have hreason := ha.reason
      tauto
    rw [if_pos hzero, if_neg hreason]
    rcases ha.state with hstate | hstate
    · obtain ⟨f', heq, hf'⟩ := hfill f h hempty hfits
      refine ⟨f', ?_, hf'⟩
      simp [hstate, heq]
    · obtain ⟨f', heq, hf'⟩ := hfill (f.mark eofBit) ⟨h.head, h.tail⟩ hempty hfits
      refine ⟨f', ?_, hf'⟩
      simp [hstate, heq]
      rfl
  · obtain ⟨f', heq, hf'⟩ := hfill f h hempty hfits
    refine ⟨f', ?_, hf'⟩
    rw [if_neg hzero, heq]
    rfl

/-! ### Reading -/

/-- After so many bytes have been read. -/
structure Reads (f : File) (src : Source) (length : ℕ) (f' : File) (src' : Source) : Prop where
  valid : f'.Valid
  remaining : remaining f' src' = (remaining f src).drop length
  answers : src'.answers = src.answers

/-- The bytes of the ring come before the others. -/
theorem remaining_eq (h : f.Valid) (hsz : sz ≤ f.size) (src : Source) :
  remaining f src = f.front sz ++ₛ remaining (f.drop sz) src
  := by
  rw [remaining, h.contents_eq hsz, Stream'.append_append_stream, remaining]

/-- An empty ring. -/
theorem File.Valid.drop_size (h : f.Valid) : (f.drop f.size).head = (f.drop f.size).tail := by
  have hhead := h.head
  have htail := h.tail
  change (f.head + (f.tail + ringSize - f.head) % ringSize) % ringSize = f.tail
  simp only [ringSize] at *
  lia

/-- A round of `block_read` that needs a refill: the ring is emptied, and then the bytes that are
delivered are all that is in it. -/
theorem refill_step (h : f.Valid) (hcalm : src.Calm)
    (hfits : f.Fits (src.chunk (length - f.size))) :
  ∃ f' src', refill (f.drop f.size) src (length - f.size) = .ok (true, f', src') ∧ f'.Valid ∧
    src'.answers = src.answers ∧ src'.calls = src.calls + 1 ∧ remaining f' src' = src.rest ∧
    f'.size = src.chunk (length - f.size)
  := by
  obtain ⟨f', heq, hv, hcontents⟩ := refill_eq (length - f.size) (h.drop f.size) hcalm
    h.drop_size hfits
  refine ⟨f', _, heq, hv, rfl, rfl, ?_, ?_⟩
  · rw [remaining, hcontents]
    apply Stream'.append_take_drop
  · rw [← File.length_contents hv, hcontents, Stream'.length_take]

/-- A round of `block_read` that is the last one. -/
theorem blockRead_last (n : ℕ) (hle : length ≤ f.size) :
  blockRead (n + 1) f src length = .ok (true, f.front length, f.drop length, src)
  := by
  rw [blockRead, min_eq_right hle]
  simp only [Nat.sub_self, if_true]

/-- A round of `block_read` after which there is another one. -/
theorem blockRead_round (n : ℕ) (hlt : f.size < length)
    (hrefill : refill (f.drop f.size) src (length - f.size) = .ok (true, f', src')) :
  blockRead (n + 1) f src length = (do
    let (res, more, f', src') ← blockRead n f' src' (length - f.size)
    .ok (res, f.front f.size ++ more, f', src'))
  := by
  rw [blockRead, min_eq_left hlt.le]
  simp only [if_neg (Nat.sub_ne_zero_of_lt hlt), hrefill]
  rfl

/-- `block_read` delivers the first bytes, if it has enough rounds. -/
theorem blockRead_cases (n : ℕ) : ∀ {f : File} {src : Source} {length : ℕ}, f.Valid → src.Calm →
    Smooth n f src length →
  blockRead n f src length = .error .outOfFuel ∨
    ∃ f' src', blockRead n f src length = .ok (true, (remaining f src).take length, f', src') ∧
      Reads f src length f' src'
  := by
  induction n with
  | zero =>
      intro f src length _ _ _
      exact .inl rfl
  | succ n ih =>
      intro f src length h hcalm hsmooth
      have hlt := f.size_lt
      by_cases hle : length ≤ f.size
      · have hlen := h.length_front (hle.trans hlt.le)
        have hrem := remaining_eq h hle src
        refine .inr ⟨f.drop length, src, ?_, h.drop length, ?_, rfl⟩
        · rw [blockRead_last n hle, hrem, Stream'.take_append_of_le_length _ _ _ hlen.ge, List.take_of_length_le hlen.le]
        · rw [hrem]
          nth_rewrite 2 [← hlen]
          rw [Stream'.drop_append_stream]
      · obtain ⟨hfits, hnext⟩ := hsmooth (Nat.lt_of_not_le hle)
        obtain ⟨f₁, src₁, hrefill, h₁, hans, -, hrem, -⟩ := refill_step h hcalm hfits
        have hlen : f.contents.length = f.size := File.length_contents h
        have hround := blockRead_round n (Nat.lt_of_not_le hle) hrefill
        obtain hfuel | ⟨f', src', hread, hreads⟩ := ih h₁ (hcalm.of_eq hans) (hnext f₁ src₁ hrefill)
        · left
          rw [hround, hfuel]
          rfl
        · refine .inr ⟨f', src', ?_, hreads.valid, ?_, hreads.answers.trans hans⟩
          · rw [hround, hread, hrem]
            change Except.ok (true, f.contents ++ _, f', src') = _
            rw [Stream'.append_take, hlen, Nat.add_sub_cancel' (Nat.le_of_not_le hle), remaining]
          · rw [hreads.remaining, hrem, remaining]
            nth_rewrite 2 [← Nat.add_sub_cancel' (Nat.le_of_not_le hle)]
            rw [← Stream'.drop_drop, ← hlen, Stream'.drop_append_stream]

/-- More rounds do not change what is read. -/
theorem blockRead_mono (n : ℕ) : ∀ {f : File} {src : Source} {length : ℕ}
    {r : Bool × List UInt8 × File × Source},
    blockRead n f src length = .ok r → blockRead (n + 1) f src length = .ok r
  := by
  induction n with
  | zero =>
      intro f src length r h
      cases h
  | succ n ih =>
      intro f src length r h
      rw [blockRead] at h ⊢
      by_cases hdone : length - min f.size length = 0
      · simp only [if_pos hdone] at h ⊢
        exact h
      · simp only [if_neg hdone] at h ⊢
        obtain ⟨⟨res, f₁, src₁⟩, hrefill, h⟩ := Except.bind_eq_ok_iff.mp h
        rw [hrefill, Except.ok_bind]
        cases res with
        | false => exact h
        | true =>
            simp only [Bool.true_eq_false, if_false] at h ⊢
            obtain ⟨r', hread, h⟩ := Except.bind_eq_ok_iff.mp h
            rw [ih hread]
            exact h

theorem blockRead_le {m : ℕ} (hle : n ≤ m) {r : Bool × List UInt8 × File × Source}
    (h : blockRead n f src length = .ok r) :
  blockRead m f src length = .ok r
  := by
  induction hle with
  | refl => exact h
  | step _ ih => exact blockRead_mono _ ih

/-- A refill that delivers anything. -/
theorem Source.chunk_pos (length : ℕ) (h : src.answer.size ≠ 0 ∨ src.answer.result ≠ 0) : 0 < src.chunk length := by
  have hrequest : 0x40 ≤ request length := le_min (Nat.le_max_left _ _) (by decide)
  rw [chunk]
  split_ifs <;> lia

/-- `block_read` returns when every call of the source is followed by one that delivers a byte. The
induction is on the number of bytes that are needed, and then on the number of refills that deliver
none. -/
theorem blockRead_returns (need : ℕ) : ∀ (d : ℕ) {f : File} {src : Source} {length : ℕ}, f.Valid →
    src.Calm → src.Lively → (∀ n, Smooth n f src length) → length - f.size ≤ need →
    ((src.answers (src.calls + d)).size ≠ 0 ∨ (src.answers (src.calls + d)).result ≠ 0) →
  ∃ n r, blockRead n f src length = .ok r
  := by
  -- one round, after which as many bytes as have been delivered are no longer needed
  have hround : ∀ {f : File} {src : Source} {length : ℕ}, f.Valid → src.Calm →
      (∀ n, Smooth n f src length) →
      (∀ f' src', f'.Valid → src'.answers = src.answers → src'.calls = src.calls + 1 →
        (∀ n, Smooth n f' src' (length - f.size)) → f'.size = src.chunk (length - f.size) →
        ∃ n r, blockRead n f' src' (length - f.size) = .ok r) →
      ∃ n r, blockRead n f src length = .ok r := by
    intro f src length h hcalm hsmooth hnext
    by_cases hle : length ≤ f.size
    · exact ⟨1, _, blockRead_last 0 hle⟩
    · have hlt := Nat.lt_of_not_le hle
      obtain ⟨f₁, src₁, hrefill, h₁, hans, hcalls, -, hsize⟩ :=
        refill_step h hcalm (hsmooth 1 hlt).1
      obtain ⟨n, r, hr⟩ := hnext f₁ src₁ h₁ hans hcalls
        (fun n => (hsmooth (n + 1) hlt).2 f₁ src₁ hrefill) hsize
      refine ⟨n + 1, (r.1, f.front f.size ++ r.2.1, r.2.2.1, r.2.2.2), ?_⟩
      rw [blockRead_round n hlt hrefill, hr]
      rfl
  induction need with
  | zero =>
      intro d f src length _ _ _ _ hneed _
      exact ⟨1, _, blockRead_last 0 (Nat.le_of_sub_eq_zero (Nat.le_zero.mp hneed))⟩
  | succ need ihneed =>
      intro d
      induction d with
      | zero =>
          intro f src length h hcalm hlively hsmooth hneed hbyte
          apply hround h hcalm hsmooth
          intro f' src' h' hans hcalls hsmooth' hsize
          have hpos := Source.chunk_pos (length - f.size) hbyte
          obtain ⟨j, hj, hbyte'⟩ := hlively.of_eq hans src'.calls
          obtain ⟨d', rfl⟩ := Nat.exists_eq_add_of_le hj
          exact ihneed d' h' (hcalm.of_eq hans) (hlively.of_eq hans) hsmooth' (by lia) hbyte'
      | succ d ihd =>
          intro f src length h hcalm hlively hsmooth hneed hbyte
          apply hround h hcalm hsmooth
          intro f' src' h' hans hcalls hsmooth' hsize
          apply ihd h' (hcalm.of_eq hans) (hlively.of_eq hans) hsmooth' (by lia)
          rw [hans, hcalls, Nat.add_right_comm, Nat.add_assoc]
          exact hbyte

/-- `block_read` delivers the first bytes when the source always delivers another byte later. -/
theorem blockRead_lively (hlively : src.Lively) (h : f.Valid) (hcalm : src.Calm)
    (hsmooth : ∀ n, Smooth n f src length) :
  ∃ n f' src', blockRead n f src length = .ok (true, (remaining f src).take length, f', src') ∧
    Reads f src length f' src'
  := by
  obtain ⟨j, hj, hbyte⟩ := hlively src.calls
  obtain ⟨d, rfl⟩ := Nat.exists_eq_add_of_le hj
  obtain ⟨n, r, hr⟩ := blockRead_returns _ d h hcalm hlively hsmooth (le_refl _) hbyte
  obtain hfuel | hread := blockRead_cases n h hcalm (hsmooth n)
  · rw [hfuel] at hr
    cases hr
  · exact ⟨n, hread⟩

theorem Reads.trans {f₁ : File} {src₁ : Source} {m : ℕ} (h : Reads f src n f₁ src₁)
    (h' : Reads f₁ src₁ m f' src') :
  Reads f src (n + m) f' src'
  := by
  refine ⟨h'.valid, ?_, h'.answers.trans h.answers⟩
  rw [h'.remaining, h.remaining, Stream'.drop_drop]

/-! ### Lines -/

/-- A round of the loop of `fgets`. -/
theorem fgetsLoop_round (k : ℕ) {s : Stream' UInt8}
    (hread : blockRead n f src 1 = .ok (true, s.take 1, f', src')) :
  fgetsLoop n (k + 1) f src =
    (if s.head = newline then .ok ([s.head], f', src')
    else do
      let (str, f', src') ← fgetsLoop n k f' src'
      .ok (s.head :: str, f', src'))
  := by
  rw [fgetsLoop, hread]
  rfl

/-- The loop of `fgets` delivers a line, if it has enough rounds. -/
theorem fgetsLoop_cases (n k : ℕ) : ∀ {f : File} {src : Source}, f.Valid → src.Calm →
    SmoothLine k f src →
  fgetsLoop n k f src = .error .outOfFuel ∨
    ∃ f' src', fgetsLoop n k f src = .ok (line k (remaining f src), f', src') ∧
      Reads f src (line k (remaining f src)).length f' src'
  := by
  induction k with
  | zero =>
      intro f src h _ _
      exact .inr ⟨f, src, rfl, h, rfl, rfl⟩
  | succ k ih =>
      intro f src h hcalm hsmooth
      obtain hfuel | ⟨f₁, src₁, hread, hreads⟩ := blockRead_cases n h hcalm (hsmooth.1 n)
      · left
        rw [fgetsLoop, hfuel]
        rfl
      · rw [fgetsLoop_round k hread, line]
        by_cases hline : (remaining f src).head = newline
        · rw [if_pos hline, if_pos hline]
          exact .inr ⟨f₁, src₁, rfl, hreads⟩
        · rw [if_neg hline, if_neg hline]
          have htail : remaining f₁ src₁ = (remaining f src).tail := hreads.remaining
          obtain hfuel | ⟨f', src', hloop, hreads'⟩ := ih hreads.valid (hcalm.of_eq hreads.answers)
            (hsmooth.2 n _ f₁ src₁ hread hline)
          · left
            rw [hfuel]
            rfl
          · rw [htail] at hloop hreads'
            refine .inr ⟨f', src', ?_, ?_⟩
            · rw [hloop]
              rfl
            · rw [List.length_cons, Nat.add_comm]
              exact hreads.trans hreads'

/-- More rounds do not change the line. -/
theorem fgetsLoop_le {m : ℕ} (hle : n ≤ m) (k : ℕ) : ∀ {f : File} {src : Source}
    {r : List UInt8 × File × Source}, fgetsLoop n k f src = .ok r → fgetsLoop m k f src = .ok r
  := by
  induction k with
  | zero =>
      intro f src r h
      exact h
  | succ k ih =>
      intro f src r h
      rw [fgetsLoop] at h ⊢
      obtain ⟨⟨res, out, f₁, src₁⟩, hread, h⟩ := Except.bind_eq_ok_iff.mp h
      rw [blockRead_le hle hread, Except.ok_bind]
      cases res with
      | false => exact h
      | true =>
          simp only [Bool.true_eq_false, if_false] at h ⊢
          by_cases hline : out.headD 0 = newline
          · rw [if_pos hline] at h ⊢
            exact h
          · rw [if_neg hline] at h ⊢
            obtain ⟨r', hloop, h⟩ := Except.bind_eq_ok_iff.mp h
            rw [ih hloop]
            exact h

/-- The loop of `fgets` returns when the source always delivers another byte later. -/
theorem fgetsLoop_lively (k : ℕ) : ∀ {f : File} {src : Source}, src.Lively → f.Valid → src.Calm →
    SmoothLine k f src →
  ∃ n r, fgetsLoop n k f src = .ok r
  := by
  induction k with
  | zero =>
      intro f src _ _ _ _
      exact ⟨0, _, rfl⟩
  | succ k ih =>
      intro f src hlively h hcalm hsmooth
      obtain ⟨n, f₁, src₁, hread, hreads⟩ := blockRead_lively hlively h hcalm hsmooth.1
      by_cases hline : (remaining f src).head = newline
      · refine ⟨n, ([(remaining f src).head], f₁, src₁), ?_⟩
        rw [fgetsLoop_round k hread, if_pos hline]
      · obtain ⟨m, r, hloop⟩ := ih (hlively.of_eq hreads.answers) hreads.valid
          (hcalm.of_eq hreads.answers) (hsmooth.2 n _ f₁ src₁ hread hline)
        refine ⟨max n m, ((remaining f src).head :: r.1, r.2.1, r.2.2), ?_⟩
        rw [fgetsLoop_round k (blockRead_le (Nat.le_max_left n m) hread), if_neg hline,
          fgetsLoop_le (Nat.le_max_right n m) k hloop]
        rfl

/-! ### Runs -/

/-- A call that is refused or finds an empty ring puts its character before the others. -/
theorem ungetc_delivers (ch : ℤ) (src : Source) (h : f.Valid) (hserves : (Op.ungetc ch).Serves f src) :
  ∃ input', Delivers (remaining f src) (.ungetc ch) (.ungetc (ungetc ch f).1) input' ∧
    (ungetc ch f).2.Valid ∧ remaining (ungetc ch f).2 src = input'
  := by
  rw [ungetc]
  by_cases heof : ch = eof
  · rw [if_pos heof]
    exact ⟨_, .refused ch, h, rfl⟩
  · rw [if_neg heof]
    by_cases hfull : (f.tail + 1) % ringSize = f.head
    · simp only [if_pos hfull]
      exact ⟨_, .refused ch, h, rfl⟩
    · simp only [if_neg hfull]
      have hempty : f.head = f.tail := (hserves.resolve_left heof).resolve_left hfull
      have htail := h.tail
      have hv : File.Valid { f with
          buffer := Function.update f.buffer f.tail (toChar ch)
          tail := (f.tail + 1) % ringSize } := ⟨h.head, Nat.mod_lt _ (by decide)⟩
      refine ⟨_, .ungetc ch heof, hv, ?_⟩
      have hsize := h.size_fill 1 hempty (by decide)
      have hmod : (f.head + 0) % ringSize = f.tail := by
        rw [hempty, Nat.add_zero, Nat.mod_eq_of_lt h.tail]
      have hcontents := hv.contents_of (l := [toChar ch]) hsize (by
        intro i hi
        obtain rfl : i = 0 := Nat.lt_one_iff.mp hi
        change Function.update f.buffer f.tail (toChar ch) ((f.head + 0) % ringSize) = _
        rw [hmod, Function.update_self]
        rfl)
      have hnone : f.contents = [] := by
        rw [← List.length_eq_zero_iff, File.length_contents h, File.size, hempty,
          Nat.add_sub_cancel_left, Nat.mod_self]
      rw [remaining, hcontents, remaining, hnone]
      rfl

/-- `fgets` returns what its loop returns, also where there is none. -/
theorem fgets_eq (n : ℕ) (f : File) (src : Source) (count : ℤ) :
  fgets n f src count = (do
    let (str, f, src) ← fgetsLoop n (count - 1).toNat f src
    .ok (if count = 1 ∨ str ≠ [] then some str else none, f, src))
  := by
  rw [fgets]
  by_cases hzero : count = 0
  · subst hzero
    rfl
  · rw [if_neg hzero]
    by_cases hone : count = 1
    · subst hone
      rfl
    · rw [if_neg hone]
      simp only [hone, false_or]

/-- A call delivers what it is to deliver. -/
theorem step_delivers (n : ℕ) (h : f.Valid) (hcalm : src.Calm) (hserves : op.Serves f src) :
  step n f src op = .error .outOfFuel ∨
    ∃ res f' src' input', step n f src op = .ok (res, f', src') ∧
      Delivers (remaining f src) op res input' ∧ f'.Valid ∧ src'.answers = src.answers ∧
      remaining f' src' = input'
  := by
  cases op with
  | blockRead length =>
      obtain hfuel | ⟨f', src', hread, hreads⟩ := blockRead_cases n h hcalm (hserves n)
      · left
        rw [step, hfuel]
        rfl
      · right
        refine ⟨_, f', src', _, ?_, .blockRead length, hreads.valid, hreads.answers, hreads.remaining⟩
        rw [step, hread]
        rfl
  | fgetc =>
      obtain hfuel | ⟨f', src', hread, hreads⟩ := blockRead_cases n h hcalm (hserves n)
      · left
        rw [step, fgetc, hfuel]
        rfl
      · right
        refine ⟨_, f', src', _, ?_, .fgetc, hreads.valid, hreads.answers, hreads.remaining⟩
        rw [step, fgetc, hread]
        rfl
  | fgets count =>
      obtain hfuel | ⟨f', src', hloop, hreads⟩ := fgetsLoop_cases n _ h hcalm hserves
      · left
        rw [step, fgets_eq, hfuel]
        rfl
      · right
        refine ⟨_, f', src', _, ?_, .fgets count _ rfl, hreads.valid, hreads.answers, hreads.remaining⟩
        rw [step, fgets_eq, hloop]
        rfl
  | ungetc ch =>
      obtain ⟨input', hdelivers, hv, hrem⟩ := ungetc_delivers ch src h hserves
      exact .inr ⟨_, _, src, input', rfl, hdelivers, hv, rfl, hrem⟩

/-- A call returns when the source always delivers another byte later. -/
theorem step_lively (hlively : src.Lively) (h : f.Valid) (hcalm : src.Calm) (hserves : op.Serves f src) :
  ∃ n res f' src', step n f src op = .ok (res, f', src')
  := by
  cases op with
  | blockRead length =>
      obtain ⟨n, f', src', hread, -⟩ := blockRead_lively hlively h hcalm hserves
      refine ⟨n, .blockRead true ((remaining f src).take length), f', src', ?_⟩
      rw [step, hread]
      rfl
  | fgetc =>
      obtain ⟨n, f', src', hread, -⟩ := blockRead_lively hlively h hcalm hserves
      refine ⟨n, .fgetc (toInt (remaining f src).head), f', src', ?_⟩
      rw [step, fgetc, hread]
      rfl
  | fgets count =>
      obtain ⟨n, ⟨str, f', src'⟩, hloop⟩ := fgetsLoop_lively _ hlively h hcalm hserves
      refine ⟨n, .fgets (if count = 1 ∨ str ≠ [] then some str else none), f', src', ?_⟩
      rw [step, fgets_eq, hloop]
      rfl
  | ungetc ch => exact ⟨0, _, _, _, rfl⟩

/-- From any state of the file, a program sees the bytes of the ring and then the others. -/
theorem follows_of_valid (ops : List Op) (h : f.Valid) (hcalm : src.Calm) (hrun : Along f src ops) :
  Follows f src (remaining f src) ops
  := by
  induction ops generalizing f src with
  | nil => trivial
  | cons op ops ih =>
      obtain ⟨hserves, hrest⟩ := hrun
      refine ⟨?_, fun hlively => step_lively hlively h hcalm hserves, ?_⟩
      · intro n hover
        obtain hfuel | ⟨res, f', src', -, hstep, -⟩ := step_delivers n h hcalm hserves
        · rw [hfuel] at hover
          cases hover
        · rw [hstep] at hover
          cases hover
      · intro n res f' src' hstep
        obtain hfuel | ⟨res', f'', src'', input', hstep', hdelivers, hv, hans, hrem⟩ :=
          step_delivers n h hcalm hserves
        · rw [hfuel] at hstep
          cases hstep
        · rw [hstep'] at hstep
          cases hstep
          refine ⟨input', hdelivers, ?_⟩
          rw [← hrem]
          exact ih hv (hcalm.of_eq hans) (hrest n _ _ _ hstep')

/-- A program that reads a new file sees the stream, with the characters that it pushes back before
what comes after them, as long as it pushes them back while the ring is empty and no refill crosses
the end of the ring at a place where it is copied wrongly. -/
theorem input_in_order (ops : List Op) (hcalm : src.Calm) (hrun : Along {} src ops) :
  Follows {} src src.rest ops
  := by
  apply follows_of_valid ops ⟨by decide, by decide⟩ hcalm hrun

/-- A read for which one refill delivers enough. -/
theorem smooth_of_chunk (h : f.Valid) (hcalm : src.Calm) (hfits : f.Fits (src.chunk (length - f.size)))
    (hle : length - f.size ≤ src.chunk (length - f.size)) (n : ℕ) :
  Smooth n f src length
  := by
  cases n with
  | zero => trivial
  | succ n =>
      intro _
      refine ⟨hfits, ?_⟩
      intro f' src' hrefill
      obtain ⟨f₁, src₁, hrefill', -, -, -, -, hsize⟩ := refill_step h hcalm hfits
      rw [hrefill] at hrefill'
      cases hrefill'
      cases n with
      | zero => trivial
      | succ n =>
          intro hlt
          rw [hsize] at hlt
          exact absurd hle hlt.not_ge

/-- A source whose refills deliver two bytes each. -/
def pairs : Source := ⟨fun n => UInt8.ofNat n, fun _ => { size := 2, reason := 1 }, 0⟩

theorem pairs_calm : pairs.Calm := fun _ => ⟨rfl, .inl rfl, .inl rfl⟩

/-- A character is pushed back and read, and then the first byte of the stream is. -/
theorem input_in_order_pairs : Follows {} pairs pairs.rest [.ungetc 0x41, .fgetc, .fgetc] := by
  apply input_in_order _ pairs_calm
  refine ⟨.inr (.inr rfl), ?_⟩
  intro n res f' src' hungetc
  cases hungetc
  refine ⟨?_, ?_⟩
  · intro n
    cases n with
    | zero => trivial
    | succ n =>
        intro hlt
        exact absurd hlt (by decide)
  · intro n res f' src' hfgetc
    cases n with
    | zero => cases hfgetc
    | succ n =>
        rw [step, fgetc, blockRead_last n (by decide)] at hfgetc
        cases hfgetc
        refine ⟨smooth_of_chunk ⟨by decide, by decide⟩ pairs_calm (.inl (by decide)) (by decide), ?_⟩
        intro n res f' src' _
        trivial

/-- The file after one of two bytes has been read. -/
def halfRead : File := ((({} : File).store 0 [0, 1]).grow 2).drop 1

theorem step_pairs : step 2 {} pairs .fgetc = .ok (.fgetc 0, halfRead, pairs.advance 2) := by
  have hrefill : refill (File.drop {} (File.size {})) pairs (1 - File.size {}) =
      .ok (true, (({} : File).store 0 [0, 1]).grow 2, pairs.advance 2) := rfl
  rw [step, fgetc, blockRead_round 1 (by decide) hrefill, blockRead_last 0 (by decide)]
  rfl

/-- A character that is pushed back while there is a byte in the ring is delivered after it. -/
theorem ungetc_behind : ¬ Follows {} pairs pairs.rest [.fgetc, .ungetc 0x41, .fgetc] := by
  rintro ⟨-, -, hfirst⟩
  obtain ⟨input₁, -, -, -, hsecond⟩ := hfirst 2 _ _ _ step_pairs
  obtain ⟨input₂, hungetc, -, -, hthird⟩ := hsecond 0 _ _ _ rfl
  have hread : step 1 (ungetc 0x41 halfRead).2 (pairs.advance 2) .fgetc =
      .ok (.fgetc 1, (ungetc 0x41 halfRead).2.drop 1, pairs.advance 2) := by
    rw [step, fgetc, blockRead_last 0 (by decide)]
    rfl
  obtain ⟨input₃, hfgetc, -⟩ := hthird 1 _ _ _ hread
  have hinput : input₂ = Stream'.cons 0x41 input₁ := by
    generalize hres : Result.ungetc (ungetc 0x41 halfRead).1 = res at hungetc
    cases hungetc with
    | ungetc _ _ => rfl
    | refused _ => exact absurd hres (by decide)
  subst hinput
  generalize hres : Result.fgetc 1 = res at hfgetc
  cases hfgetc
  have hchar : Result.fgetc 1 = .fgetc (toInt 0x41) := hres
  exact absurd hchar (by decide)

end Stdio

end UOS
