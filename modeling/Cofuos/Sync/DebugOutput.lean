import Cofuos.Sync.Pipe
import Cofuos.Lib.Machine
import Mathlib.Data.List.DropRight

/-!
# Debug output

Programs write their debug output into a pipe of the kernel, from which a thread of the kernel
prints it line by line. A line ends with a zero or with a newline. The thread collects the bytes
of a line in a buffer of fixed size: it reads as many bytes as the buffer has room for, prints
every line that is complete, and moves the bytes that remain to the front. The definitions follow
`thread_kdb` of `kernel/COFUOS.cpp`.

Nothing is lost: the lines that have been printed, with what they ended with, and the bytes that
remain are the bytes that have been read. But when the bytes that remain fill the buffer, there is
no room for the next read, and the thread never takes another byte from the pipe.
-/

namespace UOS

/-- The byte ends a line. -/
def isSeparator (b : BitVec 8) : Bool := b == 0 || b == 0x0A

/-- The buffer of `thread_kdb`, with what has been printed: the strings, and the bytes at which
they ended. -/
structure LineBuffer where
  buffer : ℕ → BitVec 8
  offset : ℕ
  printed : List (List (BitVec 8) × BitVec 8)

/-- The first bytes of a buffer. -/
def upTo (buffer : ℕ → BitVec 8) (n : ℕ) : List (BitVec 8) := (List.range n).map buffer

/-- Printed strings and their ends in a row. -/
def joined (printed : List (List (BitVec 8) × BitVec 8)) : List (BitVec 8) :=
  printed.flatMap fun line => line.1 ++ [line.2]

namespace LineBuffer

/-- The size of the buffer. -/
def SIZE : ℕ := 0x400

/-- The bytes that a read puts into the buffer from the position `i` on. -/
def store (buffer : ℕ → BitVec 8) (i : ℕ) : List (BitVec 8) → ℕ → BitVec 8
  | [] => buffer
  | b :: rest => store (Function.update buffer i b) (i + 1) rest

/-- The buffer after a read. -/
def fill (l : LineBuffer) (bytes : List (BitVec 8)) : LineBuffer :=
  { l with
    buffer := store l.buffer l.offset bytes
    offset := l.offset + bytes.length }

/-- The scan for the end of a line, which stops at `offset`. -/
def scan (buffer : ℕ → BitVec 8) (offset tail : ℕ) : ℕ :=
  if tail < offset then
    if isSeparator (buffer tail) then tail else scan buffer offset (tail + 1)
  else tail
termination_by offset - tail

/-- The loop that moves the bytes from `tail` on to the front, from its round `i` on. -/
def moveDown (buffer : ℕ → BitVec 8) (tail offset i : ℕ) : ℕ → BitVec 8 :=
  if tail + i < offset then
    moveDown (Function.update buffer i (buffer (tail + i))) tail offset (i + 1)
  else buffer
termination_by offset - (tail + i)

/-- The loop that prints the complete lines. The first scan resumes at `tail`, the later ones
start at the front. -/
def split (l : LineBuffer) (tail : ℕ) : LineBuffer :=
  let tail := scan l.buffer l.offset tail
  if tail < l.offset then
    split
      { buffer := moveDown l.buffer (tail + 1) l.offset 0
        offset := l.offset - (tail + 1)
        printed := l.printed ++ [(upTo l.buffer tail, l.buffer tail)] } 0
  else l
termination_by l.offset
decreasing_by exact Nat.sub_lt (by omega) (by omega)

/-- The bytes that wait for the end of their line. -/
def contents (l : LineBuffer) : List (BitVec 8) := upTo l.buffer l.offset

end LineBuffer

open LineBuffer (SIZE)

/-- `thread_kdb` and its pipe, with the bytes that the thread has read so far. -/
structure Kdb where
  pipe : Pipe
  lines : LineBuffer
  received : List (BitVec 8)

namespace Kdb

/-- The thread belongs to the kernel. -/
def thread : Caller := { process := 0 }

/-- The size of the buffer of the pipe. -/
def PIPE_SIZE : ℕ := 0x1000

theorem pipeSize_pos : 0 < PIPE_SIZE := by decide

theorem pipeSize_le : PIPE_SIZE ≤ maxBlock := by decide

/-- The pipe, which the kernel has created and reads from. -/
def newPipe (buffer : ℕ → BitVec 8) : Pipe :=
  Pipe.new 0 PIPE_SIZE Pipe.atomicWrite buffer pipeSize_pos pipeSize_le

/-- The room for the next read. -/
def room (s : Kdb) : ℕ := SIZE - s.lines.offset

/-- A round of the loop of `thread_kdb` after `wait` has returned. -/
def round (s : Kdb) : Kdb :=
  let (bytes, _, pipe) := s.pipe.read thread s.room
  let tail := s.lines.offset
  { pipe := pipe, lines := (s.lines.fill bytes).split tail, received := s.received ++ bytes }

/-- What happens to the pipe: a process writes, or tries to read and is refused, or the thread
takes a round. -/
inductive Action where
  | write (c : Caller) (sor : List (BitVec 8))
  | refused (c : Caller) (length : ℕ)
  | round

def step (s : Kdb) : Action → Option Kdb
  | .write c sor => some { s with pipe := (s.pipe.write c sor).2.2 }
  | .refused c length =>
      if s.pipe.isWriter c then some { s with pipe := (s.pipe.read c length).2.2 } else none
  | .round => some s.round

/-- The buffer of the thread and that of the pipe start with whatever was there. -/
def machine : Machine Kdb Action where
  Start s := (∃ buffer, s.pipe = newPipe buffer) ∧ s.lines.offset = 0 ∧ s.lines.printed = [] ∧
    s.received = []
  step := step

end Kdb

/-! ### Bytes of a buffer -/

theorem length_upTo (buffer : ℕ → BitVec 8) (n : ℕ) :
  (upTo buffer n).length = n
  := by
  rw [upTo, List.length_map, List.length_range]

theorem mem_upTo {buffer : ℕ → BitVec 8} {n : ℕ} {b : BitVec 8} :
  b ∈ upTo buffer n ↔ ∃ i < n, buffer i = b
  := by
  simp only [upTo, List.mem_map, List.mem_range]

theorem upTo_add (buffer : ℕ → BitVec 8) (n k : ℕ) :
  upTo buffer (n + k) = upTo buffer n ++ upTo (fun i => buffer (n + i)) k
  := by
  rw [upTo, List.range_add, List.map_append, List.map_map]
  rfl

theorem upTo_succ (buffer : ℕ → BitVec 8) (n : ℕ) :
  upTo buffer (n + 1) = upTo buffer n ++ [buffer n]
  := by
  rw [upTo, List.range_succ, List.map_append]
  rfl

theorem upTo_congr {buffer buffer' : ℕ → BitVec 8} {n : ℕ} (h : ∀ i < n, buffer i = buffer' i) :
  upTo buffer n = upTo buffer' n
  := by
  apply List.map_congr_left
  intro i hi
  apply h i (List.mem_range.mp hi)

@[simp]
theorem joined_nil : joined [] = [] := rfl

theorem joined_append (a b : List (List (BitVec 8) × BitVec 8)) :
  joined (a ++ b) = joined a ++ joined b
  := by
  apply List.flatMap_append

theorem joined_singleton (line : List (BitVec 8)) (b : BitVec 8) :
  joined [(line, b)] = line ++ [b]
  := by
  apply List.flatMap_singleton

/-- A byte that does not end a line. -/
def isText (b : BitVec 8) : Bool := !isSeparator b

/-- The bytes after the last end of a line. -/
def openLine (bytes : List (BitVec 8)) : List (BitVec 8) := bytes.rtakeWhile isText

theorem openLine_of_text {bytes : List (BitVec 8)} (h : ∀ b ∈ bytes, isText b = true) :
  openLine bytes = bytes
  := List.rtakeWhile_eq_self_iff.mpr h

/-- After the end of a line, only what follows counts. -/
theorem openLine_append_separator {b : BitVec 8} (hb : isSeparator b = true)
    (before bytes : List (BitVec 8)) :
  openLine (before ++ [b] ++ bytes) = openLine bytes
  := by
  induction bytes using List.reverseRecOn with
  | nil =>
      rw [List.append_nil, openLine, List.rtakeWhile_concat_neg]
      · rfl
      · rw [isText, hb]
        decide
  | append_singleton bytes x ih =>
      rw [← List.append_assoc, openLine, openLine, List.rtakeWhile_concat, List.rtakeWhile_concat]
      rw [openLine, openLine] at ih
      rw [ih]

namespace LineBuffer

/-! ### The loops -/

/-- What a read puts into the buffer follows what is there. -/
theorem upTo_store (buffer : ℕ → BitVec 8) (i : ℕ) (bytes : List (BitVec 8)) :
  upTo (store buffer i bytes) (i + bytes.length) = upTo buffer i ++ bytes
  := by
  induction bytes generalizing buffer i with
  | nil => rw [store, List.length_nil, Nat.add_zero, List.append_nil]
  | cons b rest ih =>
      have hfront : upTo (Function.update buffer i b) i = upTo buffer i := by
        apply upTo_congr
        intro j hj
        apply Function.update_of_ne hj.ne
      rw [store, List.length_cons, show i + (rest.length + 1) = i + 1 + rest.length by omega, ih,
        upTo_succ, hfront, Function.update_self, List.append_assoc, List.singleton_append]

/-- A read leaves what is in front of it. -/
theorem store_of_lt (buffer : ℕ → BitVec 8) {i j : ℕ} (bytes : List (BitVec 8)) (h : j < i) :
  store buffer i bytes j = buffer j
  := by
  induction bytes generalizing buffer i with
  | nil => rfl
  | cons b rest ih => rw [store, ih _ (by lia), Function.update_of_ne (by lia)]

/-- Where the scan stops. -/
structure Stops (buffer : ℕ → BitVec 8) (offset tail stop : ℕ) : Prop where
  le : tail ≤ stop
  le_offset : stop ≤ offset
  text : ∀ i, tail ≤ i → i < stop → isText (buffer i) = true
  separator : stop < offset → isSeparator (buffer stop) = true

theorem scan_stops (buffer : ℕ → BitVec 8) (offset tail : ℕ) (h : tail ≤ offset) :
  Stops buffer offset tail (scan buffer offset tail)
  := by
  fun_induction scan buffer offset tail with
  | case1 tail hlt hsep =>
      constructor
      · apply le_rfl
      · apply h
      · omega
      · intro _
        apply hsep
  | case2 tail hlt hsep ih =>
      obtain ⟨hle, hoffset, htext, hend⟩ := ih (by omega)
      constructor
      · omega
      · apply hoffset
      · intro i hi hstop
        rcases Nat.eq_or_lt_of_le hi with rfl | hi
        · rw [isText, Bool.eq_false_iff.mpr hsep]
          rfl
        · apply htext i hi hstop
      · apply hend
  | case3 tail hge =>
      constructor
      · apply le_rfl
      · apply h
      · omega
      · omega

/-- A byte is read before the loop that moves the bytes gets there. -/
theorem moveDown_apply (buffer : ℕ → BitVec 8) {tail : ℕ} (htail : 0 < tail) (offset i j : ℕ) :
  moveDown buffer tail offset i j
    = if i ≤ j ∧ tail + j < offset then buffer (tail + j) else buffer j
  := by
  fun_induction moveDown buffer tail offset i with
  | case1 buffer i hlt ih =>
      rw [ih]
      rcases Nat.lt_trichotomy i j with hij | rfl | hij
      · simp only [Function.update_of_ne (show tail + j ≠ i by omega),
          Function.update_of_ne (show j ≠ i by omega), Nat.succ_le_of_lt hij, hij.le]
      · rw [if_neg (by omega), if_pos ⟨le_rfl, hlt⟩, Function.update_self]
      · rw [if_neg (by lia), if_neg (by lia), Function.update_of_ne (by lia)]
  | case2 buffer i hge => rw [if_neg (by omega)]

/-- The bytes of a buffer are those before the end of a line, the end of the line, and those that
are moved to the front. -/
theorem upTo_moveDown (buffer : ℕ → BitVec 8) {tail offset : ℕ} (h : tail < offset) :
  upTo buffer tail ++ [buffer tail] ++
      upTo (moveDown buffer (tail + 1) offset 0) (offset - (tail + 1))
    = upTo buffer offset
  := by
  have hmoved : upTo (moveDown buffer (tail + 1) offset 0) (offset - (tail + 1))
      = upTo (fun i => buffer (tail + 1 + i)) (offset - (tail + 1)) := by
    apply upTo_congr
    intro i hi
    rw [moveDown_apply buffer (Nat.succ_pos tail), if_pos ⟨Nat.zero_le i, by lia⟩]
  rw [hmoved, ← upTo_succ, ← upTo_add, Nat.add_sub_cancel' h]

/-- A line that has been printed, with its end. -/
def IsLine (line : List (BitVec 8) × BitVec 8) : Prop :=
  (∀ b ∈ line.1, isText b = true) ∧ isSeparator line.2 = true

/-- What the loop that prints the lines does: the new lines and the bytes that are left are the
bytes that were there, and no line is left. -/
structure Splits (l l' : LineBuffer) (new : List (List (BitVec 8) × BitVec 8)) : Prop where
  printed : l'.printed = l.printed ++ new
  bytes : joined new ++ l'.contents = l.contents
  lines : ∀ line ∈ new, IsLine line
  text : ∀ b ∈ l'.contents, isText b = true

/-- The bytes that an earlier round has scanned need not be scanned again. -/
theorem split_splits (l : LineBuffer) (tail : ℕ) (htail : tail ≤ l.offset)
    (htext : ∀ i < tail, isText (l.buffer i) = true) :
  ∃ new, Splits l (l.split tail) new
  := by
  fun_induction split l tail with
  | case1 l tail stop hlt ih =>
      obtain ⟨hle, -, hscan, hsep⟩ := scan_stops l.buffer l.offset tail htail
      obtain ⟨new, hprinted, hbytes, hlines, hrest⟩ := ih (Nat.zero_le _) (by omega)
      use (upTo l.buffer stop, l.buffer stop) :: new
      constructor
      · rw [hprinted, List.append_assoc, List.singleton_append]
      · rw [← List.singleton_append, joined_append, joined_singleton, List.append_assoc, hbytes]
        apply upTo_moveDown l.buffer hlt
      · intro line hline
        rcases List.mem_cons.mp hline with rfl | hline
        · constructor
          · intro b hb
            obtain ⟨i, hi, rfl⟩ := mem_upTo.mp hb
            by_cases hit : i < tail
            · apply htext i hit
            · apply hscan i (by omega) hi
          · apply hsep hlt
        · apply hlines line hline
      · apply hrest
  | case2 l tail stop hge =>
      obtain ⟨hle, hoffset, hscan, -⟩ := scan_stops l.buffer l.offset tail htail
      use []
      constructor
      · rw [List.append_nil]
      · rfl
      · nofun
      · intro b hb
        obtain ⟨i, hi, rfl⟩ := mem_upTo.mp hb
        by_cases hit : i < tail
        · apply htext i hit
        · apply hscan i (by lia) (by lia)

end LineBuffer

namespace Kdb

/-! ### Runs -/

open LineBuffer (IsLine)

/-- The kernel is on the reading side of the pipe, and everybody else on the writing side. -/
theorem newPipe_isWriter (buffer : ℕ → BitVec 8) (c : Caller) :
  (newPipe buffer).isWriter c = (c.thisProcess != 0)
  := by
  have hmode : Pipe.atomicWrite &&& Pipe.ownerWrite = 0#8 := by decide
  simp [Pipe.isWriter, Pipe.isOwner, Pipe.isOwnerWrite, newPipe, Pipe.new, hmode, bne]

/-- What holds before every read. -/
structure Inv (s : Kdb) : Prop where
  same : ∃ buffer, Pipe.Same (newPipe buffer) s.pipe
  offset_le : s.lines.offset ≤ SIZE
  bytes : joined s.lines.printed ++ s.lines.contents = s.received
  lines : ∀ line ∈ s.lines.printed, IsLine line
  text : ∀ b ∈ s.lines.contents, isText b = true

variable {s t : Kdb}

/-- The thread is on the reading side. -/
theorem Inv.isWriter_thread (h : s.Inv) :
  s.pipe.isWriter thread = false
  := by
  obtain ⟨buffer, hsame⟩ := h.same
  rw [hsame.isWriter]
  apply newPipe_isWriter

/-- The bytes of a read. -/
theorem Inv.read_reads (h : s.Inv) :
  Pipe.Reads { s.pipe with iostate := 0 } s.room (s.pipe.read thread s.room).1
    (s.pipe.read thread s.room).2.2
  := s.pipe.read_reads h.isWriter_thread s.room

/-- A read takes as many bytes as there are and as the buffer has room for. -/
theorem Inv.length_read (h : s.Inv) :
  (s.pipe.read thread s.room).1.length = min s.room s.pipe.contents.length
  := by
  rw [h.read_reads.bytes, List.length_take]

/-- What a round does. -/
theorem round_eq (s : Kdb) :
  s.round = ⟨(s.pipe.read thread s.room).2.2,
    (s.lines.fill (s.pipe.read thread s.room).1).split s.lines.offset,
    s.received ++ (s.pipe.read thread s.room).1⟩
  := rfl

/-- The bytes that have been read after a round. -/
theorem received_round (h : s.Inv) :
  s.round.received = s.received ++ s.pipe.contents.take s.room
  := by
  rw [round_eq, h.read_reads.bytes]

/-- A read leaves the bytes that wait where they are. -/
theorem Inv.text_fill (h : s.Inv) (bytes : List (BitVec 8)) :
  ∀ i < s.lines.offset, isText ((s.lines.fill bytes).buffer i) = true
  := by
  intro i hi
  have hkept : (s.lines.fill bytes).buffer i = s.lines.buffer i :=
    LineBuffer.store_of_lt s.lines.buffer bytes hi
  rw [hkept]
  apply h.text _ (mem_upTo.mpr ⟨i, hi, rfl⟩)

/-- A round loses nothing. -/
theorem Inv.round (h : s.Inv) :
  s.round.Inv
  := by
  obtain ⟨buffer, hsame⟩ := h.same
  have hlength : (s.pipe.read thread s.room).1.length ≤ SIZE - s.lines.offset := by
    rw [h.length_read]
    apply min_le_left
  have hpipe := hsame.trans (s.pipe.read_same thread s.room)
  rw [round_eq]
  generalize (s.pipe.read thread s.room).1 = bytes at hlength ⊢
  have hfill : (s.lines.fill bytes).contents = s.lines.contents ++ bytes :=
    LineBuffer.upTo_store s.lines.buffer s.lines.offset bytes
  obtain ⟨new, hsplit⟩ :=
    (s.lines.fill bytes).split_splits s.lines.offset (Nat.le_add_right _ _) (h.text_fill bytes)
  constructor
  · use buffer
  · have htotal := congrArg List.length hsplit.bytes
    have hoffset := h.offset_le
    rw [hfill] at htotal
    simp only [List.length_append, LineBuffer.contents, length_upTo] at htotal
    change ((s.lines.fill bytes).split s.lines.offset).offset ≤ SIZE
    lia
  · rw [hsplit.printed, joined_append, List.append_assoc, hsplit.bytes, hfill, ← h.bytes,
      List.append_assoc]
    rfl
  · intro line hline
    rw [hsplit.printed] at hline
    rcases List.mem_append.mp hline with hline | hline
    · apply h.lines line hline
    · apply hsplit.lines line hline
  · apply hsplit.text

/-- Whatever processes write and however the pipe is drained, nothing is lost. -/
theorem reachable_inv (h : machine.Reachable Machine.anyStep s) :
  s.Inv
  := by
  apply h.invariant
  · rintro s ⟨⟨buffer, hpipe⟩, hoffset, hprinted, hreceived⟩
    have hcontents : s.lines.contents = [] := by
      rw [LineBuffer.contents, hoffset]
      rfl
    constructor
    · exact ⟨buffer, by rw [hpipe]; exact ⟨rfl, rfl, rfl⟩⟩
    · rw [hoffset]
      apply Nat.zero_le
    · rw [hprinted, hcontents, hreceived]
      rfl
    · rw [hprinted]
      nofun
    · rw [hcontents]
      nofun
  · intro s a t hs _ hstep
    obtain ⟨buffer, hsame⟩ := hs.same
    cases a with
    | write c sor =>
        obtain rfl := Option.some.inj hstep
        exact ⟨⟨buffer, hsame.trans (s.pipe.write_same c sor)⟩, hs.offset_le, hs.bytes, hs.lines,
          hs.text⟩
    | refused c n =>
        change (if s.pipe.isWriter c then _ else none) = some t at hstep
        split_ifs at hstep
        obtain rfl := Option.some.inj hstep
        exact ⟨⟨buffer, hsame.trans (s.pipe.read_same c n)⟩, hs.offset_le, hs.bytes, hs.lines,
          hs.text⟩
    | round =>
        obtain rfl := Option.some.inj hstep
        apply hs.round

/-- The bytes that are left are those after the last end of a line. -/
theorem Inv.contents_eq (h : s.Inv) :
  s.lines.contents = openLine s.received
  := by
  rw [← h.bytes]
  have hlines := h.lines
  generalize s.lines.printed = printed at hlines
  induction printed using List.reverseRecOn with
  | nil => rw [joined_nil, List.nil_append, openLine_of_text h.text]
  | append_singleton rest line ih =>
      obtain ⟨string, b⟩ := line
      have hb : isSeparator b = true :=
        (hlines _ (List.mem_append_right rest (List.mem_singleton_self _))).2
      rw [joined_append, joined_singleton, ← List.append_assoc, openLine_append_separator hb,
        openLine_of_text h.text]

theorem Inv.offset_eq (h : s.Inv) :
  s.lines.offset = (openLine s.received).length
  := by
  rw [← h.contents_eq, LineBuffer.contents, length_upTo]

/-- A round drains a pipe with bytes in it when there is room for one. -/
theorem Inv.drained_iff (h : s.Inv) (hne : s.pipe.contents ≠ []) :
  s.round.pipe.contents.length < s.pipe.contents.length ↔ s.lines.offset < SIZE
  := by
  have hpos := List.length_pos_of_ne_nil hne
  have hcontents : s.round.pipe.contents = s.pipe.contents.drop s.room := h.read_reads.contents
  rw [hcontents, List.length_drop, room]
  lia

/-- The bytes that have been read are the printed strings, each followed by its end, and those that
are left in the buffer; there is room for another byte, and a pipe with bytes in it is drained. -/
structure Drains (s : Kdb) : Prop where
  bytes : joined s.lines.printed ++ s.lines.contents = s.received
  ends : ∀ line ∈ s.lines.printed, line.2 = 0 ∨ line.2 = 0x0A
  room : s.lines.offset < SIZE
  drained : s.pipe.contents ≠ [] → s.round.pipe.contents.length < s.pipe.contents.length

theorem Inv.drains_iff_length (h : s.Inv) :
  s.Drains ↔ (openLine s.received).length < SIZE
  := by
  rw [← h.offset_eq]
  constructor
  · intro hd
    apply hd.room
  · intro hroom
    constructor
    · apply h.bytes
    · intro line hline
      simpa only [isSeparator, Bool.or_eq_true, beq_iff_eq] using (h.lines line hline).2
    · apply hroom
    · intro hne
      apply (h.drained_iff hne).mpr hroom

/-- In a run the output keeps flowing exactly as long as fewer bytes than the buffer holds have been
read since the last end of a line. -/
theorem drains_iff (h : machine.Reachable Machine.anyStep s) :
  s.Drains ↔ (openLine s.received).length < SIZE
  := by
  apply (reachable_inv h).drains_iff_length

/-- A round without room changes nothing but the status of the pipe: the thread is stuck. -/
theorem Inv.round_of_full (h : s.Inv) (hfull : s.lines.offset = SIZE) :
  s.round.received = s.received ∧ s.round.lines.offset = SIZE ∧
    s.round.pipe.contents = s.pipe.contents
  := by
  have hroom : s.room = 0 := by
    rw [room, hfull, Nat.sub_self]
  have hbytes : (s.pipe.read thread s.room).1 = [] := by
    rw [h.read_reads.bytes, hroom]
    rfl
  have hreceived : s.round.received = s.received := by
    change s.received ++ (s.pipe.read thread s.room).1 = s.received
    rw [hbytes, List.append_nil]
  refine ⟨hreceived, ?_, ?_⟩
  · rw [h.round.offset_eq, hreceived, ← h.offset_eq, hfull]
  · have hcontents : s.round.pipe.contents = s.pipe.contents.drop s.room := h.read_reads.contents
    rw [hcontents, hroom]
    rfl

/-! ### A line that fills the buffer -/

/-- A thread of a process other than the kernel. -/
def program : Caller := { process := 1 }

/-- A thread that has just started. -/
def fresh : Kdb :=
  { pipe := newPipe fun _ => 0
    lines := { buffer := fun _ => 0, offset := 0, printed := [] }
    received := [] }

theorem fresh_reachable :
  machine.Reachable Machine.anyStep fresh
  := .start ⟨⟨_, rfl⟩, rfl, rfl, rfl⟩

/-- A program has written to the pipe. -/
def written (sor : List (BitVec 8)) : Kdb :=
  { fresh with pipe := (fresh.pipe.write program sor).2.2 }

theorem written_reachable (sor : List (BitVec 8)) :
  machine.Reachable Machine.anyStep (written sor)
  := fresh_reachable.step (.write program sor) trivial rfl

/-- The pipe has room for as many bytes as the buffer. -/
theorem written_contents {sor : List (BitVec 8)} (hle : sor.length ≤ SIZE) :
  (written sor).pipe.contents = sor
  := by
  have hnil : fresh.pipe.contents = [] := fresh.pipe.contents_eq_nil (by decide)
  have hwriter : fresh.pipe.isWriter program = true := newPipe_isWriter _ program
  have hroom : SIZE ≤ fresh.pipe.room := by
    decide
  have hrefused : ¬ fresh.pipe.Refused sor := by
    rw [Pipe.Refused, fresh.pipe.available_eq_room]
    rintro ⟨-, hlt⟩
    lia
  have hwrites := fresh.pipe.write_writes hwriter hrefused
  have hcount : (fresh.pipe.write program sor).1 = sor.length := by
    rw [hwrites.count_eq, Nat.min_eq_left (hle.trans hroom)]
  rw [written, hwrites.contents, hcount, List.take_of_length_le le_rfl]
  change fresh.pipe.contents ++ _ = _
  rw [hnil, List.nil_append]

/-- The thread reads what has been written. -/
theorem received_written {sor : List (BitVec 8)} (hle : sor.length ≤ SIZE) :
  (written sor).round.received = sor
  := by
  have hnil : (written sor).received = [] := rfl
  have hsize : (written sor).room = SIZE := rfl
  rw [received_round (reachable_inv (written_reachable sor)), written_contents hle, hnil, hsize,
    List.take_of_length_le hle, List.nil_append]

/-- A line and the beginning of another one have been written and read. -/
theorem written_round_drains :
  (written [0x68, 0x69, 0x0A, 0x21]).round.Drains
  := by
  have hround := (written_reachable [0x68, 0x69, 0x0A, 0x21]).step .round trivial rfl
  apply (drains_iff hround).mpr
  rw [received_written (by decide)]
  decide

/-- A line as long as the buffer leaves no room for its end. -/
theorem written_round_not_drains :
  ¬ ∀ s, machine.Reachable Machine.anyStep s → s.Drains
  := by
  intro h
  have hle := (List.length_replicate : (List.replicate SIZE (0x61 : BitVec 8)).length = SIZE).le
  have hround := (written_reachable (List.replicate SIZE 0x61)).step .round trivial rfl
  have hroom := (h _ hround).room
  rw [(reachable_inv hround).offset_eq, received_written hle, openLine_of_text, List.length_replicate] at hroom
  · apply lt_irrefl _ hroom
  · intro b hb
    rw [List.eq_of_mem_replicate hb]
    rfl

end Kdb

end UOS
