import Cofuos.Lib.RingBuffer
import Cofuos.Memory.OperatorNew

/-!
# Pipes

A pipe carries bytes from the threads of its writing side to those of its reading side, through a
ring buffer. The process that has created the pipe is on one side, as its mode says, and all other
processes are on the other side. In atomic mode a write is refused unless all of its bytes fit.
The definitions follow `kernel/sync/pipe.cpp`. Every operation runs with the lock of the pipe held.

The positions and the limit are 32-bit numbers. The free space that an atomic write asks for is
computed from their sum, which fits into 32 bits because no buffer is larger than a gigabyte.
-/

namespace UOS

/-- The thread that calls, as far as a pipe looks at it. -/
structure Caller where
  /-- The process of the thread. -/
  process : ℕ
  /-- The thread has been interrupted, and the call comes from the interrupt. -/
  hasContext : Bool := false
  deriving DecidableEq, Repr

/-- The process on behalf of which the call is made. Interrupts are the business of process 0. -/
def Caller.thisProcess (c : Caller) : ℕ := if c.hasContext then 0 else c.process

/-- The bit of `IOSTATE` that a call from the wrong side sets. -/
def OP_FAILURE : BitVec 8 := 4

/-- `pipe`. The bytes are in a ring buffer with the same fields, which is a block of memory. -/
structure Pipe extends RingBuffer (BitVec 8) where
  owner : ℕ
  mode : BitVec 8
  iostate : BitVec 8
  limit_le : limit ≤ maxBlock

namespace Pipe

/-- The owner is on the writing side. -/
def ownerWrite : BitVec 8 := 1

/-- A write that does not fit is refused. -/
def atomicWrite : BitVec 8 := 0x10

/-- A pipe with a new buffer. Its bytes are whatever was there. -/
def new (owner : ℕ) (size : ℕ) (mode : BitVec 8) (buffer : ℕ → BitVec 8) (hpos : 0 < size)
    (hle : size ≤ maxBlock) : Pipe where
  limit := size
  buffer := buffer
  head := 0
  tail := 0
  head_lt := hpos
  tail_lt := hpos
  owner := owner
  mode := mode
  iostate := 0
  limit_le := hle

/-- The constructor. -/
def construct (m : KernelMemory) (debug : Bool) (owner : ℕ) (size : UInt32) (mode : BitVec 8)
    (bytes : ℕ → BitVec 8) : Except Fault Pipe := do
  let buffer ← m.operatorNew size.toNat
  Fault.assert debug (size.toNat ≠ 0)
  return new owner size.toNat mode bytes buffer.pos
    (buffer.le (size.toNat_lt.trans (by decide)))

variable (p : Pipe)

def isOwner (c : Caller) : Bool := c.thisProcess == p.owner

/-- The owner writes. -/
def isOwnerWrite : Bool := p.mode &&& ownerWrite != 0

/-- The caller is on the writing side. -/
def isWriter (c : Caller) : Bool := p.isOwner c == p.isOwnerWrite

def isFull : Bool := (BitVec.ofNat 32 p.tail + 1#32).toNat % p.limit == p.head

def isEmpty : Bool := p.head == p.tail

def check (c : Caller) : Bool := if p.isWriter c then !p.isFull else !p.isEmpty

/-- Takes a byte from the buffer. -/
def take : Pipe := { p with toRingBuffer := p.pop }

/-- Puts a byte into the buffer. -/
def put (b : BitVec 8) : Pipe := { p with toRingBuffer := p.push b }

/-- The loop of `read`: the bytes that it moves, and the pipe afterwards. -/
def readLoop (p : Pipe) : ℕ → List (BitVec 8) × Pipe
  | 0 => ([], p)
  | n + 1 =>
      if p.isEmpty then ([], p)
      else
        let (bytes, p') := p.take.readLoop n
        (p.front :: bytes, p')

/-- The loop of `write`: the number of bytes that it moves, and the pipe afterwards. -/
def writeLoop (p : Pipe) : List (BitVec 8) → ℕ × Pipe
  | [] => (0, p)
  | b :: rest =>
      if p.isFull then (0, p)
      else
        let (count, p') := (p.put b).writeLoop rest
        (count + 1, p')

/-- The bytes that `read` returns, whether it notifies, and the pipe afterwards. -/
def read (c : Caller) (length : ℕ) : List (BitVec 8) × Bool × Pipe :=
  if p.isWriter c then ([], false, { p with iostate := OP_FAILURE })
  else
    let (bytes, p') := ({ p with iostate := 0 } : Pipe).readLoop length
    (bytes, bytes.length != 0 && p.isFull, p')

/-- The free space as an atomic write computes it. -/
def available : ℕ :=
  (BitVec.ofNat 32 p.head + BitVec.ofNat 32 p.limit - BitVec.ofNat 32 p.tail - 1#32).toNat
    % p.limit

/-- A write is accepted only as a whole. -/
def isAtomic : Bool := p.mode &&& atomicWrite != 0

/-- The number of bytes that `write` accepts, whether it notifies, and the pipe afterwards. -/
def write (c : Caller) (sor : List (BitVec 8)) : ℕ × Bool × Pipe :=
  if !p.isWriter c then (0, false, { p with iostate := OP_FAILURE })
  else if p.isAtomic && decide (p.available < sor.length) then
    (0, false, { p with iostate := 0 })
  else
    let (count, p') := ({ p with iostate := 0 } : Pipe).writeLoop sor
    (count, count != 0 && p.isEmpty, p')

/-! ### The tests against the contents -/

theorem limit_lt :
  p.limit < 2 ^ 31
  := by
  have hlimit := p.limit_le
  rw [maxBlock_eq] at hlimit
  lia

theorem isEmpty_iff :
  p.isEmpty = true ↔ p.size = 0
  := by
  rw [isEmpty, beq_iff_eq, p.size_eq_zero_iff]

theorem isFull_iff :
  p.isFull = true ↔ p.room = 0
  := by
  have htail := p.tail_lt
  have hlimit := p.limit_lt
  have hsum : (BitVec.ofNat 32 p.tail + 1#32).toNat = p.tail + 1 := by
    simp only [BitVec.toNat_add, BitVec.toNat_ofNat]
    lia
  rw [isFull, beq_iff_eq, hsum, p.room_eq_zero_iff]

/-- The free space is computed right: the sum fits into 32 bits. -/
theorem available_eq_room :
  p.available = p.room
  := by
  have hhead := p.head_lt
  have htail := p.tail_lt
  have hlimit := p.limit_lt
  rw [available, p.room_eq]
  congr 1
  simp only [BitVec.toNat_sub, BitVec.toNat_add, BitVec.toNat_ofNat]
  omega

/-! ### What the loops move -/

/-- Two pipes with the same constant fields. -/
structure Same (p p' : Pipe) : Prop where
  owner : p'.owner = p.owner
  mode : p'.mode = p.mode
  limit : p'.limit = p.limit

theorem Same.trans {p p' p'' : Pipe} (h : Same p p') (h' : Same p' p'') :
  Same p p''
  := ⟨h'.owner.trans h.owner, h'.mode.trans h.mode, h'.limit.trans h.limit⟩

theorem Same.isWriter {p p' : Pipe} (h : Same p p') (c : Caller) :
  p'.isWriter c = p.isWriter c
  := by
  rw [Pipe.isWriter, Pipe.isWriter, isOwner, isOwner, isOwnerWrite, isOwnerWrite, h.owner, h.mode]

theorem Same.isAtomic {p p' : Pipe} (h : Same p p') :
  p'.isAtomic = p.isAtomic
  := by
  rw [Pipe.isAtomic, Pipe.isAtomic, h.mode]

/-- What the loop of `read` does. -/
structure Reads (p : Pipe) (n : ℕ) (bytes : List (BitVec 8)) (p' : Pipe) : Prop where
  bytes : bytes = p.contents.take n
  contents : p'.contents = p.contents.drop n
  tail : p'.tail = p.tail
  iostate : p'.iostate = p.iostate
  same : Same p p'

theorem readLoop_reads (n : ℕ) :
  Reads p n (p.readLoop n).1 (p.readLoop n).2
  := by
  induction n generalizing p with
  | zero => exact ⟨rfl, rfl, rfl, rfl, rfl, rfl, rfl⟩
  | succ n ih =>
      rw [readLoop]
      by_cases h : p.isEmpty = true
      · have hnil := p.contents_eq_nil (p.isEmpty_iff.mp h)
        rw [if_pos h]
        exact ⟨by rw [hnil]; rfl, by rw [hnil]; rfl, rfl, rfl, rfl, rfl, rfl⟩
      · have hne := mt p.isEmpty_iff.mpr h
        have hcons : p.contents = p.front :: p.take.contents := p.contents_pop hne
        have hrest := ih p.take
        rw [if_neg h]
        constructor
        · rw [hcons, List.take_succ_cons, ← hrest.bytes]
        · rw [hcons, List.drop_succ_cons]
          apply hrest.contents
        · apply hrest.tail
        · apply hrest.iostate
        · exact ⟨hrest.same.owner, hrest.same.mode, hrest.same.limit⟩

/-- What the loop of `write` does. -/
structure Writes (p : Pipe) (sor : List (BitVec 8)) (count : ℕ) (p' : Pipe) : Prop where
  count_eq : count = min sor.length p.room
  contents : p'.contents = p.contents ++ sor.take count
  head : p'.head = p.head
  iostate : p'.iostate = p.iostate
  same : Same p p'

theorem writeLoop_writes (sor : List (BitVec 8)) :
  Writes p sor (p.writeLoop sor).1 (p.writeLoop sor).2
  := by
  induction sor generalizing p with
  | nil =>
      refine ⟨?_, ?_, rfl, rfl, rfl, rfl, rfl⟩
      · simp [writeLoop]
      · simp [writeLoop]
  | cons b rest ih =>
      rw [writeLoop]
      by_cases h : p.isFull = true
      · rw [if_pos h]
        refine ⟨?_, ?_, rfl, rfl, rfl, rfl, rfl⟩
        · simp [p.isFull_iff.mp h]
        · simp
      · have hne := mt p.isFull_iff.mpr h
        have hroom : (p.put b).room + 1 = p.room := p.room_push hne b
        have hpush : (p.put b).contents = p.contents ++ [b] := p.contents_push hne b
        have hrest := ih (p.put b)
        rw [if_neg h]
        constructor
        · change ((p.put b).writeLoop rest).1 + 1 = _
          rw [hrest.count_eq, List.length_cons]
          lia
        · rw [List.take_succ_cons, hrest.contents, hpush, List.append_assoc,
            List.singleton_append]
        · apply hrest.head
        · apply hrest.iostate
        · exact ⟨hrest.same.owner, hrest.same.mode, hrest.same.limit⟩

/-! ### Whole calls -/

theorem read_wrong {c : Caller} (h : p.isWriter c = true) (n : ℕ) :
  p.read c n = ([], false, { p with iostate := OP_FAILURE })
  := by
  rw [read, if_pos h]

theorem write_wrong {c : Caller} (h : p.isWriter c = false) (sor : List (BitVec 8)) :
  p.write c sor = (0, false, { p with iostate := OP_FAILURE })
  := by
  rw [write, h]
  rfl

/-- The loop of `read` runs on the reading side only. -/
theorem read_reads {c : Caller} (h : p.isWriter c = false) (n : ℕ) :
  Reads { p with iostate := 0 } n (p.read c n).1 (p.read c n).2.2
  := by
  have hloop := readLoop_reads { p with iostate := 0 } n
  rw [read, h]
  apply hloop

/-- A write is refused when it is atomic and the free space seems too small. -/
def Refused (sor : List (BitVec 8)) : Prop := p.isAtomic = true ∧ p.available < sor.length

theorem write_refused {c : Caller} (h : p.isWriter c = true) {sor : List (BitVec 8)}
    (hr : p.Refused sor) :
  p.write c sor = (0, false, { p with iostate := 0 })
  := by
  simp [write, h, hr.1, hr.2]

/-- The loop of `write` runs on the writing side only, unless the write is refused. -/
theorem write_loop {c : Caller} (h : p.isWriter c = true) {sor : List (BitVec 8)}
    (hr : ¬ p.Refused sor) :
  p.write c sor =
    let (count, p') := ({ p with iostate := 0 } : Pipe).writeLoop sor
    (count, count != 0 && p.isEmpty, p')
  := by
  have hcond : (p.isAtomic && decide (p.available < sor.length)) = false := by
    rw [Bool.and_eq_false_iff, decide_eq_false_iff_not]
    rcases Bool.eq_false_or_eq_true p.isAtomic with ha | ha
    · exact .inr fun hlt => hr ⟨ha, hlt⟩
    · exact .inl ha
  rw [write, h, hcond]
  rfl

theorem write_writes {c : Caller} (h : p.isWriter c = true) {sor : List (BitVec 8)}
    (hr : ¬ p.Refused sor) :
  Writes { p with iostate := 0 } sor (p.write c sor).1 (p.write c sor).2.2
  := by
  rw [p.write_loop h hr]
  apply writeLoop_writes

/-- The bytes that are read come from the front of the buffer. -/
theorem read_contents (c : Caller) (n : ℕ) :
  (p.read c n).1 ++ (p.read c n).2.2.contents = p.contents
  := by
  by_cases hw : p.isWriter c = true
  · rw [p.read_wrong hw]
    rfl
  · have hr := p.read_reads (Bool.eq_false_iff.mpr hw) n
    rw [hr.bytes, hr.contents, List.take_append_drop]

theorem read_same (c : Caller) (n : ℕ) :
  Same p (p.read c n).2.2
  := by
  by_cases hw : p.isWriter c = true
  · rw [p.read_wrong hw]
    exact ⟨rfl, rfl, rfl⟩
  · have hr := p.read_reads (Bool.eq_false_iff.mpr hw) n
    exact ⟨hr.same.owner, hr.same.mode, hr.same.limit⟩

/-- The bytes that are written go to the end of the buffer. -/
theorem write_contents (c : Caller) (sor : List (BitVec 8)) :
  (p.write c sor).2.2.contents = p.contents ++ sor.take (p.write c sor).1
  := by
  by_cases hw : p.isWriter c = true
  · by_cases hr : p.Refused sor
    · rw [p.write_refused hw hr, List.take_zero, List.append_nil]
    · rw [(p.write_writes hw hr).contents]
  · rw [p.write_wrong (Bool.eq_false_iff.mpr hw), List.take_zero, List.append_nil]

theorem write_same (c : Caller) (sor : List (BitVec 8)) :
  Same p (p.write c sor).2.2
  := by
  by_cases hw : p.isWriter c = true
  · by_cases hr : p.Refused sor
    · rw [p.write_refused hw hr]
      exact ⟨rfl, rfl, rfl⟩
    · have hwr := p.write_writes hw hr
      exact ⟨hwr.same.owner, hwr.same.mode, hwr.same.limit⟩
  · rw [p.write_wrong (Bool.eq_false_iff.mpr hw)]
    exact ⟨rfl, rfl, rfl⟩

/-- A read that does not notify has moved nothing or has not found the pipe full. -/
theorem read_quiet {c : Caller} {n : ℕ} (h : (p.read c n).2.1 = false) :
  (p.read c n).1.length = 0 ∨ p.isFull = false
  := by
  by_cases hw : p.isWriter c = true
  · rw [p.read_wrong hw]
    exact .inl rfl
  · rw [read, if_neg hw] at h ⊢
    rw [Bool.and_eq_false_iff, bne_eq_false_iff_eq] at h
    apply h

/-- A write that does not notify has moved nothing or has not found the pipe empty. -/
theorem write_quiet {c : Caller} {sor : List (BitVec 8)} (h : (p.write c sor).2.1 = false) :
  (p.write c sor).1 = 0 ∨ p.isEmpty = false
  := by
  by_cases hw : p.isWriter c = true
  · by_cases hr : p.Refused sor
    · rw [p.write_refused hw hr]
      exact .inl rfl
    · rw [p.write_loop hw hr] at h ⊢
      rw [Bool.and_eq_false_iff, bne_eq_false_iff_eq] at h
      apply h
  · rw [p.write_wrong (Bool.eq_false_iff.mpr hw)]
    exact .inl rfl

/-- A call of `read` or `write`. -/
inductive Call where
  | read (who : Caller) (length : ℕ)
  | write (who : Caller) (sor : List (BitVec 8))

/-- A pipe, with all the bytes that writes have accepted and all those that reads have
returned. -/
structure Session where
  pipe : Pipe
  accepted : List (BitVec 8)
  returned : List (BitVec 8)

/-- A call, and its bytes. -/
def Session.exec (s : Session) : Call → Session
  | .read who length =>
      let (bytes, _, p') := s.pipe.read who length
      { pipe := p', accepted := s.accepted, returned := s.returned ++ bytes }
  | .write who sor =>
      let (count, _, p') := s.pipe.write who sor
      { pipe := p', accepted := s.accepted ++ sor.take count, returned := s.returned }

/-- A sequence of calls on a new pipe. -/
def run (p : Pipe) (calls : List Call) : Session := calls.foldl Session.exec ⟨p, [], []⟩

/-- What a call has to do: on the right side it moves as many bytes as possible, or for an atomic
write all bytes if they fit and none otherwise. On the wrong side it moves none and fails. -/
def Meets (p : Pipe) : Call → Prop
  | .read who length =>
      if p.isWriter who then
        (p.read who length).1 = [] ∧ (p.read who length).2.2.iostate = OP_FAILURE ∧
          (p.read who length).2.2.contents = p.contents
      else (p.read who length).1.length = min length p.size
  | .write who sor =>
      if p.isWriter who then
        (p.write who sor).1 =
          if p.isAtomic then if sor.length ≤ p.room then sor.length else 0
          else min sor.length p.room
      else
        (p.write who sor).1 = 0 ∧ (p.write who sor).2.2.iostate = OP_FAILURE ∧
          (p.write who sor).2.2.contents = p.contents

/-- A bounded queue: what has been returned is the beginning of what has been accepted, at most
`limit - 1` bytes lie between the two, and every call that may follow does what it has to. -/
structure Session.IsFifo (s : Session) : Prop where
  order : s.returned <+: s.accepted
  bound : s.accepted.length ≤ s.returned.length + (s.pipe.limit - 1)
  meets : ∀ c, s.pipe.Meets c

/-- The bytes that have been accepted are those that have been returned and then those that are
in the buffer. -/
structure Session.Inv (p : Pipe) (s : Session) : Prop where
  bytes : s.returned ++ s.pipe.contents = s.accepted
  same : Same p s.pipe

/-- A call keeps the bytes in order, whichever side it comes from. -/
theorem Session.Inv.exec {p : Pipe} {s : Session} (h : s.Inv p) (c : Call) :
  (s.exec c).Inv p
  := by
  cases c with
  | read who n =>
      constructor
      · change s.returned ++ (s.pipe.read who n).1 ++ (s.pipe.read who n).2.2.contents = _
        rw [List.append_assoc, read_contents]
        apply h.bytes
      · apply h.same.trans (s.pipe.read_same who n)
  | write who sor =>
      constructor
      · change s.returned ++ (s.pipe.write who sor).2.2.contents =
          s.accepted ++ sor.take (s.pipe.write who sor).1
        rw [write_contents, ← List.append_assoc, h.bytes]
      · apply h.same.trans (s.pipe.write_same who sor)

theorem run_inv (p : Pipe) (hp : p.contents = []) (calls : List Call) :
  (p.run calls).Inv p
  := by
  have hstart : Session.Inv p ⟨p, [], []⟩ := ⟨hp, rfl, rfl, rfl⟩
  have hfold : ∀ s : Session, s.Inv p → (calls.foldl Session.exec s).Inv p := by
    induction calls with
    | nil =>
        intro s hs
        apply hs
    | cons c rest ih =>
        intro s hs
        apply ih _ (hs.exec c)
  apply hfold _ hstart

/-- Every call does what it has to. -/
theorem meets (c : Call) :
  p.Meets c
  := by
  cases c with
  | read who n =>
      rw [Meets]
      split
      case isTrue hw =>
        rw [p.read_wrong hw]
        exact ⟨rfl, rfl, rfl⟩
      case isFalse hw =>
        rw [(p.read_reads (Bool.eq_false_iff.mpr hw) n).bytes, List.length_take]
        congr 1
        apply p.length_contents
  | write who sor =>
      rw [Meets]
      split
      case isFalse hw =>
        rw [p.write_wrong (Bool.eq_false_iff.mpr hw)]
        exact ⟨rfl, rfl, rfl⟩
      case isTrue hw =>
        by_cases hr : p.Refused sor
        · have hlt : p.room < sor.length := by
            rw [← p.available_eq_room]
            apply hr.2
          rw [p.write_refused hw hr, if_pos hr.1, if_neg (by omega)]
        · have hcount : (p.write who sor).1 = min sor.length p.room :=
            (p.write_writes hw hr).count_eq
          rw [hcount]
          by_cases ha : p.isAtomic = true
          · have hle : sor.length ≤ p.room := by
              rw [← p.available_eq_room]
              exact not_lt.mp fun hlt => hr ⟨ha, hlt⟩
            rw [if_pos ha, if_pos hle, min_eq_left hle]
          · rw [if_neg ha]

/-- A pipe whose buffer is empty is a bounded queue, whatever the calls. -/
theorem isFifo_of_contents (h : p.contents = []) (calls : List Call) :
  (p.run calls).IsFifo
  := by
  have hinv := p.run_inv h calls
  have hbytes := congrArg List.length hinv.bytes
  have hlimit := hinv.same.limit
  have hhead := (p.run calls).pipe.head_lt
  have hroom := (p.run calls).pipe.size_add_room
  rw [List.length_append, RingBuffer.length_contents] at hbytes
  refine ⟨?_, ?_, (p.run calls).pipe.meets⟩
  · rw [← hinv.bytes]
    apply List.prefix_append
  · lia

/-- Every pipe that is made has the limit it is made with, and is a bounded queue, whatever the
calls. -/
theorem isFifo_of_construct {m : KernelMemory} {debug : Bool} {owner : ℕ} {size : UInt32}
    {mode : BitVec 8} {bytes : ℕ → BitVec 8} {p : Pipe}
    (h : construct m debug owner size mode bytes = .ok p) :
  p.limit = size.toNat ∧ ∀ calls, (p.run calls).IsFifo
  := by
  obtain ⟨buffer, -, h⟩ := Except.bind_eq_ok_iff.mp h
  obtain ⟨-, -, h⟩ := Except.bind_eq_ok_iff.mp h
  cases h
  refine ⟨rfl, ?_⟩
  apply isFifo_of_contents
  apply RingBuffer.contents_eq_nil
  rfl

/-- An atomic pipe of 16 bytes: 14 bytes are written and 10 of them read, a write of 12 bytes is
refused, and one of 11 bytes goes past the end of the buffer. -/
theorem isFifo_sixteen :
  ∃ p, construct ⟨some, some, fun _ _ => true⟩ true 1 16 0x11 (fun _ => 0) = .ok p ∧
    ∃ s, s = p.run [.write ⟨1, false⟩ (List.replicate 14 7), .read ⟨2, false⟩ 10,
      .write ⟨1, false⟩ (List.replicate 12 8), .write ⟨1, false⟩ (List.replicate 11 9)] ∧
    s.accepted = List.replicate 14 7 ++ List.replicate 11 9 ∧ s.returned = List.replicate 10 7 ∧
    s.pipe.tail = 9 ∧ s.IsFifo
  := by
  have hp : ∃ p, construct ⟨some, some, fun _ _ => true⟩ true 1 16 0x11 (fun _ => 0) = .ok p ∧
      p = new 1 16 0x11 (fun _ => 0) (by decide) (by decide) := ⟨_, rfl, rfl⟩
  obtain ⟨p, hconstruct, hp⟩ := hp
  have hfifo := (isFifo_of_construct hconstruct).2
  refine ⟨p, hconstruct, _, rfl, ?_, ?_, ?_, hfifo _⟩
  · rw [hp]
    decide
  · rw [hp]
    decide
  · rw [hp]
    decide

end Pipe

end UOS
