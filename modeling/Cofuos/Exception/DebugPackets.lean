import Cofuos.Exception.DebugFraming

/-!
# The packets of the debugger

The commands of `kernel/exception/kdb.cpp` that take numbers and bytes from a packet: `cmd_read_vm`,
`cmd_write_vm`, `cmd_breakpoint` and `cmd_run`. A packet lies in the buffer, in which the results are
also put together.

No command leaves the buffer or the packet, with one exception: `cmd_write_vm` compares the end of the
data with the length in 64 bits, and a count for which the sum wraps around passes. The packet is then
read past its end, unless a byte that is not a digit comes before.
-/

namespace UOS

namespace Kdb

open Boot Logged

/-- What the commands find: whether memory may be used, which pages are present, the memory, and
what setting or clearing a breakpoint returns. -/
structure Target where
  mem : Bool
  present : ℕ → Bool
  memory : Bytes
  breakpoint : Bool → ℕ → UInt8 → Bool

/-- What is sent. -/
inductive Reply where
  /-- `send_bin` -/
  | data
  /-- `send` -/
  | text (message : String)
  deriving DecidableEq

/-- `err_invarg` -/
def invarg : Stop := .refused "E16"

/-- `err_denied` -/
def denied : Reply := .text "E0D"

/-- A byte of the packet. -/
def getByte (buffer : Bytes) (i : ℕ) : Logged Event Stop UInt8 := do
  emit (.interpret i)
  return buffer i

/-- The loop of `hex_to_num`, which has so many rounds left. -/
def hexLoop (buffer : Bytes) (sor : ℕ) : ℕ → ℕ → ℕ → Logged Event Stop (ℕ × ℕ)
  | 0, i, val => return (i, val)
  | lim + 1, i, val => do
      let ch ← getByte buffer (sor + i)
      if hexToBin ch > 0x0F then return (i, val)
      else hexLoop buffer sor lim (i + 1) ((val * 0x10 + (hexToBin ch).toNat) % 2 ^ 64)

/-- `hex_to_num`, with the number. -/
def hexToNum (buffer : Bytes) (sor lim : ℕ) : Logged Event Stop (ℕ × ℕ) :=
  hexLoop buffer sor (min lim 0x10) 0 0

/-- The part of `cmd_read_vm` and of `cmd_write_vm` that they share. Returns the address, the index
behind the count, and the count. -/
def header (t : Target) (s : Stub) : Logged Event Stop (ℕ × ℕ × ℕ) := do
  require (t.mem = true) invarg
  require (2 ≤ s.length) invarg
  let (n, va) ← hexToNum s.buffer 1 (s.length - 1)
  require (n ≠ 0) invarg
  let index := n + 2
  require (index < s.length) invarg
  let ch ← getByte s.buffer (index - 1)
  require (ch = 0x2C) invarg
  let (n, count) ← hexToNum s.buffer index (s.length - index)
  require (n ≠ 0) invarg
  return (va, n + index, count)

/-- The loop of `cmd_read_vm`. Each round copies at least one byte. -/
def readPages (t : Target) (count : ℕ) : ℕ → ℕ → ℕ → Bytes → Logged Event Stop (ℕ × Bytes)
  | 0, length, _, buffer => return (length, buffer)
  | rounds + 1, length, va, buffer =>
      if length < count then do
        require (length = 0 ∨ va % 0x1000 = 0) .assertFailed
        if t.present va = false then return (length, buffer)
        else do
          let size := min (count - length) (0x1000 - va % 0x1000)
          emit (.store length size)
          readPages t count rounds (length + size) ((va + size) % 2 ^ 64)
            (buffer.fill length size fun k => t.memory (va + k))
      else return (length, buffer)

/-- `cmd_read_vm` -/
def cmdReadVm (t : Target) (s : Stub) : Logged Event Stop (Reply × Stub) := do
  let (va, _, count) ← header t s
  let count := min count bufferSize
  let (length, buffer) ← readPages t count count 0 va s.buffer
  if length ≠ 0 then do
    emit (.load 0 length)
    return (.data, { length := length, buffer := buffer })
  else return (denied, { length := length, buffer := buffer })

/-- The loop of `cmd_write_vm` that decodes the data. -/
def decode : ℕ → ℕ → ℕ → Bytes → Logged Event Stop Bytes
  | 0, _, _, buffer => return buffer
  | rounds + 1, offset, length, buffer => do
      let hi ← getByte buffer offset
      let lo ← getByte buffer (offset + 1)
      require (hexToBin hi ≤ 0x0F ∧ hexToBin lo ≤ 0x0F) invarg
      emit (.store length 1)
      decode rounds (offset + 2) (length + 1)
        (Function.update buffer length (hexToBin hi <<< 4 ||| hexToBin lo))

/-- The loop of `cmd_write_vm` that stores the data. Each round stores at least one byte. -/
def writePages (t : Target) (buffer : Bytes) (count : ℕ) :
    ℕ → ℕ → ℕ → Bytes → Logged Event Stop (ℕ × Bytes)
  | 0, length, _, memory => return (length, memory)
  | rounds + 1, length, va, memory =>
      if length < count then do
        require (length = 0 ∨ va % 0x1000 = 0) .assertFailed
        if t.present va = false then return (length, memory)
        else do
          let size := min (count - length) (0x1000 - va % 0x1000)
          emit (.load length size)
          writePages t buffer count rounds (length + size) ((va + size) % 2 ^ 64)
            (memory.fill va size fun k => buffer (length + k))
      else return (length, memory)

/-- `cmd_write_vm`, with the memory that it leaves. -/
def cmdWriteVm (t : Target) (s : Stub) : Logged Event Stop (Reply × Stub × Bytes) := do
  let (va, index, count) ← header t s
  let offset := index + 1
  require ((offset + 2 * count) % 2 ^ 64 ≤ s.length) invarg
  let ch ← getByte s.buffer (offset - 1)
  require (ch = 0x3A) invarg
  let buffer ← decode count offset 0 s.buffer
  let (length, memory) ← writePages t buffer count count 0 va t.memory
  return (if length = count then .text "OK" else denied, { length := length, buffer := buffer }, memory)

/-- `cmd_breakpoint` -/
def cmdBreakpoint (t : Target) (s : Stub) : Logged Event Stop Reply := do
  require (3 ≤ s.length) invarg
  let ch ← getByte s.buffer 2
  require (ch = 0x2C) invarg
  let kind ← getByte s.buffer 1
  if kind ≠ 0x30 ∧ kind ≠ 0x31 then return .text ""
  else do
    let (n, addr) ← hexToNum s.buffer 3 (s.length - 3)
    require (n ≠ 0) invarg
    let index := n + 4
    require (index < s.length) invarg
    let ch ← getByte s.buffer (index - 1)
    require (ch = 0x2C) invarg
    let op ← getByte s.buffer 0
    return if t.breakpoint (kind = 0x31) addr op = true then .text "OK" else denied

/-- The loop of `cmd_run` that skips a signal. -/
def skipSignal (s : Stub) : ℕ → ℕ → Logged Event Stop ℕ
  | 0, offset => return offset
  | rounds + 1, offset =>
      if offset < s.length then do
        let ch ← getByte s.buffer offset
        if ch ≠ 0x3B then skipSignal s rounds (offset + 1) else return offset + 1
      else return offset

/-- The index behind the command of `cmd_run`. -/
def runOffset (s : Stub) (ch : UInt8) : Logged Event Stop ℕ :=
  if ch = 0x43 then skipSignal s s.length 1 else pure 1

/-- The address to go on from, if there is one. -/
def runAddress (s : Stub) (offset : ℕ) : Logged Event Stop (Option ℕ) :=
  if s.length > offset then do
    let (n, addr) ← hexToNum s.buffer offset (s.length - offset)
    require (n ≠ 0) invarg
    return some addr
  else pure none

/-- `cmd_run`, when it returns `true`: whether the debugger is detached, the address to go on from, and
whether to step. -/
def cmdRun (s : Stub) : Logged Event Stop (Bool × Option ℕ × Bool) := do
  require (s.length ≠ 0) invarg
  let ch ← getByte s.buffer 0
  let offset ← runOffset s ch
  require (ch = 0x44 → s.length = 1) invarg
  let rip ← runAddress s offset
  return (ch = 0x44, rip, ch = 0x73)

/-! ### What is wanted of the commands -/

/-- Only bytes of the packet are looked at, and only bytes of the buffer are touched. -/
def Contained (s : Stub) : Event → Prop
  | .put _ => True
  | .interpret i => i < s.length
  | .load i n => i + n ≤ bufferSize
  | .store i n => i + n ≤ bufferSize

/-- Everything that a computation does is contained. -/
def Inside {α : Type} (s : Stub) (x : Logged Event Stop α) : Prop := ∀ e ∈ x.events, Contained s e

/-- Receiving and the commands stay inside. -/
structure Safe (t : Target) (s : Stub) : Prop where
  recv : ∀ input, Inside s (recv s input)
  readVm : Inside s (cmdReadVm t s)
  writeVm : Inside s (cmdWriteVm t s)
  breakpoint : Inside s (cmdBreakpoint t s)
  run : Inside s (cmdRun s)

/-! ### Numbers of a packet -/

/-- The digits from an index on, at most so many. -/
def digitsAt (buffer : Bytes) (sor lim : ℕ) : List UInt8 :=
  (((List.range (min lim 0x10)).map fun i => hexToBin (buffer (sor + i))).takeWhile (· ≤ 0x0F))

/-- The number with these digits. -/
def value (digits : List UInt8) : ℕ := digits.foldl (fun val d => val * 0x10 + d.toNat) 0

/-- The index of the count. -/
def countIndex (s : Stub) : ℕ := (digitsAt s.buffer 1 (s.length - 1)).length + 2

/-- The digits of the count. -/
def countDigits (s : Stub) : List UInt8 := digitsAt s.buffer (countIndex s) (s.length - countIndex s)

/-- The index of the data. -/
def dataIndex (s : Stub) : ℕ := (countDigits s).length + countIndex s + 1

/-- There are an address and a count. -/
structure HasHeader (t : Target) (s : Stub) : Prop where
  mem : t.mem = true
  length : 2 ≤ s.length
  address : digitsAt s.buffer 1 (s.length - 1) ≠ []
  index : countIndex s < s.length
  comma : s.buffer (countIndex s - 1) = 0x2C
  count : countDigits s ≠ []

/-- The end of the data wraps around, and nothing in the packet stops the decoding: it ends before the
data, or there are only digits in it. -/
structure Overruns (t : Target) (s : Stub) : Prop where
  header : HasHeader t s
  passes : (dataIndex s + 2 * value (countDigits s)) % 2 ^ 64 ≤ s.length
  exceeds : s.length < dataIndex s + 2 * value (countDigits s)
  data : dataIndex s = s.length + 1 ∨ dataIndex s ≤ s.length ∧ s.buffer (dataIndex s - 1) = 0x3A ∧
    ∀ k, dataIndex s + 2 * k + 1 < s.length → hexToBin (s.buffer (dataIndex s + 2 * k)) ≤ 0x0F ∧
      hexToBin (s.buffer (dataIndex s + 2 * k + 1)) ≤ 0x0F

/-! ### What stays inside -/

section Inside

variable {α β : Type} {t : Target} {s : Stub} {x : Logged Event Stop α} {f : α → Logged Event Stop β}
  {buffer : Bytes} {sor lim n : ℕ}

theorem Inside.pure (a : α) : Inside s (Pure.pure a : Logged Event Stop α) := fun e he => by cases he

theorem Inside.stop (st : Stop) : Inside s (Logged.stop st : Logged Event Stop α) := fun e he => by cases he

theorem Inside.bind (hx : Inside s x) (hf : ∀ a, x.result = .ok a → Inside s (f a)) :
  Inside s (x >>= f)
  := by
  intro e he
  rcases mem_bind.1 he with hfirst | ⟨a, ha, hrest⟩
  · apply hx e hfirst
  · apply hf a ha e hrest

theorem Inside.emit {e : Event} (he : Contained s e) : Inside s (Logged.emit e) := by
  intro e' he'
  rw [events_emit, List.mem_singleton] at he'
  rw [he']
  apply he

theorem Inside.require (c : Prop) [Decidable c] (st : Stop) : Inside s (Logged.require c st) := by
  intro e he
  rw [events_require] at he
  cases he

/-- After a condition has been checked, it holds. -/
theorem Inside.checked {c : Prop} [Decidable c] {st : Stop} {g : Unit → Logged Event Stop β}
    (hg : c → Inside s (g ())) :
  Inside s (Logged.require c st >>= g)
  := by
  apply Inside.bind (Inside.require c st)
  intro _ hc
  apply hg (result_require c |>.1 hc)

theorem result_getByte (buffer : Bytes) (i : ℕ) : (getByte buffer i).result = .ok (buffer i) := rfl

/-- A byte of the packet is looked at. -/
theorem Inside.getByte {i : ℕ} (hi : i < s.length) {g : UInt8 → Logged Event Stop β}
    (hg : Inside s (g (buffer i))) :
  Inside s (Kdb.getByte buffer i >>= g)
  := by
  apply Inside.bind
  · apply Inside.bind (Inside.emit (show Contained s (.interpret i) from hi))
    intro _ _
    apply Inside.pure
  · intro ch hch
    cases hch
    apply hg

/-- `hex_to_num` reads at most `lim` bytes, which are digits but for the last one. -/
theorem inside_hexLoop (lim : ℕ) : ∀ {i val : ℕ}, sor + i + lim ≤ s.length →
  Inside s (hexLoop buffer sor lim i val)
  := by
  induction lim with
  | zero =>
      intro i val _
      apply Inside.pure
  | succ lim ih =>
      intro i val hle
      rw [hexLoop]
      apply Inside.getByte (by omega)
      split_ifs
      · apply Inside.pure
      · apply ih (by omega)

theorem inside_hexToNum (h : sor + lim ≤ s.length) : Inside s (hexToNum buffer sor lim) := by
  apply inside_hexLoop
  lia

/-- The number that `hex_to_num` finds. -/
theorem result_hexLoop (lim : ℕ) : ∀ {i val : ℕ}, val < 0x10 ^ i → i + lim ≤ 0x10 →
  (hexLoop buffer sor lim i val).result =
    .ok (i + (((List.range' i lim).map fun i => hexToBin (buffer (sor + i))).takeWhile
        (· ≤ 0x0F)).length,
      (((List.range' i lim).map fun i => hexToBin (buffer (sor + i))).takeWhile (· ≤ 0x0F)).foldl
        (fun val d => val * 0x10 + d.toNat) val)
  := by
  induction lim with
  | zero =>
      intro i val _ _
      rfl
  | succ lim ih =>
      intro i val hval hlim
      rw [hexLoop, bind_of_result (result_getByte buffer (sor + i)), List.range'_succ, List.map_cons]
      dsimp only
      by_cases hdigit : hexToBin (buffer (sor + i)) ≤ 0x0F
      · have hd : (hexToBin (buffer (sor + i))).toNat < 0x10 := Nat.lt_succ_of_le hdigit
        have hpow : (0x10 : ℕ) ^ (i + 1) ≤ 2 ^ 64 :=
          (Nat.pow_le_pow_right (by decide) (show i + 1 ≤ 16 by omega)).trans (by norm_num)
        have hnext : val * 0x10 + (hexToBin (buffer (sor + i))).toNat < 0x10 ^ (i + 1) := by
          rw [Nat.pow_succ]
          lia
        rw [if_neg (UInt8.not_lt.2 hdigit), Nat.mod_eq_of_lt (hnext.trans_le hpow),
          ih hnext (by omega), List.takeWhile_cons_of_pos (by simpa using hdigit), List.length_cons,
          List.foldl_cons]
        congr 2
        omega
      · rw [if_pos (UInt8.not_le.1 hdigit), List.takeWhile_cons_of_neg (by simpa using hdigit)]
        rfl

theorem result_hexToNum (buffer : Bytes) (sor lim : ℕ) :
  (hexToNum buffer sor lim).result =
    .ok ((digitsAt buffer sor lim).length, value (digitsAt buffer sor lim))
  := by
  rw [hexToNum, result_hexLoop _ (by decide) (by omega), ← List.range_eq_range', Nat.zero_add]
  rfl

theorem length_digitsAt (buffer : Bytes) (sor lim : ℕ) : (digitsAt buffer sor lim).length ≤ lim := by
  apply (List.takeWhile_sublist _).length_le.trans
  rw [List.length_map, List.length_range]
  apply Nat.min_le_left

/-! ### The commands -/

theorem dataIndex_le (h : countIndex s < s.length) : dataIndex s ≤ s.length + 1 := by
  have hlen := length_digitsAt s.buffer (countIndex s) (s.length - countIndex s)
  rw [dataIndex, countDigits]
  lia

/-- The address and the count are found, or the command is refused. -/
theorem inside_header (t : Target) (s : Stub) : Inside s (header t s) := by
  apply Inside.checked
  intro _
  apply Inside.checked
  intro hlen
  apply Inside.bind (inside_hexToNum (by omega))
  rintro ⟨n, va⟩ hn
  rw [result_hexToNum] at hn
  cases hn
  dsimp only
  apply Inside.checked
  intro _
  apply Inside.checked
  intro hindex
  apply Inside.getByte (by lia)
  apply Inside.checked
  intro _
  apply Inside.bind (inside_hexToNum (by lia))
  rintro ⟨n, count⟩ _
  apply Inside.checked
  intro _
  apply Inside.pure

theorem result_header {r : ℕ × ℕ × ℕ} (h : (header t s).result = .ok r) :
  HasHeader t s ∧ r.2.1 + 1 = dataIndex s ∧ r.2.2 = value (countDigits s)
  := by
  simp only [header, result_bind, result_require, result_hexToNum, result_getByte, Prod.exists,
    Except.ok.injEq, Prod.mk.injEq] at h
  obtain ⟨_, hmem, _, hlen, _, _, ⟨rfl, rfl⟩, _, haddr, _, hindex, _, rfl, _, hcomma, _, _, ⟨rfl, rfl⟩, _,
    hcount, hr⟩ := h
  cases hr
  refine ⟨⟨hmem, hlen, fun hnil => haddr (by rw [hnil]; rfl), hindex, hcomma,
    fun hnil => hcount ?_⟩, rfl, rfl⟩
  rw [← countIndex, ← countDigits, hnil]
  rfl

theorem header_of_hasHeader (h : HasHeader t s) :
  ∃ va, (header t s).result = .ok (va, (countDigits s).length + countIndex s, value (countDigits s))
  := by
  use value (digitsAt s.buffer 1 (s.length - 1))
  have haddr : (digitsAt s.buffer 1 (s.length - 1)).length ≠ 0 := fun hzero =>
    h.address (List.eq_nil_of_length_eq_zero hzero)
  have hcount : (countDigits s).length ≠ 0 := fun hzero => h.count (List.eq_nil_of_length_eq_zero hzero)
  have hindex := h.index
  have hcomma := h.comma
  simp only [header, require_of h.mem, require_of h.length, Logged.pure_bind]
  rw [bind_of_result (result_hexToNum _ _ _)]
  simp only [require_of haddr, Logged.pure_bind]
  rw [← countIndex, require_of h.index, Logged.pure_bind, bind_of_result (result_getByte _ _),
    require_of h.comma, Logged.pure_bind, bind_of_result (result_hexToNum _ _ _), ← countDigits]
  simp only [require_of hcount, Logged.pure_bind]
  rfl

/-- The pages that are read are put into the buffer. -/
theorem inside_readPages {count : ℕ} (hcount : count ≤ bufferSize) (rounds : ℕ) :
  ∀ {length va : ℕ} {buffer : Bytes}, Inside s (readPages t count rounds length va buffer)
  := by
  induction rounds with
  | zero =>
      intro length va buffer
      apply Inside.pure
  | succ rounds ih =>
      intro length va buffer
      rw [readPages]
      split_ifs with hlt hpresent
      · apply Inside.checked
        intro _
        apply Inside.pure
      · apply Inside.checked
        intro _
        apply Inside.bind
        · apply Inside.emit
          simp only [Contained]
          lia
        · intro _ _
          apply ih
      · apply Inside.pure

/-- The data that is written is in the buffer. -/
theorem inside_writePages {count : ℕ} (hcount : count ≤ bufferSize) (rounds : ℕ) :
  ∀ {length va : ℕ} {memory : Bytes}, Inside s (writePages t buffer count rounds length va memory)
  := by
  induction rounds with
  | zero =>
      intro length va memory
      apply Inside.pure
  | succ rounds ih =>
      intro length va memory
      rw [writePages]
      split_ifs with hlt hpresent
      · apply Inside.checked
        intro _
        apply Inside.pure
      · apply Inside.checked
        intro _
        apply Inside.bind
        · apply Inside.emit
          simp only [Contained]
          lia
        · intro _ _
          apply ih
      · apply Inside.pure

theorem length_readPages {count : ℕ} (rounds : ℕ) : ∀ {length va : ℕ} {buffer : Bytes} {r : ℕ × Bytes},
    length ≤ count → (readPages t count rounds length va buffer).result = .ok r →
  r.1 ≤ count
  := by
  induction rounds with
  | zero =>
      intro length va buffer r hle h
      cases h
      apply hle
  | succ rounds ih =>
      intro length va buffer r hle h
      rw [readPages] at h
      split_ifs at h with hlt hpresent
      · obtain ⟨_, -, h⟩ := result_bind.1 h
        cases h
        apply hle
      · obtain ⟨_, -, h⟩ := result_bind.1 h
        obtain ⟨_, -, h⟩ := result_bind.1 h
        apply ih _ h
        lia
      · cases h
        apply hle

theorem inside_cmdReadVm (t : Target) (s : Stub) : Inside s (cmdReadVm t s) := by
  apply Inside.bind (inside_header t s)
  rintro ⟨va, index, count⟩ _
  have hcount : min count bufferSize ≤ bufferSize := Nat.min_le_right _ _
  apply Inside.bind (inside_readPages hcount _)
  rintro ⟨length, buffer⟩ hread
  have hlen := length_readPages _ (Nat.zero_le _) hread
  dsimp only at hlen ⊢
  split_ifs
  · apply Inside.bind
    · apply Inside.emit
      simp only [Contained]
      omega
    · intro _ _
      apply Inside.pure
  · apply Inside.pure

theorem inside_cmdBreakpoint (t : Target) (s : Stub) : Inside s (cmdBreakpoint t s) := by
  apply Inside.checked
  intro hlen
  apply Inside.getByte (by omega)
  apply Inside.checked
  intro _
  apply Inside.getByte (by omega)
  split_ifs
  · apply Inside.pure
  · apply Inside.bind (inside_hexToNum (by omega))
    rintro ⟨n, addr⟩ _
    apply Inside.checked
    intro _
    apply Inside.checked
    intro hindex
    apply Inside.getByte (by lia)
    apply Inside.checked
    intro _
    apply Inside.getByte (by omega)
    apply Inside.pure

theorem inside_skipSignal (rounds : ℕ) : ∀ {offset : ℕ}, Inside s (skipSignal s rounds offset) := by
  induction rounds with
  | zero =>
      intro offset
      apply Inside.pure
  | succ rounds ih =>
      intro offset
      rw [skipSignal]
      split_ifs with hlt
      · apply Inside.getByte hlt
        split_ifs
        · apply ih
        · apply Inside.pure
      · apply Inside.pure

theorem inside_runOffset (s : Stub) (ch : UInt8) : Inside s (runOffset s ch) := by
  rw [runOffset]
  split_ifs
  · apply inside_skipSignal
  · apply Inside.pure

theorem inside_runAddress (s : Stub) (offset : ℕ) : Inside s (runAddress s offset) := by
  rw [runAddress]
  split_ifs
  · apply Inside.bind (inside_hexToNum (by omega))
    rintro ⟨n, addr⟩ _
    apply Inside.checked
    intro _
    apply Inside.pure
  · apply Inside.pure

theorem inside_cmdRun (s : Stub) : Inside s (cmdRun s) := by
  apply Inside.checked
  intro hlen
  apply Inside.getByte (by omega)
  apply Inside.bind (inside_runOffset s _)
  intro offset _
  apply Inside.checked
  intro _
  apply Inside.bind (inside_runAddress s offset)
  intro rip _
  apply Inside.pure

/-! ### Receiving -/

theorem inside_recvBody (chksum : UInt8) (index : ℕ) (buffer : Bytes) (input : List UInt8) :
  Inside s (recvBody chksum index buffer input)
  := by
  fun_induction recvBody chksum index buffer input with
  | case1 => apply Inside.stop
  | case2 => apply Inside.pure
  | case3 => apply Inside.pure
  | case4 => apply Inside.stop
  | case5 chksum index buffer hroom ch input _ ih =>
      apply Inside.bind
      · apply Inside.emit
        simp only [Contained]
        omega
      · intro _ _
        apply ih
  | case6 chksum index buffer ch input _ hroom _ ih =>
      apply Inside.bind
      · apply Inside.emit
        simp only [Contained]
        omega
      · intro _ _
        apply ih

theorem inside_recvRounds (n : ℕ) : ∀ {r : Stub} {input : List UInt8}, Inside s (recvRounds n r input) := by
  induction n with
  | zero =>
      intro r input
      apply Inside.stop
  | succ n ih =>
      intro r input
      rw [recvRounds]
      cases awaitStart input with
      | none => apply Inside.stop
      | some input =>
          apply Inside.bind (inside_recvBody _ _ _ _)
          rintro ⟨ch, chksum, index, buffer, input⟩ _
          have hput : ∀ b, Inside s (Logged.emit (.put b)) := fun b => Inside.emit trivial
          dsimp only
          split_ifs
          · rcases input with _ | ⟨hi, _ | ⟨lo, input⟩⟩
            · apply Inside.stop
            · apply Inside.stop
            · dsimp only
              split_ifs
              · exact (hput _).bind fun _ _ => Inside.pure _
              · exact (hput _).bind fun _ _ => ih
          · exact (hput _).bind fun _ _ => ih

/-! ### Writing -/

/-- Two digits of the data. -/
def HexPair (buffer : Bytes) (i : ℕ) : Prop :=
  hexToBin (buffer i) ≤ 0x0F ∧ hexToBin (buffer (i + 1)) ≤ 0x0F

/-- The result is stored before what is still to be read. -/
theorem hexPair_update {length offset : ℕ} (h : length < offset) (v : UInt8) :
  HexPair (Function.update buffer length v) offset ↔ HexPair buffer offset
  := by
  rw [HexPair, HexPair, Function.update_of_ne (by omega), Function.update_of_ne (by omega)]

/-- A round of the decoding: two bytes are looked at, and one is stored if they are digits. -/
theorem mem_decode {rounds offset length : ℕ} {e : Event} :
  e ∈ (decode (rounds + 1) offset length buffer).events ↔
    e = .interpret offset ∨ e = .interpret (offset + 1) ∨ HexPair buffer offset ∧ (e = .store length 1 ∨
      e ∈ (decode rounds (offset + 2) (length + 1) (Function.update buffer length
        (hexToBin (buffer offset) <<< 4 ||| hexToBin (buffer (offset + 1))))).events)
  := by
  simp [decode, getByte, HexPair]

/-- The data that ends in the packet is decoded inside of it. -/
theorem inside_decode (rounds : ℕ) : ∀ {offset length : ℕ} {buffer : Bytes}, length < offset →
    offset + 2 * rounds ≤ s.length → s.length ≤ bufferSize →
  Inside s (decode rounds offset length buffer)
  := by
  induction rounds with
  | zero =>
      intro offset length buffer _ _ _
      apply Inside.pure
  | succ rounds ih =>
      intro offset length buffer hbehind hend hlen e he
      rcases mem_decode.1 he with rfl | rfl | ⟨-, rfl | hrest⟩
      · simp only [Contained]
        lia
      · simp only [Contained]
        lia
      · simp only [Contained]
        lia
      · apply ih (by lia) (by lia) hlen e hrest

/-- Data in which something is no digit is decoded up to there. -/
theorem inside_decode_of_bad (k : ℕ) : ∀ {rounds offset length : ℕ} {buffer : Bytes}, length < offset →
    offset + 2 * k + 1 < s.length → ¬ HexPair buffer (offset + 2 * k) → s.length ≤ bufferSize →
  Inside s (decode rounds offset length buffer)
  := by
  induction k with
  | zero =>
      intro rounds offset length buffer hbehind hin hbad hlen e he
      cases rounds with
      | zero => cases he
      | succ rounds =>
          rcases mem_decode.1 he with rfl | rfl | ⟨hpair, -⟩
          · simp only [Contained]
            omega
          · simp only [Contained]
            omega
          · exact absurd hpair hbad
  | succ k ih =>
      intro rounds offset length buffer hbehind hin hbad hlen e he
      cases rounds with
      | zero => cases he
      | succ rounds =>
          rcases mem_decode.1 he with rfl | rfl | ⟨-, rfl | hrest⟩
          · simp only [Contained]
            lia
          · simp only [Contained]
            lia
          · simp only [Contained]
            lia
          · apply ih (by lia) (by lia) _ hlen e hrest
            rw [hexPair_update (by lia), show offset + 2 + 2 * k = offset + 2 * (k + 1) by lia]
            apply hbad

/-- Data without an end in the packet is decoded past its end if there are only digits. -/
theorem not_inside_decode (rest : ℕ) : ∀ {rounds offset length : ℕ} {buffer : Bytes}, length < offset →
    s.length - offset ≤ rest → offset ≤ s.length → s.length < offset + 2 * rounds →
    (∀ k, offset + 2 * k + 1 < s.length → HexPair buffer (offset + 2 * k)) →
  ¬ Inside s (decode rounds offset length buffer)
  := by
  induction rest using Nat.strong_induction_on with
  | h rest ih =>
      intro rounds offset length buffer hbehind hrest hin hend hdigits hinside
      obtain ⟨rounds, rfl⟩ : ∃ n, rounds = n + 1 := ⟨rounds - 1, by lia⟩
      by_cases hlast : offset + 1 < s.length
      · have hpair := hdigits 0 hlast
        have hnext := fun e he => hinside e (mem_decode.2 (.inr (.inr ⟨hpair, .inr he⟩)))
        apply ih (rest - 2) (by lia) (by lia) (by lia) (by lia) (by lia) _ hnext
        intro k hk
        rw [hexPair_update (by lia), show offset + 2 + 2 * k = offset + 2 * (k + 1) by lia]
        apply hdigits
        lia
      · have hread := hinside _ (mem_decode.2 (.inr (.inl rfl)))
        simp only [Contained] at hread
        omega

/-- Decoding comes to its end over digits only. -/
theorem hexPair_of_decode (rounds : ℕ) : ∀ {offset length : ℕ} {buffer b : Bytes}, length < offset →
    (decode rounds offset length buffer).result = .ok b →
  ∀ k < rounds, HexPair buffer (offset + 2 * k)
  := by
  induction rounds with
  | zero =>
      intro offset length buffer b _ _ k hk
      omega
  | succ rounds ih =>
      intro offset length buffer b hbehind hb k hk
      simp only [decode, result_bind, result_getByte, result_require, Except.ok.injEq] at hb
      obtain ⟨_, rfl, _, rfl, _, hpair, _, _, hb⟩ := hb
      cases k with
      | zero => apply hpair
      | succ k =>
          have hlater := ih (by lia) hb k (by lia)
          rw [hexPair_update (by lia), show offset + 2 + 2 * k = offset + 2 * (k + 1) by lia] at hlater
          apply hlater

/-- What comes after the decoding. -/
theorem inside_stored {va count : ℕ} (hcount : count ≤ bufferSize) :
  Inside s (writePages t buffer count count 0 va t.memory >>= fun r => Pure.pure
    (if r.1 = count then Reply.text "OK" else denied, ({ length := r.1, buffer := buffer } : Stub), r.2))
  := by
  apply Inside.bind (inside_writePages hcount _)
  intro r _
  apply Inside.pure

theorem inside_cmdWriteVm (h : s.length ≤ bufferSize) (hruns : ¬ Overruns t s) :
  Inside s (cmdWriteVm t s)
  := by
  apply Inside.bind (inside_header t s)
  rintro ⟨va, index, count⟩ hheader
  obtain ⟨hhas, hindex, hcount⟩ := result_header hheader
  have hle := dataIndex_le hhas.index
  have hpos : 0 < dataIndex s := Nat.succ_pos _
  dsimp only at hindex hcount ⊢
  rw [hindex, hcount]
  apply Inside.checked
  intro hpasses
  by_cases hend : dataIndex s + 2 * value (countDigits s) ≤ s.length
  · apply Inside.getByte (by lia)
    apply Inside.checked
    intro _
    apply Inside.bind (inside_decode _ hpos hend h)
    intro buffer _
    apply inside_stored
    lia
  · have hin : dataIndex s ≠ s.length + 1 := fun heq => hruns ⟨hhas, hpasses, by lia, .inl heq⟩
    apply Inside.getByte (by lia)
    apply Inside.checked
    intro hcolon
    obtain ⟨k, hk, hbad⟩ : ∃ k, dataIndex s + 2 * k + 1 < s.length ∧
        ¬ HexPair s.buffer (dataIndex s + 2 * k) := by
      by_contra hnone
      push Not at hnone
      apply hruns ⟨hhas, hpasses, by lia, .inr ⟨by lia, hcolon, hnone⟩⟩
    apply Inside.bind (inside_decode_of_bad k hpos hk hbad h)
    intro buffer hbuffer
    exact absurd (hexPair_of_decode _ hpos hbuffer k (by lia)) hbad

theorem not_inside_cmdWriteVm (hruns : Overruns t s) : ¬ Inside s (cmdWriteVm t s) := by
  intro hinside
  obtain ⟨va, hheader⟩ := header_of_hasHeader hruns.header
  have hle := dataIndex_le hruns.header.index
  have hpos : 0 < dataIndex s := Nat.succ_pos _
  have hexceeds := hruns.exceeds
  -- The header is found and the comparison passes, so that the rest of the command is inside.
  have hrest := fun e he => hinside e (mem_bind.2 (.inr ⟨_, hheader, he⟩))
  dsimp only at hrest
  rw [show (countDigits s).length + countIndex s + 1 = dataIndex s from rfl, require_of hruns.passes,
    Logged.pure_bind] at hrest
  have hcolon := hrest (.interpret (dataIndex s - 1)) (mem_bind.2 (.inl (by simp [getByte])))
  simp only [Contained] at hcolon
  rcases hruns.data with hend | ⟨hin, hch, hdigits⟩
  · lia
  · apply not_inside_decode _ hpos le_rfl hin hexceeds hdigits
    intro e he
    apply hrest e (mem_bind.2 (.inr ⟨_, result_getByte _ _, _⟩))
    rw [require_of hch, Logged.pure_bind]
    apply mem_bind.2 (.inl he)

end Inside

/-- A packet is handled without leaving it if and only if the end of the data does not wrap around over
digits. -/
theorem safe_iff (t : Target) (s : Stub) (h : s.length ≤ bufferSize) : Safe t s ↔ ¬ Overruns t s := by
  constructor
  · intro hsafe hruns
    apply not_inside_cmdWriteVm hruns hsafe.writeVm
  · intro hruns
    exact {
      recv := fun input => inside_recvRounds _
      readVm := inside_cmdReadVm t s
      writeVm := inside_cmdWriteVm h hruns
      breakpoint := inside_cmdBreakpoint t s
      run := inside_cmdRun s }

/-- A packet with this text. -/
def holding (text : List UInt8) : Stub := { length := text.length, buffer := fun i => text.getD i 0 }

/-- A machine in which every page is present and no breakpoint can be set. -/
def zeroed : Target :=
  { mem := true, present := fun _ => true, memory := fun _ => 0, breakpoint := fun _ _ _ => false }

/-- The packet `M0,1:2A` stores a byte. -/
theorem one_byte_safe : Safe zeroed (holding [0x4D, 0x30, 0x2C, 0x31, 0x3A, 0x32, 0x41]) := by
  apply (safe_iff _ _ (by decide)).2
  intro hruns
  exact absurd hruns.exceeds (by decide)

/-- The packet `M0,8000000000000000:` is read past its end. -/
theorem half_of_all_not_safe : ¬ ∀ (t : Target) (s : Stub), s.length ≤ bufferSize → Safe t s := by
  intro h
  have hsafe := h zeroed (holding ([0x4D, 0x30, 0x2C, 0x38] ++ List.replicate 15 0x30 ++ [0x3A]))
    (by decide)
  apply not_inside_cmdWriteVm _ hsafe.writeVm
  have hindex : dataIndex (holding ([0x4D, 0x30, 0x2C, 0x38] ++ List.replicate 15 0x30 ++ [0x3A])) = 20 := by
    decide
  refine ⟨⟨rfl, by decide, by decide, by decide, by decide, by decide⟩, by decide, by decide, .inr ?_⟩
  rw [hindex]
  refine ⟨by decide, by decide, fun k hk => ?_⟩
  exact absurd hk (by simp [holding]; omega)

end Kdb

end UOS
