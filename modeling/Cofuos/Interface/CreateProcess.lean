import Cofuos.Interface.Service
import Cofuos.Interface.UserBuffer
import Cofuos.Lib.Logged

/-!
# Values of the caller in `create_process`

The caller of `create_process` passes the address of a record with three strings, each a pointer and
a length. The lock of the address space, which `check` takes, keeps the pages in place, and another
thread of the caller may write to the record all the same. The service reads the fields of the
record several times: to compare a length, to have a range checked, and once more to use it. Each of
these reads is a `Site`, and the record that is found there may be any. The definitions follow
`service_provider::create_process` of `kernel/interface/service.cpp`, `basic_literal::assign` of
`kernel/util/include/literal.hpp` and `process_manager::spawn` of `kernel/process/process.cpp`.

None of the strings is used with the pointer and the length that were checked: the environment and
the command line are copied, and the working directory is spanned, after the fields are read again.
What is read lies in the checked ranges exactly if the later values happen to describe such bytes.
-/

namespace UOS

open Fault Service Logged

/-! ### The record -/

/-- `STARTUP_INFO` -/
structure StartupInfo where
  commandline : UInt64
  workDir : UInt64
  environment : UInt64
  cmdLength : UInt32
  wdLength : UInt32
  envLength : UInt32
  flags : UInt32
  stdHandle : Fin 3 → UInt32

/-- `sizeof(STARTUP_INFO)` -/
def StartupInfo.size : UInt32 := 0x38

/-- The places of `create_process` where a field of the record is read. -/
inductive Site where
  /-- The test of `cmd_length`, the two values that are checked, and the test for zero. -/
  | cmdLengthTest | commandlineCheck | cmdLengthCheck | cmdLengthZero
  /-- The test of `work_dir` for a null pointer, the test of `wd_length`, the two values that are
  checked, and the two that are used. -/
  | workDirTest | wdLengthTest | workDirCheck | wdLengthCheck | workDirUse | wdLengthUse
  /-- The same for `environment`, which is read for the head and for the tail of what is used. -/
  | environmentTest | envLengthTest | environmentCheck | envLengthCheck
  | environmentHead | environmentTail | envLengthTail
  /-- The four reads of `flags`. -/
  | flagsSet | flagsCompare | flagsChoose | flagsUse
  /-- The two reads of a handle. -/
  | stdHandleTest (i : Fin 3) | stdHandleGet (i : Fin 3)
  /-- The head and the tail of the command line. -/
  | commandlineHead | commandlineTail | cmdLengthTail
  deriving DecidableEq, Repr

/-! ### The call -/

/-- What a call does with the memory of the caller. -/
inductive MemoryEvent where
  /-- `check` returns `true` for a pointer and a length. -/
  | approve (ptr : UInt64) (length : UInt32)
  /-- A byte of a string is read. -/
  | read (address : UInt64)
  deriving DecidableEq, Repr

/-- The ways in which a call ends without a handle. -/
inductive CreateStop where
  | status (s : Status)
  | fault (f : Fault)
  /-- A byte cannot be read. -/
  | exception
  deriving DecidableEq, Repr

/-- A part of the call. -/
abbrev CreateCall (α : Type) : Type := Logged MemoryEvent CreateStop α

/-- What a call of `create_process` finds. -/
structure CreateProcessEnv where
  /-- The build has assertions. -/
  debug : Bool
  /-- The address space of the caller. -/
  vspace : Vspace
  /-- The kernel can read a byte. -/
  mapped : UInt64 → Bool
  /-- The record, as each of the reads finds it. -/
  record : Site → StartupInfo
  /-- The privilege of the process of the caller. -/
  privilege : UInt8
  /-- The handle table has a stream for a handle. -/
  isStream : UInt32 → Bool
  /-- The program can be opened, and its header is valid. -/
  opens : Bool
  /-- How many bytes of a path are looked at to open a working directory. -/
  seen : ℕ
  /-- `handle_table::put` -/
  put : UInt32

namespace CreateProcessEnv

variable (env : CreateProcessEnv)

/-- `service_provider::check` -/
def check (ptr : UInt64) (length : UInt32) : CreateCall Bool :=
  match env.vspace.checkBuffer env.debug ptr length false with
  | .ok true => do
      emit (.approve ptr length)
      return true
  | .ok false => return false
  | .error f => stop (.fault f)

/-- A field is checked with its length, which is at most a page where it is tested. -/
def checkField (lengthTest : UInt32) (ptr : UInt64) (length : UInt32) : CreateCall Unit := do
  require (lengthTest.toNat ≤ pageSize) (.status .badParam)
  let res ← env.check ptr length
  require (res = true) (.status .badBuffer)

/-- Bytes are read one after the other. -/
def readBytes : UInt64 → ℕ → CreateCall Unit
  | _, 0 => return ()
  | ptr, n + 1 => do
      emit (.read ptr)
      require (env.mapped ptr = true) .exception
      readBytes (ptr + 1) n

/-- The length of a literal, with the zero at its end, is a `word`. -/
def Fits (len : UInt64) : Prop := (len + 1).toNat < 2 ^ 16

instance instDecidableFits (len : UInt64) : Decidable (Fits len) := Nat.decLt _ _

/-- `basic_literal::assign`, which returns whether the literal is not empty. -/
def literal (head tail : UInt64) : CreateCall Bool :=
  let len := tail - head
  if len = 0 then return false
  else do
    require (Fits len) (.fault (.bugcheck "literal size %x overflow @ %p"))
    env.readBytes head len.toNat
    return true

/-- The block of `create_process` for the command line. -/
def checkCommandline : CreateCall Unit := do
  env.checkField (env.record .cmdLengthTest).cmdLength (env.record .commandlineCheck).commandline
    (env.record .cmdLengthCheck).cmdLength
  require ((env.record .cmdLengthZero).cmdLength ≠ 0) (.status .badBuffer)

/-- The block of `create_process` for the working directory, with the span that is left. -/
def takeWorkDir : CreateCall (UInt64 × UInt32) :=
  if (env.record .workDirTest).workDir ≠ 0 then do
    env.checkField (env.record .wdLengthTest).wdLength (env.record .workDirCheck).workDir
      (env.record .wdLengthCheck).wdLength
    return ((env.record .workDirUse).workDir, (env.record .wdLengthUse).wdLength)
  else return (0, 0)

/-- The block of `create_process` for the environment. -/
def takeEnvironment : CreateCall Unit :=
  if (env.record .environmentTest).environment ≠ 0 then do
    env.checkField (env.record .envLengthTest).envLength (env.record .environmentCheck).environment
      (env.record .envLengthCheck).envLength
    let _ ← env.literal (env.record .environmentHead).environment
      ((env.record .environmentTail).environment + (env.record .envLengthTail).envLength.toUInt64)
    return ()
  else return ()

/-- The privilege of the new process. -/
def newPrivilege : UInt8 :=
  if (env.record .flagsChoose).flags ≠ 0 then (env.record .flagsUse).flags.toUInt8
  else env.privilege

/-- The privilege that is asked for is not above the one of the caller. -/
def Allowed : Prop :=
  ¬ ((env.record .flagsSet).flags ≠ 0 ∧ (env.record .flagsCompare).flags.toUInt8 < env.privilege)

/-- `service_provider::get` for a stream -/
def hasStream (handle : UInt32) : Bool := if handle = 0 then false else env.isStream handle

/-- The standard handles are empty or streams. -/
def StreamsFound : Prop :=
  ∀ i, (env.record (.stdHandleTest i)).stdHandle i ≠ 0 →
    env.hasStream ((env.record (.stdHandleGet i)).stdHandle i) = true

instance instDecidableAllowed : Decidable env.Allowed := inferInstanceAs (Decidable (¬ _))

instance instDecidableStreamsFound : Decidable env.StreamsFound :=
  inferInstanceAs (Decidable (∀ _ : Fin 3, _))

/-- `process_manager::spawn`, as far as it looks at memory of the caller. -/
def spawn (command : Bool) (privilege : UInt8) (workDir : UInt64 × UInt32) : CreateCall Unit := do
  require (env.debug = true → command = true) (.fault .assertFailed)
  require (¬ privilege < env.privilege) (.status .notFound)
  require (env.opens = true) (.status .notFound)
  env.readBytes workDir.1 (min env.seen workDir.2.toNat)

/-- The end of `create_process`, where the command line is copied. -/
def createWith (workDir : UInt64 × UInt32) : CreateCall UInt32 := do
  let command ← env.literal (env.record .commandlineHead).commandline
    ((env.record .commandlineTail).commandline + (env.record .cmdLengthTail).cmdLength.toUInt64)
  env.spawn command env.newPrivilege workDir
  require (env.put ≠ 0) (.status .noResource)
  return env.put

/-- `service_provider::create_process` -/
def createProcess (ptr : UInt64) (length : UInt32) : CreateCall UInt32 := do
  let res ← env.check ptr length
  require (res = true ∧ StartupInfo.size ≤ length) (.status .badBuffer)
  env.checkCommandline
  let workDir ← env.takeWorkDir
  env.takeEnvironment
  require env.Allowed (.status .denied)
  require env.StreamsFound (.status .badHandle)
  env.createWith workDir

/-! ### Reaching the strings -/

/-- A byte lies in a range, which may wrap around. -/
def Inside (a ptr : UInt64) (length : UInt32) : Prop := (a - ptr).toNat < length.toNat

instance instDecidableInside (a ptr : UInt64) (length : UInt32) : Decidable (Inside a ptr length) :=
  Nat.decLt _ _

/-- Every byte that is read lies in a range that was approved and is no longer than a page. -/
def ReadsApproved (events : List MemoryEvent) : Prop :=
  ∀ a, .read a ∈ events → ∃ ptr length, .approve ptr length ∈ events ∧
    length.toNat ≤ pageSize ∧ Inside a ptr length

/-- `check` returns `true`. -/
def Approves (ptr : UInt64) (length : UInt32) : Prop :=
  env.vspace.checkBuffer env.debug ptr length false = .ok true

/-- `checkField` returns. -/
def FieldPasses (lengthTest : UInt32) (ptr : UInt64) (length : UInt32) : Prop :=
  lengthTest.toNat ≤ pageSize ∧ env.Approves ptr length

/-- `readBytes` reads a byte. -/
def ReadBy (ptr : UInt64) (n : ℕ) (a : UInt64) : Prop :=
  ∃ i < n, a = ptr + UInt64.ofNat i ∧ ∀ j < i, env.mapped (ptr + UInt64.ofNat j) = true

/-- `readBytes` returns. -/
def AllMapped (ptr : UInt64) (n : ℕ) : Prop := ∀ j < n, env.mapped (ptr + UInt64.ofNat j) = true

/-- The number of bytes that a literal asks for. -/
def literalBytes (head tail : UInt64) : ℕ :=
  if Fits (tail - head) then (tail - head).toNat else 0

/-- `literal` returns. -/
def Copies (head tail : UInt64) : Prop :=
  tail = head ∨ Fits (tail - head) ∧ env.AllMapped head (tail - head).toNat

/-- The record, the command line and the working directory pass their checks. -/
def Begins (ptr : UInt64) (length : UInt32) : Prop :=
  env.Approves ptr length ∧ StartupInfo.size ≤ length ∧
    env.FieldPasses (env.record .cmdLengthTest).cmdLength
      (env.record .commandlineCheck).commandline (env.record .cmdLengthCheck).cmdLength ∧
    (env.record .cmdLengthZero).cmdLength ≠ 0 ∧
    ((env.record .workDirTest).workDir ≠ 0 →
      env.FieldPasses (env.record .wdLengthTest).wdLength (env.record .workDirCheck).workDir
        (env.record .wdLengthCheck).wdLength)

/-- The environment is checked if there is one. -/
def EnvironmentPasses : Prop :=
  (env.record .environmentTest).environment ≠ 0 →
    env.FieldPasses (env.record .envLengthTest).envLength
      (env.record .environmentCheck).environment (env.record .envLengthCheck).envLength

/-- Where the copy of the environment ends. -/
def environmentEnd : UInt64 :=
  (env.record .environmentTail).environment + (env.record .envLengthTail).envLength.toUInt64

/-- Where the copy of the command line ends. -/
def commandlineEnd : UInt64 :=
  (env.record .commandlineTail).commandline + (env.record .cmdLengthTail).cmdLength.toUInt64

/-- The environment is copied. -/
def ReachesEnvironment (ptr : UInt64) (length : UInt32) : Prop :=
  env.Begins ptr length ∧ env.EnvironmentPasses ∧ (env.record .environmentTest).environment ≠ 0

/-- The command line is copied. -/
def ReachesCommandline (ptr : UInt64) (length : UInt32) : Prop :=
  env.Begins ptr length ∧ env.EnvironmentPasses ∧
    ((env.record .environmentTest).environment ≠ 0 →
      env.Copies (env.record .environmentHead).environment env.environmentEnd) ∧
    env.Allowed ∧ env.StreamsFound

/-- The working directory is opened. -/
def ReachesWorkDir (ptr : UInt64) (length : UInt32) : Prop :=
  env.ReachesCommandline ptr length ∧ (env.record .workDirTest).workDir ≠ 0 ∧
    env.Copies (env.record .commandlineHead).commandline env.commandlineEnd ∧
    (env.debug = true → env.commandlineEnd ≠ (env.record .commandlineHead).commandline) ∧
    ¬ env.newPrivilege < env.privilege ∧ env.opens = true

/-- A byte lies in one of the ranges that are checked: the record itself and the strings, as the
checks find them. -/
def Checked (ptr : UInt64) (length : UInt32) (a : UInt64) : Prop :=
  (length.toNat ≤ pageSize ∧ Inside a ptr length) ∨
    ((env.record .cmdLengthCheck).cmdLength.toNat ≤ pageSize ∧
      Inside a (env.record .commandlineCheck).commandline
        (env.record .cmdLengthCheck).cmdLength) ∨
    ((env.record .workDirTest).workDir ≠ 0 ∧
      (env.record .wdLengthCheck).wdLength.toNat ≤ pageSize ∧
      Inside a (env.record .workDirCheck).workDir (env.record .wdLengthCheck).wdLength) ∨
    ((env.record .environmentTest).environment ≠ 0 ∧
      (env.record .envLengthCheck).envLength.toNat ≤ pageSize ∧
      Inside a (env.record .environmentCheck).environment
        (env.record .envLengthCheck).envLength)

variable {env} {ptr q head tail a : UInt64} {length m lengthTest : UInt32} {n : ℕ}

@[simp]
theorem result_check {b : Bool} :
  (env.check ptr length).result = .ok b ↔
    env.vspace.checkBuffer env.debug ptr length false = .ok b
  := by
  rw [check]
  cases h : env.vspace.checkBuffer env.debug ptr length false with
  | error f => simp
  | ok c => cases c <;> simp

@[simp]
theorem approve_mem_check :
  .approve q m ∈ (env.check ptr length).events ↔ env.Approves ptr length ∧ q = ptr ∧ m = length
  := by
  rw [check, Approves]
  cases h : env.vspace.checkBuffer env.debug ptr length false with
  | error f => simp
  | ok c => cases c <;> simp

@[simp]
theorem read_mem_check : ¬ .read a ∈ (env.check ptr length).events := by
  rw [check]
  cases h : env.vspace.checkBuffer env.debug ptr length false with
  | error f => simp
  | ok c => cases c <;> simp

@[simp]
theorem result_checkField {u : Unit} :
  (env.checkField lengthTest ptr length).result = .ok u ↔ env.FieldPasses lengthTest ptr length
  := by
  simp [checkField, FieldPasses, Approves]

@[simp]
theorem approve_mem_checkField :
  .approve q m ∈ (env.checkField lengthTest ptr length).events ↔
    env.FieldPasses lengthTest ptr length ∧ q = ptr ∧ m = length
  := by
  simp [checkField, FieldPasses, and_assoc]

@[simp]
theorem read_mem_checkField : ¬ .read a ∈ (env.checkField lengthTest ptr length).events := by
  simp [checkField]

/-- The next byte has the next number. -/
theorem add_one_add (ptr : UInt64) (j : ℕ) :
  ptr + 1 + UInt64.ofNat j = ptr + UInt64.ofNat (j + 1)
  := by
  rw [UInt64.ofNat_add, UInt64.add_assoc, UInt64.add_comm 1]
  rfl

@[simp]
theorem result_readBytes {u : Unit} :
  (env.readBytes ptr n).result = .ok u ↔ env.AllMapped ptr n
  := by
  induction n generalizing ptr with
  | zero => simp [readBytes, AllMapped]
  | succ n ih =>
      rw [AllMapped, Nat.forall_lt_succ_left]
      simp [readBytes, ih, AllMapped, add_one_add]

@[simp]
theorem read_mem_readBytes :
  .read a ∈ (env.readBytes ptr n).events ↔ env.ReadBy ptr n a
  := by
  induction n generalizing ptr with
  | zero => simp [readBytes, ReadBy]
  | succ n ih =>
      have hcons : .read a ∈ (env.readBytes ptr (n + 1)).events ↔
          a = ptr ∨ env.mapped ptr = true ∧ env.ReadBy (ptr + 1) n a := by
        simp [readBytes, ih]
      rw [hcons]
      constructor
      · rintro (rfl | ⟨hmapped, i, hi, rfl, hbefore⟩)
        · exact ⟨0, n.succ_pos, by simp, by simp⟩
        · refine ⟨i + 1, by omega, add_one_add ptr i, Nat.forall_lt_succ_left.mpr ⟨?_, ?_⟩⟩
          · simpa using hmapped
          · intro j hj
            rw [← add_one_add]
            exact hbefore j hj
      · rintro ⟨i, hi, rfl, hbefore⟩
        cases i with
        | zero => simp
        | succ i =>
            rw [Nat.forall_lt_succ_left] at hbefore
            refine .inr ⟨by simpa using hbefore.1, i, by omega, (add_one_add ptr i).symm, ?_⟩
            intro j hj
            rw [add_one_add]
            exact hbefore.2 j hj

@[simp]
theorem approve_mem_readBytes : ¬ .approve q m ∈ (env.readBytes ptr n).events := by
  induction n generalizing ptr with
  | zero => simp [readBytes]
  | succ n ih => simp [readBytes, ih]

/-- A difference is zero when its sides are equal. -/
theorem sub_eq_zero_iff : tail - head = 0 ↔ tail = head := by
  constructor
  · intro h
    rw [← UInt64.sub_add_cancel tail head, h, UInt64.zero_add]
  · rintro rfl
    exact UInt64.sub_self _

@[simp]
theorem result_literal {b : Bool} :
  (env.literal head tail).result = .ok b ↔ env.Copies head tail ∧ (b = true ↔ tail ≠ head)
  := by
  rw [literal, Copies]
  by_cases h : tail = head
  · rw [if_pos (sub_eq_zero_iff.mpr h)]
    simp [h]
  · rw [if_neg (mt sub_eq_zero_iff.mp h)]
    simp [h, and_assoc]

/-- A literal of either kind is returned. -/
theorem exists_result_literal :
  (∃ b, (env.literal head tail).result = .ok b) ↔ env.Copies head tail
  := by
  constructor
  · rintro ⟨b, hb⟩
    exact (result_literal.mp hb).1
  · intro h
    exact ⟨decide (tail ≠ head), result_literal.mpr ⟨h, decide_eq_true_iff⟩⟩

@[simp]
theorem read_mem_literal :
  .read a ∈ (env.literal head tail).events ↔ env.ReadBy head (literalBytes head tail) a
  := by
  rw [literal, literalBytes]
  by_cases h : tail = head
  · rw [if_pos (sub_eq_zero_iff.mpr h), sub_eq_zero_iff.mpr h]
    simp [ReadBy]
  · rw [if_neg (mt sub_eq_zero_iff.mp h)]
    by_cases hfits : Fits (tail - head)
    · simp [hfits]
    · simp [hfits, ReadBy]

@[simp]
theorem approve_mem_literal : ¬ .approve q m ∈ (env.literal head tail).events := by
  rw [literal]
  split_ifs
  · simp
  · simp

/-! ### The blocks -/

@[simp]
theorem result_checkCommandline {u : Unit} :
  env.checkCommandline.result = .ok u ↔
    env.FieldPasses (env.record .cmdLengthTest).cmdLength
      (env.record .commandlineCheck).commandline (env.record .cmdLengthCheck).cmdLength ∧
    (env.record .cmdLengthZero).cmdLength ≠ 0
  := by
  simp [checkCommandline]

@[simp]
theorem approve_mem_checkCommandline :
  .approve q m ∈ env.checkCommandline.events ↔
    env.FieldPasses (env.record .cmdLengthTest).cmdLength
      (env.record .commandlineCheck).commandline (env.record .cmdLengthCheck).cmdLength ∧
    q = (env.record .commandlineCheck).commandline ∧ m = (env.record .cmdLengthCheck).cmdLength
  := by
  simp [checkCommandline]

@[simp]
theorem read_mem_checkCommandline : ¬ .read a ∈ env.checkCommandline.events := by
  simp [checkCommandline]

/-- The span that is left for the working directory. -/
def workDirSpan (env : CreateProcessEnv) : UInt64 × UInt32 :=
  if (env.record .workDirTest).workDir ≠ 0 then
    ((env.record .workDirUse).workDir, (env.record .wdLengthUse).wdLength)
  else (0, 0)

@[simp]
theorem result_takeWorkDir {span : UInt64 × UInt32} :
  env.takeWorkDir.result = .ok span ↔
    ((env.record .workDirTest).workDir ≠ 0 →
      env.FieldPasses (env.record .wdLengthTest).wdLength (env.record .workDirCheck).workDir
        (env.record .wdLengthCheck).wdLength) ∧ env.workDirSpan = span
  := by
  rw [takeWorkDir, workDirSpan]
  by_cases h : (env.record .workDirTest).workDir = 0
  · simp [h]
  · simp [h]

@[simp]
theorem approve_mem_takeWorkDir :
  .approve q m ∈ env.takeWorkDir.events ↔ (env.record .workDirTest).workDir ≠ 0 ∧
    env.FieldPasses (env.record .wdLengthTest).wdLength (env.record .workDirCheck).workDir
      (env.record .wdLengthCheck).wdLength ∧
    q = (env.record .workDirCheck).workDir ∧ m = (env.record .wdLengthCheck).wdLength
  := by
  rw [takeWorkDir]
  by_cases h : (env.record .workDirTest).workDir = 0
  · simp [h]
  · simp [h]

@[simp]
theorem read_mem_takeWorkDir : ¬ .read a ∈ env.takeWorkDir.events := by
  rw [takeWorkDir]
  split_ifs
  · simp
  · simp

@[simp]
theorem result_takeEnvironment {u : Unit} :
  env.takeEnvironment.result = .ok u ↔ env.EnvironmentPasses ∧
    ((env.record .environmentTest).environment ≠ 0 →
      env.Copies (env.record .environmentHead).environment env.environmentEnd)
  := by
  rw [takeEnvironment, EnvironmentPasses, ← exists_result_literal, environmentEnd]
  by_cases h : (env.record .environmentTest).environment = 0
  · simp [h]
  · simp [h, -result_literal]

@[simp]
theorem approve_mem_takeEnvironment :
  .approve q m ∈ env.takeEnvironment.events ↔
    (env.record .environmentTest).environment ≠ 0 ∧ env.EnvironmentPasses ∧
    q = (env.record .environmentCheck).environment ∧ m = (env.record .envLengthCheck).envLength
  := by
  rw [takeEnvironment, EnvironmentPasses]
  by_cases h : (env.record .environmentTest).environment = 0
  · simp [h]
  · simp [h]

@[simp]
theorem read_mem_takeEnvironment :
  .read a ∈ env.takeEnvironment.events ↔
    (env.record .environmentTest).environment ≠ 0 ∧ env.EnvironmentPasses ∧
    env.ReadBy (env.record .environmentHead).environment
      (literalBytes (env.record .environmentHead).environment env.environmentEnd) a
  := by
  rw [takeEnvironment, EnvironmentPasses, environmentEnd]
  by_cases h : (env.record .environmentTest).environment = 0
  · simp [h]
  · simp [h]

@[simp]
theorem read_mem_spawn {command : Bool} {privilege : UInt8} {span : UInt64 × UInt32} :
  .read a ∈ (env.spawn command privilege span).events ↔ (env.debug = true → command = true) ∧
    ¬ privilege < env.privilege ∧ env.opens = true ∧
    env.ReadBy span.1 (min env.seen span.2.toNat) a
  := by
  simp [spawn]

@[simp]
theorem approve_mem_spawn {command : Bool} {privilege : UInt8} {span : UInt64 × UInt32} :
  ¬ .approve q m ∈ (env.spawn command privilege span).events
  := by
  simp [spawn]

/-! ### The whole call -/

/-- The bytes that are read once the command line is reached. -/
@[simp]
theorem read_mem_createWith {span : UInt64 × UInt32} :
  .read a ∈ (env.createWith span).events ↔
    env.ReadBy (env.record .commandlineHead).commandline
      (literalBytes (env.record .commandlineHead).commandline env.commandlineEnd) a ∨
    env.Copies (env.record .commandlineHead).commandline env.commandlineEnd ∧
      (env.debug = true → env.commandlineEnd ≠ (env.record .commandlineHead).commandline) ∧
      ¬ env.newPrivilege < env.privilege ∧ env.opens = true ∧
      env.ReadBy span.1 (min env.seen span.2.toNat) a
  := by
  rw [createWith, mem_bind, read_mem_literal]
  apply or_congr_right
  constructor
  · rintro ⟨b, hb, hread⟩
    obtain ⟨hcopies, hb⟩ := result_literal.mp hb
    have hread : .read a ∈ (env.spawn b env.newPrivilege span).events := by
      simpa using hread
    obtain ⟨hdebug, hrest⟩ := read_mem_spawn.mp hread
    exact ⟨hcopies, fun h => hb.mp (hdebug h), hrest⟩
  · rintro ⟨hcopies, hdebug, hrest⟩
    refine ⟨decide (env.commandlineEnd ≠ (env.record .commandlineHead).commandline),
      result_literal.mpr ⟨hcopies, decide_eq_true_iff⟩, ?_⟩
    apply mem_bind.mpr
    exact .inl (read_mem_spawn.mpr ⟨fun h => decide_eq_true (hdebug h), hrest⟩)

@[simp]
theorem approve_mem_createWith {span : UInt64 × UInt32} :
  ¬ .approve q m ∈ (env.createWith span).events
  := by
  simp [createWith]

/-- What is approved before the environment is copied. Nothing is approved afterwards. -/
theorem approve_mem_createProcess (hbegin : env.Begins ptr length)
    (henv : env.EnvironmentPasses) :
  .approve q m ∈ (env.createProcess ptr length).events ↔
    (q = ptr ∧ m = length) ∨
    (q = (env.record .commandlineCheck).commandline ∧
      m = (env.record .cmdLengthCheck).cmdLength) ∨
    ((env.record .workDirTest).workDir ≠ 0 ∧ q = (env.record .workDirCheck).workDir ∧
      m = (env.record .wdLengthCheck).wdLength) ∨
    ((env.record .environmentTest).environment ≠ 0 ∧
      q = (env.record .environmentCheck).environment ∧
      m = (env.record .envLengthCheck).envLength)
  := by
  obtain ⟨hcheck, hsize, hcmd, hzero, hwork⟩ := hbegin
  have hres : env.vspace.checkBuffer env.debug ptr length false = .ok true := hcheck
  by_cases h : (env.record .workDirTest).workDir = 0
  · simp [createProcess, hcheck, hres, hsize, hcmd, hzero, henv, h]
  · simp [createProcess, hcheck, hres, hsize, hcmd, hzero, henv, h, hwork h]

theorem approved_iff (hbegin : env.Begins ptr length) (henv : env.EnvironmentPasses) :
  (∃ q m, .approve q m ∈ (env.createProcess ptr length).events ∧ m.toNat ≤ pageSize ∧
      Inside a q m) ↔ env.Checked ptr length a
  := by
  simp only [approve_mem_createProcess hbegin henv, Checked]
  constructor
  · rintro ⟨q, m, ⟨rfl, rfl⟩ | ⟨rfl, rfl⟩ | ⟨h, rfl, rfl⟩ | ⟨h, rfl, rfl⟩, hpage, hinside⟩
    · exact .inl ⟨hpage, hinside⟩
    · exact .inr (.inl ⟨hpage, hinside⟩)
    · exact .inr (.inr (.inl ⟨h, hpage, hinside⟩))
    · exact .inr (.inr (.inr ⟨h, hpage, hinside⟩))
  · rintro (⟨hpage, hinside⟩ | ⟨hpage, hinside⟩ | ⟨h, hpage, hinside⟩ | ⟨h, hpage, hinside⟩)
    · exact ⟨_, _, .inl ⟨rfl, rfl⟩, hpage, hinside⟩
    · exact ⟨_, _, .inr (.inl ⟨rfl, rfl⟩), hpage, hinside⟩
    · exact ⟨_, _, .inr (.inr (.inl ⟨h, rfl, rfl⟩)), hpage, hinside⟩
    · exact ⟨_, _, .inr (.inr (.inr ⟨h, rfl, rfl⟩)), hpage, hinside⟩

/-- Without a working directory, no byte of one is looked at. -/
theorem readBy_workDirSpan :
  env.ReadBy env.workDirSpan.1 (min env.seen env.workDirSpan.2.toNat) a ↔
    (env.record .workDirTest).workDir ≠ 0 ∧ env.ReadBy (env.record .workDirUse).workDir
      (min env.seen (env.record .wdLengthUse).wdLength.toNat) a
  := by
  rw [workDirSpan]
  by_cases h : (env.record .workDirTest).workDir = 0
  · simp [h, ReadBy]
  · simp [h]

/-- The bytes that are read. -/
theorem read_mem_createProcess :
  .read a ∈ (env.createProcess ptr length).events ↔
    (env.ReachesEnvironment ptr length ∧ env.ReadBy (env.record .environmentHead).environment
      (literalBytes (env.record .environmentHead).environment env.environmentEnd) a) ∨
    (env.ReachesCommandline ptr length ∧ env.ReadBy (env.record .commandlineHead).commandline
      (literalBytes (env.record .commandlineHead).commandline env.commandlineEnd) a) ∨
    (env.ReachesWorkDir ptr length ∧ env.ReadBy (env.record .workDirUse).workDir
      (min env.seen (env.record .wdLengthUse).wdLength.toNat) a)
  := by
  have hevents : .read a ∈ (env.createProcess ptr length).events ↔ env.Begins ptr length ∧
      ((env.record .environmentTest).environment ≠ 0 ∧ env.EnvironmentPasses ∧
        env.ReadBy (env.record .environmentHead).environment
          (literalBytes (env.record .environmentHead).environment env.environmentEnd) a ∨
      env.takeEnvironment.result = .ok () ∧ env.Allowed ∧ env.StreamsFound ∧
        .read a ∈ (env.createWith env.workDirSpan).events) := by
    simp only [createProcess, Begins, Approves, mem_bind, read_mem_check, false_or, result_check,
      events_require, List.not_mem_nil, result_require, read_mem_checkCommandline,
      result_checkCommandline, read_mem_takeWorkDir, result_takeWorkDir, read_mem_takeEnvironment]
    constructor
    · rintro ⟨res, hres, -, ⟨rfl, hsize⟩, -, ⟨hcmd, hzero⟩, _, ⟨hwork, rfl⟩, hrest⟩
      refine ⟨⟨hres, hsize, hcmd, hzero, hwork⟩, hrest.imp_right ?_⟩
      rintro ⟨⟨⟩, henv, -, hallowed, -, hstreams, hread⟩
      exact ⟨henv, hallowed, hstreams, hread⟩
    · rintro ⟨⟨hres, hsize, hcmd, hzero, hwork⟩, hrest⟩
      refine ⟨true, hres, (), ⟨rfl, hsize⟩, (), ⟨hcmd, hzero⟩, _, ⟨hwork, rfl⟩,
        hrest.imp_right ?_⟩
      rintro ⟨henv, hallowed, hstreams, hread⟩
      exact ⟨(), henv, (), hallowed, (), hstreams, hread⟩
  rw [hevents, result_takeEnvironment, read_mem_createWith, readBy_workDirSpan,
    ReachesEnvironment, ReachesWorkDir, ReachesCommandline]
  constructor
  · rintro ⟨hbegin, ⟨hsome, henv, hread⟩ | ⟨⟨henv, hcopied⟩, hallowed, hstreams, hrest⟩⟩
    · exact .inl ⟨⟨hbegin, henv, hsome⟩, hread⟩
    · rcases hrest with hread | ⟨hcopies, hdebug, hprivilege, hopens, hsome, hread⟩
      · exact .inr (.inl ⟨⟨hbegin, henv, hcopied, hallowed, hstreams⟩, hread⟩)
      · exact .inr (.inr ⟨⟨⟨hbegin, henv, hcopied, hallowed, hstreams⟩, hsome, hcopies, hdebug,
          hprivilege, hopens⟩, hread⟩)
  · rintro (⟨⟨hbegin, henv, hsome⟩, hread⟩ |
      ⟨⟨hbegin, henv, hcopied, hallowed, hstreams⟩, hread⟩ |
      ⟨⟨⟨hbegin, henv, hcopied, hallowed, hstreams⟩, hsome, hcopies, hdebug, hprivilege, hopens⟩,
        hread⟩)
    · exact ⟨hbegin, .inl ⟨hsome, henv, hread⟩⟩
    · exact ⟨hbegin, .inr ⟨⟨henv, hcopied⟩, hallowed, hstreams, .inl hread⟩⟩
    · exact ⟨hbegin, .inr ⟨⟨henv, hcopied⟩, hallowed, hstreams,
        .inr ⟨hcopies, hdebug, hprivilege, hopens, hsome, hread⟩⟩⟩

/-- `create_process` reads only approved bytes exactly if the bytes of the environment, of the
command line and of the working directory, as they are described when they are used, are among those
that were described when they were checked. -/
theorem readsApproved_iff (env : CreateProcessEnv) (ptr : UInt64) (length : UInt32) :
  ReadsApproved (env.createProcess ptr length).events ↔
    (env.ReachesEnvironment ptr length → ∀ a, env.ReadBy (env.record .environmentHead).environment
      (literalBytes (env.record .environmentHead).environment env.environmentEnd) a →
        env.Checked ptr length a) ∧
    (env.ReachesCommandline ptr length → ∀ a, env.ReadBy (env.record .commandlineHead).commandline
      (literalBytes (env.record .commandlineHead).commandline env.commandlineEnd) a →
        env.Checked ptr length a) ∧
    (env.ReachesWorkDir ptr length → ∀ a, env.ReadBy (env.record .workDirUse).workDir
      (min env.seen (env.record .wdLengthUse).wdLength.toNat) a → env.Checked ptr length a)
  := by
  simp only [ReadsApproved, read_mem_createProcess]
  constructor
  · intro h
    refine ⟨fun hreach a ha => ?_, fun hreach a ha => ?_, fun hreach a ha => ?_⟩
    · exact (approved_iff hreach.1 hreach.2.1).mp (h a (.inl ⟨hreach, ha⟩))
    · exact (approved_iff hreach.1 hreach.2.1).mp (h a (.inr (.inl ⟨hreach, ha⟩)))
    · exact (approved_iff hreach.1.1 hreach.1.2.1).mp (h a (.inr (.inr ⟨hreach, ha⟩)))
  · rintro ⟨henvironment, hcommand, hwork⟩ a (⟨hreach, ha⟩ | ⟨hreach, ha⟩ | ⟨hreach, ha⟩)
    · exact (approved_iff hreach.1 hreach.2.1).mpr (henvironment hreach a ha)
    · exact (approved_iff hreach.1 hreach.2.1).mpr (hcommand hreach a ha)
    · exact (approved_iff hreach.1.1 hreach.1.2.1).mpr (hwork hreach a ha)

/-! ### Records that are left alone -/

/-- The bytes from a pointer on lie in a range that is long enough. -/
theorem inside_of_readBy (hn : n ≤ length.toNat) (h : env.ReadBy ptr n a) :
  Inside a ptr length
  := by
  obtain ⟨i, hi, rfl, -⟩ := h
  have hlength := length.toNat_lt
  rw [Inside, UInt64.add_comm, UInt64.add_sub_cancel, UInt64.toNat_ofNat']
  lia

/-- A literal from a pointer on is as long as it is to be. -/
theorem literalBytes_le (head : UInt64) (length : UInt32) :
  literalBytes head (head + length.toUInt64) ≤ length.toNat
  := by
  rw [literalBytes, UInt64.add_comm, UInt64.add_sub_cancel]
  split_ifs
  · exact le_of_eq (UInt32.toNat_toUInt64 length)
  · exact Nat.zero_le _

/-- If no thread writes to the record, what is read has been approved. -/
theorem readsApproved_of_constant {r : StartupInfo} (h : ∀ site, env.record site = r) :
  ReadsApproved (env.createProcess ptr length).events
  := by
  rw [readsApproved_iff]
  simp only [Checked, environmentEnd, commandlineEnd, h]
  refine ⟨?_, ?_, ?_⟩
  · rintro ⟨-, hpasses, hsome⟩ a ha
    have hpage := (hpasses hsome).1
    rw [h] at hsome hpage
    exact .inr (.inr (.inr ⟨hsome, hpage, inside_of_readBy (literalBytes_le _ _) ha⟩))
  · rintro ⟨⟨-, -, hcmd, -, -⟩, -⟩ a ha
    have hpage := hcmd.1
    rw [h] at hpage
    exact .inr (.inl ⟨hpage, inside_of_readBy (literalBytes_le _ _) ha⟩)
  · rintro ⟨⟨⟨-, -, -, -, hwork⟩, -⟩, hsome, -⟩ a ha
    have hpage := (hwork hsome).1
    rw [h] at hsome hpage
    exact .inr (.inr (.inl ⟨hsome, hpage, inside_of_readBy (Nat.min_le_right _ _) ha⟩))

/-! ### A command line in the kernel -/

/-- An address space with one page for the user, at `0x400000`. -/
def onePage : Vspace :=
  { cr3 := 1
    pl4te := 2
    pdpt := Function.update (fun _ => {}) 0
      { pdtAddr := 3, user := true, write := true, present := true }
    pdt := Function.update (fun _ => {}) 2
      { ptAddr := 4, user := true, write := true, present := true }
    pt := Function.update (fun _ _ => {}) 2 (Function.update (fun _ => {}) 0
      { pageAddr := 5, preserve := true, user := true, write := true, present := true })
    usedPages := 5
    locked := true
    pm := { used := {1, 2, 3, 4, 5}, answers := fun i => i + 6 } }

/-- A record with a command line of five bytes behind it. -/
def programRecord (commandline : UInt64) : StartupInfo :=
  { commandline := commandline
    workDir := 0
    environment := 0
    cmdLength := 5
    wdLength := 0
    envLength := 0
    flags := 0
    stdHandle := fun _ => 0 }

/-- A call during which another thread replaces the pointer to the command line, between the check
and the copy, by an address of the kernel. -/
def swapped : CreateProcessEnv :=
  { debug := true
    vspace := onePage
    mapped := fun _ => true
    record := fun site =>
      if site = .commandlineHead ∨ site = .commandlineTail then programRecord 0xFFFF800000200000
      else programRecord 0x400040
    privilege := 0x40
    isStream := fun _ => false
    opens := false
    seen := 0
    put := 4 }

/-- The bytes of the page are accessible. -/
theorem onePage_accessible {a : ℕ} (h : a / 0x1000 = 0x400) : onePage.Accessible false a := by
  refine ⟨by lia, ?_⟩
  rw [h]
  decide

/-- `check` returns `true` for a buffer in the page. -/
theorem approves_onePage (hspace : env.vspace = onePage) (hpos : 0 < length.toNat)
    (hhead : 0x400000 ≤ ptr.toNat) (htail : ptr.toNat + length.toNat ≤ 0x401000) :
  env.Approves ptr length
  := by
  have hne : length ≠ 0 := by
    rintro rfl
    exact absurd hpos (by decide)
  obtain ⟨res, heq, hres⟩ := Vspace.checkBuffer_eq env.debug onePage ptr length false (by omega)
    (fun h => hne h.2.1)
  rw [Approves, hspace, heq, hres.mpr]
  intro a ha ha'
  apply onePage_accessible
  lia

/-- The pointers of the copy are those that the other thread has written. -/
theorem swapped_reaches : swapped.ReachesCommandline 0x400000 0x38 := by
  have hrecord : swapped.Approves 0x400000 0x38 :=
    approves_onePage rfl (by decide) (by decide) (by decide)
  have hcommandline : swapped.Approves 0x400040 5 :=
    approves_onePage rfl (by decide) (by decide) (by decide)
  refine ⟨⟨hrecord, by decide, ⟨by decide, hcommandline⟩, by decide, ?_⟩, ?_, ?_, by decide,
    by decide⟩
  · intro h
    exact absurd rfl h
  · intro h
    exact absurd rfl h
  · intro h
    exact absurd rfl h

/-- A byte of the kernel becomes the first one of the command line. -/
theorem swapped_reads : ¬ ReadsApproved (swapped.createProcess 0x400000 0x38).events := by
  rw [readsApproved_iff]
  rintro ⟨-, hcommand, -⟩
  have hread : swapped.ReadBy 0xFFFF800000200000 5 0xFFFF800000200000 :=
    ⟨0, by decide, rfl, fun j hj => rfl⟩
  have hchecked := hcommand swapped_reaches 0xFFFF800000200000 hread
  rcases hchecked with ⟨-, h⟩ | ⟨-, h⟩ | ⟨h, -⟩ | ⟨h, -⟩
  · exact absurd h (by decide)
  · exact absurd h (by decide)
  · exact absurd rfl h
  · exact absurd rfl h

end CreateProcessEnv

end UOS
