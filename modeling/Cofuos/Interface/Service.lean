import Cofuos.Lib.Escape
import Cofuos.Lib.Machine

/-!
# System calls and the locks of their caller

A system call is carried out by a `service_provider`, which marks the calling thread critical when
it is constructed, takes the locks of the address space and of the handle table when the call first
needs them, and in its destructor gives back what it still holds and drops the critical mark. While
the mark is set, another thread that kills the caller only leaves a note, and the caller dies when
it drops the mark.

The model keeps, of every service, the operations on the locks of the caller and on its critical
mark in the order in which the source has them, together with everything that decides which of them
are carried out and the value that is returned. What the rest of the kernel does takes locks of its
own and gives them back: it is the operation `work`, and its results are given by the environment
of the call.

The runs of a call interleave its operations with threads that kill the caller. There is one core,
so other threads run only while interrupts are enabled or the caller sleeps.
-/

namespace UOS.Service

/-! ### Operations -/

/-- The locks that the caller of a service may hold. -/
inductive Lock where
  /-- The lock of the address space of its process. -/
  | memory
  /-- The lock of the handle table of its process. -/
  | handles
  /-- The spin lock of a waitable. -/
  | object
  deriving DecidableEq, Repr

/-- What a thread does in a service, as far as its locks and its death are concerned. -/
inductive Op where
  /-- `thread::hold` -/
  | hold
  /-- `thread::drop` -/
  | drop
  /-- Interrupts are disabled by an `interrupt_guard`. -/
  | mask
  /-- Interrupts are enabled when the `interrupt_guard` goes out of scope. -/
  | unmask
  /-- A lock is taken. -/
  | lock (l : Lock)
  /-- A lock is given back. -/
  | unlock (l : Lock)
  /-- The kernel does something that may sleep and that gives back what it locks. -/
  | work
  /-- `waitable::imp_wait` switches to another thread after it has unlocked the object. -/
  | suspend
  /-- `thread::kill(this_thread)` -/
  | kill
  /-- The machine stops, by a `bugcheck` or by `shutdown`. -/
  | halt
  deriving DecidableEq, Repr

/-- Other threads run during an operation even if interrupts are disabled. -/
def Op.blocks : Op → Bool
  | .lock .memory | .lock .handles | .work | .suspend => true
  | _ => false

/-- A lock is taken by an `interrupt_guard` and given back when it goes out of scope. -/
def guarded (l : Lock) : List Op := [.mask, .lock l, .unlock l, .unmask]

/-! ### The environment of a call -/

/-- `OBJTYPE` -/
inductive ObjType where
  | unknown | thread | process | stream | file | pipe | semaphore | event
  deriving DecidableEq, Repr

/-- The value of an `OBJTYPE`. -/
def ObjType.code : ObjType → UInt64
  | .unknown => 0
  | .thread => 1
  | .process => 2
  | .stream => 3
  | .file => 4
  | .pipe => 5
  | .semaphore => 6
  | .event => 7

/-- An object of the handle table, with what decides how waiting for it goes. -/
inductive Object where
  /-- A thread, which may be the caller, and whether it is stopped. -/
  | thread (self stopped : Bool)
  /-- A process, which may be the one of the caller, and whether it is stopped. -/
  | process (self stopped : Bool)
  /-- An event and its state. -/
  | event (state : Bool)
  /-- A semaphore, the number of times that the caller is suspended, and whether the last of
  these times ends with a timeout or an abandoned semaphore. -/
  | semaphore (rounds : ℕ) (expires : Bool)
  /-- A pipe and whether it can be used at once. -/
  | pipe (ready : Bool)
  /-- A file and whether a command is in progress. -/
  | file (command : Bool)
  deriving DecidableEq, Repr

/-- `waitable::type` -/
def Object.type : Object → ObjType
  | .thread _ _ => .thread
  | .process _ _ => .process
  | .event _ => .event
  | .semaphore _ _ => .semaphore
  | .pipe _ => .pipe
  | .file _ => .file

/-- What a service asks of the rest of the kernel. A question with a yes or no answer is answered
by zero or another number. -/
inductive Query where
  /-- `filesystem.set_rw` -/
  | setRw
  /-- `dm.get` for `disk_read` -/
  | diskSlot
  /-- `rtc.get_time` -/
  | time
  /-- The result of `proc.enumerate` and the id that it leaves. -/
  | enumerate | enumerated
  /-- `display.fill`, `display.draw` -/
  | fill | draw
  /-- `handle_table::put`, `handle_table::close` -/
  | put | close
  /-- The id and the priority of a thread, and `thread::set_priority`. -/
  | threadId | priority | setPriority
  /-- `virtual_space::peek` under the mask of `vm_peek` -/
  | peek
  /-- `virtual_space::reserve`, `commit`, `release` and `protect` -/
  | reserve | commit | release | protect
  /-- The memory in use is within the critical limit. -/
  | critical
  /-- `process::spawn` -/
  | spawnThread
  /-- `waitable::check`, the reason with which `waitable::wait` returns, and the results of
  signalling an object. -/
  | check | reason | signalled
  /-- The id, the command line's size and the result of a process, and whether it has one. -/
  | processId | commandSize | hasResult | processResult
  /-- `process_manager::spawn`, `process_manager::find`, and the privilege of the process found. -/
  | spawn | find | privilege
  /-- `process::get_work_dir`, the size of a path, and `process::set_work_dir`. -/
  | workDir | pathSize | setWorkDir
  /-- `object_manager::get`, whether the caller's privilege admits the object, and whether it can
  be acquired. -/
  | named | admitted | acquired
  /-- `stream::state` and `stream::result` packed, `stream::read`, `stream::write` -/
  | state | read | write
  /-- `file::open`, `file::seek` -/
  | fileOpen | seek
  /-- `user_exception` finds room on the user's stack. -/
  | stack
  deriving DecidableEq, Repr

/-- The bits of a page table entry that are looked at. -/
structure Pte where
  /-- The page is present. -/
  present : Bool
  /-- The page may be used in user mode. -/
  user : Bool
  /-- The page may be written to. -/
  write : Bool
  deriving DecidableEq, Repr

/-- `STARTUP_INFO` -/
structure Startup where
  /-- The addresses of the command line, the working directory and the environment. -/
  commandline : UInt64
  workDir : UInt64
  environment : UInt64
  /-- Their lengths. -/
  cmdLength : UInt32
  wdLength : UInt32
  envLength : UInt32
  /-- The privilege that is asked for, or zero. -/
  flags : UInt32
  /-- The handles of the standard streams. -/
  stdHandle : Fin 3 → UInt32

/-- What a call finds. -/
structure Env where
  /-- The privilege of the caller's process. -/
  privilege : UInt8
  /-- The handle table of the caller's process. -/
  handles : UInt32 → Option Object
  /-- The page table of the caller's process, by address. -/
  page : UInt64 → Pte
  /-- The `STARTUP_INFO` that the caller points to. -/
  startup : Startup
  /-- The exception handler of the caller. -/
  userHandler : UInt64
  /-- The answers of the rest of the kernel. -/
  answer : Query → UInt64

/-- `HIGHADDR(0)` -/
def highAddr : UInt64 := 0xFFFF800000000000

/-- `PAGE_SIZE` -/
def pageSize : ℕ := 0x1000

/-- The value of `SHELL` in `PRIVILEGE`. -/
def shell : UInt8 := 0x20

/-- `pack_qword` -/
def packQword (a b : UInt32) : UInt64 := a.toUInt64 ||| (b.toUInt64 <<< 32)

/-! #### Statuses -/

/-- `STATUS` -/
inductive Status where
  | success | failed | badParam | badBuffer | tooSmall | denied | noResource | badHandle | notFound
  deriving DecidableEq, Repr

/-- The value of a `STATUS`. -/
def Status.code : Status → UInt32
  | .success => 0
  | .failed => 0x80000000
  | .badParam => 0x80000001
  | .badBuffer => 0x80000002
  | .tooSmall => 0x80000003
  | .denied => 0x80000005
  | .noResource => 0x80000006
  | .badHandle => 0x80000007
  | .notFound => 0x80000008

/-- A status as the value that a call returns. -/
def Status.value (s : Status) : UInt64 := s.code.toUInt64

/-! ### The service provider -/

/-- `service_provider`, with the operations that have been carried out. -/
structure Provider where
  /-- The caller has dropped its critical mark already. -/
  skipCritical : Bool := false
  /-- The lock of the address space is held. -/
  holdMemory : Bool := false
  /-- The lock of the handle table is held. -/
  holdHandle : Bool := false
  /-- What has been done. -/
  ops : List Op := []
  deriving DecidableEq, Repr

/-- A part of a service. -/
abbrev Serve (α : Type) : Type := Escape Provider α

/-- Operations that are carried out. -/
def emit (ops : List Op) : Serve Unit := Escape.modify fun p => { p with ops := p.ops ++ ops }

/-- Operations after which the service does not return. -/
def leave {α : Type} (ops : List Op) : Serve α := Escape.leave fun p => { p with ops := p.ops ++ ops }

variable (env : Env)

/-- The address space is locked unless it is locked already. -/
def lockMemory : Serve Unit := Escape.modify fun p =>
  if p.holdMemory then p else { p with holdMemory := true, ops := p.ops ++ [.lock .memory] }

/-- The loop of `service_provider::check` over the pages of a buffer. The end of the buffer is
computed modulo `2 ^ 64`. -/
def Env.accessible (ptr : UInt64) (length : UInt32) (write : Bool) : Bool :=
  let tail := (ptr + length.toUInt64).toNat
  let va := ptr.toNat - ptr.toNat % pageSize
  (List.range ((tail - va + (pageSize - 1)) / pageSize)).all fun i =>
    let pt := env.page (UInt64.ofNat (va + i * pageSize))
    pt.present && pt.user && (!write || pt.write)

/-- `service_provider::check` -/
def check (ptr : UInt64) (length : UInt32) (write : Bool) : Serve Bool := do
  lockMemory
  return env.accessible ptr length write

/-- The handle table is locked unless it is locked already. -/
def lockHandles : Serve Unit := Escape.modify fun p =>
  if p.holdHandle then p else { p with holdHandle := true, ops := p.ops ++ [.lock .handles] }

/-- The handle table is unlocked if it is locked. -/
def unlockHandles : Serve Unit := Escape.modify fun p =>
  if p.holdHandle then { p with holdHandle := false, ops := p.ops ++ [.unlock .handles] } else p

/-- The object that `service_provider::get` finds. The table has `0x800` entries. -/
def Env.find (handle : UInt32) (type : ObjType) : Option Object :=
  if handle = 0 ∨ 0x800 ≤ handle then none
  else match env.handles handle with
    | none => none
    | some obj =>
        if type = .unknown ∨ obj.type = type then some obj
        else if type = .stream ∧ (obj.type = .pipe ∨ obj.type = .file) then some obj
        else none

/-- `service_provider::get` -/
def get (handle : UInt32) (type : ObjType) : Serve (Option Object) := do
  lockHandles
  return env.find handle type

/-- What is done with an object that has been found, and what is returned when there is none. -/
def onObject (bad : UInt64) (k : Object → Serve UInt64) : Option Object → Serve UInt64
  | none => return bad
  | some obj => k obj

/-- What is done with the object of a handle. -/
def withObject (handle : UInt32) (type : ObjType) (bad : UInt64) (k : Object → Serve UInt64) :
    Serve UInt64 := do
  onObject bad k (← get env handle type)

/-- What is done with a buffer that can be accessed. -/
def withBuffer (ptr : UInt64) (length : UInt32) (write : Bool) (k : Serve UInt64) :
    Serve UInt64 := do
  if ← check env ptr length write then k else return Status.badBuffer.value

/-- `handle_table::put` of an object, which is relaxed when there is no room for it. -/
def put (done : UInt32 → UInt64) (full : UInt64) : Serve UInt64 := do
  emit (guarded .handles)
  let handle := (env.answer .put).toUInt32
  if handle = 0 then
    emit [.work]
    return full
  else
    return done handle

/-- `handle_table::put` of an object whose handle is returned with a status. -/
def putObject : Serve UInt64 := put env (packQword Status.success.code) Status.noResource.value

/-! ### Services -/

/-- `osctl` -/
def osctl (cmd : UInt32) (buffer : UInt64) (length : UInt32) : Serve UInt64 :=
  if env.privilege > shell then
    return Status.denied.value
  else if cmd = 0 then
    -- `bugcheck`
    withBuffer env buffer length false (leave [.halt])
  else if cmd = 1 then
    -- `halt`
    leave [.work, .halt]
  else if cmd = 2 then
    -- `disk_read`
    withBuffer env buffer length true do
      if length < 0x200 then
        return Status.tooSmall.value
      else
        emit [.work]
        if env.answer .diskSlot = 0 then
          return Status.failed.value
        else
          emit [.work]
          return packQword Status.success.code 1
  else if cmd = 3 then do
    -- `dbgbreak`
    emit [.work]
    return 0
  else if cmd = 4 then do
    -- `set_rw`
    emit [.work]
    return if env.answer .setRw = 0 then Status.failed.value else Status.success.value
  else
    return Status.badParam.value

/-- `os_info`, with the sizes of `OS_INFO` and of the description of the system. -/
def osInfo (buffer : UInt64) (limit : UInt32) : Serve UInt64 :=
  withBuffer env buffer limit true do
    if limit < 0x30 then
      return packQword Status.tooSmall.code (0x30 + 20)
    else
      emit [.work]
      return packQword Status.success.code (if limit < 0x30 + 20 then 0x30 else 0x30 + 20)

/-- `get_time` -/
def getTime : Serve UInt64 := do
  emit [.work]
  return env.answer .time

/-- `enum_process` -/
def enumProcess : Serve UInt64 := do
  emit [.work]
  return packQword (if env.answer .enumerate = 0 then Status.failed.code else Status.success.code)
    (env.answer .enumerated).toUInt32

/-- `display_fill` -/
def displayFill : Serve UInt64 :=
  if env.privilege > shell then
    return Status.denied.value
  else do
    emit [.work]
    return if env.answer .fill = 0 then Status.badParam.value else Status.success.value

/-- `display_draw`, where the rectangle is packed in a `qword`. -/
def displayDraw (buffer val : UInt64) (advance : UInt16) : Serve UInt64 :=
  let left := val.toUInt16
  let top := (val >>> 16).toUInt16
  let right := (val >>> 32).toUInt16
  let bottom := (val >>> 48).toUInt16
  let width := right.toNat - left.toNat
  let length := (width + advance.toNat * (bottom.toNat - top.toNat - 1)) * 4
  if env.privilege > shell then
    return Status.denied.value
  else if right ≤ left ∨ bottom ≤ top ∨ advance.toNat < width then
    return Status.badParam.value
  else
    withBuffer env buffer (UInt32.ofNat length) false do
      emit [.work]
      return if env.answer .draw = 0 then Status.badParam.value else Status.success.value

/-- `get_thread` -/
def getThread : Serve UInt64 := do
  emit (guarded .object)
  put env UInt32.toUInt64 0

/-- `thread_id` -/
def threadId (handle : UInt32) : Serve UInt64 :=
  withObject env handle .thread 0 fun _ => return env.answer .threadId

/-- `get_handler` -/
def getHandler : Serve UInt64 := return env.userHandler

/-- `get_priority` -/
def getPriority (handle : UInt32) : Serve UInt64 :=
  withObject env handle .thread Status.badHandle.value fun _ => return env.answer .priority

/-- `exit_thread` -/
def exitThread : Serve UInt64 := leave [.drop, .kill, .halt]

/-- `kill_thread` -/
def killThread (handle : UInt32) : Serve UInt64 :=
  withObject env handle .thread Status.badHandle.value fun obj =>
    match obj with
    | .thread true _ => exitThread
    | _ => do
        emit (guarded .object)
        return Status.success.value

/-- `set_handler` -/
def setHandler (handler : UInt64) : Serve UInt64 :=
  if handler &&& highAddr ≠ 0 then return Status.badParam.value else return Status.success.value

/-- `set_priority`, with the priorities of the shell and of the idle thread. -/
def setPriority (handle : UInt32) (val : UInt8) : Serve UInt64 :=
  withObject env handle .thread Status.badHandle.value fun _ =>
    if val ≥ 0x0F ∨ val < 5 then return Status.badParam.value
    else if val ≤ 5 ∧ env.privilege > shell then return Status.denied.value
    else return if env.answer .setPriority = 0 then Status.badParam.value else Status.success.value

/-- `create_thread` -/
def createThread (entry : UInt64) : Serve UInt64 :=
  if entry &&& highAddr ≠ 0 then return Status.badParam.value
  else do
    emit (guarded .memory)
    if env.answer .reserve = 0 then return Status.noResource.value
    else
      emit (guarded .memory)
      if env.answer .commit = 0 then
        emit (guarded .memory)
        return Status.noResource.value
      else if env.answer .spawnThread = 0 then
        -- the process is stopped, and the pointer that is relaxed is null
        leave [.halt]
      else
        emit (guarded .object)
        putObject env

/-- `sleep` -/
def sleep : Serve UInt64 := do
  emit [.work]
  return 0

/-- The callback of `wait_for`: the handle table is unlocked and the critical mark is dropped. -/
def callback : List Op := [.unlock .handles, .drop]

/-- `waitable::imp_wait` under the `interrupt_guard` of its caller. -/
def impWait : List Op := [.unlock .object, .suspend, .unmask]

/-- The rounds of the loop of `semaphore::wait` after the callback has been called. -/
def semaphoreRounds (expires : Bool) : ℕ → List Op
  | 0 => [.unlock .object, .unmask]
  | 1 => impWait ++ if expires then [] else [.mask, .lock .object, .unlock .object, .unmask]
  | rounds + 2 => impWait ++ [.mask, .lock .object] ++ semaphoreRounds expires (rounds + 1)

/-- The object is waited for without its lock, because it is signalled. -/
def Object.passes : Object → Bool
  | .thread _ stopped => stopped
  | .process _ stopped => stopped
  | .event state => state
  | _ => false

/-- What `wait` of the object does after the callback has been called under its lock. -/
def Object.waitLocked : Object → List Op
  | .semaphore rounds expires => semaphoreRounds expires rounds
  | .pipe ready => if ready then [.unlock .object, .unmask] else impWait
  | .file command => if command then impWait else [.unlock .object, .unmask]
  | _ => impWait

/-- `wait` of the object, with the callback of `wait_for`. -/
def Object.wait (obj : Object) : List Op :=
  if obj.passes then callback else [.mask, .lock .object] ++ callback ++ obj.waitLocked

/-- `check` of the object, which only a semaphore does under its lock. -/
def Object.check : Object → List Op
  | .semaphore _ _ => guarded .object
  | _ => []

/-- `wait_for` -/
def waitFor (handle : UInt32) (nowait : UInt32) : Serve UInt64 :=
  withObject env handle .unknown Status.badHandle.value fun obj =>
    if nowait ≠ 0 then do
      emit obj.check
      return if env.answer .check = 0 then 0 else 1
    else match obj with
      | .thread true _ => return Status.failed.value
      | _ => do
          Escape.modify fun p =>
            { p with holdHandle := false, skipCritical := true, ops := p.ops ++ obj.wait }
          return env.answer .reason

/-- `signal` -/
def signal (handle : UInt32) (mode : UInt32) : Serve UInt64 :=
  withObject env handle .unknown Status.badHandle.value fun obj =>
    match obj with
    | .semaphore _ _ => do
        emit (guarded .object)
        return env.answer .signalled
    | .event _ => do
        emit (guarded .object)
        return if mode = 0 then 0 else env.answer .signalled
    | _ => return Status.badHandle.value

/-- `get_process` -/
def getProcess : Serve UInt64 := do
  emit (guarded .object)
  put env UInt32.toUInt64 0

/-- `process_id` -/
def processId (handle : UInt32) : Serve UInt64 :=
  withObject env handle .process 0 fun _ => return env.answer .processId

/-- `process_info`, with the size of `PROCESS_INFO`. -/
def processInfo (handle : UInt32) (buffer : UInt64) (limit : UInt32) : Serve UInt64 :=
  withObject env handle .process Status.badHandle.value fun _ =>
    withBuffer env buffer limit true
      (if limit < 0x28 then return packQword Status.tooSmall.code 0x28
      else return packQword Status.success.code 0x28)

/-- `get_command` -/
def getCommand (handle : UInt32) (buffer : UInt64) (limit : UInt32) : Serve UInt64 :=
  withObject env handle .process Status.badHandle.value fun _ =>
    withBuffer env buffer limit true
      (let size := (env.answer .commandSize).toUInt32
      if limit < size then return packQword Status.tooSmall.code size
      else return packQword Status.success.code size)

/-- `exit_process`, which kills the other threads of the process under its lock. -/
def exitProcess : Serve UInt64 := leave ([.drop] ++ guarded .object ++ [.kill, .halt])

/-- `kill_process` -/
def killProcess (handle : UInt32) : Serve UInt64 :=
  withObject env handle .process Status.badHandle.value fun obj =>
    match obj with
    | .process true _ => exitProcess
    | _ => do
        emit (guarded .object)
        return Status.success.value

/-- `process_result` -/
def processResult (handle : UInt32) : Serve UInt64 :=
  withObject env handle .process Status.badHandle.value fun _ =>
    if env.answer .hasResult = 0 then return Status.failed.value
    else return packQword Status.success.code (env.answer .processResult).toUInt32

/-- A string that `create_process` is given beside the command line. -/
def startupString (ptr : UInt64) (length : UInt32) (k : Serve UInt64) : Serve UInt64 :=
  if ptr = 0 then k
  else if pageSize < length.toNat then return Status.badParam.value
  else withBuffer env ptr length false k

/-- The loop of `create_process` over the standard streams that are left. -/
def stdStreams (k : Serve UInt64) : List (Fin 3) → Serve UInt64
  | [] => k
  | i :: rest =>
      if env.startup.stdHandle i = 0 then stdStreams k rest
      else withObject env (env.startup.stdHandle i) .stream Status.badHandle.value fun _ =>
        stdStreams k rest

/-- `create_process` once its arguments have been found to be in order. -/
def spawnProcess : Serve UInt64 := do
  emit [.work]
  if env.answer .spawn = 0 then return Status.notFound.value
  else
    unlockHandles
    putObject env

/-- `create_process`, with the size of `STARTUP_INFO`. -/
def createProcess (ptr : UInt64) (length : UInt32) : Serve UInt64 :=
  let info := env.startup
  withBuffer env ptr length false <|
    if length < 0x38 then return Status.badBuffer.value
    else if pageSize < info.cmdLength.toNat then return Status.badParam.value
    else withBuffer env info.commandline info.cmdLength false <|
      if info.cmdLength = 0 then return Status.badBuffer.value
      else startupString env info.workDir info.wdLength <|
        startupString env info.environment info.envLength <|
          if info.flags ≠ 0 ∧ info.flags.toUInt8 < env.privilege then return Status.denied.value
          else stdStreams env (spawnProcess env) [0, 1, 2]

/-- `open_process` -/
def openProcess : Serve UInt64 := do
  emit [.work]
  if env.answer .find = 0 then return Status.badParam.value
  else if env.privilege > (env.answer .privilege).toUInt8 then
    emit [.work]
    return Status.denied.value
  else
    putObject env

/-- The process is locked while its working directory is used; interrupts stay enabled. -/
def workDirLocked : List Op := [.lock .object, .work, .unlock .object]

/-- `get_work_dir` -/
def getWorkDir (buffer : UInt64) (length : UInt32) : Serve UInt64 :=
  withBuffer env buffer length true do
    emit workDirLocked
    if env.answer .workDir = 0 then return packQword Status.success.code 0
    else
      emit [.work]
      let size := (env.answer .pathSize).toUInt32
      return packQword (if length < size then Status.tooSmall.code else Status.success.code) size

/-- `set_work_dir` -/
def setWorkDir (buffer : UInt64) (length : UInt32) : Serve UInt64 :=
  withBuffer env buffer length false <|
    if pageSize < length.toNat then return Status.badParam.value
    else do
      emit workDirLocked
      return if env.answer .setWorkDir = 0 then Status.failed.value else Status.success.value

/-- `handle_type` -/
def handleType (handle : UInt32) : Serve UInt64 :=
  withObject env handle .unknown ObjType.unknown.code fun obj => return obj.type.code

/-- `open_handle` -/
def openHandle (buffer : UInt64) (length : UInt32) : Serve UInt64 :=
  withBuffer env buffer length false <|
    if length = 0 then return Status.badBuffer.value
    else do
      emit [.work]
      if env.answer .named = 0 then return Status.notFound.value
      else if env.answer .admitted = 0 then return Status.denied.value
      else
        emit (guarded .object)
        if env.answer .acquired = 0 then return Status.notFound.value
        else putObject env

/-- `close_handle` -/
def closeHandle (handle : UInt32) : Serve UInt64 :=
  if handle = 0 ∨ 0x800 ≤ handle then return Status.badHandle.value
  else do
    emit (guarded .handles)
    if env.answer .close = 0 then return Status.badHandle.value
    else
      emit [.work]
      return Status.success.value

/-- `create_object` -/
def createObject (type : UInt32) (a1 : UInt64) : Serve UInt64 :=
  if (type = 6 ∧ a1 ≠ 0) ∨ type = 7 ∨ (type = 5 ∧ a1 ≥ 0x10) then do
    emit (guarded .object)
    putObject env
  else
    return Status.badParam.value

/-- `vm_peek` -/
def vmPeek : Serve UInt64 := return env.answer .peek

/-- `vm_protect` -/
def vmProtect : Serve UInt64 := do
  emit (guarded .memory)
  return if env.answer .protect = 0 then Status.badParam.value else Status.success.value

/-- `vm_reserve` -/
def vmReserve : Serve UInt64 := do
  emit (guarded .memory)
  return env.answer .reserve

/-- `vm_commit` -/
def vmCommit : Serve UInt64 := do
  emit (guarded .memory)
  if env.answer .commit ≠ 0 then return Status.success.value
  else if env.answer .critical ≠ 0 then return Status.noResource.value
  else return Status.badParam.value

/-- `vm_release` -/
def vmRelease : Serve UInt64 := do
  emit (guarded .memory)
  return if env.answer .release = 0 then Status.badParam.value else Status.success.value

/-- `result` of a stream, which a file reads under its lock. -/
def Object.result : Object → List Op
  | .file _ => guarded .object
  | _ => []

/-- `stream_state` -/
def streamState (handle : UInt32) : Serve UInt64 :=
  withObject env handle .stream Status.badHandle.value fun obj => do
    emit obj.result
    return env.answer .state

/-- `read` or `write` of a stream; the command of a file is handed to the file system. -/
def Object.transfer : Object → List Op
  | .file _ => guarded .object ++ [.work]
  | _ => guarded .object

/-- `stream_read` and `stream_write`, which differ in the access to the buffer. -/
def streamTransfer (write : Bool) (query : Query) (handle : UInt32) (buffer : UInt64)
    (length : UInt32) : Serve UInt64 :=
  withObject env handle .stream Status.badHandle.value fun obj =>
    withBuffer env buffer length write do
      emit obj.transfer
      return packQword Status.success.code (env.answer query).toUInt32

/-- `stream_read` -/
def streamRead : UInt32 → UInt64 → UInt32 → Serve UInt64 := streamTransfer env true .read

/-- `stream_write` -/
def streamWrite : UInt32 → UInt64 → UInt32 → Serve UInt64 := streamTransfer env false .write

/-- `file_open` -/
def fileOpen (name : UInt64) (length : UInt32) : Serve UInt64 :=
  if pageSize < length.toNat then return Status.badParam.value
  else withBuffer env name length false <|
    if length = 0 then return Status.badBuffer.value
    else do
      emit [.work]
      if env.answer .fileOpen = 0 then return Status.notFound.value
      else putObject env

/-- `file_tell` -/
def fileTell (handle : UInt32) (buffer : UInt64) : Serve UInt64 :=
  withObject env handle .file Status.badHandle.value fun _ =>
    withBuffer env buffer 16 true do
      emit [.work]
      return Status.success.value

/-- `file_seek` -/
def fileSeek (handle : UInt32) (mode : UInt32) : Serve UInt64 :=
  withObject env handle .file Status.badHandle.value fun _ =>
    if mode ≠ 0 then return Status.badParam.value
    else do
      emit (guarded .object)
      return if env.answer .seek = 0 then Status.failed.value else Status.success.value

/-- `file_setsize`, `file_info`, `file_change` and `file_move`, which are not implemented. -/
def notImplemented : Serve UInt64 := leave [.halt]

/-- `file_path` -/
def filePath (handle : UInt32) (buffer : UInt64) (length : UInt32) : Serve UInt64 :=
  withBuffer env buffer length true <|
    withObject env handle .file Status.badHandle.value fun _ => do
      emit [.work]
      let size := (env.answer .pathSize).toUInt32
      return packQword (if length < size then Status.tooSmall.code else Status.success.code) size

/-- A command that is not a service: the caller's exception handler is entered, or its process is
killed. -/
def badCommand : Serve UInt64 :=
  if env.userHandler = 0 ∨ env.userHandler &&& highAddr ≠ 0 then exitProcess
  else do
    emit (guarded .memory)
    if env.answer .stack = 0 then exitProcess else return 0

/-! ### Dispatch -/

/-- `service_code` -/
inductive Code where
  | osctl | osInfo | getTime | enumProcess | displayFill | displayDraw | getThread | threadId
  | getHandler | getPriority | exitThread | killThread | setHandler | setPriority | createThread
  | sleep | waitFor | signal | getProcess | processId | processInfo | getCommand | exitProcess
  | killProcess | processResult | createProcess | openProcess | getWorkDir | setWorkDir
  | handleType | openHandle | closeHandle | createObject | vmPeek | vmProtect | vmReserve
  | vmCommit | vmRelease | streamState | streamRead | streamWrite | fileOpen | fileTell | fileSeek
  | fileSetsize | filePath | fileInfo | fileChange | fileMove
  deriving DecidableEq, Repr

/-- The service of a command. -/
def Code.ofDword (cmd : UInt32) : Option Code :=
  match cmd.toNat with
  | 0x0000 => some .osctl
  | 0x0008 => some .osInfo
  | 0x000C => some .getTime
  | 0x0010 => some .enumProcess
  | 0x0020 => some .displayFill
  | 0x0028 => some .displayDraw
  | 0x0100 => some .getThread
  | 0x0104 => some .threadId
  | 0x0108 => some .getHandler
  | 0x010C => some .getPriority
  | 0x0110 => some .exitThread
  | 0x0114 => some .killThread
  | 0x0118 => some .setHandler
  | 0x011C => some .setPriority
  | 0x0120 => some .createThread
  | 0x0130 => some .sleep
  | 0x0134 => some .waitFor
  | 0x0138 => some .signal
  | 0x0200 => some .getProcess
  | 0x0204 => some .processId
  | 0x0208 => some .processInfo
  | 0x020C => some .getCommand
  | 0x0210 => some .exitProcess
  | 0x0214 => some .killProcess
  | 0x0218 => some .processResult
  | 0x0220 => some .createProcess
  | 0x0224 => some .openProcess
  | 0x0228 => some .getWorkDir
  | 0x022C => some .setWorkDir
  | 0x0300 => some .handleType
  | 0x0304 => some .openHandle
  | 0x0308 => some .closeHandle
  | 0x030C => some .createObject
  | 0x0400 => some .vmPeek
  | 0x0408 => some .vmProtect
  | 0x0410 => some .vmReserve
  | 0x0414 => some .vmCommit
  | 0x041C => some .vmRelease
  | 0x0500 => some .streamState
  | 0x0508 => some .streamRead
  | 0x050C => some .streamWrite
  | 0x0600 => some .fileOpen
  | 0x0604 => some .fileTell
  | 0x0608 => some .fileSeek
  | 0x060C => some .fileSetsize
  | 0x0610 => some .filePath
  | 0x0614 => some .fileInfo
  | 0x0618 => some .fileChange
  | 0x061C => some .fileMove
  | _ => none

/-- The service that `kernel_service` calls. -/
def dispatch (a1 a2 a3 : UInt64) : Code → Serve UInt64
  | .osctl => osctl env a1.toUInt32 a2 a3.toUInt32
  | .osInfo => osInfo env a1 a2.toUInt32
  | .getTime => getTime env
  | .enumProcess => enumProcess env
  | .displayFill => displayFill env
  | .displayDraw => displayDraw env a1 a2 a3.toUInt16
  | .getThread => getThread env
  | .threadId => threadId env a1.toUInt32
  | .getHandler => getHandler env
  | .getPriority => getPriority env a1.toUInt32
  | .exitThread => exitThread
  | .killThread => killThread env a1.toUInt32
  | .setHandler => setHandler a1
  | .setPriority => setPriority env a1.toUInt32 a2.toUInt8
  | .createThread => createThread env a1
  | .sleep => sleep
  | .waitFor => waitFor env a1.toUInt32 a3.toUInt32
  | .signal => signal env a1.toUInt32 a2.toUInt32
  | .getProcess => getProcess env
  | .processId => processId env a1.toUInt32
  | .processInfo => processInfo env a1.toUInt32 a2 a3.toUInt32
  | .getCommand => getCommand env a1.toUInt32 a2 a3.toUInt32
  | .exitProcess => exitProcess
  | .killProcess => killProcess env a1.toUInt32
  | .processResult => processResult env a1.toUInt32
  | .createProcess => createProcess env a1 a2.toUInt32
  | .openProcess => openProcess env
  | .getWorkDir => getWorkDir env a1 a2.toUInt32
  | .setWorkDir => setWorkDir env a1 a2.toUInt32
  | .handleType => handleType env a1.toUInt32
  | .openHandle => openHandle env a1 a2.toUInt32
  | .closeHandle => closeHandle env a1.toUInt32
  | .createObject => createObject env a1.toUInt32 a2
  | .vmPeek => vmPeek env
  | .vmProtect => vmProtect env
  | .vmReserve => vmReserve env
  | .vmCommit => vmCommit env
  | .vmRelease => vmRelease env
  | .streamState => streamState env a1.toUInt32
  | .streamRead => streamRead env a1.toUInt32 a2 a3.toUInt32
  | .streamWrite => streamWrite env a1.toUInt32 a2 a3.toUInt32
  | .fileOpen => fileOpen env a1 a2.toUInt32
  | .fileTell => fileTell env a1.toUInt32 a2
  | .fileSeek => fileSeek env a1.toUInt32 a3.toUInt32
  | .filePath => filePath env a1.toUInt32 a2 a3.toUInt32
  | .fileSetsize | .fileInfo | .fileChange | .fileMove => notImplemented

/-- The destructor of the service provider. -/
def Provider.destroy (p : Provider) : List Op :=
  (if p.holdMemory then [.unlock .memory] else []) ++
    (if p.holdHandle then [.unlock .handles] else []) ++
    if p.skipCritical then [] else [.drop]

/-- All that has been done for a service when it is over. The destructor of the provider is not
called for a service that does not return. -/
def Serve.complete (f : Serve UInt64) (p : Provider) : List Op :=
  match f p with
  | (some _, p') => p'.ops ++ p'.destroy
  | (none, p') => p'.ops

/-- All that is done for a service, from the constructor of the provider on. -/
def Serve.trace (f : Serve UInt64) : List Op := f.complete { ops := [.hold] }

/-- `kernel_service` -/
def kernelService (cmd : UInt32) (a1 a2 a3 : UInt64) : List Op :=
  match Code.ofDword cmd with
  | some code => Serve.trace (dispatch env a1 a2 a3 code)
  | none => Serve.trace (badCommand env)

/-! ### The caller -/

/-- What a thread holds. -/
structure Grip where
  /-- How often each of the locks is held. -/
  memory : ℕ := 0
  handles : ℕ := 0
  object : ℕ := 0
  /-- The critical mark is set. -/
  critical : Bool := false
  /-- Interrupts are disabled. -/
  masked : Bool := false
  deriving DecidableEq, Repr

/-- No lock is held. -/
def Grip.free (g : Grip) : Bool := g.memory = 0 && g.handles = 0 && g.object = 0

/-- The effect of an operation of a thread that survives it. -/
def Grip.exec (g : Grip) : Op → Grip
  | .hold => { g with critical := true }
  | .drop => { g with critical := false }
  | .mask => { g with masked := true }
  | .unmask => { g with masked := false }
  | .lock .memory => { g with memory := g.memory + 1 }
  | .lock .handles => { g with handles := g.handles + 1 }
  | .lock .object => { g with object := g.object + 1 }
  | .unlock .memory => { g with memory := g.memory - 1 }
  | .unlock .handles => { g with handles := g.handles - 1 }
  | .unlock .object => { g with object := g.object - 1 }
  | .work | .suspend | .kill | .halt => g

/-- A thread in a system call. -/
structure Caller where
  /-- What it holds. -/
  grip : Grip := {}
  /-- Another thread has asked for its death while it was critical. -/
  kill : Bool := false
  /-- It has been switched out for the last time. -/
  gone : Bool := false
  /-- What it has yet to do. -/
  todo : List Op
  deriving DecidableEq, Repr

namespace Caller

/-- The caller carries out an operation. -/
def run (s : Caller) : Option Caller :=
  match s.todo with
  | [] => none
  | .halt :: _ => none
  | .drop :: rest => some { s with grip := s.grip.exec .drop, gone := s.kill, todo := rest }
  | .kill :: rest =>
      -- a critical thread only leaves itself a note
      if s.grip.critical then some { s with kill := true, todo := rest }
      else some { s with gone := true, todo := rest }
  | op :: rest => some { s with grip := s.grip.exec op, todo := rest }

/-- Other threads can run: interrupts are enabled, or the caller is about to sleep. -/
def interruptible (s : Caller) : Bool :=
  !s.grip.masked || s.todo.head?.any Op.blocks

/-- `thread::kill` of the caller, by another thread. -/
def killed (s : Caller) : Caller :=
  if s.grip.critical then { s with kill := true } else { s with gone := true }

/-- What can happen while the caller is in a system call. -/
inductive Action where
  /-- The caller goes on. -/
  | run
  /-- Another thread kills the caller. -/
  | killed
  deriving DecidableEq, Repr

/-- What happens to a caller that is not gone. -/
def step (s : Caller) : Action → Option Caller
  | .run => if s.gone then none else s.run
  | .killed => if s.gone || !s.interruptible then none else some s.killed

end Caller

/-- The runs of a system call. -/
def machine (cmd : UInt32) (a1 a2 a3 : UInt64) : Machine Caller Caller.Action where
  Start s := s = { todo := kernelService env cmd a1 a2 a3 }
  step := Caller.step

end UOS.Service
