import Cofuos.Interface.Service

/-!
# The locks of a caller that dies

A caller that dies must not hold a lock. `Grip.after` carries out operations on what a thread holds
and refuses those at which the thread may die with a lock: dropping the critical mark, killing
itself, and, for a thread that is not critical, whatever is done with interrupts enabled. The
operations of a service that are not refused leave no lock behind in any run, and the services are
gone through one by one. Two services kill their caller while the handle table is locked, and one
lets it die under the lock of the object that it waits for.
-/

namespace UOS.Service

/-! ### Operations that are safe to die in -/

/-- A critical thread may die in an operation. -/
def Op.deadly : Op → Bool
  | .drop | .kill => true
  | _ => false

/-- The thread does not die in an operation, or it holds no lock. -/
def Grip.allows (g : Grip) (op : Op) : Bool :=
  g.free || (!op.deadly && (g.critical || (g.masked && !op.blocks)))

/-- What the thread holds after operations, all of which are allowed. -/
def Grip.after (g : Grip) : List Op → Option Grip
  | [] => some g
  | op :: rest => if g.allows op then (g.exec op).after rest else none

/-- Operations that follow each other. -/
theorem Grip.after_append (g : Grip) (l l' : List Op) :
  g.after (l ++ l') = (g.after l).bind (·.after l')
  := by
  induction l generalizing g with
  | nil => rfl
  | cons op rest ih =>
      rw [List.cons_append, Grip.after, Grip.after]
      split
      · apply ih
      · rfl

/-- What a thread holds it may hold when others run. -/
def Grip.Settled (g : Grip) : Prop := g.critical = true ∨ g.free = true

/-- Operations that leave no lock behind wherever the thread dies. -/
def Tidy (l : List Op) : Prop := ∃ g, Grip.after {} l = some g ∧ g.Settled

/-- Dropping the mark and killing itself are allowed only to a thread without locks. -/
theorem Grip.free_of_allows {g : Grip} {op : Op} (h : g.allows op = true) (hop : op.deadly = true) :
  g.free = true
  := by
  simpa [Grip.allows, hop] using h

/-- A thread that is allowed an operation during which others run is critical or holds no lock. -/
theorem Grip.settled_of_allows {g : Grip} {op : Op} (h : g.allows op = true)
    (hint : (!g.masked || op.blocks) = true) :
  g.Settled
  := by
  cases hfree : g.free with
  | true => exact .inr hfree
  | false =>
      left
      rw [Grip.allows, hfree, Bool.false_or, Bool.and_eq_true] at h
      -- interrupts are disabled and the operation does not block, or the mark is set
      revert h hint
      cases g.masked <;> cases op.blocks <;> simp

namespace Caller

/-- The caller is gone without a lock, or what it has yet to do leaves none behind. -/
def Clean (s : Caller) : Prop :=
  if s.gone then s.grip.free = true else ∃ g, s.grip.after s.todo = some g ∧ g.Settled

variable {s s' : Caller}

theorem Clean.of_gone (h : s.Clean) (hgone : s.gone = true) : s.grip.free = true := by
  rw [Clean, if_pos hgone] at h
  exact h

theorem Clean.of_not_gone (h : s.Clean) (hgone : s.gone = false) :
  ∃ g, s.grip.after s.todo = some g ∧ g.Settled
  := by
  rw [Clean, if_neg (by rw [hgone]; exact Bool.false_ne_true)] at h
  exact h

theorem clean_of_gone (hgone : s.gone = true) (h : s.grip.free = true) : s.Clean := by
  rw [Clean, if_pos hgone]
  exact h

theorem clean_of_not_gone (hgone : s.gone = false)
    (h : ∃ g, s.grip.after s.todo = some g ∧ g.Settled) :
  s.Clean
  := by
  rw [Clean, if_neg (by rw [hgone]; exact Bool.false_ne_true)]
  exact h

/-- The next operation is allowed, and so are those after it. -/
theorem Clean.uncons {op : Op} {rest : List Op} (h : s.Clean) (hgone : s.gone = false)
    (htodo : s.todo = op :: rest) :
  s.grip.allows op = true ∧ ∃ g, (s.grip.exec op).after rest = some g ∧ g.Settled
  := by
  obtain ⟨g, hg, hsettled⟩ := h.of_not_gone hgone
  rw [htodo, Grip.after] at hg
  split at hg
  · rename_i hallows
    exact ⟨hallows, g, hg, hsettled⟩
  · cases hg

/-- An operation that is carried out keeps the caller clean. -/
theorem Clean.run (h : s.Clean) (hgone : s.gone = false) (hs : s.run = some s') : s'.Clean := by
  rw [Caller.run] at hs
  split at hs
  · cases hs
  · cases hs
  · rename_i rest htodo
    obtain ⟨hallows, hrest⟩ := h.uncons hgone htodo
    cases hs
    by_cases hkill : s.kill = true
    · apply clean_of_gone hkill
      change s.grip.free = true
      exact Grip.free_of_allows hallows rfl
    · apply clean_of_not_gone
      · exact eq_false_of_ne_true hkill
      · exact hrest
  · rename_i rest htodo
    obtain ⟨hallows, hrest⟩ := h.uncons hgone htodo
    split at hs
    · cases hs
      exact clean_of_not_gone hgone hrest
    · cases hs
      apply clean_of_gone rfl
      exact Grip.free_of_allows hallows rfl
  · rename_i op rest _ _ _ htodo
    obtain ⟨-, hrest⟩ := h.uncons hgone htodo
    cases hs
    exact clean_of_not_gone hgone hrest

/-- While others run, a clean caller is critical or holds no lock. -/
theorem Clean.settled (h : s.Clean) (hgone : s.gone = false) (hint : s.interruptible = true) :
  s.grip.Settled
  := by
  cases htodo : s.todo with
  | nil =>
      obtain ⟨g, hg, hsettled⟩ := h.of_not_gone hgone
      rw [htodo, Grip.after] at hg
      cases hg
      exact hsettled
  | cons op rest =>
      obtain ⟨hallows, -⟩ := h.uncons hgone htodo
      rw [interruptible, htodo, List.head?_cons, Option.any_some] at hint
      exact Grip.settled_of_allows hallows hint

/-- A request for its death keeps the caller clean. -/
theorem Clean.killed (h : s.Clean) (hgone : s.gone = false) (hint : s.interruptible = true) :
  s.killed.Clean
  := by
  rw [Caller.killed]
  split
  · exact clean_of_not_gone hgone (h.of_not_gone hgone)
  · rename_i hcritical
    apply clean_of_gone rfl
    exact (h.settled hgone hint).resolve_left hcritical

/-- Everything that happens keeps the caller clean. -/
theorem Clean.step {a : Action} (h : s.Clean) (hs : s.step a = some s') : s'.Clean := by
  cases a with
  | run =>
      rw [Caller.step] at hs
      split at hs
      · cases hs
      · rename_i hgone
        exact h.run (eq_false_of_ne_true hgone) hs
  | killed =>
      rw [Caller.step] at hs
      split at hs
      · cases hs
      · rename_i hcond
        rw [Bool.or_eq_true, not_or] at hcond
        cases hs
        apply h.killed (eq_false_of_ne_true hcond.1)
        cases hint : s.interruptible with
        | true => rfl
        | false =>
            rw [hint] at hcond
            exact absurd rfl hcond.2

end Caller

/-- A call whose operations are tidy leaves no lock behind in any run. -/
theorem clean_of_tidy {env : Env} {cmd : UInt32} {a1 a2 a3 : UInt64} {s : Caller}
    (h : Tidy (kernelService env cmd a1 a2 a3))
    (hs : (machine env cmd a1 a2 a3).Reachable Machine.anyStep s) :
  s.Clean
  := by
  apply hs.invariant
  · rintro s rfl
    exact Caller.clean_of_not_gone rfl h
  · intro s a s' hclean _ hstep
    exact hclean.step hstep

/-! ### Services that keep their locks in order -/

/-- What the provider holds. -/
def Provider.grip (p : Provider) : Grip where
  memory := if p.holdMemory then 1 else 0
  handles := if p.holdHandle then 1 else 0
  critical := true

/-- The provider is between two operations of a service and knows what it holds. -/
structure Ready (p : Provider) : Prop where
  /-- The operations have been allowed and have led to what the provider holds. -/
  after : Grip.after {} p.ops = some p.grip
  /-- The destructor drops the critical mark. -/
  critical : p.skipCritical = false

/-- A service that has left has been tidy. -/
def Left (p : Provider) : Prop := Tidy p.ops

/-- A service, or a part of it, that keeps its locks in order. -/
def Plain {α : Type} (f : Serve α) : Prop := Escape.Triple Ready f Ready Left

/-- Operations that give back what they take. -/
def Balanced (l : List Op) : Prop :=
  ∀ g : Grip, g.critical = true → g.masked = false → g.after l = some g

/-- A critical thread may do everything but drop the mark or kill itself. -/
theorem Grip.allows_of_critical {g : Grip} (h : g.critical = true) (op : Op)
    (hop : op.deadly = false) :
  g.allows op = true
  := by
  simp [Grip.allows, h, hop]

theorem balanced_nil : Balanced [] := fun _ _ _ => rfl

theorem balanced_work : Balanced [.work] := by
  intro g hcritical _
  rw [Grip.after, if_pos (Grip.allows_of_critical hcritical .work rfl)]
  rfl

theorem Balanced.append {l l' : List Op} (h : Balanced l) (h' : Balanced l') : Balanced (l ++ l') := by
  intro g hcritical hmasked
  rw [Grip.after_append, h g hcritical hmasked, Option.bind_some, h' g hcritical hmasked]

theorem balanced_guarded (l : Lock) : Balanced (guarded l) := by
  intro g hcritical hmasked
  obtain ⟨memory, handles, object, critical, masked⟩ := g
  cases hcritical
  cases hmasked
  cases l <;> simp [guarded, Grip.after, Grip.allows, Grip.exec, Op.deadly]

theorem balanced_workDirLocked : Balanced workDirLocked := by
  intro g hcritical hmasked
  obtain ⟨memory, handles, object, critical, masked⟩ := g
  cases hcritical
  cases hmasked
  simp [workDirLocked, Grip.after, Grip.allows, Grip.exec, Op.deadly]

theorem Object.balanced_check (obj : Object) : Balanced obj.check := by
  cases obj with
  | semaphore rounds expires => exact balanced_guarded .object
  | thread _ _ | process _ _ | event _ | pipe _ | file _ => exact balanced_nil

theorem Object.balanced_result (obj : Object) : Balanced obj.result := by
  cases obj with
  | file command => exact balanced_guarded .object
  | thread _ _ | process _ _ | event _ | pipe _ | semaphore _ _ => exact balanced_nil

theorem Object.balanced_transfer (obj : Object) : Balanced obj.transfer := by
  cases obj with
  | file command => exact (balanced_guarded .object).append balanced_work
  | thread _ _ | process _ _ | event _ | pipe _ | semaphore _ _ => exact balanced_guarded .object

variable {env : Env} {α β : Type} {f g : Serve α} {p : Provider}

/-- Returning a value. -/
theorem plain_pure (a : α) : Plain (pure a : Serve α) := Escape.Triple.pure a

/-- One part of a service after another. -/
theorem Plain.bind {k : α → Serve β} (hf : Plain f) (hk : ∀ a, Plain (k a)) : Plain (f >>= k) :=
  Escape.Triple.bind hf hk

/-- A choice in a service. -/
theorem Plain.ite {c : Prop} [Decidable c] (hf : Plain f) (hg : Plain g) :
  Plain (if c then f else g)
  :=
  Escape.Triple.ite (fun _ => hf) (fun _ => hg)

/-- Operations that give back what they take keep the locks in order. -/
theorem plain_emit {l : List Op} (h : Balanced l) : Plain (emit l) := by
  apply Escape.Triple.modify
  intro p hp
  constructor
  · rw [Grip.after_append, hp.after, Option.bind_some, h p.grip rfl rfl]
    rfl
  · exact hp.critical

/-- Operations after which the machine stops. -/
theorem plain_leave {l : List Op} (h : Balanced l) : Plain (leave (l ++ [.halt]) : Serve α) := by
  apply Escape.Triple.leave
  intro p hp
  refine ⟨p.grip, ?_, .inl rfl⟩
  rw [Grip.after_append, hp.after, Option.bind_some, Grip.after_append, h p.grip rfl rfl,
    Option.bind_some, Grip.after, if_pos (Grip.allows_of_critical rfl .halt rfl)]
  rfl

/-- One more operation of a critical thread. -/
theorem after_concat {g : Grip} {l : List Op} (h : Grip.after {} l = some g)
    (hcritical : g.critical = true) (op : Op) (hop : op.deadly = false) :
  Grip.after {} (l ++ [op]) = some (g.exec op)
  := by
  rw [Grip.after_append, h, Option.bind_some, Grip.after,
    if_pos (Grip.allows_of_critical hcritical op hop)]
  rfl

theorem plain_lockMemory : Plain lockMemory := by
  apply Escape.Triple.modify
  intro p hp
  split
  · exact hp
  · rename_i hold
    constructor
    · rw [after_concat hp.after rfl (.lock .memory) rfl]
      simp [Provider.grip, Grip.exec, eq_false_of_ne_true hold]
    · exact hp.critical

theorem plain_lockHandles : Plain lockHandles := by
  apply Escape.Triple.modify
  intro p hp
  split
  · exact hp
  · rename_i hold
    constructor
    · rw [after_concat hp.after rfl (.lock .handles) rfl]
      simp [Provider.grip, Grip.exec, eq_false_of_ne_true hold]
    · exact hp.critical

theorem plain_unlockHandles : Plain unlockHandles := by
  apply Escape.Triple.modify
  intro p hp
  split
  · rename_i hold
    constructor
    · rw [after_concat hp.after rfl (.unlock .handles) rfl]
      simp [Provider.grip, Grip.exec, hold]
    · exact hp.critical
  · exact hp

/-- `check` keeps the locks in order. -/
theorem plain_check (ptr : UInt64) (length : UInt32) (write : Bool) :
  Plain (check env ptr length write)
  :=
  plain_lockMemory.bind fun _ => plain_pure _

/-- `get` keeps the locks in order. -/
theorem plain_get (handle : UInt32) (type : ObjType) : Plain (get env handle type) :=
  plain_lockHandles.bind fun _ => plain_pure _

/-- What is done with an object decides. -/
theorem plain_withObject {handle : UInt32} {type : ObjType} {bad : UInt64}
    {k : Object → Serve UInt64} (h : ∀ obj, Plain (k obj)) :
  Plain (withObject env handle type bad k)
  := by
  apply (plain_get handle type).bind
  intro obj
  cases obj with
  | none => exact plain_pure bad
  | some obj => exact h obj

/-- What is done with a buffer decides. -/
theorem plain_withBuffer {ptr : UInt64} {length : UInt32} {write : Bool} {k : Serve UInt64}
    (h : Plain k) :
  Plain (withBuffer env ptr length write k)
  :=
  (plain_check ptr length write).bind fun _ => h.ite (plain_pure _)

/-- `put` keeps the locks in order. -/
theorem plain_put (done : UInt32 → UInt64) (full : UInt64) : Plain (put env done full) := by
  apply (plain_emit (balanced_guarded .handles)).bind
  intro _
  apply Plain.ite
  · exact (plain_emit balanced_work).bind fun _ => plain_pure full
  · exact plain_pure _

/-- Work after which a value is returned. -/
theorem plain_work {a : α} : Plain (do emit [.work]; return a : Serve α) :=
  (plain_emit balanced_work).bind fun _ => plain_pure a

/-- A lock that is taken for a moment before a value is returned. -/
theorem plain_guarded {l : Lock} {a : α} : Plain (do emit (guarded l); return a : Serve α) :=
  (plain_emit (balanced_guarded l)).bind fun _ => plain_pure a

/-- A service that keeps its locks in order is tidy, with its destructor. -/
theorem Plain.tidy_complete {f : Serve UInt64} (h : Plain f) (hp : Ready p) : Tidy (f.complete p) := by
  rw [Serve.complete]
  split
  · rename_i a p' heq
    obtain ⟨hafter, hcritical⟩ := h.returns hp heq
    refine ⟨{}, ?_, .inr rfl⟩
    rw [Grip.after_append, hafter, Option.bind_some, Provider.destroy, hcritical, Provider.grip]
    cases p'.holdMemory <;> cases p'.holdHandle <;> rfl
  · rename_i p' heq
    exact h.leaves hp heq

theorem Plain.tidy {f : Serve UInt64} (h : Plain f) : Tidy f.trace := h.tidy_complete ⟨rfl, rfl⟩

/-! ### The services one by one -/

theorem plain_putObject : Plain (putObject env) := plain_put _ _

theorem plain_osctl (cmd : UInt32) (buffer : UInt64) (length : UInt32) :
  Plain (osctl env cmd buffer length)
  := by
  apply (plain_pure _).ite
  apply (plain_withBuffer (plain_leave balanced_nil)).ite
  apply (plain_leave balanced_work).ite
  apply Plain.ite
  · apply plain_withBuffer
    apply (plain_pure _).ite
    apply (plain_emit balanced_work).bind
    intro _
    exact (plain_pure _).ite plain_work
  apply plain_work.ite
  apply plain_work.ite
  exact plain_pure _

theorem plain_osInfo (buffer : UInt64) (limit : UInt32) : Plain (osInfo env buffer limit) :=
  plain_withBuffer ((plain_pure _).ite plain_work)

theorem plain_displayFill : Plain (displayFill env) := (plain_pure _).ite plain_work

theorem plain_displayDraw (buffer val : UInt64) (advance : UInt16) :
  Plain (displayDraw env buffer val advance)
  := by
  apply (plain_pure _).ite
  apply (plain_pure _).ite
  exact plain_withBuffer plain_work

theorem plain_getThread : Plain (getThread env) :=
  (plain_emit (balanced_guarded .object)).bind fun _ => plain_put _ _

theorem plain_setPriority (handle : UInt32) (val : UInt8) : Plain (setPriority env handle val) :=
  plain_withObject fun _ => (plain_pure _).ite ((plain_pure _).ite (plain_pure _))

theorem plain_createThread (entry : UInt64) : Plain (createThread env entry) := by
  apply (plain_pure _).ite
  apply (plain_emit (balanced_guarded .memory)).bind
  intro _
  apply (plain_pure _).ite
  apply (plain_emit (balanced_guarded .memory)).bind
  intro _
  apply plain_guarded.ite
  apply (plain_leave balanced_nil).ite
  exact (plain_emit (balanced_guarded .object)).bind fun _ => plain_putObject

theorem plain_signal (handle mode : UInt32) : Plain (signal env handle mode) := by
  apply plain_withObject
  intro obj
  cases obj with
  | semaphore _ _ | event _ => exact plain_guarded
  | thread _ _ | process _ _ | pipe _ | file _ => exact plain_pure _

theorem plain_processInfo (handle : UInt32) (buffer : UInt64) (limit : UInt32) :
  Plain (processInfo env handle buffer limit)
  :=
  plain_withObject fun _ => plain_withBuffer ((plain_pure _).ite (plain_pure _))

theorem plain_getCommand (handle : UInt32) (buffer : UInt64) (limit : UInt32) :
  Plain (getCommand env handle buffer limit)
  :=
  plain_withObject fun _ => plain_withBuffer ((plain_pure _).ite (plain_pure _))

theorem plain_processResult (handle : UInt32) : Plain (processResult env handle) :=
  plain_withObject fun _ => (plain_pure _).ite (plain_pure _)

theorem plain_startupString {ptr : UInt64} {length : UInt32} {k : Serve UInt64} (h : Plain k) :
  Plain (startupString env ptr length k)
  :=
  h.ite ((plain_pure _).ite (plain_withBuffer h))

/-- Whichever of the standard streams are given, the loop over them keeps the locks in order. -/
theorem plain_stdStreams {k : Serve UInt64} (h : Plain k) (l : List (Fin 3)) :
  Plain (stdStreams env k l)
  := by
  induction l with
  | nil => exact h
  | cons i rest ih => exact ih.ite (plain_withObject fun _ => ih)

theorem plain_spawnProcess : Plain (spawnProcess env) := by
  apply (plain_emit balanced_work).bind
  intro _
  apply (plain_pure _).ite
  exact plain_unlockHandles.bind fun _ => plain_putObject

theorem plain_createProcess (ptr : UInt64) (length : UInt32) :
  Plain (createProcess env ptr length)
  := by
  apply plain_withBuffer
  apply (plain_pure _).ite
  apply (plain_pure _).ite
  apply plain_withBuffer
  apply (plain_pure _).ite
  apply plain_startupString
  apply plain_startupString
  apply (plain_pure _).ite
  exact plain_stdStreams plain_spawnProcess _

theorem plain_openProcess : Plain (openProcess env) := by
  apply (plain_emit balanced_work).bind
  intro _
  apply (plain_pure _).ite
  exact plain_work.ite plain_putObject

theorem plain_getWorkDir (buffer : UInt64) (length : UInt32) :
  Plain (getWorkDir env buffer length)
  := by
  apply plain_withBuffer
  apply (plain_emit balanced_workDirLocked).bind
  intro _
  exact (plain_pure _).ite plain_work

theorem plain_setWorkDir (buffer : UInt64) (length : UInt32) :
  Plain (setWorkDir env buffer length)
  := by
  apply plain_withBuffer
  apply (plain_pure _).ite
  exact (plain_emit balanced_workDirLocked).bind fun _ => plain_pure _

theorem plain_openHandle (buffer : UInt64) (length : UInt32) :
  Plain (openHandle env buffer length)
  := by
  apply plain_withBuffer
  apply (plain_pure _).ite
  apply (plain_emit balanced_work).bind
  intro _
  apply (plain_pure _).ite
  apply (plain_pure _).ite
  apply (plain_emit (balanced_guarded .object)).bind
  intro _
  exact (plain_pure _).ite plain_putObject

theorem plain_closeHandle (handle : UInt32) : Plain (closeHandle env handle) := by
  apply (plain_pure _).ite
  apply (plain_emit (balanced_guarded .handles)).bind
  intro _
  exact (plain_pure _).ite plain_work

theorem plain_createObject (type : UInt32) (a1 : UInt64) : Plain (createObject env type a1) := by
  apply Plain.ite
  · exact (plain_emit (balanced_guarded .object)).bind fun _ => plain_putObject
  · exact plain_pure _

theorem plain_vmCommit : Plain (vmCommit env) := by
  apply (plain_emit (balanced_guarded .memory)).bind
  intro _
  exact (plain_pure _).ite ((plain_pure _).ite (plain_pure _))

theorem plain_streamState (handle : UInt32) : Plain (streamState env handle) :=
  plain_withObject fun obj => (plain_emit obj.balanced_result).bind fun _ => plain_pure _

theorem plain_streamTransfer (write : Bool) (query : Query) (handle : UInt32) (buffer : UInt64)
    (length : UInt32) :
  Plain (streamTransfer env write query handle buffer length)
  := by
  apply plain_withObject
  intro obj
  apply plain_withBuffer
  exact (plain_emit obj.balanced_transfer).bind fun _ => plain_pure _

theorem plain_fileOpen (name : UInt64) (length : UInt32) : Plain (fileOpen env name length) := by
  apply (plain_pure _).ite
  apply plain_withBuffer
  apply (plain_pure _).ite
  apply (plain_emit balanced_work).bind
  intro _
  exact (plain_pure _).ite plain_putObject

theorem plain_fileSeek (handle mode : UInt32) : Plain (fileSeek env handle mode) :=
  plain_withObject fun _ => (plain_pure _).ite plain_guarded

theorem plain_filePath (handle : UInt32) (buffer : UInt64) (length : UInt32) :
  Plain (filePath env handle buffer length)
  :=
  plain_withBuffer (plain_withObject fun _ => plain_work)

/-- Apart from those in which the caller may die before the destructor is called, every service
keeps its locks in order. -/
theorem plain_dispatch {a1 a2 a3 : UInt64} {code : Code} (hthread : code ≠ .exitThread)
    (hkillThread : code ≠ .killThread) (hprocess : code ≠ .exitProcess)
    (hkillProcess : code ≠ .killProcess) (hwait : code ≠ .waitFor) :
  Plain (dispatch env a1 a2 a3 code)
  := by
  cases code with
  | exitThread => exact absurd rfl hthread
  | killThread => exact absurd rfl hkillThread
  | exitProcess => exact absurd rfl hprocess
  | killProcess => exact absurd rfl hkillProcess
  | waitFor => exact absurd rfl hwait
  | osctl => exact plain_osctl _ _ _
  | osInfo => exact plain_osInfo _ _
  | getTime | enumProcess | sleep => exact plain_work
  | displayFill => exact plain_displayFill
  | displayDraw => exact plain_displayDraw _ _ _
  | getThread | getProcess => exact plain_getThread
  | threadId | getPriority | processId | handleType => exact plain_withObject fun _ => plain_pure _
  | getHandler | vmPeek => exact plain_pure _
  | setHandler => exact (plain_pure _).ite (plain_pure _)
  | setPriority => exact plain_setPriority _ _
  | createThread => exact plain_createThread _
  | signal => exact plain_signal _ _
  | processInfo => exact plain_processInfo _ _ _
  | getCommand => exact plain_getCommand _ _ _
  | processResult => exact plain_processResult _
  | createProcess => exact plain_createProcess _ _
  | openProcess => exact plain_openProcess
  | getWorkDir => exact plain_getWorkDir _ _
  | setWorkDir => exact plain_setWorkDir _ _
  | openHandle => exact plain_openHandle _ _
  | closeHandle => exact plain_closeHandle _
  | createObject => exact plain_createObject _ _
  | vmProtect | vmReserve | vmRelease => exact plain_guarded
  | vmCommit => exact plain_vmCommit
  | streamState => exact plain_streamState _
  | streamRead | streamWrite => exact plain_streamTransfer _ _ _ _ _
  | fileOpen => exact plain_fileOpen _ _
  | fileTell => exact plain_withObject fun _ => plain_withBuffer plain_work
  | fileSeek => exact plain_fileSeek _ _
  | filePath => exact plain_filePath _ _ _
  | fileSetsize | fileInfo | fileChange | fileMove => exact plain_leave balanced_nil

/-! ### Services in which the caller may die -/

theorem tidy_exitThread : Tidy (Serve.trace exitThread) := ⟨{}, rfl, .inr rfl⟩

theorem tidy_exitProcess : Tidy (Serve.trace exitProcess) := ⟨{}, rfl, .inr rfl⟩

theorem tidy_badCommand : Tidy (Serve.trace (badCommand env)) := by
  rw [badCommand]
  split
  · exact tidy_exitProcess
  · by_cases hstack : env.answer .stack = 0
    · rw [if_pos hstack]
      exact ⟨{}, rfl, .inr rfl⟩
    · rw [if_neg hstack]
      exact ⟨{}, rfl, .inr rfl⟩

/-- The provider after the object has been looked up. -/
def lookedUp : Provider := { holdHandle := true, ops := [.hold, .lock .handles] }

theorem ready_lookedUp : Ready lookedUp := ⟨rfl, rfl⟩

section

variable {handle : UInt32} {type : ObjType} {bad : UInt64} {k : Object → Serve UInt64} {obj : Object}

/-- A service that looks for an object and finds none. -/
theorem trace_withObject_none (h : env.find handle type = none) :
  Serve.trace (withObject env handle type bad k) = [.hold, .lock .handles, .unlock .handles, .drop]
  := by
  change Serve.complete (onObject bad k (env.find handle type)) lookedUp = _
  rw [h]
  rfl

/-- A service that looks for an object and finds it. -/
theorem trace_withObject_some (h : env.find handle type = some obj) :
  Serve.trace (withObject env handle type bad k) = (k obj).complete lookedUp
  := by
  change Serve.complete (onObject bad k (env.find handle type)) lookedUp = _
  rw [h]
  rfl

/-- A service that looks for an object is tidy if what it does with the object is. -/
theorem tidy_withObject (h : ∀ obj, env.find handle type = some obj → Tidy ((k obj).complete lookedUp)) :
  Tidy (Serve.trace (withObject env handle type bad k))
  := by
  cases hfind : env.find handle type with
  | none =>
      rw [trace_withObject_none hfind]
      exact ⟨{}, rfl, .inr rfl⟩
  | some obj =>
      rw [trace_withObject_some hfind]
      exact h obj hfind

end

/-- `kill_thread` is tidy unless the thread is the caller. -/
theorem tidy_killThread {handle : UInt32}
    (h : ∀ stopped, env.find handle .thread ≠ some (.thread true stopped)) :
  Tidy (Serve.trace (killThread env handle))
  := by
  apply tidy_withObject
  intro obj hfind
  cases obj with
  | thread self stopped =>
      cases self with
      | true => exact absurd hfind (h stopped)
      | false => exact Plain.tidy_complete plain_guarded ready_lookedUp
  | process _ _ | event _ | semaphore _ _ | pipe _ | file _ =>
      exact Plain.tidy_complete plain_guarded ready_lookedUp

/-- `kill_process` is tidy unless the process is the caller's. -/
theorem tidy_killProcess {handle : UInt32}
    (h : ∀ stopped, env.find handle .process ≠ some (.process true stopped)) :
  Tidy (Serve.trace (killProcess env handle))
  := by
  apply tidy_withObject
  intro obj hfind
  cases obj with
  | process self stopped =>
      cases self with
      | true => exact absurd hfind (h stopped)
      | false => exact Plain.tidy_complete plain_guarded ready_lookedUp
  | thread _ _ | event _ | semaphore _ _ | pipe _ | file _ =>
      exact Plain.tidy_complete plain_guarded ready_lookedUp

/-- The object is the calling thread. -/
def Object.isCaller : Object → Bool
  | .thread self _ => self
  | _ => false

/-- What `wait_for` does with an object that is to be waited for. -/
def waitOn (env : Env) (obj : Object) : Serve UInt64 :=
  match obj with
  | .thread true _ => return Status.failed.value
  | _ => do
      Escape.modify fun p =>
        { p with holdHandle := false, skipCritical := true, ops := p.ops ++ obj.wait }
      return env.answer .reason

/-- Waiting for an object other than the caller. -/
theorem complete_waitOn {obj : Object} (h : obj.isCaller = false) :
  (waitOn env obj).complete lookedUp = [.hold, .lock .handles] ++ obj.wait
  := by
  have hops : lookedUp.ops ++ obj.wait ++ [] = [.hold, .lock .handles] ++ obj.wait := by
    rw [List.append_nil]
    rfl
  cases obj with
  | thread self stopped =>
      cases self with
      | true => cases h
      | false => exact hops
  | process _ _ | event _ | semaphore _ _ | pipe _ | file _ => exact hops

/-- `wait_for` is tidy if it does not wait, or if what it waits for is signalled. -/
theorem tidy_waitFor {handle nowait : UInt32}
    (h : nowait = 0 → ∀ obj, env.find handle .unknown = some obj →
      obj.isCaller = true ∨ obj.passes = true) :
  Tidy (Serve.trace (waitFor env handle nowait))
  := by
  apply tidy_withObject
  intro obj hfind
  by_cases hwait : nowait = 0
  · rw [if_neg (not_not.mpr hwait)]
    change Tidy ((waitOn env obj).complete lookedUp)
    cases hcaller : obj.isCaller with
    | true =>
        cases obj with
        | thread self stopped =>
            cases hcaller
            exact Plain.tidy_complete (plain_pure _) ready_lookedUp
        | process _ _ | event _ | semaphore _ _ | pipe _ | file _ => cases hcaller
    | false =>
        have hpasses : obj.passes = true :=
          (h hwait obj hfind).resolve_left (by rw [hcaller]; exact Bool.false_ne_true)
        rw [complete_waitOn hcaller, Object.wait, if_pos hpasses]
        exact ⟨{}, rfl, .inr rfl⟩
  · rw [if_pos hwait]
    apply Plain.tidy_complete _ ready_lookedUp
    exact (plain_emit obj.balanced_check).bind fun _ => plain_pure _

/-! ### Which calls leave a lock behind -/

/-- The call is not one that kills its caller through a handle, nor one that waits for an object
that is not signalled. -/
def Safe (env : Env) (cmd : UInt32) (a1 a3 : UInt64) : Prop :=
  match Code.ofDword cmd with
  | some .killThread => ∀ stopped, env.find a1.toUInt32 .thread ≠ some (.thread true stopped)
  | some .killProcess => ∀ stopped, env.find a1.toUInt32 .process ≠ some (.process true stopped)
  | some .waitFor => a3.toUInt32 = 0 → ∀ obj, env.find a1.toUInt32 .unknown = some obj →
      obj.isCaller = true ∨ obj.passes = true
  | _ => True

/-- A safe call is tidy. -/
theorem tidy_of_safe {cmd : UInt32} {a1 a2 a3 : UInt64} (h : Safe env cmd a1 a3) :
  Tidy (kernelService env cmd a1 a2 a3)
  := by
  rw [kernelService]
  rw [Safe] at h
  cases hcode : Code.ofDword cmd with
  | none => exact tidy_badCommand
  | some code =>
      rw [hcode] at h
      by_cases hthread : code = .exitThread
      · rw [hthread]
        exact tidy_exitThread
      by_cases hkillThread : code = .killThread
      · rw [hkillThread] at h ⊢
        exact tidy_killThread h
      by_cases hprocess : code = .exitProcess
      · rw [hprocess]
        exact tidy_exitProcess
      by_cases hkillProcess : code = .killProcess
      · rw [hkillProcess] at h ⊢
        exact tidy_killProcess h
      by_cases hwait : code = .waitFor
      · rw [hwait] at h ⊢
        exact tidy_waitFor h
      exact (plain_dispatch hthread hkillThread hprocess hkillProcess hwait).tidy

/-- Some run of a call ends with the caller gone and a lock held. -/
def Leaks (env : Env) (cmd : UInt32) (a1 a2 a3 : UInt64) : Prop :=
  ∃ s, (machine env cmd a1 a2 a3).Reachable Machine.anyStep s ∧ s.gone = true ∧ s.grip.free = false

/-- A run of the operations of a call. -/
theorem leaks_of_exec {cmd : UInt32} {a1 a2 a3 : UInt64} {l : List Op} {s : Caller}
    (hl : kernelService env cmd a1 a2 a3 = l) (actions : List Caller.Action)
    (hs : (machine env cmd a1 a2 a3).exec { todo := l } actions = some s) (hgone : s.gone = true)
    (hfree : s.grip.free = false) :
  Leaks env cmd a1 a2 a3
  := by
  refine ⟨s, ?_, hgone, hfree⟩
  have hstart : (machine env cmd a1 a2 a3).Reachable Machine.anyStep { todo := l } := by
    apply Machine.Reachable.start
    change _ = Caller.mk _ _ _ _
    rw [hl]
  apply hstart.exec hs
  intro _ _ _
  trivial

section

variable {cmd : UInt32} {a1 a2 a3 : UInt64}

/-- A thread that kills itself through a handle dies with the handle table locked. -/
theorem leaks_killThread {stopped : Bool} (hcode : Code.ofDword cmd = some .killThread)
    (hfind : env.find a1.toUInt32 .thread = some (.thread true stopped)) :
  Leaks env cmd a1 a2 a3
  := by
  have hl : kernelService env cmd a1 a2 a3 = [.hold, .lock .handles, .drop, .kill, .halt] := by
    rw [kernelService, hcode]
    exact trace_withObject_some hfind
  exact leaks_of_exec hl [.run, .run, .run, .run] rfl rfl rfl

/-- A thread that kills its process through a handle dies with the handle table locked. -/
theorem leaks_killProcess {stopped : Bool} (hcode : Code.ofDword cmd = some .killProcess)
    (hfind : env.find a1.toUInt32 .process = some (.process true stopped)) :
  Leaks env cmd a1 a2 a3
  := by
  have hl : kernelService env cmd a1 a2 a3 =
      [.hold, .lock .handles, .drop, .mask, .lock .object, .unlock .object, .unmask, .kill,
        .halt] := by
    rw [kernelService, hcode]
    exact trace_withObject_some hfind
  exact leaks_of_exec hl [.run, .run, .run, .run, .run, .run, .run, .run] rfl rfl rfl

/-- A thread that is killed before it waits dies under the lock of the object. -/
theorem leaks_waitFor {obj : Object} (hcode : Code.ofDword cmd = some .waitFor)
    (hwait : a3.toUInt32 = 0) (hfind : env.find a1.toUInt32 .unknown = some obj)
    (hcaller : obj.isCaller = false) (hpasses : obj.passes = false) :
  Leaks env cmd a1 a2 a3
  := by
  have hl : kernelService env cmd a1 a2 a3 =
      [.hold, .lock .handles, .mask, .lock .object, .unlock .handles, .drop] ++ obj.waitLocked := by
    rw [kernelService, hcode]
    change Serve.trace (waitFor env a1.toUInt32 a3.toUInt32) = _
    rw [waitFor, trace_withObject_some hfind, if_neg (not_not.mpr hwait)]
    change (waitOn env obj).complete lookedUp = _
    rw [complete_waitOn hcaller, Object.wait,
      if_neg (by rw [hpasses]; exact Bool.false_ne_true)]
    rfl
  exact leaks_of_exec hl [.run, .killed, .run, .run, .run, .run, .run] rfl rfl rfl

end

/-- A call that is not safe has a run that leaves a lock behind. -/
theorem leaks_of_not_safe {cmd : UInt32} {a1 a2 a3 : UInt64} (h : ¬ Safe env cmd a1 a3) :
  Leaks env cmd a1 a2 a3
  := by
  rw [Safe] at h
  split at h
  · rename_i hcode
    push Not at h
    obtain ⟨stopped, hfind⟩ := h
    exact leaks_killThread hcode hfind
  · rename_i hcode
    push Not at h
    obtain ⟨stopped, hfind⟩ := h
    exact leaks_killProcess hcode hfind
  · rename_i hcode
    push Not at h
    obtain ⟨hwait, obj, hfind, hcaller, hpasses⟩ := h
    exact leaks_waitFor hcode hwait hfind (eq_false_of_ne_true hcaller) (eq_false_of_ne_true hpasses)
  · exact absurd trivial h

/-- In every run of a system call the caller holds no lock when it is switched out for the last
time, exactly when the call neither kills its own thread or process through a handle nor waits for
an object that is not signalled. -/
theorem no_lock_left_iff (env : Env) (cmd : UInt32) (a1 a2 a3 : UInt64) :
  (∀ s, (machine env cmd a1 a2 a3).Reachable Machine.anyStep s → s.gone = true →
    s.grip.free = true) ↔ Safe env cmd a1 a3
  := by
  constructor
  · intro h
    by_contra hsafe
    obtain ⟨s, hs, hgone, hfree⟩ := leaks_of_not_safe hsafe
    rw [h s hs hgone] at hfree
    cases hfree
  · intro h s hs hgone
    exact (clean_of_tidy (tidy_of_safe h) hs).of_gone hgone

/-- A process without memory whose table holds the calling thread under the handle `4` and a
semaphore without resources under the handle `5`. -/
def loneEnv : Env where
  privilege := 0x40
  handles := fun handle =>
    if handle = 4 then some (.thread true false)
    else if handle = 5 then some (.semaphore 1 false) else none
  page := fun _ => { present := false, user := false, write := false }
  startup :=
    { commandline := 0, workDir := 0, environment := 0, cmdLength := 0, wdLength := 0,
      envLength := 0, flags := 0, stdHandle := fun _ => 0 }
  userHandler := 0
  answer := fun _ => 0

/-- A thread that kills itself through its handle leaves the handle table locked, and one that is
killed on its way to wait for a semaphore leaves the semaphore locked. -/
theorem killed_with_lock :
  (∃ s, (machine loneEnv 0x0114 4 0 0).Reachable Machine.anyStep s ∧ s.gone = true ∧
    s.grip.handles = 1) ∧
  ∃ s, (machine loneEnv 0x0134 5 0 0).Reachable Machine.anyStep s ∧ s.gone = true ∧
    s.grip.object = 1
  := by
  constructor
  · have h₀ : (machine loneEnv 0x0114 4 0 0).Reachable Machine.anyStep
        { todo := kernelService loneEnv 0x0114 4 0 0 } := .start rfl
    refine ⟨_, h₀.exec (l := [.run, .run, .run, .run]) rfl (fun _ _ _ => trivial), rfl, rfl⟩
  · have h₀ : (machine loneEnv 0x0134 5 0 0).Reachable Machine.anyStep
        { todo := kernelService loneEnv 0x0134 5 0 0 } := .start rfl
    refine ⟨_, h₀.exec (l := [.run, .killed, .run, .run, .run, .run, .run]) rfl
      (fun _ _ _ => trivial), rfl, rfl⟩

end UOS.Service
