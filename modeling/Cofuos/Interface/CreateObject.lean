import Cofuos.Interface.Service
import Cofuos.Lib.Fault
import Cofuos.Memory.OperatorNew
import Cofuos.Process.HandleTable
import Cofuos.Sync.Event
import Cofuos.Sync.Pipe
import Cofuos.Sync.Semaphore

/-!
# Creating objects

`service_provider::create_object` takes the type of an object and two numbers of 64 bits from the
caller. It compares the numbers as they are, and passes them to constructors that take 32 bits of
them. What is left of a large number may be zero, which the constructor of a semaphore asserts
against and for which `operator new` stops, or it is some other number of permits or bytes. No pipe is
larger than a gigabyte, as `operator new` stops then. The definitions follow `create_object` of
`kernel/interface/service.cpp` and the constructors of `kernel/sync`.
-/

namespace UOS

open Fault Service

/-! ### Objects -/

/-- The objects that `create_object` makes. -/
inductive KernelObject where
  | semaphore (s : Semaphore ℕ)
  | event (e : Event ℕ)
  | pipe (p : Pipe)

/-- What a call of `create_object` finds. -/
structure CreateEnv where
  /-- The build has assertions. -/
  debug : Bool
  /-- The allocators when the object itself is allocated. -/
  objectMemory : KernelMemory
  /-- The allocators when the buffer of a pipe is allocated. -/
  bufferMemory : KernelMemory
  /-- What has been in the buffer. -/
  bytes : ℕ → BitVec 8
  /-- The process of the caller. -/
  process : ℕ
  /-- The sizes of the objects. -/
  size : ObjType → ℕ
  size_pos : ∀ type, 0 < size type ∧ size type ≤ hugeSize
  /-- The handle table of the caller. -/
  handles : HandleTable KernelObject
  /-- There is memory for a page of the handle table. -/
  room : Bool

namespace CreateEnv

variable (env : CreateEnv)

/-- `semaphore::semaphore` -/
def newSemaphore (initial : UInt32) : Except Fault KernelObject := do
  assert env.debug (initial.toNat ≠ 0)
  return .semaphore (Semaphore.new initial.toNat)

/-- `event::event` -/
def newEvent (initialState : Bool) : Except Fault KernelObject :=
  return .event (Event.new initialState)

/-- `pipe::pipe` -/
def newPipe (size : UInt32) (mode : UInt8) : Except Fault KernelObject := do
  return .pipe (← Pipe.construct env.bufferMemory env.debug env.process size mode.toBitVec env.bytes)

/-- The `switch` of `create_object`. There is no object if the parameters are not accepted. -/
def construct (type : UInt32) (a1 a2 : UInt64) : Except Fault (Option KernelObject) :=
  if type.toUInt64 = ObjType.semaphore.code then
    if a1 ≠ 0 then do
      let _ ← env.objectMemory.operatorNew (env.size .semaphore)
      return some (← env.newSemaphore a1.toUInt32)
    else return none
  else if type.toUInt64 = ObjType.event.code then do
    let _ ← env.objectMemory.operatorNew (env.size .event)
    return some (← newEvent (a1 != 0))
  else if type.toUInt64 = ObjType.pipe.code then
    if a1 ≥ 0x10 then do
      let _ ← env.objectMemory.operatorNew (env.size .pipe)
      return some (← env.newPipe a1.toUInt32 a2.toUInt8)
    else return none
  else return none

/-- The part of `create_object` that puts the object into the handle table. An object that finds no
place is relaxed, and gone. -/
def putObject (obj : KernelObject) : Except Fault (UInt64 × HandleTable KernelObject) :=
  match env.handles.put env.room obj with
  | none => .error .assertFailed
  | some (handle, t) =>
      if handle ≠ 0 then .ok (packQword Status.success.code (UInt32.ofNat handle), t)
      else .ok (Status.noResource.value, t)

/-- What `create_object` does after the `switch`. -/
def expose : Option KernelObject → Except Fault (UInt64 × HandleTable KernelObject)
  | none => .ok (Status.badParam.value, env.handles)
  | some obj => env.putObject obj

/-- `service_provider::create_object` -/
def createObject (type : UInt32) (a1 a2 : UInt64) :
    Except Fault (UInt64 × HandleTable KernelObject) := do
  env.expose (← env.construct type a1 a2)

end CreateEnv

/-! ### What the caller relies on -/

/-- The object is what the parameters ask for. -/
def KernelObject.Exact (type : UInt32) (a1 : UInt64) : KernelObject → Prop
  | .semaphore s =>
      type.toUInt64 = ObjType.semaphore.code ∧ s.total = a1.toNat ∧ s.count = a1.toNat
  | .event e => type.toUInt64 = ObjType.event.code ∧ e.check = (a1 != 0)
  | .pipe p => type.toUInt64 = ObjType.pipe.code ∧ p.limit = a1.toNat

namespace CreateEnv

variable (env : CreateEnv)

/-- The object is in an empty slot, and the caller gets its handle. -/
structure Created (obj : KernelObject) (value : UInt64) (t : HandleTable KernelObject)
    (handle : ℕ) : Prop where
  value_eq : value = packQword Status.success.code (UInt32.ofNat handle)
  base_le : HandleTable.avlBase ≤ handle
  lt_limit : handle < HandleTable.limit
  empty : env.handles.slot handle = none
  slots : ∀ j, t.slot j = if j = handle then some obj else env.handles.slot j

/-- The call does not stop. It refuses the parameters, or has no resource, or it has created what
it has been asked for. -/
def Serves (type : UInt32) (a1 : UInt64) : Except Fault (UInt64 × HandleTable KernelObject) → Prop
  | .error _ => False
  | .ok (value, t) =>
      (value = Status.badParam.value ∨ value = Status.noResource.value) ∧ t = env.handles ∨
      ∃ obj handle, env.Created obj value t handle ∧ obj.Exact type a1

/-- The handle table has no place for another object. -/
def NoHandle : Prop := ∀ obj, env.handles.put env.room obj = some (0, env.handles)

/-- There is memory for all that is requested: the object, and the buffer of a pipe. -/
structure Available (a1 : UInt64) : Prop where
  object : ∀ type, env.objectMemory.Available (env.size type)
  buffer : a1.toUInt32.toNat ≠ 0 → env.bufferMemory.Available a1.toUInt32.toNat

/-- The number fits the constructor that takes it. -/
def Fits (type : UInt32) (a1 : UInt64) : Prop :=
  (type.toUInt64 = ObjType.semaphore.code → a1.toNat < 2 ^ 32) ∧
  (type.toUInt64 = ObjType.pipe.code → a1.toNat ≤ 2 ^ 30)

/-- What is left of the number is accepted by the constructor that takes it. -/
def Accepts (type : UInt32) (a1 : UInt64) : Prop :=
  (type.toUInt64 = ObjType.semaphore.code → env.debug = true → a1.toNat % 2 ^ 32 ≠ 0) ∧
  (type.toUInt64 = ObjType.pipe.code → 0 < a1.toNat % 2 ^ 32 ∧ a1.toNat % 2 ^ 32 ≤ 2 ^ 30)

variable {env} {type : UInt32} {a1 a2 : UInt64} {obj obj' : KernelObject}

/-- Whether an object finds a place does not depend on the object. -/
theorem putFrom_zero_congr {t : HandleTable KernelObject} {room : Bool} {n index : ℕ}
    (hpos : 0 < index) (h : t.putFrom room obj n index = some (0, t)) :
  t.putFrom room obj' n index = some (0, t)
  := by
  induction n generalizing index with
  | zero => rfl
  | succ n ih =>
      rw [HandleTable.putFrom] at h ⊢
      cases hpage : t.page index with
      | none =>
          rw [hpage] at h
          cases h
      | some pg =>
          rw [hpage] at h
          cases pg with
          | none =>
              dsimp only at h ⊢
              split_ifs at h ⊢ with hroom
              · have hindex := (Prod.mk.inj (Option.some.inj h)).1
                lia
              · rfl
          | some pg =>
              dsimp only at h ⊢
              split_ifs at h ⊢ with hslot
              · exact ih (Nat.succ_pos _) h
              · have hindex := (Prod.mk.inj (Option.some.inj h)).1
                lia

theorem noHandle_of_put (h : env.handles.put env.room obj = some (0, env.handles)) :
  env.NoHandle
  := by
  intro obj'
  apply putFrom_zero_congr _ h
  exact lt_of_lt_of_le (by decide) HandleTable.avlBase_le_putIndex

/-- An object that is put is what has been asked for, or it finds no place. -/
theorem serves_putObject_iff (hvalid : env.handles.Valid) :
  env.Serves type a1 (env.putObject obj) ↔ obj.Exact type a1 ∨ env.NoHandle
  := by
  rw [putObject]
  rcases hvalid.put env.room obj with hput | ⟨handle, t, hput, -, hbase, hlimit, hempty, hslots⟩
  · rw [hput]
    exact iff_of_true (.inl ⟨.inr rfl, rfl⟩) (.inr (noHandle_of_put hput))
  · rw [hput]
    have hzero : handle ≠ 0 := by
      rintro rfl
      exact absurd hbase (by decide)
    have hhandle : t.slot handle = some obj := by
      rw [hslots, if_pos rfl]
    dsimp only
    rw [if_pos hzero]
    constructor
    · rintro (⟨-, rfl⟩ | ⟨obj', handle', hcreated, hexact⟩)
      · rw [hempty] at hhandle
        cases hhandle
      · have hsome := hslots handle'
        rw [hcreated.slots, if_pos rfl, hcreated.empty] at hsome
        split_ifs at hsome
        cases hsome
        exact .inl hexact
    · rintro (hexact | hno)
      · exact .inr ⟨obj, handle, ⟨rfl, hbase, hlimit, hempty, hslots⟩, hexact⟩
      · rw [hno obj] at hput
        exact absurd (Prod.mk.inj (Option.some.inj hput)).1.symm hzero

/-! ### What the constructors make -/

theorem Available.object_ok (h : env.Available a1) (type : ObjType) :
  ∃ b, env.objectMemory.operatorNew (env.size type) = .ok b
  := by
  obtain ⟨hpos, hle⟩ := env.size_pos type
  have hlt : env.size type ≤ 2 ^ 11 := hle
  apply (KernelMemory.operatorNew_ok_iff (by lia) fun _ => h.object type).2 ⟨hpos, by lia⟩

/-- A semaphore is put with the number of permits that is left. -/
theorem createObject_semaphore (h : env.Available a1)
    (htype : type.toUInt64 = ObjType.semaphore.code) (hne : a1 ≠ 0) :
  env.createObject type a1 a2 = env.newSemaphore a1.toUInt32 >>= env.putObject
  := by
  obtain ⟨b, hb⟩ := h.object_ok .semaphore
  rw [createObject, construct, if_pos htype, if_pos hne, hb]
  cases env.newSemaphore a1.toUInt32 with
  | error e => rfl
  | ok obj => rfl

/-- An event is put. -/
theorem createObject_event (h : env.Available a1)
    (htype : type.toUInt64 = ObjType.event.code) :
  env.createObject type a1 a2 = env.putObject (.event (Event.new (a1 != 0)))
  := by
  obtain ⟨b, hb⟩ := h.object_ok .event
  have hne : type.toUInt64 ≠ ObjType.semaphore.code := by
    rw [htype]
    decide
  rw [createObject, construct, if_neg hne, if_pos htype, hb]
  rfl

/-- A pipe is put with the capacity that is left. -/
theorem createObject_pipe (h : env.Available a1)
    (htype : type.toUInt64 = ObjType.pipe.code) (hle : a1 ≥ 0x10) :
  env.createObject type a1 a2 = env.newPipe a1.toUInt32 a2.toUInt8 >>= env.putObject
  := by
  obtain ⟨b, hb⟩ := h.object_ok .pipe
  have hsemaphore : type.toUInt64 ≠ ObjType.semaphore.code := by
    rw [htype]
    decide
  have hevent : type.toUInt64 ≠ ObjType.event.code := by
    rw [htype]
    decide
  rw [createObject, construct, if_neg hsemaphore, if_neg hevent, if_pos htype, if_pos hle, hb]
  cases env.newPipe a1.toUInt32 a2.toUInt8 with
  | error e => rfl
  | ok obj => rfl

/-- The assertion of the constructor of a semaphore. -/
theorem newSemaphore_eq {initial : UInt32} (h : env.debug = true → initial.toNat ≠ 0) :
  env.newSemaphore initial = .ok (.semaphore (Semaphore.new initial.toNat))
  := by
  rw [newSemaphore, assert_eq_ok h]
  rfl

theorem newSemaphore_fails {initial : UInt32} (hdebug : env.debug = true)
    (h : initial.toNat = 0) :
  env.newSemaphore initial = .error .assertFailed
  := by
  rw [newSemaphore, assert, if_pos ⟨hdebug, not_not.2 h⟩]
  rfl

/-- A pipe is made of any size up to a gigabyte. -/
theorem newPipe_eq {size : UInt32} {mode : UInt8}
    (havl : size.toNat ≠ 0 → env.bufferMemory.Available size.toNat)
    (hpos : 0 < size.toNat) (hle : size.toNat ≤ 2 ^ 30) :
  env.newPipe size mode = .ok (.pipe (Pipe.new env.process size.toNat mode.toBitVec env.bytes hpos
    (by rwa [maxBlock_eq])))
  := by
  have hlt : size.toNat < 2 ^ 43 := size.toNat_lt.trans (by decide)
  obtain ⟨b, hb⟩ := (KernelMemory.operatorNew_ok_iff hlt havl).2 ⟨hpos, hle⟩
  rw [newPipe, Pipe.construct, hb, Except.ok_bind, assert_eq_ok fun _ => hpos.ne']
  rfl

theorem newPipe_fails {size : UInt32} {mode : UInt8}
    (havl : size.toNat ≠ 0 → env.bufferMemory.Available size.toNat)
    (h : ¬ (0 < size.toNat ∧ size.toNat ≤ 2 ^ 30)) :
  ∃ e, env.newPipe size mode = .error e
  := by
  have hlt : size.toNat < 2 ^ 43 := size.toNat_lt.trans (by decide)
  rw [newPipe, Pipe.construct]
  cases hb : env.bufferMemory.operatorNew size.toNat with
  | error e => exact ⟨e, rfl⟩
  | ok b => exact absurd ((KernelMemory.operatorNew_ok_iff hlt havl).1 ⟨b, hb⟩) h

/-! ### When a call does what it is asked for -/

/-- What is left of a number is the number itself exactly if it has 32 bits. -/
theorem toUInt32_toNat_eq_iff : a1.toUInt32.toNat = a1.toNat ↔ a1.toNat < 2 ^ 32 := by
  rw [UInt64.toNat_toUInt32, Nat.mod_eq_iff_lt (by decide)]

theorem serves_semaphore_iff (hvalid : env.handles.Valid) (havl : env.Available a1)
    (htype : type.toUInt64 = ObjType.semaphore.code) :
  env.Serves type a1 (env.createObject type a1 a2) ↔
    a1.toNat < 2 ^ 32 ∨ env.NoHandle ∧ (env.debug = true → a1.toNat % 2 ^ 32 ≠ 0)
  := by
  by_cases hzero : a1 = 0
  · -- refused
    have hcreate : env.createObject type a1 a2 = .ok (Status.badParam.value, env.handles) := by
      rw [createObject, construct, if_pos htype, if_neg (not_not.2 hzero)]
      rfl
    rw [hcreate, hzero]
    exact iff_of_true (.inl ⟨.inl rfl, rfl⟩) (.inl (by decide))
  have hpos : a1.toNat ≠ 0 := by
    intro h
    exact hzero (UInt64.toNat_inj.1 h)
  rw [createObject_semaphore havl htype hzero]
  by_cases hfail : env.debug = true ∧ a1.toUInt32.toNat = 0
  · rw [newSemaphore_fails hfail.1 hfail.2, Except.error_bind]
    rw [UInt64.toNat_toUInt32] at hfail
    apply iff_of_false id
    rintro (hlt | ⟨-, hne⟩)
    · lia
    · exact hne hfail.1 hfail.2
  · have hne : env.debug = true → a1.toUInt32.toNat ≠ 0 := fun hdebug h => hfail ⟨hdebug, h⟩
    rw [newSemaphore_eq hne, Except.ok_bind, serves_putObject_iff hvalid]
    rw [UInt64.toNat_toUInt32] at hne
    have hexact : KernelObject.Exact type a1 (.semaphore (Semaphore.new a1.toUInt32.toNat)) ↔
        a1.toNat < 2 ^ 32 := by
      rw [← toUInt32_toNat_eq_iff]
      constructor
      · rintro ⟨-, htotal, -⟩
        exact htotal
      · intro h
        exact ⟨htype, h, h⟩
    rw [hexact]
    constructor
    · rintro (hlt | hno)
      · exact .inl hlt
      · exact .inr ⟨hno, hne⟩
    · rintro (hlt | ⟨hno, -⟩)
      · exact .inl hlt
      · exact .inr hno

theorem serves_pipe_iff (hvalid : env.handles.Valid) (havl : env.Available a1)
    (htype : type.toUInt64 = ObjType.pipe.code) :
  env.Serves type a1 (env.createObject type a1 a2) ↔
    a1.toNat ≤ 2 ^ 30 ∨ env.NoHandle ∧ 0 < a1.toNat % 2 ^ 32 ∧ a1.toNat % 2 ^ 32 ≤ 2 ^ 30
  := by
  have hsemaphore : type.toUInt64 ≠ ObjType.semaphore.code := by
    rw [htype]
    decide
  have hevent : type.toUInt64 ≠ ObjType.event.code := by
    rw [htype]
    decide
  by_cases hsmall : a1 ≥ 0x10
  · rw [createObject_pipe havl htype hsmall]
    have hle : 0x10 ≤ a1.toNat := hsmall
    have hlow := UInt64.toNat_toUInt32 a1
    by_cases hok : 0 < a1.toUInt32.toNat ∧ a1.toUInt32.toNat ≤ 2 ^ 30
    · rw [newPipe_eq havl.buffer hok.1 hok.2, Except.ok_bind, serves_putObject_iff hvalid]
      have hexact : KernelObject.Exact type a1 (.pipe (Pipe.new env.process a1.toUInt32.toNat
          a2.toUInt8.toBitVec env.bytes hok.1 (by rw [maxBlock_eq]; exact hok.2))) ↔
            a1.toNat ≤ 2 ^ 30 := by
        constructor
        · rintro ⟨-, hlimit⟩
          rw [← hlimit]
          exact hok.2
        · intro h
          exact ⟨htype, toUInt32_toNat_eq_iff.2 (by lia)⟩
      rw [hexact]
      constructor
      · rintro (hlt | hno)
        · exact .inl hlt
        · exact .inr ⟨hno, by lia⟩
      · rintro (hlt | ⟨hno, -⟩)
        · exact .inl hlt
        · exact .inr hno
    · obtain ⟨e, he⟩ : ∃ e, env.newPipe a1.toUInt32 a2.toUInt8 = .error e :=
        newPipe_fails havl.buffer hok
      rw [he, Except.error_bind]
      apply iff_of_false id
      rintro (hlt | ⟨-, h⟩)
      · apply hok
        lia
      · apply hok
        lia
  · have hcreate : env.createObject type a1 a2 = .ok (Status.badParam.value, env.handles) := by
      rw [createObject, construct, if_neg hsemaphore, if_neg hevent, if_pos htype, if_neg hsmall]
      rfl
    have hlt : a1.toNat < 0x10 := Nat.lt_of_not_le hsmall
    rw [hcreate]
    exact iff_of_true (.inl ⟨.inl rfl, rfl⟩) (.inl (by omega))

/-- Events, and types that no object is made of. -/
theorem serves_other (hvalid : env.handles.Valid) (havl : env.Available a1)
    (hsemaphore : type.toUInt64 ≠ ObjType.semaphore.code)
    (hpipe : type.toUInt64 ≠ ObjType.pipe.code) :
  env.Serves type a1 (env.createObject type a1 a2)
  := by
  by_cases hevent : type.toUInt64 = ObjType.event.code
  · rw [createObject_event havl hevent, serves_putObject_iff hvalid]
    left
    refine ⟨hevent, ?_⟩
    cases a1 != 0 with
    | false => rfl
    | true => rfl
  · have hcreate : env.createObject type a1 a2 = .ok (Status.badParam.value, env.handles) := by
      rw [createObject, construct, if_neg hsemaphore, if_neg hevent, if_neg hpipe]
      rfl
    rw [hcreate]
    exact .inl ⟨.inl rfl, rfl⟩

/-- Where there is memory for what is requested, a call creates what it has been asked for, or
refuses it, exactly if the number fits the constructor, or no handle is left and the constructor
accepts what is left of the number. -/
theorem serves_iff (env : CreateEnv) (type : UInt32) (a1 a2 : UInt64)
    (hreach : (HandleTable.machine KernelObject).Reachable HandleTable.Allowed env.handles)
    (havl : env.Available a1) :
  env.Serves type a1 (env.createObject type a1 a2) ↔
    Fits type a1 ∨ env.NoHandle ∧ env.Accepts type a1
  := by
  have hvalid := HandleTable.valid_of_reachable hreach
  have hcodes : ObjType.semaphore.code ≠ ObjType.pipe.code := by decide
  by_cases hsemaphore : type.toUInt64 = ObjType.semaphore.code
  · rw [serves_semaphore_iff hvalid havl hsemaphore]
    simp [Fits, Accepts, hsemaphore, hcodes]
  by_cases hpipe : type.toUInt64 = ObjType.pipe.code
  · rw [serves_pipe_iff hvalid havl hpipe]
    simp [Fits, Accepts, hpipe, hcodes.symm]
  · apply iff_of_true (serves_other hvalid havl hsemaphore hpipe)
    left
    exact ⟨fun h => absurd h hsemaphore, fun h => absurd h hpipe⟩

/-- A debug build in which there is memory for everything, and no handle is in use. -/
def plenty : CreateEnv where
  debug := true
  objectMemory := ⟨some, some, fun _ _ => true⟩
  bufferMemory := ⟨some, some, fun _ _ => true⟩
  bytes := fun _ => 0
  process := 1
  size := fun _ => 0x40
  size_pos := fun _ => by decide
  handles := {}
  room := true

theorem plenty_available (a1 : UInt64) : plenty.Available a1 := by
  have h (len : ℕ) : (⟨some, some, fun _ _ => true⟩ : KernelMemory).Available len := by
    rw [KernelMemory.Available]
    split_ifs
    · rfl
    · exact ⟨_, rfl, rfl⟩
  exact ⟨fun _ => h _, fun _ => h _⟩

/-- A semaphore of three permits is created, and one of `2 ^ 32 + 3` is not. -/
theorem serves_three :
  plenty.Serves 6 3 (plenty.createObject 6 3 0) ∧
  ¬ plenty.Serves 6 0x100000003 (plenty.createObject 6 0x100000003 0)
  := by
  constructor
  · exact (serves_iff plenty 6 3 0 (.start rfl) (plenty_available _)).2
      (.inl ⟨by decide, by decide⟩)
  · rw [serves_iff plenty 6 0x100000003 0 (.start rfl) (plenty_available _)]
    rintro (⟨hfits, -⟩ | ⟨hno, -⟩)
    · exact absurd (hfits (by decide)) (by decide)
    · have hput := (Prod.mk.inj (Option.some.inj (hno (.event (Event.new true))))).1
      cases hput

/-- A semaphore of `2 ^ 32` permits is asked for, with memory for all that is requested. The
assertion of the constructor fails. -/
theorem stops_at_semaphore :
  ∃ (env : CreateEnv) (type : UInt32) (a1 a2 : UInt64),
    (HandleTable.machine KernelObject).Reachable HandleTable.Allowed env.handles ∧
    env.Available a1 ∧ env.createObject type a1 a2 = .error .assertFailed ∧
    ¬ env.Serves type a1 (env.createObject type a1 a2)
  := by
  have hfail : plenty.createObject 6 0x100000000 0 = .error .assertFailed := by
    have havl := plenty_available 0x100000000
    rw [createObject_semaphore havl (by decide) (by decide), newSemaphore_fails rfl (by decide)]
    rfl
  refine ⟨plenty, 6, 0x100000000, 0, .start rfl, plenty_available _, hfail, ?_⟩
  rw [hfail]
  exact id

end CreateEnv

end UOS
