import Cofuos.Lib.Fault

/-!
# The block cache

The cache keeps pages of eight sectors in slots. A slot has a mask of the sectors that are
valid and a mask of those that are dirty, and a lock that its user holds from `get` to `relax`.
The definitions follow `kernel/dev/disk_interface.cpp`.

Any number of threads use the cache, and they switch at any time. The state of a thread is the
point of the program that it has come to, and a step takes one thread to its next point. A step
changes at most one slot, and issues at most one command to the disk. What the disk answers and
what the timer says are inputs of the step. A thread that waits for the event `slot_guard` may
go on at any time.
-/

namespace UOS

open Fault

namespace Disk

/-! ### Slots -/

/-- The first sector of the page of a sector. -/
def pageLba (lba : ℕ) : ℕ := lba / 8 * 8

/-- The number of sectors from `lba` to the end of its page. -/
def count (lba : ℕ) : ℕ :=
  let top := (lba + 7) / 8 * 8
  if top = lba then 8 else top - lba

/-- The bit of the sector `i` of a page. -/
def mask (i : ℕ) : BitVec 8 := 1#8 <<< i

/-- A slot. Its lock is only ever taken in exclusive mode, and holds the thread that owns it. -/
structure Slot (σ : Type) where
  lbaBase : ℕ
  valid : BitVec 8 := 0
  dirty : BitVec 8 := 0
  timestamp : ℕ := 0
  access : ℕ → σ
  objlock : Option ℕ := none

namespace Slot

variable {σ : Type}

/-- The slot holds the page at `alignedLba`. -/
def isMatch (slot : Slot σ) (alignedLba : ℕ) : Bool :=
  slot.valid ≠ 0 ∧ slot.lbaBase = alignedLba

/-- The sectors of a slot that lie in a range of the disk. -/
def sectors (slot : Slot σ) (lba count : ℕ) : List ℕ :=
  (List.range count).map fun i => lba - slot.lbaBase + i

/-- Forgets the contents of a slot, which is to hold the page at `alignedLba`. -/
def rebase (slot : Slot σ) (alignedLba : ℕ) : Slot σ :=
  { slot with valid := 0, lbaBase := alignedLba }

/-- The part of `store` after the slot has got its page: the sectors are marked dirty, and
filled with zeros. -/
def fill [Zero σ] (debug : Bool) (slot : Slot σ) (lba count now : ℕ) :
    Except Fault (Slot σ) := do
  let dirty ← (slot.sectors lba count).foldlM (fun dirty i => do
    assert debug (i < 8)
    return dirty ||| mask i) slot.dirty
  return { slot with
    dirty := dirty
    access := fun i => if i ∈ slot.sectors lba count then 0 else slot.access i
    valid := slot.valid ||| dirty
    timestamp := now }

/-- The sectors are marked dirty: the loop of `upgrade`. -/
def upgrade (debug : Bool) (slot : Slot σ) (lba count : ℕ) : Except Fault (Slot σ) := do
  let dirty ← (slot.sectors lba count).foldlM (fun dirty i => do
    assert debug (i < 8)
    assert debug (slot.valid &&& mask i ≠ 0)
    return dirty ||| mask i) slot.dirty
  return { slot with dirty := dirty }

/-- The place of a sector in the slot. -/
def data (debug : Bool) (slot : Slot σ) (lba : ℕ) : Except Fault ℕ := do
  assert debug (slot.valid ≠ 0)
  assert debug (slot.lbaBase = pageLba lba)
  return lba - slot.lbaBase

/-- The disk after the sectors from `head` to `i` of a slot have been written. -/
def write (slot : Slot σ) (disk : ℕ → σ) (head i : ℕ) : ℕ → σ := fun lba =>
  if slot.lbaBase + head ≤ lba ∧ lba < slot.lbaBase + i then slot.access (lba - slot.lbaBase)
  else disk lba

/-- The slot after its page has been read from the disk. -/
def read (slot : Slot σ) (disk : ℕ → σ) (now : ℕ) : Slot σ :=
  { slot with access := fun i => disk (slot.lbaBase + i), valid := 0xFF, timestamp := now }

end Slot

/-! ### Threads -/

/-- The arguments of `get`. -/
structure Call where
  lba : ℕ
  count : ℕ
  write : Bool
  deriving DecidableEq, Repr

/-- The first sector of the page that is asked for. -/
def Call.page (c : Call) : ℕ := pageLba c.lba

/-- What a thread goes on with after `slot::flush`. -/
inductive Cont where
  | reload (c : Call) (alignedLba : ℕ)
  | store (c : Call)
  | relax
  | sweep
  deriving DecidableEq, Repr

/-- The points of the program that a thread may be at. -/
inductive Pc where
  /-- Outside of the cache. -/
  | idle
  /-- `get` has returned the slot `k`. -/
  | got (k : ℕ) (c : Call)
  /-- In `get`, before the slot `index`, or after the loop. -/
  | search (c : Call) (times index : ℕ) (target : Option ℕ)
  /-- In `get`, before `cur.lock()`. -/
  | lock (c : Call) (times index : ℕ) (target : Option ℕ)
  /-- In `get`, after `cur.lock()`. -/
  | locked (c : Call) (times index : ℕ) (target : Option ℕ)
  /-- In `get`, before `cur.try_lock()`. -/
  | probe (c : Call) (times index : ℕ) (target : Option ℕ)
  /-- Before `slot::load`. -/
  | load (k : ℕ) (c : Call)
  /-- Before `slot::reload`. -/
  | reload (k : ℕ) (c : Call) (alignedLba : ℕ)
  /-- In `slot::reload`, before the command. -/
  | read (k : ℕ) (c : Call)
  /-- Before `slot::store`. -/
  | store (k : ℕ) (c : Call)
  /-- In `slot::store`, when the slot has its page. -/
  | fill (k : ℕ) (c : Call)
  /-- Before `slot::flush`. -/
  | flush (k : ℕ) (cont : Cont)
  /-- In the loop of `slot::flush`. -/
  | flushLoop (k i head : ℕ) (cont : Cont)
  /-- After `slot::flush`, with its result. -/
  | flushed (k : ℕ) (cont : Cont) (res : Bool)
  /-- In `disk_interface::flush`, before the slot `index`. -/
  | sweep (index : ℕ)
  deriving DecidableEq, Repr

/-- The thread is not in a function of the cache. -/
def Pc.outside : Pc → Bool
  | idle | got _ _ => true
  | _ => false

/-- The slots, the disk, and the threads. -/
structure State (σ : Type) where
  slot : ℕ → Slot σ
  disk : ℕ → σ
  pc : ℕ → Pc

namespace State

variable {σ : Type}

/-- The thread `t` goes to the point `p`. -/
def goto (s : State σ) (t : ℕ) (p : Pc) : State σ :=
  { s with pc := Function.update s.pc t p }

/-- Replaces the slot `k`. -/
def setSlot (s : State σ) (k : ℕ) (slot : Slot σ) : State σ :=
  { s with slot := Function.update s.slot k slot }

@[simp]
theorem goto_slot (s : State σ) (t : ℕ) (p : Pc) : (s.goto t p).slot = s.slot := rfl

@[simp]
theorem goto_disk (s : State σ) (t : ℕ) (p : Pc) : (s.goto t p).disk = s.disk := rfl

@[simp]
theorem goto_pc_self (s : State σ) (t : ℕ) (p : Pc) : (s.goto t p).pc t = p :=
  Function.update_self ..

theorem goto_pc_of_ne (s : State σ) {t t' : ℕ} (p : Pc) (h : t' ≠ t) :
  (s.goto t p).pc t' = s.pc t'
  := Function.update_of_ne h ..

@[simp]
theorem setSlot_pc (s : State σ) (k : ℕ) (slot : Slot σ) : (s.setSlot k slot).pc = s.pc := rfl

@[simp]
theorem setSlot_disk (s : State σ) (k : ℕ) (slot : Slot σ) : (s.setSlot k slot).disk = s.disk :=
  rfl

@[simp]
theorem setSlot_slot_self (s : State σ) (k : ℕ) (slot : Slot σ) :
  (s.setSlot k slot).slot k = slot
  := Function.update_self ..

theorem setSlot_slot_of_ne (s : State σ) {k k' : ℕ} (slot : Slot σ) (h : k' ≠ k) :
  (s.setSlot k slot).slot k' = s.slot k'
  := Function.update_of_ne h ..

/-- The thread `t` takes the lock of the slot `k`. -/
def lock (s : State σ) (t k : ℕ) : State σ :=
  s.setSlot k { s.slot k with objlock := some t }

/-- The lock of the slot `k` is given back. -/
def unlock (s : State σ) (k : ℕ) : State σ :=
  s.setSlot k { s.slot k with objlock := none }

/-- The lock of the slot `k` is free. -/
def free (s : State σ) (k : ℕ) : Bool := (s.slot k).objlock = none

/-- One step of the thread `t` inside the cache, of `n` slots. -/
def run [Zero σ] (debug : Bool) (n : ℕ) (s : State σ) (t : ℕ) (ok : Bool) (now : ℕ) :
    Except Fault (State σ) :=
  match s.pc t with
  | .idle | .got _ _ => return s
  | .search c times index target => do
      assert debug (c.page = pageLba c.page)
      if index < n then
        if (s.slot index).isMatch c.page = true then
          return s.goto t (.lock c times index target)
        else
          return s.goto t (.probe c times index target)
      else
        match target with
        | some k =>
            if s.free k = true then
              return (s.lock t k).goto t (if c.write = true then .store k c else .reload k c c.page)
            else if times + 1 = 0x100 then
              .error (.bugcheck "disk_interface::get failed")
            else
              return s.goto t (.search c (times + 1) 0 none)
        | none =>
            if times + 1 = 0x100 then
              .error (.bugcheck "disk_interface::get failed")
            else
              return s.goto t (.search c (times + 1) 0 none)
  | .lock c times index target => return (s.lock t index).goto t (.locked c times index target)
  | .locked c times index target =>
      if (s.slot index).isMatch c.page = true then
        return s.goto t (if c.write = true then .store index c else .load index c)
      else
        return (s.unlock index).goto t (.probe c times index target)
  | .probe c times index target =>
      let older := target.all fun k => (s.slot k).timestamp > (s.slot index).timestamp
      let target := if s.free index = true ∧ older = true then some index else target
      return s.goto t (.search c times (index + 1) target)
  | .load k c => do
      assert debug (s.free k = false)
      assert debug ((s.slot k).lbaBase = c.page)
      if (s.slot k).valid = 0xFF then
        return s.goto t (.got k c)
      else
        assert debug ((s.slot k).dirty ≠ 0)
        return s.goto t (.reload k c (s.slot k).lbaBase)
  | .reload k c alignedLba => do
      assert debug (s.free k = false)
      assert debug (alignedLba = pageLba alignedLba)
      return s.goto t (.flush k (.reload c alignedLba))
  | .read k c =>
      if ok = true then
        return (s.setSlot k ((s.slot k).read s.disk now)).goto t (.got k c)
      else
        return s.goto t .idle
  | .store k c => do
      assert debug (s.free k = false)
      if c.page ≠ (s.slot k).lbaBase then
        return s.goto t (.flush k (.store c))
      else
        return s.goto t (.fill k c)
  | .fill k c => do
      let slot ← (s.slot k).fill debug c.lba c.count now
      return (s.setSlot k slot).goto t (.got k c)
  | .flush k cont => do
      assert debug (s.free k = false)
      if (s.slot k).dirty = 0 then
        return s.goto t (.flushed k cont true)
      else
        return s.goto t (.flushLoop k 0 0 cont)
  | .flushLoop k i head cont =>
      -- the mask of the eighth round does not fit into a byte and is zero
      if i ≤ 8 then
        if (s.slot k).dirty.getLsbD i = true then
          return s.goto t (.flushLoop k (i + 1) head cont)
        else if head ≠ i then
          if ok = true then
            return { s with disk := (s.slot k).write s.disk head i }.goto t
              (.flushLoop k (i + 1) (i + 1) cont)
          else
            return s.goto t (.flushed k cont false)
        else
          return s.goto t (.flushLoop k (i + 1) (i + 1) cont)
      else
        return (s.setSlot k { s.slot k with dirty := 0 }).goto t (.flushed k cont true)
  | .flushed k cont res =>
      match cont with
      | .reload c alignedLba =>
          if res = true then
            return (s.setSlot k ((s.slot k).rebase alignedLba)).goto t (.read k c)
          else
            return s.goto t .idle
      | .store c =>
          if res = true then
            return (s.setSlot k ((s.slot k).rebase c.page)).goto t (.fill k c)
          else
            return s.goto t .idle
      | .relax => return (s.unlock k).goto t .idle
      | .sweep => return (s.unlock k).goto t (.sweep (k + 1))
  | .sweep index =>
      if index < n then
        if s.free index = true then
          return (s.lock t index).goto t (.flush index .sweep)
        else
          return s.goto t (.sweep (index + 1))
      else
        return s.goto t .idle

end State

/-! ### What threads ask for -/

/-- What happens next: a thread `t` calls a function of the cache, writes to a sector of a slot
that it holds, or goes on inside the cache. Then `ok` is how the disk answers, and `now` is
what the timer says. -/
inductive Input (σ : Type) where
  | get (t : ℕ) (c : Call)
  | upgrade (t k lba count : ℕ)
  | data (t k lba : ℕ)
  | edit (t k lba : ℕ) (value : σ)
  | relax (t k : ℕ) (flush : Bool)
  | flush (t : ℕ)
  | run (t : ℕ) (ok : Bool) (now : ℕ)

namespace State

variable {σ : Type}

/-- The thread `t` holds the slot `k`, and is not in a function of the cache. -/
def holds (n : ℕ) (s : State σ) (t k : ℕ) : Bool :=
  (s.pc t).outside = true ∧ k < n ∧ (s.slot k).objlock = some t

/-- What may happen next. Slots are only passed to the cache by threads that have got them, and
a thread only passes the lock of a slot when it is free. -/
def enabled (n : ℕ) (s : State σ) : Input σ → Bool
  | .get t _ | .flush t => (s.pc t).outside
  | .upgrade t k _ _ | .data t k _ | .edit t k _ _ | .relax t k _ => s.holds n t k
  | .run t _ _ =>
      match s.pc t with
      | .lock _ _ index _ => s.free index
      | p => !p.outside

/-- What happens next. -/
def next [Zero σ] (debug : Bool) (n : ℕ) (s : State σ) : Input σ → Except Fault (State σ)
  | .get t c =>
      if c.count > count c.lba then
        .error (.bugcheck "disk_interface::get bad param %x,%d")
      else
        return s.goto t (.search c 0 0 none)
  | .upgrade t k lba cnt => do
      assert debug (k < n)
      assert debug (s.free k = false)
      if pageLba lba ≠ (s.slot k).lbaBase ∨ cnt > count lba then
        .error (.bugcheck "disk_interface::upgrade bad param %x,%d")
      else
        let slot ← (s.slot k).upgrade debug lba cnt
        return (s.setSlot k slot).goto t .idle
  | .data t k lba => do
      let _ ← (s.slot k).data debug lba
      return s.goto t .idle
  | .edit t k lba value => do
      let i ← (s.slot k).data debug lba
      return (s.setSlot k { s.slot k with
        access := Function.update (s.slot k).access i value }).goto t .idle
  | .relax t k flush => do
      assert debug (k < n)
      return s.goto t (if flush = true ∧ (s.slot k).dirty ≠ 0 then .flush k .relax
        else .flushed k .relax true)
  | .flush t => return s.goto t (.sweep 0)
  | .run t ok now => s.run debug n t ok now

/-- What happens with one input after the other, as long as they are enabled and nothing
fails. -/
def exec [Zero σ] (debug : Bool) (n : ℕ) : List (Input σ) → State σ → Option (State σ)
  | [], s => some s
  | input :: inputs, s =>
      if s.enabled n input = true then
        match s.next debug n input with
        | .ok s => s.exec debug n inputs
        | .error _ => none
      else
        none

end State

/-! ### What clients know -/

/-- What the clients of the cache know: the last contents of every sector, by which call a slot
is held, and which sectors may be written. -/
structure View (σ : Type) where
  content : ℕ → σ
  obtained : ℕ → Option Call
  editable : ℕ → ℕ → Prop

namespace View

variable {σ : Type}

/-- A call of `get` has returned the slot `k`. The sectors of a write are zero, and may be
written. -/
def got [Zero σ] (v : View σ) (k : ℕ) (c : Call) : View σ where
  content := fun lba =>
    if c.write = true ∧ c.lba ≤ lba ∧ lba < c.lba + c.count then 0 else v.content lba
  obtained := Function.update v.obtained k (some c)
  editable := Function.update v.editable k
    fun lba => c.write = true ∧ c.lba ≤ lba ∧ lba < c.lba + c.count

/-- What the clients know after a step to the state `s`. -/
def after [Zero σ] (v : View σ) (s : State σ) : Input σ → View σ
  | .upgrade _ k lba cnt => { v with
      editable := Function.update v.editable k
        fun lba' => v.editable k lba' ∨ lba ≤ lba' ∧ lba' < lba + cnt }
  | .edit _ _ lba value => { v with content := Function.update v.content lba value }
  | .relax _ k _ => { v with
      obtained := Function.update v.obtained k none
      editable := Function.update v.editable k fun _ => False }
  | .run t _ _ =>
      match s.pc t with
      | .got k c => v.got k c
      | _ => v
  | _ => v

/-- A step inside `get` does not change what the clients know. -/
theorem after_run [Zero σ] {v : View σ} {s : State σ} {t now : ℕ} {ok : Bool} {p : Pc}
    (hp : s.pc t = p) (hne : ∀ k c, p ≠ .got k c) :
  v.after s (.run t ok now) = v
  := by
  rw [after, hp]
  cases p with
  | got k c => apply absurd rfl (hne k c)
  | _ => rfl

theorem after_got [Zero σ] {v : View σ} {s : State σ} {t now k : ℕ} {ok : Bool} {c : Call}
    (hp : s.pc t = .got k c) :
  v.after s (.run t ok now) = v.got k c
  := by
  rw [after, hp]

/-- Reading leaves the contents alone. -/
theorem content_got [Zero σ] {v : View σ} {k : ℕ} {c : Call} (hw : c.write = false) :
  (v.got k c).content = v.content
  := by
  funext lba
  simp [got, hw]

end View

/-- The runs of a cache of `n` slots, all of whose inputs are allowed, with what its clients
know. The disk has the contents `disk` when the cache is new, and the slots are empty. -/
inductive Run {σ : Type} [Zero σ] (debug : Bool) (n : ℕ)
    (allowed : View σ → State σ → Input σ → Prop) (disk : ℕ → σ) : View σ → State σ → Prop
  | new (slot : ℕ → Slot σ)
      (h : ∀ k, (slot k).valid = 0 ∧ (slot k).dirty = 0 ∧ (slot k).objlock = none) :
      Run debug n allowed disk ⟨disk, fun _ => none, fun _ _ => False⟩
        ⟨slot, disk, fun _ => .idle⟩
  | step {v : View σ} {s s' : State σ} (input : Input σ) : Run debug n allowed disk v s →
      s.enabled n input = true → allowed v s input → s.next debug n input = .ok s' →
      Run debug n allowed disk (v.after s' input) s'

/-- A new cache over a disk of zeros. -/
def empty : State ℕ where
  slot := fun _ => { lbaBase := 0, access := fun _ => 0 }
  disk := fun _ => 0
  pc := fun _ => .idle

/-- A run goes on with any inputs that are allowed. -/
theorem Run.exec {σ : Type} [Zero σ] {debug : Bool} {n : ℕ}
    {allowed : View σ → State σ → Input σ → Prop} {disk : ℕ → σ}
    (inputs : List (Input σ)) (hall : ∀ input ∈ inputs, ∀ v s, allowed v s input) {v : View σ}
    {s s' : State σ} (h : Run debug n allowed disk v s)
    (hexec : s.exec debug n inputs = some s') :
  ∃ v', Run debug n allowed disk v' s'
  := by
  induction inputs generalizing v s with
  | nil =>
      cases hexec
      exact ⟨v, h⟩
  | cons input inputs ih =>
      rw [State.exec] at hexec
      split_ifs at hexec with hen
      split at hexec
      case h_1 s₁ heq =>
        have hin := hall input (by simp) v s
        apply ih (fun input' h' => hall input' (by simp [h'])) (h.step input hen hin heq) hexec
      case h_2 => cases hexec

end Disk

end UOS
