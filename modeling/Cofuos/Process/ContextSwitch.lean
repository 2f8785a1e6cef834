import Cofuos.Lib.Refinement

/-!
# Context switches

Between two interrupts a core runs one thread. `irq_entry` of `kernel/hal.asm` saves the registers of
the thread in its `context`, calls `dispatch_irq`, which may choose another thread, and goes on with
the registers in the context of the chosen thread. The definitions follow the instructions. A context
belongs to the address of a thread, and the stack from `rsp` on is a record: the slot where `rbp` is
kept, the return address that tells the number of the interrupt, and what the processor has pushed.

The registers of a thread are those of its own processor: a run of the core is a run of independent
threads, and what happens in an interrupt cannot be seen. `ds` and `es` are not among them: they come
back as `ss`.
-/

namespace UOS

namespace Irq

/-- The general registers in `context`. -/
structure Registers where
  rax : BitVec 64
  rcx : BitVec 64
  rdx : BitVec 64
  rbx : BitVec 64
  rsi : BitVec 64
  rdi : BitVec 64
  rbp : BitVec 64
  r8 : BitVec 64
  r9 : BitVec 64
  r10 : BitVec 64
  r11 : BitVec 64
  r12 : BitVec 64
  r13 : BitVec 64
  r14 : BitVec 64
  r15 : BitVec 64
  deriving DecidableEq

/-- The other fields of `context`: what the processor pushes, and `iretq` pops. -/
structure Frame where
  rip : BitVec 64
  cs : BitVec 64
  rflags : BitVec 64
  rsp : BitVec 64
  ss : BitVec 64
  deriving DecidableEq

/-- `context`. -/
structure Context where
  gpr : Registers
  frame : Frame
  deriving DecidableEq

/-- A core while it is in `irq_entry`. -/
structure Core where
  regs : Registers
  rsp : BitVec 64
  ss : BitVec 16
  ds : BitVec 16
  es : BitVec 16
  zf : Bool
  /-- Whether the base of `gs` is that of `core_state`. -/
  kernelGs : Bool
  /-- `[rsp]` after `sub rsp,0x18`. -/
  slot : BitVec 64
  /-- The return address of the `call near irq_entry` of a stub. -/
  returnAddress : BitVec 64
  /-- What the processor has pushed. -/
  frame : Frame
  /-- `core_state::this_thread`. -/
  thisThread : BitVec 64
  /-- The `qword` at 8 from the base of `gs` of the program. -/
  userGs : BitVec 64
  context : BitVec 64 → Context

/-- `CONX_OFF`. -/
def conxOff : BitVec 64 := 0x58

/-- The lowest 16 bits of a register are replaced. -/
def setWord (r : BitVec 64) (w : BitVec 16) : BitVec 64 := r.extractLsb' 16 48 ++ w

/-- `test word [CS],0x03` finds the code of the kernel. -/
def Frame.inKernel (f : Frame) : Bool := f.cs &&& 3 == 0

namespace Core

/-- `jz` and `swapgs`. -/
def swapgs (c : Core) : Core := { c with kernelGs := if c.zf then c.kernelGs else !c.kernelGs }

/-- `[gs:8]`. -/
def gs8 (c : Core) : BitVec 64 := if c.kernelGs then c.thisThread else c.userGs

/-- Fields of the context of the thread at `rbp` are written. -/
def save (c : Core) (f : Context → Context) : Core :=
  { c with context := Function.update c.context c.regs.rbp (f (c.context c.regs.rbp)) }

/-- `irq_entry` up to `mov rbp,[gs:8]`. -/
def enter (c : Core) : Core :=
  let c := { c with rsp := c.rsp - 0x18 }
  let c := { c with zf := c.frame.inKernel }
  let c := { c with slot := c.regs.rbp }
  let c := c.swapgs
  { c with regs := { c.regs with rbp := c.gs8 } }

/-- `irq_entry` up to the call of `dispatch_irq`. The labels of the stubs start at an address. -/
def store (isrIrq : BitVec 64) (c : Core) : Core :=
  let c := c.save fun k => { k with gpr := { k.gpr with
    rax := c.regs.rax, rcx := c.regs.rcx, rdx := c.regs.rdx
    rbx := c.regs.rbx, rsi := c.regs.rsi, rdi := c.regs.rdi } }
  let c := { c with regs := { c.regs with rax := isrIrq } }
  let c := { c with regs := { c.regs with rcx := c.slot } }
  let c := { c with regs := { c.regs with rdx := c.returnAddress } }
  let c := c.save fun k => { k with gpr := { k.gpr with
    r8 := c.regs.r8, r9 := c.regs.r9, r10 := c.regs.r10, r11 := c.regs.r11, rbp := c.regs.rcx } }
  let c := { c with regs := { c.regs with
    rsi := c.rsp + 0x20
    rdi := c.regs.rbp + conxOff + 0x78
    rdx := c.regs.rdx - c.regs.rax
    rcx := 5 } }
  let c := { c with regs := { c.regs with rax := setWord c.regs.rax c.ss } }
  let c := c.save fun k => { k with gpr := { k.gpr with
    r12 := c.regs.r12, r13 := c.regs.r13, r14 := c.regs.r14, r15 := c.regs.r15 } }
  let c := { c with ds := c.regs.rax.setWidth 16, es := c.regs.rax.setWidth 16 }
  let c := { c with regs := { c.regs with rdx := (c.regs.rdx.setWidth 32 >>> 3).setWidth 64 } }
  -- `rep movsq` from the stack to the context
  let c := c.save fun k => { k with frame := c.frame }
  let c := { c with regs := { c.regs with
    rsi := c.regs.rsi + 0x28, rdi := c.regs.rdi + 0x28, rcx := 0 } }
  { c with regs := { c.regs with rcx := (c.regs.rdx.setWidth 32).setWidth 64 } }

/-- What `dispatch_irq` leaves in the registers and the part of the stack that belong to it. -/
structure Volatile where
  rax : BitVec 64
  rcx : BitVec 64
  rdx : BitVec 64
  r8 : BitVec 64
  r9 : BitVec 64
  r10 : BitVec 64
  r11 : BitVec 64
  zf : Bool
  slot : BitVec 64
  returnAddress : BitVec 64

/-- `dispatch_irq` returns, and has chosen a thread. -/
def dispatched (c : Core) (v : Volatile) (target : BitVec 64) : Core :=
  { c with
    regs := { c.regs with
      rax := v.rax, rcx := v.rcx, rdx := v.rdx, r8 := v.r8, r9 := v.r9, r10 := v.r10, r11 := v.r11 }
    zf := v.zf
    slot := v.slot
    returnAddress := v.returnAddress
    thisThread := target }

/-- `irq_entry` from the return of `dispatch_irq` to `.no_switch`. -/
def choose (c : Core) : Core :=
  let c := { c with regs := { c.regs with rdx := c.gs8 } }
  let c := { c with regs := { c.regs with rbx := 0 } }
  let c := { c with zf := c.regs.rdx == c.regs.rbp }
  let c := { c with regs := { c.regs with rdi := c.rsp + 0x20 } }
  if c.zf then c
  else
    let c := { c with regs := { c.regs with rsi := c.regs.rdx + conxOff + 0x78, rcx := 5 } }
    let c := { c with regs := { c.regs with rbp := c.regs.rdx } }
    -- `rep movsq` from the context to the stack
    let c := { c with frame := (c.context c.regs.rbp).frame }
    { c with regs := { c.regs with
      rsi := c.regs.rsi + 0x28, rdi := c.regs.rdi + 0x28, rcx := 0 } }

/-- `irq_entry` from `.no_switch` to `iretq`. -/
def load (c : Core) : Core :=
  let c := { c with rsp := c.rsp + 0x20 }
  let k := (c.context c.regs.rbp).gpr
  let c := { c with regs := { c.regs with r15 := k.r15, r14 := k.r14, r13 := k.r13, r12 := k.r12 } }
  let c := { c with regs := { c.regs with rax := setWord c.regs.rax (c.frame.ss.setWidth 16) } }
  let c := { c with zf := c.frame.inKernel }
  let c := { c with regs := { c.regs with r11 := k.r11, r10 := k.r10, r9 := k.r9, r8 := k.r8 } }
  let c := c.save fun k => { k with frame := { k.frame with rflags := c.regs.rbx } }
  let c := c.swapgs
  let c := { c with ds := c.regs.rax.setWidth 16, es := c.regs.rax.setWidth 16 }
  let k := (c.context c.regs.rbp).gpr
  let c := { c with regs := { c.regs with
    rdi := k.rdi, rsi := k.rsi, rbx := k.rbx, rdx := k.rdx, rcx := k.rcx, rax := k.rax } }
  { c with regs := { c.regs with rbp := (c.context c.regs.rbp).gpr.rbp } }

/-- `irq_entry`, up to `iretq`. -/
def irqEntry (isrIrq : BitVec 64) (v : Volatile) (target : BitVec 64) (c : Core) : Core :=
  ((((c.enter).store isrIrq).dispatched v target).choose).load

/-! ### What the parts of `irq_entry` do -/

variable {c : Core}

/-- The base of `gs` is the kernel's exactly in the code of the kernel. -/
def GsFits (c : Core) : Prop := c.kernelGs = c.frame.inKernel

theorem GsFits.enter (h : c.GsFits) :
  (c.enter).kernelGs = true ∧ (c.enter).regs = { c.regs with rbp := c.thisThread }
  := by
  have hgs : (c.enter).kernelGs = true := by
    change (if c.frame.inKernel then c.kernelGs else !c.kernelGs) = true
    rw [h]
    cases c.frame.inKernel with
    | false => rfl
    | true => rfl
  refine ⟨hgs, ?_⟩
  change { c.regs with rbp := if (c.enter).kernelGs then c.thisThread else c.userGs } = _
  rw [hgs]
  rfl

/-- The whole context is written. -/
theorem store_context (isrIrq : BitVec 64) :
  (c.store isrIrq).context =
    Function.update c.context c.regs.rbp ⟨{ c.regs with rbp := c.slot }, c.frame⟩
  := by
  simp only [store, save, Function.update_self, Function.update_idem]

/-- `dispatch_irq` is given the number of the stub. -/
theorem store_rcx {isrIrq : BitVec 64} (i : Fin 0x20)
    (h : c.returnAddress = isrIrq + (8 * BitVec.ofNat 64 i + 5)) :
  (c.store isrIrq).regs.rcx = BitVec.ofNat 64 i
  := by
  change ((((c.returnAddress - isrIrq).setWidth 32 >>> 3).setWidth 64).setWidth 32).setWidth 64 = _
  rw [h, BitVec.add_comm, BitVec.add_sub_cancel]
  clear h
  revert i
  decide

theorem setWidth_setWord (r : BitVec 64) (w : BitVec 16) : (setWord r w).setWidth 16 = w := by
  have h : (r.extractLsb' 16 48 ++ w).setWidth 16 = w := by
    rw [BitVec.setWidth_append, dif_pos (Nat.le_refl 16), BitVec.setWidth_eq]
  exact h

/-- The frame of the chosen thread is on the stack, and its context at `rbp`. -/
theorem choose_frame (hgs : c.kernelGs = true) (hframe : (c.context c.regs.rbp).frame = c.frame) :
  (c.choose).frame = (c.context c.thisThread).frame ∧ (c.choose).regs.rbp = c.thisThread ∧
    (c.choose).regs.rbx = 0 ∧ (c.choose).kernelGs = true ∧ (c.choose).context = c.context ∧
    (c.choose).thisThread = c.thisThread
  := by
  rw [choose]
  simp only [gs8, hgs, if_true]
  by_cases heq : c.thisThread = c.regs.rbp
  · rw [if_pos (by simp [heq])]
    refine ⟨?_, heq.symm, rfl, rfl, rfl, rfl⟩
    rw [heq, hframe]
  · rw [if_neg (by simp [heq])]
    exact ⟨rfl, rfl, rfl, rfl, rfl, rfl⟩

theorem load_spec (hgs : c.kernelGs = true) :
  (c.load).regs = (c.context c.regs.rbp).gpr ∧ (c.load).frame = c.frame ∧ (c.load).GsFits ∧
    (c.load).ds = c.frame.ss.setWidth 16 ∧ (c.load).es = c.frame.ss.setWidth 16 ∧
    (c.load).thisThread = c.thisThread ∧
    (c.load).context = Function.update c.context c.regs.rbp { c.context c.regs.rbp with
      frame := { (c.context c.regs.rbp).frame with rflags := c.regs.rbx } }
  := by
  have hds : ∀ r : BitVec 64, (setWord r (c.frame.ss.setWidth 16)).setWidth 16 =
      c.frame.ss.setWidth 16 := fun r => setWidth_setWord r _
  refine ⟨?_, rfl, ?_, hds _, hds _, rfl, rfl⟩
  · simp only [load, save, swapgs, Function.update_self]
  · change (if c.frame.inKernel then c.kernelGs else !c.kernelGs) = c.frame.inKernel
    rw [hgs]
    cases c.frame.inKernel with
    | false => rfl
    | true => rfl

/-- What an interrupt does: the registers of the core go to the context of the thread that has run, and
those in the context of the chosen thread come to the core. That context is marked as invalid. -/
theorem irqEntry_spec (h : c.GsFits) (isrIrq : BitVec 64) (v : Volatile) (target : BitVec 64)
    {k : BitVec 64 → Context}
    (hk : k = Function.update c.context c.thisThread ⟨c.regs, c.frame⟩) :
  (c.irqEntry isrIrq v target).regs = (k target).gpr ∧
    (c.irqEntry isrIrq v target).frame = (k target).frame ∧
    (c.irqEntry isrIrq v target).GsFits ∧
    (c.irqEntry isrIrq v target).thisThread = target ∧
    (c.irqEntry isrIrq v target).context = Function.update k target
      { k target with frame := { (k target).frame with rflags := 0 } }
  := by
  obtain ⟨hgs, hregs⟩ := h.enter
  have hcontext : ((c.enter).store isrIrq).context = k := by
    rw [store_context, hregs, hk]
    rfl
  obtain ⟨d, hd⟩ : ∃ d, d = ((c.enter).store isrIrq).dispatched v target := ⟨_, rfl⟩
  have hdgs : d.kernelGs = true := by
    rw [hd]
    exact hgs
  have hdcontext : d.context = k := by
    rw [hd]
    exact hcontext
  have hdthread : d.thisThread = target := by
    rw [hd]
    rfl
  have hdframe : (d.context d.regs.rbp).frame = d.frame := by
    have hrbp : d.regs.rbp = c.thisThread := by
      rw [hd]
      change (c.enter).regs.rbp = c.thisThread
      rw [hregs]
    rw [hdcontext, hrbp, hk, Function.update_self, hd]
    rfl
  obtain ⟨hframe, hrbp, hrbx, hgs', hcontext', hthread⟩ := choose_frame hdgs hdframe
  obtain ⟨hregs', hframe', hfits, _, _, hthread', hcontext''⟩ := load_spec hgs'
  rw [irqEntry, ← hd, hregs', hframe', hthread', hcontext'', hframe, hrbp, hrbx, hcontext', hthread,
    hdcontext, hdthread]
  exact ⟨rfl, rfl, hfits, rfl, rfl⟩

end Core

/-- A core between two instructions of a thread. -/
structure Cpu where
  regs : Registers
  /-- `rip`, `cs`, `rflags`, `rsp` and `ss`. -/
  frame : Frame
  ds : BitVec 16
  es : BitVec 16
  kernelGs : Bool
  /-- The stack for interrupts in user mode. -/
  rsp0 : BitVec 64
  thisThread : BitVec 64
  userGs : BitVec 64
  context : BitVec 64 → Context
  /-- The threads that have been created and not been deleted. -/
  threads : List (BitVec 64)

namespace Cpu

/-- An interrupt arrives: the processor pushes its registers, and the stub calls `irq_entry`. -/
def interrupt (isrIrq : BitVec 64) (s : Cpu) (i : Fin 0x20) : Core where
  regs := s.regs
  rsp := (if s.frame.inKernel then s.frame.rsp &&& ~~~0xF else s.rsp0) - 0x30
  ss := if s.frame.inKernel then s.frame.ss.setWidth 16 else 0
  ds := s.ds
  es := s.es
  zf := s.frame.rflags.getLsbD 6
  kernelGs := s.kernelGs
  slot := 0
  returnAddress := isrIrq + (8 * BitVec.ofNat 64 i + 5)
  frame := s.frame
  thisThread := s.thisThread
  userGs := s.userGs
  context := s.context

/-- `iretq`. -/
def iretq (s : Cpu) (c : Core) : Cpu :=
  { s with
    regs := c.regs
    frame := c.frame
    ds := c.ds
    es := c.es
    kernelGs := c.kernelGs
    thisThread := c.thisThread
    context := c.context }

/-- An interrupt of which the handler chooses a thread. -/
def irq (isrIrq : BitVec 64) (s : Cpu) (i : Fin 0x20) (v : Core.Volatile) (target : BitVec 64) : Cpu :=
  s.iretq ((s.interrupt isrIrq i).irqEntry isrIrq v target)

/-- The core in `dispatch_irq`. -/
def handler (isrIrq : BitVec 64) (s : Cpu) (i : Fin 0x20) : Core :=
  ((s.interrupt isrIrq i).enter).store isrIrq

/-- `thread::has_context`. -/
def hasContext (s : Cpu) (t : BitVec 64) : Bool := (s.context t).frame.rflags != 0

/-- The context of a new thread. The other registers are left as they are. -/
def newContext (left : Registers) (entry top rcx rdx r8 r9 : BitVec 64) : Context where
  gpr := { left with rbp := top, rcx := rcx, rdx := rdx, r8 := r8, r9 := r9 }
  frame := { rip := entry, cs := 8, rflags := 0x202, rsp := top - 0x30, ss := 0x10 }

/-- The number of `IRQ_CONTEXT_TRAP` among the interrupts. -/
def contextTrap : Fin 0x20 := ⟨1, by decide⟩

/-- What happens on a core. -/
inductive Action where
  /-- The thread executes instructions until it has these registers. -/
  | run (regs : Registers) (frame : Frame) (ds es : BitVec 16)
  /-- A thread is created. -/
  | spawn (t : BitVec 64) (left : Registers) (entry top rcx rdx r8 r9 : BitVec 64)
  /-- A thread is deleted, and its memory is used for other things. -/
  | delete (t : BitVec 64) (left : Context)
  /-- An interrupt, whose handler chooses a thread. -/
  | irq (i : Fin 0x20) (v : Core.Volatile) (target : BitVec 64)
  /-- `context_trap`, whose handler chooses the thread that is in `rcx` of the context. -/
  | trap (v : Core.Volatile)

/-- An action, if it is possible. When interrupts are on, the base of `gs` is the kernel's exactly in
the code of the kernel. Bit 1 of `rflags` is always 1. -/
def step (isrIrq : BitVec 64) (s : Cpu) : Action → Option Cpu
  | .run regs frame ds es =>
      if frame.rflags &&& 2 ≠ 0 then
        some { s with regs := regs, frame := frame, ds := ds, es := es, kernelGs := frame.inKernel }
      else none
  | .spawn t left entry top rcx rdx r8 r9 =>
      if t ∉ s.threads then
        some { s with
          context := Function.update s.context t (newContext left entry top rcx rdx r8 r9)
          threads := t :: s.threads }
      else none
  | .delete t left =>
      if t ≠ s.thisThread then
        some { s with
          context := Function.update s.context t left
          threads := s.threads.filter (· ≠ t) }
      else none
  | .irq i v target =>
      if s.frame.rflags &&& 0x200 ≠ 0 ∧ target ∈ s.threads then some (s.irq isrIrq i v target)
      else none
  | .trap v =>
      let target := ((s.handler isrIrq contextTrap).context s.thisThread).gpr.rcx
      if s.frame.inKernel ∧ target ∈ s.threads then some (s.irq isrIrq contextTrap v target)
      else none

/-- A core from the creation of its first thread on. -/
def machine (isrIrq : BitVec 64) : Machine Cpu Action where
  Start s := s.threads = [s.thisThread] ∧ s.hasContext s.thisThread = false ∧
    s.kernelGs = s.frame.inKernel ∧ s.frame.rflags &&& 2 ≠ 0
  step := step isrIrq

end Cpu

/-! ### Threads with their own processors -/

/-- What a thread does that has its own processor. -/
inductive ThreadStep where
  | run (t : BitVec 64) (c : Context)
  | spawn (t : BitVec 64) (c : Context)
  | delete (t : BitVec 64)

/-- The threads with their registers. -/
def processors : Machine (BitVec 64 → Option Context) ThreadStep where
  Start p := ∃ t c, p = Function.update (fun _ => none) t (some c)
  step p
    | .run t c => if (p t).isSome then some (Function.update p t (some c)) else none
    | .spawn t c => if (p t).isNone then some (Function.update p t (some c)) else none
    | .delete t => some (Function.update p t none)

namespace Cpu

/-- The registers of the threads: those of the thread that runs are in the core. -/
def view (s : Cpu) (t : BitVec 64) : Option Context :=
  if t ∈ s.threads then some (if t = s.thisThread then ⟨s.regs, s.frame⟩ else s.context t)
  else none

/-- What the threads do in a step of the core. -/
def visible (s : Cpu) : Action → List ThreadStep
  | .run regs frame _ _ => [.run s.thisThread ⟨regs, frame⟩]
  | .spawn t left entry top rcx rdx r8 r9 => [.spawn t (newContext left entry top rcx rdx r8 r9)]
  | .delete t _ => [.delete t]
  | .irq _ _ _ => []
  | .trap _ => []

variable {s s' : Cpu} {isrIrq : BitVec 64}

/-- What holds between the steps of a core. -/
structure Inv (s : Cpu) : Prop where
  mem : s.thisThread ∈ s.threads
  gs : s.kernelGs = s.frame.inKernel
  flags : s.frame.rflags &&& 2 ≠ 0
  running : (s.context s.thisThread).frame.rflags = 0
  others : ∀ t ∈ s.threads, t ≠ s.thisThread → (s.context t).frame.rflags &&& 2 ≠ 0

/-- The contexts while the handler of an interrupt runs. -/
def saved (s : Cpu) : BitVec 64 → Context :=
  Function.update s.context s.thisThread ⟨s.regs, s.frame⟩

theorem view_eq_saved (s : Cpu) (t : BitVec 64) :
  s.view t = if t ∈ s.threads then some (s.saved t) else none
  := by
  rw [view, saved]
  by_cases ht : t = s.thisThread
  · rw [ht, if_pos rfl, Function.update_self]
  · rw [if_neg ht, Function.update_of_ne ht]

theorem Inv.handler_context (h : s.Inv) (i : Fin 0x20) :
  (s.handler isrIrq i).context = s.saved ∧ (s.handler isrIrq i).regs.rcx = BitVec.ofNat 64 i
  := by
  refine ⟨?_, ?_⟩
  · have hfits : (s.interrupt isrIrq i).GsFits := h.gs
    rw [handler, Core.store_context, hfits.enter.2]
    rfl
  · apply Core.store_rcx
    rfl

/-- While the handler of an interrupt runs all threads have a context. -/
theorem Inv.saved_flags (h : s.Inv) {t : BitVec 64} (ht : t ∈ s.threads) :
  (s.saved t).frame.rflags &&& 2 ≠ 0
  := by
  by_cases heq : t = s.thisThread
  · rw [saved, heq, Function.update_self]
    apply h.flags
  · rw [saved, Function.update_of_ne heq]
    apply h.others t ht heq

/-- An interrupt keeps the registers of the threads. -/
theorem Inv.irq (h : s.Inv) (i : Fin 0x20) (v : Core.Volatile) {target : BitVec 64}
    (htarget : target ∈ s.threads) :
  (s.irq isrIrq i v target).thisThread = target ∧ (s.irq isrIrq i v target).Inv ∧
    (s.irq isrIrq i v target).view = s.view
  := by
  have hfits : (s.interrupt isrIrq i).GsFits := h.gs
  have hk : s.saved = Function.update (s.interrupt isrIrq i).context (s.interrupt isrIrq i).thisThread
      ⟨(s.interrupt isrIrq i).regs, (s.interrupt isrIrq i).frame⟩ := rfl
  obtain ⟨hregs, hframe, hgs, hthread, hcontext⟩ := Core.irqEntry_spec hfits isrIrq v target hk
  obtain ⟨s', hs'⟩ : ∃ s', s' = s.irq isrIrq i v target := ⟨_, rfl⟩
  have hregs' : s'.regs = (s.saved target).gpr := by rw [hs']; exact hregs
  have hframe' : s'.frame = (s.saved target).frame := by rw [hs']; exact hframe
  have hthread' : s'.thisThread = target := by rw [hs']; exact hthread
  have hthreads : s'.threads = s.threads := by rw [hs']; rfl
  have hcontext' : s'.context = Function.update s.saved target
      { s.saved target with frame := { (s.saved target).frame with rflags := 0 } } := by
    rw [hs']
    exact hcontext
  rw [← hs']
  refine ⟨hthread', ⟨?_, ?_, ?_, ?_, ?_⟩, ?_⟩
  · rw [hthread', hthreads]
    apply htarget
  · rw [hs']
    exact hgs
  · rw [hframe']
    apply h.saved_flags htarget
  · rw [hthread', hcontext', Function.update_self]
  · intro t ht hne
    rw [hthreads] at ht
    rw [hthread'] at hne
    rw [hcontext', Function.update_of_ne hne]
    apply h.saved_flags ht
  · funext t
    rw [view_eq_saved s, view, hthreads, hthread', hregs', hframe']
    by_cases ht : t = target
    · rw [if_pos ht, ht]
    · rw [if_neg ht, hcontext', Function.update_of_ne ht]

theorem Inv.run (h : s.Inv) {regs : Registers} {frame : Frame} {ds es : BitVec 16}
    (hstep : s.step isrIrq (.run regs frame ds es) = some s') :
  s'.Inv ∧ Function.update s.view s.thisThread (some ⟨regs, frame⟩) = s'.view
  := by
  obtain ⟨hflags, heq⟩ := Option.ite_none_right_eq_some.mp hstep
  cases heq
  refine ⟨⟨h.mem, rfl, hflags, h.running, h.others⟩, ?_⟩
  funext t
  change _ = if t ∈ s.threads then some (if t = s.thisThread then ⟨regs, frame⟩ else s.context t)
    else none
  by_cases ht : t = s.thisThread
  · rw [ht, Function.update_self, if_pos h.mem, if_pos rfl]
  · rw [Function.update_of_ne ht, view, if_neg ht, if_neg ht]

theorem Inv.spawn (h : s.Inv) {t : BitVec 64} {left : Registers}
    {entry top rcx rdx r8 r9 : BitVec 64}
    (hstep : s.step isrIrq (.spawn t left entry top rcx rdx r8 r9) = some s') :
  s.view t = none ∧ s'.Inv ∧
    Function.update s.view t (some (newContext left entry top rcx rdx r8 r9)) = s'.view
  := by
  obtain ⟨ht, heq⟩ := Option.ite_none_right_eq_some.mp hstep
  have hne : s.thisThread ≠ t := by
    rintro rfl
    apply ht h.mem
  cases heq
  refine ⟨if_neg ht, ⟨List.mem_cons_of_mem t h.mem, h.gs, h.flags, ?_, ?_⟩, ?_⟩
  · change (Function.update s.context t _ s.thisThread).frame.rflags = 0
    rw [Function.update_of_ne hne]
    apply h.running
  · intro u hu hthis
    change (Function.update s.context t _ u).frame.rflags &&& 2 ≠ 0
    rcases List.mem_cons.mp hu with rfl | hmem
    · rw [Function.update_self]
      change (0x202 : BitVec 64) &&& 2 ≠ 0
      decide
    · have hut : u ≠ t := by
        rintro rfl
        apply ht hmem
      rw [Function.update_of_ne hut]
      apply h.others u hmem hthis
  · funext u
    simp only [view, List.mem_cons]
    by_cases hu : u = t
    · rw [hu, Function.update_self, if_pos (.inl rfl), if_neg (Ne.symm hne), Function.update_self]
    · simp only [hu, Function.update_of_ne, false_or, ne_eq, not_false_eq_true]
      rw [view]

theorem Inv.delete (h : s.Inv) {t : BitVec 64} {left : Context}
    (hstep : s.step isrIrq (.delete t left) = some s') :
  s'.Inv ∧ Function.update s.view t none = s'.view
  := by
  obtain ⟨hne, heq⟩ := Option.ite_none_right_eq_some.mp hstep
  cases heq
  refine ⟨⟨?_, h.gs, h.flags, ?_, ?_⟩, ?_⟩
  · change s.thisThread ∈ s.threads.filter (· ≠ t)
    rw [List.mem_filter]
    exact ⟨h.mem, decide_eq_true (Ne.symm hne)⟩
  · change (Function.update s.context t left s.thisThread).frame.rflags = 0
    rw [Function.update_of_ne (Ne.symm hne)]
    apply h.running
  · intro u hu hthis
    obtain ⟨hmem, hut⟩ := List.mem_filter.mp hu
    change (Function.update s.context t left u).frame.rflags &&& 2 ≠ 0
    rw [Function.update_of_ne (of_decide_eq_true hut)]
    apply h.others u hmem hthis
  · funext u
    simp only [view, List.mem_filter]
    by_cases hu : u = t
    · simp [hu]
    · simp [hu, view]

/-- A step of the core is what it shows of the threads. -/
theorem machine_refines (isrIrq : BitVec 64) :
  (machine isrIrq).Refines processors Machine.anyStep visible (fun s p => s.Inv ∧ p = s.view)
  := by
  rintro s a s' _ ⟨h, rfl⟩ _ hstep
  change s.step isrIrq a = some s' at hstep
  cases a with
  | run regs frame ds es =>
      obtain ⟨hinv, hview⟩ := h.run hstep
      have hsome : (s.view s.thisThread).isSome = true := by
        rw [view, if_pos h.mem]
        rfl
      refine ⟨_, ?_, hinv, hview⟩
      rw [visible, Machine.exec_singleton]
      exact if_pos hsome
  | spawn t left entry top rcx rdx r8 r9 =>
      obtain ⟨hnone, hinv, hview⟩ := h.spawn hstep
      refine ⟨_, ?_, hinv, hview⟩
      rw [visible, Machine.exec_singleton]
      exact if_pos (by rw [hnone]; rfl)
  | delete t left =>
      obtain ⟨hinv, hview⟩ := h.delete hstep
      exact ⟨_, rfl, hinv, hview⟩
  | irq i v target =>
      obtain ⟨⟨_, htarget⟩, heq⟩ := Option.ite_none_right_eq_some.mp hstep
      cases heq
      obtain ⟨_, hinv, hview⟩ := h.irq i v htarget
      exact ⟨_, rfl, hinv, hview.symm⟩
  | trap v =>
      obtain ⟨⟨_, htarget⟩, heq⟩ := Option.ite_none_right_eq_some.mp hstep
      cases heq
      obtain ⟨_, hinv, hview⟩ := h.irq contextTrap v htarget
      exact ⟨_, rfl, hinv, hview.symm⟩

/-- What the code of the kernel may rely on. -/
structure Promise (isrIrq : BitVec 64) (s : Cpu) : Prop where
  /-- Outside interrupts only the thread that runs has no context. -/
  hasContext : ∀ t ∈ s.threads, s.hasContext t = true ↔ t ≠ s.thisThread
  /-- The handler of an interrupt finds contexts for all threads, and the number of the interrupt. -/
  handler : ∀ i, (s.handler isrIrq i).regs.rcx = BitVec.ofNat 64 i ∧
    ∀ t ∈ s.threads, some ((s.handler isrIrq i).context t) = s.view t ∧
      ((s.handler isrIrq i).context t).frame.rflags ≠ 0
  /-- A thread goes on with its registers when it is chosen. -/
  resumes : ∀ i v, ∀ t ∈ s.threads, (s.irq isrIrq i v t).thisThread = t ∧
    some ⟨(s.irq isrIrq i v t).regs, (s.irq isrIrq i v t).frame⟩ = s.view t
  /-- `context_trap` goes to the thread that it is given. -/
  trap : ((s.handler isrIrq contextTrap).context s.thisThread).gpr.rcx = s.regs.rcx

theorem Inv.promise (h : s.Inv) (isrIrq : BitVec 64) : s.Promise isrIrq := by
  have hne : ∀ f : BitVec 64, f &&& 2 ≠ 0 → f ≠ 0 := by
    rintro f hf rfl
    apply hf rfl
  refine ⟨?_, ?_, ?_, ?_⟩
  · intro t ht
    rw [hasContext, bne_iff_ne]
    constructor
    · rintro hflags rfl
      apply hflags h.running
    · intro hthis
      apply hne _ (h.others t ht hthis)
  · intro i
    obtain ⟨hcontext, hrcx⟩ := @Inv.handler_context _ isrIrq h i
    refine ⟨hrcx, fun t ht => ?_⟩
    rw [hcontext, view_eq_saved, if_pos ht]
    exact ⟨rfl, hne _ (h.saved_flags ht)⟩
  · intro i v t ht
    obtain ⟨hthis, hinv, hview⟩ := @Inv.irq _ isrIrq h i v t ht
    have hmem := hinv.mem
    rw [hthis] at hmem
    refine ⟨hthis, ?_⟩
    rw [← hview, view, if_pos hmem, if_pos hthis.symm]
  · rw [(@Inv.handler_context _ isrIrq h contextTrap).1, saved, Function.update_self]

/-- A run of the core, with interrupts that come at any time and choose any threads, is a run of
threads that have their own processors, in which the interrupts do nothing. -/
theorem irq_transparent (isrIrq : BitVec 64) {s₀ s : Cpu} {l : List Action}
    (h₀ : (machine isrIrq).Start s₀) (hl : (machine isrIrq).exec s₀ l = some s) :
  processors.exec s₀.view ((machine isrIrq).trace visible s₀ l) = some s.view ∧ s.Promise isrIrq
  := by
  obtain ⟨hthreads, hcontext, hgs, hflags⟩ := h₀
  have hinv₀ : s₀.Inv := by
    refine ⟨?_, hgs, hflags, ?_, ?_⟩
    · rw [hthreads]
      apply List.mem_singleton_self
    · rw [hasContext, bne_eq_false_iff_eq] at hcontext
      apply hcontext
    · intro t ht hne
      rw [hthreads, List.mem_singleton] at ht
      apply absurd ht hne
  obtain ⟨p, hp, hinv, rfl⟩ := (machine_refines isrIrq).exec ⟨hinv₀, rfl⟩
    (Machine.follows_anyStep _ s₀ l) hl
  exact ⟨hp, hinv.promise isrIrq⟩

/-- A core with one thread, whose registers are all 0. -/
def start : Cpu where
  regs := ⟨0, 0, 0, 0, 0, 0, 0, 0, 0, 0, 0, 0, 0, 0, 0⟩
  frame := ⟨0, 8, 2, 0, 0x10⟩
  ds := 0x10
  es := 0x10
  kernelGs := true
  rsp0 := 0x3000
  thisThread := 0x1000
  userGs := 0
  context _ := ⟨⟨0, 0, 0, 0, 0, 0, 0, 0, 0, 0, 0, 0, 0, 0, 0⟩, ⟨0, 0, 0, 0, 0⟩⟩
  threads := [0x1000]

/-- A thread switches to a new one, which is interrupted in user mode. -/
theorem irq_transparent_back :
  ∃ l s, (machine 0x4000).exec start l = some s ∧ s.thisThread = 0x1000 ∧ s.regs.rax = 7 ∧
    processors.exec start.view ((machine 0x4000).trace visible start l) = some s.view ∧
    s.Promise 0x4000
  := by
  have hl : ∃ s, (machine 0x4000).exec start
      [.spawn 0x2000 start.regs 0x5000 0x6000 1 2 3 4,
       .run { start.regs with rax := 7, rcx := 0x2000 } start.frame 0x10 0x10,
       .trap ⟨9, 9, 9, 9, 9, 9, 9, false, 9, 9⟩,
       .run { start.regs with rax := 8 } ⟨0x7000, 0x33, 0x202, 0x8000, 0x2B⟩ 0x2B 0x2B,
       .irq 2 ⟨9, 9, 9, 9, 9, 9, 9, false, 9, 9⟩ 0x1000] = some s ∧
      s.thisThread = 0x1000 ∧ s.regs.rax = 7 := ⟨_, rfl, rfl, rfl⟩
  obtain ⟨s, hl, hthis, hrax⟩ := hl
  have hstart : (machine 0x4000).Start start := ⟨rfl, rfl, rfl, by decide⟩
  exact ⟨_, s, hl, hthis, hrax, irq_transparent 0x4000 hstart hl⟩

end Cpu

end Irq

end UOS
