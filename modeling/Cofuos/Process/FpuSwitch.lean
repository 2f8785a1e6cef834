import Cofuos.Lib.Refinement

/-!
# The registers of the FPU

A switch of threads leaves the registers of the FPU alone and sets `CR0.TS`. The first instruction of
the FPU after that traps, and only then the registers are saved for their owner and loaded for the
thread that runs. The definitions follow `on_fpu_switch` of `kernel/exception/exception.cpp`,
`save_sse`, `load_sse` and the destructor in `kernel/process/thread.cpp`, and `irq_switch_to` of
`kernel/process/core_state.cpp`, on one core.

Every thread finds its own registers, unless a thread is deleted whose registers have never been
saved while they are in the FPU. The destructor does not clear the owner then, and the registers are
later saved in the thread that is gone, or taken over by a new thread at its address.
-/

namespace UOS

/-- A core with its FPU and its threads. A thread is the address of its object. -/
structure Fpu (τ φ : Type) where
  regs : φ
  /-- `CR0.TS`. -/
  taskSwitched : Bool
  /-- `core_state::fpu_owner`. -/
  owner : Option τ
  thisThread : τ
  /-- `thread::sse`. -/
  sse : τ → Option φ
  /-- The threads that have been created and not been deleted. -/
  threads : List τ

namespace Fpu

variable {τ φ : Type} [DecidableEq τ]

/-- `thread::save_sse`. -/
def saveSse (s : Fpu τ φ) (t : τ) : Fpu τ φ :=
  { s with sse := Function.update s.sse t (some s.regs) }

/-- The registers are saved for their owner, if there is one. -/
def saveOwner (s : Fpu τ φ) : Fpu τ φ :=
  match s.owner with
  | some u => s.saveSse u
  | none => s

/-- `thread::load_sse`. What `fpu_init` does to the registers is given. -/
def loadSse (init : φ → φ) (s : Fpu τ φ) (t : τ) : Fpu τ φ :=
  match s.sse t with
  | some x => { s with regs := x }
  | none => { s with regs := init s.regs }

/-- `on_fpu_switch`. -/
def onFpuSwitch (init : φ → φ) (s : Fpu τ φ) : Fpu τ φ :=
  let s := { s with taskSwitched := false }
  if s.owner = some s.thisThread then s
  else
    let s := s.saveOwner
    let s := s.loadSse init s.thisThread
    { s with owner := some s.thisThread }

/-- An instruction of the FPU. -/
def execute (init : φ → φ) (s : Fpu τ φ) (f : φ → φ) : Fpu τ φ :=
  let s := if s.taskSwitched then s.onFpuSwitch init else s
  { s with regs := f s.regs }

/-- `irq_switch_to`. -/
def irqSwitchTo (s : Fpu τ φ) (t : τ) : Fpu τ φ :=
  { s with taskSwitched := true, thisThread := t }

/-- The constructor of a thread. -/
def create (s : Fpu τ φ) (t : τ) : Fpu τ φ :=
  { s with sse := Function.update s.sse t none, threads := t :: s.threads }

/-- The destructor of a thread. -/
def destroy (s : Fpu τ φ) (t : τ) : Fpu τ φ :=
  let s := if (s.sse t).isSome then
      { s with
        owner := if s.owner = some t then none else s.owner
        sse := Function.update s.sse t none }
    else s
  { s with threads := s.threads.filter (· ≠ t) }

/-- What happens on a core. -/
inductive Action (τ φ : Type) where
  | execute (f : φ → φ)
  | switchTo (t : τ)
  | create (t : τ)
  | destroy (t : τ)

/-- An action, if it is possible. -/
def step (init : φ → φ) (s : Fpu τ φ) : Action τ φ → Option (Fpu τ φ)
  | .execute f => some (s.execute init f)
  | .switchTo t => if t ∈ s.threads then some (s.irqSwitchTo t) else none
  | .create t => if t ∉ s.threads then some (s.create t) else none
  | .destroy t => if t ∈ s.threads ∧ t ≠ s.thisThread then some (s.destroy t) else none

/-- A core from the creation of `core_manager` on: the first thread owns the registers. -/
def machine (τ : Type) [DecidableEq τ] (init : φ → φ) : Machine (Fpu τ φ) (Action τ φ) where
  Start s := s.threads = [s.thisThread] ∧ s.owner = some s.thisThread
  step := step init

/-! ### Threads with their own registers -/

/-- What a thread does with the registers of its own. -/
inductive ThreadStep (τ φ : Type) where
  /-- Its registers are set by `fpu_init`, from whatever is in them. -/
  | start (t : τ) (x : φ)
  | execute (t : τ) (f : φ → φ)
  | create (t : τ)
  | destroy (t : τ)

/-- The threads with the registers that they use. -/
def registers (τ : Type) [DecidableEq τ] (init : φ → φ) :
    Machine (τ → Option φ) (ThreadStep τ φ) where
  Start p := ∃ t x, p = Function.update (fun _ => none) t (some x)
  step p
    | .start t x => if (p t).isNone then some (Function.update p t (some (init x))) else none
    | .execute t f => (p t).map fun x => Function.update p t (some (f x))
    | .create t => if (p t).isNone then some p else none
    | .destroy t => some (Function.update p t none)

/-- The registers of a thread: in the FPU, or where they have been saved. -/
def content (s : Fpu τ φ) (t : τ) : Option φ := if s.owner = some t then some s.regs else s.sse t

/-- The registers of the threads. -/
def view (s : Fpu τ φ) (t : τ) : Option φ := if t ∈ s.threads then s.content t else none

/-- What the threads do in a step of the core. -/
def visible (s : Fpu τ φ) : Action τ φ → List (ThreadStep τ φ)
  | .execute f =>
      if (s.content s.thisThread).isNone then [.start s.thisThread s.regs, .execute s.thisThread f]
      else [.execute s.thisThread f]
  | .switchTo _ => []
  | .create t => [.create t]
  | .destroy t => [.destroy t]

/-- A thread whose registers are in the FPU is deleted only if they have been saved before. -/
def Saved (s : Fpu τ φ) : Action τ φ → Prop
  | .destroy t => s.owner = some t → (s.sse t).isSome = true
  | _ => True

variable {init : φ → φ} {s s' : Fpu τ φ}

/-- What holds between the steps of a core. -/
structure Inv (s : Fpu τ φ) : Prop where
  mem : s.thisThread ∈ s.threads
  owner : ∀ t, s.owner = some t → t ∈ s.threads
  clear : s.taskSwitched = false → s.owner = some s.thisThread

/-! ### The steps -/

omit [DecidableEq τ] in
theorem loadSse_eq (init : φ → φ) (s : Fpu τ φ) (t : τ) :
  s.loadSse init t = { s with regs := (s.sse t).getD (init s.regs) }
  := by
  rw [loadSse]
  cases s.sse t with
  | some x => rfl
  | none => rfl

theorem saveOwner_eq (s : Fpu τ φ) : s.saveOwner = { s with sse := s.content } := by
  obtain ⟨regs, taskSwitched, owner, thisThread, sse, threads⟩ := s
  rw [saveOwner, mk.injEq]
  cases owner with
  | none => exact ⟨rfl, rfl, rfl, rfl, rfl, rfl⟩
  | some u =>
      refine ⟨rfl, rfl, rfl, rfl, ?_, rfl⟩
      funext t
      change Function.update sse u (some regs) t = if some u = some t then some regs else sse t
      by_cases ht : t = u
      · rw [ht, Function.update_self, if_pos rfl]
      · rw [Function.update_of_ne ht, if_neg (by simpa using Ne.symm ht)]

/-- After the trap the registers of the thread that runs are in the FPU, and the others keep theirs. -/
theorem onFpuSwitch_spec (init : φ → φ) (s : Fpu τ φ) :
  ∃ f, s.onFpuSwitch init = { s with
      regs := (s.content s.thisThread).getD (init s.regs)
      taskSwitched := false
      owner := some s.thisThread
      sse := f } ∧
    ∀ t, t ≠ s.thisThread → f t = s.content t
  := by
  rw [onFpuSwitch]
  by_cases howner : s.owner = some s.thisThread
  · refine ⟨s.sse, ?_, ?_⟩
    · simp only [howner, if_true, content, Option.getD_some]
    · intro t ht
      rw [content, howner, if_neg (by simpa using Ne.symm ht)]
  · refine ⟨s.content, ?_, fun t _ => rfl⟩
    simp only [howner, if_false, saveOwner_eq, loadSse_eq]
    rfl

/-- An instruction of the FPU finds the registers of the thread that runs, and changes no others. -/
theorem Inv.execute (h : s.Inv) (init : φ → φ) (f : φ → φ) :
  ∃ g, s.execute init f = { s with
      regs := f ((s.content s.thisThread).getD (init s.regs))
      taskSwitched := false
      owner := some s.thisThread
      sse := g } ∧
    ∀ t, t ≠ s.thisThread → g t = s.content t
  := by
  rw [Fpu.execute]
  cases hts : s.taskSwitched with
  | true =>
      obtain ⟨g, hg, hothers⟩ := onFpuSwitch_spec init s
      refine ⟨g, ?_, hothers⟩
      rw [if_pos rfl, hg]
  | false =>
      have howner := h.clear hts
      refine ⟨s.sse, ?_, ?_⟩
      · rw [if_neg Bool.false_ne_true, content, if_pos howner, ← howner, ← hts]
        rfl
      · intro t ht
        rw [content, howner, if_neg (by simpa using Ne.symm ht)]

/-- The registers of the thread that runs after an instruction of the FPU. -/
theorem view_execute (h : s.thisThread ∈ s.threads) {x : φ} {g : τ → Option φ}
    (hothers : ∀ t, t ≠ s.thisThread → g t = s.content t) :
  Fpu.view { s with regs := x, taskSwitched := false, owner := some s.thisThread, sse := g } =
    Function.update s.view s.thisThread (some x)
  := by
  funext t
  by_cases ht : t = s.thisThread
  · rw [ht, Function.update_self]
    simp [view, content, h]
  · rw [Function.update_of_ne ht]
    simp [view, content, Ne.symm ht, hothers t ht]

theorem view_create (h : s.Inv) {t : τ} (ht : t ∉ s.threads) : (s.create t).view = s.view := by
  funext u
  by_cases hu : u = t
  · subst hu
    have howner : s.owner ≠ some u := by
      intro howner
      apply ht (h.owner u howner)
    simp [view, content, create, howner, ht]
  · simp [view, content, create, hu]

theorem destroy_owner (s : Fpu τ φ) (t : τ) :
  (s.destroy t).owner = if (s.sse t).isSome ∧ s.owner = some t then none else s.owner
  := by
  rw [destroy]
  cases s.sse t with
  | none => rfl
  | some x =>
      by_cases howner : s.owner = some t
      · simp [howner]
      · simp [howner]

/-- A thread that is deleted is no longer there, and the others keep what they have. -/
theorem destroy_spec (s : Fpu τ φ) (t : τ) :
  (s.destroy t).regs = s.regs ∧ (s.destroy t).taskSwitched = s.taskSwitched ∧
    (s.destroy t).thisThread = s.thisThread ∧
    (s.destroy t).threads = s.threads.filter (· ≠ t) ∧
    ∀ u, u ≠ t → (s.destroy t).sse u = s.sse u
  := by
  rw [destroy]
  cases s.sse t with
  | none => exact ⟨rfl, rfl, rfl, rfl, fun u _ => rfl⟩
  | some x => exact ⟨rfl, rfl, rfl, rfl, fun u hu => Function.update_of_ne hu _ _⟩

theorem view_destroy (s : Fpu τ φ) (t : τ) : (s.destroy t).view = Function.update s.view t none := by
  obtain ⟨hregs, _, _, hthreads, hsse⟩ := destroy_spec s t
  funext u
  rw [view, hthreads]
  by_cases hu : u = t
  · simp [hu]
  · rw [Function.update_of_ne hu, view, content, content, destroy_owner, hregs, hsse u hu]
    by_cases howner : s.owner = some t
    · simp [howner, hu, Ne.symm hu]
    · simp [howner, hu]

/-- A thread can be deleted safely exactly when its registers are not in the FPU or have been
saved. -/
theorem Inv.destroy_iff (h : s.Inv) {t : τ} (ht : t ≠ s.thisThread) :
  (s.destroy t).Inv ↔ s.Saved (.destroy t)
  := by
  obtain ⟨_, htaskSwitched, hthis, hthreads, _⟩ := destroy_spec s t
  constructor
  · intro hinv howner
    by_contra hnone
    have hmem := hinv.owner t (by rw [destroy_owner, if_neg (fun hboth => hnone hboth.1), howner])
    rw [hthreads, List.mem_filter] at hmem
    apply of_decide_eq_true hmem.2 rfl
  · intro hsaved
    refine ⟨?_, ?_, ?_⟩
    · rw [hthis, hthreads, List.mem_filter]
      exact ⟨h.mem, decide_eq_true (Ne.symm ht)⟩
    · intro u hu
      rw [destroy_owner] at hu
      split at hu
      · cases hu
      next hnot =>
        rw [hthreads, List.mem_filter]
        refine ⟨h.owner u hu, decide_eq_true ?_⟩
        rintro rfl
        apply hnot ⟨hsaved hu, hu⟩
    · intro hclear
      rw [htaskSwitched] at hclear
      have howner := h.clear hclear
      rw [destroy_owner, hthis, if_neg, howner]
      rintro ⟨_, hsome⟩
      rw [howner, Option.some.injEq] at hsome
      apply ht hsome.symm

theorem exec_visible (h : s.thisThread ∈ s.threads) (init : φ → φ) (f : φ → φ) :
  (registers τ init).exec s.view (s.visible (.execute f)) =
    some (Function.update s.view s.thisThread
      (some (f ((s.content s.thisThread).getD (init s.regs)))))
  := by
  have hview : s.view s.thisThread = s.content s.thisThread := if_pos h
  rw [visible]
  cases hcontent : s.content s.thisThread with
  | none =>
      rw [hcontent] at hview
      simp [Machine.exec, registers, hview]
  | some x =>
      rw [hcontent] at hview
      simp [Machine.exec, registers, hview]

/-- A step of the core is what it shows of the threads. -/
theorem machine_refines (τ : Type) [DecidableEq τ] (init : φ → φ) :
  (machine τ init).Refines (registers τ init) Saved visible (fun s p => s.Inv ∧ p = s.view)
  := by
  rintro s a s' _ ⟨h, rfl⟩ hsaved hstep
  change s.step init a = some s' at hstep
  cases a with
  | execute f =>
      cases hstep
      obtain ⟨g, hg, hothers⟩ := h.execute init f
      refine ⟨_, exec_visible h.mem init f, ?_, ?_⟩
      · rw [hg]
        refine ⟨h.mem, ?_, fun _ => rfl⟩
        intro t ht
        cases ht
        apply h.mem
      · rw [hg, view_execute h.mem hothers]
  | switchTo t =>
      obtain ⟨ht, heq⟩ := Option.ite_none_right_eq_some.mp hstep
      cases heq
      refine ⟨_, rfl, ⟨ht, h.owner, ?_⟩, rfl⟩
      intro hclear
      cases hclear
  | create t =>
      obtain ⟨ht, heq⟩ := Option.ite_none_right_eq_some.mp hstep
      cases heq
      refine ⟨s.view, ?_, ⟨List.mem_cons_of_mem t h.mem, ?_, h.clear⟩, (view_create h ht).symm⟩
      · rw [visible, Machine.exec_singleton]
        exact if_pos (by rw [view, if_neg ht]; rfl)
      · intro u hu
        apply List.mem_cons_of_mem t (h.owner u hu)
  | destroy t =>
      obtain ⟨⟨_, ht⟩, heq⟩ := Option.ite_none_right_eq_some.mp hstep
      cases heq
      exact ⟨_, rfl, (h.destroy_iff ht).mpr hsaved, (view_destroy s t).symm⟩

/-- In every run in which no thread is deleted while the only copy of its registers is in the FPU, the
threads compute as if each of them had an FPU of its own, and the owner of the registers exists. Where
a thread is deleted otherwise, the owner does not exist any more. -/
theorem fpu_private (τ : Type) [DecidableEq τ] (init : φ → φ) {s₀ s : Fpu τ φ}
    {l : List (Action τ φ)} (h₀ : (machine τ init).Start s₀)
    (hsaved : (machine τ init).Follows Saved s₀ l) (hl : (machine τ init).exec s₀ l = some s) :
  (registers τ init).exec s₀.view ((machine τ init).trace visible s₀ l) = some s.view ∧
    (∀ t, s.owner = some t → t ∈ s.threads) ∧
    ∀ t, ¬ s.Saved (.destroy t) →
      (s.destroy t).owner = some t ∧ t ∉ (s.destroy t).threads
  := by
  obtain ⟨hthreads, howner⟩ := h₀
  have hinv₀ : s₀.Inv := by
    refine ⟨?_, ?_, fun _ => howner⟩
    · rw [hthreads]
      apply List.mem_singleton_self
    · intro t ht
      rw [howner, Option.some.injEq] at ht
      rw [hthreads, ht]
      apply List.mem_singleton_self
  obtain ⟨p, hp, hinv, rfl⟩ := (machine_refines τ init).exec ⟨hinv₀, rfl⟩ hsaved hl
  refine ⟨hp, hinv.owner, fun t hnot => ?_⟩
  rw [Saved, Classical.not_imp] at hnot
  rw [destroy_owner, if_neg (fun hboth => hnot.2 hboth.1), (destroy_spec s t).2.2.2.1]
  exact ⟨hnot.1, by simp⟩

/-- A thread uses the FPU, and another one after it. -/
theorem fpu_private_two :
  ∃ s₀ l s, (machine ℕ (fun _ => 0)).Start s₀ ∧
    (machine ℕ (fun _ => 0)).exec s₀ l = some s ∧ s.regs = 5 ∧ s.sse 2 = some 10 ∧
    (registers ℕ (fun _ => 0)).exec s₀.view ((machine ℕ (fun _ => 0)).trace visible s₀ l) =
      some s.view
  := by
  obtain ⟨s₀, hs₀⟩ : ∃ s₀ : Fpu ℕ ℕ, s₀ = ⟨4, false, some 1, 1, fun _ => none, [1]⟩ := ⟨_, rfl⟩
  obtain ⟨l, hl⟩ : ∃ l : List (Action ℕ ℕ), l = [.create 2, .switchTo 2, .execute (· + 10),
    .switchTo 1, .execute (· + 1)] := ⟨_, rfl⟩
  have hstart : (machine ℕ (fun _ => 0)).Start s₀ := by
    rw [hs₀]
    exact ⟨rfl, rfl⟩
  have hexec : ∃ s, (machine ℕ (fun _ => 0)).exec s₀ l = some s ∧ s.regs = 5 ∧ s.sse 2 = some 10 := by
    rw [hs₀, hl]
    exact ⟨_, rfl, rfl, rfl⟩
  obtain ⟨s, hs, hregs, hsse⟩ := hexec
  have hsaved : (machine ℕ (fun _ => 0)).Follows Saved s₀ l := by
    rw [hl]
    refine ⟨trivial, fun _ _ => ⟨trivial, fun _ _ => ⟨trivial, fun _ _ => ⟨trivial, fun _ _ =>
      ⟨trivial, fun _ _ => trivial⟩⟩⟩⟩⟩
  exact ⟨s₀, l, s, hstart, hs, hregs, hsse, (fpu_private ℕ _ hstart hsaved hs).1⟩

/-- When a thread is deleted while the only copy of its registers is in the FPU, a thread that is
created at its address goes on with its registers, and the next thread that uses the FPU saves them
in the object that is gone. -/
theorem fpu_stale (init f : φ → φ) {t u : τ} (ht : t ∈ s.threads) (hthis : t ≠ s.thisThread)
    (howner : s.owner = some t) (hsse : s.sse t = none) (hu : u ∈ s.threads) (hut : u ≠ t) :
  (∃ s', (machine τ init).exec s [.destroy t, .create t, .switchTo t, .execute f] = some s' ∧
    s'.regs = f s.regs) ∧
  ∃ s', (machine τ init).exec s [.destroy t, .switchTo u, .execute f] = some s' ∧
    t ∉ s'.threads ∧ s'.sse t = some s.regs
  := by
  have hdestroy : s.destroy t = { s with threads := s.threads.filter (· ≠ t) } := by
    rw [destroy, hsse]
    rfl
  obtain ⟨s₁, hs₁⟩ : ∃ s₁, s₁ = s.destroy t := ⟨_, rfl⟩
  have howner₁ : s₁.owner = some t := by rw [hs₁, hdestroy, ← howner]
  have hregs₁ : s₁.regs = s.regs := by rw [hs₁, hdestroy]
  have hthreads₁ : t ∉ s₁.threads := by simp [hs₁, hdestroy]
  have hstep : (machine τ init).step s (.destroy t) = some s₁ := by
    rw [hs₁]
    exact if_pos ⟨ht, hthis⟩
  constructor
  · have howns : ((s₁.create t).irqSwitchTo t).owner = some ((s₁.create t).irqSwitchTo t).thisThread :=
      howner₁
    refine ⟨((s₁.create t).irqSwitchTo t).execute init f, ?_, ?_⟩
    · have hcreate : (machine τ init).step s₁ (.create t) = some (s₁.create t) := if_pos hthreads₁
      have hswitch : (machine τ init).step (s₁.create t) (.switchTo t) =
          some ((s₁.create t).irqSwitchTo t) := if_pos List.mem_cons_self
      rw [Machine.exec_cons hstep, Machine.exec_cons hcreate, Machine.exec_cons hswitch]
      rfl
    · change f (((s₁.create t).irqSwitchTo t).onFpuSwitch init).regs = f s.regs
      rw [onFpuSwitch, if_pos howns, ← hregs₁]
      rfl
  · obtain ⟨g, hg, hothers⟩ := onFpuSwitch_spec init (s₁.irqSwitchTo u)
    have hu₁ : u ∈ s₁.threads := by simp [hs₁, hdestroy, hu, hut]
    refine ⟨(s₁.irqSwitchTo u).execute init f, ?_, ?_, ?_⟩
    · have hswitch : (machine τ init).step s₁ (.switchTo u) = some (s₁.irqSwitchTo u) := if_pos hu₁
      rw [Machine.exec_cons hstep, Machine.exec_cons hswitch]
      rfl
    · change t ∉ ((s₁.irqSwitchTo u).onFpuSwitch init).threads
      rw [hg]
      apply hthreads₁
    · change ((s₁.irqSwitchTo u).onFpuSwitch init).sse t = some s.regs
      rw [hg]
      change g t = some s.regs
      rw [hothers t (Ne.symm hut), ← hregs₁]
      exact if_pos howner₁

/-- A new thread goes on with 14, which another thread has computed. -/
theorem fpu_stale_four :
  ∃ s s' : Fpu ℕ ℕ, (machine ℕ (fun _ => 0)).Reachable Machine.anyStep s ∧
    (machine ℕ (fun _ => 0)).exec s [.destroy 2, .create 2, .switchTo 2, .execute (· + 4)] = some s' ∧
    s'.regs = 14
  := by
  have h₀ : (machine ℕ (fun _ => 0)).Reachable Machine.anyStep
      ⟨4, false, some 1, 1, fun _ => none, [1]⟩ := .start ⟨rfl, rfl⟩
  have hexec : ∃ s, (machine ℕ (fun _ => 0)).exec ⟨4, false, some 1, 1, fun _ => none, [1]⟩
      [.create 2, .switchTo 2, .execute (· + 10), .switchTo 1] = some s ∧ s.threads = [2, 1] ∧
      s.thisThread = 1 ∧ s.owner = some 2 ∧ s.sse 2 = none ∧ s.regs = 10 :=
    ⟨_, rfl, rfl, rfl, rfl, rfl, rfl⟩
  obtain ⟨s, hs, hthreads, hthis, howner, hsse, hregs⟩ := hexec
  have hmem : 2 ∈ s.threads ∧ 1 ∈ s.threads := by
    rw [hthreads]
    decide
  obtain ⟨⟨s', hs', hregs'⟩, _⟩ := fpu_stale (fun _ => 0) (· + 4) hmem.1 (by rw [hthis]; decide)
    howner hsse hmem.2 (by decide)
  refine ⟨s, s', h₀.exec hs (fun _ _ _ => trivial), hs', ?_⟩
  rw [hregs', hregs]

end Fpu

end UOS
