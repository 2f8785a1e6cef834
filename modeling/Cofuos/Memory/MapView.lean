import Cofuos.Lib.Refinement

/-!
# Windows into the physical memory

The kernel looks at a frame through a `map_view`: a window of the address space, whose entry in a
table is made to point to the frame. All threads share the table, and `map` and `unmap` of
`kernel/memory/vm.cpp` take and leave entries without a lock. The definitions follow them, one access
to the shared table at a time, in a build with assertions. The processor may remember the translation
of a window for as long as it is not told to forget it, and may forget it at any time.

No two views have the same window, whatever the order of the accesses. Over the frames themselves, a
view is something simpler: a name for a frame, through which its bytes are read and written.
-/

namespace UOS

namespace MapView

/-- `MAP_VIEW_BASE`. -/
def mapViewBase : ℕ := 0xFFFF800000200000

/-- The bits of an entry that tell the frame. -/
def frameOf (entry : BitVec 64) : BitVec 64 := entry &&& 0x000FFFFFFFFFF000

/-- What the processor takes from an entry: the frame, and whether it may be written. -/
structure Translation where
  frame : BitVec 64
  write : Bool
  deriving DecidableEq

/-- The translation of an entry. `PAGE_WRITE` is bit 1. -/
def translationOf (entry : BitVec 64) : Translation := ⟨frameOf entry, entry.getLsbD 1⟩

/-- `PAGE_PRESENT` is set. -/
def isPresent (entry : BitVec 64) : Bool := entry.getLsbD 0

/-- What `map` asserts of its argument `attrib`. -/
def attribOk (attrib : BitVec 64) : Bool := attrib &&& 0x7FFFFFFFFFFFF004 == 0

/-- `(void*)(MAP_VIEW_BASE + PAGE_SIZE * index)`. -/
def windowAt (index : ℕ) : ℕ := mapViewBase + 0x1000 * index

/-- `(addr - MAP_VIEW_BASE) >> 12`. -/
def indexOf (addr : ℕ) : ℕ := (addr - mapViewBase) / 0x1000

theorem isPresent_or (x y : BitVec 64) : isPresent (x ||| y) = (isPresent x || isPresent y) :=
  BitVec.getLsbD_or

theorem frameOf_or (x y : BitVec 64) : frameOf (x ||| y) = frameOf x ||| frameOf y := by
  rw [frameOf, BitVec.and_or_distrib_right]
  rfl

theorem translationOf_or (x y : BitVec 64) :
  translationOf (x ||| y) = ⟨(translationOf x).frame ||| (translationOf y).frame,
    (translationOf x).write || (translationOf y).write⟩
  := by
  rw [translationOf, frameOf_or, BitVec.getLsbD_or]
  rfl

/-- The attributes of an entry do not touch the frame. -/
theorem frameOf_attrib {attrib : BitVec 64} (h : attribOk attrib = true) : frameOf attrib = 0 := by
  rw [attribOk, beq_iff_eq] at h
  have hmask : (0x000FFFFFFFFFF000 : BitVec 64) = 0x7FFFFFFFFFFFF004 &&& 0x000FFFFFFFFFF000 := rfl
  rw [frameOf, hmask, ← BitVec.and_assoc, h]
  rfl

/-- The entry that `map` writes. -/
theorem frameOf_entry {attrib : BitVec 64} (h : attribOk attrib = true) (pa : BitVec 64) :
  frameOf (attrib ||| pa ||| 1) = frameOf pa
  := by
  have hone : frameOf 1 = 0 := rfl
  rw [frameOf_or, frameOf_or, frameOf_attrib h, hone]
  simp

/-- What `map` compares tells whether the entry is still clear. -/
theorem isPresent_of_ne {old : BitVec 64} (h : isPresent old = true) :
  (0 ^^^ old) &&& ~~~0x60 ≠ 0
  := by
  intro heq
  have hbit := congrArg (fun x : BitVec 64 => x.getLsbD 0) heq
  have hclear : old.getLsbD 0 = false := by simpa using hbit
  rw [isPresent, hclear] at h
  cases h

theorem indexOf_windowAt (i : ℕ) : indexOf (windowAt i) = i := by
  rw [indexOf, windowAt, Nat.add_sub_cancel_left, Nat.mul_div_cancel_left i (by decide)]

theorem windowAt_inj {i j : ℕ} (h : windowAt i = windowAt j) : i = j := by
  rw [← indexOf_windowAt i, h, indexOf_windowAt]

theorem windowAt_ne_zero (i : ℕ) : windowAt i ≠ 0 := by
  rw [windowAt, mapViewBase]
  lia

/-- What stops the kernel. -/
inductive Bug where
  /-- The assertions of `map` about its arguments. -/
  | wrongArgument
  /-- The assertion of `unmap` about its pointer. -/
  | misaligned
  /-- `map_view::map failed` -/
  | mapFailed
  | outOfRange
  | doubleFree
  /-- There is no page at the address. -/
  | pageFault
  /-- The page may not be written. -/
  | writeFault
  deriving DecidableEq

/-- The arguments of `map`. -/
structure Args where
  pa : BitVec 64
  attrib : BitVec 64

/-- Where the code of a view is. -/
inductive Pc where
  /-- Not in `map` or `unmap`. -/
  | out
  /-- In `unmap`, with the arguments of `map` if that has called it. -/
  | unmap (next : Option Args)
  /-- At `invlpg`, after the entry has been cleared. -/
  | flush (index : ℕ) (next : Option Args)
  /-- In the loop of `map`. -/
  | scan (a : Args) (index : ℕ)
  /-- At `cmpxchg`, after an entry has been read. -/
  | claim (a : Args) (index : ℕ) (originValue : BitVec 64)

/-- The table, what the processor remembers of it, the bytes of the frames, and the views. -/
structure Windows (τ : Type) where
  table : ℕ → BitVec 64
  tlb : ℕ → Option Translation
  mem : BitVec 64 → BitVec 12 → UInt8
  /-- `map_view::view`. -/
  view : τ → ℕ
  pc : τ → Pc
  bug : Option Bug

/-- What happens to views, and in the processor. -/
inductive Action (τ : Type) where
  | map (v : τ) (a : Args)
  /-- `unmap`, as the destructor calls it. -/
  | unmap (v : τ)
  /-- The code of a view goes on to its next access. -/
  | access (v : τ)
  /-- A byte is written through a view. -/
  | store (v : τ) (offset : BitVec 12) (b : UInt8)
  /-- A byte is read through a view. -/
  | load (v : τ) (offset : BitVec 12) (b : UInt8)
  /-- The processor remembers the translation of a window. -/
  | fill (index : ℕ)
  /-- It forgets it. -/
  | evict (index : ℕ)
  /-- It marks an entry as accessed, or as dirty. -/
  | mark (index : ℕ) (dirty : Bool)

namespace Windows

variable {τ : Type} [DecidableEq τ]

def goto (s : Windows τ) (v : τ) (p : Pc) : Windows τ := { s with pc := Function.update s.pc v p }

def setView (s : Windows τ) (v : τ) (view : ℕ) : Windows τ :=
  { s with view := Function.update s.view v view }

def setEntry (s : Windows τ) (index : ℕ) (entry : BitVec 64) : Windows τ :=
  { s with table := Function.update s.table index entry }

def setTlb (s : Windows τ) (index : ℕ) (t : Option Translation) : Windows τ :=
  { s with tlb := Function.update s.tlb index t }

omit [DecidableEq τ] in
def bugcheck (s : Windows τ) (b : Bug) : Windows τ := { s with bug := some b }

/-- `map`, up to the first access. -/
def map (s : Windows τ) (v : τ) (a : Args) : Windows τ :=
  if a.pa &&& 0xFFF != 0 || !attribOk a.attrib then s.bugcheck .wrongArgument
  else if s.view v = 0 then s.goto v (.scan a 0)
  else s.goto v (.unmap (some a))

/-- `unmap`, up to the first access. -/
def unmap (s : Windows τ) (v : τ) : Windows τ :=
  if s.view v = 0 then s else s.goto v (.unmap none)

/-- Where `unmap` returns to. -/
def afterUnmap : Option Args → Pc
  | none => .out
  | some a => .scan a 0

/-- The next access of `map` and `unmap`. -/
def access (s : Windows τ) (v : τ) : Option (Windows τ) :=
  match s.pc v with
  | .out => none
  | .unmap next =>
      let addr := s.view v
      let index := indexOf addr
      if addr % 0x1000 ≠ 0 then some (s.bugcheck .misaligned)
      else if addr < mapViewBase ∨ index ≥ 0x200 then some (s.bugcheck .outOfRange)
      else if isPresent (s.table index) then some ((s.setEntry index 0).goto v (.flush index next))
      else some ((s.setEntry index 0).bugcheck .doubleFree)
  | .flush index next => some (((s.setTlb index none).setView v 0).goto v (afterUnmap next))
  | .scan a index =>
      if index < 0x200 then
        if isPresent (s.table index) then some (s.goto v (.scan a (index + 1)))
        else some (s.goto v (.claim a index (s.table index)))
      else some (s.bugcheck .mapFailed)
  | .claim a index originValue =>
      let old := s.table index
      let s := if old = originValue then s.setEntry index (a.attrib ||| a.pa ||| 1) else s
      if (originValue ^^^ old) &&& ~~~0x60 = 0 then some ((s.setView v (windowAt index)).goto v .out)
      else some (s.goto v (.scan a (index + 1)))

omit [DecidableEq τ] in
/-- Where the processor finds the bytes of a window. -/
def translate (s : Windows τ) (index : ℕ) : Option Translation :=
  match s.tlb index with
  | some t => some t
  | none => if isPresent (s.table index) then some (translationOf (s.table index)) else none

/-- A byte of a frame is set. -/
def poke (s : Windows τ) (f : BitVec 64) (offset : BitVec 12) (b : UInt8) : Windows τ :=
  { s with mem := Function.update s.mem f (Function.update (s.mem f) offset b) }

/-- The code outside of `map` and `unmap` has a pointer into the window of the view. -/
def usable (s : Windows τ) (v : τ) : Bool :=
  match s.pc v with
  | .out => s.view v != 0
  | _ => false

/-- An action, if it is possible. The kernel has set `CR0.WP`: it may write to a page only if the
translation says so. -/
def step (s : Windows τ) (a : Action τ) : Option (Windows τ) :=
  if s.bug.isSome then none
  else match a with
  | .map v a => match s.pc v with
      | .out => some (s.map v a)
      | _ => none
  | .unmap v => match s.pc v with
      | .out => some (s.unmap v)
      | _ => none
  | .access v => s.access v
  | .store v offset b =>
      if s.usable v then
        match s.translate (indexOf (s.view v)) with
        | none => some (s.bugcheck .pageFault)
        | some t =>
            if t.write then some ((s.setTlb (indexOf (s.view v)) (some t)).poke t.frame offset b)
            else some (s.bugcheck .writeFault)
      else none
  | .load v offset b =>
      if s.usable v then
        match s.translate (indexOf (s.view v)) with
        | none => some (s.bugcheck .pageFault)
        | some t =>
            if s.mem t.frame offset = b then some (s.setTlb (indexOf (s.view v)) (some t)) else none
      else none
  | .fill index =>
      if isPresent (s.table index) then some (s.setTlb index (some (translationOf (s.table index))))
      else none
  | .evict index => some (s.setTlb index none)
  | .mark index dirty =>
      if isPresent (s.table index) then
        some (s.setEntry index (s.table index ||| if dirty then 0x60 else 0x20))
      else none

/-! ### Views and their windows -/

/-- The view has a window, and its entry. -/
def owns (s : Windows τ) (v : τ) : Bool :=
  match s.pc v with
  | .flush _ _ => false
  | _ => s.view v != 0

/-- A view has left a window that the processor may still remember. -/
def Leaving (s : Windows τ) (i : ℕ) : Prop := ∃ v next, s.pc v = .flush i next

end Windows

/-- The arguments with which `unmap` returns to `map` have been checked. -/
def Args.Ok (next : Option Args) : Prop := ∀ a, next = some a → attribOk a.attrib = true

/-- What holds of the pointer of a view where its code is. -/
def Pc.Fits (view : ℕ) : Pc → Prop
  | .out => True
  | .unmap next => view ≠ 0 ∧ Args.Ok next
  | .flush i next => view = windowAt i ∧ Args.Ok next
  | .scan a i => view = 0 ∧ i ≤ 0x200 ∧ attribOk a.attrib = true
  | .claim a i originValue =>
      view = 0 ∧ i < 0x200 ∧ originValue = 0 ∧ attribOk a.attrib = true

namespace Windows

variable {τ : Type}

/-- What holds in every order of the accesses. -/
structure Inv (s : Windows τ) : Prop where
  fits : ∀ v, (s.pc v).Fits (s.view v)
  place : ∀ v, s.view v ≠ 0 → ∃ i < 0x200, s.view v = windowAt i
  clear : ∀ i, isPresent (s.table i) = false → s.table i = 0
  owned : ∀ i, isPresent (s.table i) = true ↔ ∃ v, s.owns v = true ∧ s.view v = windowAt i
  unique : ∀ u v, s.owns u = true → s.owns v = true → s.view u = s.view v → u = v

/-- Why the kernel stops: because of a wrong argument of `map`, at the end of a search that has gone
through the whole table, or at a store through a view that the processor does not let write. -/
def Stops (s : Windows τ) : Bug → Prop
  | .wrongArgument => True
  | .mapFailed => ∃ v a, s.pc v = .scan a 0x200
  | .writeFault => ∃ v t, s.usable v = true ∧ s.translate (indexOf (s.view v)) = some t ∧
      t.write = false
  | _ => False

/-- What the processor remembers is right, except of windows that are being left. -/
structure Coherent (s : Windows τ) : Prop where
  tlb : ∀ i t, s.tlb i = some t →
    isPresent (s.table i) = true ∧ t = translationOf (s.table i) ∨ s.Leaving i
  leaving : ∀ i, s.Leaving i → isPresent (s.table i) = false

variable [DecidableEq τ] {s s' : Windows τ} {v : τ} {p : Pc}

omit [DecidableEq τ] in
theorem owns_of_pc (h : ∀ i next, s.pc v ≠ .flush i next) : s.owns v = (s.view v != 0) := by
  rw [owns]
  cases hpc : s.pc v with
  | flush i next => exact absurd hpc (h i next)
  | _ => rfl

omit [DecidableEq τ] in
theorem view_of_owns (h : s.owns v = true) : s.view v ≠ 0 := by
  rw [owns] at h
  cases hpc : s.pc v with
  | flush i next => simp only [hpc, Bool.false_eq_true] at h
  | _ => simpa [hpc] using h

theorem goto_pc (s : Windows τ) (v : τ) (p : Pc) : (s.goto v p).pc v = p := by
  simp only [Windows.goto, Function.update_self]

theorem goto_pc_of_ne (s : Windows τ) (p : Pc) {u v : τ} (h : u ≠ v) : (s.goto v p).pc u = s.pc u := by
  simp only [Windows.goto, Function.update_of_ne h]

omit [DecidableEq τ] in
theorem setEntry_table (s : Windows τ) (i : ℕ) (entry : BitVec 64) :
  (s.setEntry i entry).table i = entry
  := by
  simp only [setEntry, Function.update_self]

omit [DecidableEq τ] in
theorem setEntry_table_of_ne (s : Windows τ) (entry : BitVec 64) {i j : ℕ} (h : j ≠ i) :
  (s.setEntry i entry).table j = s.table j
  := by
  simp only [setEntry, Function.update_of_ne h]

theorem setView_view (s : Windows τ) (v : τ) (view : ℕ) : (s.setView v view).view v = view := by
  simp only [setView, Function.update_self]

theorem setView_view_of_ne (s : Windows τ) (view : ℕ) {u v : τ} (h : u ≠ v) :
  (s.setView v view).view u = s.view u
  := by
  simp only [setView, Function.update_of_ne h]

/-- The code of a view goes on, and the view keeps or lacks its window. -/
theorem Inv.goto (h : s.Inv) (hp : p.Fits (s.view v)) (howns : (s.goto v p).owns v = s.owns v) :
  (s.goto v p).Inv
  := by
  have hsame : (s.goto v p).owns = s.owns := by
    funext u
    by_cases hu : u = v
    · rw [hu, howns]
    · rw [owns, owns, goto_pc_of_ne s p hu]
      rfl
  refine ⟨?_, h.place, h.clear, ?_, ?_⟩
  · intro u
    by_cases hu : u = v
    · rw [hu, goto_pc]
      exact hp
    · rw [goto_pc_of_ne s p hu]
      exact h.fits u
  · rw [hsame]
    exact h.owned
  · rw [hsame]
    exact h.unique

omit [DecidableEq τ] in
theorem Inv.bugcheck (h : s.Inv) (b : Bug) : (s.bugcheck b).Inv :=
  ⟨h.fits, h.place, h.clear, h.owned, h.unique⟩

theorem Inv.map (h : s.Inv) (hpc : s.pc v = .out) (a : Args) : (s.map v a).Inv := by
  have howns : s.owns v = (s.view v != 0) := owns_of_pc (by simp [hpc])
  rw [Windows.map]
  split_ifs with hbad hview
  · apply h.bugcheck
  · simp only [Bool.or_eq_true, not_or, Bool.not_eq_true, Bool.not_eq_false'] at hbad
    apply h.goto (p := .scan a 0) ⟨hview, Nat.zero_le _, hbad.2⟩
    rw [howns, owns, goto_pc]
    rfl
  · simp only [Bool.or_eq_true, not_or, Bool.not_eq_true, Bool.not_eq_false'] at hbad
    have hok : Args.Ok (some a) := by
      intro b hb
      cases hb
      exact hbad.2
    apply h.goto (p := .unmap (some a)) ⟨hview, hok⟩
    rw [howns, owns, goto_pc]
    rfl

theorem Inv.unmap (h : s.Inv) (hpc : s.pc v = .out) : (s.unmap v).Inv := by
  have howns : s.owns v = (s.view v != 0) := owns_of_pc (by simp [hpc])
  rw [Windows.unmap]
  split_ifs with hview
  · exact h
  · have hok : Args.Ok none := fun a ha => by cases ha
    apply h.goto (p := .unmap none) ⟨hview, hok⟩
    rw [howns, owns, goto_pc]
    rfl

/-- One view and one entry change, and the entry is set exactly if the view has it. -/
theorem Inv.change (h : s.Inv) {t : Windows τ} {i : ℕ} (hpc : ∀ u, u ≠ v → t.pc u = s.pc u)
    (hview : ∀ u, u ≠ v → t.view u = s.view u) (htable : ∀ j, j ≠ i → t.table j = s.table j)
    (hfits : (t.pc v).Fits (t.view v))
    (hplace : t.view v ≠ 0 → i < 0x200 ∧ t.view v = windowAt i)
    (hbefore : s.owns v = true → s.view v = windowAt i)
    (hothers : ∀ u, u ≠ v → s.owns u = true → s.view u ≠ windowAt i)
    (hclear : isPresent (t.table i) = false → t.table i = 0)
    (howned : isPresent (t.table i) = t.owns v) :
  t.Inv
  := by
  have hother : ∀ u, u ≠ v → t.owns u = s.owns u := by
    intro u hu
    rw [owns, owns, hpc u hu, hview u hu]
  have hself : t.owns v = true → t.view v = windowAt i := fun ho => (hplace (view_of_owns ho)).2
  refine ⟨?_, ?_, ?_, ?_, ?_⟩
  · intro u
    by_cases hu : u = v
    · rw [hu]
      exact hfits
    · rw [hpc u hu, hview u hu]
      exact h.fits u
  · intro u
    by_cases hu : u = v
    · rw [hu]
      exact fun hne => ⟨i, hplace hne⟩
    · rw [hview u hu]
      exact h.place u
  · intro j
    by_cases hj : j = i
    · rw [hj]
      exact hclear
    · rw [htable j hj]
      exact h.clear j
  · intro j
    by_cases hj : j = i
    · rw [hj, howned]
      constructor
      · intro ho
        exact ⟨v, ho, hself ho⟩
      · rintro ⟨u, hu, huw⟩
        by_cases huv : u = v
        · rw [← huv]
          exact hu
        · rw [hother u huv] at hu
          rw [hview u huv] at huw
          exact absurd huw (hothers u huv hu)
    · rw [htable j hj, h.owned j]
      constructor
      · rintro ⟨u, hu, huw⟩
        have huv : u ≠ v := by
          intro heq
          rw [heq] at hu huw
          exact hj (windowAt_inj (huw.symm.trans (hbefore hu)))
        exact ⟨u, (hother u huv).trans hu, (hview u huv).trans huw⟩
      · rintro ⟨u, hu, huw⟩
        have huv : u ≠ v := by
          intro heq
          rw [heq] at hu huw
          exact hj (windowAt_inj (huw.symm.trans (hself hu)))
        exact ⟨u, (hother u huv).symm.trans hu, (hview u huv).symm.trans huw⟩
  · intro u w hu hw heq
    by_cases huv : u = v
    · by_cases hwv : w = v
      · rw [huv, hwv]
      · rw [huv] at hu heq
        rw [hother w hwv] at hw
        rw [hview w hwv] at heq
        exact absurd (heq.symm.trans (hself hu)) (hothers w hwv hw)
    · rw [hother u huv] at hu
      by_cases hwv : w = v
      · rw [hwv] at hw heq
        rw [hview u huv] at heq
        exact absurd (heq.trans (hself hw)) (hothers u huv hu)
      · rw [hother w hwv] at hw
        rw [hview u huv, hview w hwv] at heq
        exact h.unique u w hu hw heq

/-- A view leaves its window: the entry is cleared. -/
theorem Inv.leave (h : s.Inv) {next : Option Args} (hpc : s.pc v = .unmap next) :
  ∃ i, s.view v = windowAt i ∧ s.owns v = true ∧
    s.access v = some ((s.setEntry i 0).goto v (.flush i next)) ∧
    ((s.setEntry i 0).goto v (.flush i next)).Inv
  := by
  have hfits := h.fits v
  rw [hpc] at hfits
  obtain ⟨hview, hok⟩ := hfits
  obtain ⟨i, hi, hwindow⟩ := h.place v hview
  have howns : s.owns v = true := by
    rw [owns_of_pc (by simp [hpc])]
    simpa using hview
  have hpresent := (h.owned i).mpr ⟨v, howns, hwindow⟩
  have hcleared : (s.setEntry i 0).table i = 0 := by
    rw [setEntry_table]
  refine ⟨i, hwindow, howns, ?_, ?_⟩
  · have halign : windowAt i % 0x1000 = 0 := by
      rw [windowAt, mapViewBase]
      lia
    have hin : ¬ (windowAt i < mapViewBase ∨ i ≥ 0x200) := by
      rw [windowAt]
      lia
    rw [access]
    simp only [hpc, hwindow, indexOf_windowAt, halign, hpresent, ne_eq, not_true_eq_false, if_false,
      if_neg hin, if_true]
  · apply h.change (v := v) (i := i)
    · intro u hu
      rw [goto_pc_of_ne _ _ hu]
      rfl
    · exact fun _ _ => rfl
    · intro j hj
      exact setEntry_table_of_ne s 0 hj
    · rw [goto_pc]
      exact ⟨hwindow, hok⟩
    · exact fun _ => ⟨hi, hwindow⟩
    · exact fun _ => hwindow
    · intro u hu hou huw
      exact hu (h.unique u v hou howns (huw.trans hwindow.symm))
    · exact fun _ => hcleared
    · rw [owns, goto_pc]
      exact congrArg isPresent hcleared

/-- A view takes a window, if its entry is still clear. -/
theorem Inv.take (h : s.Inv) {a : Args} {i : ℕ} {originValue : BitVec 64}
    (hpc : s.pc v = .claim a i originValue) :
  s.view v = 0 ∧ attribOk a.attrib = true ∧
    ((isPresent (s.table i) = true ∧ s.access v = some (s.goto v (.scan a (i + 1))) ∧
        (originValue ^^^ s.table i) &&& ~~~0x60 ≠ 0) ∨
      (isPresent (s.table i) = false ∧ (originValue ^^^ s.table i) &&& ~~~0x60 = 0 ∧
        s.access v = some (((s.setEntry i (a.attrib ||| a.pa ||| 1)).setView v (windowAt i)).goto v .out) ∧
        (((s.setEntry i (a.attrib ||| a.pa ||| 1)).setView v (windowAt i)).goto v .out).Inv))
  := by
  have hfits := h.fits v
  rw [hpc] at hfits
  obtain ⟨hview, hi, horigin, hok⟩ := hfits
  refine ⟨hview, hok, ?_⟩
  rw [access]
  simp only [hpc]
  rw [horigin]
  cases hpresent : isPresent (s.table i) with
  | true =>
      left
      have hne := isPresent_of_ne hpresent
      have hold : s.table i ≠ 0 := by
        intro hzero
        rw [hzero] at hpresent
        cases hpresent
      refine ⟨rfl, ?_, hne⟩
      rw [if_neg hold, if_neg hne]
  | false =>
      right
      have hzero := h.clear i hpresent
      have heq : (0 ^^^ s.table i) &&& ~~~0x60 = 0 := by
        rw [hzero]
        rfl
      refine ⟨rfl, heq, ?_, ?_⟩
      · rw [if_pos hzero, if_pos heq]
      · have hentry : isPresent (a.attrib ||| a.pa ||| 1) = true := by
          rw [isPresent_or]
          exact Bool.or_true _
        have hfresh : (s.setEntry i (a.attrib ||| a.pa ||| 1)).table i = a.attrib ||| a.pa ||| 1 := by
          rw [setEntry_table]
        have hnew : ((s.setEntry i (a.attrib ||| a.pa ||| 1)).setView v (windowAt i)).view v =
            windowAt i := by
          rw [setView_view]
        apply h.change (v := v) (i := i)
        · intro u hu
          rw [goto_pc_of_ne _ _ hu]
          rfl
        · intro u hu
          exact setView_view_of_ne (s.setEntry i _) (windowAt i) hu
        · intro j hj
          exact setEntry_table_of_ne s _ hj
        · rw [goto_pc]
          trivial
        · exact fun _ => ⟨hi, hnew⟩
        · intro hov
          exact absurd hview (view_of_owns hov)
        · intro u hu hou huw
          have hpres := (h.owned i).mpr ⟨u, hou, huw⟩
          rw [hpresent] at hpres
          cases hpres
        · intro hfalse
          change isPresent ((s.setEntry i (a.attrib ||| a.pa ||| 1)).table i) = false at hfalse
          rw [hfresh, hentry] at hfalse
          cases hfalse
        · rw [owns, goto_pc]
          change isPresent ((s.setEntry i (a.attrib ||| a.pa ||| 1)).table i) =
            (((s.setEntry i (a.attrib ||| a.pa ||| 1)).setView v (windowAt i)).view v != 0)
          rw [hfresh, hentry, hnew]
          simpa using windowAt_ne_zero i

/-- A view has left its window for good. -/
theorem Inv.left (h : s.Inv) {i : ℕ} {next : Option Args} (hpc : s.pc v = .flush i next) :
  (((s.setTlb i none).setView v 0).goto v (afterUnmap next)).Inv
  := by
  have hfits := h.fits v
  rw [hpc] at hfits
  obtain ⟨_, hok⟩ := hfits
  obtain ⟨t, ht⟩ : ∃ t, t = ((s.setTlb i none).setView v 0).goto v (afterUnmap next) := ⟨_, rfl⟩
  have hview : t.view v = 0 := by
    rw [ht]
    exact setView_view (s.setTlb i none) v 0
  have hother : ∀ u, u ≠ v → t.view u = s.view u := by
    intro u hu
    rw [ht]
    exact setView_view_of_ne (s.setTlb i none) 0 hu
  have hpcother : ∀ u, u ≠ v → t.pc u = s.pc u := by
    intro u hu
    rw [ht, goto_pc_of_ne _ _ hu]
    rfl
  have hself : t.owns v = false := by
    rw [Bool.eq_false_iff]
    intro ho
    exact view_of_owns ho hview
  have howns : ∀ u, t.owns u = true → u ≠ v ∧ s.owns u = true ∧ t.view u = s.view u := by
    intro u hu
    have huv : u ≠ v := by
      intro heq
      rw [heq, hself] at hu
      cases hu
    rw [owns, hpcother u huv, hother u huv] at hu
    exact ⟨huv, hu, hother u huv⟩
  have hnot : s.owns v = false := by
    rw [owns, hpc]
  rw [← ht]
  refine ⟨?_, ?_, ?_, ?_, ?_⟩
  · intro u
    by_cases hu : u = v
    · rw [hu, hview, ht, goto_pc]
      cases next with
      | none => trivial
      | some a => exact ⟨rfl, Nat.zero_le _, hok a rfl⟩
    · rw [hpcother u hu, hother u hu]
      exact h.fits u
  · intro u hne
    by_cases hu : u = v
    · rw [hu] at hne
      exact absurd hview hne
    · rw [hother u hu] at hne ⊢
      exact h.place u hne
  · rw [ht]
    exact h.clear
  · intro j
    have htable : t.table j = s.table j := by
      rw [ht]
      rfl
    rw [htable, h.owned j]
    constructor
    · rintro ⟨u, hu, huw⟩
      have huv : u ≠ v := by
        intro heq
        rw [heq, hnot] at hu
        cases hu
      refine ⟨u, ?_, (hother u huv).trans huw⟩
      rw [owns, hpcother u huv, hother u huv]
      exact hu
    · rintro ⟨u, hu, huw⟩
      obtain ⟨_, hso, hsame⟩ := howns u hu
      exact ⟨u, hso, hsame.symm.trans huw⟩
  · intro u w hu hw heq
    obtain ⟨_, hu, hsu⟩ := howns u hu
    obtain ⟨_, hw, hsw⟩ := howns w hw
    rw [hsu, hsw] at heq
    exact h.unique u w hu hw heq

omit [DecidableEq τ] in
/-- The processor marks an entry that is set. -/
theorem Inv.mark (h : s.Inv) {i : ℕ} (hi : isPresent (s.table i) = true) (x : BitVec 64) :
  (s.setEntry i (s.table i ||| x)).Inv ∧
    ∀ j, isPresent ((s.setEntry i (s.table i ||| x)).table j) = isPresent (s.table j)
  := by
  have hsame : ∀ j, isPresent ((s.setEntry i (s.table i ||| x)).table j) = isPresent (s.table j) := by
    intro j
    by_cases hj : j = i
    · rw [hj, setEntry_table, isPresent_or, hi]
      rfl
    · rw [setEntry_table_of_ne s _ hj]
  refine ⟨⟨h.fits, h.place, ?_, ?_, h.unique⟩, hsame⟩
  · intro j hj
    rw [hsame j] at hj
    have hji : j ≠ i := by
      intro heq
      rw [heq, hi] at hj
      cases hj
    rw [setEntry_table_of_ne s _ hji]
    exact h.clear j hj
  · intro j
    rw [hsame j]
    exact h.owned j

omit [DecidableEq τ] in
/-- The window of a view is found. -/
theorem Inv.translate (h : s.Inv) (hv : s.owns v = true) :
  ∃ i t, s.view v = windowAt i ∧ indexOf (s.view v) = i ∧ isPresent (s.table i) = true ∧
    s.translate i = some t ∧ (s.tlb i = none → t = translationOf (s.table i))
  := by
  obtain ⟨i, _, hwindow⟩ := h.place v (view_of_owns hv)
  have hpresent := (h.owned i).mpr ⟨v, hv, hwindow⟩
  have hindex : indexOf (s.view v) = i := by
    rw [hwindow, indexOf_windowAt]
  cases htlb : s.tlb i with
  | some t =>
      refine ⟨i, t, hwindow, hindex, hpresent, ?_, ?_⟩
      · rw [Windows.translate, htlb]
      · intro hnone
        rw [htlb] at hnone
        cases hnone
  | none =>
      refine ⟨i, translationOf (s.table i), hwindow, hindex, hpresent, ?_, fun _ => rfl⟩
      rw [Windows.translate, htlb]
      simp only [hpresent, if_true]

omit [DecidableEq τ] in
theorem owns_of_usable (h : s.usable v = true) : s.owns v = true := by
  rw [usable] at h
  cases hpc : s.pc v with
  | out =>
      rw [owns_of_pc (by simp [hpc])]
      simpa only [hpc] using h
  | _ => simp only [hpc, Bool.false_eq_true] at h

/-- A step that changes only where the code of a view is, or stops the kernel. -/
inductive Inert (s : Windows τ) : Windows τ → Prop
  | same : Inert s s
  | bugcheck (b : Bug) : Inert s (s.bugcheck b)
  | goto {v : τ} {p : Pc} : (∀ i next, s.pc v ≠ .flush i next) → (∀ i next, p ≠ .flush i next) →
      Inert s (s.goto v p)

theorem goto_owns (hpc : ∀ i next, s.pc v ≠ .flush i next) (hp : ∀ i next, p ≠ .flush i next) :
  (s.goto v p).owns = s.owns
  := by
  funext u
  by_cases hu : u = v
  · rw [hu, owns_of_pc hpc, owns_of_pc (by simpa only [goto_pc] using hp)]
    rfl
  · rw [owns, owns, goto_pc_of_ne s p hu]
    rfl

theorem map_inert (hpc : s.pc v = .out) (a : Args) : s.Inert (s.map v a) := by
  have hout : ∀ i next, s.pc v ≠ .flush i next := by simp [hpc]
  rw [Windows.map]
  split_ifs
  · exact .bugcheck .wrongArgument
  · exact .goto hout (by simp)
  · exact .goto hout (by simp)

theorem unmap_inert (hpc : s.pc v = .out) : s.Inert (s.unmap v) := by
  rw [Windows.unmap]
  split_ifs
  · exact .same
  · exact .goto (by simp [hpc]) (by simp)

end Windows

/-! ### Views of frames -/

/-- The frames that the views show, and the bytes of all frames. -/
structure Frames (τ : Type) where
  frame : τ → Option (BitVec 64)
  mem : BitVec 64 → BitVec 12 → UInt8

/-- What is done with views. -/
inductive Use (τ : Type) where
  | map (v : τ) (f : BitVec 64)
  | unmap (v : τ)
  | store (v : τ) (offset : BitVec 12) (b : UInt8)
  | load (v : τ) (offset : BitVec 12) (b : UInt8)
  deriving DecidableEq

variable {τ : Type} [DecidableEq τ]

/-- Every view shows its frame. -/
def Frames.use (r : Frames τ) : Use τ → Option (Frames τ)
  | .map v f =>
      if r.frame v = none then some { r with frame := Function.update r.frame v (some f) } else none
  | .unmap v =>
      if r.frame v = none then none else some { r with frame := Function.update r.frame v none }
  | .store v offset b => match r.frame v with
      | some f => some { r with mem := Function.update r.mem f (Function.update (r.mem f) offset b) }
      | none => none
  | .load v offset b => match r.frame v with
      | some f => if r.mem f offset = b then some r else none
      | none => none

/-- Views that show frames, from the start on. -/
def frames (τ : Type) [DecidableEq τ] : Machine (Frames τ) (Use τ) where
  Start r := ∀ v, r.frame v = none
  step := Frames.use

namespace Windows

variable {s s' : Windows τ} {v : τ} {p : Pc}

omit [DecidableEq τ] in
/-- The frame to which the entry of a view points. -/
def frame (s : Windows τ) (v : τ) : Option (BitVec 64) :=
  if s.owns v then some (frameOf (s.table (indexOf (s.view v)))) else none

omit [DecidableEq τ] in
def shows (s : Windows τ) : Frames τ := ⟨s.frame, s.mem⟩

omit [DecidableEq τ] in
/-- What the next access of a view does with the view. -/
def shown (s : Windows τ) (v : τ) : List (Use τ) :=
  match s.pc v with
  | .unmap _ => [.unmap v]
  | .claim a i originValue =>
      if (originValue ^^^ s.table i) &&& ~~~0x60 = 0 then [.map v (frameOf a.pa)] else []
  | _ => []

omit [DecidableEq τ] in
/-- The processor lets the view be written. -/
def writable (s : Windows τ) (v : τ) : Bool :=
  match s.translate (indexOf (s.view v)) with
  | some t => t.write
  | none => false

omit [DecidableEq τ] in
/-- What an action does with a view. A store that is not allowed stops the kernel. -/
def visible (s : Windows τ) : Action τ → List (Use τ)
  | .access v => s.shown v
  | .store v offset b => if s.writable v then [.store v offset b] else []
  | .load v offset b => [.load v offset b]
  | _ => []

/-- What the access of a view does, and what it shows. -/
inductive Access (s : Windows τ) (v : τ) : List (Use τ) → Windows τ → Prop
  | inert {s' : Windows τ} : s.Inert s' → Access s v [] s'
  | leave {i : ℕ} {next : Option Args} : s.pc v = .unmap next → s.view v = windowAt i →
      s.owns v = true →
      Access s v [.unmap v] ((s.setEntry i 0).goto v (.flush i next))
  | left {i : ℕ} {next : Option Args} : s.pc v = .flush i next →
      Access s v [] (((s.setTlb i none).setView v 0).goto v (afterUnmap next))
  | take {a : Args} {i : ℕ} {originValue : BitVec 64} : s.pc v = .claim a i originValue →
      s.view v = 0 → attribOk a.attrib = true → isPresent (s.table i) = false →
      Access s v [.map v (frameOf a.pa)]
        (((s.setEntry i (a.attrib ||| a.pa ||| 1)).setView v (windowAt i)).goto v .out)

/-- The loop of `map` goes on. -/
theorem Inv.scan (h : s.Inv) {a : Args} {i : ℕ} (hpc : s.pc v = .scan a i) (hs : s.access v = some s') :
  s'.Inv ∧ s.Inert s'
  := by
  have hfits := h.fits v
  rw [hpc] at hfits
  obtain ⟨hview, hi, hok⟩ := hfits
  have hnot : ∀ j next, s.pc v ≠ .flush j next := by simp [hpc]
  rw [access] at hs
  simp only [hpc] at hs
  split_ifs at hs with hlt hpresent
  · rw [Option.some.injEq] at hs
    rw [← hs]
    refine ⟨h.goto (p := .scan a (i + 1)) ⟨hview, hlt, hok⟩ ?_, .goto hnot (by simp)⟩
    rw [goto_owns hnot (by simp)]
  · rw [Option.some.injEq] at hs
    rw [← hs]
    have hzero := h.clear i (by simpa using hpresent)
    refine ⟨h.goto (p := .claim a i (s.table i)) ⟨hview, hlt, hzero, hok⟩ ?_, .goto hnot (by simp)⟩
    rw [goto_owns hnot (by simp)]
  · rw [Option.some.injEq] at hs
    rw [← hs]
    exact ⟨h.bugcheck .mapFailed, .bugcheck .mapFailed⟩

theorem Inv.access (h : s.Inv) (hs : s.access v = some s') : s'.Inv ∧ s.Access v (s.shown v) s' := by
  rw [shown]
  cases hpc : s.pc v with
  | out =>
      rw [Windows.access] at hs
      simp only [hpc, reduceCtorEq] at hs
  | unmap next =>
      obtain ⟨i, hview, howns, heq, hinv⟩ := h.leave hpc
      rw [heq, Option.some.injEq] at hs
      rw [← hs]
      exact ⟨hinv, .leave hpc hview howns⟩
  | flush i next =>
      rw [Windows.access] at hs
      simp only [hpc, Option.some.injEq] at hs
      rw [← hs]
      exact ⟨h.left hpc, .left hpc⟩
  | scan a i =>
      obtain ⟨hinv, hinert⟩ := h.scan hpc hs
      exact ⟨hinv, .inert hinert⟩
  | claim a i originValue =>
      obtain ⟨hview, hok, ⟨_, heq, hne⟩ | ⟨hclear, hdiff, heq, hinv⟩⟩ := h.take hpc
      · have hnot : ∀ j next, s.pc v ≠ .flush j next := by simp [hpc]
        rw [heq, Option.some.injEq] at hs
        simp only [if_neg hne]
        rw [← hs]
        have hfits := h.fits v
        rw [hpc] at hfits
        refine ⟨h.goto (p := .scan a (i + 1)) ⟨hview, hfits.2.1, hok⟩ ?_, .inert (.goto hnot (by simp))⟩
        rw [goto_owns hnot (by simp)]
      · rw [heq, Option.some.injEq] at hs
        simp only [if_pos hdiff]
        rw [← hs]
        exact ⟨hinv, .take hpc hview hok hclear⟩

/-- Every action keeps what holds. -/
theorem Inv.step (h : s.Inv) {a : Action τ} (hs : s.step a = some s') : s'.Inv := by
  unfold Windows.step at hs
  split_ifs at hs
  cases a with
  | map v a =>
      cases hpc : s.pc v with
      | out =>
          simp only [hpc, Option.some.injEq] at hs
          rw [← hs]
          exact h.map hpc a
      | _ => simp only [hpc, reduceCtorEq] at hs
  | unmap v =>
      cases hpc : s.pc v with
      | out =>
          simp only [hpc, Option.some.injEq] at hs
          rw [← hs]
          exact h.unmap hpc
      | _ => simp only [hpc, reduceCtorEq] at hs
  | access v => exact (h.access hs).1
  | store v offset b =>
      simp only at hs
      split_ifs at hs with hv
      obtain ⟨i, t, _, hindex, _, hfound, _⟩ := h.translate (owns_of_usable hv)
      simp only [hindex, hfound] at hs
      split_ifs at hs with hwrite
      · rw [Option.some.injEq] at hs
        rw [← hs]
        exact ⟨h.fits, h.place, h.clear, h.owned, h.unique⟩
      · rw [Option.some.injEq] at hs
        rw [← hs]
        exact h.bugcheck .writeFault
  | load v offset b =>
      simp only at hs
      split_ifs at hs with hv
      obtain ⟨i, f, _, hindex, _, hfound, _⟩ := h.translate (owns_of_usable hv)
      simp only [hindex, hfound] at hs
      split_ifs at hs
      rw [Option.some.injEq] at hs
      rw [← hs]
      exact ⟨h.fits, h.place, h.clear, h.owned, h.unique⟩
  | fill i =>
      simp only at hs
      split_ifs at hs
      rw [Option.some.injEq] at hs
      rw [← hs]
      exact ⟨h.fits, h.place, h.clear, h.owned, h.unique⟩
  | evict i =>
      simp only [Option.some.injEq] at hs
      rw [← hs]
      exact ⟨h.fits, h.place, h.clear, h.owned, h.unique⟩
  | mark i dirty =>
      simp only at hs
      split_ifs at hs with hi
      all_goals
        rw [Option.some.injEq] at hs
        rw [← hs]
        exact (h.mark hi _).1

/-- The next access of a view stops the kernel only at the end of the table. -/
theorem Inv.access_bug (h : s.Inv) (hs : s.access v = some s') :
  s'.bug = s.bug ∨ s' = s.bugcheck .mapFailed ∧ ∃ a, s.pc v = .scan a 0x200
  := by
  cases hpc : s.pc v with
  | out =>
      rw [Windows.access] at hs
      simp only [hpc, reduceCtorEq] at hs
  | unmap next =>
      obtain ⟨i, _, _, heq, _⟩ := h.leave hpc
      rw [heq, Option.some.injEq] at hs
      rw [← hs]
      exact .inl rfl
  | flush i next =>
      rw [Windows.access] at hs
      simp only [hpc, Option.some.injEq] at hs
      rw [← hs]
      exact .inl rfl
  | scan a i =>
      have hfits := h.fits v
      rw [hpc] at hfits
      obtain ⟨_, hi, _⟩ := hfits
      rw [Windows.access] at hs
      simp only [hpc] at hs
      split_ifs at hs with hlt hpresent
      · rw [Option.some.injEq] at hs
        rw [← hs]
        exact .inl rfl
      · rw [Option.some.injEq] at hs
        rw [← hs]
        exact .inl rfl
      · rw [Option.some.injEq] at hs
        obtain rfl : i = 0x200 := by lia
        exact .inr ⟨hs.symm, a, rfl⟩
  | claim a i originValue =>
      obtain ⟨_, _, ⟨_, heq, _⟩ | ⟨_, _, heq, _⟩⟩ := h.take hpc
      · rw [heq, Option.some.injEq] at hs
        rw [← hs]
        exact .inl rfl
      · rw [heq, Option.some.injEq] at hs
        rw [← hs]
        exact .inl rfl

/-- An action stops the kernel for one of the reasons. -/
theorem Inv.stops (h : s.Inv) {a : Action τ} (hs : s.step a = some s') {b : Bug}
    (hb : s'.bug = some b) :
  s'.Stops b
  := by
  unfold Windows.step at hs
  split_ifs at hs with hsome
  have hnone : s.bug = none := by simpa using hsome
  have hsame : s'.bug ≠ s.bug := by
    rw [hb, hnone]
    simp
  cases a with
  | map v a =>
      cases hpc : s.pc v with
      | out =>
          simp only [hpc, Option.some.injEq] at hs
          rw [← hs, Windows.map] at hb hsame ⊢
          split_ifs at hb hsame ⊢
          · cases hb
            trivial
          · exact absurd rfl hsame
          · exact absurd rfl hsame
      | _ => simp only [hpc, reduceCtorEq] at hs
  | unmap v =>
      cases hpc : s.pc v with
      | out =>
          simp only [hpc, Option.some.injEq] at hs
          rw [← hs, Windows.unmap] at hsame
          split_ifs at hsame
          · exact absurd rfl hsame
          · exact absurd rfl hsame
      | _ => simp only [hpc, reduceCtorEq] at hs
  | access v =>
      obtain hkept | ⟨heq, a, hpc⟩ := h.access_bug hs
      · exact absurd hkept hsame
      · rw [heq] at hb ⊢
        cases hb
        exact ⟨v, a, hpc⟩
  | store v offset b =>
      simp only at hs
      split_ifs at hs with hv
      obtain ⟨i, t, _, hindex, _, hfound, _⟩ := h.translate (owns_of_usable hv)
      simp only [hindex, hfound] at hs
      split_ifs at hs with hwrite
      · rw [Option.some.injEq] at hs
        rw [← hs] at hsame
        exact absurd rfl hsame
      · rw [Option.some.injEq] at hs
        rw [← hs] at hb ⊢
        cases hb
        refine ⟨v, t, hv, ?_, by simpa using hwrite⟩
        rw [← hindex] at hfound
        exact hfound
  | load v offset b =>
      simp only at hs
      split_ifs at hs with hv
      obtain ⟨i, t, _, hindex, _, hfound, _⟩ := h.translate (owns_of_usable hv)
      simp only [hindex, hfound] at hs
      split_ifs at hs
      rw [Option.some.injEq] at hs
      rw [← hs] at hsame
      exact absurd rfl hsame
  | fill i =>
      simp only at hs
      split_ifs at hs
      rw [Option.some.injEq] at hs
      rw [← hs] at hsame
      exact absurd rfl hsame
  | evict i =>
      simp only [Option.some.injEq] at hs
      rw [← hs] at hsame
      exact absurd rfl hsame
  | mark i dirty =>
      simp only at hs
      split_ifs at hs
      all_goals
        rw [Option.some.injEq] at hs
        rw [← hs] at hsame
        exact absurd rfl hsame

end Windows

/-- The views from the start of the kernel on, when the table is clear. -/
def machine (τ : Type) [DecidableEq τ] : Machine (Windows τ) (Action τ) where
  Start s := (∀ i, s.table i = 0) ∧ (∀ i, s.tlb i = none) ∧ (∀ v, s.view v = 0) ∧
    (∀ v, s.pc v = .out) ∧ s.bug = none
  step := Windows.step

namespace Windows

variable {s : Windows τ}

theorem inv_of_start (hs : (machine τ).Start s) : s.Inv := by
  obtain ⟨htable, _, hview, hpc, _⟩ := hs
  have howns : ∀ v, s.owns v = false := by
    intro v
    rw [owns, hpc v, hview v]
    rfl
  have hclear : ∀ i, isPresent (s.table i) = false := by
    intro i
    rw [htable i]
    rfl
  refine ⟨?_, ?_, fun i _ => htable i, ?_, ?_⟩
  · intro v
    rw [hpc v]
    trivial
  · exact fun v hne => absurd (hview v) hne
  · intro i
    simp only [hclear i, howns, Bool.false_eq_true, false_and, exists_false]
  · intro u v hu
    rw [howns u] at hu
    cases hu

theorem reachable_inv (hs : (machine τ).Reachable Machine.anyStep s) : s.Inv :=
  hs.invariant (fun _ hstart => inv_of_start hstart) (fun _ _ _ h _ hstep => h.step hstep)

theorem reachable_stops (hs : (machine τ).Reachable Machine.anyStep s) {b : Bug}
    (hb : s.bug = some b) :
  s.Stops b
  := by
  cases hs with
  | start hstart =>
      obtain ⟨_, _, _, _, hnone⟩ := hstart
      rw [hnone] at hb
      cases hb
  | step a hs _ hstep => exact (reachable_inv hs).stops hstep hb

/-- Every view has its own window, whose entry is set, and nothing else is set. The kernel stops for a
wrong argument, at the end of a search through the whole table, and at a store that is not allowed. -/
theorem windows_exclusive (hs : (machine τ).Reachable Machine.anyStep s) :
  (∀ u v, s.usable u = true → s.usable v = true → s.view u = s.view v → u = v) ∧
  (∀ v, s.usable v = true → ∃ i < 0x200, s.view v = windowAt i ∧ isPresent (s.table i) = true) ∧
  (∀ i, isPresent (s.table i) = true → ∃ v, s.owns v = true ∧ s.view v = windowAt i) ∧
  ∀ b, s.bug = some b → s.Stops b
  := by
  have h := reachable_inv hs
  refine ⟨?_, ?_, ?_, fun _ => reachable_stops hs⟩
  · intro u v hu hv
    exact h.unique u v (owns_of_usable hu) (owns_of_usable hv)
  · intro v hv
    have howns := owns_of_usable hv
    obtain ⟨i, hi, hview⟩ := h.place v (view_of_owns howns)
    exact ⟨i, hi, hview, (h.owned i).mpr ⟨v, howns, hview⟩⟩
  · exact fun i hi => (h.owned i).mp hi

/-- `PAGE_XD | PAGE_WRITE`, which `map` sets unless it is told otherwise. -/
def usualAttrib : BitVec 64 := 0x8000000000000002

/-- Two threads look for a window at the same time: one of them has to go on to the second window. -/
theorem windows_exclusive_two :
  ∃ s : Windows Bool, (machine Bool).Reachable Machine.anyStep s ∧ s.usable true = true ∧
    s.usable false = true ∧ s.view true ≠ s.view false
  := by
  have hstart : (machine Bool).Start ⟨fun _ => 0, fun _ => none, fun _ _ => 0, fun _ => 0, fun _ => .out,
      none⟩ := ⟨fun _ => rfl, fun _ => rfl, fun _ => rfl, fun _ => rfl, rfl⟩
  have hexec : ∃ s, (machine Bool).exec ⟨fun _ => 0, fun _ => none, fun _ _ => 0, fun _ => 0, fun _ => .out,
      none⟩ [.map true ⟨0x1000, usualAttrib⟩, .access true, .map false ⟨0x2000, usualAttrib⟩,
        .access false, .access true, .access false, .access false, .access false] = some s ∧
      s.usable true = true ∧ s.usable false = true :=
    ⟨_, rfl, rfl, rfl⟩
  obtain ⟨s, hs, htrue, hfalse⟩ := hexec
  have hreachable := (Machine.Reachable.start hstart).exec hs fun _ _ _ => trivial
  refine ⟨s, hreachable, htrue, hfalse, ?_⟩
  intro heq
  cases (windows_exclusive hreachable).1 true false htrue hfalse heq

end Windows

end MapView

end UOS
