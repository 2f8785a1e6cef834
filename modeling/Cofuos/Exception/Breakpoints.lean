import Cofuos.Lib.Machine
import Cofuos.Memory.KernelSpace

/-!
# Software breakpoints

The breakpoints that `kernel/exception/kdb.cpp` puts into the code. A slot keeps an address and the byte
that was there, but not the address space: the byte is swapped in the space of the thread that is
stopped.

The code is restored as long as a breakpoint is hit and cleared by threads of the space in which it has
been set, and is cleared while its page is there.
-/

namespace UOS

namespace Breakpoints

variable {P : Type}

/-- `bp_slot` -/
structure Slot where
  va : ℕ := 0
  active : Bool := false
  data : UInt8 := 0

/-- `sw_bp_count` -/
def swBpCount : ℕ := 0x10

/-- The bytes of the address spaces, of which `none` is the kernel. Pages with code are not shared. -/
abbrev Memory (P : Type) : Type := Option P → ℕ → UInt8

/-- What the debugger finds when it stops: whether it may use memory, the address space of the thread,
and the pages. -/
structure Stopped (P : Type) where
  mem : Bool
  vspace : Option P
  present : Option P → ℕ → Bool
  xd : Option P → ℕ → Bool

/-- The slots, the memory, and, for each slot, the address space in which it has been set. The last is
not known to the program. -/
structure State (P : Type) where
  slots : ℕ → Slot
  memory : Memory P
  space : ℕ → Option P

/-- The space of an address. -/
def Stopped.spaceOf (t : Stopped P) (va : ℕ) : Option P :=
  if IS_HIGHADDR va = true then none else t.vspace

/-- The instruction at an address may be modified. -/
def Stopped.Modifiable (t : Stopped P) (va : ℕ) : Prop :=
  t.mem = true ∧ t.present (t.spaceOf va) (va / 0x1000) = true ∧
    t.xd (t.spaceOf va) (va / 0x1000) = false

instance Stopped.decidableModifiable (t : Stopped P) (va : ℕ) : Decidable (t.Modifiable va) :=
  inferInstanceAs (Decidable (_ ∧ _))

section

variable [DecidableEq P]

/-- A byte is stored. -/
def poke (memory : Memory P) (sp : Option P) (va : ℕ) (data : UInt8) : Memory P :=
  Function.update memory sp (Function.update (memory sp) va data)

/-- `modify_instruction` -/
def modifyInstruction (t : Stopped P) (memory : Memory P) (va : ℕ) (data : UInt8) :
    Option (Memory P × UInt8) :=
  if t.Modifiable va then some (poke memory (t.spaceOf va) va data, memory (t.spaceOf va) va) else none

/-- The address of the instruction before. -/
def before (va : ℕ) : ℕ := (va + (2 ^ 64 - 1)) % 2 ^ 64

/-- `sw_bp_match`, unless an assertion fails. -/
def swBpMatch (t : Stopped P) (s : State P) (va : ℕ) : Option (Bool × State P) :=
  match (List.range swBpCount).find? fun i => (s.slots i).va = before va ∧ (s.slots i).active = true with
  | none => some (false, s)
  | some i => match modifyInstruction t s.memory (before va) (s.slots i).data with
      | none => some (false, s)
      | some (memory, data) =>
          if data = 0xCC then some (true, { s with
            memory := memory
            slots := Function.update s.slots i { s.slots i with data := data, active := false } })
          else none

/-- A round of the loop of `breakpoint_sw`, with `blank` and `match`. -/
def look (slots : ℕ → Slot) (va : ℕ) (found : ℕ × ℕ) (i : ℕ) : Option (ℕ × ℕ) :=
  if (slots i).va = va then some (found.1, i)
  else if (slots i).va = 0 then
    if (slots i).active = false then some (i, found.2) else none
  else some found

/-- The case `'Z'` of `breakpoint_sw`. -/
def set (t : Stopped P) (s : State P) (va blank : ℕ) : Bool × State P :=
  match modifyInstruction t s.memory va 0xCC with
  | some (memory, data) => (true, {
      slots := Function.update s.slots blank { va := va, active := true, data := data }
      memory := memory
      space := Function.update s.space blank (t.spaceOf va) })
  | none => (false, { s with
      slots := Function.update s.slots blank { s.slots blank with va := 0, data := 0xCC } })

/-- The case `'z'` of `breakpoint_sw`. -/
def clear (t : Stopped P) (s : State P) (i : ℕ) : State P :=
  if (s.slots i).active = true then
    match modifyInstruction t s.memory (s.slots i).va (s.slots i).data with
    | some (memory, data) => { s with
        memory := memory
        slots := Function.update s.slots i { va := 0, active := false, data := data } }
    | none => { s with slots := Function.update s.slots i { s.slots i with va := 0, active := false } }
  else { s with slots := Function.update s.slots i { s.slots i with va := 0 } }

/-- `breakpoint_sw`, unless an assertion fails. -/
def breakpointSw (t : Stopped P) (s : State P) (va : ℕ) (op : UInt8) : Option (Bool × State P) := do
  let (blank, found) ← (List.range swBpCount).foldlM (look s.slots va) (swBpCount, swBpCount)
  if op = 0x5A ∧ found = swBpCount ∧ blank < swBpCount then some (set t s va blank)
  else if op = 0x7A ∧ found < swBpCount then some (true, clear t s found)
  else some (false, s)

/-- What the debugger is asked for, or the breakpoint that it finds on the way. -/
inductive Request where
  | breakpoint (va : ℕ) (op : UInt8)
  | hit (rip : ℕ)

/-- The slots are blank at the start. -/
def start (memory : Memory P) : State P :=
  { slots := fun _ => {}, memory := memory, space := fun _ => none }

/-- A step, by a thread that is stopped. -/
def step (s : State P) : Stopped P × Request → Option (State P)
  | (t, .breakpoint va op) => (breakpointSw t s va op).map Prod.snd
  | (t, .hit rip) => (swBpMatch t s rip).map Prod.snd

/-- The debugger, in a system with this code. -/
def debugger (code : Memory P) : Machine (State P) (Stopped P × Request) where
  Start s := s = start code
  step := step

end

/-! ### What is wanted of breakpoints -/

/-- Slot `i` is active for an address. -/
def State.Active (s : State P) (i va : ℕ) : Prop :=
  i < swBpCount ∧ (s.slots i).active = true ∧ (s.slots i).va = va

/-- The code is as it was, except for the bytes under active slots, which are `0xCC`. -/
structure Right (code : Memory P) (s : State P) : Prop where
  under : ∀ i va, s.Active i va → s.memory (s.space i) va = 0xCC
  restored : ∀ sp va, (∀ i, s.Active i va → s.space i ≠ sp) → s.memory sp va = code sp va

/-- If a byte is swapped for slot `i`, then where the slot has been set, or between equal bytes. -/
def SwapsBack (t : Stopped P) (s : State P) (i va : ℕ) : Prop :=
  t.Modifiable va → t.spaceOf va = s.space i ∨
    (s.slots i).data = 0xCC ∧ s.memory (t.spaceOf va) va = 0xCC

/-- An active slot swaps its byte back, and is not cleared before it has done so. -/
def Meets (s : State P) : Stopped P × Request → Prop
  | (t, .breakpoint va op) => op = 0x7A → ∀ i, s.Active i va →
      SwapsBack t s i va ∧ (t.Modifiable va ∨ (s.slots i).data = 0xCC)
  | (t, .hit rip) => ∀ i, s.Active i (before rip) → SwapsBack t s i (before rip)

/-- Every step of a run does. -/
def AllMeet [DecidableEq P] : State P → List (Stopped P × Request) → Prop
  | _, [] => True
  | s, a :: rest => Meets s a ∧ ∀ s', step s a = some s' → AllMeet s' rest

/-- What the slots keep. -/
structure Inv (code : Memory P) (s : State P) : Prop extends Right code s where
  blank : ∀ i va, s.Active i va → va ≠ 0
  apart : ∀ i j, i < swBpCount → j < swBpCount → (s.slots i).va ≠ 0 →
    (s.slots i).va = (s.slots j).va → i = j
  data : ∀ i va, s.Active i va → (s.slots i).data = code (s.space i) va

variable {code : Memory P} {s s' : State P} {t : Stopped P} {i va : ℕ}

/-! ### Slots -/

/-- Only one slot is active for an address. -/
theorem Inv.unique (h : Inv code s) {j : ℕ} (hi : s.Active i va) (hj : s.Active j va) : j = i := by
  apply h.apart j i hj.1 hi.1
  · rw [hj.2.2]
    apply h.blank j va hj
  · rw [hj.2.2, hi.2.2]

/-- A slot that is replaced by one which is not active leaves the others. -/
theorem active_update {j : ℕ} {slot : Slot} {memory : Memory P} (hslot : slot.active = false) :
  State.Active { s with slots := Function.update s.slots i slot, memory := memory } j va ↔
    j ≠ i ∧ s.Active j va
  := by
  by_cases hj : j = i
  · simp [State.Active, hj, hslot]
  · simp [State.Active, hj]

theorem Inv.inactive (h : Inv code s) (i : ℕ) (hi : i < swBpCount) (hva : (s.slots i).va = 0) :
  (s.slots i).active = false
  := by
  rw [← Bool.not_eq_true]
  intro hact
  apply h.blank i 0 ⟨hi, hact, hva⟩ rfl

/-- A slot may be replaced by one which is not active once its byte is back in its place. -/
theorem Inv.release (h : Inv code s) {slot : Slot} {memory : Memory P} (hslot : slot.active = false)
    (hva : slot.va = 0 ∨ slot.va = (s.slots i).va)
    (hrest : ∀ sp va, (s.Active i va → sp ≠ s.space i) → memory sp va = s.memory sp va)
    (hback : ∀ va, s.Active i va → memory (s.space i) va = code (s.space i) va) :
  Inv code { s with slots := Function.update s.slots i slot, memory := memory }
  := by
  constructor
  · constructor
    · intro j va hj
      obtain ⟨hne, hj⟩ := (active_update hslot).1 hj
      dsimp only
      rw [hrest _ _ fun hi => absurd (h.unique hi hj) hne]
      apply h.under j va hj
    · intro sp va hother
      dsimp only at hother ⊢
      by_cases hi : s.Active i va ∧ sp = s.space i
      · rw [hi.2]
        apply hback va hi.1
      · rw [hrest sp va fun hact heq => hi ⟨hact, heq⟩]
        apply h.restored
        intro j hj
        by_cases hji : j = i
        · rw [hji] at hj ⊢
          intro heq
          apply hi ⟨hj, heq.symm⟩
        · apply hother j ((active_update hslot).2 ⟨hji, hj⟩)
  · intro j va hj
    apply h.blank j va ((active_update hslot).1 hj).2
  · intro j k hj hk hne heq
    have hvas : ∀ l, (Function.update s.slots i slot l).va = 0 ∨
        (Function.update s.slots i slot l).va = (s.slots l).va := by
      intro l
      by_cases hl : l = i
      · rw [hl, Function.update_self]
        apply hva
      · rw [Function.update_of_ne hl]
        exact .inr rfl
    dsimp only at hne heq
    rcases hvas j with hzero | hj'
    · exact absurd hzero hne
    · rcases hvas k with hzero | hk'
      · exact absurd (heq.trans hzero) hne
      · rw [hj'] at hne heq
        apply h.apart j k hj hk hne (heq.trans hk')
  · intro j va hj
    obtain ⟨hne, hj⟩ := (active_update hslot).1 hj
    dsimp only
    rw [Function.update_of_ne hne]
    apply h.data j va hj

/-- Once the slot of an address is not active any more, the byte at the address is right in every space
only if it is the code there. -/
theorem Inv.restored_of_right (h : Inv code s) {slot : Slot} {memory : Memory P} (hi : s.Active i va)
    (hslot : slot.active = false)
    (hright : Right code { s with slots := Function.update s.slots i slot, memory := memory })
    (sp : Option P) :
  memory sp va = code sp va
  := by
  apply hright.restored sp va
  intro j hj
  obtain ⟨hne, hj⟩ := (active_update hslot).1 hj
  exact absurd (h.unique hi hj) hne

/-- In the spaces other than that of the slot, the code is as it was. -/
theorem Inv.elsewhere (h : Inv code s) (hi : s.Active i va) {sp : Option P} (hsp : sp ≠ s.space i) :
  s.memory sp va = code sp va
  := by
  apply h.restored sp va
  intro j hj heq
  rw [h.unique hi hj] at heq
  apply hsp heq.symm

/-- A slot is given up without its byte being swapped. -/
theorem Inv.dropped (h : Inv code s) {slot : Slot} (hslot : slot.active = false)
    (hva : slot.va = 0 ∨ slot.va = (s.slots i).va)
    (hdata : ∀ va, s.Active i va → (s.slots i).data = 0xCC) :
  Inv code { s with slots := Function.update s.slots i slot }
  := by
  apply h.release hslot hva
  · intro _ _ _
    rfl
  · intro va hact
    rw [h.under i va hact, ← h.data i va hact, hdata va hact]

/-- The loop of `breakpoint_sw` finds the slot with the address, if there is one, and a slot that is
blank. -/
theorem exists_found (hblank : ∀ i < swBpCount, (s.slots i).va = 0 → (s.slots i).active = false)
    (va n : ℕ) (hn : n ≤ swBpCount) :
  ∃ blank found, (List.range n).foldlM (look s.slots va) (swBpCount, swBpCount) = some (blank, found) ∧
    (blank < swBpCount → (s.slots blank).va = 0) ∧
    (found < swBpCount ∧ (s.slots found).va = va ∨ found = swBpCount ∧ ∀ i < n, (s.slots i).va ≠ va)
  := by
  induction n with
  | zero =>
      refine ⟨swBpCount, swBpCount, rfl, fun h => absurd h (lt_irrefl _), .inr ⟨rfl, ?_⟩⟩
      intro i hi
      omega
  | succ n ih =>
      obtain ⟨blank, found, hfold, hb, hf⟩ := ih (by omega)
      rw [List.range_succ, List.foldlM_append, hfold]
      simp only [Option.bind_eq_bind, Option.bind_some, List.foldlM_cons, List.foldlM_nil, look]
      by_cases hva : (s.slots n).va = va
      · exact ⟨blank, n, by simp [hva], hb, .inl ⟨hn, hva⟩⟩
      · have hlater : found < swBpCount ∧ (s.slots found).va = va ∨
            found = swBpCount ∧ ∀ i < n + 1, (s.slots i).va ≠ va := by
          apply hf.imp_right
          rintro ⟨hfound, hnone⟩
          refine ⟨hfound, fun i hi => ?_⟩
          rcases Nat.lt_succ_iff_lt_or_eq.1 hi with hlt | rfl
          · apply hnone i hlt
          · apply hva
        by_cases hzero : (s.slots n).va = 0
        · refine ⟨n, found, ?_, fun _ => hzero, hlater⟩
          rw [if_neg hva, if_pos hzero, if_pos (hblank n hn hzero)]
          rfl
        · exact ⟨blank, found, by simp [hva, hzero], hb, hlater⟩

/-- The slot that is hit is found. -/
theorem Inv.find (h : Inv code s) (hi : s.Active i va) :
  ((List.range swBpCount).find? fun i => (s.slots i).va = va ∧ (s.slots i).active = true) = some i
  := by
  cases hfind : (List.range swBpCount).find? fun i => (s.slots i).va = va ∧ (s.slots i).active = true with
  | none =>
      have hnot := List.find?_eq_none.1 hfind i (List.mem_range.2 hi.1)
      rw [decide_eq_true_eq] at hnot
      exact absurd ⟨hi.2.2, hi.2.1⟩ hnot
  | some j =>
      have hj := List.find?_some hfind
      rw [decide_eq_true_eq] at hj
      rw [h.unique hi ⟨List.mem_range.1 (List.mem_of_find?_eq_some hfind), hj.2, hj.1⟩]

theorem inv_start (code : Memory P) : Inv code (start code) := by
  have hnone : ∀ i va, ¬ (start code).Active i va := fun i va hact => Bool.false_ne_true hact.2.1
  exact {
    under := fun i va hact => absurd hact (hnone i va)
    restored := fun _ _ _ => rfl
    blank := fun i va hact => absurd hact (hnone i va)
    apart := fun i j _ _ hne _ => absurd rfl hne
    data := fun i va hact => absurd hact (hnone i va) }

variable [DecidableEq P]

/-! ### Swapping -/

theorem poke_same (memory : Memory P) (sp : Option P) (va : ℕ) (data : UInt8) :
  poke memory sp va data sp va = data
  := by
  rw [poke, Function.update_self, Function.update_self]

theorem poke_of_ne (memory : Memory P) {sp sp' : Option P} {va va' : ℕ} (data : UInt8)
    (h : sp' = sp → va' ≠ va) :
  poke memory sp va data sp' va' = memory sp' va'
  := by
  rw [poke]
  by_cases hsp : sp' = sp
  · rw [hsp, Function.update_self, Function.update_of_ne (h hsp)]
  · rw [Function.update_of_ne hsp]

/-- A byte that is there already is stored. -/
theorem poke_eq_self {memory : Memory P} {sp : Option P} {data : UInt8} (h : memory sp va = data) :
  poke memory sp va data = memory
  := by
  rw [poke, ← h, Function.update_eq_self, Function.update_eq_self]

theorem modifyInstruction_of (h : t.Modifiable va) (memory : Memory P) (data : UInt8) :
  modifyInstruction t memory va data
    = some (poke memory (t.spaceOf va) va data, memory (t.spaceOf va) va)
  := if_pos h

theorem modifyInstruction_of_not (h : ¬ t.Modifiable va) (memory : Memory P) (data : UInt8) :
  modifyInstruction t memory va data = none
  := if_neg h

/-- A byte is swapped back, and the slot is not active any more. -/
theorem Inv.swapped (h : Inv code s) {slot : Slot} (hi : s.Active i va) (hslot : slot.active = false)
    (hva : slot.va = 0 ∨ slot.va = (s.slots i).va) (hback : SwapsBack t s i va) (hmod : t.Modifiable va) :
  Inv code { s with
    slots := Function.update s.slots i slot
    memory := poke s.memory (t.spaceOf va) va (s.slots i).data }
  := by
  have hvas : ∀ va', s.Active i va' → va' = va := fun va' hact => hact.2.2.symm.trans hi.2.2
  rcases hback hmod with hspace | ⟨hdata, hbyte⟩
  · rw [hspace]
    apply h.release hslot hva
    · intro sp va' hne
      apply poke_of_ne
      intro hsp heq
      rw [heq] at hne
      apply hne hi hsp
    · intro va' hact
      rw [hvas va' hact, poke_same, h.data i va hi]
  · rw [poke_eq_self (hbyte.trans hdata.symm)]
    apply h.release hslot hva
    · intro _ _ _
      rfl
    · intro va' hact
      rw [h.under i va' hact, ← h.data i va' hact, hdata]

/-- The memory is right afterwards only if the byte has been swapped back. -/
theorem Inv.swapsBack_of_right (h : Inv code s) {slot : Slot} (hi : s.Active i va)
    (hslot : slot.active = false)
    (hright : Right code { s with
      slots := Function.update s.slots i slot
      memory := poke s.memory (t.spaceOf va) va (s.slots i).data }) :
  SwapsBack t s i va
  := by
  intro _
  by_cases hspace : t.spaceOf va = s.space i
  · exact .inl hspace
  · have hthere := h.restored_of_right hi hslot hright (t.spaceOf va)
    have hhere := h.restored_of_right hi hslot hright (s.space i)
    rw [poke_same] at hthere
    rw [poke_of_ne _ _ fun heq => absurd heq.symm hspace, h.under i va hi, ← h.data i va hi] at hhere
    exact .inr ⟨hhere.symm, by rw [h.elsewhere hi hspace, ← hthere, hhere]⟩

/-! ### Setting and clearing -/

/-- The state after a breakpoint has been set. -/
def placed (s : State P) (sp : Option P) (va blank : ℕ) : State P :=
  { slots := Function.update s.slots blank { va := va, active := true, data := s.memory sp va }
    memory := poke s.memory sp va 0xCC
    space := Function.update s.space blank sp }

/-- The slots that are active then are the new one and those of other addresses. -/
theorem active_placed {sp : Option P} {blank j va' : ℕ} (hlt : blank < swBpCount)
    (hnone : ∀ i < swBpCount, (s.slots i).va ≠ va) :
  (placed s sp va blank).Active j va' ↔ j = blank ∧ va' = va ∨ j ≠ blank ∧ va' ≠ va ∧ s.Active j va'
  := by
  by_cases hj : j = blank
  · simp only [State.Active, placed, hj, Function.update_self, hlt, true_and, ne_eq, not_true_eq_false,
      false_and, or_false]
    apply eq_comm
  · simp only [State.Active, placed, Function.update_of_ne hj, hj, false_and, not_false_eq_true, true_and,
      false_or, ne_eq]
    constructor
    · rintro ⟨hlt', hact, rfl⟩
      exact ⟨hnone j hlt', hlt', hact, rfl⟩
    · exact And.right

theorem Inv.placed (h : Inv code s) (sp : Option P) {blank : ℕ} (hlt : blank < swBpCount)
    (hblank : (s.slots blank).va = 0) (hnone : ∀ i < swBpCount, (s.slots i).va ≠ va) :
  Inv code (Breakpoints.placed s sp va blank)
  := by
  have hcode : ∀ sp, s.memory sp va = code sp va := by
    intro sp
    apply h.restored
    intro j hj
    exact absurd hj.2.2 (hnone j hj.1)
  constructor
  · constructor
    · intro j va' hj
      simp only [Breakpoints.placed]
      rcases (active_placed hlt hnone).1 hj with ⟨rfl, rfl⟩ | ⟨hne, hvas, hj⟩
      · rw [Function.update_self, poke_same]
      · rw [Function.update_of_ne hne, poke_of_ne _ _ fun _ => hvas]
        apply h.under j va' hj
    · intro sp' va' hother
      simp only [Breakpoints.placed]
      by_cases hvas : va' = va
      · have hsp := hother blank ((active_placed hlt hnone).2 (.inl ⟨rfl, hvas⟩))
        simp only [Breakpoints.placed, Function.update_self] at hsp
        rw [poke_of_ne _ _ fun heq => absurd heq.symm hsp, hvas, hcode]
      · rw [poke_of_ne _ _ fun _ => hvas]
        apply h.restored
        intro j hj
        have hne : j ≠ blank := by
          rintro rfl
          exact absurd hj.2.1 (by rw [h.inactive j hlt hblank]; decide)
        have hsp := hother j ((active_placed hlt hnone).2 (.inr ⟨hne, hvas, hj⟩))
        simp only [Breakpoints.placed, Function.update_of_ne hne] at hsp
        apply hsp
  · intro j va' hj
    rcases (active_placed hlt hnone).1 hj with ⟨-, rfl⟩ | ⟨-, -, hj⟩
    · intro hzero
      apply hnone blank hlt (hblank.trans hzero.symm)
    · apply h.blank j va' hj
  · intro j k hj hk hne heq
    simp only [Breakpoints.placed] at hne heq
    by_cases hjb : j = blank
    · by_cases hkb : k = blank
      · rw [hjb, hkb]
      · rw [hjb, Function.update_self, Function.update_of_ne hkb] at heq
        exact absurd heq.symm (hnone k hk)
    · rw [Function.update_of_ne hjb] at hne heq
      by_cases hkb : k = blank
      · rw [hkb, Function.update_self] at heq
        exact absurd heq (hnone j hj)
      · rw [Function.update_of_ne hkb] at heq
        apply h.apart j k hj hk hne heq
  · intro j va' hj
    simp only [Breakpoints.placed]
    rcases (active_placed hlt hnone).1 hj with ⟨rfl, rfl⟩ | ⟨hne, -, hj⟩
    · rw [Function.update_self, Function.update_self, hcode]
    · rw [Function.update_of_ne hne, Function.update_of_ne hne]
      apply h.data j va' hj

/-- A breakpoint is set where there is none. -/
theorem Inv.set (h : Inv code s) (t : Stopped P) {blank : ℕ} (hlt : blank < swBpCount)
    (hblank : (s.slots blank).va = 0) (hnone : ∀ i < swBpCount, (s.slots i).va ≠ va) :
  Inv code (Breakpoints.set t s va blank).2
  := by
  have hidle := h.inactive blank hlt hblank
  rw [Breakpoints.set]
  by_cases hmod : t.Modifiable va
  · rw [modifyInstruction_of hmod]
    apply h.placed _ hlt hblank hnone
  · rw [modifyInstruction_of_not hmod]
    apply h.dropped
    · apply hidle
    · exact .inl rfl
    · intro va' hact
      exact absurd hact.2.1 (by rw [hidle]; decide)

theorem clear_of_modifiable (hi : s.Active i va) (hmod : t.Modifiable va) :
  clear t s i = { s with
    slots := Function.update s.slots i ⟨0, false, s.memory (t.spaceOf va) va⟩
    memory := poke s.memory (t.spaceOf va) va (s.slots i).data }
  := by
  rw [clear, if_pos hi.2.1, hi.2.2, modifyInstruction_of hmod]

theorem clear_of_not_modifiable (hmod : (s.slots i).active = true → ¬ t.Modifiable (s.slots i).va) :
  clear t s i = { s with slots := Function.update s.slots i ⟨0, false, (s.slots i).data⟩ }
  := by
  rw [clear]
  by_cases hact : (s.slots i).active = true
  · rw [if_pos hact, modifyInstruction_of_not (hmod hact)]
  · have hidle := Bool.eq_false_iff.2 hact
    rw [if_neg hact]
    dsimp only
    rw [hidle]

/-- A breakpoint is cleared. -/
theorem Inv.clear (h : Inv code s) (hlt : i < swBpCount)
    (hback : s.Active i (s.slots i).va → SwapsBack t s i (s.slots i).va ∧
      (t.Modifiable (s.slots i).va ∨ (s.slots i).data = 0xCC)) :
  Inv code (Breakpoints.clear t s i)
  := by
  by_cases hmod : (s.slots i).active = true ∧ t.Modifiable (s.slots i).va
  · have hact : s.Active i (s.slots i).va := ⟨hlt, hmod.1, rfl⟩
    rw [clear_of_modifiable hact hmod.2]
    apply h.swapped hact rfl (.inl rfl) (hback hact).1 hmod.2
  · rw [clear_of_not_modifiable fun hact hm => hmod ⟨hact, hm⟩]
    apply h.dropped rfl (.inl rfl)
    rintro va ⟨-, hact, rfl⟩
    apply (hback ⟨hlt, hact, rfl⟩).2.resolve_left
    intro hm
    apply hmod ⟨hact, hm⟩

/-- The memory is right after an active slot has been cleared only if its byte has been swapped back. -/
theorem Inv.meets_of_clear (h : Inv code s) (hi : s.Active i va)
    (hright : Right code (Breakpoints.clear t s i)) :
  SwapsBack t s i va ∧ (t.Modifiable va ∨ (s.slots i).data = 0xCC)
  := by
  by_cases hmod : t.Modifiable va
  · rw [clear_of_modifiable hi hmod] at hright
    exact ⟨h.swapsBack_of_right hi rfl hright, .inl hmod⟩
  · rw [clear_of_not_modifiable fun _ => by rwa [hi.2.2]] at hright
    have hbyte := h.restored_of_right hi rfl hright (s.space i)
    rw [h.under i va hi, ← h.data i va hi] at hbyte
    exact ⟨fun hm => absurd hm hmod, .inr hbyte.symm⟩

/-! ### Hits -/

/-- `sw_bp_match` at an active slot. -/
theorem Inv.match_eq (h : Inv code s) {rip : ℕ} (hi : s.Active i (before rip)) :
  swBpMatch t s rip =
    if t.Modifiable (before rip) then
      if s.memory (t.spaceOf (before rip)) (before rip) = 0xCC then some (true, { s with
        slots := Function.update s.slots i
          ⟨before rip, false, s.memory (t.spaceOf (before rip)) (before rip)⟩
        memory := poke s.memory (t.spaceOf (before rip)) (before rip) (s.slots i).data })
      else none
    else some (false, s)
  := by
  rw [swBpMatch, h.find hi]
  dsimp only
  split_ifs with hmod hbyte
  · rw [modifyInstruction_of hmod]
    dsimp only
    rw [if_pos hbyte, hi.2.2]
  · rw [modifyInstruction_of hmod]
    dsimp only
    rw [if_neg hbyte]
  · rw [modifyInstruction_of_not hmod]

theorem swBpMatch_of_none {rip : ℕ} (hnone : ∀ i, ¬ s.Active i (before rip)) :
  swBpMatch t s rip = some (false, s)
  := by
  rw [swBpMatch, List.find?_eq_none.2]
  intro i hi
  rw [decide_eq_true_eq]
  rintro ⟨hva, hact⟩
  apply hnone i ⟨List.mem_range.1 hi, hact, hva⟩

/-! ### Steps and runs -/

/-- A step that swaps its byte back does not fail, and keeps what the slots keep. -/
theorem Inv.step (h : Inv code s) {a : Stopped P × Request} (hmeets : Meets s a) :
  ∃ s', Breakpoints.step s a = some s' ∧ Inv code s'
  := by
  obtain ⟨t, request⟩ := a
  cases request with
  | breakpoint va op =>
      obtain ⟨blank, found, hfold, hblank, hfound⟩ := exists_found h.inactive va _ le_rfl
      simp only [Breakpoints.step, breakpointSw, hfold, Option.bind_eq_bind, Option.bind_some]
      split_ifs with hset hclear
      · refine ⟨_, rfl, h.set t hset.2.2 (hblank hset.2.2) ?_⟩
        rcases hfound with hlt | hnone
        · omega
        · apply hnone.2
      · refine ⟨_, rfl, h.clear hclear.2 fun hact => ?_⟩
        have hva : (s.slots found).va = va := (hfound.resolve_right (by omega)).2
        rw [hva] at hact ⊢
        apply hmeets hclear.1 found hact
      · exact ⟨s, rfl, h⟩
  | hit rip =>
      by_cases hactive : ∃ i, s.Active i (before rip)
      · obtain ⟨i, hi⟩ := hactive
        rw [Breakpoints.step, h.match_eq hi]
        split_ifs with hmod hbyte
        · refine ⟨_, rfl, h.swapped hi rfl (.inr hi.2.2.symm) (hmeets i hi) hmod⟩
        · exfalso
          apply hbyte
          rcases hmeets i hi hmod with hspace | hbytes
          · rw [hspace]
            apply h.under i _ hi
          · apply hbytes.2
        · exact ⟨s, rfl, h⟩
      · rw [Breakpoints.step, swBpMatch_of_none fun i hi => hactive ⟨i, hi⟩]
        exact ⟨s, rfl, h⟩

/-- A step that does not fail and leaves the code right swaps its byte back. -/
theorem Inv.meets (h : Inv code s) {a : Stopped P × Request} (hstep : Breakpoints.step s a = some s')
    (hright : Right code s') :
  Meets s a
  := by
  obtain ⟨t, request⟩ := a
  cases request with
  | breakpoint va op =>
      intro hop i hi
      obtain ⟨blank, found, hfold, -, hfound⟩ := exists_found h.inactive va _ le_rfl
      have hlt : found < swBpCount ∧ (s.slots found).va = va :=
        hfound.resolve_right fun hnone => hnone.2 i hi.1 hi.2.2
      have heq : found = i := by
        apply h.apart found i hlt.1 hi.1
        · rw [hlt.2]
          apply h.blank i va hi
        · rw [hlt.2, hi.2.2]
      simp only [Breakpoints.step, breakpointSw, hfold, Option.bind_eq_bind, Option.bind_some] at hstep
      rw [if_neg fun hset => absurd hset.2.1 (by omega), if_pos ⟨hop, hlt.1⟩, Option.map_some,
        Option.some.injEq, heq] at hstep
      rw [← hstep] at hright
      apply h.meets_of_clear hi hright
  | hit rip =>
      intro i hi hmod
      rw [Breakpoints.step, h.match_eq hi, if_pos hmod] at hstep
      split_ifs at hstep
      · rw [Option.map_some, Option.some.injEq] at hstep
        rw [← hstep] at hright
        apply h.swapsBack_of_right hi rfl hright hmod
      · cases hstep

/-- The code is right after every part of a run if and only if every step of it swaps its byte back. -/
theorem Inv.allMeet_iff (h : Inv code s) (l : List (Stopped P × Request)) :
  (∀ l₁, l₁ <+: l → ∃ s', (debugger code).exec s l₁ = some s' ∧ Right code s') ↔ AllMeet s l
  := by
  induction l generalizing s with
  | nil =>
      simp only [AllMeet, iff_true]
      intro l₁ hl₁
      rw [List.prefix_nil.1 hl₁]
      exact ⟨s, rfl, h.toRight⟩
  | cons a l ih =>
      constructor
      · intro hruns
        obtain ⟨s₁, hexec, hright⟩ := hruns [a] (by simp)
        rw [Machine.exec_singleton] at hexec
        have hmeets := h.meets hexec hright
        refine ⟨hmeets, fun s' hstep => ?_⟩
        obtain ⟨s'', hstep', hinv⟩ := h.step hmeets
        rw [hstep, Option.some.injEq] at hstep'
        rw [← hstep'] at hinv
        apply (ih hinv).1
        intro l₁ hl₁
        obtain ⟨s₂, hexec₂, hright₂⟩ := hruns (a :: l₁) (List.cons_prefix_cons.2 ⟨rfl, hl₁⟩)
        rw [Machine.exec_cons hstep] at hexec₂
        exact ⟨s₂, hexec₂, hright₂⟩
      · rintro ⟨hmeets, hrest⟩ l₁ hl₁
        obtain ⟨s', hstep, hinv⟩ := h.step hmeets
        cases l₁ with
        | nil => exact ⟨s, rfl, h.toRight⟩
        | cons b l₁ =>
            rw [List.cons_prefix_cons] at hl₁
            obtain ⟨rfl, hl₁⟩ := hl₁
            obtain ⟨s₂, hexec, hright⟩ := (ih hinv).2 (hrest s' hstep) l₁ hl₁
            rw [← Machine.exec_cons hstep] at hexec
            exact ⟨s₂, hexec, hright⟩

/-- From the start on. -/
theorem right_iff (code : Memory P) (l : List (Stopped P × Request)) :
  (∀ l₁, l₁ <+: l → ∃ s, (debugger code).exec (start code) l₁ = some s ∧ Right code s) ↔
    AllMeet (start code) l
  := (inv_start code).allMeet_iff l

/-- A thread of this process is stopped, and every page is there. -/
def stoppedIn (p : ℕ) : Stopped ℕ :=
  { mem := true, vspace := some p, present := fun _ _ => true, xd := fun _ _ => false }

/-- A breakpoint that has been set in one process is cleared in another. -/
theorem cleared_elsewhere :
  ¬ ∀ (code : Memory ℕ) (l : List (Stopped ℕ × Request)), ∀ l₁, l₁ <+: l →
    ∃ s, (debugger code).exec (start code) l₁ = some s ∧ Right code s
  := by
  intro h
  have hruns := h (fun _ _ => 0x90)
    [(stoppedIn 0, .breakpoint 0x1000 0x5A), (stoppedIn 1, .breakpoint 0x1000 0x7A)]
  have hmeet := ((inv_start _).allMeet_iff _).1 hruns
  have hnext := (hmeet.2 (set (stoppedIn 0) (start fun _ _ => 0x90) 0x1000 0xF).2 rfl).1
  have hback := (hnext rfl 0xF ⟨by decide, rfl, rfl⟩).1 ⟨rfl, rfl, rfl⟩
  rcases hback with hspace | hdata
  · exact absurd hspace (by decide)
  · exact absurd hdata.1 (by decide)

end Breakpoints

end UOS
