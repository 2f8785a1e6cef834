import Cofuos.Memory.Addresses

/-!
# Reservations of the kernel

The address space of the kernel lies in the upper half. `kernel_vspace::reserve` searches for
pages as the spaces of the processes do, and then makes a high address of what the search returns,
also of the `0` by which the search says that it has failed. The definitions follow
`kernel/memory/kernel_vspace.cpp`.
-/

namespace UOS

open Fault

/-! ### High addresses -/

/-- The address in the upper half. -/
def HIGHADDR (x : ℕ) : ℕ := 0xFFFF800000000000 ||| x

/-- The address in the lower half. -/
def LOWADDR (x : ℕ) : ℕ := 0x00007FFFFFFFFFFF &&& x

/-- Whether an address is in the upper half. -/
def IS_HIGHADDR (x : ℕ) : Bool := x &&& HIGHADDR 0 = HIGHADDR 0

variable {x : ℕ}

theorem HIGHADDR_eq (h : x < 2 ^ 47) : HIGHADDR x = 0xFFFF800000000000 + x := by
  have hbase : 0xFFFF800000000000 = 2 ^ 47 * 0x1FFFF := by norm_num
  rw [HIGHADDR, hbase, Nat.two_pow_add_eq_or_of_lt h]

theorem LOWADDR_eq (x : ℕ) : LOWADDR x = x % 2 ^ 47 := by
  rw [LOWADDR, Nat.and_comm]
  apply Nat.and_two_pow_sub_one_eq_mod x 47

theorem LOWADDR_HIGHADDR (h : x < 2 ^ 47) : LOWADDR (HIGHADDR x) = x := by
  rw [LOWADDR_eq, HIGHADDR_eq h]
  lia

theorem isHighaddr_HIGHADDR (x : ℕ) : IS_HIGHADDR (HIGHADDR x) = true := by
  rw [IS_HIGHADDR, decide_eq_true_eq]
  apply Nat.eq_of_testBit_eq
  intro i
  simp only [HIGHADDR, Nat.testBit_and, Nat.testBit_or]
  simp only [Nat.zero_testBit, Bool.or_false]
  cases Nat.testBit 0xFFFF800000000000 i with
  | false => simp
  | true => simp

theorem HIGHADDR_ne_zero (x : ℕ) : HIGHADDR x ≠ 0 := by
  have h : 0xFFFF800000000000 ≤ HIGHADDR x := Nat.left_le_or
  intro h0
  rw [h0] at h
  exact absurd h (by decide)

namespace Vspace

variable {debug : Bool} {vs vs' : Vspace} {n : ℕ}

/-! ### Reserving -/

/-- `kernel_vspace::common_check` -/
def kernelCheck (addr pageCount : ℕ) : Bool :=
  addr ≠ 0 ∧ pageCount ≠ 0 ∧ addr % 0x1000 = 0 ∧ IS_HIGHADDR addr = true ∧
    LOWADDR ((addr + pageCount * 0x1000) % 2 ^ 64) ≤ 0x8000000000

/-- `kernel_vspace::reserve` without an address. -/
def reserveKernel (debug : Bool) (vs : Vspace) (pageCount : ℕ) : Except Fault (ℕ × Vspace) :=
  if pageCount = 0 ∨ pageCount > 0x40000 then
    .ok (0, vs)
  else
    vs.withLock fun vs => do
      let (res, vs) ← reserveSearch debug vs pageCount
      let addr := HIGHADDR res
      assert debug (kernelCheck addr pageCount = true)
      return (addr, vs)

/-- The address space of the kernel. Pages are reserved in well-formed tables only, and never the
first one, which belongs to the boot area. -/
structure KernelSpace (debug : Bool) (vs : Vspace) : Prop where
  orderly : Orderly debug vs
  zero : vs.map 0 ≠ .free

/-- A reservation of `n` pages returns `0` whenever the search fails, and otherwise a high address
whose pages were free and are reserved. -/
def FailureVisible (debug : Bool) (vs : Vspace) (n : ℕ) : Prop :=
  ∃ found vs₁ res vs', reserveSearch debug { vs with locked := true } n = .ok (found, vs₁) ∧
    reserveKernel debug vs n = .ok (res, vs') ∧ (found = 0 → res = 0) ∧
    (found ≠ 0 → IS_HIGHADDR res = true ∧ ∀ p ∈ Run.mk (LOWADDR res / 0x1000) n,
      vs.map p = .free ∧ vs'.map p = .reserved)

/-- What a search returns passes the check once it is a high address, also if it is `0`. -/
theorem kernelCheck_HIGHADDR {res : ℕ} (hplaced : Placed n res) (hn : n ≠ 0) (hle : n ≤ 0x40000) :
  kernelCheck (HIGHADDR res) n = true
  := by
  have hres : res % 0x1000 = 0 ∧ res + n * 0x1000 ≤ 2 ^ 32 := by
    by_cases h0 : res = 0
    · subst h0
      refine ⟨rfl, ?_⟩
      have := Nat.mul_le_mul_right 0x1000 hle
      norm_num at this ⊢
      lia
    · apply hplaced h0
  obtain ⟨hmod, hend⟩ := hres
  have hlt : res < 2 ^ 47 := by
    have : (2 : ℕ) ^ 32 ≤ 2 ^ 47 := by norm_num
    have hpos : 0 < n * 0x1000 := Nat.mul_pos (Nat.pos_of_ne_zero hn) (by decide)
    lia
  rw [kernelCheck, decide_eq_true_eq]
  refine ⟨HIGHADDR_ne_zero res, hn, ?_, isHighaddr_HIGHADDR res, ?_⟩
  · rw [HIGHADDR_eq hlt]
    lia
  · rw [HIGHADDR_eq hlt, LOWADDR_eq, Nat.add_assoc]
    generalize res + n * 0x1000 = size at hend
    have hbase : 0xFFFF800000000000 + size = size + 2 ^ 47 * 0x1FFFF := by
      norm_num
      omega
    rw [Nat.mod_mod_of_dvd _ (by norm_num), hbase, Nat.add_mul_mod_self_left,
      Nat.mod_eq_of_lt (lt_of_le_of_lt hend (by norm_num))]
    exact le_trans hend (by norm_num)

/-- What a reservation of the kernel comes to. -/
theorem reserveKernel_looked (h : KernelSpace debug vs) (hn : n ≠ 0) (hle : n ≤ 0x40000) :
  ∃ found vs₁, reserveSearch debug { vs with locked := true } n = .ok (found, vs₁) ∧
    reserveKernel debug vs n = .ok (HIGHADDR found, { vs₁ with locked := false }) ∧
    Placed n found ∧ Orderly debug vs₁ ∧ vs₁.bypassed = vs.bypassed ∧
    (vs.lookBelow n = .room → found ≠ 0 ∧
      Took debug { vs with locked := true } vs₁ ⟨found / 0x1000, n⟩) ∧
    (vs.lookBelow n ≠ .room → ∀ p < 0x100000, vs₁.entry p = vs.entry p)
  := by
  have horderly : Orderly debug { vs with locked := true } := h.orderly
  have hzero : ¬ vs.Vacant 0 := by
    rw [vacant_iff_map]
    apply h.zero
  obtain ⟨found, vs₁, heq, hplaced, horderly₁, hby, hroom, hno⟩ :=
    reserveSearch_looked horderly rfl hzero hn
  rw [lookBelow_lock] at hroom hno
  refine ⟨found, vs₁, heq, ?_, hplaced, horderly₁, hby, hroom, hno⟩
  have haccepted : ¬ (n = 0 ∨ n > 0x40000) := by
    rw [not_or, not_lt]
    exact ⟨hn, hle⟩
  rw [reserveKernel, if_neg haccepted, withLock, heq]
  simp only [Except.ok_bind]
  rw [assert_eq_ok (fun _ => kernelCheck_HIGHADDR hplaced hn hle)]
  rfl

/-- A reservation of the kernel keeps its space in order. -/
theorem KernelSpace.reserve (h : KernelSpace debug vs) (hn : n ≠ 0) (hle : n ≤ 0x40000) :
  ∃ res vs', reserveKernel debug vs n = .ok (res, vs') ∧ KernelSpace debug vs'
  := by
  obtain ⟨found, vs₁, -, heq, hplaced, horderly, hby, hroom, hno⟩ := reserveKernel_looked h hn hle
  refine ⟨_, _, heq, horderly, ?_⟩
  have hentry : vs₁.entry 0 = vs.entry 0 := by
    by_cases hlook : vs.lookBelow n = .room
    · obtain ⟨hne, htook⟩ := hroom hlook
      have hzero : ¬ vs.Vacant 0 := by
        rw [vacant_iff_map]
        apply h.zero
      apply htook.before
      apply Nat.pos_of_ne_zero
      apply htook.ne_zero hzero hn
    · apply hno hlook 0 (by decide)
  have hmap : vs₁.map 0 = vs.map 0 := by
    rw [map, hby, hentry, ← map]
  intro hfree
  apply h.zero
  rw [← hmap]
  exact hfree

/-- The failure of a reservation of the kernel is visible if and only if it does not fail: if there is
room for the pages below 4 GB. -/
theorem failureVisible_iff (h : KernelSpace debug vs) (hn : 1 ≤ n) (hle : n ≤ 0x40000) :
  FailureVisible debug vs n ↔ vs.lookBelow n = .room
  := by
  obtain ⟨found, vs₁, hsearch, heq, hplaced, -, hby, hroom, hno⟩ :=
    reserveKernel_looked h (by omega) hle
  have hlow : found ≠ 0 → LOWADDR (HIGHADDR found) = found := by
    intro hne
    apply LOWADDR_HIGHADDR
    have hend := (hplaced hne).2
    have : (2 : ℕ) ^ 32 < 2 ^ 47 := by norm_num
    omega
  constructor
  · rintro ⟨found', vs₁', res, vs', hsearch', heq', hzero, hfound⟩
    rw [hsearch] at hsearch'
    cases hsearch'
    rw [heq] at heq'
    cases heq'
    have hne : found ≠ 0 := fun h0 => HIGHADDR_ne_zero found (hzero h0)
    by_contra hlook
    have hmem : found / 0x1000 ∈ Run.mk (found / 0x1000) n := by
      rw [Run.mem_iff]
      simp only
      omega
    obtain ⟨-, hpages⟩ := hfound hne
    rw [hlow hne] at hpages
    apply not_reserved_of_above hby hplaced hn hne (hno hlook) (hpages _ hmem)
  · intro hlook
    obtain ⟨hne, htook⟩ := hroom hlook
    have hat : ReservedAt vs { vs₁ with locked := false } found n :=
      reservedAt_of_looked hby hplaced hne htook.vacant htook.entry
    refine ⟨found, vs₁, _, _, hsearch, heq, fun h0 => absurd h0 hne, ?_⟩
    intro _
    rw [hlow hne]
    exact ⟨isHighaddr_HIGHADDR found, fun p hp => (hat.changed p).mpr hp⟩

/-! ### The first table of the kernel -/

/-- A space in which all pages of the first table are in use, and no other table is present. -/
def booted (pm : FramePool) : Vspace where
  cr3 := 1
  pl4te := 2
  pdpt := Function.update (fun _ => {}) 0 { pdtAddr := 3, user := true, write := true, present := true }
  pdt := Function.update (fun _ => {}) 0 { present := true, write := true, ptAddr := 4 }
  pt := fun _ _ => { preserve := true }
  usedPages := 4
  locked := false
  pm := pm

theorem kernelSpace_booted (pm : FramePool) : KernelSpace false (booted pm) := by
  constructor
  · intro t ht _
    obtain rfl : t = 0 := by
      by_contra hne
      simp [hasTable, booted, Function.update_of_ne hne] at ht
    refine ⟨[], ⟨by simp, by simp, by simp, trivial, by simp, rfl⟩, ?_⟩
    intro r hr
    have hfree := hr.free r.self (by rw [Run.mem_iff]; have := hr.pos; omega)
    cases hfree
  · intro hfree
    cases hfree

/-- A page is reserved in a space that has no table but the first one. -/
theorem failureVisible_booted :
  FailureVisible false (booted pool) 1
  := by
  apply (failureVisible_iff (kernelSpace_booted pool) (by decide) (by decide)).mpr
  rfl

/-- If the physical memory manager has nothing left, a reservation returns an address although no page
has been reserved. -/
theorem reserveKernel_exhausted :
  ¬ FailureVisible false (booted { pool with answers := fun _ => 0 }) 1
  := by
  obtain ⟨vs, hvs⟩ : ∃ vs, booted { pool with answers := fun _ => 0 } = vs := ⟨_, rfl⟩
  rw [hvs]
  have hspace : KernelSpace false vs := by
    rw [← hvs]
    apply kernelSpace_booted
  obtain ⟨found, vs₁, hsearch, heq, -⟩ := reserveKernel_looked hspace (n := 1) (by decide) (by decide)
  rintro ⟨found', vs₁', res, vs', hsearch', heq', hzero, -⟩
  rw [hsearch] at hsearch'
  cases hsearch'
  rw [heq] at heq'
  cases heq'
  apply HIGHADDR_ne_zero found
  apply hzero
  -- the second directory cannot be created
  have hlook : lookAny { vs with locked := true } 1 0x800 0 vs.pm.calls = .stuck := by
    rw [← hvs]
    decide +kernel
  have horderly : Orderly false { vs with locked := true } := hspace.orderly
  have hvacant : ¬ vs.Vacant 0 := by
    rw [vacant_iff_map]
    apply hspace.zero
  have hlocked : false = true → Vspace.locked { vs with locked := true } = true := by simp
  have hcomes := reserveAnyTables_comes (show 1 ≠ 0 by decide) (by decide) hlocked hvacant
    (0x40000 - 0x800) 0x800 0 _ _ (Passed.zero horderly) (by decide)
  rw [hlook] at hcomes
  obtain ⟨vs₂, hstuck, -⟩ := hcomes
  rw [reserveSearch, if_pos (by decide), reserveAny, assert_release, assert_release] at hsearch
  have hboth := hstuck.symm.trans hsearch
  cases hboth
  rfl

end Vspace

end UOS
