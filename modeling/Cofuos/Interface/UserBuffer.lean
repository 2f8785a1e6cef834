import Cofuos.Memory.Space

/-!
# User buffers

Before a service uses a buffer of its caller, `service_provider::check` of
`kernel/interface/service.cpp` looks at the pages of the buffer with `user_vspace::peek`. The end of
the buffer is computed in a `qword`: when the sum wraps around, no page is looked at.
-/

namespace UOS

open Fault

namespace Vspace

/-- `virtual_space::imp_peek` -/
def impPeek (vs : Vspace) (va : ℕ) : PTE :=
  if va % 2 ^ 47 / 2 ^ 39 ≠ 0 then {}
  else
    let pdptIndex := va / 2 ^ 30 % 0x200
    let pdtIndex := va / 2 ^ 21 % 0x200
    let ptIndex := va / 2 ^ 12 % 0x200
    if (vs.pdpt pdptIndex).present = false then {}
    else if (vs.pdt (pdptIndex * 0x200 + pdtIndex)).present = false then {}
    else vs.pt (pdptIndex * 0x200 + pdtIndex) ptIndex

/-- `user_vspace::peek` -/
def peek (vs : Vspace) (va : ℕ) : PTE := if 0x8000000000 ≤ va then {} else vs.impPeek va

/-- The loop of `service_provider::check`. -/
def checkPages (vs : Vspace) (write : Bool) (tail : ℕ) : ℕ → ℕ → Except Fault Bool
  | 0, _ => .error .outOfFuel
  | n + 1, va =>
      if va < tail then
        let pt := vs.peek va
        if pt.present = false ∨ pt.user = false then .ok false
        else if write = true ∧ pt.write = false then .ok false
        else checkPages vs write tail n ((va + 0x1000) % 2 ^ 64)
      else .ok true

/-- `service_provider::check`, with the address space locked. The loop leaves the 512 GB of the user
after `0x8000000` rounds. The assertion is that `tail & HIGHADDR(0)` is `0`. -/
def checkBuffer (debug : Bool) (vs : Vspace) (ptr : UInt64) (length : UInt32) (write : Bool) :
    Except Fault Bool := do
  let va := ptr.toNat
  let tail := (va + length.toNat) % 2 ^ 64
  let va := va / 0x1000 * 0x1000
  let res ← checkPages vs write tail 0x8000001 va
  if res = true then
    assert debug (tail / 2 ^ 47 = 0)
    .ok true
  else .ok false

/-- The byte at an address lies in a page of the user, which is writable if it is to be written. -/
def Accessible (vs : Vspace) (write : Bool) (a : ℕ) : Prop :=
  a < 0x8000000000 ∧ (vs.entry (a / 0x1000)).present = true ∧ (vs.entry (a / 0x1000)).user = true ∧
    (write = true → (vs.entry (a / 0x1000)).write = true)

variable {vs : Vspace} {write : Bool} {va a tail : ℕ}

/-- `peek` finds the entry of the page. -/
theorem peek_untagged (h : va < 0x8000000000) : (vs.peek va).untagged = vs.entry (va / 0x1000) := by
  have hpdpt : va / 2 ^ 30 % 0x200 = va / 0x1000 / 0x200 / 0x200 := by omega
  have hpdt : va / 2 ^ 30 % 0x200 * 0x200 + va / 2 ^ 21 % 0x200 = va / 0x1000 / 0x200 := by omega
  rw [peek, if_neg (by omega), impPeek, if_neg (by omega), entry, hasTable]
  simp only [hpdt]
  rw [hpdpt]
  cases hdir : (vs.pdpt (va / 0x1000 / 0x200 / 0x200)).present with
  | false => rfl
  | true =>
      cases htable : (vs.pdt (va / 0x1000 / 0x200)).present with
      | false => rfl
      | true => rfl

/-- The tests of the loop. -/
theorem accessible_iff :
  vs.Accessible write va ↔ ¬ ((vs.peek va).present = false ∨ (vs.peek va).user = false) ∧
    ¬ (write = true ∧ (vs.peek va).write = false)
  := by
  rw [Accessible]
  by_cases h : va < 0x8000000000
  · rw [← peek_untagged h]
    cases write <;> simp [h, PTE.untagged, and_assoc]
  · rw [peek, if_pos (Nat.le_of_not_lt h)]
    simp [h]

/-- All bytes of a page are alike. -/
theorem accessible_congr {a' : ℕ} (h : a / 0x1000 = a' / 0x1000) :
  vs.Accessible write a ↔ vs.Accessible write a'
  := by
  have hlt : a < 0x8000000000 ↔ a' < 0x8000000000 := by lia
  rw [Accessible, Accessible, h, hlt]

/-- The loop returns whether the bytes from a page on are accessible. -/
theorem checkPages_eq (vs : Vspace) (write : Bool) (tail n : ℕ) : ∀ va, va % 0x1000 = 0 →
    va < 2 ^ 64 → 0 < n → 0x8000000000 < va + n * 0x1000 →
  ∃ res, checkPages vs write tail n va = .ok res ∧
    (res = true ↔ ∀ a, va ≤ a → a < tail → vs.Accessible write a)
  := by
  induction n with
  | zero =>
      intro va _ _ hpos
      cases hpos
  | succ n ih =>
      intro va halign hva _ hfuel
      rw [checkPages]
      by_cases hlt : va < tail
      · rw [if_pos hlt]
        by_cases hva' : vs.Accessible write va
        · have htests := accessible_iff.mp hva'
          have hlow := hva'.1
          have hmod : (va + 0x1000) % 2 ^ 64 = va + 0x1000 := Nat.mod_eq_of_lt (by lia)
          obtain ⟨res, heq, hres⟩ := ih (va + 0x1000) (by lia) (by lia) (by lia) (by lia)
          simp only [if_neg htests.1, if_neg htests.2, hmod]
          refine ⟨res, heq, hres.trans ⟨?_, ?_⟩⟩
          · intro hall a ha ha'
            by_cases hnext : va + 0x1000 ≤ a
            · exact hall a hnext ha'
            · apply (accessible_congr (by lia)).mp hva'
          · intro hall a ha ha'
            exact hall a (by lia) ha'
        · refine ⟨false, ?_, ?_⟩
          · rw [accessible_iff, not_and_or, not_not, not_not] at hva'
            by_cases hpresent : (vs.peek va).present = false ∨ (vs.peek va).user = false
            · simp only [if_pos hpresent]
            · simp only [if_neg hpresent, if_pos (hva'.resolve_left hpresent)]
          · apply iff_of_false Bool.false_ne_true
            intro hall
            exact hva' (hall va (le_refl va) hlt)
      · rw [if_neg hlt]
        refine ⟨true, rfl, iff_of_true rfl ?_⟩
        intro a ha ha'
        lia

/-- What `check` is to return: that the bytes of the buffer are accessible, unless it is empty. -/
def ChecksBuffer (debug : Bool) (vs : Vspace) (ptr : UInt64) (length : UInt32) (write : Bool) : Prop :=
  ∃ res, checkBuffer debug vs ptr length write = .ok res ∧
    (res = true → ∀ i < length.toNat, vs.Accessible write (ptr.toNat + i)) ∧
    (0 < length → (∀ i < length.toNat, vs.Accessible write (ptr.toNat + i)) → res = true)

/-- The assertion of `check` holds once the pages have been looked at, except for an empty buffer at a
page of the kernel. -/
theorem checkBuffer_eq (debug : Bool) (vs : Vspace) (ptr : UInt64) (length : UInt32) (write : Bool)
    (hwrap : ptr.toNat + length.toNat < 2 ^ 64)
    (hempty : ¬ (debug = true ∧ length = 0 ∧ ptr.toNat % 0x1000 = 0 ∧ 2 ^ 47 ≤ ptr.toNat)) :
  ∃ res, checkBuffer debug vs ptr length write = .ok res ∧
    (res = true ↔ ∀ a, ptr.toNat / 0x1000 * 0x1000 ≤ a → a < ptr.toNat + length.toNat →
      vs.Accessible write a)
  := by
  obtain ⟨res, heq, hres⟩ := checkPages_eq vs write (ptr.toNat + length.toNat) 0x8000001
    (ptr.toNat / 0x1000 * 0x1000) (by lia) (by lia) (by lia) (by lia)
  refine ⟨res, ?_, hres⟩
  rw [checkBuffer, Nat.mod_eq_of_lt hwrap]
  simp only [heq, Except.ok_bind]
  cases res with
  | false => rfl
  | true =>
      rw [if_pos rfl, assert_eq_ok]
      · rfl
      · intro hdebug
        have hall := hres.mp rfl
        by_cases hsome : ptr.toNat / 0x1000 * 0x1000 < ptr.toNat + length.toNat
        · have hfirst := (hall _ (le_refl _) hsome).1
          have hlast := (hall (ptr.toNat + length.toNat - 1) (by lia) (by lia)).1
          lia
        · have hzero : length = 0 := by
            rw [← UInt32.toNat_inj]
            change length.toNat = 0
            lia
          by_contra htail
          exact hempty ⟨hdebug, hzero, by lia, by lia⟩

/-- No page is looked at when the end of the buffer is not after its first page. -/
theorem checkBuffer_skip {debug : Bool} {ptr : UInt64} {length : UInt32} {res : Bool}
    (hle : (ptr.toNat + length.toNat) % 2 ^ 64 ≤ ptr.toNat / 0x1000 * 0x1000)
    (h : checkBuffer debug vs ptr length write = .ok res) :
  res = true ∧ (debug = true → (ptr.toNat + length.toNat) % 2 ^ 64 / 2 ^ 47 = 0)
  := by
  have hptr := ptr.toNat_lt
  obtain ⟨found, heq, hfound⟩ := checkPages_eq vs write ((ptr.toNat + length.toNat) % 2 ^ 64)
    0x8000001 (ptr.toNat / 0x1000 * 0x1000) (by lia) (by lia) (by lia) (by lia)
  have htrue : found = true := by
    apply hfound.mpr
    intro a ha ha'
    exact absurd (ha.trans_lt ha') (not_lt.mpr hle)
  rw [checkBuffer] at h
  simp only [heq, Except.ok_bind, if_pos htrue] at h
  obtain ⟨_, hassert, hres⟩ := Except.bind_eq_ok_iff.mp h
  cases hres
  exact ⟨rfl, assert_eq_ok_iff.mp hassert⟩

/-- `check` is exact for the buffers whose end does not wrap around, except that in a debug build an
empty buffer at a page of the kernel violates its assertion. -/
theorem checksBuffer_iff (debug : Bool) (vs : Vspace) (ptr : UInt64) (length : UInt32) (write : Bool) :
  ChecksBuffer debug vs ptr length write ↔
    ptr.toNat + length.toNat < 2 ^ 64 ∧
      ¬ (debug = true ∧ length = 0 ∧ ptr.toNat % 0x1000 = 0 ∧ 2 ^ 47 ≤ ptr.toNat)
  := by
  have hptr := ptr.toNat_lt
  have hlength := length.toNat_lt
  constructor
  · rintro ⟨res, heq, hsound, -⟩
    constructor
    · by_contra hwrap
      obtain ⟨hres, -⟩ := checkBuffer_skip (by omega) heq
      have hfirst := (hsound hres 0 (by omega)).1
      omega
    · rintro ⟨hdebug, rfl, halign, hkernel⟩
      have hzero : (0 : UInt32).toNat = 0 := rfl
      obtain ⟨-, hassert⟩ := checkBuffer_skip (by omega) heq
      have htail := hassert hdebug
      omega
  · rintro ⟨hwrap, hempty⟩
    obtain ⟨res, heq, hres⟩ := checkBuffer_eq debug vs ptr length write hwrap hempty
    refine ⟨res, heq, ?_, ?_⟩
    · intro htrue i hi
      exact hres.mp htrue _ (by omega) (by omega)
    · intro hpos hall
      rw [UInt32.lt_iff_toNat_lt] at hpos
      change 0 < length.toNat at hpos
      apply hres.mpr
      intro a ha ha'
      by_cases hle : ptr.toNat ≤ a
      · have hbyte := hall (a - ptr.toNat) (by omega)
        rwa [Nat.add_sub_cancel' hle] at hbyte
      · have hbyte := hall 0 hpos
        apply (accessible_congr (by omega)).mp hbyte

/-- A buffer that begins in the last page of the address space and ends in the first one is accepted
without looking at any page. -/
theorem check_wraps :
  ¬ ChecksBuffer true (create { used := ∅, answers := fun i => i + 1 }) 0xFFFFFFFFFFFFF000 0x2000 true
  := by
  rintro ⟨res, heq, hsound, -⟩
  obtain ⟨hres, -⟩ := checkBuffer_skip (by decide) heq
  exact absurd (hsound hres 0 (by decide)).1 (by decide)

/-- An empty buffer at a page of the kernel violates the assertion. -/
theorem check_empty (vs : Vspace) : ¬ ChecksBuffer true vs 0xFFFF800000000000 0 write := by
  rintro ⟨res, heq, -, -⟩
  obtain ⟨-, hassert⟩ := checkBuffer_skip (by decide) heq
  exact absurd (hassert rfl) (by decide)

end Vspace

end UOS
