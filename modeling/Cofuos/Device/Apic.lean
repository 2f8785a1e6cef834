import Cofuos.Device.Acpi
import Mathlib.Data.UInt

/-!
# Interrupt routing

The constructor of `APIC` fills the redirection table of the IO APIC. An entry stands for a global
system interrupt (GSI), counted from `gsi_base`. At first every IRQ of the ISA bus goes to the entry
of its own number; then the SCI gets its entry, and the overrides that the MADT lists move IRQs to
other entries. The definitions follow `kernel/dev/apic.cpp` and `vector` of
`util/include/vector.hpp`.

Entries are addressed relative to `gsi_base` by the IRQ, but by the GSI itself in the overrides, and
an IRQ with two overrides keeps both entries. Some of the indexes are not tested before the vector
tests them.
-/

namespace UOS

namespace Apic

open Acpi (Redirect)

/-- The vector of IRQ 0. -/
def IRQ_OFFSET : ℕ := 0x24

def IRQ_SCI : UInt64 := 0x23

/-- What the constructor knows when it begins with the table. -/
structure Setup where
  /-- The number of entries of the IO APIC. -/
  entries : ℕ
  gsiBase : ℕ
  picPresent : Bool
  sci : UInt16
  redirects : List Redirect
  apicId : UInt8

/-- The entries of the redirection table. -/
abbrev Rte : Type := List UInt64

/-- An entry that is masked. -/
def masked : UInt64 := 0x00010000

/-- `vector::at` -/
def get (rte : Rte) (i : ℕ) : Except Fault UInt64 :=
  match rte[i]? with
  | some x => .ok x
  | none => .error (.bugcheck "index %x out of range @ %p")

/-- An assignment through `vector::at`. -/
def put (rte : Rte) (i : ℕ) (x : UInt64) : Except Fault Rte :=
  if i < rte.length then .ok (rte.set i x) else .error (.bugcheck "index %x out of range @ %p")

/-- The vector of an entry, which is its lowest byte. -/
def vectorOf (x : UInt64) : ℕ := x.toNat % 0x100

variable (a : Setup)

def destination : UInt64 := a.apicId.toUInt64 <<< 56

/-- The entry of an IRQ of the ISA bus. -/
def identity (i : ℕ) : UInt64 := destination a ||| (IRQ_OFFSET + i).toUInt64

/-- A round of the loop over the IRQs. -/
def identityStep (rte : Rte) (i : ℕ) : Except Fault Rte :=
  if i ≥ a.gsiBase then put rte (i - a.gsiBase) (identity a i) else .ok rte

/-- The index of the entry of the SCI. -/
def sciIndex : Except Fault ℕ :=
  let sciIrq := a.sci.toUInt8
  if a.picPresent = true then
    if sciIrq.toNat < a.gsiBase then .error (.bugcheck "invalid SCI#%d with GSI = %d")
    else .ok (sciIrq - a.gsiBase.toUInt8).toNat
  else .ok sciIrq.toNat

/-- The entry of the SCI. -/
def sciEntry : UInt64 := destination a ||| 0xA000 ||| IRQ_SCI

/-- The entry of an override. -/
def overrideEntry (r : Redirect) : UInt64 :=
  let newValue := destination a ||| 0x2000
  let newValue := if r.irq = 2 then newValue ||| 0x400
    else newValue ||| (IRQ_OFFSET + r.irq.toNat).toUInt64
  let newValue := if r.mode &&& 0x03 = 1 then newValue &&& ~~~0x2000 else newValue
  if r.mode &&& 0x0C = 0x0C then newValue ||| 0x8000 else newValue

/-- The entry that the IRQ of an override had is masked, if it still belongs to it. -/
def clearOrigin (rte : Rte) (r : Redirect) : Except Fault Rte :=
  if r.irq ≠ 2 ∧ r.irq.toNat ≥ a.gsiBase then do
    let x ← get rte (r.irq.toNat - a.gsiBase)
    if vectorOf x = IRQ_OFFSET + r.irq.toNat then put rte (r.irq.toNat - a.gsiBase) masked
    else .ok rte
  else .ok rte

/-- A round of the loop over the overrides. -/
def redirectStep (rte : Rte) (r : Redirect) : Except Fault Rte :=
  if r.gsi > a.entries ∨ r.irq ≥ 16 then .error (.bugcheck "invalid IRQ#%d")
  else do
    let rte ← clearOrigin a rte r
    put rte r.gsi (overrideEntry a r)

/-- The table that the constructor of `APIC` writes. -/
def table : Except Fault Rte := do
  let rte ← (List.range 15).foldlM (identityStep a) (List.replicate a.entries masked)
  let i ← sciIndex a
  let rte ← put rte i (sciEntry a)
  a.redirects.foldlM (redirectStep a) rte

/-! ### What is wanted of the table -/

/-- An entry with the vector of an IRQ. -/
def Routes (rte : Rte) (irq k : ℕ) : Prop := ∃ x, rte[k]? = some x ∧ vectorOf x = IRQ_OFFSET + irq

/-- An override moves the IRQ. The overrides of IRQ 2 stand for NMIs. -/
def Overridden (i : ℕ) : Prop := ∃ r ∈ a.redirects, r.irq ≠ 2 ∧ r.irq.toNat = i

/-- A GSI that an override or the SCI uses. -/
def Displaced (i : ℕ) : Prop := a.sci.toNat = i ∨ ∃ r ∈ a.redirects, r.gsi = i

/-- No two overrides and no override and the SCI share a GSI. -/
structure Separate : Prop where
  nodup : (a.redirects.map Redirect.gsi).Nodup
  sci : ∀ r ∈ a.redirects, r.gsi ≠ a.sci.toNat

/-- Every IRQ with an override has exactly one entry, the one of the GSI, which is as the override
says: it is active low unless the override says high, and it is triggered by the level if the override
says so. All other IRQs keep their entries. -/
structure RoutesRight (rte : Rte) : Prop where
  overridden : ∀ r ∈ a.redirects, r.irq ≠ 2 → ∃ k, k + a.gsiBase = r.gsi ∧
    (∀ k', Routes rte r.irq.toNat k' ↔ k' = k) ∧ ∃ x, rte[k]? = some x ∧
      (x.toNat.testBit 13 = true ↔ r.mode &&& 0x03 ≠ 1) ∧
      (x.toNat.testBit 15 = true ↔ r.mode &&& 0x0C = 0x0C)
  identity : ∀ i < 15, a.gsiBase ≤ i → ¬ Overridden a i → ¬ Displaced a i →
    rte[i - a.gsiBase]? = some (identity a i)

/-! ### Entries -/

theorem destination_mod : (destination a).toNat % 2 ^ 56 = 0 := by
  have h := a.apicId.toNat_lt
  have h := a.apicId.toNat_lt
  have h56 : (56 : UInt64).toNat % 64 = 56 := by decide
  simp only [destination, UInt64.toNat_shiftLeft, UInt8.toNat_toUInt64, h56]
  rw [Nat.shiftLeft_eq]
  lia

theorem destination_testBit {n : ℕ} (h : n < 56) : (destination a).toNat.testBit n = false := by
  have hmod : ((destination a).toNat % 2 ^ 56).testBit n = false := by
    rw [destination_mod, Nat.zero_testBit]
  rwa [Nat.testBit_mod_two_pow, decide_eq_true h, Bool.true_and] at hmod

theorem vectorOf_or (x y : UInt64) : vectorOf (x ||| y) = vectorOf x ||| vectorOf y := by
  rw [vectorOf, vectorOf, vectorOf, UInt64.toNat_or]
  apply Nat.or_mod_two_pow (n := 8)

theorem vectorOf_and (x y : UInt64) : vectorOf (x &&& y) = vectorOf x &&& vectorOf y := by
  rw [vectorOf, vectorOf, vectorOf, UInt64.toNat_and]
  apply Nat.and_mod_two_pow (n := 8)

theorem vectorOf_destination : vectorOf (destination a) = 0 := by
  have h := destination_mod a
  rw [vectorOf]
  lia

theorem vectorOf_irq {i : ℕ} (h : i < 16) :
  vectorOf (IRQ_OFFSET + i).toUInt64 = IRQ_OFFSET + i
  := by
  have hoffset : IRQ_OFFSET = 0x24 := rfl
  rw [vectorOf, Nat.toUInt64, UInt64.toNat_ofNat']
  lia

theorem vectorOf_identity {i : ℕ} (h : i < 16) :
  vectorOf (identity a i) = IRQ_OFFSET + i
  := by
  rw [identity, vectorOf_or, vectorOf_destination, vectorOf_irq h, Nat.zero_or]

theorem vectorOf_sciEntry : vectorOf (sciEntry a) = 0x23 := by
  rw [sciEntry, vectorOf_or, vectorOf_or, vectorOf_destination]
  rfl

/-- Masking the polarity does not touch the vector. -/
theorem vectorOf_mask {v : ℕ} (hv : v < 0x100) : v &&& vectorOf (~~~(0x2000 : UInt64)) = v := by
  have hmask : vectorOf (~~~(0x2000 : UInt64)) = 2 ^ 8 - 1 := by decide
  rw [hmask, Nat.and_two_pow_sub_one_eq_mod, Nat.mod_eq_of_lt hv]

/-- The vector of the entry of an override is the one of its IRQ, or `0` for an NMI. -/
theorem vectorOf_overrideEntry {r : Redirect} (h : r.irq < 16) :
  vectorOf (overrideEntry a r) = if r.irq = 2 then 0 else IRQ_OFFSET + r.irq.toNat
  := by
  have hirq : r.irq.toNat < 16 := UInt8.lt_iff_toNat_lt.mp h
  have hlt : (if r.irq = 2 then 0 else IRQ_OFFSET + r.irq.toNat) < 0x100 := by
    have hoffset : IRQ_OFFSET = 0x24 := rfl
    split_ifs <;> lia
  have hlow : vectorOf 0x2000 = 0 := rfl
  have hnmi : vectorOf 0x400 = 0 := rfl
  have hlevel : vectorOf 0x8000 = 0 := rfl
  have hsource : vectorOf (if r.irq = 2 then destination a ||| 0x2000 ||| 0x400
      else destination a ||| 0x2000 ||| (IRQ_OFFSET + r.irq.toNat).toUInt64)
      = if r.irq = 2 then 0 else IRQ_OFFSET + r.irq.toNat := by
    split_ifs
    · rw [vectorOf_or, vectorOf_or, vectorOf_destination, hlow, hnmi]
      rfl
    · rw [vectorOf_or, vectorOf_or, vectorOf_destination, hlow, vectorOf_irq hirq]
      simp
  simp only [overrideEntry]
  generalize (if r.irq = 2 then destination a ||| 0x2000 ||| 0x400
    else destination a ||| 0x2000 ||| (IRQ_OFFSET + r.irq.toNat).toUInt64) = x at hsource ⊢
  rw [← hsource] at hlt ⊢
  split_ifs
  · rw [vectorOf_or, vectorOf_and, hlevel, Nat.or_zero, vectorOf_mask hlt]
  · rw [vectorOf_or, hlevel, Nat.or_zero]
  · rw [vectorOf_and, vectorOf_mask hlt]
  · rfl

/-- The polarity and the trigger mode of the entry of an override. -/
theorem overrideEntry_testBit (r : Redirect) (h : r.irq < 16) :
  ((overrideEntry a r).toNat.testBit 13 = true ↔ r.mode &&& 0x03 ≠ 1) ∧
    ((overrideEntry a r).toNat.testBit 15 = true ↔ r.mode &&& 0x0C = 0x0C)
  := by
  have hirq : r.irq.toNat < 16 := UInt8.lt_iff_toNat_lt.mp h
  have hoffset : IRQ_OFFSET = 0x24 := rfl
  have hvector : (IRQ_OFFSET + r.irq.toNat).toUInt64.toNat = IRQ_OFFSET + r.irq.toNat := by
    rw [Nat.toUInt64, UInt64.toNat_ofNat']
    lia
  have hhigh : ∀ n, 6 ≤ n → (IRQ_OFFSET + r.irq.toNat).testBit n = false := by
    intro n hn
    apply Nat.testBit_lt_two_pow
    calc IRQ_OFFSET + r.irq.toNat < 2 ^ 6 := by lia
      _ ≤ 2 ^ n := Nat.pow_le_pow_right (by decide) hn
  have hsource : ∀ n, 11 ≤ n → n < 56 →
      (if r.irq = 2 then destination a ||| 0x2000 ||| 0x400
        else destination a ||| 0x2000 ||| (IRQ_OFFSET + r.irq.toNat).toUInt64).toNat.testBit n
      = (0x2000 : ℕ).testBit n := by
    intro n hn hn'
    have hnmi : (0x400 : ℕ).testBit n = false := by
      apply Nat.testBit_lt_two_pow
      calc 0x400 < 2 ^ 11 := by decide
        _ ≤ 2 ^ n := Nat.pow_le_pow_right (by decide) hn
    split_ifs
    · rw [UInt64.toNat_or, UInt64.toNat_or, Nat.testBit_or, Nat.testBit_or, destination_testBit a hn']
      change (false || (0x2000 : ℕ).testBit n || (0x400 : ℕ).testBit n) = _
      rw [hnmi, Bool.or_false, Bool.false_or]
    · rw [UInt64.toNat_or, UInt64.toNat_or, Nat.testBit_or, Nat.testBit_or, destination_testBit a hn',
        hvector, hhigh n (by omega)]
      change (false || (0x2000 : ℕ).testBit n || false) = _
      rw [Bool.or_false, Bool.false_or]
  have h13 := (hsource 13 (by decide) (by decide)).trans (show _ = true by decide)
  have h15 := (hsource 15 (by decide) (by decide)).trans (show _ = false by decide)
  simp only [overrideEntry]
  generalize (if r.irq = 2 then destination a ||| 0x2000 ||| 0x400
    else destination a ||| 0x2000 ||| (IRQ_OFFSET + r.irq.toNat).toUInt64) = x at h13 h15 ⊢
  have hm13 : (~~~(0x2000 : UInt64)).toNat.testBit 13 = false := by decide
  have hm15 : (~~~(0x2000 : UInt64)).toNat.testBit 15 = true := by decide
  have hl13 : (0x8000 : UInt64).toNat.testBit 13 = false := by decide
  have hl15 : (0x8000 : UInt64).toNat.testBit 15 = true := by decide
  split_ifs with hlevel hpolarity hpolarity
  all_goals
    simp only [UInt64.toNat_or, UInt64.toNat_and, Nat.testBit_or, Nat.testBit_and, h13, h15, hm13,
      hm15, hl13, hl15]
    simp [hlevel, hpolarity]

/-! ### The vector of entries -/

variable {a} {rte rte' : Rte} {i k : ℕ} {x : UInt64} {r : Redirect} {l : List Redirect}

/-- The fault of `vector::at`. -/
def outOfRange : Fault := .bugcheck "index %x out of range @ %p"

theorem put_eq_ok : put rte i x = .ok rte' ↔ i < rte.length ∧ rte.set i x = rte' := by
  rw [put]
  split_ifs with h
  · simp [h]
  · simp [h]

theorem put_eq_outOfRange : put rte i x = .error outOfRange ↔ rte.length ≤ i := by
  rw [put]
  split_ifs with h
  · simp [h]
  · exact iff_of_true rfl (not_lt.mp h)

/-- What is known of a table after an entry has been written. -/
structure Puts (rte : Rte) (i : ℕ) (x : UInt64) (rte' : Rte) : Prop where
  length : rte'.length = rte.length
  self : rte'[i]? = some x
  other : ∀ k, k ≠ i → rte'[k]? = rte[k]?

theorem puts_of_ok (h : put rte i x = .ok rte') : Puts rte i x rte' := by
  obtain ⟨hlt, rfl⟩ := put_eq_ok.mp h
  constructor
  · apply List.length_set
  · rw [List.getElem?_set_self hlt]
  · intro k hk
    rw [List.getElem?_set_ne hk.symm]

/-! ### The IRQs of the ISA bus -/

/-- The loop over the first IRQs. -/
def identityLoop (a : Setup) (n : ℕ) : Except Fault Rte :=
  (List.range n).foldlM (identityStep a) (List.replicate a.entries masked)

theorem identityLoop_succ (n : ℕ) :
  identityLoop a (n + 1) = identityLoop a n >>= fun rte => identityStep a rte n
  := by
  rw [identityLoop, List.range_succ, List.foldlM_append]
  apply congrArg
  funext rte
  apply bind_pure

/-- The table after the first rounds of the loop over the IRQs. -/
structure Identified (a : Setup) (n : ℕ) (rte : Rte) : Prop where
  length : rte.length = a.entries
  entry : ∀ k < a.entries,
    rte[k]? = some (if k + a.gsiBase < n then identity a (k + a.gsiBase) else masked)

theorem identityLoop_of_le (n : ℕ) (h : n ≤ a.gsiBase + a.entries) :
  ∃ rte, identityLoop a n = .ok rte ∧ Identified a n rte
  := by
  induction n with
  | zero =>
      refine ⟨_, rfl, ?_, ?_⟩
      · apply List.length_replicate
      · intro k hk
        rw [if_neg (Nat.not_lt_zero _), List.getElem?_replicate_of_lt hk]
  | succ n ih =>
      obtain ⟨rte, hloop, hlength, hentry⟩ := ih (by omega)
      rw [identityLoop_succ, hloop, Except.ok_bind, identityStep]
      by_cases hn : n ≥ a.gsiBase
      · have hlt : n - a.gsiBase < rte.length := by lia
        have hput : put rte (n - a.gsiBase) (identity a n)
            = .ok (rte.set (n - a.gsiBase) (identity a n)) := put_eq_ok.mpr ⟨hlt, rfl⟩
        obtain ⟨hlength', hself, hother⟩ := puts_of_ok hput
        rw [if_pos hn]
        refine ⟨_, hput, hlength'.trans hlength, ?_⟩
        intro k hk
        by_cases hkn : k = n - a.gsiBase
        · rw [hkn, hself, if_pos (by lia), Nat.sub_add_cancel hn]
        · rw [hother k hkn, hentry k hk]
          have hiff : k + a.gsiBase < n + 1 ↔ k + a.gsiBase < n := by lia
          simp only [hiff]
      · rw [if_neg hn]
        refine ⟨rte, rfl, hlength, ?_⟩
        intro k hk
        rw [hentry k hk, if_neg (by lia), if_neg (by lia)]

/-- A table that is too short for the IRQs of the ISA bus. -/
theorem identityLoop_of_lt (n : ℕ) (h : a.gsiBase + a.entries < n) :
  identityLoop a n = .error outOfRange
  := by
  induction n with
  | zero => omega
  | succ n ih =>
      rw [identityLoop_succ]
      by_cases hn : a.gsiBase + a.entries < n
      · rw [ih hn]
        rfl
      · obtain ⟨rte, hloop, hlength, -⟩ := identityLoop_of_le n (a := a) (by omega)
        rw [hloop, Except.ok_bind, identityStep, if_pos (by lia), put_eq_outOfRange]
        lia

/-! ### The overrides -/

/-- The indexes that an override uses are in a table of a length, unless the override is refused. -/
def InRange (a : Setup) (r : Redirect) : Prop :=
  r.gsi < a.entries ∧ (r.irq ≠ 2 → a.gsiBase ≤ r.irq.toNat → r.irq.toNat - a.gsiBase < a.entries)

/-- The overrides are in range, up to one that is refused. -/
def AllInRange (a : Setup) : List Redirect → Prop
  | [] => True
  | r :: rest => r.gsi > a.entries ∨ r.irq ≥ 16 ∨ InRange a r ∧ AllInRange a rest

/-- An override that is not refused. -/
def Admitted (a : Setup) (r : Redirect) : Prop := r.gsi ≤ a.entries ∧ r.irq < 16

/-- What an override does to a table. -/
structure Redirected (a : Setup) (r : Redirect) (rte rte' : Rte) : Prop where
  length : rte'.length = rte.length
  self : rte'[r.gsi]? = some (overrideEntry a r)
  other : ∀ k, k ≠ r.gsi → rte'[k]? = rte[k]? ∨
    rte'[k]? = some masked ∧ r.irq ≠ 2 ∧ Routes rte r.irq.toNat k
  origin : r.irq ≠ 2 → ∀ k, k ≠ r.gsi → k + a.gsiBase = r.irq.toNat → ¬ Routes rte' r.irq.toNat k

theorem vectorOf_masked : vectorOf masked = 0 := by decide

/-- Masking the origin fails only if its index is not in the table. -/
theorem clearOrigin_spec (hlength : rte.length = a.entries) (r : Redirect) :
  (∃ rte', clearOrigin a rte r = .ok rte' ∧ rte'.length = rte.length ∧
    (∀ k, rte'[k]? = rte[k]? ∨ rte'[k]? = some masked ∧ r.irq ≠ 2 ∧ Routes rte r.irq.toNat k) ∧
    (r.irq ≠ 2 → ∀ k, k + a.gsiBase = r.irq.toNat → ¬ Routes rte' r.irq.toNat k) ∧
    (r.irq ≠ 2 → a.gsiBase ≤ r.irq.toNat → r.irq.toNat - a.gsiBase < a.entries)) ∨
  (clearOrigin a rte r = .error outOfRange ∧ r.irq ≠ 2 ∧ a.gsiBase ≤ r.irq.toNat ∧
    a.entries ≤ r.irq.toNat - a.gsiBase)
  := by
  rw [clearOrigin]
  by_cases hirq : r.irq ≠ 2 ∧ r.irq.toNat ≥ a.gsiBase
  · rw [if_pos hirq]
    obtain ⟨hne, hge⟩ := hirq
    by_cases hlt : r.irq.toNat - a.gsiBase < a.entries
    · left
      have hlt' : r.irq.toNat - a.gsiBase < rte.length := by omega
      obtain ⟨x, hget⟩ : ∃ x, rte[r.irq.toNat - a.gsiBase]? = some x :=
        ⟨_, List.getElem?_eq_getElem hlt'⟩
      have hread : get rte (r.irq.toNat - a.gsiBase) = .ok x := by
        rw [get, hget]
      rw [hread, Except.ok_bind]
      by_cases hvector : vectorOf x = IRQ_OFFSET + r.irq.toNat
      · have hput : put rte (r.irq.toNat - a.gsiBase) masked
            = .ok (rte.set (r.irq.toNat - a.gsiBase) masked) := put_eq_ok.mpr ⟨by omega, rfl⟩
        obtain ⟨hlength', hself, hother⟩ := puts_of_ok hput
        rw [if_pos hvector]
        refine ⟨_, hput, hlength', ?_, ?_, fun _ _ => hlt⟩
        · intro k
          by_cases hk : k = r.irq.toNat - a.gsiBase
          · rw [hk]
            exact .inr ⟨hself, hne, x, hget, hvector⟩
          · exact .inl (hother k hk)
        · rintro - k hk ⟨y, hy, hvy⟩
          obtain rfl : k = r.irq.toNat - a.gsiBase := by lia
          rw [hself, Option.some.injEq] at hy
          rw [← hy, vectorOf_masked] at hvy
          exact absurd hvy (by rw [IRQ_OFFSET]; lia)
      · rw [if_neg hvector]
        refine ⟨rte, rfl, rfl, fun k => .inl rfl, ?_, fun _ _ => hlt⟩
        rintro - k hk ⟨y, hy, hvy⟩
        obtain rfl : k = r.irq.toNat - a.gsiBase := by lia
        rw [hget, Option.some.injEq] at hy
        exact hvector (hy ▸ hvy)
    · right
      have hget : rte[r.irq.toNat - a.gsiBase]? = none := List.getElem?_eq_none (by omega)
      refine ⟨?_, hne, hge, not_lt.mp hlt⟩
      rw [get, hget]
      rfl
  · left
    rw [if_neg hirq]
    refine ⟨rte, rfl, rfl, fun k => .inl rfl, ?_, ?_⟩
    · intro hne k hk
      exact absurd ⟨hne, by omega⟩ hirq
    · intro hne hge
      exact absurd ⟨hne, hge⟩ hirq

/-- An override that is not refused. -/
theorem redirectStep_spec (hlength : rte.length = a.entries) (h : Admitted a r) :
  (InRange a r → ∃ rte', redirectStep a rte r = .ok rte' ∧ Redirected a r rte rte') ∧
  (¬ InRange a r → redirectStep a rte r = .error outOfRange)
  := by
  have hadmitted : ¬ (r.gsi > a.entries ∨ r.irq ≥ 16) := by
    rw [not_or, not_lt, ge_iff_le, UInt8.not_le]
    exact h
  rw [redirectStep, if_neg hadmitted]
  rcases clearOrigin_spec hlength r with ⟨cleared, hclear, hlength', hkept, horigin, hrange⟩ |
    ⟨hclear, hne, hge, hout⟩
  · rw [hclear, Except.ok_bind]
    constructor
    · intro hin
      have hput : put cleared r.gsi (overrideEntry a r)
          = .ok (cleared.set r.gsi (overrideEntry a r)) := put_eq_ok.mpr ⟨by have := hin.1; omega, rfl⟩
      obtain ⟨hlength'', hself, hother⟩ := puts_of_ok hput
      refine ⟨_, hput, hlength''.trans hlength', hself, ?_, ?_⟩
      · intro k hk
        rw [hother k hk]
        apply hkept
      · rintro hne k hk hk' ⟨y, hy, hvy⟩
        rw [hother k hk] at hy
        exact horigin hne k hk' ⟨y, hy, hvy⟩
    · intro hout
      have hgsi : ¬ r.gsi < a.entries := fun hlt => hout ⟨hlt, hrange⟩
      apply put_eq_outOfRange.mpr
      lia
  · rw [hclear]
    constructor
    · intro hin
      exact absurd (hin.2 hne hge) (not_lt.mpr hout)
    · intro _
      rfl

theorem redirectStep_ok (hlength : rte.length = a.entries) (h : redirectStep a rte r = .ok rte') :
  Admitted a r ∧ Redirected a r rte rte'
  := by
  by_cases hadmitted : Admitted a r
  · obtain ⟨hin, hout⟩ := redirectStep_spec hlength hadmitted
    by_cases hrange : InRange a r
    · obtain ⟨t, ht, hredirected⟩ := hin hrange
      cases ht.symm.trans h
      exact ⟨hadmitted, hredirected⟩
    · cases (hout hrange).symm.trans h
  · have hrefused : r.gsi > a.entries ∨ r.irq ≥ 16 := by
      rw [Admitted, not_and_or, not_le, UInt8.not_lt] at hadmitted
      apply hadmitted
    rw [redirectStep, if_pos hrefused] at h
    cases h

/-- The loop over the overrides. -/
def overrideLoop (a : Setup) (rte : Rte) (l : List Redirect) : Except Fault Rte :=
  l.foldlM (redirectStep a) rte

theorem overrideLoop_cons (r : Redirect) (l : List Redirect) :
  overrideLoop a rte (r :: l) = redirectStep a rte r >>= fun rte => overrideLoop a rte l
  := rfl

theorem overrideLoop_append (l l' : List Redirect) :
  overrideLoop a rte (l ++ l') = overrideLoop a rte l >>= fun rte => overrideLoop a rte l'
  := List.foldlM_append

/-- The loop over the overrides uses an index outside of the table exactly when one of them does
before any of them is refused. -/
theorem overrideLoop_ne_outOfRange (hlength : rte.length = a.entries) :
  overrideLoop a rte l ≠ .error outOfRange ↔ AllInRange a l
  := by
  induction l generalizing rte with
  | nil => exact iff_of_true (by simp [overrideLoop, pure, Except.pure]) trivial
  | cons r l ih =>
      rw [overrideLoop_cons, AllInRange]
      by_cases hrefused : r.gsi > a.entries ∨ r.irq ≥ 16
      · rw [redirectStep, if_pos hrefused]
        apply iff_of_true
        · simp [outOfRange]
        · rw [← or_assoc]
          exact .inl hrefused
      · rw [← or_assoc, or_iff_right hrefused]
        rw [not_or, not_lt, ge_iff_le, UInt8.not_le] at hrefused
        obtain ⟨hin, hout⟩ := redirectStep_spec hlength hrefused
        by_cases hrange : InRange a r
        · obtain ⟨t, ht, hredirected⟩ := hin hrange
          rw [ht, Except.ok_bind, ih (hredirected.length.trans hlength), and_iff_right hrange]
        · rw [hout hrange]
          exact iff_of_false (fun h => h rfl) fun h => hrange h.1

/-- The loop over overrides that are not refused. -/
theorem overrideLoop_ok (hlength : rte.length = a.entries) (hall : AllInRange a l)
    (hadmitted : ∀ r ∈ l, Admitted a r) :
  ∃ rte', overrideLoop a rte l = .ok rte'
  := by
  induction l generalizing rte with
  | nil => exact ⟨rte, rfl⟩
  | cons r l ih =>
      have hr := hadmitted r List.mem_cons_self
      have hrefused : ¬ (r.gsi > a.entries ∨ r.irq ≥ 16) := by
        rw [not_or, not_lt, ge_iff_le, UInt8.not_le]
        apply hr
      rw [AllInRange, ← or_assoc, or_iff_right hrefused] at hall
      obtain ⟨t, ht, hredirected⟩ := (redirectStep_spec hlength hr).1 hall.1
      rw [overrideLoop_cons, ht]
      apply ih (hredirected.length.trans hlength) hall.2
      intro r' hr'
      apply hadmitted r' (List.mem_cons_of_mem r hr')

/-- Nothing happens to an entry which no override is about. -/
theorem overrideLoop_kept (hlength : rte.length = a.entries) (hloop : overrideLoop a rte l = .ok rte')
    (hk : rte[k]? = some x) (hgsi : ∀ r ∈ l, r.gsi ≠ k)
    (hirq : ∀ r ∈ l, r.irq ≠ 2 → vectorOf x ≠ IRQ_OFFSET + r.irq.toNat) :
  rte'[k]? = some x
  := by
  induction l generalizing rte with
  | nil =>
      cases hloop
      apply hk
  | cons r l ih =>
      rw [overrideLoop_cons] at hloop
      obtain ⟨t, ht, hrest⟩ := Except.bind_eq_ok_iff.mp hloop
      obtain ⟨-, hredirected⟩ := redirectStep_ok hlength ht
      apply ih (hredirected.length.trans hlength) hrest
      · rcases hredirected.other k (hgsi r List.mem_cons_self).symm with hsame | ⟨-, hne, y, hy, hvy⟩
        · rw [hsame, hk]
        · rw [hk, Option.some.injEq] at hy
          rw [← hy] at hvy
          exact absurd hvy (hirq r List.mem_cons_self hne)
      · intro r' hr'
        apply hgsi r' (List.mem_cons_of_mem r hr')
      · intro r' hr'
        apply hirq r' (List.mem_cons_of_mem r hr')

/-- The vector of an override is `0` or the one of its own IRQ. -/
theorem not_routes_of_other {n : ℕ} (hr : r.irq < 16) (hne : r.irq = 2 ∨ r.irq.toNat ≠ n) :
  vectorOf (overrideEntry a r) ≠ IRQ_OFFSET + n
  := by
  have hoffset : IRQ_OFFSET = 0x24 := rfl
  rw [vectorOf_overrideEntry a hr]
  split_ifs with h2
  · omega
  · have hirq := hne.resolve_left h2
    omega

/-- Only an override of an IRQ makes an entry for it. -/
theorem overrideLoop_routes {n : ℕ} (hlength : rte.length = a.entries)
    (hloop : overrideLoop a rte l = .ok rte') (hne : ∀ r ∈ l, r.irq = 2 ∨ r.irq.toNat ≠ n)
    (h : Routes rte' n k) :
  Routes rte n k
  := by
  have hoffset : IRQ_OFFSET = 0x24 := rfl
  induction l generalizing rte with
  | nil =>
      cases hloop
      apply h
  | cons r l ih =>
      rw [overrideLoop_cons] at hloop
      obtain ⟨t, ht, hrest⟩ := Except.bind_eq_ok_iff.mp hloop
      obtain ⟨hadmitted, hredirected⟩ := redirectStep_ok hlength ht
      obtain ⟨x, hx, hvx⟩ := ih (hredirected.length.trans hlength) hrest fun r' hr' =>
        hne r' (List.mem_cons_of_mem r hr')
      by_cases hk : k = r.gsi
      · rw [hk, hredirected.self, Option.some.injEq] at hx
        rw [← hx] at hvx
        exact absurd hvx (not_routes_of_other hadmitted.2 (hne r List.mem_cons_self))
      · rcases hredirected.other k hk with hsame | ⟨hmasked, -⟩
        · exact ⟨x, hsame ▸ hx, hvx⟩
        · rw [hmasked, Option.some.injEq] at hx
          rw [← hx, vectorOf_masked] at hvx
          omega

theorem overrideLoop_length (hlength : rte.length = a.entries)
    (hloop : overrideLoop a rte l = .ok rte') :
  rte'.length = a.entries ∧ ∀ r ∈ l, Admitted a r
  := by
  induction l generalizing rte with
  | nil =>
      cases hloop
      exact ⟨hlength, nofun⟩
  | cons r l ih =>
      rw [overrideLoop_cons] at hloop
      obtain ⟨t, ht, hrest⟩ := Except.bind_eq_ok_iff.mp hloop
      obtain ⟨hadmitted, hredirected⟩ := redirectStep_ok hlength ht
      obtain ⟨hlength', hall⟩ := ih (hredirected.length.trans hlength) hrest
      refine ⟨hlength', ?_⟩
      intro r' hr'
      rcases List.mem_cons.mp hr' with rfl | hr'
      · apply hadmitted
      · apply hall r' hr'

/-- No other override of the list has the GSI or the IRQ of `r`, unless `r` stands for an NMI. -/
structure Alone (l : List Redirect) (r : Redirect) : Prop where
  gsi : ∀ r' ∈ l, r'.gsi ≠ r.gsi
  irq : r.irq ≠ 2 → ∀ r' ∈ l, r'.irq ≠ r.irq

/-- The entry of an override stays as it is written. -/
theorem overrideLoop_self {before after : List Redirect} (hlength : rte.length = a.entries)
    (hloop : overrideLoop a rte (before ++ r :: after) = .ok rte') (hafter : Alone after r) :
  rte'[r.gsi]? = some (overrideEntry a r)
  := by
  rw [overrideLoop_append] at hloop
  obtain ⟨s, hs, hrest⟩ := Except.bind_eq_ok_iff.mp hloop
  rw [overrideLoop_cons] at hrest
  obtain ⟨t, ht, hrest⟩ := Except.bind_eq_ok_iff.mp hrest
  have hs' := (overrideLoop_length hlength hs).1
  obtain ⟨hadmitted, hredirected⟩ := redirectStep_ok hs' ht
  apply overrideLoop_kept (hredirected.length.trans hs') hrest hredirected.self hafter.gsi
  intro r' hr' h2
  apply not_routes_of_other hadmitted.2
  by_cases hr2 : r.irq = 2
  · exact .inl hr2
  · refine .inr fun heq => hafter.irq hr2 r' hr' ?_
    rw [UInt8.toNat_inj] at heq
    exact heq.symm

/-- An IRQ with a single override has no entry but the one of the override, if it had none but that
of its number. -/
theorem overrideLoop_unique {before after : List Redirect} (hlength : rte.length = a.entries)
    (hloop : overrideLoop a rte (before ++ r :: after) = .ok rte') (h2 : r.irq ≠ 2)
    (hbefore : Alone before r) (hafter : Alone after r)
    (hown : ∀ k, Routes rte r.irq.toNat k → k + a.gsiBase = r.irq.toNat)
    (h : Routes rte' r.irq.toNat k) :
  k = r.gsi
  := by
  have hoffset : IRQ_OFFSET = 0x24 := rfl
  have hother : ∀ l, Alone l r → ∀ r' ∈ l, r'.irq = 2 ∨ r'.irq.toNat ≠ r.irq.toNat := by
    intro l hl r' hr'
    exact .inr fun heq => hl.irq h2 r' hr' (UInt8.toNat_inj.mp heq)
  rw [overrideLoop_append] at hloop
  obtain ⟨s, hs, hrest⟩ := Except.bind_eq_ok_iff.mp hloop
  rw [overrideLoop_cons] at hrest
  obtain ⟨t, ht, hrest⟩ := Except.bind_eq_ok_iff.mp hrest
  have hs' := (overrideLoop_length hlength hs).1
  obtain ⟨-, hredirected⟩ := redirectStep_ok hs' ht
  obtain ⟨x, hx, hvx⟩ := overrideLoop_routes (hredirected.length.trans hs') hrest
    (hother after hafter) h
  by_contra hk
  have hroutes : Routes s r.irq.toNat k := by
    rcases hredirected.other k hk with hsame | ⟨hmasked, -⟩
    · exact ⟨x, hsame ▸ hx, hvx⟩
    · rw [hmasked, Option.some.injEq] at hx
      rw [← hx, vectorOf_masked] at hvx
      omega
  have horigin := hown k (overrideLoop_routes hlength hs (hother before hbefore) hroutes)
  exact hredirected.origin h2 k hk horigin ⟨x, hx, hvx⟩

/-! ### The whole table -/

/-- The number of the SCI is not refused. -/
def SciAdmitted (a : Setup) : Prop := a.picPresent = true → a.gsiBase ≤ a.sci.toUInt8.toNat

/-- The index of the SCI, if its number is not refused. -/
def sciPlace (a : Setup) : ℕ :=
  if a.picPresent = true then a.sci.toUInt8.toNat - a.gsiBase else a.sci.toUInt8.toNat

theorem sciIndex_of_admitted (h : SciAdmitted a) : sciIndex a = .ok (sciPlace a) := by
  rw [sciIndex, sciPlace]
  by_cases hpic : a.picPresent = true
  · have hle := h hpic
    have hlt := a.sci.toUInt8.toNat_lt
    have hbase : a.gsiBase.toUInt8.toNat = a.gsiBase := by
      rw [Nat.toUInt8, UInt8.toNat_ofNat']
      lia
    have hsub : (a.sci.toUInt8 - a.gsiBase.toUInt8).toNat = a.sci.toUInt8.toNat - a.gsiBase := by
      rw [UInt8.toNat_sub_of_le, hbase]
      rw [UInt8.le_iff_toNat_le, hbase]
      apply hle
    simp only [if_pos hpic, if_neg (not_lt.mpr hle), hsub]
  · simp only [if_neg hpic]

theorem sciIndex_of_refused (h : ¬ SciAdmitted a) :
  sciIndex a = .error (.bugcheck "invalid SCI#%d with GSI = %d")
  := by
  rw [SciAdmitted, Classical.not_imp, not_le] at h
  simp only [sciIndex, if_pos h.1, if_pos h.2]

/-- The indexes are in the table, as far as the constructor gets. -/
structure Indexed (a : Setup) : Prop where
  irqs : 15 ≤ a.gsiBase + a.entries
  sci : SciAdmitted a → sciPlace a < a.entries
  overrides : SciAdmitted a → AllInRange a a.redirects

/-- The constructor does not refuse the SCI or an override. -/
structure Complete (a : Setup) : Prop where
  sci : SciAdmitted a
  overrides : ∀ r ∈ a.redirects, Admitted a r

/-- Addressing the table by the GSI itself does no harm: there is no override of an IRQ unless
`gsi_base` is `0`, no IRQ has two overrides, and an entry that is written for the SCI or for an
override is not the one of an IRQ which keeps its entry. -/
structure Routable (a : Setup) : Prop where
  relative : ∀ r ∈ a.redirects, r.irq ≠ 2 → a.gsiBase = 0
  once : ∀ r ∈ a.redirects, ∀ r' ∈ a.redirects, r.irq ≠ 2 → r.irq = r'.irq → r.gsi = r'.gsi
  place : ∀ k, (k = sciPlace a ∨ ∃ r ∈ a.redirects, r.gsi = k) → k + a.gsiBase < 15 →
    Displaced a (k + a.gsiBase) ∨ Overridden a (k + a.gsiBase)

/-- The table before the overrides. -/
structure Prepared (a : Setup) (rte : Rte) : Prop where
  length : rte.length = a.entries
  sci : rte[sciPlace a]? = some (sciEntry a)
  entry : ∀ k < a.entries, k ≠ sciPlace a →
    rte[k]? = some (if k + a.gsiBase < 15 then identity a (k + a.gsiBase) else masked)

/-- The stages of the constructor. -/
theorem table_eq_of_admitted (hirqs : 15 ≤ a.gsiBase + a.entries) (hsci : SciAdmitted a)
    (hplace : sciPlace a < a.entries) :
  ∃ rte, Prepared a rte ∧ table a = overrideLoop a rte a.redirects
  := by
  obtain ⟨rte, hloop, hlength, hentry⟩ := identityLoop_of_le 15 hirqs
  have hput : put rte (sciPlace a) (sciEntry a) = .ok (rte.set (sciPlace a) (sciEntry a)) :=
    put_eq_ok.mpr ⟨by omega, rfl⟩
  obtain ⟨hlength', hself, hother⟩ := puts_of_ok hput
  refine ⟨_, ⟨hlength'.trans hlength, hself, ?_⟩, ?_⟩
  · intro k hk hne
    rw [hother k hne, hentry k hk]
  · change (identityLoop a 15 >>= _) = _
    rw [hloop, Except.ok_bind, sciIndex_of_admitted hsci, Except.ok_bind, hput]
    rfl

theorem table_ne_outOfRange : table a ≠ .error outOfRange ↔ Indexed a := by
  by_cases hirqs : 15 ≤ a.gsiBase + a.entries
  · by_cases hsci : SciAdmitted a
    · by_cases hplace : sciPlace a < a.entries
      · obtain ⟨rte, hprepared, htable⟩ := table_eq_of_admitted hirqs hsci hplace
        rw [htable, overrideLoop_ne_outOfRange hprepared.length]
        exact ⟨fun h => ⟨hirqs, fun _ => hplace, fun _ => h⟩, fun h => h.overrides hsci⟩
      · obtain ⟨rte, hloop, hlength, hentry⟩ := identityLoop_of_le 15 hirqs
        have hput : put rte (sciPlace a) (sciEntry a) = .error outOfRange :=
          put_eq_outOfRange.mpr (by omega)
        have htable : table a = .error outOfRange := by
          change (identityLoop a 15 >>= _) = _
          rw [hloop, Except.ok_bind, sciIndex_of_admitted hsci, Except.ok_bind, hput]
          rfl
        exact iff_of_false (fun h => h htable) fun h => hplace (h.sci hsci)
    · obtain ⟨rte, hloop, -⟩ := identityLoop_of_le 15 hirqs
      have htable : table a = .error (.bugcheck "invalid SCI#%d with GSI = %d") := by
        change (identityLoop a 15 >>= _) = _
        rw [hloop, Except.ok_bind, sciIndex_of_refused hsci]
        rfl
      apply iff_of_true
      · rw [htable]
        simp [outOfRange]
      · exact ⟨hirqs, fun h => absurd h hsci, fun h => absurd h hsci⟩
  · have htable : table a = .error outOfRange := by
      change (identityLoop a 15 >>= _) = _
      rw [identityLoop_of_lt 15 (by omega)]
      rfl
    exact iff_of_false (fun h => h htable) fun h => hirqs h.irqs

/-- Before the overrides, an IRQ has no entry but that of its number. -/
theorem Prepared.own (h : Prepared a rte) {n : ℕ} (hroutes : Routes rte n k) :
  k + a.gsiBase = n
  := by
  have hoffset : IRQ_OFFSET = 0x24 := rfl
  obtain ⟨x, hx, hvx⟩ := hroutes
  have hk : k < a.entries := by
    rw [← h.length]
    apply (List.getElem?_eq_some_iff.mp hx).1
  by_cases hplace : k = sciPlace a
  · rw [hplace, h.sci, Option.some.injEq] at hx
    rw [← hx, vectorOf_sciEntry] at hvx
    omega
  · rw [h.entry k hk hplace, Option.some.injEq] at hx
    rw [← hx] at hvx
    split_ifs at hvx with hlt
    · rw [vectorOf_identity a (by omega)] at hvx
      lia
    · rw [vectorOf_masked] at hvx
      omega

/-- An override of a list without shared GSIs is alone, if no other one is for its IRQ. -/
theorem alone_of_split {before after : List Redirect}
    (hsplit : a.redirects = before ++ r :: after) (hseparate : Separate a)
    (honce : ∀ r' ∈ a.redirects, r.irq ≠ 2 → r.irq = r'.irq → r.gsi = r'.gsi) :
  Alone before r ∧ Alone after r
  := by
  have hnodup := hseparate.nodup
  rw [hsplit, List.map_append, List.map_cons, List.nodup_append, List.nodup_cons] at hnodup
  obtain ⟨-, ⟨hafter, -⟩, hdisjoint⟩ := hnodup
  have hgsi : ∀ r' ∈ before, r'.gsi ≠ r.gsi := by
    intro r' hr'
    apply hdisjoint _ (List.mem_map_of_mem hr') _ List.mem_cons_self
  have hgsi' : ∀ r' ∈ after, r'.gsi ≠ r.gsi := by
    intro r' hr' heq
    apply hafter
    rw [← heq]
    apply List.mem_map_of_mem hr'
  constructor
  · refine ⟨hgsi, fun h2 r' hr' heq => hgsi r' hr' (honce r' ?_ h2 heq.symm).symm⟩
    rw [hsplit]
    apply List.mem_append_left _ hr'
  · refine ⟨hgsi', fun h2 r' hr' heq => hgsi' r' hr' (honce r' ?_ h2 heq.symm).symm⟩
    rw [hsplit]
    apply List.mem_append_right _ (List.mem_cons_of_mem r hr')

/-- The table routes the IRQs as it should when addressing it by the GSI does no harm. -/
theorem Prepared.routesRight (h : Prepared a rte) (hirqs : 15 ≤ a.gsiBase + a.entries)
    (hloop : overrideLoop a rte a.redirects = .ok rte') (hseparate : Separate a)
    (hroutable : Routable a) :
  RoutesRight a rte'
  := by
  constructor
  · intro r hr h2
    obtain ⟨before, after, hsplit⟩ := List.append_of_mem hr
    obtain ⟨hbefore, hafter⟩ :=
      alone_of_split hsplit hseparate fun r' hr' => hroutable.once r hr r' hr'
    have hadmitted := (overrideLoop_length h.length hloop).2 r hr
    rw [hsplit] at hloop
    have hself := overrideLoop_self h.length hloop hafter
    have hunique : ∀ k, Routes rte' r.irq.toNat k → k = r.gsi := by
      intro k
      apply overrideLoop_unique h.length hloop h2 hbefore hafter
      intro k'
      apply h.own
    refine ⟨r.gsi, by rw [hroutable.relative r hr h2, Nat.add_zero], ?_, _, hself,
      overrideEntry_testBit a r hadmitted.2⟩
    intro k
    constructor
    · intro hk
      apply hunique k hk
    · rintro rfl
      refine ⟨_, hself, ?_⟩
      rw [vectorOf_overrideEntry a hadmitted.2, if_neg h2]
  · intro i hi hle hoverridden hdisplaced
    have hback : i - a.gsiBase + a.gsiBase = i := Nat.sub_add_cancel hle
    have hplace : ¬ (i - a.gsiBase = sciPlace a ∨ ∃ r ∈ a.redirects, r.gsi = i - a.gsiBase) := by
      intro hk
      have hbad := hroutable.place _ hk (by lia)
      rw [hback] at hbad
      exact hbad.elim hdisplaced hoverridden
    rw [not_or, not_exists] at hplace
    have hentry := h.entry (i - a.gsiBase) (by lia) hplace.1
    rw [if_pos (by omega), hback] at hentry
    apply overrideLoop_kept h.length hloop hentry
    · intro r hr heq
      exact hplace.2 r ⟨hr, heq⟩
    · intro r hr h2
      rw [vectorOf_identity a (by omega)]
      intro heq
      exact hoverridden ⟨r, hr, h2, by lia⟩

/-- A table that routes the IRQs as it should is of the kind for which addressing it by the GSI does
no harm. -/
theorem Prepared.routable (h : Prepared a rte) (hloop : overrideLoop a rte a.redirects = .ok rte')
    (hseparate : Separate a) (hright : RoutesRight a rte') :
  Routable a
  := by
  have hoffset : IRQ_OFFSET = 0x24 := rfl
  have honce : ∀ r ∈ a.redirects, ∀ r' ∈ a.redirects, r.irq ≠ 2 → r.irq = r'.irq →
      r.gsi = r'.gsi := by
    intro r hr r' hr' h2 heq
    obtain ⟨k, hk, hroutes, -⟩ := hright.overridden r hr h2
    obtain ⟨k', hk', hroutes', -⟩ := hright.overridden r' hr' (heq ▸ h2)
    rw [← heq] at hroutes'
    have hsame := (hroutes' k).mp ((hroutes k).mpr rfl)
    lia
  have hself : ∀ r ∈ a.redirects, rte'[r.gsi]? = some (overrideEntry a r) ∧ r.irq < 16 := by
    intro r hr
    obtain ⟨before, after, hsplit⟩ := List.append_of_mem hr
    obtain ⟨-, hafter⟩ := alone_of_split hsplit hseparate fun r' hr' => honce r hr r' hr'
    refine ⟨?_, ((overrideLoop_length h.length hloop).2 r hr).2⟩
    rw [hsplit] at hloop
    apply overrideLoop_self h.length hloop hafter
  have hrelative : ∀ r ∈ a.redirects, r.irq ≠ 2 → a.gsiBase = 0 := by
    intro r hr h2
    obtain ⟨hentry, h16⟩ := hself r hr
    obtain ⟨k, hk, hroutes, -⟩ := hright.overridden r hr h2
    have hsame := (hroutes r.gsi).mp ⟨_, hentry, by rw [vectorOf_overrideEntry a h16, if_neg h2]⟩
    lia
  refine ⟨hrelative, honce, ?_⟩
  intro k hk hlt
  by_contra hbad
  rw [not_or] at hbad
  have hidentity := hright.identity (k + a.gsiBase) hlt (Nat.le_add_left _ _) hbad.2 hbad.1
  rw [Nat.add_sub_cancel] at hidentity
  have hvector := vectorOf_identity a (show k + a.gsiBase < 16 by omega)
  have hnmi : ∀ r ∈ a.redirects, r.gsi ≠ k := by
    intro r hr hgsi
    obtain ⟨hentry, h16⟩ := hself r hr
    rw [hgsi, hidentity, Option.some.injEq] at hentry
    by_cases h2 : r.irq = 2
    · rw [hentry, vectorOf_overrideEntry a h16, if_pos h2] at hvector
      omega
    · apply hbad.1
      rw [hrelative r hr h2, Nat.add_zero]
      exact .inr ⟨r, hr, hgsi⟩
  rcases hk with rfl | ⟨r, hr, hgsi⟩
  · have hsci := overrideLoop_kept h.length hloop h.sci hnmi fun r hr h2 => by
      rw [vectorOf_sciEntry]
      lia
    rw [hidentity, Option.some.injEq] at hsci
    rw [hsci, vectorOf_sciEntry] at hvector
    omega
  · exact hnmi r hr hgsi

/-- What is wanted of the constructor: it stops by itself or stays in the table, and unless GSIs are
shared the table routes the IRQs as it should. -/
def TableRight (a : Setup) : Prop :=
  table a ≠ .error outOfRange ∧ ∀ rte, table a = .ok rte → Separate a → RoutesRight a rte

/-- The table is right exactly when the indexes are in range and, if the constructor gets to the end
and no GSI is shared, addressing by the GSI does no harm. -/
theorem tableRight_iff (a : Setup) :
  TableRight a ↔ Indexed a ∧ (Complete a → Separate a → Routable a)
  := by
  constructor
  · rintro ⟨hrange, hright⟩
    have hindexed := table_ne_outOfRange.mp hrange
    refine ⟨hindexed, ?_⟩
    intro hcomplete hseparate
    obtain ⟨rte, hprepared, htable⟩ := table_eq_of_admitted hindexed.irqs hcomplete.sci
      (hindexed.sci hcomplete.sci)
    obtain ⟨rte', hloop⟩ := overrideLoop_ok hprepared.length (hindexed.overrides hcomplete.sci)
      hcomplete.overrides
    apply hprepared.routable hloop hseparate
    apply hright rte' (htable.trans hloop) hseparate
  · rintro ⟨hindexed, hroutable⟩
    refine ⟨table_ne_outOfRange.mpr hindexed, ?_⟩
    intro rte' hok hseparate
    have hsci : SciAdmitted a := by
      by_contra hrefused
      obtain ⟨rte, hloop, -⟩ := identityLoop_of_le 15 hindexed.irqs
      have htable : table a = .error (.bugcheck "invalid SCI#%d with GSI = %d") := by
        change (identityLoop a 15 >>= _) = _
        rw [hloop, Except.ok_bind, sciIndex_of_refused hrefused]
        rfl
      cases htable.symm.trans hok
    obtain ⟨rte, hprepared, htable⟩ := table_eq_of_admitted hindexed.irqs hsci (hindexed.sci hsci)
    have hloop := htable.symm.trans hok
    have hcomplete : Complete a := ⟨hsci, (overrideLoop_length hprepared.length hloop).2⟩
    apply hprepared.routesRight hindexed.irqs hloop hseparate (hroutable hcomplete hseparate)

/-! ### An override at the end of the table -/

/-- An IO APIC with 24 entries, and an override to GSI 24. -/
def lastEntry : Setup where
  entries := 24
  gsiBase := 0
  picPresent := true
  sci := 9
  redirects := [⟨24, 5, 0⟩]
  apicId := 0

/-- The test of an override lets an index just behind the table pass. -/
theorem lastEntry_not_right :
  ¬ ∀ a : Setup, 1 ≤ a.entries → a.entries ≤ 255 → TableRight a
  := by
  intro h
  have hindexed := table_ne_outOfRange.mp (h lastEntry (by decide) (by decide)).1
  rcases hindexed.overrides (fun _ => by decide) with hgsi | hirq | ⟨⟨hlt, -⟩, -⟩
  · exact absurd hgsi (by decide)
  · exact absurd hirq (by decide)
  · exact absurd hlt (by decide)

end Apic

end UOS
