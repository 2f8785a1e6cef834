import Cofuos.Memory.Reachable

/-!
# What pages are used for

For a client of an address space that does not look at frames and attributes a page is free, reserved
or committed, or it cannot be used at all. A request is then a change of all the pages of a run from
one kind to another, if the space grants it. The requests to a space in order refine these changes.
-/

namespace UOS

/-- What a page is used for. -/
inductive PageKind where
  | bypassed
  | free
  | reserved
  | committed
  deriving DecidableEq, Repr

/-- What a page is used for, without its frame and attributes. -/
def PageState.kind : PageState → PageKind
  | .bypassed => .bypassed
  | .free => .free
  | .reserved => .reserved
  | .committed _ _ => .committed

/-- What every page is used for. -/
abbrev Kinds := ℕ → PageKind

namespace Kinds

/-- Whether the pages of a run are all of one kind. -/
def all (m : Kinds) (c : Run) (k : PageKind) : Bool :=
  (List.range c.size).all fun i => m (c.self + i) = k

/-- The pages of a run become pages of one kind. -/
def set (m : Kinds) (c : Run) (k : PageKind) : Kinds := fun p => if p ∈ c then k else m p

/-- A request for the pages from an address on, which changes them from one kind to another. -/
def change (m : Kinds) (old new : PageKind) (addr pageCount : ℕ) (granted : Bool) : Option Kinds :=
  if Vspace.commonCheck addr pageCount = true ∧ m.all ⟨addr / 0x1000, pageCount⟩ old = true ∧
      granted = true then
    some (m.set ⟨addr / 0x1000, pageCount⟩ new)
  else none

/-- Reserves pages at an address. -/
def reserve (m : Kinds) : ℕ → ℕ → Bool → Option Kinds := m.change .free .reserved

/-- Commits pages. -/
def commit (m : Kinds) : ℕ → ℕ → Bool → Option Kinds := m.change .reserved .committed

/-- Changes the attributes of pages. -/
def protect (m : Kinds) : ℕ → ℕ → Bool → Option Kinds := m.change .committed .committed

/-- Reserves pages anywhere. The space answers with an address if it finds pages that are free; it
looks for them below 4 GB. -/
def reserveAny (m : Kinds) (answer pageCount : ℕ) : Option (ℕ × Kinds) :=
  let n := pageCount % 2 ^ 32
  if n ≠ 0 ∧ n ≤ 0x40000 ∧ answer ≠ 0 ∧ answer % 0x1000 = 0 ∧ answer + n * 0x1000 ≤ 2 ^ 32 ∧
      m.all ⟨answer / 0x1000, n⟩ .free = true then
    some (answer, m.set ⟨answer / 0x1000, n⟩ .reserved)
  else none

/-- What the pages of a new space are used for: the lowest 2 MB cannot be used. -/
def fresh : Kinds := fun p => if p < 0x200 then .bypassed else .free

variable {m m' : Kinds} {c : Run} {k old new : PageKind} {addr n : ℕ} {granted : Bool}

theorem all_iff : m.all c k = true ↔ ∀ p ∈ c, m p = k := by
  rw [all, List.all_eq_true]
  constructor
  · rintro h p ⟨hge, hlt⟩
    have hp := h (p - c.self) (List.mem_range.mpr (by lia))
    rw [decide_eq_true_eq, Nat.add_sub_cancel' hge] at hp
    exact hp
  · intro h i hi
    rw [decide_eq_true_eq]
    rw [List.mem_range] at hi
    exact h _ ⟨by lia, by lia⟩

/-- What a change needs, and what it does. -/
theorem change_eq_some_iff :
  m.change old new addr n granted = some m' ↔ (Vspace.commonCheck addr n = true ∧
    (∀ p ∈ Run.mk (addr / 0x1000) n, m p = old) ∧ granted = true) ∧
    m' = m.set ⟨addr / 0x1000, n⟩ new
  := by
  simp only [change, all_iff, Option.ite_none_right_eq_some, Option.some.injEq]
  apply and_congr_right
  intro _
  apply eq_comm

/-- What reserving pages anywhere needs, and what it does. -/
theorem reserveAny_eq_some {base : ℕ} (h : m.reserveAny addr n = some (base, m')) :
  base = addr ∧ (n % 2 ^ 32 ≠ 0 ∧ n % 2 ^ 32 ≤ 0x40000 ∧ addr ≠ 0 ∧ addr % 0x1000 = 0 ∧
      addr + n % 2 ^ 32 * 0x1000 ≤ 2 ^ 32 ∧
      ∀ p ∈ Run.mk (addr / 0x1000) (n % 2 ^ 32), m p = .free) ∧
    m' = m.set ⟨addr / 0x1000, n % 2 ^ 32⟩ .reserved
  := by
  simp only [reserveAny, Option.ite_none_right_eq_some, Option.some.injEq, Prod.mk.injEq,
    all_iff] at h
  exact ⟨h.2.1.symm, h.1, h.2.2.symm⟩

theorem set_of_mem {p : ℕ} (h : p ∈ c) : m.set c k p = k := if_pos h

theorem set_of_not_mem {p : ℕ} (h : p ∉ c) : m.set c k p = m p := if_neg h

end Kinds

namespace Vspace

variable {debug : Bool} {vs vs' : Vspace}

/-- What the pages of a space are used for. -/
def kinds (vs : Vspace) : Kinds := fun p => (vs.map p).kind

/-- In a new space the lowest 2 MB cannot be used, and all other pages are free. -/
theorem kinds_create (pm : FramePool) : (create pm).kinds = Kinds.fresh := by
  funext p
  have hentry := entry_create pm p
  rw [kinds, map, hentry, Kinds.fresh]
  by_cases hp : p < 0x200
  · have hby : (create pm).bypassed (p / 0x200) = true := by
      rw [Nat.div_eq_of_lt hp]
      rfl
    rw [if_pos hby, if_pos hp]
    rfl
  · have hby : (create pm).bypassed (p / 0x200) = false := by
      have hne : p / 0x200 ≠ 0 := by lia
      simp [bypassed, create, Function.update_of_ne hne]
    rw [hby, if_neg (by decide), if_neg hp]
    rfl

/-- A request that changes pages from one kind to another refines the change. -/
theorem Outcome.kinds_eq {r : Request} {res : ℕ} {old new : PageKind} (h : Outcome debug vs r res vs')
    (haccepted : r.accepted = true → commonCheck r.addr r.pageCount = true)
    (hpre : r.Pre vs.map → ∀ p ∈ r.pages, vs.kinds p = old)
    (heffect : r.Pre vs.map → r.Effect vs.pm.used vs.map vs'.map → vs'.kinds = vs.kinds.set r.pages new) :
  (vs.kinds.change old new r.addr r.pageCount (decide (res ≠ 0))).getD vs.kinds = vs'.kinds ∧
    ((vs.kinds.change old new r.addr r.pageCount (decide (res ≠ 0))).isSome ↔ res ≠ 0)
  := by
  by_cases hres : res = 0
  · have hnone : vs.kinds.change old new r.addr r.pageCount (decide (res ≠ 0)) = none := by
      rw [Kinds.change, if_neg]
      rintro ⟨-, -, hgranted⟩
      exact of_decide_eq_true hgranted hres
    rw [hnone]
    refine ⟨?_, iff_of_false Bool.false_ne_true (not_not.mpr hres)⟩
    funext p
    rw [Option.getD_none, kinds, kinds, (h.failure hres).1]
  · obtain ⟨hacc, hpre', heff⟩ := h.success hres
    have hsome : vs.kinds.change old new r.addr r.pageCount (decide (res ≠ 0)) =
        some (vs.kinds.set r.pages new) :=
      Kinds.change_eq_some_iff.mpr
        ⟨⟨haccepted hacc, hpre hpre', decide_eq_true hres⟩, rfl⟩
    rw [hsome]
    exact ⟨(heffect hpre' heff).symm, iff_of_true rfl hres⟩

/-- Reserving pages at an address. -/
theorem kinds_reserve {addr : UInt64} {n : UInt32} {res : ℕ}
    (h : Outcome debug vs (.reserve addr n) res vs') :
  (vs.kinds.reserve addr.toNat n.toNat (decide (res ≠ 0))).getD vs.kinds = vs'.kinds ∧
    ((vs.kinds.reserve addr.toNat n.toNat (decide (res ≠ 0))).isSome ↔ res ≠ 0)
  := by
  apply Outcome.kinds_eq h id
  · intro hpre p hp
    rw [kinds, hpre p hp]
    rfl
  · intro hpre heff
    funext p
    rw [kinds, heff p, Kinds.set]
    split_ifs
    · rfl
    · rfl

/-- Committing pages. -/
theorem kinds_commit {addr : UInt64} {n : UInt32} {res : ℕ}
    (h : Outcome debug vs (.commit addr n) res vs') :
  (vs.kinds.commit addr.toNat n.toNat (decide (res ≠ 0))).getD vs.kinds = vs'.kinds ∧
    ((vs.kinds.commit addr.toNat n.toNat (decide (res ≠ 0))).isSome ↔ res ≠ 0)
  := by
  apply Outcome.kinds_eq h id
  · intro hpre p hp
    rw [kinds, hpre p hp]
    rfl
  · rintro hpre ⟨hother, frame, hframe, -⟩
    funext p
    by_cases hp : p ∈ (Request.commit addr n).pages
    · obtain ⟨a, ha⟩ := (hframe p hp).2
      rw [kinds, ha, Kinds.set_of_mem hp]
      rfl
    · rw [kinds, hother p hp, Kinds.set_of_not_mem hp]
      rfl

/-- Changing the attributes of pages. -/
theorem kinds_protect {addr : UInt64} {n : UInt32} {attrib : UInt64} {res : ℕ}
    (h : Outcome debug vs (.protect addr n attrib) res vs') :
  (vs.kinds.protect addr.toNat n.toNat (decide (res ≠ 0))).getD vs.kinds = vs'.kinds ∧
    ((vs.kinds.protect addr.toNat n.toNat (decide (res ≠ 0))).isSome ↔ res ≠ 0)
  := by
  apply Outcome.kinds_eq h
  · intro hacc
    exact (Bool.and_eq_true _ _ ▸ hacc).1
  · intro hpre p hp
    obtain ⟨f, a, ha⟩ := hpre p hp
    rw [kinds, ha]
    rfl
  · rintro hpre ⟨hother, hset⟩
    funext p
    by_cases hp : p ∈ (Request.protect addr n attrib).pages
    · obtain ⟨f, a, ha⟩ := hpre p hp
      rw [kinds, hset p hp f a ha, Kinds.set_of_mem hp]
      rfl
    · rw [kinds, hother p hp, Kinds.set_of_not_mem hp]
      rfl

end Vspace

end UOS
