import Mathlib.Tactic

/-!
# Names of files

The names of a directory are compared without regard to the case of the letters of ASCII, and
each record of a directory has a hash of its name. The definitions follow `exfat::name_hash` and
`exfat::name_equal` of `kernel/filesystem/include/exfat.hpp`.

Two names are equal exactly if they have the same capital letters. Names that are equal have the
same hash, so that the hash of the spelling that a caller gives finds the name of the disk.
-/

namespace UOS

namespace Exfat

/-- A name, by its bytes. -/
abbrev Name := List (BitVec 8)

/-- The capital letter of a letter. -/
def upper (ch : BitVec 8) : BitVec 8 :=
  if 0x61#8 ≤ ch ∧ ch ≤ 0x7A#8 then ch &&& ~~~0x20#8 else ch

/-- Moves the bits of a sum to the right by one, with the last at the front. -/
def turn (sum : BitVec 16) : BitVec 16 :=
  (if sum &&& 1 ≠ 0 then 0x8000#16 else 0) ||| sum >>> 1

def nameHash (str : Name) : BitVec 16 :=
  str.foldl (fun sum ch => turn (turn sum + (upper ch).zeroExtend 16)) 0

/-- Two bytes are the same, or the two cases of a letter. -/
def charEqual (x y : BitVec 8) : Bool :=
  x = y || x ^^^ y = 0x20#8 &&
    (0x41#8 ≤ x &&& ~~~0x20#8 && x &&& ~~~0x20#8 ≤ 0x5A#8)

/-- The number of bytes up to the first two that differ. -/
def matchCount : Name → Name → ℕ → ℕ
  | x :: a, y :: b, n + 1 => if charEqual x y = true then matchCount a b n + 1 else 0
  | _, _, _ => 0

def nameEqual (a b : Name) : Bool :=
  if a.length ≠ b.length then false else decide (a.length = matchCount a b a.length)

/-! ### Equality and hashes -/

variable {a b c : Name}

theorem charEqual_iff (x y : BitVec 8) : charEqual x y = true ↔ upper x = upper y := by
  constructor
  · intro h
    rw [charEqual, Bool.or_eq_true, decide_eq_true_eq, Bool.and_eq_true, decide_eq_true_eq] at h
    obtain rfl | ⟨hxor, hletter⟩ := h
    · rfl
    · obtain rfl : y = x ^^^ 0x20#8 := by
        rw [← hxor, ← BitVec.xor_assoc, BitVec.xor_self, BitVec.zero_xor]
      revert x
      decide
  · intro h
    -- a byte is its capital letter, or the other case of it
    have hcase : ∀ z : BitVec 8, z = upper z ∨
        z = upper z ^^^ 0x20#8 ∧ 0x41#8 ≤ upper z ∧ upper z ≤ 0x5A#8 := by
      decide
    have hself : ∀ z : BitVec 8, charEqual z z = true := by decide
    have hcases : ∀ z : BitVec 8, 0x41#8 ≤ z ∧ z ≤ 0x5A#8 →
        charEqual z (z ^^^ 0x20#8) = true ∧ charEqual (z ^^^ 0x20#8) z = true := by
      decide
    obtain hx | ⟨hx, hlx⟩ := hcase x
    · obtain hy | ⟨hy, hly⟩ := hcase y
      · rw [hx, hy, h]
        apply hself
      · rw [hx, hy, h]
        apply (hcases _ hly).1
    · obtain hy | ⟨hy, hly⟩ := hcase y
      · rw [hx, hy, h]
        apply (hcases _ (h ▸ hlx)).2
      · rw [hx, hy, h]
        apply hself

theorem matchCount_eq_length_iff (h : a.length = b.length) :
  matchCount a b a.length = a.length ↔ a.map upper = b.map upper
  := by
  induction a generalizing b with
  | nil =>
      cases b with
      | nil => simp [matchCount]
      | cons y b => cases h
  | cons x a ih =>
      cases b with
      | nil => cases h
      | cons y b =>
          rw [List.length_cons, matchCount, List.map_cons, List.map_cons, List.cons.injEq,
            ← ih (Nat.succ.inj h), ← charEqual_iff]
          split_ifs with hc
          · simp [hc]
          · simp [hc]

/-- Names are equal exactly if they have the same capital letters. -/
theorem nameEqual_iff : nameEqual a b = true ↔ a.map upper = b.map upper := by
  rw [nameEqual]
  split_ifs with hlen
  · constructor
    · intro h
      cases h
    · intro h
      have := congrArg List.length h
      rw [List.length_map, List.length_map] at this
      apply absurd this hlen
  · rw [decide_eq_true_eq, ← matchCount_eq_length_iff (not_not.1 hlen), eq_comm]

theorem nameEqual_refl (a : Name) : nameEqual a a = true := nameEqual_iff.2 rfl

theorem nameEqual_comm : nameEqual a b = nameEqual b a := by
  rw [Bool.eq_iff_iff, nameEqual_iff, nameEqual_iff, eq_comm]

theorem nameEqual_trans (hab : nameEqual a b = true) (hbc : nameEqual b c = true) :
  nameEqual a c = true
  := nameEqual_iff.2 ((nameEqual_iff.1 hab).trans (nameEqual_iff.1 hbc))

/-- The hash of a name is that of its capital letters. -/
theorem nameHash_eq :
  nameHash a
    = (a.map upper).foldl (fun sum ch => turn (turn sum + ch.zeroExtend 16)) 0
  := by
  rw [nameHash, List.foldl_map]

/-- Names that are equal have the same hash. -/
theorem nameHash_of_nameEqual (h : nameEqual a b = true) : nameHash a = nameHash b := by
  rw [nameHash_eq, nameHash_eq, nameEqual_iff.1 h]

end Exfat

end UOS
