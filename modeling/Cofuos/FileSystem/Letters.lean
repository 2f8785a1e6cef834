import Cofuos.FileSystem.Names

/-!
# The letters of names

`exfat::name_equal` passes a comparison of two characters to `match`. The characters are signed, and
what they have in common is found by `^` and a mask. `exfat::name_hash` replaces the bytes from `a` to
`z`, which are not signed, before it adds them.

Both take exactly the two cases of a letter of ASCII for the same: two names of which one byte differs
are equal if the bytes are cases of a letter, and have the same hash in no other case either.
-/

namespace UOS

namespace Exfat

/-! ### Characters -/

/-- The comparison that `name_equal` passes to `match`. Characters are signed, and become numbers of
32 bits before they are combined or compared. -/
def sameChar (x y : BitVec 8) : Bool :=
  if x = y then true
  else if x.signExtend 32 ^^^ y.signExtend 32 = 0x20#32 then
    let x := (x.signExtend 32 &&& ~~~0x20#32).setWidth 8
    (0x41#32).sle (x.signExtend 32) && (x.signExtend 32).sle 0x5A#32
  else false

/-- A capital letter of ASCII. -/
def Capital (ch : BitVec 8) : Prop := 0x41#8 ≤ ch ∧ ch ≤ 0x5A#8

instance : DecidablePred Capital := fun _ => inferInstanceAs (Decidable (_ ∧ _))

/-- The same byte, or the two cases of a letter of ASCII. The small letter is that of the capital one
with 32 added. -/
def SameLetter (x y : BitVec 8) : Prop :=
  x = y ∨ (Capital x ∧ y = x + 0x20#8) ∨ (Capital y ∧ x = y + 0x20#8)

variable {a b : Name} {x y : BitVec 8}

/-- Whether characters are signed makes no difference. -/
theorem sameChar_eq (x y : BitVec 8) : sameChar x y = charEqual x y := by
  rw [sameChar, charEqual]
  by_cases heq : x = y
  · rw [if_pos heq, decide_eq_true heq, Bool.true_or]
  rw [if_neg heq, decide_eq_false heq, Bool.false_or]
  have hxor : x.signExtend 32 ^^^ y.signExtend 32 = 0x20#32 ↔ x ^^^ y = 0x20#8 := by
    rw [← BitVec.signExtend_xor]
    generalize x ^^^ y = z
    revert z
    decide
  by_cases hcase : x ^^^ y = 0x20#8
  · rw [if_pos (hxor.2 hcase), decide_eq_true hcase, Bool.true_and]
    -- the second character does not matter any more
    clear hxor hcase heq y
    revert x
    decide
  · rw [if_neg fun h => hcase (hxor.1 h), decide_eq_false hcase, Bool.false_and]

/-- The cases of a letter are those that have the same capital letter. -/
theorem sameLetter_iff : SameLetter x y ↔ upper x = upper y := by
  have hsmall : ∀ z : BitVec 8, Capital z → upper (z + 0x20#8) = upper z := by
    decide
  have hcase : ∀ z : BitVec 8, z = upper z ∨ Capital (upper z) ∧ z = upper z + 0x20#8 := by
    decide
  constructor
  · rintro (rfl | ⟨hx, rfl⟩ | ⟨hy, rfl⟩)
    · rfl
    · exact (hsmall x hx).symm
    · exact hsmall y hy
  · intro heq
    rcases hcase x with hx | ⟨hux, hx⟩
    · rcases hcase y with hy | ⟨huy, hy⟩
      · left
        rw [hx, hy, heq]
      · right
        left
        rw [hx, heq]
        exact ⟨huy, hy⟩
    · rcases hcase y with hy | ⟨huy, hy⟩
      · right
        right
        rw [hy, ← heq]
        exact ⟨hux, hx⟩
      · left
        rw [hx, hy, heq]

/-- Names are equal exactly if they have the same letters. -/
theorem nameEqual_iff_letters : nameEqual a b = true ↔ List.Forall₂ SameLetter a b := by
  have hletters : List.Forall₂ SameLetter a b ↔ List.Forall₂ (fun x y => upper x = upper y) a b := by
    apply Iff.of_eq
    congr
    funext x y
    exact propext sameLetter_iff
  rw [nameEqual_iff, hletters, ← List.forall₂_eq_eq_eq, List.forall₂_map_left_iff,
    List.forall₂_map_right_iff]

/-- Names of which one byte differs. -/
theorem nameEqual_middle : nameEqual (a ++ x :: b) (a ++ y :: b) = true ↔ SameLetter x y := by
  rw [nameEqual_iff, List.map_append, List.map_append, List.append_right_inj, List.map_cons,
    List.map_cons, List.cons.injEq, sameLetter_iff]
  exact and_iff_left rfl

/-! ### Hashes -/

/-- The last bit of a sum is moved to the front. -/
theorem getLsbD_turn (sum : BitVec 16) {i : ℕ} (hi : i < 16) :
  (turn sum).getLsbD i = if i = 15 then sum.getLsbD 0 else sum.getLsbD (i + 1)
  := by
  have hfront : ∀ i < 16, (0x8000#16).getLsbD i = decide (i = 15) := by
    decide
  have hlast : sum &&& 1 ≠ 0 ↔ sum.getLsbD 0 = true := by
    rw [BitVec.ofNat_eq_ofNat, BitVec.and_one_eq_setWidth_ofBool_getLsbD]
    cases sum.getLsbD 0 with
    | false => decide
    | true => decide
  rw [turn, BitVec.getLsbD_or, BitVec.getLsbD_ushiftRight, Nat.add_comm 1 i]
  by_cases hfifteen : i = 15
  · subst hfifteen
    rw [if_pos rfl, BitVec.getLsbD_of_ge sum (15 + 1) le_rfl, Bool.or_false]
    split_ifs with hsum
    · rw [hfront 15 hi, hlast.1 hsum]
      rfl
    · rw [Bool.eq_false_of_not_eq_true fun hbit => hsum (hlast.2 hbit)]
      rfl
  · rw [if_neg hfifteen]
    split_ifs with hsum
    · rw [hfront i hi, decide_eq_false hfifteen, Bool.false_or]
    · rw [BitVec.ofNat_eq_ofNat, BitVec.getLsbD_zero, Bool.false_or]

/-- A sum can be turned back. -/
theorem turn_injective : Function.Injective turn := by
  intro s t heq
  apply BitVec.eq_of_getLsbD_eq
  intro i hi
  cases i with
  | zero =>
      have hbit : (turn s).getLsbD 15 = (turn t).getLsbD 15 := by rw [heq]
      rw [getLsbD_turn s (by decide), getLsbD_turn t (by decide), if_pos rfl, if_pos rfl] at hbit
      exact hbit
  | succ i =>
      have hbit : (turn s).getLsbD i = (turn t).getLsbD i := by rw [heq]
      rw [getLsbD_turn s (by lia), getLsbD_turn t (by lia), if_neg (by lia),
        if_neg (by omega)] at hbit
      exact hbit

/-- One round of `name_hash`. -/
def addChar (sum : BitVec 16) (ch : BitVec 8) : BitVec 16 := turn (turn sum + (upper ch).zeroExtend 16)

theorem nameHash_eq_foldl (a : Name) : nameHash a = a.foldl addChar 0 := rfl

/-- Different sums stay different. -/
theorem foldl_addChar_injective (b : Name) : Function.Injective fun sum => b.foldl addChar sum := by
  induction b with
  | nil => exact fun _ _ heq => heq
  | cons x b ih =>
      intro s t heq
      apply turn_injective
      have hadd := turn_injective (ih heq)
      rw [BitVec.add_left_inj] at hadd
      exact hadd

/-- Different capital letters lead to different sums. -/
theorem addChar_inj (sum : BitVec 16) : addChar sum x = addChar sum y ↔ SameLetter x y := by
  rw [sameLetter_iff]
  constructor
  · intro heq
    have hadd := turn_injective heq
    rw [BitVec.add_right_inj] at hadd
    have hchar := congrArg (BitVec.setWidth 8) hadd
    rw [BitVec.setWidth_setWidth_of_le _ (by decide), BitVec.setWidth_setWidth_of_le _ (by decide),
      BitVec.setWidth_eq, BitVec.setWidth_eq] at hchar
    exact hchar
  · intro heq
    rw [addChar, addChar, heq]

/-- Names of which one byte differs have the same hash exactly if they are equal. -/
theorem nameHash_middle : nameHash (a ++ x :: b) = nameHash (a ++ y :: b) ↔ SameLetter x y := by
  rw [nameHash_eq_foldl, nameHash_eq_foldl, List.foldl_append, List.foldl_append, List.foldl_cons,
    List.foldl_cons, (foldl_addChar_injective b).eq_iff, addChar_inj]

end Exfat

end UOS
