import Mathlib.Data.List.Basic
import Mathlib.Data.Nat.Find

/-!
# Searching for a substring

A pointer into a string is modelled by the characters from there to the terminator, and the end of
the list stands for the terminator. The search follows `strstr` of `app/libuos/uoscrt.cpp`.

When a character does not match, the search goes on behind it, with the start of the substring. It
does not go back to the characters that had matched. It therefore finds the first occurrence exactly if
what is in front of it splits into pieces each of which is a beginning of the substring and one
character that does not continue it.
-/

namespace UOS

namespace Uoscrt

/-- The loop of `strstr`: the characters at `str` and at `cmp`, and the indices of `str` and of `pos`. -/
def strstrLoop (substr : List UInt8) : List UInt8 → List UInt8 → ℕ → ℕ → Option ℕ
  | _, [], _, pos => some pos
  | [], _ :: _, _, _ => none
  | s :: str, c :: cmp, index, pos =>
      if c ≠ s then strstrLoop substr str substr (index + 1) (index + 1)
      else strstrLoop substr str cmp (index + 1) pos

/-- `strstr`, with the index of the pointer that it returns. -/
def strstr (str substr : List UInt8) : Option ℕ :=
  strstrLoop substr str substr 0 0

/-! ### What is wanted of the search -/

/-- The substring occurs at an index. -/
def OccursAt (str substr : List UInt8) (i : ℕ) : Prop :=
  ∃ t u, str = t ++ substr ++ u ∧ t.length = i

/-- The substring occurs at an index and at none before it. -/
def FirstAt (str substr : List UInt8) (i : ℕ) : Prop :=
  OccursAt str substr i ∧ ∀ j < i, ¬ OccursAt str substr j

/-- The result of the search is where the substring occurs first. -/
structure Finds (str substr : List UInt8) : Prop where
  found : ∀ i, strstr str substr = some i ↔ FirstAt str substr i
  missing : strstr str substr = none ↔ ∀ i, ¬ OccursAt str substr i

/-- A text that consists of pieces, each of which is a beginning of the substring and one character
that does not continue it. -/
inductive Pieces (substr : List UInt8) : List UInt8 → Prop
  | nil : Pieces substr []
  | cons {p q t : List UInt8} {c s : UInt8} : substr = p ++ c :: q → c ≠ s → Pieces substr t →
      Pieces substr (p ++ s :: t)

/-! ### The loop -/

variable {str substr : List UInt8}

/-- Characters that match are passed. -/
theorem strstrLoop_append (substr str p cmp : List UInt8) (index pos : ℕ) :
  strstrLoop substr (p ++ str) (p ++ cmp) index pos = strstrLoop substr str cmp (index + p.length) pos
  := by
  induction p generalizing index with
  | nil => rfl
  | cons c p ih =>
      rw [List.cons_append, List.cons_append, strstrLoop, if_neg (not_not_intro rfl), ih,
        List.length_cons]
      congr 1
      omega

/-- An occurrence behind pieces is found. -/
theorem strstrLoop_of_pieces {t : List UInt8} (h : Pieces substr t) (u : List UInt8) (pos : ℕ) :
  strstrLoop substr (t ++ substr ++ u) substr pos pos = some (pos + t.length)
  := by
  induction h generalizing pos with
  | nil =>
      have hall := strstrLoop_append substr u substr [] pos pos
      rw [List.append_nil] at hall
      rw [List.nil_append, hall, strstrLoop]
      rfl
  | @cons p q t c s hsub hne _ ih =>
      have hpiece := strstrLoop_append substr (s :: (t ++ substr ++ u)) p (c :: q) pos pos
      rw [← hsub] at hpiece
      rw [show p ++ s :: t ++ substr ++ u = p ++ s :: (t ++ substr ++ u) by simp, hpiece, strstrLoop,
        if_pos hne, ih]
      simp
      omega

/-- What is found is an occurrence behind pieces. -/
theorem pieces_of_strstrLoop {cmp p : List UInt8} {index pos i : ℕ} (hsub : substr = p ++ cmp)
    (hindex : index = pos + p.length) (h : strstrLoop substr str cmp index pos = some i) :
  ∃ t u, p ++ str = t ++ substr ++ u ∧ Pieces substr t ∧ i = pos + t.length
  := by
  induction str generalizing cmp p index pos with
  | nil =>
      cases cmp with
      | nil =>
          cases h
          exact ⟨[], [], by simp [hsub], .nil, rfl⟩
      | cons c cmp => cases h
  | cons s str ih =>
      cases cmp with
      | nil =>
          cases h
          exact ⟨[], s :: str, by simp [hsub], .nil, rfl⟩
      | cons c cmp =>
          rw [strstrLoop] at h
          split_ifs at h with hne
          · obtain ⟨t, u, htext, ht, rfl⟩ := ih (p := []) rfl rfl h
            refine ⟨p ++ s :: t, u, ?_, .cons hsub hne ht, ?_⟩
            · rw [List.nil_append] at htext
              simp [htext]
            · simp [hindex]
              lia
          · obtain rfl := not_not.1 hne
            obtain ⟨t, u, htext, ht, hi⟩ := ih (p := p ++ [c]) (by simp [hsub]) (by simp [hindex]; omega) h
            exact ⟨t, u, by simpa using htext, ht, hi⟩

/-- The search finds an index exactly if the substring occurs there behind pieces. -/
theorem strstr_eq_some_iff {i : ℕ} :
  strstr str substr = some i ↔ ∃ t u, str = t ++ substr ++ u ∧ Pieces substr t ∧ t.length = i
  := by
  constructor
  · intro h
    obtain ⟨t, u, htext, ht, hi⟩ := pieces_of_strstrLoop (p := []) rfl rfl h
    exact ⟨t, u, htext, ht, by rw [hi, Nat.zero_add]⟩
  · rintro ⟨t, u, rfl, ht, rfl⟩
    rw [strstr, strstrLoop_of_pieces ht, Nat.zero_add]

/-- What is in front of an occurrence is determined by the index. -/
theorem occursAt_iff {i : ℕ} :
  OccursAt str substr i ↔ ∃ u, str = str.take i ++ substr ++ u ∧ (str.take i).length = i
  := by
  constructor
  · rintro ⟨t, u, rfl, rfl⟩
    use u
    simp
  · rintro ⟨u, hstr, hlen⟩
    exact ⟨_, u, hstr, hlen⟩

/-- If the substring occurs at all, there is a first index. -/
theorem exists_firstAt {i : ℕ} (h : OccursAt str substr i) :
  ∃ j, FirstAt str substr j
  := by
  classical
  have hex : ∃ j, OccursAt str substr j := ⟨i, h⟩
  exact ⟨Nat.find hex, Nat.find_spec hex, fun j hj => Nat.find_min hex hj⟩

/-- The search finds the first occurrence exactly if what is in front of it consists of pieces. -/
theorem finds_iff :
  Finds str substr ↔ ∀ i, FirstAt str substr i → Pieces substr (str.take i)
  := by
  constructor
  · intro h i hi
    obtain ⟨t, u, rfl, ht, rfl⟩ := strstr_eq_some_iff.1 ((h.found i).2 hi)
    simpa using ht
  · intro h
    have hfound : ∀ i, FirstAt str substr i → strstr str substr = some i := by
      intro i hi
      obtain ⟨u, hstr, hlen⟩ := occursAt_iff.1 hi.1
      exact strstr_eq_some_iff.2 ⟨_, u, hstr, h i hi, hlen⟩
    have hoccurs : ∀ i, strstr str substr = some i → OccursAt str substr i := by
      intro i hi
      obtain ⟨t, u, hstr, -, hlen⟩ := strstr_eq_some_iff.1 hi
      exact ⟨t, u, hstr, hlen⟩
    constructor
    · intro i
      refine ⟨fun hi => ?_, hfound i⟩
      obtain ⟨j, hj⟩ := exists_firstAt (hoccurs i hi)
      have hij := (hfound j hj).symm.trans hi
      cases hij
      apply hj
    · constructor
      · intro hnone i hi
        obtain ⟨j, hj⟩ := exists_firstAt hi
        rw [hfound j hj] at hnone
        cases hnone
      · intro hno
        cases hresult : strstr str substr with
        | none => rfl
        | some i => exact absurd (hoccurs i hresult) (hno i)

/-- `ab` occurs in `aab`, and is not found: the second `a` is taken for the end of a piece. -/
theorem overlap_not_found :
  ¬ ∀ str substr : List UInt8, (0 : UInt8) ∉ str → (0 : UInt8) ∉ substr → Finds str substr
  := by
  intro hall
  have h := hall [0x61, 0x61, 0x62] [0x61, 0x62] (by decide) (by decide)
  exact h.missing.1 rfl 1 ⟨[0x61], [], rfl, rfl⟩

end Uoscrt

end UOS
