import Mathlib.Tactic
import Mathlib.Algebra.BigOperators.Fin

/-!
# Tallies

`tally q f` is the number of indices at which a family `f` has a value with the property `q`. It
changes by at most one when the family is changed at one index.
-/

variable {ι β : Type} [Fintype ι] [DecidableEq ι]

/-- The number of indices at which `q` holds of the family. -/
def tally (q : β → Bool) (f : ι → β) : ℕ := ∑ i, (q (f i)).toNat

/-- The tally of a family that is changed at one index. -/
theorem tally_update (q : β → Bool) (f : ι → β) (i : ι) (b : β) :
  tally q (Function.update f i b) + (q (f i)).toNat = tally q f + (q b).toNat
  := by
  rw [tally, tally, ← Finset.add_sum_erase _ _ (Finset.mem_univ i),
    ← Finset.add_sum_erase _ (fun j => (q (f j)).toNat) (Finset.mem_univ i),
    Function.update_self]
  have hrest : ∑ j ∈ Finset.univ.erase i, (q (Function.update f i b j)).toNat =
      ∑ j ∈ Finset.univ.erase i, (q (f j)).toNat := by
    apply Finset.sum_congr rfl
    intro j hj
    rw [Function.update_of_ne (Finset.ne_of_mem_erase hj)]
  rw [hrest]
  lia

omit [DecidableEq ι] in
/-- Nothing is counted when `q` holds nowhere. -/
theorem tally_eq_zero_iff (q : β → Bool) (f : ι → β) :
  tally q f = 0 ↔ ∀ i, q (f i) = false
  := by
  rw [tally, Finset.sum_eq_zero_iff]
  constructor
  · intro h i
    apply Bool.toNat_eq_zero.mp (h i (Finset.mem_univ i))
  · intro h i _
    rw [h i]
    rfl

omit [DecidableEq ι] in
/-- The tally depends on what `q` says about the values only. -/
theorem tally_congr {q : β → Bool} {f g : ι → β} (h : ∀ i, q (f i) = q (g i)) :
  tally q f = tally q g
  := by
  apply Finset.sum_congr rfl
  intro i _
  rw [h i]
