import Mathlib.Tactic

/-!
# Alignment

Rounding to multiples of a power of two, as `align_down` and `align_up` of `util/include/util.hpp`
do it. Rounding up is done in the width of the value, so that it may wrap around.
-/

namespace UOS

/-- `align_down` -/
def alignDown (value align : ℕ) : ℕ := value / align * align

/-- `align_up` of a value of `w` bits. -/
def alignUp (w value align : ℕ) : ℕ := alignDown ((value + align - 1) % 2 ^ w) align

variable {w value align : ℕ}

theorem alignDown_le : alignDown value align ≤ value := Nat.div_mul_le_self value align

theorem alignDown_mod : alignDown value align % align = 0 := Nat.mul_mod_left _ align

/-- The number of units up to a value that is rounded down. -/
theorem alignDown_div (h : 0 < align) : alignDown value align / align = value / align := by
  apply Nat.mul_div_cancel _ h

/-- The number of units up to a value that is rounded up. -/
theorem alignUp_div (h : 0 < align) :
  alignUp w value align / align = (value + align - 1) % 2 ^ w / align
  := by
  rw [alignUp, alignDown_div h]

end UOS
