import Mathlib.Tactic

/-!
# Bisection

`bisect p head tail` narrows the interval between `head` and `tail` until the two are
adjacent, keeping `p` false at `head` and true at `tail` wherever they have been moved.
When `p` is monotone this finds the first place where `p` holds.
-/

/-- Halve the interval from `head` to `tail` until its ends are adjacent. -/
def bisect (p : ℕ → Bool) (head tail : ℕ) : ℕ × ℕ :=
  if head + 1 < tail then
    let mid := (head + tail) / 2
    if p mid then bisect p head mid else bisect p mid tail
  else (head, tail)
termination_by tail - head

/-- The ends of the interval are adjacent when the bisection stops, and lie within it. -/
theorem bisect_adjacent (p : ℕ → Bool) {head tail : ℕ} (h : head < tail) :
  head ≤ (bisect p head tail).1 ∧ (bisect p head tail).1 + 1 = (bisect p head tail).2
    ∧ (bisect p head tail).2 ≤ tail
  := by
  fun_induction bisect p head tail with
  | case1 head tail hlt mid hp ih =>
      have := ih (by lia)
      lia
  | case2 head tail hlt mid hp ih =>
      have := ih (by lia)
      lia
  | case3 head tail hlt =>
      constructor
      · apply le_rfl
      · constructor <;> simp only <;> lia

/-- The lower end has not moved, or `p` fails there. -/
theorem bisect_head (p : ℕ → Bool) (head tail : ℕ) :
  (bisect p head tail).1 = head ∨ p (bisect p head tail).1 = false
  := by
  fun_induction bisect p head tail with
  | case1 head tail hlt mid hp ih => apply ih
  | case2 head tail hlt mid hp ih =>
      right
      rcases ih with h | h
      · rw [h]
        simpa using hp
      · apply h
  | case3 head tail hlt =>
      left
      rfl

/-- The upper end has not moved, or `p` holds there. -/
theorem bisect_tail (p : ℕ → Bool) (head tail : ℕ) :
  (bisect p head tail).2 = tail ∨ p (bisect p head tail).2 = true
  := by
  fun_induction bisect p head tail with
  | case1 head tail hlt mid hp ih =>
      right
      rcases ih with h | h
      · rw [h]
        apply hp
      · apply h
  | case2 head tail hlt mid hp ih => apply ih
  | case3 head tail hlt =>
      left
      rfl
