import Cofuos.Lib.Fault

/-!
# Computations that agree where they return

Two computations are compared in one direction: the second one returns what the first one does,
whenever the first one returns at all. So it is with the two builds of a program whose
assertions are only in one of them.
-/

namespace Except

variable {ε α β σ : Type}

/-- The second computation returns what the first one does, if that one returns. -/
def Within (x y : Except ε α) : Prop := ∀ a, x = .ok a → y = .ok a

namespace Within

variable {x y x' y' : Except ε α}

theorem refl (x : Except ε α) : x.Within x := fun _ h => h

/-- What follows two computations is compared for every value they can return. -/
theorem bind {f g : α → Except ε β} (h : x.Within y) (hfg : ∀ a, (f a).Within (g a)) :
  (x >>= f).Within (y >>= g)
  := by
  intro b hb
  obtain ⟨a, hx, hf⟩ := bind_eq_ok_iff.mp hb
  rw [h a hx]
  apply hfg a b hf

/-- Both computations take the same branch. -/
theorem ite {c : Prop} [Decidable c] (h : c → x.Within y) (h' : ¬ c → x'.Within y') :
  (if c then x else x').Within (if c then y else y')
  := by
  split_ifs with hc
  · apply h hc
  · apply h' hc

/-- Loops are compared by their rounds. -/
theorem foldlM {f g : σ → α → Except ε σ} (h : ∀ s a, (f s a).Within (g s a)) (l : List α) (s : σ) :
  (l.foldlM f s).Within (l.foldlM g s)
  := by
  induction l generalizing s with
  | nil => apply refl
  | cons a l ih =>
      rw [List.foldlM_cons, List.foldlM_cons]
      apply (h s a).bind
      intro s'
      apply ih

/-- Loops without a result are compared by their rounds. -/
theorem forM {f g : α → Except ε Unit} (h : ∀ a, (f a).Within (g a)) (l : List α) :
  (l.forM f).Within (l.forM g)
  := by
  induction l with
  | nil => apply refl
  | cons a l ih =>
      apply (h a).bind
      intro u
      apply ih

end Within

end Except

/-- The release build passes what the debug build does. -/
theorem Fault.assert_within (debug : Bool) (c : Prop) [Decidable c] :
  (assert debug c).Within (assert false c)
  := by
  intro u _
  apply assert_release
