/-
# Exact coordinates

A drawing is made of numbers that can be added, multiplied, divided and compared.
Over the rationals these operations are exact, and what is said of sizes and places is
said there: the least and the greatest of two numbers are their minimum and maximum,
and a sum does not depend on how it is added up.
-/

import Mathlib.Algebra.Order.Field.Rat
import Mathlib.Algebra.BigOperators.Group.List.Basic
import Mathlib.Tactic.Linarith
import Mathlib.Tactic.Positivity
import Railroad.Drawing.Bounds

namespace Railroad

instance : Scalar ℚ where
  decidableLT := inferInstance

namespace Scalar

/-- Over exact numbers, where no number is incomparable, the least is the minimum. -/
theorem least_eq_min (a b : ℚ) : least a b = min a b := by
  rw [least, min_def_lt']

/-- Over exact numbers the greatest is the maximum. -/
theorem greatest_eq_max (a b : ℚ) : greatest a b = max a b := by
  rw [greatest, max_def_lt]

/-- Over exact numbers it does not matter in which order a sum is added up. -/
theorem sum_eq_sum (xs : List ℚ) : sum xs = xs.sum := by
  rw [sum, Nat.cast_zero, List.sum_eq_foldl]

end Scalar

namespace Drawing

/-! ### The width of a text -/

section

variable (text : String) {fontSize fontSize' : ℚ}

/-- A text is as wide as its characters, each of three fifths of the font size. -/
theorem textWidth_eq : textWidth text fontSize = text.length * (fontSize * (3 / 5)) := rfl

/-- A text is not of negative width. -/
theorem textWidth_nonneg (h : 0 ≤ fontSize) : 0 ≤ textWidth text fontSize := by
  rw [textWidth_eq]
  positivity

/-- The width of a text grows with the font size. -/
theorem textWidth_mono (h : fontSize ≤ fontSize') :
    textWidth text fontSize ≤ textWidth text fontSize' := by
  rw [textWidth_eq, textWidth_eq]
  gcongr

end

end Drawing
end Railroad
