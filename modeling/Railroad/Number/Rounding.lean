/-
# Rounding a quotient

A quotient of natural numbers is rounded to the nearest natural number; a half
goes to the even neighbour.
-/

namespace Railroad
namespace Number

/-- `num / den` to the nearest natural number, a half to the even neighbour. -/
def roundHalfEven (num den : Nat) : Nat :=
  let below := num / den
  let twice := 2 * (num % den)
  if twice < den then below
  else if den < twice then below + 1
  else if below % 2 = 0 then below
  else below + 1

/-- A quotient that comes out even is not changed. -/
theorem roundHalfEven_mul (n : Nat) {den : Nat} (h : 0 < den) :
    roundHalfEven (n * den) den = n := by
  simp [roundHalfEven, Nat.mul_div_cancel _ h, h]

end Number
end Railroad
