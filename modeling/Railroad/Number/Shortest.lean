/-
# The shortest decimal of a double

Every finite double is shown by a decimal that reads back as that double.  Of
all such decimals it has the fewest digits, and of those with that many digits
it is the nearest.

The decimals of `n` digits form a grid, and the double lies between two
neighbours on it.  The grids are tried from one digit up to seventeen, each with
these two neighbours; a grid that is hit decides.  Where none is hit the decimal
is the double's exact value, so that whatever is shown reads back.
-/

import Railroad.Number.Double

namespace Railroad
namespace Number

/-- The greatest `k` with `10 ^ k ≤ x`, for a positive fraction `x`. -/
def decade (x : Ratio) : Int :=
  -- the number of digits in front of the point, or of zeros behind it
  if x.den ≤ x.num then (digits (x.num / x.den)).length - 1
  else -((digits ((x.den - 1) / x.num)).length : Int)

/-- The neighbour of `x` on the grid `10 ^ e` that reads back as the double of
the given rank; of two, the nearer, and the even one if both are as near. -/
def gridNeighbour? (rank : Nat) (x : Ratio) (e : Int) : Option Nat :=
  let y := x.over 10 e
  let below := y.num / y.den
  let nearest := roundHalfEven y.num y.den
  -- the double is between these two, so no other point of the grid can be as near
  let other := if nearest = below then below + 1 else below
  [nearest, other].find? fun n => Decimal.rank n e == rank

/-- The exact value of the double of a rank. -/
def exactDecimal (rank : Nat) : Nat × Int :=
  let e := exponent rank
  if 0 ≤ e then (mantissa rank * Nat.pow 2 e.toNat, 0)
  else (mantissa rank * Nat.pow 5 (-e).toNat, e)

/-- Tries the grids of `n`, `n + 1`, … digits, `fuel` of them. -/
def firstHit? (rank : Nat) (x : Ratio) (leading : Int) : (fuel n : Nat) → Option (Nat × Int)
  | 0, _ => none
  | fuel + 1, n =>
    -- with the leading digit in its place, this grid has `n` digits
    let e := leading - n + 1
    match gridNeighbour? rank x e with
    | some significand => some (significand, e)
    | none => firstHit? rank x leading fuel (n + 1)

/-- The shortest decimal that reads back as the double of the given sign and
rank. -/
def shortest (negative : Bool) (rank : Nat) : Decimal :=
  if rank = 0 then ⟨negative, 0, 0⟩
  else
    let x := value rank
    let (significand, e) := (firstHit? rank x (decade x) 17 1).getD (exactDecimal rank)
    .ofParts negative significand e

end Number
end Railroad
