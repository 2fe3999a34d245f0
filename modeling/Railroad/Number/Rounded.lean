/-
# Doubles shown as whole numbers

A double is rounded to a whole number, a half to the even neighbour, and all its
digits are written.  A sign is kept even where nothing else is left of the
number, so a small negative number is `-0`.
-/

import Railroad.Number.Double

namespace Railroad
namespace Number

/-- A double without a fraction. -/
def wholeText (x : Float) : String :=
  match shape x with
  | .notANumber => "nan"
  | .infinite negative => if negative then "-inf" else "inf"
  | .finite negative rank =>
    let y := value rank
    let ds := digits (roundHalfEven y.num y.den)
    String.ofList (if negative then '-' :: ds else ds)

end Number
end Railroad
