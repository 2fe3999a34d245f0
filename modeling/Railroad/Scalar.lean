/-
# Coordinates

Positions and sizes are numbers with the four operations, an order and an
equality.  A drawing is made over doubles; nothing in its construction depends
on that, so what is said about it can be said over exact numbers as well.

The order need not be total: a double may be no number.  The least and the
greatest of several numbers are therefore found from the left: the first number
stands until a later one is strictly beyond it.
-/

namespace Railroad

/-- Numbers that can serve as coordinates. -/
class Scalar (α : Type) extends
    Add α, Sub α, Mul α, Div α, NatCast α, LT α, BEq α where
  decidableLT : DecidableLT α

attribute [reducible, instance] Scalar.decidableLT

instance : Scalar Float where
  natCast := Float.ofNat
  decidableLT := inferInstance

namespace Scalar

variable {α : Type} [Scalar α]

/-- The first of two numbers, unless the second is less. -/
def least (a b : α) : α := if b < a then b else a

/-- The first of two numbers, unless the second is greater. -/
def greatest (a b : α) : α := if a < b then b else a

/-- The sum of a list, added up from the left: over doubles it is rounded once at each number,
with no compensation for what is lost by that.  A sum that compensates can differ from it in
the last places; over exact numbers the two are the same. -/
def sum (xs : List α) : α := xs.foldl (· + ·) (0 : Nat)

end Scalar
end Railroad
