/-
# Decimal fractions

A decimal is a sign, a significand and a power of ten.  In normal form the
significand does not end in a zero digit, and zero has the exponent 0, so two
decimals in normal form are equal exactly if they have the same sign and the same
value.

A decimal is written with a point among its digits and at least one digit on
either side, as long as `10⁻⁵ ≤ |d| < 10¹⁶` or `d = 0`; otherwise with one digit
before the point and an exponent that has a sign and no leading zero.
-/

namespace Railroad
namespace Number

/-- `± significand · 10 ^ exponent`. -/
structure Decimal where
  /-- Whether there is a minus in front. -/
  negative : Bool
  /-- The digits, as a whole number. -/
  significand : Nat
  /-- The power of ten that they are multiplied by. -/
  exponent : Int
  deriving DecidableEq, Repr

/-- The decimal digits of a number, the highest first; zero has one digit. -/
def digits (n : Nat) : List Char := Nat.toDigits 10 n

/-- Drops the zeros at the end of a significand, one power of ten for each. -/
def stripZeros (significand : Nat) (exponent : Int) : Nat × Int :=
  if _h : significand = 0 then (0, 0)
  else if significand % 10 = 0 then stripZeros (significand / 10) (exponent + 1)
  else (significand, exponent)
termination_by significand
decreasing_by omega

/-- The normal form of a decimal. -/
def Decimal.ofParts (negative : Bool) (significand : Nat) (exponent : Int) : Decimal :=
  let (significand, exponent) := stripZeros significand exponent
  ⟨negative, significand, exponent⟩

/-- The number with the given digits, the highest first. -/
def ofDigits (ds : List Nat) : Nat := ds.foldl (fun n d => 10 * n + d) 0

/-- The decimal `whole.fraction · 10 ^ exponent`, both parts given by their
digits. -/
def Decimal.ofDigits (negative : Bool) (whole fraction : List Nat) (exponent : Int) : Decimal :=
  ofParts negative (Number.ofDigits (whole ++ fraction)) (exponent - fraction.length)

/-- The digits of a whole number of either sign. -/
def signedDigits (n : Int) : List Char :=
  if n < 0 then '-' :: digits n.natAbs else digits n.natAbs

namespace Decimal

/-- Digits with the point behind the first `point` of them, filled up with zeros
so that a digit stands on either side. -/
def positional (ds : List Char) (point : Int) : List Char :=
  if point ≤ 0 then "0.".toList ++ List.replicate (-point).toNat '0' ++ ds
  else
    let whole := ds.take point.toNat
    let fraction := ds.drop point.toNat
    -- digits that do not reach the point are filled up with zeros
    whole ++ List.replicate (point.toNat - ds.length) '0' ++
      '.' :: (if fraction.isEmpty then ['0'] else fraction)

/-- Digits with the point behind the first, and the exponent that makes up for
it. -/
def scientific (ds : List Char) (point : Int) : List Char :=
  let fraction := ds.drop 1
  let power := point - 1
  -- a single digit has no point behind it
  ds.take 1 ++ (if fraction.isEmpty then [] else '.' :: fraction) ++
    'e' :: (if power < 0 then '-' else '+') :: digits power.natAbs

/-- A decimal as it is written. -/
def text (d : Decimal) : List Char :=
  let ds := digits d.significand
  let point : Int := ds.length + d.exponent
  let unsigned := if -4 ≤ point ∧ point ≤ 16 then positional ds point else scientific ds point
  if d.negative then '-' :: unsigned else unsigned

end Decimal
end Number
end Railroad
