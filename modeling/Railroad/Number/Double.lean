/-
# Doubles by rank

The non-negative doubles, from zero over the subnormal and normal ones to
infinity, are numbered 0, 1, 2, … in ascending order: the *rank* of a double is
its bit pattern without the sign.  A finite double of rank `r` has the value
`mantissa r · 2 ^ exponent r`:

| rank | mantissa | exponent |
| --- | --- | --- |
| `r < 2⁵²` | `r` | `-1074` |
| `2⁵² ≤ r < 2047 · 2⁵²` | `2⁵² + r mod 2⁵²` | `r / 2⁵² - 1075` |
| `r = 2047 · 2⁵²` | infinity | |

A decimal is read as the double nearest to it; of two that are equally near, as
the one of even rank.
-/

import Railroad.Number.Rounding
import Railroad.Number.Decimal

namespace Railroad
namespace Number

/-- How many doubles there are from a power of two up to the next. -/
def binadeSize : Nat := Nat.pow 2 52

/-- The rank of infinity. -/
def infinityRank : Nat := 2047 * binadeSize

/-- The bit pattern of the sign. -/
def signBit : Nat := Nat.pow 2 63

/-- What a double is. -/
inductive Shape where
  | notANumber
  | infinite (negative : Bool)
  | finite (negative : Bool) (rank : Nat)
  deriving DecidableEq, Repr

/-- The shape of a double, read off its bits. -/
def shape (x : Float) : Shape :=
  let bits := x.toBits.toNat
  let negative := decide (signBit ≤ bits)
  -- the bits without the sign are ascending with the size of the double
  let rank := bits % signBit
  if rank < infinityRank then .finite negative rank
  else if rank = infinityRank then .infinite negative
  else .notANumber

/-- The double with the given sign and rank; a rank beyond the last finite double
is infinity. -/
def ofRank (negative : Bool) (rank : Nat) : Float :=
  let rank := if rank < infinityRank then rank else infinityRank
  Float.ofBits (if negative then signBit + rank else rank).toUInt64

/-- A fraction of natural numbers. -/
structure Ratio where
  /-- The numerator. -/
  num : Nat
  /-- The denominator. -/
  den : Nat
  deriving DecidableEq, Repr

/-- `n · base ^ power`. -/
def Ratio.scaled (n base : Nat) (power : Int) : Ratio :=
  if 0 ≤ power then ⟨n * Nat.pow base power.toNat, 1⟩ else ⟨n, Nat.pow base (-power).toNat⟩

/-- A fraction divided by `base ^ power`. -/
def Ratio.over (x : Ratio) (base : Nat) (power : Int) : Ratio :=
  if 0 ≤ power then ⟨x.num, x.den * Nat.pow base power.toNat⟩
  else ⟨x.num * Nat.pow base (-power).toNat, x.den⟩

/-- The mantissa of the double of a rank. -/
def mantissa (rank : Nat) : Nat :=
  if rank < binadeSize then rank else binadeSize + rank % binadeSize

/-- The binary exponent of the double of a rank. -/
def exponent (rank : Nat) : Int :=
  if rank < binadeSize then -1074 else ((rank / binadeSize : Nat) : Int) - 1075

/-- The value of the double of a rank. -/
def value (rank : Nat) : Ratio := .scaled (mantissa rank) 2 (exponent rank)

/-- The greatest `k` with `2 ^ k ≤ x`, for a positive fraction `x`. -/
def binade (x : Ratio) : Int :=
  -- the lengths of numerator and denominator tell it up to one
  let k : Int := x.num.log2 - x.den.log2
  let y := x.over 2 k
  if y.den ≤ y.num then k else k - 1

/-- The rank of the double nearest to a fraction. -/
def nearestRank (x : Ratio) : Nat :=
  if x.num = 0 then 0
  else
    let k := binade x - 52
    -- below the least normal double the grid does not get any finer
    let k := if k < -1074 then -1074 else k
    let y := x.over 2 k
    -- a mantissa that is rounded up to the next power of two gives the next binade by itself
    (k + 1074).toNat * binadeSize + roundHalfEven y.num y.den

/-- The rank of the double nearest to `significand · 10 ^ exponent`.  From
`10 ^ 311` on a number is beyond every double, and below `10 ^ -330` it is nearer
to zero than to any other, so no power of ten outside that range is ever worked
out. -/
def Decimal.rank (significand : Nat) (exponent : Int) : Nat :=
  if significand = 0 then 0
  else if 310 < exponent then infinityRank
  -- a significand has no more decimal digits than binary ones
  else if exponent + significand.log2 + 1 < -330 then 0
  else nearestRank (.scaled significand 10 exponent)

/-- The double nearest to a decimal. -/
def Decimal.toFloat (d : Decimal) : Float :=
  ofRank d.negative (rank d.significand d.exponent)

/-- The double nearest to a whole number. -/
def floatOfInt (n : Int) : Float :=
  ofRank (decide (n < 0)) (Decimal.rank n.natAbs 0)

end Number
end Railroad
