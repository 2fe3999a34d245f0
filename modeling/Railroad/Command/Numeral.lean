/-
# Numbers as they are typed

A number on the command line may have blanks around it, a sign in front, and
single underscores between its digits; its digits may be those of any script.

* A whole number has nothing else, and not too many digits
  (`Railroad.Number.maxDigits`).
* A number with a fraction has digits on at least one side of the point, and may
  have an exponent; `nan`, `inf` and `infinity`, in either case of every letter,
  are numbers too.

Blanks are the ASCII blanks and the spaces beyond ASCII; no other control counts
as one.
-/

import Railroad.Text.DecimalDigit
import Railroad.Number.Double
import Railroad.Number.Numeral

namespace Railroad
namespace Command

open Number

/-- Whether a character beyond ASCII is a space. -/
def isWideSpace (c : Char) : Bool :=
  let n := c.toNat
  n == 0x85 || n == 0xa0 || n == 0x1680 || (0x2000 ≤ n && n ≤ 0x200a) || n == 0x2028 ||
    n == 0x2029 || n == 0x202f || n == 0x205f || n == 0x3000

/-- A character of a numeral in ASCII: spaces become the space and digits the
digits; other characters are none of a numeral. -/
def plain? (c : Char) : Option Char :=
  -- what is ASCII stays as it is, and may still be refused by what reads it
  if c.toNat < 0x7f then some c
  else if isWideSpace c then some ' '
  else (Text.digitValue? c).map Nat.digitChar

/-- Whether an ASCII character is a blank. -/
def isBlank (c : Char) : Bool := c == ' ' || ('\t' ≤ c && c ≤ '\r')

/-- A text without the blanks on either side. -/
def trim (cs : List Char) : List Char :=
  ((cs.dropWhile isBlank).reverse.dropWhile isBlank).reverse

/-- A text without its underscores, each of which has to stand between two
digits; `afterDigit` tells whether a digit stands in front of the text. -/
def dropUnderscores? (afterDigit : Bool) : List Char → Option (List Char)
  | [] => some []
  | c :: cs =>
    if c = '_' then
      if afterDigit && (cs.head?.any Char.isDigit) then dropUnderscores? false cs else none
    else (dropUnderscores? c.isDigit cs).map (c :: ·)

/-- The characters of a numeral, in ASCII, without blanks around them and
underscores among them. -/
def numeral? (s : String) : Option (List Char) := do
  let cs ← s.toList.mapM plain?
  dropUnderscores? false (trim cs)

/-- A whole number as it is typed. -/
def integer? (s : String) : Option Int := do
  let (negative, cs) := signPart (← numeral? s)
  let (ds, rest) := digitRun cs
  -- there are digits, not too many of them, and nothing behind them
  if ds.isEmpty || maxDigits < ds.length || !rest.isEmpty then none
  else
    let n : Int := ofDigits ds
    some (if negative then -n else n)

/-- The value of a word that is a number. -/
def word? (cs : List Char) : Option Float :=
  let lower := cs.map Char.toLower
  if lower = "nan".toList then some (0 / 0)
  else if lower = "inf".toList ∨ lower = "infinity".toList then some (1 / 0)
  else none

/-- The digits behind a point, and the text behind them. -/
def fraction : List Char → List Nat × List Char
  | '.' :: cs => digitRun cs
  | cs => ([], cs)

/-- A number without its sign; the sign goes into the value. -/
def unsigned? (negative : Bool) (cs : List Char) : Option Float :=
  match word? cs with
  | some x => some (if negative then -x else x)
  | none =>
    let (whole, rest) := digitRun cs
    let (places, rest) := fraction rest
    -- a point needs digits on one side at least
    if whole.isEmpty && places.isEmpty then none
    else
      match exponentPart rest with
      | .ok (exponent, []) =>
        some (Decimal.ofDigits negative whole places (exponent.getD 0)).toFloat
      | _ => none

/-- A number with a fraction as it is typed. -/
def real? (s : String) : Option Float := do
  let (negative, cs) := signPart (← numeral? s)
  unsigned? negative cs

end Command
end Railroad
