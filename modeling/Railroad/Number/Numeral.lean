/-
# The parts of a numeral

Runs of decimal digits, and exponents: an `e` in either case, a sign that may be
missing, and at least one digit.
-/

import Railroad.Text.Reading
import Railroad.Number.Decimal

namespace Railroad
namespace Number

open Text

/-- How many digits a whole number may be written with. -/
def maxDigits : Nat := 4300

/-- The values of the digits in front of a text, and the text behind them. -/
def digitRun (cs : List Char) : List Nat × List Char :=
  ((cs.takeWhile Char.isDigit).map fun c => c.toNat - '0'.toNat, cs.dropWhile Char.isDigit)

theorem digitRun_le (cs : List Char) : (digitRun cs).2.length ≤ cs.length :=
  (List.dropWhile_sublist _).length_le

theorem digitRun_shorter {cs : List Char} (h : (digitRun cs).1 ≠ []) :
    (digitRun cs).2.length < cs.length := by
  cases cs with
  | nil => simp [digitRun] at h
  | cons c cs =>
    by_cases hc : c.isDigit
    · simpa [digitRun, hc] using Nat.lt_succ_of_le (digitRun_le cs)
    · simp [digitRun, hc] at h

/-- Whether a sign in front of a text is negative, and the text behind it; no sign is
no negative one. -/
def signPart : List Char → Bool × List Char
  | '-' :: rest => (true, rest)
  | '+' :: rest => (false, rest)
  | cs => (false, cs)

theorem signPart_le (cs : List Char) : (signPart cs).2.length ≤ cs.length := by
  unfold signPart; split <;> simp

/-- The exponent, if there is one. -/
def exponentPart (cs : List Char) : Reading Malformed (Option Int) :=
  match cs with
  | [] => .ok (none, [])
  | c :: rest =>
    if c = 'e' ∨ c = 'E' then
      let (negative, body) := signPart rest
      let (ds, rest) := digitRun body
      if ds = [] then .error .malformed
      else
        let n : Int := Number.ofDigits ds
        .ok (some (if negative then -n else n), rest)
    else .ok (none, cs)

theorem exponentPart_le {cs exponent rest} (h : exponentPart cs = .ok (exponent, rest)) :
    rest.length ≤ cs.length := by
  have h₁ := @digitRun_le
  have h₂ := @signPart_le
  cases cs with
  | nil => simp_all [exponentPart]
  | cons c cs =>
    simp only [exponentPart] at h
    have := h₁ (signPart cs).2
    have := h₂ cs
    grind

end Number
end Railroad
