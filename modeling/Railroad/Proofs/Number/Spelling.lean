/-
# The parts of a written decimal

A decimal is written as a whole part, a fraction and an exponent, of which the last two may be
missing (`Spelling`):

| decimal | whole part | fraction | exponent |
| --- | --- | --- | --- |
| `10⁻⁵ ≤ \|d\| < 1` | `0` | the digits behind some zeros | none |
| `1 ≤ \|d\| < 10¹⁶` | the digits in front of the point | the digits behind it, or `0` | none |
| otherwise | the first digit | the other digits, if there are any | one |

In each of them the digits of both parts and the exponent make up the magnitude again
(`magnitude_spelling`).
-/

import Mathlib.Tactic.FieldSimp
import Railroad.Number.Numeral
import Railroad.Proofs.Number.ReadsBack

namespace Railroad
namespace Number

/-! ### Digits -/

/-- The values of some digits. -/
def digitValues (cs : List Char) : List Nat := cs.map fun c => c.toNat - '0'.toNat

/-- Digits are read by their values, the first one counting most. -/
theorem ofDigits_digitValues (cs : List Char) :
    ofDigits (digitValues cs) = Nat.ofDigitChars 10 cs 0 := by
  rw [ofDigits, digitValues, List.foldl_map, Nat.ofDigitChars_eq_foldl]

/-- The digits of a number stand for it. -/
theorem ofDigits_digits (n : Nat) : ofDigits (digitValues (digits n)) = n := by
  rw [ofDigits_digitValues, digits, Nat.ofDigitChars_toDigits (by decide) (by decide)]

theorem digits_ne_nil (n : Nat) : digits n ≠ [] := Nat.toDigits_ne_nil

/-- A number is written in digits only. -/
theorem isDigit_of_mem_digits {n : Nat} {c : Char} (h : c ∈ digits n) : c.isDigit = true :=
  Nat.isDigit_of_mem_toDigits (by decide) (by decide) h

/-- No zero stands in front of the digits of a number. -/
theorem head?_digits {n : Nat} (hn : n ≠ 0) : (digits n).head? ≠ some '0' := by
  induction n using Nat.strongRecOn with
  | ind n ih =>
      rw [digits, Nat.toDigits_eq_if (by decide)]
      split_ifs with hsmall
      · have hchar : ∀ m < 10, m ≠ 0 → Nat.digitChar m ≠ '0' := by decide
        rw [List.head?_cons, Ne, Option.some_inj]
        exact hchar n hsmall hn
      · have htens : n / 10 ≠ 0 := by omega
        rw [List.head?_append_of_ne_nil _ Nat.toDigits_ne_nil]
        exact ih (n / 10) (by omega) htens

/-- Digits in front of anything that is none are read as they stand. -/
theorem digitRun_append {cs rest : List Char} (hcs : ∀ c ∈ cs, c.isDigit = true)
    (hrest : ∀ c ∈ rest.head?, c.isDigit = false) :
    digitRun (cs ++ rest) = (digitValues cs, rest) := by
  have hnone : rest.takeWhile Char.isDigit = [] ∧ rest.dropWhile Char.isDigit = rest := by
    cases rest with
    | nil => exact ⟨rfl, rfl⟩
    | cons c rest =>
        have hc : c.isDigit = false := hrest c rfl
        simp [hc]
  rw [digitRun, List.takeWhile_append_of_pos hcs, List.dropWhile_append_of_pos hcs, hnone.1,
    hnone.2, List.append_nil, digitValues]

/-! ### Spellings -/

/-- The parts of a numeral: the digits in front of the point, those behind it if there is a
point, and the exponent if there is one. -/
structure Spelling where
  /-- The digits in front of the point. -/
  whole : List Char
  /-- The digits behind the point, if there is one. -/
  fraction : Option (List Char)
  /-- The power of ten, if there is one. -/
  exponent : Option Int

namespace Spelling

/-- An exponent as it is written, with a sign and without a zero in front. -/
def exponentText (power : Int) : List Char :=
  'e' :: (if power < 0 then '-' else '+') :: digits power.natAbs

/-- The text of a numeral. -/
def text (s : Spelling) : List Char :=
  s.whole ++ s.fraction.elim [] ('.' :: ·) ++ s.exponent.elim [] exponentText

/-- The absolute value of a numeral. -/
def magnitude (s : Spelling) : ℚ :=
  ofDigits (digitValues (s.whole ++ s.fraction.getD [])) *
    10 ^ (s.exponent.getD 0 - (s.fraction.getD []).length)

/-- The numerals in the grammar: digits on both sides of a point, no zero in front of other
digits, and not too many digits. -/
structure Regular (s : Spelling) : Prop where
  /-- There are digits in front of the point, … -/
  whole_ne_nil : s.whole ≠ []
  whole_digits : ∀ c ∈ s.whole, c.isDigit = true
  /-- … with no zero too many, … -/
  whole_head : s.whole.head? = some '0' → s.whole = ['0']
  /-- … and not more of them than are read. -/
  whole_length : s.whole.length ≤ maxDigits
  /-- Behind a point there are digits. -/
  fraction_ne_nil : s.fraction ≠ some []
  fraction_digits : ∀ ds ∈ s.fraction, ∀ c ∈ ds, c.isDigit = true

end Spelling

namespace Decimal

/-- The parts of digits with the point among or around them. -/
def positionalSpelling (ds : List Char) (point : Int) : Spelling :=
  if point ≤ 0 then ⟨['0'], some (List.replicate (-point).toNat '0' ++ ds), none⟩
  else
    ⟨ds.take point.toNat ++ List.replicate (point.toNat - ds.length) '0',
      some (if (ds.drop point.toNat).isEmpty then ['0'] else ds.drop point.toNat), none⟩

/-- The parts of digits with the point behind the first. -/
def scientificSpelling (ds : List Char) (point : Int) : Spelling :=
  ⟨ds.take 1, if (ds.drop 1).isEmpty then none else some (ds.drop 1), some (point - 1)⟩

/-- The positional notation, by its parts. -/
theorem positional_eq (ds : List Char) (point : Int) :
    positional ds point = (positionalSpelling ds point).text := by
  rw [positional, positionalSpelling]
  split_ifs with hbelow hwhole
  · simp [Spelling.text]
  · dsimp only [Spelling.text, Option.elim_some, Option.elim_none]
    rw [if_pos hwhole, List.append_nil]
  · dsimp only [Spelling.text, Option.elim_some, Option.elim_none]
    rw [if_neg hwhole, List.append_nil]

/-- The scientific notation, by its parts. -/
theorem scientific_eq (ds : List Char) (point : Int) :
    scientific ds point = (scientificSpelling ds point).text := by
  rw [scientific, scientificSpelling, Spelling.text]
  dsimp only [Spelling.exponentText, Option.elim_some]
  split_ifs <;> rfl

/-- The parts of a decimal. -/
def spelling (d : Decimal) : Spelling :=
  if -4 ≤ (digits d.significand).length + d.exponent ∧
      (digits d.significand).length + d.exponent ≤ 16 then
    positionalSpelling (digits d.significand) ((digits d.significand).length + d.exponent)
  else scientificSpelling (digits d.significand) ((digits d.significand).length + d.exponent)

/-- A decimal is written as its sign and the parts of its spelling. -/
theorem text_eq_spelling (d : Decimal) :
    d.text = if d.negative then '-' :: d.spelling.text else d.spelling.text := by
  rw [text, spelling, apply_ite Spelling.text, ← positional_eq, ← scientific_eq]

/-! ### What a spelling stands for -/

/-- The positional notation stands for the digits with the point where it belongs. -/
theorem magnitude_positionalSpelling {ds : List Char} {n : Nat}
    (hds : Number.ofDigits (digitValues ds) = n) (point : Int) :
    (positionalSpelling ds point).magnitude = n * 10 ^ (point - ds.length) := by
  rw [ofDigits_digitValues] at hds
  rw [positionalSpelling]
  split_ifs with hbelow hwhole
  case pos =>
    -- the point stands in front of the digits
    have hdigits : Number.ofDigits
        (digitValues (['0'] ++ (List.replicate (-point).toNat '0' ++ ds))) = n := by
      rw [ofDigits_digitValues, Nat.ofDigitChars_append, Nat.ofDigitChars_append,
        Nat.ofDigitChars_replicate_zero, Nat.ofDigitChars_cons]
      simpa using hds
    have hlength : (0 : Int) - (List.replicate (-point).toNat '0' ++ ds).length =
        point - ds.length := by
      rw [List.length_append, List.length_replicate]
      omega
    dsimp only [Spelling.magnitude, Option.getD_some, Option.getD_none]
    rw [hdigits, hlength]
  case pos =>
    -- the point stands behind all the digits, and a zero behind the point
    rw [List.isEmpty_iff, List.drop_eq_nil_iff] at hwhole
    have hdigits : Number.ofDigits (digitValues
        (ds.take point.toNat ++ List.replicate (point.toNat - ds.length) '0' ++ ['0'])) =
        n * 10 ^ (point.toNat - ds.length + 1) := by
      rw [List.take_of_length_le hwhole, ofDigits_digitValues, List.append_assoc,
        ← List.replicate_succ', Nat.ofDigitChars_append, Nat.ofDigitChars_replicate_zero, hds,
        Nat.mul_comm]
    have hpower : point - ds.length = (point.toNat - ds.length + 1 : Nat) + (0 - 1) := by omega
    dsimp only [Spelling.magnitude, Option.getD_some, Option.getD_none]
    rw [hdigits, hpower, zpow_add₀ (by norm_num), zpow_natCast]
    push_cast
    rw [mul_assoc]
    rfl
  case neg =>
    -- the point stands among the digits
    rw [List.isEmpty_iff, List.drop_eq_nil_iff, not_le] at hwhole
    have hdigits : Number.ofDigits (digitValues
        (ds.take point.toNat ++ List.replicate (point.toNat - ds.length) '0' ++
          ds.drop point.toNat)) = n := by
      rw [Nat.sub_eq_zero_of_le hwhole.le, List.replicate_zero, List.append_nil,
        List.take_append_drop, ofDigits_digitValues, hds]
    have hlength : (0 : Int) - (ds.drop point.toNat).length = point - ds.length := by
      rw [List.length_drop]
      omega
    dsimp only [Spelling.magnitude, Option.getD_some, Option.getD_none]
    rw [hdigits, hlength]

/-- So does the scientific notation. -/
theorem magnitude_scientificSpelling {ds : List Char} {n : Nat} (hne : ds ≠ [])
    (hds : Number.ofDigits (digitValues ds) = n) (point : Int) :
    (scientificSpelling ds point).magnitude = n * 10 ^ (point - ds.length) := by
  -- a single digit has no fraction, which counts as an empty one
  have hfraction : (scientificSpelling ds point).fraction.getD [] = ds.drop 1 := by
    rw [scientificSpelling]
    dsimp only
    split_ifs with hone
    · exact (List.isEmpty_iff.1 hone).symm
    · rfl
  have hlength : point - 1 - (ds.drop 1).length = point - ds.length := by
    have hpos := List.length_pos_iff.2 hne
    rw [List.length_drop]
    omega
  rw [Spelling.magnitude, hfraction]
  dsimp only [scientificSpelling, Option.getD_some]
  rw [List.take_append_drop, hds, hlength]

/-- **The parts of a decimal make up its magnitude.** -/
theorem magnitude_spelling (d : Decimal) : d.spelling.magnitude = d.magnitude := by
  have hpower : (digits d.significand).length + d.exponent - (digits d.significand).length =
      d.exponent := by omega
  rw [spelling, magnitude]
  split_ifs
  · rw [magnitude_positionalSpelling (ofDigits_digits _), hpower]
  · rw [magnitude_scientificSpelling (digits_ne_nil _) (ofDigits_digits _), hpower]

/-! ### Spellings are in the grammar -/

theorem isDigit_of_mem_zeros {n : Nat} {c : Char} (h : c ∈ List.replicate n '0') :
    c.isDigit = true := by
  rw [List.eq_of_mem_replicate h]
  rfl

/-- The positional notation is regular: it does not start with a zero too many. -/
theorem regular_positionalSpelling {ds : List Char} {point : Int} (hne : ds ≠ [])
    (hdigits : ∀ c ∈ ds, c.isDigit = true) (hhead : ds.head? = some '0' → ds = ['0'] ∧ point = 1)
    (hpoint : point ≤ maxDigits) : (positionalSpelling ds point).Regular := by
  rw [positionalSpelling]
  -- either all digits are behind the point, or some of them, and zeros, are before it
  by_cases hbelow : point ≤ 0
  · rw [if_pos hbelow]
    refine ⟨List.cons_ne_nil _ _, fun c hc => isDigit_of_mem_zeros (n := 1) hc, fun _ => rfl,
      (by decide : 1 ≤ maxDigits), ?fractionNeNil, ?fractionDigits⟩
    case fractionNeNil => simp [hne]
    case fractionDigits =>
      rintro _ ⟨⟩ c hc
      obtain hc | hc := List.mem_append.1 hc
      · exact isDigit_of_mem_zeros hc
      · exact hdigits c hc
  · rw [if_neg hbelow]
    have hpositive : point.toNat ≠ 0 := by omega
    have htake : ds.take point.toNat ≠ [] := by simp [hne, hpositive]
    refine ⟨List.append_ne_nil_of_left_ne_nil htake _, ?wholeDigits, ?wholeHead, ?wholeLength,
      ?fractionNeNil, ?fractionDigits⟩
    case wholeDigits =>
      intro c hc
      obtain hc | hc := List.mem_append.1 hc
      · exact hdigits c (List.mem_of_mem_take hc)
      · exact isDigit_of_mem_zeros hc
    -- a leading zero stands for zero, which is written as one digit
    case wholeHead =>
      intro hzero
      rw [List.head?_append_of_ne_nil _ htake, List.head?_take, if_neg hpositive] at hzero
      obtain ⟨rfl, rfl⟩ := hhead hzero
      rfl
    case wholeLength =>
      rw [List.length_append, List.length_take, List.length_replicate]
      omega
    case fractionNeNil =>
      split_ifs with hwhole
      · exact fun h => List.cons_ne_nil _ _ (Option.some_inj.1 h)
      · exact fun h => hwhole (List.isEmpty_iff.2 (Option.some_inj.1 h))
    case fractionDigits =>
      rintro _ ⟨⟩ c hc
      split_ifs at hc with hwhole
      · exact isDigit_of_mem_zeros (n := 1) hc
      · exact hdigits c (List.mem_of_mem_drop hc)

/-- The scientific notation is regular. -/
theorem regular_scientificSpelling {ds : List Char} (hne : ds ≠ [])
    (hdigits : ∀ c ∈ ds, c.isDigit = true) (point : Int) :
    (scientificSpelling ds point).Regular := by
  obtain ⟨d, ds, rfl⟩ := List.exists_cons_of_ne_nil hne
  refine ⟨List.cons_ne_nil _ _, ?wholeDigits, ?wholeHead, (by decide : 1 ≤ maxDigits),
    ?fractionNeNil, ?fractionDigits⟩
  case wholeDigits => exact fun c hc => hdigits c (List.mem_of_mem_take hc)
  -- a single digit is no zero too many
  case wholeHead =>
    intro hzero
    rw [Option.some_inj.1 hzero]
    rfl
  case fractionNeNil =>
    dsimp only [scientificSpelling]
    split_ifs with hone
    · exact Option.some_ne_none [] ∘ Eq.symm
    · exact fun h => hone (List.isEmpty_iff.2 (Option.some_inj.1 h))
  case fractionDigits =>
    dsimp only [scientificSpelling]
    intro fraction hfraction c hc
    split_ifs at hfraction with hone
    · cases hfraction
    · obtain rfl := Option.some_inj.1 hfraction
      exact hdigits c (List.mem_of_mem_drop hc)

/-- The parts of a decimal in normal form are in the grammar. -/
theorem regular_spelling {d : Decimal} (h : d.Normal) : d.spelling.Regular := by
  have hdigits : ∀ c ∈ digits d.significand, c.isDigit = true := fun _ => isDigit_of_mem_digits
  rw [spelling]
  split_ifs with hpoint
  · refine regular_positionalSpelling (digits_ne_nil _) hdigits (fun hhead => ?_)
      (hpoint.2.trans (by decide))
    have hzero : d.significand = 0 := by
      by_contra hne
      exact head?_digits hne hhead
    rw [hzero, h hzero]
    exact ⟨rfl, rfl⟩
  · exact regular_scientificSpelling (digits_ne_nil _) hdigits _

end Decimal
end Number
end Railroad
