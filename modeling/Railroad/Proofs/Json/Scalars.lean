/-
# Numbers, words and strings are read as they were written

What is written for a number, for a word or for a string is read as that again, whatever
stands behind it; a number must not go on into it (`EndsNumber`).
-/

import Railroad.Json.Reader
import Railroad.Json.Writer
import Railroad.Proofs.Number.Spelling

namespace Railroad
namespace Json

open Number (digits digitValues digitRun_append Spelling Decimal)

/-! ### Numbers -/

/-- No number in front of the text goes on into it. -/
def EndsNumber (rest : List Char) : Prop :=
  ∀ c ∈ rest.head?, c.isDigit = false ∧ c ≠ '.' ∧ c ≠ 'e' ∧ c ≠ 'E'

theorem endsNumber_nil : EndsNumber [] := nofun

/-- A number ends at a character that cannot be a part of one. -/
theorem endsNumber_cons {c : Char} (rest : List Char)
    (h : c.isDigit = false ∧ c ≠ '.' ∧ c ≠ 'e' ∧ c ≠ 'E') : EndsNumber (c :: rest) := by
  rintro _ ⟨⟩
  exact h

/-- Digits have as many values as there are of them. -/
theorem digitValues_eq_nil {ds : List Char} : digitValues ds = [] ↔ ds = [] := List.map_eq_nil_iff

/-- The value of a digit is zero for the digit zero alone. -/
theorem head?_digitValues {ds : List Char} (hdigits : ∀ c ∈ ds, c.isDigit = true)
    (h : (digitValues ds).head? = some 0) : ds.head? = some '0' := by
  cases ds with
  | nil => cases h
  | cons c ds =>
      have hc : c.isDigit = true := hdigits c List.mem_cons_self
      have hvalue : c.toNat - '0'.toNat = 0 := Option.some_inj.1 h
      have hbelow : '0'.toNat ≤ c.toNat := (Char.isDigit_iff_toNat.1 hc).1
      have hzero : c.toNat = '0'.toNat := by omega
      rw [List.head?_cons, Char.toNat_inj.1 hzero]

/-- The whole part of a numeral, whatever is behind it. -/
theorem wholePart_append {s : Spelling} (h : s.Regular) {rest : List Char}
    (hrest : ∀ c ∈ rest.head?, c.isDigit = false) :
    wholePart (s.whole ++ rest) = .ok (digitValues s.whole, rest) := by
  -- there is no zero too many in front, and there are not too many digits
  have hhead : ¬ ((digitValues s.whole).head? = some 0 ∧ digitValues s.whole ≠ [0]) := by
    rintro ⟨hzero, hmore⟩
    rw [h.whole_head (head?_digitValues h.whole_digits hzero)] at hmore
    exact hmore rfl
  have hlength : ¬ Number.maxDigits < (digitValues s.whole).length := by
    rw [digitValues, List.length_map]
    exact not_lt.2 h.whole_length
  rw [wholePart, digitRun_append h.whole_digits hrest]
  dsimp only
  rw [if_neg]
  rintro (hnil | hzero | hlong)
  · exact h.whole_ne_nil (digitValues_eq_nil.1 hnil)
  · exact hhead hzero
  · exact hlength hlong

/-- The digits behind the point of a numeral, if it has a point. -/
theorem fractionPart_append {s : Spelling} (h : s.Regular) {rest : List Char}
    (hrest : ∀ c ∈ rest.head?, c.isDigit = false ∧ c ≠ '.') :
    fractionPart (s.fraction.elim [] ('.' :: ·) ++ rest) =
      .ok (s.fraction.map digitValues, rest) := by
  cases hfraction : s.fraction with
  | none =>
      -- without a fraction no point may follow, or it would be taken for one
      show fractionPart rest = .ok (none, rest)
      rw [fractionPart]
      rintro cs rfl
      exact (hrest '.' rfl).2 rfl
  | some ds =>
      have hdigits : ∀ c ∈ ds, c.isDigit = true := h.fraction_digits ds hfraction
      have hne : ds ≠ [] := by
        rintro rfl
        exact h.fraction_ne_nil hfraction
      show fractionPart ('.' :: (ds ++ rest)) = _
      rw [fractionPart, digitRun_append hdigits fun c hc => (hrest c hc).1]
      dsimp only
      rw [if_neg (mt digitValues_eq_nil.1 hne)]
      rfl

/-- The exponent of a numeral, if it has one. -/
theorem exponentPart_append (exponent : Option Int) {rest : List Char} (hrest : EndsNumber rest) :
    Number.exponentPart (exponent.elim [] Spelling.exponentText ++ rest) =
      .ok (exponent, rest) := by
  cases exponent with
  | none =>
      show Number.exponentPart rest = .ok (none, rest)
      cases rest with
      | nil => rfl
      | cons c rest =>
          -- without an exponent none of the letters that begin one may follow
          obtain ⟨-, -, hlower, hupper⟩ := hrest c rfl
          rw [Number.exponentPart, if_neg (not_or.2 ⟨hlower, hupper⟩)]
  | some power =>
      -- the sign, the digits, and the number that both make
      have hsign : Number.signPart ((if power < 0 then '-' else '+') ::
          (digits power.natAbs ++ rest)) = (decide (power < 0), digits power.natAbs ++ rest) := by
        by_cases hnegative : power < 0 <;> simp [Number.signPart, hnegative]
      have hrun : Number.digitRun (digits power.natAbs ++ rest) =
          (digitValues (digits power.natAbs), rest) :=
        digitRun_append (fun _ => Number.isDigit_of_mem_digits) fun c hc => (hrest c hc).1
      have hvalue : (if decide (power < 0) = true then -(power.natAbs : Int) else power.natAbs) =
          power := by
        simp only [decide_eq_true_eq]
        split_ifs <;> omega
      show Number.exponentPart ('e' :: (if power < 0 then '-' else '+') ::
        (digits power.natAbs ++ rest)) = .ok (some power, rest)
      rw [Number.exponentPart, if_pos (Or.inl rfl), hsign]
      dsimp only
      rw [hrun]
      dsimp only
      rw [if_neg (mt digitValues_eq_nil.1 (Number.digits_ne_nil _)), Number.ofDigits_digits, hvalue]

/-- No part of a numeral begins like the part in front of it. -/
theorem head?_exponentText (exponent : Option Int) {rest : List Char} (hrest : EndsNumber rest) :
    ∀ c ∈ (exponent.elim [] Spelling.exponentText ++ rest).head?,
      c.isDigit = false ∧ c ≠ '.' := by
  cases exponent with
  | none => exact fun c hc => ⟨(hrest c hc).1, (hrest c hc).2.1⟩
  | some power =>
      rintro _ ⟨⟩
      decide

/-- Behind the whole part of a number there is no further digit. -/
theorem head?_fractionText (fraction : Option (List Char)) {rest : List Char}
    (hrest : ∀ c ∈ rest.head?, c.isDigit = false ∧ c ≠ '.') :
    ∀ c ∈ (fraction.elim [] ('.' :: ·) ++ rest).head?, c.isDigit = false := by
  cases fraction with
  | none => exact fun c hc => (hrest c hc).1
  | some ds =>
      rintro _ ⟨⟩
      decide

/-- **A numeral is read by its parts.** -/
theorem unsigned_append {s : Spelling} (h : s.Regular) (negative : Bool) {rest : List Char}
    (hrest : EndsNumber rest) :
    unsigned negative (s.text ++ rest) =
      .ok (number negative (digitValues s.whole) (s.fraction.map digitValues) s.exponent,
        rest) := by
  have hexponent := head?_exponentText s.exponent hrest
  rw [unsigned, Spelling.text, List.append_assoc, List.append_assoc,
    wholePart_append h (head?_fractionText s.fraction hexponent)]
  dsimp only
  rw [fractionPart_append h hexponent]
  dsimp only
  rw [exponentPart_append s.exponent hrest]

/-! ### Decimals and whole numbers -/

/-- A numeral with a point or an exponent is the double of its parts. -/
theorem number_of_spelling {s : Spelling} (h : s.fraction ≠ none ∨ s.exponent ≠ none)
    {d : Decimal} (hvalue : s.magnitude = d.magnitude) :
    number d.negative (digitValues s.whole) (s.fraction.map digitValues) s.exponent =
      .real d.toFloat := by
  have hfraction : (s.fraction.map digitValues).getD [] = digitValues (s.fraction.getD []) := by
    cases s.fraction <;> rfl
  -- rounding depends on the value alone, and the spelling has the value of the decimal
  have hsame : (Decimal.ofDigits d.negative (digitValues s.whole)
      (digitValues (s.fraction.getD [])) (s.exponent.getD 0)).toFloat = d.toFloat := by
    refine Decimal.toFloat_congr rfl ?_
    rw [Decimal.ofDigits, Decimal.magnitude_ofParts, ← hvalue, Spelling.magnitude, digitValues,
      digitValues, digitValues, List.map_append, List.length_map]
  -- a number is whole only if it has neither a fraction nor an exponent
  have hreal : number d.negative (digitValues s.whole) (s.fraction.map digitValues) s.exponent =
      .real (Decimal.ofDigits d.negative (digitValues s.whole)
        ((s.fraction.map digitValues).getD []) (s.exponent.getD 0)).toFloat := by
    rw [number]
    intro hfraction hexponent
    obtain h | h := h
    · exact h (Option.map_eq_none_iff.1 hfraction)
    · exact h hexponent
  rw [hreal, hfraction, hsame]

/-- A written decimal has a fraction or an exponent, so it is not read as an integer. -/
theorem isReal_spelling (d : Decimal) :
    d.spelling.fraction ≠ none ∨ d.spelling.exponent ≠ none := by
  rw [Decimal.spelling]
  split_ifs
  · refine .inl ?_
    rw [Decimal.positionalSpelling]
    split_ifs <;> exact Option.some_ne_none _
  · exact .inr (Option.some_ne_none _)

/-- The words, without their values. -/
theorem map_fst_words : words.map Prod.fst =
    [['n', 'u', 'l', 'l'], ['t', 'r', 'u', 'e'], ['f', 'a', 'l', 's', 'e'], ['N', 'a', 'N'],
      ['I', 'n', 'f', 'i', 'n', 'i', 't', 'y'], ['-', 'I', 'n', 'f', 'i', 'n', 'i', 't', 'y']] := by
  simp only [words, List.map_cons, List.map_nil, String.reduceToList]

/-- A text that begins like none of the words is read as a number. -/
theorem findSome?_words_eq_none {cs : List Char}
    (h : ∀ word ∈ words.map Prod.fst, after? word cs = none) :
    (words.findSome? fun (word, value) => (after? word cs).map fun rest => (value, rest)) =
      none := by
  rw [List.findSome?_eq_none_iff]
  rintro ⟨word, value⟩ hmem
  have hnone : after? word cs = none := h word (List.mem_map_of_mem hmem)
  show ((after? word cs).map fun rest => (value, rest)) = none
  rw [hnone]
  rfl

/-- A word is not found where another character stands. -/
theorem after?_cons_of_ne {w c : Char} (word cs : List Char) (h : w ≠ c) :
    after? (w :: word) (c :: cs) = none := by
  rw [after?, if_neg h]

/-- A digit is different from every character that is none. -/
theorem ne_of_isDigit {c d : Char} (hc : c.isDigit = true) (hd : d.isDigit = false) : d ≠ c := by
  rintro rfl
  exact Bool.false_ne_true (hd.symm.trans hc)

/-- Digits are no word. -/
theorem scalar_digit {c : Char} (hc : c.isDigit = true) (cs : List Char) :
    scalar (c :: cs) = unsigned false (c :: cs) := by
  have hword : ∀ word ∈ words.map Prod.fst, after? word (c :: cs) = none := by
    rw [map_fst_words]
    simp only [List.forall_mem_cons]
    refine ⟨?_, ?_, ?_, ?_, ?_, ?_, fun _ h => nomatch h⟩ <;>
      exact after?_cons_of_ne _ _ (ne_of_isDigit hc rfl)
  rw [scalar, findSome?_words_eq_none hword]
  rintro _ ⟨⟩
  cases hc

/-- Digits behind a sign are no word. -/
theorem scalar_minus_digit {c : Char} (hc : c.isDigit = true) (cs : List Char) :
    scalar ('-' :: c :: cs) = unsigned true (c :: cs) := by
  have hword : ∀ word ∈ words.map Prod.fst, after? word ('-' :: c :: cs) = none := by
    rw [map_fst_words]
    simp only [List.forall_mem_cons]
    refine ⟨?_, ?_, ?_, ?_, ?_, ?_, fun _ h => nomatch h⟩
    case refine_6 =>
      rw [after?, if_pos rfl]
      exact after?_cons_of_ne _ _ (ne_of_isDigit hc rfl)
    all_goals exact after?_cons_of_ne _ _ (by decide)
  rw [scalar, findSome?_words_eq_none hword]

/-- A number that is written regularly is read with its sign and its parts, and nothing behind
it. -/
theorem scalar_spelling {s : Spelling} (h : s.Regular) {rest : List Char} (hrest : EndsNumber rest)
    (negative : Bool) :
    scalar ((if negative then '-' :: s.text else s.text) ++ rest) =
      .ok (number negative (digitValues s.whole) (s.fraction.map digitValues) s.exponent,
        rest) := by
  obtain ⟨c, cs, hwhole⟩ := List.exists_cons_of_ne_nil h.whole_ne_nil
  have hc : c.isDigit = true := h.whole_digits c (hwhole ▸ List.mem_cons_self)
  obtain ⟨tail, htext⟩ : ∃ tail, s.text ++ rest = c :: tail := by
    rw [Spelling.text, hwhole]
    exact ⟨_, rfl⟩
  -- which reader is called is told by the first character, a digit or a minus
  have hread := unsigned_append h negative hrest
  cases negative
  case false =>
    show scalar (s.text ++ rest) = _
    rw [htext, scalar_digit hc, ← htext, hread]
  case true =>
    show scalar ('-' :: (s.text ++ rest)) = _
    rw [htext, scalar_minus_digit hc, ← htext, hread]

/-- **A decimal in normal form is read as the double nearest to it.** -/
theorem scalar_decimal {d : Decimal} (h : d.Normal) {rest : List Char} (hrest : EndsNumber rest) :
    scalar (d.text ++ rest) = .ok (.real d.toFloat, rest) := by
  rw [Decimal.text_eq_spelling, scalar_spelling (Decimal.regular_spelling h) hrest,
    number_of_spelling (isReal_spelling d) (Decimal.magnitude_spelling d)]

/-- **A whole number that is not too long is read as itself.** -/
theorem scalar_integer {n : Int} (h : (digits n.natAbs).length ≤ Number.maxDigits)
    {rest : List Char} (hrest : EndsNumber rest) :
    scalar (Number.signedDigits n ++ rest) = .ok (.integer n, rest) := by
  -- digits alone are regular: only zero begins with a zero
  have hregular : Spelling.Regular ⟨digits n.natAbs, none, none⟩ := by
    refine ⟨Number.digits_ne_nil _, fun _ => Number.isDigit_of_mem_digits, fun hhead => ?_, h,
      Option.some_ne_none [] ∘ Eq.symm, nofun⟩
    have hzero : n.natAbs = 0 := by
      by_contra hne
      exact Number.head?_digits hne hhead
    show digits n.natAbs = ['0']
    rw [hzero]
    rfl
  have htext : Number.signedDigits n =
      if decide (n < 0) = true then '-' :: (Spelling.mk (digits n.natAbs) none none).text
      else (Spelling.mk (digits n.natAbs) none none).text := by
    simp [Number.signedDigits, Spelling.text]
  have hvalue : number (decide (n < 0)) (digitValues (digits n.natAbs)) none none = .integer n := by
    simp only [number, Number.ofDigits_digits, decide_eq_true_eq, integer.injEq]
    split_ifs <;> omega
  rw [htext, scalar_spelling hregular hrest]
  dsimp only [Option.map_none]
  rw [hvalue]

/-! ### Words -/

/-- The word for nothing is read. -/
theorem scalar_null (rest : List Char) : scalar ("null".toList ++ rest) = .ok (null, rest) := by
  simp [scalar, words, after?]

/-- The words for true and false are read. -/
theorem scalar_bool (b : Bool) (rest : List Char) :
    scalar ((if b then "true" else "false").toList ++ rest) = .ok (bool b, rest) := by
  cases b <;> simp [scalar, words, after?]

/-! ### Strings -/

/-- The digits that are written for four bits are read as these bits. -/
theorem hexValue?_digitChar : ∀ d < 16, Text.hexValue? (Nat.digitChar d) = some d := by decide

/-- Four hexadecimal digits are read as the number they are written for. -/
theorem fourHex_hexDigits {n : Nat} (h : n < 16 ^ 4) (rest : List Char) :
    fourHex (Text.hexDigits 4 n ++ rest) = .ok (n, rest) := by
  have hdigit : ∀ m, Text.hexValue? (Nat.digitChar (m % 16)) = some (m % 16) := fun m =>
    hexValue?_digitChar _ (Nat.mod_lt m (by decide))
  have hvalue : ((n / 16 / 16 / 16 % 16 * 16 + n / 16 / 16 % 16) * 16 + n / 16 % 16) * 16 +
      n % 16 = n := by omega
  simp only [Text.hexDigits, List.nil_append, List.cons_append, fourHex, hdigit, hvalue]

/-- The escape of a character is read as the character. -/
theorem escaped_hexDigits {c : Char} (h : c.toNat < 0x20) (rest : List Char) :
    escaped ('u' :: (Text.hexDigits 4 c.toNat ++ rest)) = .ok (c, rest) := by
  have hcode : codeEscape (Text.hexDigits 4 c.toNat ++ rest) = .ok (c, rest) := by
    rw [codeEscape, fourHex_hexDigits (by omega)]
    dsimp only
    rw [if_pos (Or.inl (by omega)), Char.ofNat_toNat]
  simpa [escaped] using hcode

/-- An escape inside a text is read as the character that it stands for. -/
theorem stringRest_escape {c : Char} (escape : List Char) {cs ds rest : List Char}
    (hescape : escaped (escape ++ cs) = .ok (c, cs)) (h : stringRest cs = .ok (ds, rest)) :
    stringRest ('\\' :: (escape ++ cs)) = .ok (c :: ds, rest) := by
  rw [stringRest, if_neg (by decide), if_pos rfl]
  split
  case h_1 e herror =>
    rw [hescape] at herror
    cases herror
  case h_2 d tail htail =>
    rw [hescape] at htail
    obtain ⟨rfl, rfl⟩ := Prod.mk.inj (Except.ok.inj htail)
    rw [h]

/-- A character of a string is read as itself. -/
theorem stringRest_stringChar (c : Char) {cs ds rest : List Char}
    (h : stringRest cs = .ok (ds, rest)) :
    stringRest (stringChar c ++ cs) = .ok (c :: ds, rest) := by
  rw [stringChar]
  -- one case for each way to write a character: seven escapes, and the character itself
  split_ifs with hquote hbackspace hfeed hnewline hreturn htab hcontrol
  · exact stringRest_escape [c] (by simp [escaped, or_assoc.symm, hquote]) h
  · exact stringRest_escape ['b'] (by simp [escaped, hbackspace]) h
  · exact stringRest_escape ['f'] (by simp [escaped, hfeed]) h
  · exact stringRest_escape ['n'] (by simp [escaped, hnewline]) h
  · exact stringRest_escape ['r'] (by simp [escaped, hreturn]) h
  · exact stringRest_escape ['t'] (by simp [escaped, htab]) h
  · exact stringRest_escape ('u' :: Text.hexDigits 4 c.toNat)
      (escaped_hexDigits hcontrol cs) h
  · obtain ⟨hnotQuote, hnotBackslash⟩ := not_or.1 hquote
    rw [List.singleton_append, stringRest, if_neg hnotQuote, if_neg hnotBackslash,
      if_neg hcontrol, h]

/-- **A string is read as the characters it is written for.** -/
theorem stringRest_flatMap (text rest : List Char) :
    stringRest (text.flatMap stringChar ++ '"' :: rest) = .ok (text, rest) := by
  induction text with
  | nil => rw [List.flatMap_nil, List.nil_append, stringRest, if_pos rfl]
  | cons c text ih =>
      rw [List.flatMap_cons, List.append_assoc]
      exact stringRest_stringChar c ih

end Json
end Railroad
