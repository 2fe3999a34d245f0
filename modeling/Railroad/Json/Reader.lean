/-
# Reading JSON

A text is read as one value with blanks around it and nothing else.  Beyond the
grammar of JSON the words `NaN`, `Infinity` and `-Infinity` are numbers.

What is refused beyond the grammar:

* a whole part of too many digits (`Railroad.Number.maxDigits`),
* an escape of half a surrogate pair,
* a container that is not empty inside more containers than are allowed.
-/

import Railroad.Text.Hex
import Railroad.Text.Reading
import Railroad.Number.Double
import Railroad.Number.Numeral
import Railroad.Json.Value

namespace Railroad
namespace Json

open Text
open Number (digitRun digitRun_le digitRun_shorter exponentPart exponentPart_le)

/-- Whether a character may stand between the parts of a value. -/
def isBlank (c : Char) : Bool := c == ' ' || c == '\t' || c == '\n' || c == '\r'

/-- The text without the blanks in front of it. -/
def skipBlanks (cs : List Char) : List Char := cs.dropWhile isBlank

/-- Skipping blanks leaves no more than there was. -/
theorem skipBlanks_le (cs : List Char) : (skipBlanks cs).length ≤ cs.length :=
  (List.dropWhile_sublist isBlank).length_le

/-! ## Strings -/

/-- The number given by four hexadecimal digits. -/
def fourHex : List Char → Reading Malformed Nat
  | a :: b :: c :: d :: rest =>
    match hexValue? a, hexValue? b, hexValue? c, hexValue? d with
    | some a, some b, some c, some d => .ok (((a * 16 + b) * 16 + c) * 16 + d, rest)
    | _, _, _, _ => .error .malformed
  | _ => .error .malformed

/-- Four digits are consumed, … -/
theorem fourHex_shorter {cs n rest} (h : fourHex cs = .ok (n, rest)) :
    rest.length < cs.length := by
  unfold fourHex at h
  split at h
  · split at h
    · obtain ⟨-, rfl⟩ : _ ∧ _ = rest := by simpa using h
      simp only [List.length_cons]; omega
    · simp at h
  · simp at h

/-- The character of the code behind `\u`.  A high surrogate has to be followed
by the code of a low one, and the two give one character. -/
def codeEscape (cs : List Char) : Reading Malformed Char :=
  match fourHex cs with
  | .error e => .error e
  | .ok (n, rest) =>
    -- a code outside the surrogates is a character by itself
    if n < 0xD800 ∨ 0xDFFF < n then .ok (Char.ofNat n, rest)
    -- a low surrogate stands for nothing without a high one in front of it
    else if 0xDC00 ≤ n then .error .malformed
    else match rest with
      | '\\' :: 'u' :: rest =>
        match fourHex rest with
        | .error e => .error e
        | .ok (m, rest) =>
          if 0xDC00 ≤ m ∧ m ≤ 0xDFFF then
            .ok (Char.ofNat (0x10000 + (n - 0xD800) * 0x400 + (m - 0xDC00)), rest)
          else .error .malformed
      | _ => .error .malformed

/-- … four or ten characters by a code, … -/
theorem codeEscape_shorter {cs c rest} (h : codeEscape cs = .ok (c, rest)) :
    rest.length < cs.length := by
  have := @fourHex_shorter
  grind [codeEscape]

/-- The character of an escape, after its backslash. -/
def escaped : List Char → Reading Malformed Char
  | [] => .error .malformed
  | c :: rest =>
    if c = '"' ∨ c = '\\' ∨ c = '/' then .ok (c, rest)
    else if c = 'b' then .ok ('\x08', rest)
    else if c = 'f' then .ok ('\x0c', rest)
    else if c = 'n' then .ok ('\n', rest)
    else if c = 'r' then .ok ('\r', rest)
    else if c = 't' then .ok ('\t', rest)
    else if c = 'u' then codeEscape rest
    else .error .malformed

/-- … and at least one by any escape. -/
theorem escaped_shorter {cs c rest} (h : escaped cs = .ok (c, rest)) :
    rest.length < cs.length := by
  have := @codeEscape_shorter
  cases cs <;> grind [escaped]

/-- The characters of a string, after its opening quote, and the text behind its
closing quote. -/
def stringRest : List Char → Reading Malformed (List Char)
  | [] => .error .malformed
  | c :: cs =>
    if c = '"' then .ok ([], cs)
    else if c = '\\' then
      match _h : escaped cs with
      | .error e => .error e
      | .ok (d, rest) =>
        match stringRest rest with
        | .error e => .error e
        | .ok (ds, rest) => .ok (d :: ds, rest)
    -- a control character has to be escaped
    else if c.toNat < 0x20 then .error .malformed
    else
      match stringRest cs with
      | .error e => .error e
      | .ok (ds, rest) => .ok (c :: ds, rest)
termination_by cs => cs.length
decreasing_by
  · exact Nat.lt_succ_of_lt (escaped_shorter _h)
  · exact Nat.lt_succ_self _

/-- A string consumes its closing quote at least. -/
theorem stringRest_shorter {cs ds rest} (h : stringRest cs = .ok (ds, rest)) :
    rest.length < cs.length := by
  have := @escaped_shorter
  fun_induction stringRest cs generalizing ds rest <;> grind

/-! ## Numbers and words -/

/-- The digits of the whole part of a number: no zero in front of others, and not
too many. -/
def wholePart (cs : List Char) : Reading Malformed (List Nat) :=
  let (whole, rest) := digitRun cs
  if whole = [] ∨ (whole.head? = some 0 ∧ whole ≠ [0]) ∨ Number.maxDigits < whole.length then
    .error .malformed
  else .ok (whole, rest)

/-- A whole part has a digit. -/
theorem wholePart_shorter {cs whole rest} (h : wholePart cs = .ok (whole, rest)) :
    rest.length < cs.length := by
  have := @digitRun_shorter cs
  grind [wholePart]

/-- The digits behind the point, if there is a point. -/
def fractionPart : List Char → Reading Malformed (Option (List Nat))
  | '.' :: cs =>
    let (fraction, rest) := digitRun cs
    if fraction = [] then .error .malformed else .ok (some fraction, rest)
  | cs => .ok (none, cs)

/-- A fraction may be missing, so it need not consume anything. -/
theorem fractionPart_le {cs fraction rest} (h : fractionPart cs = .ok (fraction, rest)) :
    rest.length ≤ cs.length := by
  unfold fractionPart at h
  split at h
  · rename_i cs
    have := digitRun_le cs
    grind
  · obtain ⟨-, rfl⟩ : _ ∧ _ = rest := by simpa using h
    exact Nat.le_refl _

/-- The value of a number: whole if it has neither fraction nor exponent. -/
def number (negative : Bool) (whole : List Nat) (fraction : Option (List Nat))
    (exponent : Option Int) : Json :=
  match fraction, exponent with
  -- without fraction and exponent a number is whole, and keeps all its digits
  | none, none =>
    let n : Int := Number.ofDigits whole
    .integer (if negative then -n else n)
  | _, _ =>
    .real (Number.Decimal.ofDigits negative whole (fraction.getD []) (exponent.getD 0)).toFloat

/-- A number behind its sign. -/
def unsigned (negative : Bool) (cs : List Char) : Reading Malformed Json :=
  match wholePart cs with
  | .error e => .error e
  | .ok (whole, rest) =>
    match fractionPart rest with
    | .error e => .error e
    | .ok (fraction, rest) =>
      match exponentPart rest with
      | .error e => .error e
      | .ok (exponent, rest) => .ok (number negative whole fraction exponent, rest)

/-- A number consumes its whole part at least. -/
theorem unsigned_shorter {negative cs v rest} (h : unsigned negative cs = .ok (v, rest)) :
    rest.length < cs.length := by
  have h₁ := @wholePart_shorter
  have h₂ := @fractionPart_le
  have h₃ := @exponentPart_le
  grind [unsigned]

/-- The words that are values. -/
def words : List (List Char × Json) :=
  [("null".toList, .null), ("true".toList, .bool true), ("false".toList, .bool false),
   ("NaN".toList, .real (0 / 0)), ("Infinity".toList, .real (1 / 0)),
   ("-Infinity".toList, .real (-1 / 0))]

/-- The text behind a word, if the text begins with it. -/
def after? : (word cs : List Char) → Option (List Char)
  | [], cs => some cs
  | _ :: _, [] => none
  | w :: word, c :: cs => if w = c then after? word cs else none

/-- What is found in front of a word is the text behind it. -/
theorem after?_length {word cs rest : List Char} (h : after? word cs = some rest) :
    cs.length = word.length + rest.length := by
  fun_induction after? word cs generalizing rest <;> grind

/-- A word or a number. -/
def scalar (cs : List Char) : Reading Malformed Json :=
  -- no number begins like a word: the only one with a sign is tried first
  match words.findSome? fun (word, value) => (after? word cs).map fun rest => (value, rest) with
  | some found => .ok found
  | none =>
    match cs with
    | '-' :: cs => unsigned true cs
    | cs => unsigned false cs

/-- No word is empty, and no number. -/
theorem scalar_shorter {cs v rest} (h : scalar cs = .ok (v, rest)) :
    rest.length < cs.length := by
  unfold scalar at h
  split at h
  · rename_i found e
    obtain rfl : found = (v, rest) := by simpa using h
    obtain ⟨⟨word, value⟩, hw, e⟩ := List.exists_of_findSome?_eq_some e
    obtain ⟨r, hr, e⟩ := Option.map_eq_some_iff.1 e
    obtain rfl : r = rest := by simpa using congrArg Prod.snd e
    have := after?_length hr
    have : 0 < word.length := by
      simp only [words, List.mem_cons, Prod.mk.injEq, List.not_mem_nil, or_false] at hw
      rcases hw with hw | hw | hw | hw | hw | hw <;> rw [hw.1] <;> decide
    omega
  · have := @unsigned_shorter
    grind

/-! ## Containers -/

/-- The items of an array that is not empty, and its closing bracket. -/
def items (value : Reader Malformed Json) (cs : List Char) : Reading Malformed (List Json) :=
  match _h : value.read cs with
  | .error e => .error e
  | .ok (item, rest) =>
    match _g : skipBlanks rest with
    | [] => .error .malformed
    -- a comma has to be followed by another item, so none stands in front of the bracket
    | c :: tail =>
      if c = ',' then
        match items value tail with
        | .error e => .error e
        | .ok (others, rest) => .ok (item :: others, rest)
      else if c = ']' then .ok ([item], tail)
      else .error .malformed
termination_by cs.length
decreasing_by
  have h₁ := value.shorter _h
  have h₂ := skipBlanks_le rest
  rw [_g, List.length_cons] at h₂
  omega

/-- The items of an array consume its closing bracket at least, … -/
theorem items_shorter {value cs vs rest} (h : items value cs = .ok (vs, rest)) :
    rest.length < cs.length := by
  have h₁ := @value.shorter
  have h₂ := @skipBlanks_le
  fun_induction items value cs generalizing vs rest <;> grind

/-- The name of a field and the colon behind it. -/
def fieldName (cs : List Char) : Reading Malformed String :=
  match skipBlanks cs with
  | [] => .error .malformed
  | c :: rest =>
    if c = '"' then
      match stringRest rest with
      | .error e => .error e
      | .ok (name, rest) =>
        match skipBlanks rest with
        | [] => .error .malformed
        | c :: rest => if c = ':' then .ok (String.ofList name, rest) else .error .malformed
    else .error .malformed

/-- A field has a name in quotes, and a colon behind it. -/
theorem fieldName_shorter {cs name rest} (h : fieldName cs = .ok (name, rest)) :
    rest.length < cs.length := by
  have h₁ := @stringRest_shorter
  have h₂ := @skipBlanks_le
  grind [fieldName]

/-- The fields of an object that is not empty, and its closing bracket. -/
def fields (value : Reader Malformed Json) (cs : List Char) :
    Reading Malformed (List (String × Json)) :=
  match _h : fieldName cs with
  | .error e => .error e
  | .ok (name, body) =>
    match _f : value.read body with
    | .error e => .error e
    | .ok (item, rest) =>
      match _g : skipBlanks rest with
      | [] => .error .malformed
      | c :: tail =>
        if c = ',' then
          match fields value tail with
          | .error e => .error e
          | .ok (others, rest) => .ok ((name, item) :: others, rest)
        else if c = '\x7d' then .ok ([(name, item)], tail)
        else .error .malformed
termination_by cs.length
decreasing_by
  have h₁ := fieldName_shorter _h
  have h₂ := value.shorter _f
  have h₃ := skipBlanks_le rest
  rw [_g, List.length_cons] at h₃
  omega

/-- … and the fields of an object its closing brace. -/
theorem fields_shorter {value cs vs rest} (h : fields value cs = .ok (vs, rest)) :
    rest.length < cs.length := by
  have h₁ := @value.shorter
  have h₂ := @skipBlanks_le
  have h₃ := @fieldName_shorter
  fun_induction fields value cs generalizing vs rest <;> grind

/-- An array after its `[`; `inner?` reads the values inside a container, if any
may stand there. -/
def arrayRest (inner? : Option (Reader Malformed Json)) (cs : List Char) :
    Reading Malformed Json :=
  match skipBlanks cs with
  | [] => .error .malformed
  | c :: rest =>
    if c = ']' then .ok (.array [], rest)
    else match inner? with
      | none => .error .malformed
      | some inner =>
        match items inner (c :: rest) with
        | .error e => .error e
        | .ok (vs, rest) => .ok (.array vs, rest)

/-- An array consumes its closing bracket at least. -/
theorem arrayRest_shorter {inner? cs v rest} (h : arrayRest inner? cs = .ok (v, rest)) :
    rest.length < cs.length := by
  have h₁ := @skipBlanks_le
  have h₂ := @items_shorter
  grind [arrayRest]

/-- An object after its opening brace. -/
def objectRest (inner? : Option (Reader Malformed Json)) (cs : List Char) :
    Reading Malformed Json :=
  match skipBlanks cs with
  | [] => .error .malformed
  | c :: rest =>
    if c = '\x7d' then .ok (.object [], rest)
    else match inner? with
      | none => .error .malformed
      | some inner =>
        match fields inner (c :: rest) with
        | .error e => .error e
        | .ok (vs, rest) => .ok (.object vs, rest)

/-- An object consumes its closing brace at least. -/
theorem objectRest_shorter {inner? cs v rest} (h : objectRest inner? cs = .ok (v, rest)) :
    rest.length < cs.length := by
  have h₁ := @skipBlanks_le
  have h₂ := @fields_shorter
  grind [objectRest]

/-- A value that begins with `c`. -/
def valueAt (inner? : Option (Reader Malformed Json)) (c : Char) (cs : List Char) :
    Reading Malformed Json :=
  if c = '"' then
    match stringRest cs with
    | .error e => .error e
    | .ok (text, rest) => .ok (.string (String.ofList text), rest)
  else if c = '[' then arrayRest inner? cs
  else if c = '\x7b' then objectRest inner? cs
  else scalar (c :: cs)

/-- Every value consumes a character, the first of it at least. -/
theorem valueAt_shorter {inner? c cs v rest} (h : valueAt inner? c cs = .ok (v, rest)) :
    rest.length < (c :: cs).length := by
  have h₁ := @stringRest_shorter
  have h₃ := @arrayRest_shorter
  have h₄ := @objectRest_shorter
  have h₅ := @scalar_shorter (c :: cs)
  grind [valueAt]

/-- A value with blanks in front of it. -/
def valueAfterBlanks (inner? : Option (Reader Malformed Json)) (cs : List Char) :
    Reading Malformed Json :=
  match skipBlanks cs with
  | [] => .error .malformed
  | c :: rest => valueAt inner? c rest

/-- So it does with blanks in front. -/
theorem valueAfterBlanks_shorter {inner? cs v rest}
    (h : valueAfterBlanks inner? cs = .ok (v, rest)) : rest.length < cs.length := by
  have := skipBlanks_le cs
  have := @valueAt_shorter inner?
  grind [valueAfterBlanks]

/-- A value that is nested in containers at most `depth` deep; the innermost of
them may hold only empty ones. -/
def value : (depth : Nat) → Reader Malformed Json
  | 0 => ⟨valueAfterBlanks none, valueAfterBlanks_shorter⟩
  | depth + 1 => ⟨valueAfterBlanks (some (value depth)), valueAfterBlanks_shorter⟩

/-- The value of a text whose containers are nested at most `depth` deep. -/
def ofText? (depth : Nat) (text : String) : Option Json :=
  match (value depth).read text.toList with
  | .error _ => none
  | .ok (v, rest) => if (skipBlanks rest).isEmpty then some v else none

end Json
end Railroad
