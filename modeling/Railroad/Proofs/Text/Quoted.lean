/-
# A text in quotes shows where it ends

Between quotes every character is written so that it can be told from what follows it
(`unquotedChar_quotedChar`), and none of them is written so that it begins like the quote at
the end.  So of a text in quotes with anything behind it, both can be told
(`quoted_append_inj`), whichever characters are printable: printable or not, a quote, a
backslash and a line feed are never written as they are.
-/

import Mathlib.Algebra.Group.Nat.Defs
import Mathlib.Data.List.Basic
import Railroad.Text.Quoted

namespace Railroad
namespace Text

/-! ### Characters by their codes -/

/-- The number that hexadecimal digits stand for. -/
def hexNumber (ds : List Char) : Nat := ds.foldl (fun n d => 16 * n + (hexValue? d).getD 0) 0

/-- A hexadecimal digit is read as its value. -/
theorem hexValue?_hexDigit (n : Nat) : hexValue? (Nat.digitChar (n % 16)) = some (n % 16) := by
  have hall : ∀ d < 16, hexValue? (Nat.digitChar d) = some d := by decide
  exact hall _ (Nat.mod_lt n (by decide))

/-- A number is read from its hexadecimal digits, if there are enough of them. -/
theorem hexNumber_hexDigits {width n : Nat} (h : n < 16 ^ width) :
    hexNumber (hexDigits width n) = n := by
  induction width generalizing n with
  | zero => exact (Nat.lt_one_iff.1 h).symm
  | succ width ih =>
      have hn : hexNumber (hexDigits width (n / 16)) = n / 16 := ih (by omega)
      rw [hexNumber] at hn
      rw [hexNumber, hexDigits, List.foldl_append, hn, List.foldl_cons, List.foldl_nil,
        hexValue?_hexDigit, Option.getD_some]
      omega

/-! ### Characters between quotes -/

/-- The first character of a text between quotes, and what follows it. -/
def unquotedChar : List Char → Option (Char × List Char)
  | '\\' :: 'n' :: rest => some ('\n', rest)
  | '\\' :: 'r' :: rest => some ('\r', rest)
  | '\\' :: 't' :: rest => some ('\t', rest)
  | '\\' :: 'x' :: rest => some (Char.ofNat (hexNumber (rest.take 2)), rest.drop 2)
  | '\\' :: 'u' :: rest => some (Char.ofNat (hexNumber (rest.take 4)), rest.drop 4)
  | '\\' :: 'U' :: rest => some (Char.ofNat (hexNumber (rest.take 8)), rest.drop 8)
  | '\\' :: c :: rest => some (c, rest)
  | c :: rest => some (c, rest)
  | [] => none

/-- The characters that stand around a quoted text. -/
def quotes : List Char := ['\'', '"']

/-- A text is quoted with one of the two quotes. -/
theorem quoteFor_mem_quotes (cs : List Char) : quoteFor cs ∈ quotes := by
  rw [quoteFor]
  split <;> decide

/-- A character that is no backslash stands for itself. -/
theorem unquotedChar_self {c : Char} (h : c ≠ '\\') (rest : List Char) :
    unquotedChar (c :: rest) = some (c, rest) := by
  simp [unquotedChar, h]

/-- An escaped code is read as the character that has it. -/
theorem unquotedChar_escapedCode (c : Char) (rest : List Char) :
    unquotedChar (escapedCode c ++ rest) = some (c, rest) := by
  -- a code of fixed width is cut off at its width, whatever follows
  have hcode (width : Nat) (h : c.toNat < 16 ^ width) :
      Char.ofNat (hexNumber ((hexDigits width c.toNat ++ rest).take width)) = c ∧
        (hexDigits width c.toNat ++ rest).drop width = rest := by
    have hlength := length_hexDigits width c.toNat
    rw [List.take_left' hlength, List.drop_left' hlength, hexNumber_hexDigits h, Char.ofNat_toNat]
    exact ⟨rfl, rfl⟩
  rw [escapedCode]
  -- two, four or eight digits, as many as the code needs
  split_ifs with h₁ h₂
  · obtain ⟨hc, hrest⟩ := hcode 2 h₁
    rw [List.cons_append, List.cons_append, unquotedChar, hc, hrest]
  · obtain ⟨hc, hrest⟩ := hcode 4 h₂
    rw [List.cons_append, List.cons_append, unquotedChar, hc, hrest]
  · obtain ⟨hc, hrest⟩ := hcode 8 c.val.toNat_lt
    rw [List.cons_append, List.cons_append, unquotedChar, hc, hrest]

variable (printable : Char → Bool) {quote : Char}

/-- **A character between quotes is read as it was written**, whatever follows it. -/
theorem unquotedChar_quotedChar (hquote : quote ∈ quotes) (c : Char) (rest : List Char) :
    unquotedChar (quotedChar printable quote c ++ rest) = some (c, rest) := by
  rw [quotedChar]
  -- one case for each way to write a character
  split_ifs with h hn hr ht
  · rcases h with rfl | rfl
    · rw [quotes, List.mem_cons, List.mem_singleton] at hquote
      rcases hquote with rfl | rfl <;> rfl
    · rfl
  · rw [hn]
    rfl
  · rw [hr]
    rfl
  · rw [ht]
    rfl
  · exact unquotedChar_self (not_or.1 h).2 rest
  · exact unquotedChar_escapedCode c rest

/-- No character between quotes begins like the quote. -/
theorem quotedChar_append_ne (hquote : quote ∈ quotes) (c : Char) (rest rest' : List Char) :
    quotedChar printable quote c ++ rest ≠ quote :: rest' := by
  have hbackslash : '\\' ≠ quote := fun e => absurd (e ▸ hquote) (by decide)
  rw [quotedChar, escapedCode]
  split_ifs with h <;> simp_all

/-! ### Quoted texts -/

/-- What is quoted ends at the first quote that is not escaped, so the text is told from it. -/
theorem flatMap_quotedChar_append_inj (hquote : quote ∈ quotes) {cs cs' rest rest' : List Char}
    (h : cs.flatMap (quotedChar printable quote) ++ quote :: rest =
      cs'.flatMap (quotedChar printable quote) ++ quote :: rest') :
    cs = cs' ∧ rest = rest' := by
  induction cs generalizing cs' with
  -- where one text is over, the other has its closing quote, which no character begins with
  | nil =>
      cases cs' with
      | nil => exact ⟨rfl, (List.cons.inj h).2⟩
      | cons c' cs' =>
          rw [List.flatMap_cons, List.append_assoc] at h
          exact absurd h.symm (quotedChar_append_ne printable hquote c' _ _)
  | cons c cs ih =>
      rw [List.flatMap_cons, List.append_assoc] at h
      cases cs' with
      | nil => exact absurd h (quotedChar_append_ne printable hquote c _ _)
      | cons c' cs' =>
          rw [List.flatMap_cons, List.append_assoc] at h
          -- both sides begin with one character, which is read off
          have hread := congrArg unquotedChar h
          rw [unquotedChar_quotedChar printable hquote,
            unquotedChar_quotedChar printable hquote] at hread
          obtain ⟨rfl, htail⟩ := Prod.mk.inj (Option.some.inj hread)
          obtain ⟨rfl, hrest⟩ := ih htail
          exact ⟨rfl, hrest⟩

/-- **A quoted text shows where it ends.** -/
theorem quoted_append_inj {cs cs' rest rest' : List Char}
    (h : quoted printable cs ++ rest = quoted printable cs' ++ rest') :
    cs = cs' ∧ rest = rest' := by
  simp only [quoted, List.cons_append, List.append_assoc] at h
  obtain ⟨hquote, hbody⟩ := List.cons.inj h
  rw [← hquote] at hbody
  exact flatMap_quotedChar_append_inj printable (quoteFor_mem_quotes cs) hbody

/-! ### Line feeds -/

/-- No hexadecimal digit is a line feed. -/
theorem lineFeed_notMem_hexDigits (width n : Nat) : '\n' ∉ hexDigits width n := by
  have hall : ∀ d < 16, '\n' ≠ Nat.digitChar d := by decide
  induction width generalizing n with
  | zero => exact List.not_mem_nil
  | succ width ih =>
      rw [hexDigits, List.mem_append, List.mem_singleton, not_or]
      exact ⟨ih _, hall _ (Nat.mod_lt n (by decide))⟩

/-- A line feed is escaped, so no quoted character brings one in. -/
theorem lineFeed_notMem_quotedChar (hquote : quote ∈ quotes) (c : Char) :
    '\n' ∉ quotedChar printable quote c := by
  rw [quotedChar]
  split_ifs with h hn hr ht
  · have hc : '\n' ≠ c := by
      rintro rfl
      exact h.elim (fun e => absurd (e ▸ hquote) (by decide)) (fun e => absurd e (by decide))
    simp [hc]
  · decide
  · decide
  · decide
  · rw [List.mem_singleton]
    exact Ne.symm hn
  · rw [escapedCode]
    split_ifs <;> simp [lineFeed_notMem_hexDigits]

/-- **A quoted text stays on its line.** -/
theorem lineFeed_notMem_quoted (cs : List Char) : '\n' ∉ quoted printable cs := by
  have hquote := quoteFor_mem_quotes cs
  have hfeed : '\n' ≠ quoteFor cs := fun e => absurd (e ▸ hquote) (by decide)
  rw [quoted, List.mem_append, List.mem_cons, List.mem_singleton, List.mem_flatMap]
  rintro ((hm | ⟨c, -, hm⟩) | hm)
  · exact hfeed hm
  · exact lineFeed_notMem_quotedChar printable hquote c hm
  · exact hfeed hm

end Text
end Railroad
