/-
# No control characters in written values

The text of a value holds no control character but the line ends between its lines: those of its
strings are escaped.  So it holds no control sequence, and what is printed of it is all of it
(`printed_text`).
-/

import Railroad.Text.ControlSequence
import Railroad.Proofs.Json.RoundTrip

namespace Railroad
namespace Json

/-- A text without control characters but line ends. -/
def NoControls (cs : List Char) : Prop := ∀ c ∈ cs, 0x20 ≤ c.toNat ∨ c = '\n'

theorem noControls_nil : NoControls [] := nofun

/-- A text has no control characters if its first character is none and the rest has none. -/
@[simp] theorem noControls_cons_iff {c : Char} {cs : List Char} :
    NoControls (c :: cs) ↔ (0x20 ≤ c.toNat ∨ c = '\n') ∧ NoControls cs :=
  List.forall_mem_cons

/-- Two texts together have no control characters if neither has. -/
@[simp] theorem noControls_append_iff {cs ds : List Char} :
    NoControls (cs ++ ds) ↔ NoControls cs ∧ NoControls ds :=
  List.forall_mem_append

/-- Digits are no control characters. -/
theorem noControls_of_isDigit {cs : List Char} (h : ∀ c ∈ cs, c.isDigit = true) :
    NoControls cs := by
  intro c hc
  have hdigit := (Char.isDigit_iff_toNat.1 (h c hc)).1
  exact .inl (le_trans (by decide) hdigit)

theorem noControls_digits (n : Nat) : NoControls (Number.digits n) :=
  noControls_of_isDigit fun _ => Number.isDigit_of_mem_digits

/-- A written decimal has no control characters. -/
theorem noControls_decimal {d : Number.Decimal} (h : d.Normal) : NoControls d.text := by
  have hregular := Number.Decimal.regular_spelling h
  -- the parts of a spelling one by one: digits, a point, an exponent with its sign
  have hwhole := noControls_of_isDigit hregular.whole_digits
  have hfraction : NoControls (d.spelling.fraction.elim [] ('.' :: ·)) := by
    cases hds : d.spelling.fraction with
    | none => exact noControls_nil
    | some ds =>
        have hdigits := noControls_of_isDigit (hregular.fraction_digits ds hds)
        exact noControls_cons_iff.2 ⟨by decide, hdigits⟩
  have hexponent : NoControls (d.spelling.exponent.elim [] Number.Spelling.exponentText) := by
    cases d.spelling.exponent with
    | none => exact noControls_nil
    | some power =>
        rw [Option.elim_some, Number.Spelling.exponentText, noControls_cons_iff,
          noControls_cons_iff]
        refine ⟨by decide, ?_, noControls_digits power.natAbs⟩
        split_ifs <;> decide
  rw [Number.Decimal.text_eq_spelling, Number.Spelling.text]
  split_ifs <;> simp [hwhole, hfraction, hexponent]

theorem noControls_hexDigits (width n : Nat) : NoControls (Text.hexDigits width n) := by
  have hdigit : ∀ m < 16, 0x20 ≤ (Nat.digitChar m).toNat ∨ Nat.digitChar m = '\n' := by decide
  induction width generalizing n with
  | zero => exact noControls_nil
  | succ width ih =>
      rw [Text.hexDigits, noControls_append_iff, noControls_cons_iff]
      exact ⟨ih (n / 16), hdigit _ (Nat.mod_lt n (by decide)), noControls_nil⟩

/-- The control characters of a string are escaped. -/
theorem noControls_stringChar (c : Char) : NoControls (stringChar c) := by
  by_cases hcontrol : c.toNat < 0x20
  · rw [stringChar]
    split_ifs with hquote <;> simp [noControls_nil, noControls_hexDigits]
    obtain rfl | rfl := hquote <;> decide
  · have hplain : 0x20 ≤ c.toNat ∨ c = '\n' := .inl (Nat.not_lt.1 hcontrol)
    rw [stringChar]
    split_ifs <;> simp [hplain, noControls_nil]

/-- A quoted text has none, since they are escaped. -/
theorem noControls_stringText (text : String) : NoControls (stringText text) := by
  have htext : NoControls (text.toList.flatMap stringChar) := by
    intro c hc
    obtain ⟨d, -, hd⟩ := List.mem_flatMap.1 hc
    exact noControls_stringChar d c hd
  simp [stringText, htext, noControls_nil]

/-- A written double has no control characters. -/
theorem noControls_realText (x : Float) : NoControls (realText x) := by
  obtain ⟨d, hnormal, -, htext, -⟩ | ⟨htext, -⟩ := realText_eq x
  · rw [htext]
    exact noControls_decimal hnormal
  · rw [htext]
    simp [noControls_nil]

theorem noControls_signedDigits (n : Int) : NoControls (Number.signedDigits n) := by
  rw [Number.signedDigits]
  split_ifs <;> simp [noControls_digits]

section

variable (style : Style)

/-- The only control characters that indentation brings in are line feeds. -/
theorem noControls_lineBreak (level : Nat) : NoControls (style.lineBreak level) := by
  cases style with
  | compact => exact noControls_nil
  | indented width =>
      refine noControls_cons_iff.2 ⟨.inr rfl, fun c hc => .inl ?_⟩
      rw [List.eq_of_mem_replicate hc]
      decide

theorem noControls_colon : NoControls style.colon := by
  cases style <;> simp [Style.colon, noControls_nil]

mutual

/-- **The text of a value holds no control characters but line ends.** -/
theorem noControls_chars (level : Nat) : ∀ v : Json, NoControls (chars style level v)
  | null => by simp [chars, noControls_nil]
  | bool b => by cases b <;> simp [chars, noControls_nil]
  | integer n => by rw [chars]; exact noControls_signedDigits n
  | real x => by rw [chars]; exact noControls_realText x
  | string text => by rw [chars]; exact noControls_stringText text
  | array [] => by simp [chars, noControls_nil]
  -- a list is written as its first item, and the others each behind a comma
  | array (item :: items) => by
      have hitem := noControls_chars (level + 1) item
      have hitems := noControls_itemsAfter (level + 1) items
      simp [chars, noControls_lineBreak, hitem, hitems, noControls_nil]
  | object [] => by simp [chars, noControls_nil]
  | object ((name, value) :: fields) => by
      have hvalue := noControls_chars (level + 1) value
      have hfields := noControls_fieldsAfter (level + 1) fields
      simp [chars, noControls_lineBreak, noControls_stringText, noControls_colon, hvalue, hfields,
        noControls_nil]

/-- The items of an array behind the first one have none. -/
theorem noControls_itemsAfter (level : Nat) :
    ∀ items : List Json, NoControls (itemsAfter style level items)
  | [] => by rw [itemsAfter]; exact noControls_nil
  | item :: items => by
      have hitem := noControls_chars level item
      have hitems := noControls_itemsAfter level items
      simp [itemsAfter, noControls_lineBreak, hitem, hitems]

/-- The fields of an object behind the first one have none. -/
theorem noControls_fieldsAfter (level : Nat) :
    ∀ fields : List (String × Json), NoControls (fieldsAfter style level fields)
  | [] => by rw [fieldsAfter]; exact noControls_nil
  | (name, value) :: fields => by
      have hvalue := noControls_chars level value
      have hfields := noControls_fieldsAfter level fields
      simp [fieldsAfter, noControls_lineBreak, noControls_stringText, noControls_colon, hvalue,
        hfields]

end

/-- What is printed of the text of a value is the whole text. -/
theorem printed_text (v : Json) : Text.printed (v.text style) = v.text style := by
  have hescape : '\x1b' ∉ chars style 0 v := by
    intro hmem
    exact absurd (noControls_chars style 0 v _ hmem) (by decide)
  rw [Text.printed, text, String.toList_ofList, Text.dropControls_eq_self hescape]

end

end Json
end Railroad
