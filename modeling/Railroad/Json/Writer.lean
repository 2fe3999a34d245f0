/-
# Writing JSON

A value is written compactly, without any blank, or over several lines, each
indented by a fixed number of spaces for every level; then a space follows the
colon.  An empty array and an empty object take no lines in either style.

In a string the quote, the backslash and the characters below U+0020 are
escaped, those with a short escape by that one; every other character is written
as it is.  A double is written as the shortest decimal that reads back
(`Railroad.Number.shortest`); what is no number and what is infinite is written
`null`.
-/

import Railroad.Text.Hex
import Railroad.Number.Shortest
import Railroad.Json.Value

namespace Railroad
namespace Json

/-- How values are laid out on lines. -/
inductive Style where
  | compact
  | indented (width : Nat)
  deriving DecidableEq, Repr

/-- What stands in front of an item at the given level. -/
def Style.lineBreak (style : Style) (level : Nat) : List Char :=
  match style with
  | compact => []
  | indented width => '\n' :: List.replicate (width * level) ' '

/-- What stands between a name and its value. -/
def Style.colon : Style → List Char
  | compact => [':']
  | indented _ => [':', ' ']

/-- A character of a string. -/
def stringChar (c : Char) : List Char :=
  if c = '"' ∨ c = '\\' then ['\\', c]
  else if c = '\x08' then ['\\', 'b']
  else if c = '\x0c' then ['\\', 'f']
  else if c = '\n' then ['\\', 'n']
  else if c = '\r' then ['\\', 'r']
  else if c = '\t' then ['\\', 't']
  else if c.toNat < 0x20 then '\\' :: 'u' :: Text.hexDigits 4 c.toNat
  else [c]

/-- A string in its quotes. -/
def stringText (text : String) : List Char :=
  '"' :: text.toList.flatMap stringChar ++ ['"']

/-- A double. -/
def realText (x : Float) : List Char :=
  match Number.shape x with
  | .finite negative rank => (Number.shortest negative rank).text
  | _ => "null".toList

section

variable (style : Style)

mutual

/-- The text of a value that stands at the given level. -/
def chars (level : Nat) : Json → List Char
  | null => "null".toList
  | bool value => (if value then "true" else "false").toList
  | integer value => Number.signedDigits value
  | real value => realText value
  | string text => stringText text
  | array [] => ['[', ']']
  -- each item is on a line of its own, one level further in, and the bracket is not
  | array (item :: items) =>
    '[' :: style.lineBreak (level + 1) ++ chars (level + 1) item ++
      itemsAfter (level + 1) items ++ style.lineBreak level ++ [']']
  | object [] => ['\x7b', '\x7d']
  | object ((name, value) :: fields) =>
    '\x7b' :: style.lineBreak (level + 1) ++ stringText name ++ style.colon ++
      chars (level + 1) value ++ fieldsAfter (level + 1) fields ++
      style.lineBreak level ++ ['\x7d']

/-- The items behind the first one of an array. -/
def itemsAfter (level : Nat) : List Json → List Char
  | [] => []
  | item :: items =>
    ',' :: style.lineBreak level ++ chars level item ++ itemsAfter level items

/-- The fields behind the first one of an object. -/
def fieldsAfter (level : Nat) : List (String × Json) → List Char
  | [] => []
  | (name, value) :: fields =>
    ',' :: style.lineBreak level ++ stringText name ++ style.colon ++ chars level value ++
      fieldsAfter level fields

end

/-- The text of a value. -/
def text (value : Json) : String := String.ofList (chars style 0 value)

end

end Json
end Railroad
