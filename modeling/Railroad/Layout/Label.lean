/-
# Labels and captions

The text in a box tells what the box matches.  The escapes in common use are
named; any other escape is shown as it is typed.  A member of a character class
is shown as it is spelled.
-/

import Railroad.Pattern.Node
import Railroad.Drawing.Bounds
import Railroad.Layout.Style

namespace Railroad
namespace Layout

open Pattern Drawing

/-- The names of the escapes that have one. -/
def escapeNames : List (String × String) :=
  [("\\d", "digit 0-9"),
   ("\\D", "not digit"),
   ("\\w", "word character"),
   ("\\W", "not word character"),
   ("\\s", "whitespace"),
   ("\\S", "not whitespace"),
   ("\\b", "word boundary"),
   ("\\B", "not word boundary"),
   ("\\n", "line feed"),
   ("\\r", "carriage return"),
   ("\\t", "tab"),
   ("\\0", "null")]

/-- The label of an escape. -/
def escapeLabel (sequence : String) : String := (escapeNames.lookup sequence).getD sequence

/-- The label of a literal: its text in quotes. -/
def literalLabel (text : String) : String := "\"" ++ text ++ "\""

/-- The label of a member of a character class. -/
def itemLabel : ClassItem → String
  | .literal text => text
  | .escape sequence => sequence
  | .range first last => first ++ "-" ++ last

/-- The caption of a character class. -/
def classCaption (negated : Bool) : String := if negated then "None of:" else "One of:"

/-- The caption of a group; a capturing group has none. -/
def groupCaption (kind : GroupKind) : String :=
  if kind = .capturing then "" else "(" ++ kind.opening ++ ")"

/-- The width of the box around a label. -/
def boxWidth {α : Type} [Scalar α] (metrics : Metrics α) (label : String) : α :=
  textWidth label metrics.fontSize + (2 : Nat) * metrics.boxPadding

end Layout
end Railroad
