/-
# Reading diagrams

A text is read as a diagram, or refused with every issue it has.  Fields may stand
in any order, unknown fields are ignored, and of two fields with one name the
later counts.  Primitives, bounds and each side of the bounds may be missing, as
may the anchor and the fill of a caption and the curvedness of a path; every
other field has to be there.

Issues come in the order of the fields of what is read, not in the order of the
text.

Lenient conversions are left out: a lenient reader takes a text that spells a number, or true
and false, for a number, and a text or the numbers zero and one for true or false.  Here they
are refused (`number`, `flag`).  No text that is written calls for one of them, so what is said
of reading a written text is not touched by this.
-/

import Railroad.Drawing.Diagram
import Railroad.Json.Reader
import Railroad.Exchange.Checked
import Railroad.Exchange.Writer

namespace Railroad
namespace Exchange

open Drawing

/-! ## Single values -/

/-- A number.  A text that spells one is refused, and so are true and false: the conversions
of a lenient reader are left out. -/
def number : Json → Checked Float
  | .integer n => .good (Number.floatOfInt n)
  | .real x => .good x
  | .string _ => .fail .textForNumber
  | _ => .fail .noNumber

/-- A text. -/
def text : Json → Checked String
  | .string s => .good s
  | _ => .fail .noText

/-- True or false.  Numbers and texts are refused, also the numbers zero and one and the texts
that stand for one of the two: the conversions of a lenient reader are left out. -/
def flag : Json → Checked Bool
  | .bool b => .good b
  | .string _ => .fail .textForFlag
  | _ => .fail .noFlag

/-- One of the values that have names. -/
def named {β : Type} (ofName? : String → Option β) : Json → Checked β
  | .string s =>
    match ofName? s with
    | some value => .good value
    | none => .fail .noChoice
  | _ => .fail .noChoice

/-! ## Fields -/

section

variable {β : Type} (fields : List (String × Json))

/-- A field that has to be there. -/
def required (name : String) (check : Json → Checked β) : Checked β :=
  match Json.lookup? name fields with
  | none => Checked.below (.field name) (.fail .missing)
  | some value => (check value).below (.field name)

/-- A field that may be missing. -/
def optional (name : String) (default : β) (check : Json → Checked β) : Checked β :=
  match Json.lookup? name fields with
  | none => .good default
  | some value => (check value).below (.field name)

end

/-! ## Diagrams -/

/-- A point. -/
def point : Json → Checked (Point Float)
  | .object fields =>
    ((Checked.good Point.mk).apply (required fields "x" number)).apply
      (required fields "y" number)
  | _ => .fail .noPoint

/-- The points of a path. -/
def points : Json → Checked (List (Point Float))
  | .array items => Checked.list point 0 items
  | _ => .fail .noPoints

/-- The box with the given fields. -/
def box (fields : List (String × Json)) : Checked (Box Float) :=
  (Checked.good Box.mk)
    |>.apply (required fields "x" number)
    |>.apply (required fields "y" number)
    |>.apply (required fields "width" number)
    |>.apply (required fields "height" number)
    |>.apply (required fields "corner_radius" number)
    |>.apply (required fields "label" text)
    |>.apply (required fields "font_size" number)
    |>.apply (required fields "fill" text)
    |>.apply (required fields "stroke" text)
    |>.apply (required fields "stroke_width" number)

/-- The caption with the given fields. -/
def caption (fields : List (String × Json)) : Checked (Caption Float) :=
  (Checked.good Caption.mk)
    |>.apply (required fields "x" number)
    |>.apply (required fields "y" number)
    |>.apply (required fields "text" text)
    |>.apply (required fields "font_size" number)
    |>.apply (optional fields "anchor" .start (named Anchor.ofName?))
    |>.apply (optional fields "fill" "#000" text)

/-- The path with the given fields. -/
def path (fields : List (String × Json)) : Checked (Connector Float) :=
  (Checked.good Connector.mk)
    |>.apply (required fields "points" points)
    |>.apply (optional fields "curved" false flag)
    |>.apply (required fields "stroke" text)
    |>.apply (required fields "stroke_width" number)

/-- The arrowhead with the given fields. -/
def arrow (fields : List (String × Json)) : Checked (Arrow Float) :=
  (Checked.good Arrow.mk)
    |>.apply (required fields "x" number)
    |>.apply (required fields "y" number)
    |>.apply (required fields "direction" (named Direction.ofName?))
    |>.apply (required fields "size" number)
    |>.apply (required fields "fill" text)

/-- The frame with the given fields. -/
def frame (fields : List (String × Json)) : Checked (Frame Float) :=
  (Checked.good Frame.mk)
    |>.apply (required fields "x" number)
    |>.apply (required fields "y" number)
    |>.apply (required fields "width" number)
    |>.apply (required fields "height" number)
    |>.apply (required fields "stroke" text)
    |>.apply (required fields "stroke_width" number)

/-- The primitive of the given kind. -/
def primitiveOf (fields : List (String × Json)) : Kind → Checked (Primitive Float)
  | .box => (Checked.good Primitive.box).apply (box fields)
  | .caption => (Checked.good Primitive.caption).apply (caption fields)
  | .path => (Checked.good Primitive.path).apply (path fields)
  | .arrow => (Checked.good Primitive.arrow).apply (arrow fields)
  | .frame => (Checked.good Primitive.frame).apply (frame fields)

/-- A primitive.  Issues inside it are placed below the name of its kind. -/
def primitive : Json → Checked (Primitive Float)
  | .object fields =>
    match Json.lookup? "kind" fields with
    | none => .fail .noKind
    | some (.string name) =>
      match Kind.ofName? name with
      | none => .fail .unknownKind
      | some kind => (primitiveOf fields kind).below (.field name)
    | some _ => .fail .unknownKind
  | _ => .fail .noPrimitive

/-- The primitives of a diagram. -/
def primitives : Json → Checked (List (Primitive Float))
  | .array items => Checked.list primitive 0 items
  | _ => .fail .noList

/-- Bounds; a side that is missing is at zero. -/
def bounds : Json → Checked (Bounds Float)
  | .object fields =>
    (Checked.good Bounds.mk)
      |>.apply (optional fields "min_x" 0 number)
      |>.apply (optional fields "min_y" 0 number)
      |>.apply (optional fields "max_x" 0 number)
      |>.apply (optional fields "max_y" 0 number)
  | _ => .fail .noModel

/-- A diagram. -/
def diagram : Json → Checked (Diagram Float)
  | .object fields =>
    (Checked.good Diagram.mk)
      |>.apply (optional fields "primitives" [] primitives)
      |>.apply (optional fields "bounds" Bounds.zero bounds)
  | _ => .fail .noModel

/-- How deep the containers of a text may be nested. -/
def maxDepth : Nat := 200

/-- The diagram of a text. -/
def read (s : String) : Checked (Diagram Float) :=
  match Json.ofText? maxDepth s with
  | none => .fail .noJson
  | some value => diagram value

/-- Whether the compact text of a diagram is written as itself once it is read, or why
it cannot be read: a number that is infinite or none has no text that is read as a
number. -/
def stability (d : Diagram Float) : Checked Bool :=
  (Checked.good fun e => write .compact e == write .compact d).apply (read (write .compact d))

end Exchange
end Railroad
