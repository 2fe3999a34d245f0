/-
# Drawing sessions

A session keeps a style, a cursor and what has been drawn so far.  Nodes are
drawn one after the other, each from the cursor that the one before it left; a
node that cannot be drawn leaves the cursor where it was, and what it had drawn
by then stays.
-/

import Railroad.Layout.Draw

namespace Railroad
namespace Layout

open Pattern Drawing

/-- A drawing in the making. -/
structure Session (α : Type) [Scalar α] where
  /-- The style that everything is drawn in. -/
  style : Style α := {}
  /-- Where the next node is drawn from. -/
  cursor : Point α := ⟨(0 : Nat), (0 : Nat)⟩
  /-- What was drawn by now. -/
  drawn : List (Primitive α) := []

namespace Session

variable {α : Type} [Scalar α]

/-- The session after one more node, and why the node was left unfinished, if it
was. -/
def add (session : Session α) (node : Node) : Session α × Option Stray :=
  let added := sketch session.style node session.cursor
  let drawn := session.drawn ++ added.drawn
  match added.outcome with
  | .ok cursor => (⟨session.style, cursor, drawn⟩, none)
  | .error object => (⟨session.style, session.cursor, drawn⟩, some object)

/-- The bounds of what has been drawn. -/
def bounds? (session : Session α) : Option (Bounds α) := Bounds.of? session.drawn

end Session
end Layout
end Railroad
