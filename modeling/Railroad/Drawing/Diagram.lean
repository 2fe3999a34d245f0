/-
# Diagrams

A diagram is a list of primitives in the order in which they are drawn, with the
bounds of the whole.
-/

import Railroad.Drawing.Bounds

namespace Railroad
namespace Drawing

/-- What to draw, and how much room it needs. -/
structure Diagram (α : Type) where
  /-- What is drawn, in order. -/
  primitives : List (Primitive α)
  /-- The rectangle around all of it. -/
  bounds : Bounds α
  deriving DecidableEq, Repr

variable {α : Type} [Scalar α]

/-- The diagram of some primitives; without any extent it has no size and lies
at the origin. -/
def Diagram.of (primitives : List (Primitive α)) : Diagram α :=
  ⟨primitives, (Bounds.of? primitives).getD .zero⟩

/-- The primitives of one kind, in drawing order. -/
def Diagram.ofKind (diagram : Diagram α) (kind : Kind) : List (Primitive α) :=
  diagram.primitives.filter fun p => p.kind == kind

end Drawing
end Railroad
