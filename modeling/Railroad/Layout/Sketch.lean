/-
# Sketches

A sketch is a piece of drawing: the primitives in the order in which they are
drawn, and a result, or the stray object that ended it.  Two sketches are joined
by drawing the second after the first.  What was drawn before a sketch ended
stays drawn.
-/

import Railroad.Pattern.Node
import Railroad.Drawing.Primitive

namespace Railroad
namespace Layout

open Pattern Drawing

/-- What is drawn, and what comes of it. -/
structure Sketch (α β : Type) where
  /-- What is drawn, in order. -/
  drawn : List (Primitive α)
  /-- What comes of it, or the stray object that ended it. -/
  outcome : Except Stray β

namespace Sketch

variable {α β γ : Type}

/-- Draws nothing. -/
def pure (value : β) : Sketch α β := ⟨[], .ok value⟩

/-- Draws nothing and ends at a stray object. -/
def stop (object : Stray) : Sketch α β := ⟨[], .error object⟩

/-- Draws the given primitives. -/
def draw (primitives : List (Primitive α)) : Sketch α Unit := ⟨primitives, .ok ()⟩

/-- Draws the first sketch, and then the one that its result gives. -/
def bind (first : Sketch α β) (next : β → Sketch α γ) : Sketch α γ :=
  match first.outcome with
  | .error object => ⟨first.drawn, .error object⟩
  | .ok value =>
    let second := next value
    ⟨first.drawn ++ second.drawn, second.outcome⟩

instance : Monad (Sketch α) where
  pure := Sketch.pure
  bind := Sketch.bind

@[simp]
theorem pure_eq (value : β) : (Pure.pure value : Sketch α β) = ⟨[], .ok value⟩ := rfl

@[simp]
theorem bind_ok (drawn : List (Primitive α)) (value : β) (next : β → Sketch α γ) :
    (⟨drawn, .ok value⟩ >>= next : Sketch α γ) =
      ⟨drawn ++ (next value).drawn, (next value).outcome⟩ := rfl

@[simp]
theorem bind_error (drawn : List (Primitive α)) (object : Stray) (next : β → Sketch α γ) :
    (⟨drawn, .error object⟩ >>= next : Sketch α γ) = ⟨drawn, .error object⟩ := rfl

end Sketch
end Layout
end Railroad
