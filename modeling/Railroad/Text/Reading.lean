/-
# Reading a text from its front

A reading takes a text and gives what it read together with the text after it,
or the reason why it cannot go on.  A reading that always consumes something
can be repeated without a bound on the number of rounds: the text after it is
shorter, so the repetition ends.
-/

namespace Railroad
namespace Text

/-- What was read and the text after it, or why nothing can be read. -/
abbrev Reading (ε β : Type) : Type := Except ε (β × List Char)

/-- A text that is not in the grammar; which part of it is wrong is not told. -/
inductive Malformed where
  | malformed
  deriving DecidableEq, Repr

/-- A reading that consumes at least one character whenever it succeeds. -/
structure Reader (ε β : Type) where
  /-- What is read, and what is left over. -/
  read : List Char → Reading ε β
  /-- Less is left over than there was. -/
  shorter : ∀ {cs : List Char} {v : β} {rest : List Char},
    read cs = .ok (v, rest) → rest.length < cs.length

end Text
end Railroad
