/-
# Why a pattern cannot be read

A pattern is refused at its first error.  The error has a cause and an offset,
counted in characters from the start of the pattern, and is shown in three
lines: the cause and the offset, the pattern, and a caret under the offset.
-/

namespace Railroad
namespace Pattern

/-- What can be wrong with a pattern. -/
inductive Cause where
  /-- A `)` closes no group. -/
  | unexpectedClose
  /-- A group opens inside as many groups as may be open. -/
  | nestingTooDeep
  | unterminatedGroup
  | unterminatedQuantifier
  | unterminatedClass
  /-- The pattern ends in a lone backslash. -/
  | danglingEscape
  deriving DecidableEq, Repr

/-- The wording of a cause. -/
def Cause.message : Cause → String
  | .unexpectedClose => "unexpected ')'"
  | .nestingTooDeep => "nesting too deep"
  | .unterminatedGroup => "unterminated group"
  | .unterminatedQuantifier => "unterminated quantifier"
  | .unterminatedClass => "unterminated character class"
  | .danglingEscape => "unexpected end of input after '\\'"

/-- A message about a place in a pattern, in three lines.  The caret stands at
most one place behind the last character of the pattern, and in the first column
for a negative offset. -/
def excerpt (message : String) (offset : Int) (pattern : String) : String :=
  let column : Int := if offset < pattern.length then offset else pattern.length
  "error: " ++ message ++ " at offset " ++ toString offset ++ "\n  | " ++ pattern ++
    "\n  | " ++ String.ofList (List.replicate column.toNat ' ') ++ "^"

/-- The least offset that a message can be shown at: the least whole number of 64
bits. -/
def leastOffset : Int := -0x8000000000000000

/-- A message about a place in a pattern, if the place can be shown.  How far it lies
behind the end of the pattern does not matter. -/
def excerpt? (message : String) (offset : Int) (pattern : String) : Option String :=
  if offset < leastOffset then none else some (excerpt message offset pattern)

/-- The first error of a pattern. -/
structure SyntaxError where
  cause : Cause
  /-- How many characters stand before the error. -/
  offset : Nat
  /-- The refused pattern. -/
  pattern : String
  deriving DecidableEq, Repr

/-- The error as it is shown. -/
def SyntaxError.report (e : SyntaxError) : String :=
  excerpt e.cause.message e.offset e.pattern

end Pattern
end Railroad
