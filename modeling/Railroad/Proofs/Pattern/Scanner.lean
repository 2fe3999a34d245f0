/-
# A flat scanner

Whether a pattern can be read, and where its first error stands, can be told
without building a tree.  The scanner goes through the pattern once, from the left,
and remembers three things: its position, the number of groups that are open and
whether an unquantified atom was just read.

| in front of it | it |
| --- | --- |
| the end | stops: the groups must be closed |
| `*`, `+`, `?` behind an atom | takes it |
| `{` behind an atom | goes behind the next `}` |
| `\|` | takes it |
| `)` | closes a group, which is an atom; there must be one |
| `(` | opens a group, with the opening of its kind; fewer than 100 must be open |
| `[` | takes `^` and `]` if they come next, and goes behind the next `]` not escaped |
| a backslash | takes two characters, an atom |
| anything else | takes it, an atom |

An error stands where the scanner is, or at the end of the pattern when what it
looks for is not there.
-/

import Railroad.Pattern.SyntaxError

namespace Railroad
namespace Pattern

/-- What a scanner remembers. -/
structure Scanner where
  /-- How many characters it has passed. -/
  position : Nat
  /-- How many groups are open. -/
  opened : Nat
  /-- Whether an unquantified atom was just read. -/
  afterAtom : Bool

/-- What a scanner does at a character. -/
inductive Move where
  /-- It takes the character and `more` behind it. -/
  | skip (more opened : Nat) (afterAtom : Bool)
  /-- The error stands at the character. -/
  | stopHere (cause : Cause)
  /-- The error stands at the end of the pattern. -/
  | stopAtEnd (cause : Cause)

/-- Takes a number of characters, if the pattern is long enough to tell. -/
def Move.jump (cause : Cause) (opened : Nat) (afterAtom : Bool) : Option Nat → Move
  | none => .stopAtEnd cause
  | some more => .skip more opened afterAtom

/-- The length of the rest of a brace quantifier, its `}` included. -/
def braceLength (cs : List Char) : Option Nat := (cs.idxOf? '}').map (· + 1)

/-- The length of an escaped character. -/
def escapeLength : List Char → Option Nat
  | [] => none
  | _ :: _ => some 1

/-- The length of a text up to the first `]` that is not escaped, the `]` included. -/
def untilClose : List Char → Option Nat
  | [] => none
  | ['\\'] => none
  | '\\' :: _ :: cs => (untilClose cs).map (· + 2)
  | c :: cs => if c = ']' then some 1 else (untilClose cs).map (· + 1)

/-- The length of a text with an optional `c` in front, where `length` is told for what
stands behind the `c`. -/
def optionally (c : Char) (length : List Char → Option Nat) : List Char → Option Nat
  | [] => length []
  | d :: cs => if d = c then (length cs).map (· + 1) else length (d :: cs)

/-- The length of a class behind its `[`: an optional `^`, an optional `]` and what comes up
to the `]` that ends it. -/
def classLength : List Char → Option Nat := optionally '^' (optionally ']' untilClose)

/-- What may stand behind the `(` of a group to tell its kind. -/
def openings : List (List Char) :=
  [['?', '<', '='], ['?', '<', '!'], ['?', ':'], ['?', '='], ['?', '!']]

/-- The length of the opening behind a `(`, zero if there is none. -/
def openingLength (cs : List Char) : Nat :=
  (openings.find? fun opening => opening.isPrefixOf cs).elim 0 List.length

namespace Scanner

/-- What a scanner does at `c`, with `cs` behind it. -/
def move (s : Scanner) (c : Char) (cs : List Char) : Move :=
  if s.afterAtom ∧ (c = '*' ∨ c = '+' ∨ c = '?') then .skip 0 s.opened false
  else if s.afterAtom ∧ c = '{' then
    .jump .unterminatedQuantifier s.opened false (braceLength cs)
  else if c = '|' then .skip 0 s.opened false
  else if c = ')' then
    if s.opened = 0 then .stopHere .unexpectedClose else .skip 0 (s.opened - 1) true
  else if c = '(' then
    if s.opened = 100 then .stopHere .nestingTooDeep
    else .skip (openingLength cs) (s.opened + 1) false
  else if c = '[' then .jump .unterminatedClass s.opened true (classLength cs)
  else if c = '\\' then .jump .danglingEscape s.opened true (escapeLength cs)
  else .skip 0 s.opened true

/-- Scans a text from the position of the scanner on: the first error and its offset, if
there is one. -/
def run (s : Scanner) : List Char → Except (Cause × Nat) Unit
  | [] => if s.opened = 0 then .ok () else .error (.unterminatedGroup, s.position)
  | c :: cs =>
    match s.move c cs with
    | .stopHere cause => .error (cause, s.position)
    | .stopAtEnd cause => .error (cause, s.position + (c :: cs).length)
    | .skip more opened afterAtom =>
      run ⟨s.position + 1 + more, opened, afterAtom⟩ (cs.drop more)
termination_by cs => cs.length
decreasing_by
  rw [List.length_drop, List.length_cons]
  omega

end Scanner

/-- Scans a whole pattern. -/
def scan (pattern : String) : Except (Cause × Nat) Unit :=
  Scanner.run ⟨0, 0, false⟩ pattern.toList

end Pattern
end Railroad
