/-
# Reading a pattern in place

A pattern can be read without taking it apart: a cursor stands at a place in the whole
pattern and moves on over what is read.  This is another reading of the same grammar, with
everything that can go wrong when places are counted:

| what is done | at or behind the end of the pattern |
| --- | --- |
| to look at a character in front of the cursor | there is none, which can be told |
| to take the character at the cursor | is out of range, and the walk breaks off |
| to go on while something does not come | may go on for ever |

How many groups are open is counted up at a `(` and down where a group ends, not handed
down.  Nothing here makes sure that a character is there when it is taken, that a loop
ends, or that the character taken at the end of a group, a class or a quantifier is the
one that closes it; each production relies on where the one before it has stopped.
-/

import Railroad.Pattern.Parser

namespace Railroad
namespace Pattern

/-- A place in a pattern. -/
structure Cursor where
  pattern : List Char
  /-- How many characters it has passed. -/
  position : Nat
  /-- How many groups are open around it. -/
  depth : Nat
  deriving DecidableEq, Repr

/-- Why a walk breaks off. -/
inductive Halt where
  /-- The pattern is refused, with an error at an offset. -/
  | refused (cause : Cause) (offset : Nat)
  /-- A character was taken where there is none. -/
  | outOfRange
  deriving DecidableEq, Repr

/-- What is done with a cursor.  It may break off, and it may have no end. -/
abbrev Walk (β : Type) : Type := StateT Cursor (ExceptT Halt Option) β

namespace Walk

/-- What a walk comes to from a cursor: a result and the cursor behind what was read, or the
reason why it breaks off; nothing if it goes on for ever. -/
def outcome {β : Type} (walk : Walk β) (cursor : Cursor) : Option (Except Halt (β × Cursor)) :=
  (walk.run cursor).run

/-! ### The cursor -/

/-- The character so many places in front of the cursor. -/
def peek (ahead : Nat) : Walk (Option Char) := do
  let cursor ← get
  return cursor.pattern[cursor.position + ahead]?

/-- Whether the cursor is at the end of the pattern. -/
def atEnd : Walk Bool := do
  let cursor ← get
  return cursor.pattern.length ≤ cursor.position

/-- Takes the character at the cursor, which is looked up without asking whether it is
there. -/
def advance : Walk Char := do
  let cursor ← get
  match cursor.pattern[cursor.position]? with
  | none => throw .outOfRange
  | some c =>
    set { cursor with position := cursor.position + 1 }
    return c

/-- Refuses the pattern, with the error at the cursor. -/
def refuse {β : Type} (cause : Cause) : Walk β := do
  let cursor ← get
  throw (.refused cause cursor.position)

/-- Refuses the pattern if it ends at the cursor. -/
def expectMore (cause : Cause) : Walk Unit := do
  if ← atEnd then refuse cause else return ()

/-- Counts a group that is entered. -/
def enter : Walk Unit := modify fun cursor => { cursor with depth := cursor.depth + 1 }

/-- Counts a group that is left. -/
def leave : Walk Unit := modify fun cursor => { cursor with depth := cursor.depth - 1 }

/-- Whether a character, or the end of the pattern, comes next. -/
def comesTo (c : Char) : Walk Bool := do
  return (← atEnd) || (← peek 0) == some c

/-- Goes on with a walk until it comes to what it stops at, and collects what it gives. -/
def collect {β : Type} (walk : Walk β) (stop : Walk Bool) : Walk (List β) := do
  if ← stop then return []
  else
    let first ← walk
    return first :: (← walk |>.collect stop)
partial_fixpoint

/-! ### Atoms -/

/-- A backslash and the character behind it. -/
def escape : Walk Node := do
  let _ ← advance
  expectMore .danglingEscape
  return .escape (String.ofList ['\\', ← advance])

/-- A brace quantifier, cut out of the pattern. -/
def braces : Walk String := do
  let start ← get
  let _ ← advance
  let _ ← advance.collect (comesTo '}')
  expectMore .unterminatedQuantifier
  let _ ← advance
  let finish ← get
  return String.ofList ((start.pattern.take finish.position).drop start.position)

/-- Whether a character may end a range. -/
def endsRange (c : Char) : Bool := c != ']' && c != '\\'

/-- A member of a class: an escape, a range if a dash and an end of a range come next, or a
character. -/
def member : Walk ClassItem := do
  if (← peek 0) == some '\\' then
    let _ ← advance
    expectMore .unterminatedClass
    return .escape (String.ofList ['\\', ← advance])
  else if (← peek 1) == some '-' && (← peek 2).any endsRange then
    let first ← advance
    let _ ← advance
    return .range (String.singleton first) (String.singleton (← advance))
  else
    return .literal (String.singleton (← advance))

/-- The members of a class and the `]` behind them. -/
def classItems : Walk (List ClassItem) := do
  let items ← member.collect (comesTo ']')
  expectMore .unterminatedClass
  let _ ← advance
  return items

/-- A `^` behind the opening of a class. -/
def negation : Walk Bool := do
  if (← peek 0) == some '^' then
    let _ ← advance
    return true
  else return false

/-- A `]` in front of the members of a class, which is a member. -/
def leadingClose : Walk (List ClassItem) := do
  if (← peek 0) == some ']' then return [.literal (String.singleton (← advance))]
  else return []

/-- A character class. -/
def charClass : Walk Node := do
  let _ ← advance
  let negated ← negation
  let leading ← leadingClose
  return .charClass (leading ++ (← classItems)) negated

/-- An atom and the quantifier behind it, if there is one. -/
def quantified (atom : Node) : Walk Node := do
  match ← peek 0 with
  | some '*' =>
    let _ ← advance
    return .zeroOrMore atom
  | some '+' =>
    let _ ← advance
    return .oneOrMore atom
  | some '?' =>
    let _ ← advance
    return .optional atom
  | some '{' => return .counted atom (← braces)
  | _ => return atom

/-- The kinds of groups that have an opening, in the order in which they are looked for. -/
def openingKinds : List GroupKind :=
  [.lookbehind, .negativeLookbehind, .nonCapturing, .lookahead, .negativeLookahead]

/-- Passes the opening of a group, if there is one, all of it at a time. -/
def groupKind : Walk GroupKind := do
  let cursor ← get
  match openingKinds.find? fun kind =>
      kind.opening.toList.isPrefixOf (cursor.pattern.drop cursor.position) with
  | some kind =>
    set { cursor with position := cursor.position + kind.opening.toList.length }
    return kind
  | none => return .capturing

/-! ### The grammar -/

/-- What a pattern has to keep to. -/
structure Rules where
  /-- How many groups may be open at one time. -/
  maxNesting : Nat

namespace Rules

mutual

/-- An atom, told by its first character. -/
def atom (rules : Rules) : Walk Node := do
  match ← peek 0 with
  | some '(' => rules |>.group
  | some '[' => charClass
  | some '\\' => escape
  | _ => return bare (← advance)
partial_fixpoint

/-- An atom with its quantifier. -/
def item (rules : Rules) : Walk Node := do
  quantified (← rules |>.atom)
partial_fixpoint

/-- The items of a sequence, up to a `|` or a `)`. -/
def items (rules : Rules) : Walk (List Node) := do
  if (← atEnd) || (← peek 0).any endsSequence then return []
  else
    let first ← rules |>.item
    return first :: (← rules |>.items)
partial_fixpoint

/-- The alternatives of an alternation, as long as a `|` comes next. -/
def alternatives (rules : Rules) : Walk (List Node) := do
  let first ← rules |>.items
  if (← peek 0) == some '|' then
    let _ ← advance
    return .ofItems first :: (← rules |>.alternatives)
  else return [.ofItems first]
partial_fixpoint

/-- A whole alternation as one node. -/
def alternation (rules : Rules) : Walk Node := do
  return .ofAlternatives (← rules |>.alternatives)
partial_fixpoint

/-- A group. -/
def group (rules : Rules) : Walk Node := do
  if rules.maxNesting ≤ (← get).depth then refuse .nestingTooDeep
  else
    let _ ← advance
    let kind ← groupKind
    enter
    let content ← rules |>.alternation
    leave
    expectMore .unterminatedGroup
    let _ ← advance
    return .group content kind
partial_fixpoint

end

/-- A whole pattern. -/
def pattern (rules : Rules) : Walk Node := do
  let node ← rules.alternation
  if ← atEnd then return node else refuse .unexpectedClose

end Rules
end Walk
end Pattern
end Railroad
