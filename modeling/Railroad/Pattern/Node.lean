/-
# The tree of a pattern

A regular-expression pattern is a tree of alternatives, sequences, quantified
items, groups and atoms.  Atoms keep the text they were written with, and a
brace quantifier keeps its braces, so that a tree can be written back.

Two rules keep trees small.  A sequence of no items is `empty` and a sequence of
one item is that item (`Node.ofItems`); a choice of one alternative is that
alternative (`Node.ofAlternatives`).

A tree made by hand may also hold a *stray* object in the place of a node: a
bare text, or a range outside a character class.  A stray object is counted and
listed, but it has no pattern text and no drawing.
-/

namespace Railroad
namespace Pattern

/-- The kinds of parenthesised groups. -/
inductive GroupKind where
  | capturing
  | nonCapturing
  | lookahead
  | negativeLookahead
  | lookbehind
  | negativeLookbehind
  deriving DecidableEq, Repr

namespace GroupKind

/-- The text between the opening parenthesis and the content. -/
def opening : GroupKind → String
  | capturing => ""
  | nonCapturing => "?:"
  | lookahead => "?="
  | negativeLookahead => "?!"
  | lookbehind => "?<="
  | negativeLookbehind => "?<!"

/-- The name under which a listing shows the kind. -/
def name : GroupKind → String
  | capturing => "capturing"
  | nonCapturing => "non-capturing"
  | lookahead => "lookahead"
  | negativeLookahead => "negative-lookahead"
  | lookbehind => "lookbehind"
  | negativeLookbehind => "negative-lookbehind"

/-- Every kind, in the order of the type. -/
def all : List GroupKind :=
  [capturing, nonCapturing, lookahead, negativeLookahead, lookbehind, negativeLookbehind]

/-- The kind with the given name. -/
def ofName? (s : String) : Option GroupKind := all.find? (·.name == s)

theorem ofName?_name (k : GroupKind) : ofName? k.name = some k := by
  cases k <;> decide +kernel

end GroupKind

/-- A member of a character class. -/
inductive ClassItem where
  | literal (text : String)
  | escape (sequence : String)
  | range (first last : String)
  deriving DecidableEq, Repr

/-- An object in the place of a node that is no node. -/
inductive Stray where
  | text (content : String)
  | range (first last : String)
  deriving DecidableEq, Repr

/-- The name under which a stray object is listed and counted. -/
def Stray.name : Stray → String
  | .text _ => "str"
  | .range _ _ => "ClassRange"

/-- A parsed pattern.  An escape is kept with its backslash and a brace
quantifier with its braces. -/
inductive Node where
  | literal (text : String)
  | escape (sequence : String)
  | anyChar
  | anchorStart
  | anchorEnd
  | charClass (items : List ClassItem) (negated : Bool)
  | sequence (items : List Node)
  | choice (alternatives : List Node)
  | optional (item : Node)
  | zeroOrMore (item : Node)
  | oneOrMore (item : Node)
  | counted (item : Node) (quantifier : String)
  | group (content : Node) (kind : GroupKind)
  | empty
  | stray (object : Stray)

namespace Node

/-- The name under which a node is listed and counted. -/
def name : Node → String
  | literal _ => "Literal"
  | escape _ => "Escape"
  | anyChar => "AnyChar"
  | anchorStart => "AnchorStart"
  | anchorEnd => "AnchorEnd"
  | charClass _ _ => "CharClass"
  | sequence _ => "Sequence"
  | choice _ => "Choice"
  | optional _ => "Optional"
  | zeroOrMore _ => "ZeroOrMore"
  | oneOrMore _ => "OneOrMore"
  | counted _ _ => "Repeat"
  | group _ _ => "Group"
  | empty => "Empty"
  | stray object => object.name

/-- The nodes directly below a node.  The members of a character class are no
nodes of the tree. -/
def children : Node → List Node
  | sequence items => items
  | choice alternatives => alternatives
  | optional item => [item]
  | zeroOrMore item => [item]
  | oneOrMore item => [item]
  | counted item _ => [item]
  | group content _ => [content]
  | _ => []

/-- A run of items as one node: none is `empty`, one is the item itself. -/
def ofItems : List Node → Node
  | [] => empty
  | [item] => item
  | items => sequence items

/-- Alternatives as one node: a single alternative stands for itself. -/
def ofAlternatives : List Node → Node
  | [alternative] => alternative
  | alternatives => choice alternatives

mutual

/-- Whether two trees are the same in shape and in every text. -/
def same : Node → Node → Bool
  | literal s, literal t => s == t
  | escape s, escape t => s == t
  | anyChar, anyChar => true
  | anchorStart, anchorStart => true
  | anchorEnd, anchorEnd => true
  | charClass is m, charClass js n => is == js && m == n
  | sequence xs, sequence ys => sameList xs ys
  | choice xs, choice ys => sameList xs ys
  | optional x, optional y => same x y
  | zeroOrMore x, zeroOrMore y => same x y
  | oneOrMore x, oneOrMore y => same x y
  | counted x q, counted y r => same x y && q == r
  | group x k, group y l => same x y && k == l
  | empty, empty => true
  | stray a, stray b => a == b
  | _, _ => false

/-- Whether two lists of trees agree place by place. -/
def sameList : List Node → List Node → Bool
  | [], [] => true
  | x :: xs, y :: ys => same x y && sameList xs ys
  | _, _ => false

end

mutual

theorem same_iff : ∀ x y : Node, same x y = true ↔ x = y
  | literal _, y => by cases y <;> simp [same]
  | escape _, y => by cases y <;> simp [same]
  | anyChar, y => by cases y <;> simp [same]
  | anchorStart, y => by cases y <;> simp [same]
  | anchorEnd, y => by cases y <;> simp [same]
  | charClass _ _, y => by cases y <;> simp [same]
  | sequence xs, y => by cases y <;> simp [same, sameList_iff xs]
  | choice xs, y => by cases y <;> simp [same, sameList_iff xs]
  | optional x, y => by cases y <;> simp [same, same_iff x]
  | zeroOrMore x, y => by cases y <;> simp [same, same_iff x]
  | oneOrMore x, y => by cases y <;> simp [same, same_iff x]
  | counted x _, y => by cases y <;> simp [same, same_iff x]
  | group x _, y => by cases y <;> simp [same, same_iff x]
  | empty, y => by cases y <;> simp [same]
  | stray _, y => by cases y <;> simp [same]

theorem sameList_iff : ∀ xs ys : List Node, sameList xs ys = true ↔ xs = ys
  | [], ys => by cases ys <;> simp [sameList]
  | x :: xs, ys => by cases ys <;> simp [sameList, same_iff x, sameList_iff xs]

end

instance : DecidableEq Node := fun x y => decidable_of_iff _ (same_iff x y)

end Node
end Pattern
end Railroad
