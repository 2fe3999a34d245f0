/-
# Canonical trees

Not every tree is the tree of a pattern: a sequence may hold another sequence, a
literal two characters, a class a literal `^` where it would negate.  The
canonical trees are described here by their shape alone, with `g` the number of
groups that may still be opened:

| part | canonical when it is |
| --- | --- |
| alternation | one sequence, or a choice of two or more |
| sequence | empty, one item, or two or more items of which none runs into the next |
| item | an atom, bare or under one quantifier |
| atom | a place, an unreserved literal, an escape, a canonical class or a group (`g > 0`) |
| group | of a kind of its own, or capturing a text that does not begin like another kind |

An item runs into the next when it is a bare atom and the next begins with a
literal `*`, `+`, `?` or `{`, which would be read as its quantifier.  In a class
the dash is what a member can run into (`BeginsWithDash`): a literal before `-`
and one more character is the start of a range.
-/

import Mathlib.Data.List.Chain
import Railroad.Pattern.Printer
import Railroad.Proofs.Pattern.Openings

namespace Railroad
namespace Pattern

/-! ### Classes -/

/-- The characters that no member of a class spells without a backslash: the end of
the class and the backslash itself. -/
def classReserved : List Char := [']', '\\']

/-- Whether members begin with a dash and a character that may end a range. -/
def BeginsWithDash : List ClassItem → Prop
  | .literal text :: .literal _ :: _ => text = "-"
  | .literal text :: .range _ _ :: _ => text = "-"
  | .range first _ :: _ => first = "-"
  | _ => False

/-- Whether members begin with a caret. -/
def BeginsWithCaret : List ClassItem → Prop
  | .literal text :: _ => text = "^"
  | .range first _ :: _ => first = "^"
  | _ => False

/-- A canonical member spells one character, an escaped character or a range between
two characters. -/
def ClassItem.IsCanonical : ClassItem → Prop
  | literal text => ∃ c, text = String.singleton c ∧ c ∉ classReserved
  | escape text => ∃ c, text = String.ofList ['\\', c]
  | range first last => ∃ a b, first = String.singleton a ∧ last = String.singleton b ∧
      a ∉ classReserved ∧ b ∉ classReserved

/-- Canonical members: no literal stands before a dash that makes it the start of a
range. -/
def CanonicalMembers : List ClassItem → Prop
  | [] => True
  | .literal text :: items =>
    (ClassItem.literal text).IsCanonical ∧ ¬ BeginsWithDash items ∧ CanonicalMembers items
  | item :: items => item.IsCanonical ∧ CanonicalMembers items

/-- Canonical members of a whole class: the first may be a `]`, which no dash extends
to a range. -/
def CanonicalBody (items : List ClassItem) : Prop :=
  CanonicalMembers items ∨ ∃ others, items = .literal "]" :: others ∧ CanonicalMembers others

/-- A canonical class has a member, and begins with a caret only when it is negated. -/
structure CanonicalClass (items : List ClassItem) (negated : Bool) : Prop where
  /-- There is a member, since a bracket right at the front closes nothing. -/
  nonempty : items ≠ []
  /-- A caret at the front stands for the negation. -/
  caret : BeginsWithCaret items → negated = true
  /-- The first member may be a closing bracket, and none of the others. -/
  body : CanonicalBody items

/-! ### Trees -/

/-- The characters that are no literals outside a class. -/
def reserved : List Char := ['(', ')', '[', '|', '.', '^', '$', '\\']

/-- The characters that quantify an atom they follow. -/
def quantifiers : List Char := ['*', '+', '?', '{']

namespace Node

/-- Whether the text of a tree begins like the opening of a kind of group that is
not capturing. -/
def OpensKind (content : Node) : Prop :=
  ∃ text, content.spelling = .ok text ∧ HasOpening text

/-- An item without its quantifier. -/
def unquantified : Node → Node
  | optional item => item
  | zeroOrMore item => item
  | oneOrMore item => item
  | counted item _ => item
  | item => item

/-- Whether an item is under a quantifier. -/
def IsQuantified : Node → Prop
  | optional _ => True
  | zeroOrMore _ => True
  | oneOrMore _ => True
  | counted _ _ => True
  | _ => False

/-- Whether the atom of an item is a literal quantifier character. -/
def IsQuantifierLiteral (item : Node) : Prop :=
  ∃ c ∈ quantifiers, item.unquantified = .literal (String.singleton c)

/-- Whether two items can follow each other in a sequence. -/
def CanPrecede (item next : Node) : Prop := item.IsQuantified ∨ ¬ next.IsQuantifierLiteral

section

variable (inner : Node → Prop)

/-- Canonical atoms, where `inner` says what a group may hold. -/
inductive IsAtom : Node → Prop where
  | anyChar : IsAtom .anyChar
  | anchorStart : IsAtom .anchorStart
  | anchorEnd : IsAtom .anchorEnd
  | literal {c : Char} : c ∉ reserved → IsAtom (.literal (String.singleton c))
  | escape (c : Char) : IsAtom (.escape (String.ofList ['\\', c]))
  | charClass {items : List ClassItem} {negated : Bool} :
      CanonicalClass items negated → IsAtom (.charClass items negated)
  | group {content : Node} {kind : GroupKind} :
      inner content → (kind = .capturing → ¬ content.OpensKind) → IsAtom (.group content kind)

/-- Canonical items: an atom, bare or under one quantifier. -/
inductive IsItem : Node → Prop where
  | bare {atom : Node} : IsAtom inner atom → IsItem atom
  | optional {atom : Node} : IsAtom inner atom → IsItem (.optional atom)
  | zeroOrMore {atom : Node} : IsAtom inner atom → IsItem (.zeroOrMore atom)
  | oneOrMore {atom : Node} : IsAtom inner atom → IsItem (.oneOrMore atom)
  | counted {atom : Node} {text : List Char} :
      IsAtom inner atom → '}' ∉ text →
        IsItem (.counted atom (String.ofList ('{' :: (text ++ ['}']))))

/-- A run of canonical items in which none runs into the next. -/
structure IsRun (items : List Node) : Prop where
  /-- Every item is one of the grammar, … -/
  canonical : ∀ item ∈ items, IsItem inner item
  /-- … and none takes what follows it for its quantifier. -/
  chain : items.IsChain CanPrecede

/-- Canonical sequences. -/
inductive IsSequence : Node → Prop where
  | empty : IsSequence .empty
  | item {item : Node} : IsItem inner item → IsSequence item
  | sequence {items : List Node} :
      2 ≤ items.length → IsRun inner items → IsSequence (.sequence items)

/-- Canonical alternations. -/
inductive IsAlternation : Node → Prop where
  | sequence {node : Node} : IsSequence inner node → IsAlternation node
  | choice {alternatives : List Node} :
      2 ≤ alternatives.length → (∀ node ∈ alternatives, IsSequence inner node) →
        IsAlternation (.choice alternatives)

end

/-- What a group may hold when it is one of `g` that may still be opened: nothing
for `g = 0`, else an alternation with one group less. -/
def IsContent : (g : Nat) → Node → Prop
  | 0, _ => False
  | g + 1, node => IsAlternation (IsContent g) node

/-- Canonical trees in which at most `g` groups lie inside each other. -/
def Canonical (g : Nat) : Node → Prop := IsAlternation (IsContent g)

end Node
end Pattern
end Railroad
