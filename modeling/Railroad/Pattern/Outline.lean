/-
# The outline of a tree

An outline lists a tree from the root, a node before what is below it and the
members of a character class below the class.  Each entry stands on a line of
its own, two spaces further in than the entry it belongs to.

| entry | shows |
| --- | --- |
| literal, escape, class member | its text in quotes, a range with both ends |
| character class | whether it is negated |
| brace quantifier | its text as it is |
| group | the name of its kind |
| anything else | its name |
-/

import Railroad.Text.Printable
import Railroad.Text.Quoted
import Railroad.Pattern.Node

namespace Railroad
namespace Pattern

/-- An entry of an outline: how many entries it lies below, and what it shows. -/
structure Entry where
  /-- How far the entry is indented. -/
  depth : Nat
  /-- What it shows. -/
  text : List Char
  deriving DecidableEq, Repr

/-- The line of an entry, with its line end. -/
def Entry.line (entry : Entry) : List Char :=
  List.replicate (2 * entry.depth) ' ' ++ entry.text ++ ['\n']

section

variable (printable : Char → Bool)

/-- A text in quotes. -/
def shown (text : String) : List Char := Text.quoted printable text.toList

/-- What the entry of a class member shows. -/
def ClassItem.title : ClassItem → List Char
  | literal text => "Literal(".toList ++ shown printable text ++ [')']
  | escape text => "Escape(".toList ++ shown printable text ++ [')']
  | range first last =>
    "Range(".toList ++ shown printable first ++ ", ".toList ++ shown printable last ++ [')']

/-- What the entry of a node shows. -/
def Node.title (node : Node) : List Char :=
  node.name.toList ++ match node with
    | .literal text => '(' :: shown printable text ++ [')']
    | .escape text => '(' :: shown printable text ++ [')']
    | .charClass _ negated => if negated then " negated".toList else []
    | .counted _ quantifier => ' ' :: quantifier.toList
    | .group _ kind => ' ' :: kind.name.toList
    | _ => []

mutual

/-- The entries of a tree whose root is at the given depth. -/
def Node.entries (depth : Nat) : Node → List Entry
  | .charClass items negated =>
    ⟨depth, Node.title printable (.charClass items negated)⟩ ::
      items.map fun item => ⟨depth + 1, item.title printable⟩
  | .sequence items =>
    ⟨depth, Node.title printable (.sequence items)⟩ :: Node.entriesOfList (depth + 1) items
  | .choice alternatives =>
    ⟨depth, Node.title printable (.choice alternatives)⟩ ::
      Node.entriesOfList (depth + 1) alternatives
  | .optional item =>
    ⟨depth, Node.title printable (.optional item)⟩ :: Node.entries (depth + 1) item
  | .zeroOrMore item =>
    ⟨depth, Node.title printable (.zeroOrMore item)⟩ :: Node.entries (depth + 1) item
  | .oneOrMore item =>
    ⟨depth, Node.title printable (.oneOrMore item)⟩ :: Node.entries (depth + 1) item
  | .counted item quantifier =>
    ⟨depth, Node.title printable (.counted item quantifier)⟩ :: Node.entries (depth + 1) item
  | .group content kind =>
    ⟨depth, Node.title printable (.group content kind)⟩ :: Node.entries (depth + 1) content
  | node => [⟨depth, Node.title printable node⟩]

/-- The entries of the trees of a list, one tree after the other. -/
def Node.entriesOfList (depth : Nat) : List Node → List Entry
  | [] => []
  | node :: nodes => Node.entries depth node ++ Node.entriesOfList depth nodes

end

/-- The lines of a tree, the root first. -/
def Node.outlineWith (node : Node) : List Char :=
  (node.entries printable 0).flatMap Entry.line

end

/-- The outline of a tree, in which the printable characters are shown as
themselves. -/
def Node.outline (node : Node) : String :=
  String.ofList (node.outlineWith Text.isPrintable)

end Pattern
end Railroad
