/-
# The pattern text of a tree

A tree is written back in the spelling it was read from: atoms and quantifiers
keep their texts, so only the brackets of classes and groups and the bars
between alternatives are supplied here.  A stray object has no spelling; the
first one from the left is reported.
-/

import Railroad.Pattern.Node

namespace Railroad
namespace Pattern

/-- The spelling of a member of a character class. -/
def ClassItem.spelling : ClassItem → List Char
  | literal text => text.toList
  | escape text => text.toList
  | range first last => first.toList ++ '-' :: last.toList

namespace Node

mutual

/-- The characters of the pattern that a tree stands for, or its first stray
object. -/
def spelling : Node → Except Stray (List Char)
  | literal text => .ok text.toList
  | escape text => .ok text.toList
  | anyChar => .ok ['.']
  | anchorStart => .ok ['^']
  | anchorEnd => .ok ['$']
  | charClass items negated =>
    .ok ('[' :: (if negated then ['^'] else []) ++ items.flatMap ClassItem.spelling ++ [']'])
  | sequence items => (spellings items).map List.flatten
  | choice alternatives => (spellings alternatives).map ['|'].intercalate
  | optional item => (spelling item).map (· ++ ['?'])
  | zeroOrMore item => (spelling item).map (· ++ ['*'])
  | oneOrMore item => (spelling item).map (· ++ ['+'])
  | counted item quantifier => (spelling item).map (· ++ quantifier.toList)
  | group content kind =>
    (spelling content).map fun text => '(' :: kind.opening.toList ++ text ++ [')']
  | empty => .ok []
  | stray object => .error object

/-- The spellings of a list of trees, from the left. -/
def spellings : List Node → Except Stray (List (List Char))
  | [] => .ok []
  | node :: nodes =>
    match spelling node with
    | .error object => .error object
    | .ok text => (spellings nodes).map (text :: ·)

end

/-- The pattern that a tree stands for. -/
def toPattern (node : Node) : Except Stray String := node.spelling.map String.ofList

end Node

/-- Why a tree with a stray object has no pattern. -/
def unspellable (object : Stray) : String := "Cannot serialize " ++ object.name

end Pattern
end Railroad
