/-
# Checking a value part by part

A checked value is either good or comes with all that is wrong with it.  When
several parts make up a whole, the issues of all of them are kept, in the order of
the parts; the whole is good exactly if every part is.

An issue is told by its place and by what is wrong there.  A value is checked for being of the
kind that is expected, and not converted to it: where a lenient check would take a text for the
number that it spells, there is an issue.
-/

namespace Railroad
namespace Exchange

/-- A step from a value to a part of it. -/
inductive Step where
  | field (name : String)
  | index (i : Nat)
  deriving DecidableEq, Repr

/-- What can be wrong at a place. -/
inductive Defect where
  /-- The text is no JSON. -/
  | noJson
  /-- No object where a diagram or bounds are expected. -/
  | noModel
  | noList
  /-- No object where a primitive is expected. -/
  | noPrimitive
  /-- A primitive without a kind. -/
  | noKind
  | unknownKind
  | missing
  | noNumber
  /-- A text where a number is expected. -/
  | textForNumber
  | noText
  | noFlag
  /-- A text where true or false is expected. -/
  | textForFlag
  /-- None of the values that are possible. -/
  | noChoice
  /-- No list where the points of a path are expected. -/
  | noPoints
  /-- No object where a point is expected. -/
  | noPoint
  deriving DecidableEq, Repr

/-- The code under which a defect is reported. -/
def Defect.code : Defect → String
  | noJson => "json_invalid"
  | noModel => "model_type"
  | noList => "list_type"
  | noPrimitive => "dict_type"
  | noKind => "union_tag_not_found"
  | unknownKind => "union_tag_invalid"
  | missing => "missing"
  | noNumber => "float_type"
  | textForNumber => "float_parsing"
  | noText => "string_type"
  | noFlag => "bool_type"
  | textForFlag => "bool_parsing"
  | noChoice => "enum"
  | noPoints => "tuple_type"
  | noPoint => "dataclass_type"

/-- A defect and the way to its place. -/
structure Issue where
  /-- The way to the place, from the outside. -/
  place : List Step
  /-- What is wrong there. -/
  defect : Defect
  deriving DecidableEq, Repr

/-- The issue of what lies below a step. -/
def Issue.below (step : Step) (issue : Issue) : Issue := ⟨step :: issue.place, issue.defect⟩

/-- A value, or all that is wrong with it. -/
inductive Checked (β : Type) where
  | good (value : β)
  | bad (issues : List Issue)

namespace Checked

variable {β γ : Type}

/-- One defect at the place itself. -/
def fail (defect : Defect) : Checked β := .bad [⟨[], defect⟩]

/-- The value of a part, with its issues placed below a step. -/
def below (step : Step) : Checked β → Checked β
  | good value => good value
  | bad issues => bad (issues.map (Issue.below step))

/-- A function of one more part. -/
def apply (f : Checked (β → γ)) (x : Checked β) : Checked γ :=
  match f, x with
  | good f, good x => good (f x)
  | good _, bad issues => bad issues
  | bad issues, good _ => bad issues
  | bad issues, bad others => bad (issues ++ others)

/-- The items of a list, each checked at its index; the first has the index
`start`. -/
def list (check : γ → Checked β) (start : Nat) : List γ → Checked (List β)
  | [] => good []
  | item :: items =>
    ((good List.cons).apply ((check item).below (.index start))).apply
      (list check (start + 1) items)

end Checked
end Exchange
end Railroad
