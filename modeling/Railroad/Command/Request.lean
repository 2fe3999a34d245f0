/-
# What a command line asks for

```text
parse PATTERN
info PATTERN
layout PATTERN [-o FILE] [--font-size X] [--max-length N] [--max-width X] [--debug]
```

Options may stand before and behind the pattern.

* A long option takes its value from the next argument or behind a `=`; `-o`
  takes it from the next argument or from the rest of its own.  The next argument
  is the value whatever it looks like.
* Of an option that is given several times the last value counts, and only that
  one is looked at, where the option is given first.
* `--` ends the options.  A lone `-` and an empty argument are no options.

Everything else that looks like an option, a pattern that is missing or not the
only one, a value that is no number, and a file name that no file can have make a
command line that asks for nothing.  A command line is taken apart first; then the
options are looked at, one after the other, and then the pattern.
-/

import Railroad.Command.Numeral

namespace Railroad
namespace Command

/-- The options of a layout. -/
structure Options where
  /-- The file to write to; without one the diagram is printed. -/
  output : Option String := none
  fontSize : Float := 14
  /-- The length of the longest pattern that is looked at. -/
  maxLength : Int := 500
  /-- The width of the widest diagram that is drawn without a warning. -/
  maxWidth : Float := 1200
  /-- Whether the outline of the pattern is shown too. -/
  debug : Bool := false

/-- What to do with a pattern. -/
inductive Request where
  | outline (pattern : String)
  | info (pattern : String)
  | layout (pattern : String) (options : Options)

/-- Why a command line asks for nothing. -/
inductive Misuse where
  /-- It does not have the form of a command. -/
  | malformed
  /-- The name of the output file holds a NUL, which the name of no file does. -/
  | nulInFileName
  deriving DecidableEq, Repr

/-- A part of a command line that has the form it should have. -/
def wellFormed {β : Type} : Option β → Except Misuse β
  | some value => .ok value
  | none => .error .malformed

/-! ## Options and arguments -/

/-- The options that a command knows. -/
structure Known where
  /-- The long options with a value. -/
  valued : List String := []
  /-- The options of one letter with a value, each with the long option that it
  stands for. -/
  short : List (Char × String) := []
  /-- The long options without a value. -/
  flags : List String := []

/-- A command line taken apart. -/
structure Parts where
  arguments : List String := []
  /-- The values of options, in the order in which they are given. -/
  values : List (String × String) := []
  flags : List String := []

/-- The part of a text before a character, and the part behind it if the
character occurs. -/
def splitAt (separator : Char) (cs : List Char) : List Char × Option (List Char) :=
  match cs.dropWhile (· != separator) with
  | [] => (cs, none)
  | _ :: rest => (cs.takeWhile (· != separator), some rest)

/-- What an argument is. -/
inductive Form where
  | argument
  /-- The end of the options. -/
  | ends
  | flag (name : String)
  /-- An option with its value. -/
  | attached (name value : String)
  /-- An option whose value is the next argument. -/
  | detached (name : String)
  /-- An option that is not known, or a flag with a value. -/
  | unknown
  deriving DecidableEq, Repr

/-- What a long option is, after its two dashes. -/
def Known.longForm (known : Known) (cs : List Char) : Form :=
  let (name, value?) := splitAt '=' cs
  let name := String.ofList name
  if known.flags.contains name then
    if value?.isSome then .unknown else .flag name
  else if known.valued.contains name then
    match value? with
    | some value => .attached name (String.ofList value)
    | none => .detached name
  else .unknown

/-- What an option of one letter is, with the text behind the letter. -/
def Known.shortForm (known : Known) (c : Char) (cs : List Char) : Form :=
  match known.short.lookup c with
  | none => .unknown
  | some name => if cs.isEmpty then .detached name else .attached name (String.ofList cs)

/-- What an argument is to a command with the known options. -/
def Known.form (known : Known) (arg : String) : Form :=
  match arg.toList with
  | ['-', '-'] => .ends
  | '-' :: '-' :: cs => known.longForm cs
  | '-' :: c :: cs => known.shortForm c cs
  | _ => .argument

/-- Takes a command line apart; none if an option is not known, lacks its value
or has one that it does not take. -/
def Known.split? (known : Known) : List String → Option Parts
  | [] => some {}
  | arg :: rest =>
    match known.form arg, rest with
    | .argument, rest =>
      (known.split? rest).map fun p => { p with arguments := arg :: p.arguments }
    | .ends, rest => some { arguments := rest }
    | .flag name, rest =>
      (known.split? rest).map fun p => { p with flags := name :: p.flags }
    | .attached name value, rest =>
      (known.split? rest).map fun p => { p with values := (name, value) :: p.values }
    | .detached name, value :: rest =>
      (known.split? rest).map fun p => { p with values := (name, value) :: p.values }
    | .detached _, [] => none
    | .unknown, _ => none

/-- The last value of an option. -/
def Parts.value? (parts : Parts) (name : String) : Option String :=
  (parts.values.reverse.find? fun v => v.1 == name).map Prod.snd

/-- The options in the order in which they are given, each with its last value. -/
def Parts.settled (parts : Parts) : List (String × String) :=
  parts.values.map fun (name, value) => (name, (parts.value? name).getD value)

/-- The pattern, if it is the only argument. -/
def Parts.pattern? (parts : Parts) : Option String :=
  match parts.arguments with
  | [pattern] => some pattern
  | _ => none

/-! ## Commands -/

/-- The options of `layout`. -/
def layoutOptions : Known where
  valued := ["output", "font-size", "max-length", "max-width"]
  short := [('o', "output")]
  flags := ["debug"]

/-- The options of a layout with one of them set as its value says. -/
def Options.set (options : Options) (name value : String) : Except Misuse Options :=
  match name with
  | "output" =>
    if value.toList.contains '\x00' then .error .nulInFileName
    else .ok { options with output := some value }
  | "font-size" => (wellFormed (real? value)).map fun x => { options with fontSize := x }
  | "max-length" => (wellFormed (integer? value)).map fun n => { options with maxLength := n }
  | "max-width" => (wellFormed (real? value)).map fun x => { options with maxWidth := x }
  | _ => .error .malformed

/-- What `layout` is asked for by the arguments behind it. -/
def layoutRequest (args : List String) : Except Misuse Request := do
  let parts ← wellFormed (layoutOptions.split? args)
  let options ← parts.settled.foldlM (fun options (name, value) => options.set name value)
    { debug := parts.flags.contains "debug" }
  let pattern ← wellFormed parts.pattern?
  return .layout pattern options

/-- The pattern of a command that has no options. -/
def lonePattern (args : List String) : Except Misuse String :=
  wellFormed ((({} : Known).split? args).bind Parts.pattern?)

/-- What a command is asked for by the arguments behind it. -/
def commandRequest (name : String) (args : List String) : Except Misuse Request :=
  match name with
  | "parse" => (lonePattern args).map .outline
  | "info" => (lonePattern args).map .info
  | "layout" => layoutRequest args
  | _ => .error .malformed

/-- What a command line asks for.  A `--` may stand in front of the command. -/
def request : List String → Except Misuse Request
  | "--" :: name :: args => commandRequest name args
  | name :: args => commandRequest name args
  | [] => .error .malformed

end Command
end Railroad
