/-
# How a request is answered

A response is worked out before anything is written: what goes to the standard
error, whether the diagram is printed or saved, and the exit status.  A pattern
that is too long is refused without being read, and one with an error is refused
with its report; in both cases nothing is printed and no file is touched.

Patterns and file names are named without the control sequences in them
(`Railroad.Text.printed`).  An outline shows them by their codes, but for those in
a brace quantifier, which stands there as it is; in the text of a diagram there are
none.
-/

import Railroad.Command.Request
import Railroad.Exchange.Writer
import Railroad.Layout.Draw
import Railroad.Number.Rounded
import Railroad.Pattern.Census
import Railroad.Pattern.Outline
import Railroad.Pattern.Parser
import Railroad.Pattern.Printer
import Railroad.Text.ControlSequence

namespace Railroad
namespace Command

open Pattern Drawing

/-- What happens to the result. -/
inductive Delivery where
  | nothing
  /-- Prints a text. -/
  | print (text : String)
  /-- Saves a text in a file and then writes a summary to the standard error. -/
  | save (file : String) (text : String) (summary : String)
  deriving DecidableEq, Repr

/-- The answer to a request. -/
structure Response where
  /-- The exit status, unless the delivery fails. -/
  status : Nat := 0
  /-- What goes to the standard error before the delivery. -/
  notes : String := ""
  /-- What is done with the answer. -/
  delivery : Delivery := .nothing
  deriving DecidableEq, Repr

/-- A refusal with a message. -/
def refusal (message : String) : Response :=
  { status := 1, notes := Text.printed message ++ "\n" }

/-- The length of the longest pattern that is looked at unless another is
asked for. -/
def defaultMaxLength : Int := ({} : Options).maxLength

/-- The tree of a pattern, or why the pattern is refused. -/
def load (pattern : String) (maxLength : Int) : Except Response Node :=
  if maxLength < pattern.length then
    .error (refusal ("❌ Pattern too long (" ++ toString pattern.length ++
      " characters, maximum " ++ toString maxLength ++ ")"))
  else match parse pattern with
    | .error e => .error (refusal ("❌ Syntax error:\n" ++ e.report))
    | .ok node => .ok node

/-- The answer that a loaded pattern gets. -/
def answer (pattern : String) (maxLength : Int) (reply : Node → Response) : Response :=
  match load pattern maxLength with
  | .error response => response
  | .ok node => reply node

/-- The size of a diagram in whole units. -/
def sizeText (d : Diagram Float) : String :=
  Number.wholeText d.bounds.width ++ "×" ++ Number.wholeText d.bounds.height

/-- The diagram of a tree at a font size. -/
def diagramAt (fontSize : Float) (node : Node) : Except Stray (Diagram Float) :=
  Layout.diagram { metrics := { fontSize := fontSize } } node

/-- The warning about a diagram that is wider than asked for, if it is. -/
def widthWarning (maxWidth : Float) (d : Diagram Float) : String :=
  if maxWidth < d.bounds.width then
    "⚠ Warning: Diagram width " ++ Number.wholeText d.bounds.width ++ " exceeds " ++
      Number.wholeText maxWidth ++ "\n"
  else ""

/-- The text of a diagram as it is delivered. -/
def diagramText (d : Diagram Float) : String := Exchange.write (.indented 2) d

/-- The diagram is printed with a line end, or saved without one. -/
def delivery (output : Option String) (d : Diagram Float) : Delivery :=
  match output with
  | none => .print (diagramText d ++ "\n")
  | some file =>
    .save file (diagramText d)
      ("✓ " ++ Text.printed file ++ "\n  Primitives: " ++ toString d.primitives.length ++
        "\n  Diagram size: " ++ sizeText d ++ "\n")

/-- The answer to a request for a layout.  The tree of a pattern holds no stray
object, so a pattern that is loaded has a diagram. -/
def layoutResponse (options : Options) (node : Node) : Response :=
  match diagramAt options.fontSize node with
  | .error object => refusal (Layout.undrawable object)
  | .ok d =>
    { notes := (if options.debug then node.outline else "") ++
        widthWarning options.maxWidth d
      delivery := delivery options.output d }

/-- Counts with their names, one on a line. -/
def countLines (counts : List (String × Nat)) : String :=
  String.join (counts.map fun (name, count) => "  " ++ name ++ ": " ++ toString count ++ "\n")

/-- The kinds of primitives that a diagram holds, each with its number, in the
order of their names. -/
def kindCounts (d : Diagram Float) : List (String × Nat) :=
  (Kind.all.map fun kind => (kind.name, (d.ofKind kind).length)).filter fun c => c.2 != 0

/-- The answer to a request for information. -/
def infoResponse (node : Node) : Response :=
  match node.toPattern, Layout.diagram {} node with
  | .ok pattern, .ok d =>
    let census := node.census
    { delivery := .print (
        "Pattern: " ++ Text.printed pattern ++
        "\nNodes: " ++ toString census.nodes ++
        "\nDepth: " ++ toString census.depth ++
        "\n\nNode types:\n" ++ countLines census.names ++
        "\nPrimitives:\n" ++ countLines (kindCounts d) ++
        "\nDiagram size: " ++ sizeText d ++ "\n") }
  | .error object, _ => refusal (unspellable object)
  | _, .error object => refusal (Layout.undrawable object)

/-- The answer to a request. -/
def respond : Request → Response
  | .outline pattern =>
    answer pattern defaultMaxLength fun node => { delivery := .print node.outline }
  | .info pattern => answer pattern defaultMaxLength infoResponse
  | .layout pattern options => answer pattern options.maxLength (layoutResponse options)

end Command
end Railroad
