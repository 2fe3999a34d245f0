/-
# A run

What a run leaves behind can be told without running it: the exit status, what was written to
either output, and the disk.  A run begins with the disk that it is given; unless another is
named its directory is empty.

The arguments and every text that is written are sequences of Unicode scalar values.  An
argument that no such text spells, with a lone surrogate in it, is not looked at.
-/

import Railroad.Command.Disk
import Railroad.Command.Response

namespace Railroad
namespace Command

/-- What a run leaves behind. -/
structure Outcome where
  /-- The exit status. -/
  status : Nat
  /-- What was written to the standard output. -/
  output : String
  /-- What was written to the standard error, but for the report of a failure. -/
  notes : String
  /-- The disk as the run leaves it. -/
  disk : Disk
  /-- Why the answer could not be saved, if it could not. -/
  failure : Option SaveError
  deriving DecidableEq, Repr

/-- The files that are left in the directory of the run, with their contents. -/
def Outcome.files (outcome : Outcome) : List (String × String) := outcome.disk.files

/-- What the delivery of a response leaves behind on a disk. -/
def Response.outcome (response : Response) (disk : Disk) : Outcome :=
  let silent : Outcome := ⟨response.status, "", response.notes, disk, none⟩
  match response.delivery with
  | .nothing => silent
  | .print text => { silent with output := text }
  | .save file text summary =>
    match disk.save file text with
    | .ok written => { silent with notes := response.notes ++ summary, disk := written }
    | .error e => { silent with status := 1, failure := some e }

/-- What a command line leaves behind on a disk; none if it does not have the form of a
command.  A file name that no file can have is found before the pattern is looked at. -/
def run (args : List String) (disk : Disk := .fresh) : Option Outcome :=
  match request args with
  | .error .malformed => none
  | .error .nulInFileName => some ⟨1, "", "", disk, some .nulInName⟩
  | .ok request => some ((respond request).outcome disk)

end Command
end Railroad
