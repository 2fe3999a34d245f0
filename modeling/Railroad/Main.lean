/-
# The command line

Draws railroad diagrams of regular expressions.  All that is decided here is
where the parts of a response go.
-/

import Railroad.Command.Path
import Railroad.Command.Response

namespace Railroad
namespace Command

/-- How the program is used. -/
def usage : String :=
  "Usage: railroad parse PATTERN\n" ++
  "       railroad info PATTERN\n" ++
  "       railroad layout PATTERN [-o FILE] [--font-size X] [--max-length N]\n" ++
  "                               [--max-width X] [--debug]\n"

/-- Writes a response and gives its exit status. -/
def deliver (response : Response) : IO UInt32 := do
  IO.eprint response.notes
  match response.delivery with
  | .nothing => return response.status.toUInt32
  | .print text =>
    IO.print text
    return response.status.toUInt32
  | .save file text summary =>
    try
      IO.FS.writeFile (plainPath file) text
      IO.eprint summary
      return response.status.toUInt32
    catch e =>
      IO.eprintln e
      return 1

end Command
end Railroad

def main (args : List String) : IO UInt32 :=
  match Railroad.Command.request args with
  | .error .malformed => do
    IO.eprint Railroad.Command.usage
    return 2
  | .error .nulInFileName => do
    IO.eprintln "A file name holds no NUL."
    return 1
  | .ok request => Railroad.Command.deliver (Railroad.Command.respond request)
