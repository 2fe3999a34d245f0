/-
# The paths of output files

The name of an output file is a path.  Its steps are taken one after the other, from the
directory of the run, or from the root if a slash stands in front.

* Empty steps and `.` lead nowhere, and are left out (`plainPath`).  In front of the first step
  more than two slashes are one.
* `..` leads to the directory above; the root is above itself.
* Any other step is the name of something in the directory it is taken from.

A name has at most 255 bytes, and a path at most 4095.  Where the steps lead is a matter of
what is on the disk (`Railroad.Command.Disk`).
-/

namespace Railroad
namespace Command

/-- The steps of a path that lead somewhere. -/
def steps (path : String) : List String :=
  ((path.toList.splitOn '/').map String.ofList).filter fun step => step != "" && step != "."

/-- Whether a path starts at the root. -/
def isAbsolute (path : String) : Bool := path.toList.head? == some '/'

/-- The slashes in front of a plain path: none, one, or exactly two. -/
def root (path : String) : String :=
  match (path.toList.takeWhile (· == '/')).length with
  | 0 => ""
  | 2 => "//"
  | _ => "/"

/-- A path with one slash between any two steps and none behind them; `.` without any
step. -/
def plainPath (path : String) : String :=
  let plain := root path ++ "/".intercalate (steps path)
  if plain == "" then "." else plain

/-- The most bytes that a name may have. -/
def maxNameSize : Nat := 255

/-- The most bytes that a path may have. -/
def maxPathSize : Nat := 4095

end Command
end Railroad
