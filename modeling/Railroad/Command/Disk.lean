/-
# The disk that a run finds

A run is given a disk, which says what is kept where and what may be done with it, and leaves
a disk behind.  Which places are directories, which files there are, and what may be written
is the disk's: nothing is taken for granted here.

| at the end of the path | in its directory | a text that is saved there |
| --- | --- | --- |
| a file that may be written | | takes the place of what the file holds |
| nothing | files may be added | is a new file |
| a device | | is taken and not kept |
| a directory, or no name at all | | is refused: `isDirectory` |
| anything | is missing, or lies in a missing one | is refused: `noSuchDirectory` |

Everything else is refused by the system for reasons of its own (`refused`).

All that is on a disk may be read: something that is there and may not be read is no valid
output file, and a command line that names it is not looked at.  A text that the system begins
to write is written to its end, no place leads to another one, and nobody else writes on the
disk.
-/

import Railroad.Command.Path

namespace Railroad
namespace Command

/-- Why a file cannot be saved. -/
inductive SaveError where
  /-- The name of the file holds a NUL. -/
  | nulInName
  /-- The system refuses the file: a step or the path is too long, a file stands where a
  directory should be, or something may not be passed or written. -/
  | refused
  /-- A directory on the way to the file does not exist. -/
  | noSuchDirectory
  /-- The path is that of a directory. -/
  | isDirectory
  deriving DecidableEq, Repr

/-- A step or a path that is too long is refused by the system. -/
@[match_pattern]
abbrev SaveError.nameTooLong : SaveError := .refused

/-- A place on a disk: the names on the way to it from the root. -/
abbrev Place := List String

/-- Where a step leads from a place. -/
def Place.step (place : Place) (name : String) : Place :=
  if name == ".." then place.dropLast else place ++ [name]

/-- The name of a place in a directory, if it is in there. -/
def Place.nameIn (place directory : Place) : Option String :=
  if place.dropLast == directory then place.getLast? else none

/-- What is kept at a place, and what a run may do with it. -/
inductive Kept where
  /-- A directory: whether steps may be taken from it, and whether files may be added. -/
  | directory (passable : Bool := true) (extensible : Bool := true)
  /-- A file with what it holds: whether it may be overwritten. -/
  | file (text : String) (writable : Bool := true)
  /-- A device that takes every text and keeps none. -/
  | device
  deriving DecidableEq, Repr

/-- A disk: what is kept at its places, and the place that a run is started from. -/
structure Disk where
  /-- What is kept, each thing at its place. -/
  entries : List (Place × Kept)
  /-- The directory that relative paths start from. -/
  start : Place
  /-- No place keeps two things. -/
  once : (entries.map Prod.fst).Nodup := by decide
  deriving DecidableEq, Repr

namespace Disk

variable (disk : Disk)

/-- What is kept at a place. -/
def entry (place : Place) : Option Kept := disk.entries.lookup place

/-- The place that the first step of a path is taken from. -/
def base (path : String) : Place := if isAbsolute path then [] else disk.start

/-- The place of the file that steps from a place lead to.  Every step is taken from a
directory, and the last one has to be a name. -/
def follow (place : Place) : List String → Except SaveError Place
  | [] => .error .isDirectory
  | step :: rest =>
    match disk.entry place with
    | none => .error .noSuchDirectory
    | some (.directory true _) =>
      if maxNameSize < step.utf8ByteSize then .error .nameTooLong
      else if step != ".." && rest.isEmpty then .ok (place.step step)
      else follow (place.step step) rest
    | some _ => .error .refused

/-- The place itself, if a text may be written there. -/
def accept (place : Place) : Except SaveError Place :=
  match disk.entry place with
  | some (.directory _ _) => .error .isDirectory
  | some (.file _ false) => .error .refused
  | some (.file _ true) => .ok place
  | some .device => .ok place
  | none =>
    match disk.entry place.dropLast with
    | some (.directory _ true) => .ok place
    | _ => .error .refused

/-- Where a text that is saved under a path is written. -/
def target (path : String) : Except SaveError Place :=
  if maxPathSize < (plainPath path).utf8ByteSize then .error .nameTooLong
  else (disk.follow (disk.base path) (steps path)).bind disk.accept

/-- The disk with one more file, or with another text in a file. -/
def put (place : Place) (text : String) : Disk where
  entries := (place, .file text) :: disk.entries.filter fun e => e.1 != place
  start := disk.start
  once := by
    have hkept : ((disk.entries.filter fun e => e.1 != place).map Prod.fst).Nodup :=
      disk.once.sublist (List.filter_sublist.map Prod.fst)
    refine List.nodup_cons.2 ⟨fun hmem => ?_, hkept⟩
    obtain ⟨e, he, heq⟩ := List.mem_map.1 hmem
    have hne := (List.mem_filter.1 he).2
    exact absurd heq (by simpa using hne)

/-- The disk after a text is written at a place. -/
def write (place : Place) (text : String) : Disk :=
  match disk.entry place with
  | some .device => disk
  | _ => disk.put place text

/-- The disk after a text is saved under a path, or why it cannot be saved. -/
def save (path text : String) : Except SaveError Disk :=
  (disk.target path).map fun place => disk.write place text

/-- The files in the directory of the run: their names, and what they hold. -/
def files : List (String × String) :=
  disk.entries.filterMap fun
    | (place, .file text _) => (place.nameIn disk.start).map fun name => (name, text)
    | _ => none

/-- A disk with an empty directory for the run, and a null device. -/
def fresh : Disk where
  entries :=
    [([], .directory), (["dev"], .directory), (["dev", "null"], .device),
      (["tmp"], .directory), (["tmp", "run"], .directory)]
  start := ["tmp", "run"]

end Disk

end Command
end Railroad
