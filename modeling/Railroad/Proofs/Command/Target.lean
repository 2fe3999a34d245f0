/-
# Where a path leads

Whatever is on the disk, where a path leads is told by the places on its way
(`Disk.way`) and by what is kept at its end (`Disk.placeOf`):

| on the way | at the end | the path | is a text saved? |
| --- | --- | --- | --- |
| directories | a file, or nothing yet, that may be written | of a file (`NamesFile`) | yes |
| directories | a device | of a device (`NamesDevice`) | it is taken, and not kept |
| | a directory | of a directory (`NamesDirectory`) | no |
| something missing | | in a missing directory (`InMissingDirectory`) | no |

The first two are all paths under which a text can be saved (`target_eq_ok_iff`), and what is
saved changes the disk at the place of the path and nowhere else (`entry_put_of_ne`).  The files
of a run are what is kept in its directory (`mem_files_iff`).
-/

import Mathlib.Data.List.Basic
import Mathlib.Tactic.SplitIfs
import Railroad.Command.Disk

namespace Railroad
namespace Command

namespace Disk

variable {disk : Disk} {path text : String} {place other : Place}

/-! ### Paths on a disk -/

/-- Whether steps can be taken from a place. -/
def Passable (disk : Disk) (place : Place) : Prop :=
  ∃ extensible, disk.entry place = some (.directory true extensible)

/-- Whether a file can be written at a place: there is one that may be overwritten, or none yet
in a directory to which files may be added. -/
def Free (disk : Disk) (place : Place) : Prop :=
  (∃ text, disk.entry place = some (.file text true)) ∨
    disk.entry place = none ∧
      ∃ passable, disk.entry place.dropLast = some (.directory passable true)

/-- The place that all steps of a path together lead to. -/
def placeOf (disk : Disk) (path : String) : Place :=
  (steps path).foldl Place.step (disk.base path)

/-- The places that the steps of a path are taken from. -/
def way (disk : Disk) (path : String) : List Place :=
  (steps path).dropLast.scanl Place.step (disk.base path)

/-- The path leads to a place by its name in a directory, through directories only. -/
structure Names (disk : Disk) (path : String) (place : Place) : Prop where
  /-- The path as a whole is not too long, … -/
  size : (plainPath path).utf8ByteSize ≤ maxPathSize
  /-- … nor is any of its names. -/
  short : ∀ step ∈ steps path, step.utf8ByteSize ≤ maxNameSize
  /-- It ends with a name, not with a step back. -/
  named : ∃ name, (steps path).getLast? = some name ∧ name ≠ ".."
  /-- All directories on its way are there, and may be passed. -/
  passable : ∀ directory ∈ disk.way path, disk.Passable directory
  /-- It leads to the place. -/
  placeOf_eq : disk.placeOf path = place

/-- The path names a plain file that can be written. -/
structure NamesFile (disk : Disk) (path : String) (place : Place) : Prop
    extends disk.Names path place where
  /-- There is a file that may be written, or nothing in a directory that may be extended. -/
  free : disk.Free place

/-- The path names a device. -/
structure NamesDevice (disk : Disk) (path : String) (place : Place) : Prop
    extends disk.Names path place where
  /-- There is a device. -/
  device : disk.entry place = some .device

/-- The path names a directory. -/
def NamesDirectory (disk : Disk) (path : String) : Prop :=
  ∃ passable extensible, disk.entry (disk.placeOf path) = some (.directory passable extensible)

/-- The path leads through a directory that does not exist. -/
def InMissingDirectory (disk : Disk) (path : String) : Prop :=
  ∃ directory ∈ disk.way path, disk.entry directory = none

/-! ### Steps -/

/-- A step that is taken from a directory and is not the last leads on. -/
theorem follow_of_passable {name : String} {names : List String} (h : disk.Passable place)
    (hshort : name.utf8ByteSize ≤ maxNameSize) :
    disk.follow place (name :: names) =
      if name ≠ ".." ∧ names = [] then .ok (place.step name)
      else disk.follow (place.step name) names := by
  obtain ⟨extensible, hentry⟩ := h
  rw [follow, hentry]
  dsimp only
  rw [if_neg (Nat.not_lt.2 hshort)]
  by_cases hlast : name ≠ ".." ∧ names = []
  · rw [if_pos hlast, if_pos (by simpa using hlast)]
  · rw [if_neg hlast, if_neg (by simpa using hlast)]

/-- No step is taken from anything but a directory, and none that is too long. -/
theorem follow_of_not_passable {name : String}
    (h : ¬ (disk.Passable place ∧ name.utf8ByteSize ≤ maxNameSize)) (names : List String) :
    ∃ e, disk.follow place (name :: names) = .error e := by
  rw [follow]
  split
  · exact ⟨_, rfl⟩
  · rename_i extensible hentry
    have hlong : maxNameSize < name.utf8ByteSize :=
      Nat.not_le.1 fun hshort => h ⟨⟨extensible, hentry⟩, hshort⟩
    rw [if_pos hlong]
    exact ⟨_, rfl⟩
  · exact ⟨_, rfl⟩

/-- **Steps lead to a file through directories only**, by names that are not too long. -/
theorem follow_eq_ok_iff {names : List String} {start : Place} :
    disk.follow start names = .ok place ↔
      (∃ name, names.getLast? = some name ∧ name ≠ "..") ∧
      (∀ name ∈ names, name.utf8ByteSize ≤ maxNameSize) ∧
      (∀ directory ∈ names.dropLast.scanl Place.step start, disk.Passable directory) ∧
      names.foldl Place.step start = place := by
  induction names generalizing start with
  | nil => exact ⟨fun h => (by cases h), fun ⟨⟨name, hname, _⟩, _⟩ => by cases hname⟩
  | cons name names ih =>
      by_cases hstep : disk.Passable start ∧ name.utf8ByteSize ≤ maxNameSize
      -- the way ends at the start, which is the first of the directories to be passed
      case neg =>
        obtain ⟨e, he⟩ := follow_of_not_passable hstep names
        rw [he]
        refine ⟨fun h => (by cases h), fun ⟨_, hshort, hpassable, _⟩ => (hstep ⟨?_, ?_⟩).elim⟩
        · refine hpassable start ?_
          cases names <;> simp [List.scanl_cons]
        · exact hshort name List.mem_cons_self
      -- from here on the first step is taken; only the last name may not lead back
      rw [follow_of_passable hstep.1 hstep.2]
      cases names with
      | nil =>
          by_cases habove : name = ".."
          · rw [if_neg fun h => h.1 habove]
            refine ⟨fun h => (by cases h), fun ⟨⟨last, hlast, hne⟩, _⟩ => ?_⟩
            exact absurd ((Option.some.inj hlast).symm.trans habove) hne
          · rw [if_pos ⟨habove, rfl⟩]
            simp [habove, hstep.1, hstep.2]
      | cons next names =>
          rw [if_neg fun h => (by cases h.2), ih]
          simp [hstep.1, hstep.2, List.scanl_cons]

/-! ### Paths -/

/-- What may be written at a place: a file or a device. -/
theorem accept_eq_ok_iff :
    disk.accept place = .ok other ↔
      (disk.Free place ∨ disk.entry place = some .device) ∧ place = other := by
  rw [accept, Free]
  -- what is there may be taken, and where nothing is the directory around it decides
  cases hentry : disk.entry place with
  | none =>
      cases hparent : disk.entry place.dropLast with
      | none => simp
      | some kept =>
          cases kept with
          | directory passable extensible => cases extensible <;> simp
          | _ => simp
  | some kept =>
      cases kept with
      | file text writable => cases writable <;> simp
      | _ => simp

/-- **A text can be saved under the paths of files and devices**, and under no other. -/
theorem target_eq_ok_iff :
    disk.target path = .ok place ↔ disk.NamesFile path place ∨ disk.NamesDevice path place := by
  -- a path has a target exactly if it names a place, and what is there can be written
  have hnames : disk.target path = .ok place ↔
      disk.Names path place ∧ (disk.Free place ∨ disk.entry place = some .device) := by
    rw [target]
    split_ifs with hlong
    · exact ⟨fun h => (by cases h), fun h => absurd h.1.size (Nat.not_le.2 hlong)⟩
    constructor
    · intro h
      cases hfollow : disk.follow (disk.base path) (steps path) with
      | error e =>
          rw [hfollow] at h
          cases h
      | ok reached =>
          rw [hfollow] at h
          obtain ⟨hfree, rfl⟩ := accept_eq_ok_iff.1 h
          obtain ⟨hnamed, hshort, hpassable, hplace⟩ := follow_eq_ok_iff.1 hfollow
          exact ⟨⟨Nat.not_lt.1 hlong, hshort, hnamed, hpassable, hplace⟩, hfree⟩
    · rintro ⟨h, hfree⟩
      rw [follow_eq_ok_iff.2 ⟨h.named, h.short, h.passable, h.placeOf_eq⟩]
      exact accept_eq_ok_iff.2 ⟨hfree, rfl⟩
  rw [hnames]
  constructor
  · rintro ⟨h, hfree | hdevice⟩
    · exact .inl ⟨h, hfree⟩
    · exact .inr ⟨h, hdevice⟩
  · rintro (h | h)
    · exact ⟨h.toNames, .inl h.free⟩
    · exact ⟨h.toNames, .inr h.device⟩

/-- There is no file under a path that names neither a file nor a device. -/
theorem exists_target_eq_error
    (h : ∀ place, ¬ disk.NamesFile path place ∧ ¬ disk.NamesDevice path place) :
    ∃ e, disk.target path = .error e := by
  cases htarget : disk.target path with
  | error e => exact ⟨e, rfl⟩
  | ok place =>
      obtain hfile | hdevice := target_eq_ok_iff.1 htarget
      · exact absurd hfile (h place).1
      · exact absurd hdevice (h place).2

/-- A directory is neither a file nor a device. -/
theorem NamesDirectory.not_names (h : disk.NamesDirectory path) (place : Place) :
    ¬ disk.NamesFile path place ∧ ¬ disk.NamesDevice path place := by
  obtain ⟨passable, extensible, hentry⟩ := h
  refine ⟨fun hfile => ?_, fun hdevice => ?_⟩
  · rw [hfile.placeOf_eq] at hentry
    obtain ⟨text, hother⟩ | ⟨hother, -⟩ := hfile.free <;>
      exact absurd (hentry.symm.trans hother) (by simp)
  · rw [hdevice.placeOf_eq, hdevice.device] at hentry
    cases hentry

/-- There is nothing in a directory that does not exist. -/
theorem InMissingDirectory.not_names (h : disk.InMissingDirectory path) (place : Place) :
    ¬ disk.NamesFile path place ∧ ¬ disk.NamesDevice path place := by
  obtain ⟨directory, hway, hmissing⟩ := h
  have hnames : ¬ disk.Names path place := fun hnames => by
    obtain ⟨extensible, hentry⟩ := hnames.passable directory hway
    exact absurd (hmissing.symm.trans hentry) (by simp)
  exact ⟨fun hfile => hnames hfile.toNames, fun hdevice => hnames hdevice.toNames⟩

/-! ### What is written -/

/-- What is kept at a place is its entry, since no place has two. -/
theorem entry_eq_some_iff {kept : Kept} :
    disk.entry place = some kept ↔ (place, kept) ∈ disk.entries := by
  have hlookup : ∀ entries : List (Place × Kept), (entries.map Prod.fst).Nodup →
      (entries.lookup place = some kept ↔ (place, kept) ∈ entries) := by
    intro entries honce
    induction entries with
    | nil => simp
    | cons e entries ih =>
        obtain ⟨first, held⟩ := e
        rw [List.map_cons, List.nodup_cons] at honce
        rw [List.lookup_cons, List.mem_cons]
        by_cases hfirst : place = first
        · obtain rfl := hfirst
          have hrest : (place, kept) ∉ entries := fun hmem =>
            honce.1 (List.mem_map.2 ⟨_, hmem, rfl⟩)
          simp [hrest, eq_comm]
        · rw [beq_false_of_ne hfirst]
          simp [hfirst, ih honce.2]
  exact hlookup disk.entries disk.once

/-- A text that is put at a place is there. -/
theorem entry_put (disk : Disk) (place : Place) (text : String) :
    (disk.put place text).entry place = some (.file text) :=
  entry_eq_some_iff.2 List.mem_cons_self

/-- Nothing changes at any other place. -/
theorem entry_put_of_ne (disk : Disk) (text : String) (h : other ≠ place) :
    (disk.put place text).entry other = disk.entry other := by
  refine Option.ext fun kept => ?_
  rw [entry_eq_some_iff, entry_eq_some_iff]
  simp [put, h]

/-- What is saved under the path of a file is put at its place. -/
theorem save_of_namesFile (h : disk.NamesFile path place) (text : String) :
    disk.save path text = .ok (disk.put place text) := by
  rw [save, target_eq_ok_iff.2 (.inl h)]
  show Except.ok (disk.write place text) = _
  rw [write]
  split
  · rename_i hdevice
    obtain ⟨kept, hfile⟩ | ⟨hnone, -⟩ := h.free
    · exact absurd (hdevice.symm.trans hfile) (by simp)
    · exact absurd (hdevice.symm.trans hnone) (by simp)
  · rfl

/-- What is saved under the path of a device changes nothing. -/
theorem save_of_namesDevice (h : disk.NamesDevice path place) (text : String) :
    disk.save path text = .ok disk := by
  rw [save, target_eq_ok_iff.2 (.inr h)]
  show Except.ok (disk.write place text) = _
  rw [write, h.device]

/-- Only the text is written on a disk, if anything. -/
theorem entry_of_save {written : Disk} (h : disk.save path text = .ok written) (other : Place) :
    written.entry other = disk.entry other ∨ written.entry other = some (.file text) := by
  cases htarget : disk.target path with
  | error e =>
      rw [save, htarget] at h
      cases h
  | ok place =>
      obtain hfile | hdevice := target_eq_ok_iff.1 htarget
      · obtain rfl := Except.ok.inj ((save_of_namesFile hfile text).symm.trans h)
        by_cases hother : other = place
        · rw [hother]
          exact .inr (disk.entry_put place text)
        · exact .inl (disk.entry_put_of_ne text hother)
      · obtain rfl := Except.ok.inj ((save_of_namesDevice hdevice text).symm.trans h)
        exact .inl rfl

/-! ### The directory of the run -/

/-- The name of a place in a directory is the last one on the way to it. -/
theorem nameIn_eq_some_iff {directory : Place} {name : String} :
    place.nameIn directory = some name ↔ place = directory ++ [name] := by
  rw [Place.nameIn]
  constructor
  · intro h
    split at h
    · rename_i hdirectory
      obtain ⟨names, rfl⟩ := List.getLast?_eq_some_iff.1 h
      rw [List.dropLast_concat, beq_iff_eq] at hdirectory
      rw [hdirectory]
    · cases h
  · rintro rfl
    rw [List.dropLast_concat, beq_self_eq_true, List.getLast?_concat]
    rfl

/-- **The files of a run are those that are kept in its directory**, under their names. -/
theorem mem_files_iff {name : String} :
    (name, text) ∈ disk.files ↔
      ∃ writable, disk.entry (disk.start ++ [name]) = some (.file text writable) := by
  simp only [files, entry_eq_some_iff, List.mem_filterMap]
  constructor
  · rintro ⟨⟨place, kept⟩, hmem, hfile⟩
    cases kept with
    | file held writable =>
        obtain ⟨found, hname, heq⟩ := Option.map_eq_some_iff.1 hfile
        obtain ⟨rfl, rfl⟩ := Prod.mk.inj heq
        rw [← nameIn_eq_some_iff.1 hname]
        exact ⟨writable, hmem⟩
    | _ => cases hfile
  · rintro ⟨writable, hmem⟩
    refine ⟨_, hmem, ?_⟩
    dsimp only
    rw [nameIn_eq_some_iff.2 rfl]
    rfl

/-- The file that is put in an empty directory of the run is the only one in it. -/
theorem files_put (hempty : disk.files = []) {name : String} (text : String) :
    (disk.put (disk.start ++ [name]) text).files = [(name, text)] := by
  rw [files, put, List.filterMap_cons]
  dsimp only
  rw [nameIn_eq_some_iff.2 rfl]
  simp only [Option.map_some, List.cons.injEq, true_and]
  refine List.filterMap_eq_nil_iff.2 fun e he => ?_
  exact List.filterMap_eq_nil_iff.1 hempty e (List.mem_of_mem_filter he)

end Disk

end Command
end Railroad
