/-
# A layout is delivered whole or not at all

| the pattern | the output file | status | printed | the disk |
| --- | --- | --- | --- | --- |
| too long, or not read | any | 1 | nothing | as before |
| read | none is named | 0 | the text and a line end | as before |
| read | a file that may be written | 0 | nothing | the file holds the text |
| read | a directory, or in a missing one | 1 | nothing | as before |

This holds on every disk (`Railroad.Command.Disk`).  The text is that of the pattern at the font
size (`layoutText`): no other option has a part in it.  Showing the outline and warning of a
wide diagram put lines in front of the notes and do nothing else
(`respond_outcome_eq_commented`).
-/

import Railroad.Command.Run
import Railroad.Proofs.Command.Target
import Railroad.Proofs.Command.Typed
import Railroad.Proofs.Json.Controls
import Railroad.Proofs.Layout.Draws

namespace Railroad
namespace Command

open Pattern Drawing

/-! ### The text of a pattern -/

/-- The text of the diagram of a pattern at a font size; empty if the pattern is not read. -/
def layoutText (pattern : String) (fontSize : Float) : String :=
  match parse pattern with
  | .error _ => ""
  | .ok node =>
    match diagramAt fontSize node with
    | .error _ => ""
    | .ok d => diagramText d

/-- A pattern that is read has a diagram at every font size, and its text is that of the
pattern. -/
theorem exists_diagramAt {pattern : String} {node : Node} (h : parse pattern = .ok node)
    (fontSize : Float) :
    ∃ d, diagramAt fontSize node = .ok d ∧ layoutText pattern fontSize = diagramText d := by
  obtain ⟨drawn, finish, hdraws⟩ := Layout.exists_draws { metrics := { fontSize := fontSize } }
    (proper_of_parse h) (Layout.origin _)
  have hdiagram : diagramAt fontSize node = .ok (.of drawn) := hdraws.diagram_eq
  refine ⟨.of drawn, hdiagram, ?_⟩
  rw [layoutText, h]
  dsimp only
  rw [hdiagram]

/-- Nothing of the text of a pattern is a control sequence, which would not be printed. -/
theorem printed_layoutText (pattern : String) (fontSize : Float) :
    Text.printed (layoutText pattern fontSize) = layoutText pattern fontSize := by
  have hempty : Text.printed "" = "" := by
    simp [Text.printed, Text.dropControls]
  cases hparse : parse pattern with
  | error e =>
      have hnone : layoutText pattern fontSize = "" := by rw [layoutText, hparse]
      rw [hnone, hempty]
  | ok node =>
      obtain ⟨d, -, htext⟩ := exists_diagramAt hparse fontSize
      rw [htext]
      exact Json.printed_text (.indented 2) (Exchange.diagramJson d)

/-! ### Responses -/

/-- The message about a pattern that is too long. -/
def tooLongMessage (pattern : String) (maxLength : Int) : String :=
  "❌ Pattern too long (" ++ toString pattern.length ++ " characters, maximum " ++
    toString maxLength ++ ")"

section

variable {pattern : String} {options : Options}

/-- A pattern that is too long is refused before it is read. -/
theorem respond_tooLong (h : options.maxLength < pattern.length) :
    respond (.layout pattern options) = refusal (tooLongMessage pattern options.maxLength) := by
  rw [respond, answer, load, if_pos h]
  rfl

/-- A pattern with a syntax error is refused with the report of the error. -/
theorem respond_unreadable (h : pattern.length ≤ options.maxLength) {e : SyntaxError}
    (hparse : parse pattern = .error e) :
    respond (.layout pattern options) = refusal ("❌ Syntax error:\n" ++ e.report) := by
  rw [respond, answer, load, if_neg (not_lt.2 h), hparse]

/-- A pattern that is read and drawn is answered with its diagram, and all comments go to the
notes. -/
theorem respond_readable (h : pattern.length ≤ options.maxLength) {node : Node}
    (hparse : parse pattern = .ok node) {d : Diagram Float}
    (hdiagram : diagramAt options.fontSize node = .ok d) :
    respond (.layout pattern options) =
      { notes := (if options.debug then node.outline else "") ++ widthWarning options.maxWidth d
        delivery := delivery options.output d } := by
  rw [respond, answer, load, if_neg (not_lt.2 h), hparse]
  dsimp only
  rw [layoutResponse, hdiagram]

end

/-! ### Comments -/

/-- A text of whole lines, or of none. -/
def WholeLines (s : String) : Prop := s = "" ∨ s.toList.getLast? = some '\n'

/-- Whole lines one behind the other are whole lines. -/
theorem WholeLines.append {s t : String} (hs : WholeLines s) (ht : WholeLines t) :
    WholeLines (s ++ t) := by
  obtain rfl | ht := ht
  · rwa [String.append_empty]
  · refine .inr ?_
    rw [String.toList_append, List.getLast?_append, ht]
    rfl

/-- A text that is ended by a line feed is made of whole lines. -/
theorem wholeLines_append_newline (s : String) : WholeLines (s ++ "\n") := by
  refine .inr ?_
  rw [String.toList_append, List.getLast?_append]
  rfl

/-- The warning about the width is made of whole lines, or is not there. -/
theorem wholeLines_widthWarning (maxWidth : Float) (d : Diagram Float) :
    WholeLines (widthWarning maxWidth d) := by
  rw [widthWarning]
  split_ifs
  · exact wholeLines_append_newline _
  · exact .inl rfl

/-- An outline is made of whole lines. -/
theorem wholeLines_outline (node : Node) : WholeLines node.outline := by
  have hline : ∀ entries : List Entry, WholeLines (String.ofList (entries.flatMap Entry.line)) := by
    intro entries
    induction entries with
    | nil => exact .inl rfl
    | cons entry entries ih =>
        have hentry : WholeLines (String.ofList entry.line) := by
          refine .inr ?_
          rw [String.toList_ofList, Entry.line, List.getLast?_append]
          rfl
        rw [List.flatMap_cons, String.ofList_append]
        exact hentry.append ih
  exact hline _

/-- Nothing is wider than infinity. -/
theorem not_infinity_lt (x : Float) : ¬ (1 / 0 : Float) < x := by
  have hinfinity : (1 / 0 : Float) = Float.ofBits 0x7ff0000000000000 := by decide +kernel
  have hunpack : (Float.ofBits 0x7ff0000000000000).toModel.unpack = .infinity .positive := rfl
  intro h
  rw [hinfinity] at h
  have hlt : Float.Model.UnpackedFloat.lt (Float.ofBits 0x7ff0000000000000).toModel.unpack
      x.toModel.unpack = true := of_decide_eq_true h
  rw [hunpack] at hlt
  cases hx : x.toModel.unpack with
  | infinity sign =>
      rw [hx] at hlt
      cases sign <;> cases hlt
  | _ =>
      rw [hx] at hlt
      cases hlt

/-- The options without the two that only comment: no outline is shown, and no diagram is too
wide. -/
def Options.uncommented (options : Options) : Options :=
  { options with debug := false, maxWidth := 1 / 0 }

/-- Notes in front of those of a run. -/
def Outcome.commented (outcome : Outcome) (added : String) : Outcome :=
  { outcome with notes := added ++ outcome.notes }

/-- Notes in front of those of a response stand in front of those of its run. -/
theorem outcome_append_notes (added : String) (response : Response) (disk : Disk) :
    { response with notes := added ++ response.notes : Response }.outcome disk =
      (response.outcome disk).commented added := by
  rw [Response.outcome, Response.outcome, Outcome.commented]
  cases response.delivery with
  | nothing => rfl
  | print text => rfl
  | save file text summary =>
      dsimp only
      cases disk.save file text with
      | error e => rfl
      | ok written => simp [String.append_assoc]

/-- **The options that comment add whole lines in front of the notes**, and change nothing
else. -/
theorem respond_outcome_eq_commented (pattern : String) (options : Options) (disk : Disk) :
    ∃ added, WholeLines added ∧ (respond (.layout pattern options)).outcome disk =
      ((respond (.layout pattern options.uncommented)).outcome disk).commented added := by
  -- a refusal has no comments to begin with
  have hrefused : ∀ outcome : Outcome, ∃ added, WholeLines added ∧
      outcome = outcome.commented added := by
    intro outcome
    refine ⟨"", .inl rfl, ?_⟩
    rw [Outcome.commented, String.empty_append]
  -- the limits on length are the same with comments and without
  obtain hlong | hlength := lt_or_ge options.maxLength (pattern.length : Int)
  · have huncommented : options.uncommented.maxLength < pattern.length := hlong
    rw [respond_tooLong hlong, respond_tooLong huncommented]
    exact hrefused _
  · have huncommented : pattern.length ≤ options.uncommented.maxLength := hlength
    cases hparse : parse pattern with
    | error e =>
        rw [respond_unreadable hlength hparse, respond_unreadable huncommented hparse]
        exact hrefused _
    | ok node =>
        obtain ⟨d, hdiagram, -⟩ := exists_diagramAt hparse options.fontSize
        -- what is added: the outline, if asked for, and the warning about the width
        refine ⟨(if options.debug then node.outline else "") ++ widthWarning options.maxWidth d,
          ?lines, ?same⟩
        case lines =>
          refine WholeLines.append ?_ (wholeLines_widthWarning options.maxWidth d)
          split_ifs
          · exact wholeLines_outline node
          · exact .inl rfl
        -- against an infinite width nothing is too wide, so there is no warning to compare
        case same =>
          have hsilent : widthWarning (1 / 0) d = "" := if_neg (not_infinity_lt d.bounds.width)
          rw [respond_readable hlength hparse hdiagram,
            respond_readable huncommented hparse hdiagram, ← outcome_append_notes]
          simp [Options.uncommented, hsilent]

/-! ### What a run leaves behind -/

/-- What is left of a text that is saved depends on the disk and its path alone. -/
theorem outcome_save (status : Nat) (notes path text summary : String) (disk : Disk) :
    Response.outcome ⟨status, notes, .save path text summary⟩ disk =
      match disk.save path text with
      | .ok written => ⟨status, "", notes ++ summary, written, none⟩
      | .error e => ⟨1, "", notes, disk, some e⟩ :=
  rfl

/-- Where there is neither a file nor a device, a run fails and leaves the disk as it is. -/
theorem outcome_save_of_not_names {disk : Disk} {path : String}
    (h : ∀ place, ¬ disk.NamesFile path place ∧ ¬ disk.NamesDevice path place)
    (status : Nat) (notes text summary : String) :
    ∃ e, Response.outcome ⟨status, notes, .save path text summary⟩ disk =
      ⟨1, "", notes, disk, some e⟩ := by
  obtain ⟨e, herror⟩ := Disk.exists_target_eq_error h
  refine ⟨e, ?_⟩
  rw [outcome_save, Disk.save, herror]
  rfl

/-- What a request for a layout leaves behind on a disk. -/
structure AllOrNothing (pattern : String) (options : Options) (disk : Disk) (outcome : Outcome) :
    Prop where
  /-- A pattern that is too long is refused as that, whether it could be read or not. -/
  tooLong : options.maxLength < pattern.length →
    outcome = ⟨1, "", Text.printed (tooLongMessage pattern options.maxLength) ++ "\n", disk, none⟩
  /-- Any other pattern that is not read is refused with its report. -/
  unreadable : pattern.length ≤ options.maxLength → ∀ e, parse pattern = .error e →
    outcome = ⟨1, "", Text.printed ("❌ Syntax error:\n" ++ e.report) ++ "\n", disk, none⟩
  /-- Without a file the text is printed, with a line end, … -/
  printed : pattern.length ≤ options.maxLength → ∀ node, parse pattern = .ok node →
    options.output = none →
    outcome.status = 0 ∧ outcome.output = layoutText pattern options.fontSize ++ "\n" ∧
      outcome.disk = disk
  /-- … and with one it is all that the file holds, and nothing else changes. -/
  saved : pattern.length ≤ options.maxLength → ∀ node, parse pattern = .ok node →
    ∀ path place, options.output = some path → disk.NamesFile path place →
    outcome.status = 0 ∧ outcome.output = "" ∧
      outcome.disk.entry place = some (.file (layoutText pattern options.fontSize)) ∧
      ∀ other, other ≠ place → outcome.disk.entry other = disk.entry other
  /-- In an empty directory it is the only file. -/
  alone : pattern.length ≤ options.maxLength → ∀ node, parse pattern = .ok node →
    ∀ path name, options.output = some path → disk.NamesFile path (disk.start ++ [name]) →
    disk.files = [] → outcome.files = [(name, layoutText pattern options.fontSize)]
  /-- In the place of a directory, or in a missing one, nothing is left. -/
  unsaved : pattern.length ≤ options.maxLength → ∀ node, parse pattern = .ok node →
    ∀ path, options.output = some path →
    disk.NamesDirectory path ∨ disk.InMissingDirectory path →
    outcome.status = 1 ∧ outcome.output = "" ∧ outcome.disk = disk
  /-- Nor is anything left where a file cannot be for any other reason. -/
  denied : pattern.length ≤ options.maxLength → ∀ node, parse pattern = .ok node →
    ∀ path, options.output = some path →
    (∀ place, ¬ disk.NamesFile path place ∧ ¬ disk.NamesDevice path place) →
    outcome.status = 1 ∧ outcome.output = "" ∧ outcome.disk = disk
  /-- A device is handed the same text. -/
  device : pattern.length ≤ options.maxLength → ∀ node, parse pattern = .ok node →
    ∀ path place, options.output = some path → disk.NamesDevice path place →
    outcome.status = 0 ∧ outcome.output = "" ∧ outcome.disk = disk ∧
      ∃ summary, (respond (.layout pattern options)).delivery =
        .save path (layoutText pattern options.fontSize) summary
  /-- The text is that of the diagram at the font size. -/
  text : ∀ node, parse pattern = .ok node → ∃ d, diagramAt options.fontSize node = .ok d ∧
    layoutText pattern options.fontSize = diagramText d
  /-- None of it is lost where it is printed. -/
  whole : Text.printed (layoutText pattern options.fontSize) = layoutText pattern options.fontSize
  /-- The options that comment add whole lines to the notes, and change nothing else. -/
  comments : ∃ added, WholeLines added ∧
    outcome = ((respond (.layout pattern options.uncommented)).outcome disk).commented added

/-- **A layout is delivered whole or not at all.**  Whatever pattern and options a command line
asks a layout for, and whatever is on the disk: a pattern that is too long or not read leaves a
refusal only, and of any other the text is printed, or is in the file, or nothing is left; and
the text is the same under all options but the font size. -/
theorem run_layout {args : List String} {pattern : String} {options : Options}
    (h : request args = .ok (.layout pattern options)) (disk : Disk) :
    ∃ outcome, run args disk = some outcome ∧ AllOrNothing pattern options disk outcome := by
  refine ⟨(respond (.layout pattern options)).outcome disk, by rw [run, h], ?_⟩
  refine
    { tooLong := fun hlong => ?tooLong
      unreadable := fun hlength e hparse => ?unreadable
      printed := fun hlength node hparse houtput => ?printed
      saved := fun hlength node hparse path place houtput hfile => ?saved
      alone := fun hlength node hparse path name houtput hfile hempty => ?alone
      unsaved := fun hlength node hparse path houtput hnone => ?unsaved
      denied := fun hlength node hparse path houtput hnone => ?denied
      device := fun hlength node hparse path place houtput hdevice => ?device
      text := fun node hparse => exists_diagramAt hparse options.fontSize
      whole := printed_layoutText pattern options.fontSize
      comments := respond_outcome_eq_commented pattern options disk }
  case tooLong =>
    rw [respond_tooLong hlong]
    rfl
  case unreadable =>
    rw [respond_unreadable hlength hparse]
    rfl
  -- what is left is about a pattern that is read, and so has a diagram
  all_goals
    obtain ⟨d, hdiagram, htext⟩ := exists_diagramAt hparse options.fontSize
    rw [respond_readable hlength hparse hdiagram, houtput]
  case printed =>
    rw [htext]
    exact ⟨rfl, rfl, rfl⟩
  case saved =>
    rw [htext, delivery, outcome_save, Disk.save_of_namesFile hfile]
    exact ⟨rfl, rfl, disk.entry_put place _, fun other hother => disk.entry_put_of_ne _ hother⟩
  case alone =>
    rw [htext, delivery, outcome_save, Disk.save_of_namesFile hfile]
    exact Disk.files_put hempty _
  -- what names a directory, or something in a directory that is missing, names no file
  case unsaved =>
    have hnot := hnone.elim Disk.NamesDirectory.not_names Disk.InMissingDirectory.not_names
    obtain ⟨e, herror⟩ := outcome_save_of_not_names hnot 0 _ _ _
    rw [delivery, herror]
    exact ⟨rfl, rfl, rfl⟩
  case denied =>
    obtain ⟨e, herror⟩ := outcome_save_of_not_names hnone 0 _ _ _
    rw [delivery, herror]
    exact ⟨rfl, rfl, rfl⟩
  case device =>
    rw [htext, delivery, outcome_save, Disk.save_of_namesDevice hdevice]
    exact ⟨rfl, rfl, rfl, _, rfl⟩

/-- The hypothesis of `run_layout` is satisfiable, and there are files, directories and missing
directories: a pattern that looks like an option is laid out into a file in a directory that
exists, with its outline and a warning. -/
theorem run_layout_dashes :
    request (layoutArgs "--|a" [("output", "/tmp/d.json"), ("max-width", "50")] true) =
        .ok (.layout "--|a" { output := some "/tmp/d.json", maxWidth := 50, debug := true }) ∧
      (Disk.fresh.NamesFile "/tmp/d.json" ["tmp", "d.json"] ∧ Disk.fresh.NamesDirectory "/tmp" ∧
        Disk.fresh.InMissingDirectory "/none/d.json") ∧
      ∃ outcome, run (layoutArgs "--|a" [("output", "/tmp/d.json"), ("max-width", "50")] true)
          .fresh = some outcome ∧
        AllOrNothing "--|a" { output := some "/tmp/d.json", maxWidth := 50, debug := true }
          .fresh outcome := by
  have hwidth : real? "50" = some 50 := by decide +kernel
  have hset : [("output", "/tmp/d.json"), ("max-width", "50")].foldlM
      (fun (settings : Options) v => settings.set v.1 v.2) { debug := true } =
      Except.ok { output := some "/tmp/d.json", maxWidth := 50, debug := true } := by
    simp [Options.set, hwidth, wellFormed]
    rfl
  have hrequest := request_typed "--|a" true (by decide) (by decide) hset
  have hsteps : steps "/tmp/d.json" = ["tmp", "d.json"] := by decide +kernel
  have hway : Disk.fresh.way "/tmp/d.json" = [[], ["tmp"]] := by decide +kernel
  -- the path of a new file in a directory that can be extended
  have hfile : Disk.fresh.NamesFile "/tmp/d.json" ["tmp", "d.json"] :=
    { size := by decide +kernel
      short := by
        rw [hsteps]
        decide +kernel
      named := ⟨"d.json", by rw [hsteps]; rfl, by decide⟩
      passable := by
        rw [hway]
        intro directory hdirectory
        refine ⟨true, ?_⟩
        simp only [List.mem_cons, List.not_mem_nil, or_false] at hdirectory
        obtain rfl | rfl := hdirectory <;> rfl
      placeOf_eq := by decide +kernel
      free := .inr ⟨rfl, true, rfl⟩ }
  -- the path of a directory, and one through a directory that is not there
  have hdirectory : Disk.fresh.NamesDirectory "/tmp" := ⟨true, true, by decide +kernel⟩
  have hmissing : Disk.fresh.InMissingDirectory "/none/d.json" :=
    ⟨["none"], by decide +kernel, rfl⟩
  exact ⟨hrequest, ⟨hfile, hdirectory, hmissing⟩, run_layout hrequest .fresh⟩

end Command
end Railroad
