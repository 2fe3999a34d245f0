/-
# Which emitted diagrams can be read

A request that is not refused emits the text of the diagram that was laid out, on every disk, and
the text is read as this diagram exactly if the numbers of the diagram are finite
(`read_emitted`).  Any run with the exit status zero is one of a request that is not refused
(`status_eq_zero_of_run`).  A font size that is not finite is laid out with as any other, and
stands in every box of the diagram, so no diagram with a box is read again
(`not_finite_of_fontSize`).
-/

import Railroad.Proofs.Command.AllOrNothing
import Railroad.Proofs.Exchange.RoundTrip
import Railroad.Proofs.Layout.Pieces

namespace Railroad
namespace Command

open Pattern Drawing

/-! ### Runs that do not fail -/

/-- A run fails where its request is refused, whatever is on the disk. -/
theorem status_eq_zero_of_outcome {response : Response} {disk : Disk}
    (h : (response.outcome disk).status = 0) : response.status = 0 := by
  rw [Response.outcome] at h
  cases hdelivery : response.delivery with
  | nothing =>
      rw [hdelivery] at h
      exact h
  | print text =>
      rw [hdelivery] at h
      exact h
  | save path text summary =>
      rw [hdelivery] at h
      dsimp only at h
      cases hsave : disk.save path text with
      -- a text that cannot be saved leaves another status
      | error e =>
          rw [hsave] at h
          cases h
      | ok written =>
          rw [hsave] at h
          exact h

/-- A run with the exit status zero is one of a request that is not refused. -/
theorem status_eq_zero_of_run {args : List String} {request' : Request} {disk : Disk}
    {outcome : Outcome} (hrequest : request args = .ok request')
    (hrun : run args disk = some outcome) (hstatus : outcome.status = 0) :
    (respond request').status = 0 := by
  rw [run, hrequest] at hrun
  obtain rfl := Option.some.inj hrun
  exact status_eq_zero_of_outcome hstatus

/-- Only a pattern that is not too long and is read leads to the exit status zero. -/
theorem readable_of_status_eq_zero {pattern : String} {options : Options}
    (h : (respond (.layout pattern options)).status = 0) :
    pattern.length ≤ options.maxLength ∧ ∃ node, parse pattern = .ok node := by
  obtain hlong | hlength := lt_or_ge options.maxLength (pattern.length : Int)
  · rw [respond_tooLong hlong] at h
    cases h
  · refine ⟨hlength, ?_⟩
    cases hparse : parse pattern with
    | error e =>
        rw [respond_unreadable hlength hparse] at h
        cases h
    | ok node => exact ⟨node, rfl⟩

/-- The run hands out the text, whatever is on the disk: it is printed with a line end, or saved
under the path that is asked for, and no file is given anything else. -/
structure Emits (options : Options) (response : Response) (text : String) : Prop where
  /-- Where no file is asked for, the text is printed as one line. -/
  printed : options.output = none → ∀ disk, (response.outcome disk).output = text ++ "\n"
  /-- Where one is asked for, it is the text that is to be saved. -/
  saved : ∀ path, options.output = some path →
    ∃ summary, response.delivery = .save path text summary
  /-- Under the path of a file it is what the file holds. -/
  file : ∀ path, options.output = some path → ∀ disk place, Disk.NamesFile disk path place →
    (response.outcome disk).disk.entry place = some (.file text)
  /-- No place ever holds anything else that it did not hold before. -/
  others : ∀ disk place, (response.outcome disk).disk.entry place = disk.entry place ∨
    (response.outcome disk).disk.entry place = some (.file text)

/-- The text of a diagram is handed out by its delivery. -/
theorem emits_delivery (options : Options) (notes : String) (d : Diagram Float) :
    Emits options { notes := notes, delivery := delivery options.output d } (diagramText d) := by
  cases houtput : options.output with
  | none =>
      refine ⟨fun _ _ => rfl, fun path hpath => ?saved, fun path hpath => ?file,
        fun _ _ => .inl rfl⟩
      case saved => cases houtput.symm.trans hpath
      case file => cases houtput.symm.trans hpath
  | some path =>
      refine ⟨fun hnone => ?printed, ?saved, ?file, fun disk place => ?others⟩
      case printed => cases houtput.symm.trans hnone
      case saved =>
        rintro _ hpath
        obtain rfl := Option.some_inj.1 (houtput.symm.trans hpath)
        exact ⟨_, rfl⟩
      case file =>
        -- the path names a file of this disk, so saving to it succeeds
        rintro _ hpath disk place hfile
        obtain rfl := Option.some_inj.1 (houtput.symm.trans hpath)
        rw [delivery, outcome_save, Disk.save_of_namesFile hfile]
        exact disk.entry_put place _
      case others =>
        rw [delivery, outcome_save]
        cases hsave : disk.save path (diagramText d) with
        | error e => exact .inl rfl
        | ok written => exact Disk.entry_of_save hsave place

/-! ### Reading what was emitted -/

/-- **What a request emits is read as the diagram that was laid out exactly if the numbers of
the diagram are finite**, and as no other diagram in any case.  This holds for every request
that is not refused, and so for every run with the exit status zero, wherever the text is
written. -/
theorem read_emitted {args : List String} {pattern : String} {options : Options}
    (hrequest : request args = .ok (.layout pattern options))
    (hstatus : (respond (.layout pattern options)).status = 0) :
    (∀ disk, run args disk = some ((respond (.layout pattern options)).outcome disk)) ∧
    ∃ node d, parse pattern = .ok node ∧ diagramAt options.fontSize node = .ok d ∧
      Emits options (respond (.layout pattern options)) (diagramText d) ∧
      ∀ e, Exchange.read (diagramText d) = .good e ↔ Exchange.Finite d ∧ e = d := by
  refine ⟨fun disk => by rw [run, hrequest], ?_⟩
  obtain ⟨hlength, node, hparse⟩ := readable_of_status_eq_zero hstatus
  obtain ⟨d, hdiagram, -⟩ := exists_diagramAt hparse options.fontSize
  refine ⟨node, d, hparse, hdiagram, ?_, Exchange.read_write_exactly (.indented 2) d⟩
  rw [respond_readable hlength hparse hdiagram]
  exact emits_delivery options _ d

/-- The hypotheses of `read_emitted` are satisfiable: a group with a choice, at the font size that
is used unless another is asked for. -/
theorem read_emitted_group :
    request (layoutArgs "(a|[b-d]*)" [] false) = .ok (.layout "(a|[b-d]*)" {}) ∧
      (respond (.layout "(a|[b-d]*)" {})).status = 0 ∧
      (∀ disk, run (layoutArgs "(a|[b-d]*)" [] false) disk =
        some ((respond (.layout "(a|[b-d]*)" {})).outcome disk)) ∧
      ∃ node d, parse "(a|[b-d]*)" = .ok node ∧ diagramAt 14 node = .ok d ∧
        Emits {} (respond (.layout "(a|[b-d]*)" {})) (diagramText d) ∧
        ∀ e, Exchange.read (diagramText d) = .good e ↔ Exchange.Finite d ∧ e = d := by
  have hrequest : request (layoutArgs "(a|[b-d]*)" [] false) = .ok (.layout "(a|[b-d]*)" {}) :=
    request_typed "(a|[b-d]*)" false (by decide) (by decide) rfl
  have hstatus : (respond (.layout "(a|[b-d]*)" {})).status = 0 := by decide +kernel
  exact ⟨hrequest, hstatus, read_emitted hrequest hstatus⟩

/-! ### Font sizes that are not finite -/

/-- Every box that a node draws has the font size of the style. -/
theorem fontSize_of_mem_boxes {style : Layout.Style Float} {node : Node}
    {cursor finish : Point Float} {drawn : List (Primitive Float)}
    (h : Layout.Draws style node cursor drawn finish) :
    ∀ b ∈ boxes drawn, b.fontSize = style.metrics.fontSize := by
  induction h with
  | terminal look cursor =>
      intro b hb
      rw [List.mem_singleton.1 hb]
  -- the caption of a class has a size of its own, but is no box
  | charClass items negated cursor =>
      intro b hb
      rw [boxes, Layout.filterMap_caption_cons] at hb
      obtain ⟨x, label, hbox⟩ := Layout.mem_itemBoxes (mem_boxes.1 hb)
      injection hbox with hbox
      rw [hbox]
  | nil cursor =>
      intro b hb
      cases hb
  | cons _ _ ihItem ihItems =>
      rw [boxes, List.filterMap_append]
      exact List.forall_mem_append.2 ⟨ihItem, ihItems⟩
  -- the connections of the alternatives are no boxes
  | @choice alternatives cursor drawn finish _ ih =>
      intro b hb
      rw [boxes, List.filterMap_append, Layout.filterMap_flatMap_connectors, List.append_nil,
        List.filterMap_flatMap] at hb
      obtain ⟨i, hi, hb⟩ := List.mem_flatMap.1 hb
      exact ih i _ (List.getElem?_eq_getElem (List.mem_range.1 hi)) b hb
  | optional _ ih => simpa using ih
  | zeroOrMore _ ih => simpa using ih
  | oneOrMore _ ih => simpa using ih
  | counted quantifier _ ih => simpa using ih
  | group kind _ ih => simpa using ih
  | empty cursor =>
      intro b hb
      cases hb

/-- **No diagram with a box is read again at a font size that is not finite.** -/
theorem not_finite_of_fontSize {pattern : String} {node : Node} (hparse : parse pattern = .ok node)
    {fontSize : Float} (hfont : fontSize.isFinite = false) {d : Diagram Float}
    (hdiagram : diagramAt fontSize node = .ok d) {b : Box Float} (hb : b ∈ boxes d.primitives) :
    ¬ Exchange.Finite d := by
  obtain ⟨drawn, finish, hdraws⟩ := Layout.exists_draws { metrics := { fontSize := fontSize } }
    (proper_of_parse hparse) (Layout.origin _)
  have hd : .of drawn = d := Except.ok.inj (hdraws.diagram_eq.symm.trans hdiagram)
  subst hd
  have hsize : b.fontSize = fontSize := fontSize_of_mem_boxes hdraws b hb
  intro hfinite
  have hmem : b.fontSize ∈ (Diagram.of drawn).primitives.flatMap Exchange.numbers :=
    List.mem_flatMap.2 ⟨.box b, mem_boxes.1 hb, by simp [Exchange.numbers]⟩
  have htrue := hfinite b.fontSize (List.mem_append_left _ hmem)
  rw [hsize, hfont] at htrue
  cases htrue

/-- A single letter at a font size that is no number: the run prints a text with the exit status
zero, and the text is not read as any diagram. -/
theorem emitted_not_read :
    ∃ outcome text, run ["layout", "--font-size", "nan", "--", "a"] = some outcome ∧
      outcome.status = 0 ∧ outcome.output = text ++ "\n" ∧
      ∀ d, Exchange.read text ≠ .good d := by
  have hsize : real? "nan" = some (0 / 0) := by decide +kernel
  have hset : [("font-size", "nan")].foldlM
      (fun (settings : Options) v => settings.set v.1 v.2) { debug := false } =
      Except.ok { fontSize := 0 / 0 } := by
    simp [Options.set, hsize, wellFormed]
    rfl
  have hrequest : request ["layout", "--font-size", "nan", "--", "a"] =
      .ok (.layout "a" { fontSize := 0 / 0 }) :=
    request_typed "a" false (by decide) (by decide) hset
  have hparse : parse "a" = .ok (.literal "a") := by decide +kernel
  have hfont : (0 / 0 : Float).isFinite = false := by decide +kernel
  let style : Layout.Style Float := { metrics := { fontSize := 0 / 0 } }
  have hdraws := @Layout.Draws.terminal Float _ style _ _ _ _ (.literal "a") (Layout.origin style)
  have hdiagram : diagramAt (0 / 0) (.literal "a") = .ok (.of _) := hdraws.diagram_eq
  have hresponse := @respond_readable "a" { fontSize := 0 / 0 } (by decide) _ hparse _ hdiagram
  have hrun : run ["layout", "--font-size", "nan", "--", "a"] =
      some ((respond (.layout "a" { fontSize := 0 / 0 })).outcome .fresh) := by
    rw [run, hrequest]
  rw [hresponse] at hrun
  refine ⟨_, diagramText (.of _), hrun, rfl, rfl, fun d hread => ?_⟩
  -- the only box of the diagram has the font size that is no number
  refine not_finite_of_fontSize hparse hfont hdiagram (List.mem_singleton_self _) ?_
  exact ((Exchange.read_write_exactly (.indented 2) _ d).1 hread).1

end Command
end Railroad
