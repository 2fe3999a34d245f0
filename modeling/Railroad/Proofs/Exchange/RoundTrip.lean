/-
# Diagrams are read as they were written

A diagram whose numbers are all finite is read from its text as itself, in every style, and any
other diagram has no text that is read (`read_write_exactly`).

What is checked part by part is good exactly under the conditions of its parts
(`Checked.Exactly`), so the condition of a diagram is that of its numbers.
-/

import Railroad.Exchange.Reader
import Railroad.Proofs.Json.RoundTrip

namespace Railroad
namespace Exchange

open Drawing

/-! ### When a checked value is good -/

namespace Checked

variable {β γ : Type}

/-- The checked value is good exactly if the condition holds, and then it is the given one. -/
def Exactly (c : Checked β) (condition : Prop) (value : β) : Prop :=
  ∀ y, c = good y ↔ condition ∧ y = value

variable {p q : Prop} {x : β}

/-- A check that is good exactly under a condition gives its value where the condition holds. -/
theorem Exactly.eq_good {c : Checked β} (h : c.Exactly p x) (hp : p) : c = good x :=
  (h x).2 ⟨hp, rfl⟩

/-- The condition may be put in other words. -/
theorem Exactly.congr {c : Checked β} (h : c.Exactly p x) (hpq : p ↔ q) : c.Exactly q x := by
  intro y
  rw [h y, hpq]

/-- A good value is good under any circumstances. -/
theorem exactly_good (x : β) : (good x).Exactly True x := by
  intro y
  rw [good.injEq, true_and, eq_comm]

/-- A value with issues is good under none. -/
theorem exactly_bad (issues : List Issue) (x : β) : (bad issues).Exactly False x := by
  intro y
  rw [false_and, iff_false]
  exact nofun

/-- Placing issues below a step does not change when there are any. -/
theorem Exactly.below {c : Checked β} (h : c.Exactly p x) (step : Step) :
    (c.below step).Exactly p x := by
  intro y
  rw [← h y]
  cases c with
  | good value => exact Iff.rfl
  | bad issues => exact iff_of_false nofun nofun

/-- A whole is good exactly if what it is made of is. -/
theorem Exactly.apply {f : Checked (β → γ)} {g : β → γ} (hf : f.Exactly p g) {c : Checked β}
    (hc : c.Exactly q x) : (f.apply c).Exactly (p ∧ q) (g x) := by
  intro z
  constructor
  · intro hz
    -- issues of the function or of the argument are issues of the result
    cases f with
    | bad issues => cases c <;> cases hz
    | good function =>
        cases c with
        | bad issues => cases hz
        | good value =>
            obtain ⟨hp, rfl⟩ := (hf function).1 rfl
            obtain ⟨hq, rfl⟩ := (hc value).1 rfl
            exact ⟨⟨hp, hq⟩, (good.inj hz).symm⟩
  · rintro ⟨⟨hp, hq⟩, rfl⟩
    rw [hf.eq_good hp, hc.eq_good hq]
    rfl

/-- A list is good exactly if each of its items is. -/
theorem Exactly.list {check : γ → Checked β} {written : β → γ} {condition : β → Prop}
    (h : ∀ x, (check (written x)).Exactly (condition x) x) (start : Nat) (xs : List β) :
    (list check start (xs.map written)).Exactly (∀ x ∈ xs, condition x) xs := by
  induction xs generalizing start with
  | nil => exact (exactly_good []).congr (by simp)
  | cons x xs ih =>
      have hcons := ((exactly_good List.cons).apply ((h x).below (.index start))).apply
        (ih (start + 1))
      exact hcons.congr (by simp)

end Checked

open Checked

/-! ### Single values -/

/-- A number that was written is read exactly if it is finite. -/
theorem number_exactly (x : Float) :
    (number (Json.real x).exchanged).Exactly (x.isFinite = true) x := by
  rw [Json.exchanged]
  by_cases h : x.isFinite = true
  · rw [if_pos h]
    exact (exactly_good x).congr (iff_of_true trivial h)
  · rw [if_neg h]
    exact (exactly_bad _ x).congr (iff_of_false id h)

/-- A text that was written is always read. -/
theorem text_exactly (s : String) : (text (Json.string s).exchanged).Exactly True s :=
  exactly_good s

/-- True and false, once written, are always read. -/
theorem flag_exactly (b : Bool) : (flag (Json.bool b).exchanged).Exactly True b :=
  exactly_good b

/-- A value with a name is always read from that name. -/
theorem named_exactly {β : Type} {ofName? : String → Option β} {name : String} {x : β}
    (h : ofName? name = some x) : (named ofName? (Json.string name).exchanged).Exactly True x := by
  rw [Json.exchanged, named, h]
  exact exactly_good x

/-! ### Fields -/

section

variable {β : Type} (fields : List (String × Json)) (name : String) {v : Json}
  {check : Json → Checked β} {p : Prop} {x : β}

/-- Writing and reading keeps the names of fields, so the same field is found. -/
theorem lookup?_exchangedFields :
    Json.lookup? name (Json.exchangedFields fields) =
      (Json.lookup? name fields).map Json.exchanged := by
  rw [Json.exchangedFields_eq_map, Json.lookup?, Json.lookup?, ← List.map_reverse,
    List.find?_map, Option.map_map, Option.map_map]
  rfl

/-- A field that was written is read exactly if its value is. -/
theorem required_exactly (h : Json.lookup? name fields = some v)
    (hv : (check v.exchanged).Exactly p x) :
    (required (Json.exchangedFields fields) name check).Exactly p x := by
  rw [required, lookup?_exchangedFields, h]
  exact hv.below _

/-- So is a field that might be missing, since it is not. -/
theorem optional_exactly (default : β) (h : Json.lookup? name fields = some v)
    (hv : (check v.exchanged).Exactly p x) :
    (optional (Json.exchangedFields fields) name default check).Exactly p x := by
  rw [optional, lookup?_exchangedFields, h]
  exact hv.below _

end

/-! ### Primitives -/

/-- A point is read exactly if its coordinates are finite. -/
theorem point_exactly (p : Point Float) :
    (point (pointJson p).exchanged).Exactly (p.x.isFinite = true ∧ p.y.isFinite = true) p := by
  let fields := [("x", Json.real p.x), ("y", Json.real p.y)]
  have h := (exactly_good Point.mk)
    |>.apply (required_exactly fields "x" rfl (number_exactly p.x))
    |>.apply (required_exactly fields "y" rfl (number_exactly p.y))
  exact h.congr (by simp only [true_and])

/-- The points of a path are read exactly if all their coordinates are finite. -/
theorem points_exactly (ps : List (Point Float)) :
    (points (Json.array (ps.map pointJson)).exchanged).Exactly
      (∀ p ∈ ps, p.x.isFinite = true ∧ p.y.isFinite = true) ps := by
  have h := Exactly.list point_exactly 0 ps
  rw [Json.exchanged, Json.exchangedItems_eq_map, List.map_map]
  exact h

/-- The numbers of a primitive, in the order of its fields. -/
def numbers : Primitive Float → List Float
  | .box b => [b.x, b.y, b.width, b.height, b.cornerRadius, b.fontSize, b.strokeWidth]
  | .caption c => [c.x, c.y, c.fontSize]
  | .path p => p.points.flatMap (fun point => [point.x, point.y]) ++ [p.strokeWidth]
  | .arrow a => [a.x, a.y, a.size]
  | .frame f => [f.x, f.y, f.width, f.height, f.strokeWidth]

/-- The fields of a primitive as they are written, the kind in front. -/
def writtenFields (p : Primitive Float) : List (String × Json) :=
  ("kind", .string p.kind.name) :: primitiveFields p

/-- A box is read exactly if its numbers are finite. -/
theorem box_exactly (b : Box Float) :
    (box (Json.exchangedFields (writtenFields (.box b)))).Exactly
      (∀ x ∈ numbers (.box b), x.isFinite = true) b := by
  let fields := writtenFields (.box b)
  -- each field is found under its name and checked by itself; the conditions add up
  have h := (exactly_good Box.mk)
    |>.apply (required_exactly fields "x" rfl (number_exactly b.x))
    |>.apply (required_exactly fields "y" rfl (number_exactly b.y))
    |>.apply (required_exactly fields "width" rfl (number_exactly b.width))
    |>.apply (required_exactly fields "height" rfl (number_exactly b.height))
    |>.apply (required_exactly fields "corner_radius" rfl (number_exactly b.cornerRadius))
    |>.apply (required_exactly fields "label" rfl (text_exactly b.label))
    |>.apply (required_exactly fields "font_size" rfl (number_exactly b.fontSize))
    |>.apply (required_exactly fields "fill" rfl (text_exactly b.fill))
    |>.apply (required_exactly fields "stroke" rfl (text_exactly b.stroke))
    |>.apply (required_exactly fields "stroke_width" rfl (number_exactly b.strokeWidth))
  exact h.congr (by simp [numbers, and_assoc])

/-- A caption is read exactly if its numbers are finite. -/
theorem caption_exactly (c : Caption Float) :
    (caption (Json.exchangedFields (writtenFields (.caption c)))).Exactly
      (∀ x ∈ numbers (.caption c), x.isFinite = true) c := by
  let fields := writtenFields (.caption c)
  have hanchor := named_exactly (Anchor.ofName?_name c.anchor)
  have h := (exactly_good Caption.mk)
    |>.apply (required_exactly fields "x" rfl (number_exactly c.x))
    |>.apply (required_exactly fields "y" rfl (number_exactly c.y))
    |>.apply (required_exactly fields "text" rfl (text_exactly c.text))
    |>.apply (required_exactly fields "font_size" rfl (number_exactly c.fontSize))
    |>.apply (optional_exactly fields "anchor" .start rfl hanchor)
    |>.apply (optional_exactly fields "fill" "#000" rfl (text_exactly c.fill))
  exact h.congr (by simp [numbers, and_assoc])

/-- A path is read exactly if its numbers, those of its points included, are finite. -/
theorem path_exactly (p : Connector Float) :
    (path (Json.exchangedFields (writtenFields (.path p)))).Exactly
      (∀ x ∈ numbers (.path p), x.isFinite = true) p := by
  let fields := writtenFields (.path p)
  have h := (exactly_good Connector.mk)
    |>.apply (required_exactly fields "points" rfl (points_exactly p.points))
    |>.apply (optional_exactly fields "curved" false rfl (flag_exactly p.curved))
    |>.apply (required_exactly fields "stroke" rfl (text_exactly p.stroke))
    |>.apply (required_exactly fields "stroke_width" rfl (number_exactly p.strokeWidth))
  refine h.congr ?_
  simp only [numbers, List.forall_mem_append, List.forall_mem_flatMap, List.forall_mem_cons]
  simp

/-- An arrowhead is read exactly if its numbers are finite. -/
theorem arrow_exactly (a : Arrow Float) :
    (arrow (Json.exchangedFields (writtenFields (.arrow a)))).Exactly
      (∀ x ∈ numbers (.arrow a), x.isFinite = true) a := by
  let fields := writtenFields (.arrow a)
  have hdirection := named_exactly (Direction.ofName?_name a.direction)
  have h := (exactly_good Arrow.mk)
    |>.apply (required_exactly fields "x" rfl (number_exactly a.x))
    |>.apply (required_exactly fields "y" rfl (number_exactly a.y))
    |>.apply (required_exactly fields "direction" rfl hdirection)
    |>.apply (required_exactly fields "size" rfl (number_exactly a.size))
    |>.apply (required_exactly fields "fill" rfl (text_exactly a.fill))
  exact h.congr (by simp [numbers, and_assoc])

/-- A frame is read exactly if its numbers are finite. -/
theorem frame_exactly (f : Frame Float) :
    (frame (Json.exchangedFields (writtenFields (.frame f)))).Exactly
      (∀ x ∈ numbers (.frame f), x.isFinite = true) f := by
  let fields := writtenFields (.frame f)
  have h := (exactly_good Frame.mk)
    |>.apply (required_exactly fields "x" rfl (number_exactly f.x))
    |>.apply (required_exactly fields "y" rfl (number_exactly f.y))
    |>.apply (required_exactly fields "width" rfl (number_exactly f.width))
    |>.apply (required_exactly fields "height" rfl (number_exactly f.height))
    |>.apply (required_exactly fields "stroke" rfl (text_exactly f.stroke))
    |>.apply (required_exactly fields "stroke_width" rfl (number_exactly f.strokeWidth))
  exact h.congr (by simp [numbers, and_assoc])

/-- The fields of a primitive are read by its kind. -/
theorem primitiveOf_exactly (p : Primitive Float) :
    (primitiveOf (Json.exchangedFields (writtenFields p)) p.kind).Exactly
      (∀ x ∈ numbers p, x.isFinite = true) p := by
  cases p with
  | box b => exact ((exactly_good Primitive.box).apply (box_exactly b)).congr (by rw [true_and])
  | caption c =>
      exact ((exactly_good Primitive.caption).apply (caption_exactly c)).congr (by rw [true_and])
  | path p => exact ((exactly_good Primitive.path).apply (path_exactly p)).congr (by rw [true_and])
  | arrow a =>
      exact ((exactly_good Primitive.arrow).apply (arrow_exactly a)).congr (by rw [true_and])
  | frame f =>
      exact ((exactly_good Primitive.frame).apply (frame_exactly f)).congr (by rw [true_and])

/-- **A primitive is read as it was written exactly if its numbers are finite.** -/
theorem primitive_exactly (p : Primitive Float) :
    (primitive (primitiveJson p).exchanged).Exactly (∀ x ∈ numbers p, x.isFinite = true) p := by
  have hkind : Json.lookup? "kind" (Json.exchangedFields (writtenFields p)) =
      some (.string p.kind.name) := by
    rw [lookup?_exchangedFields]
    cases p <;> rfl
  have hfields := (primitiveOf_exactly p).below (.field p.kind.name)
  show (primitive (.object (Json.exchangedFields (writtenFields p)))).Exactly _ p
  rw [primitive, hkind]
  dsimp only
  rw [Kind.ofName?_name]
  exact hfields

/-! ### Diagrams -/

/-- The primitives of a diagram are read exactly if all their numbers are finite. -/
theorem primitives_exactly (ps : List (Primitive Float)) :
    (primitives (Json.array (ps.map primitiveJson)).exchanged).Exactly
      (∀ p ∈ ps, ∀ x ∈ numbers p, x.isFinite = true) ps := by
  have h := Exactly.list primitive_exactly 0 ps
  rw [Json.exchanged, Json.exchangedItems_eq_map, List.map_map]
  exact h

/-- Bounds are read exactly if their sides are finite. -/
theorem bounds_exactly (b : Bounds Float) :
    (bounds (boundsJson b).exchanged).Exactly
      (∀ x ∈ [b.minX, b.minY, b.maxX, b.maxY], x.isFinite = true) b := by
  let fields := [("min_x", Json.real b.minX), ("min_y", .real b.minY), ("max_x", .real b.maxX),
    ("max_y", .real b.maxY)]
  have h := (exactly_good Bounds.mk)
    |>.apply (optional_exactly fields "min_x" 0 rfl (number_exactly b.minX))
    |>.apply (optional_exactly fields "min_y" 0 rfl (number_exactly b.minY))
    |>.apply (optional_exactly fields "max_x" 0 rfl (number_exactly b.maxX))
    |>.apply (optional_exactly fields "max_y" 0 rfl (number_exactly b.maxY))
  exact h.congr (by simp [and_assoc])

/-- A diagram all of whose numbers are finite: those of its primitives and its bounds. -/
def Finite (d : Diagram Float) : Prop :=
  ∀ x ∈ d.primitives.flatMap numbers ++ [d.bounds.minX, d.bounds.minY, d.bounds.maxX,
    d.bounds.maxY], x.isFinite = true

instance (d : Diagram Float) : Decidable (Finite d) := inferInstanceAs (Decidable (∀ x ∈ _, _))

/-- **A diagram is read exactly if it is finite.** -/
theorem diagram_exactly (d : Diagram Float) :
    (diagram (diagramJson d).exchanged).Exactly (Finite d) d := by
  let fields := [("primitives", Json.array (d.primitives.map primitiveJson)),
    ("bounds", boundsJson d.bounds)]
  have h := (exactly_good Diagram.mk)
    |>.apply (optional_exactly fields "primitives" [] rfl (primitives_exactly d.primitives))
    |>.apply (optional_exactly fields "bounds" .zero rfl (bounds_exactly d.bounds))
  refine h.congr ?_
  rw [Finite, List.forall_mem_append, List.forall_mem_flatMap, true_and]

/-! ### Texts -/

/-- A point is one container deep. -/
theorem fits_pointJson (depth : Nat) (p : Point Float) : (pointJson p).Fits (depth + 1) := by
  simp [pointJson]

/-- A primitive is at most three containers deep, a path with its points. -/
theorem fits_primitiveJson (depth : Nat) (p : Primitive Float) :
    (primitiveJson p).Fits (depth + 3) := by
  cases p <;> simp [primitiveJson, primitiveFields, fits_pointJson]

/-- A diagram is a container of containers, down to the points of its paths. -/
theorem fits_diagramJson (depth : Nat) (d : Diagram Float) : (diagramJson d).Fits (depth + 5) := by
  simp [diagramJson, boundsJson, fits_primitiveJson]

/-- **A diagram is read from its text as itself exactly if its numbers are finite**, in every
style; otherwise its text is not read as any diagram. -/
theorem read_write_exactly (style : Json.Style) (d : Diagram Float) :
    (read (write style d)).Exactly (Finite d) d := by
  have hdepth : (diagramJson d).Fits maxDepth := fits_diagramJson 195 d
  rw [read, write, Json.ofText?_text style hdepth]
  exact diagram_exactly d

/-- The compact text of a diagram comes out again after reading exactly if its numbers are
finite. -/
theorem stability_exactly (d : Diagram Float) : (stability d).Exactly (Finite d) true := by
  have h := (exactly_good fun e => write .compact e == write .compact d).apply
    (read_write_exactly .compact d)
  rw [beq_self_eq_true] at h
  exact h.congr (by rw [true_and])

/-- **Writing and reading again.**  Every diagram of finite numbers, whatever its texts are and
however many points its paths have, is read from its text as the same diagram, which is written
as the same text. -/
theorem write_read_write (style : Json.Style) {d : Diagram Float} (hd : Finite d) :
    read (write style d) = .good d ∧
      ∀ e, read (write style d) = .good e → write style e = write style d := by
  have hread : read (write style d) = .good d := (read_write_exactly style d).eq_good hd
  refine ⟨hread, fun e he => ?_⟩
  rw [hread] at he
  rw [good.inj he]

/-- A diagram with a path without points, texts that look like structure, and numbers at the
edge of the doubles. -/
def edgeCases : Diagram Float where
  primitives :=
    [.path ⟨[], true, "\"\x7d],\\\n\x01", -0.0⟩,
     .caption ⟨0.1, 5e-324, "\x7b\"kind\":null\x7d", 1.7976931348623157e308, .finish, ""⟩,
     .path ⟨[⟨1e16, -1e-5⟩, ⟨2.5, 1e23⟩], false, "é😀", 1⟩]
  bounds := ⟨-1, 0, 1, 2.5⟩

/-- The hypothesis of `write_read_write` is satisfiable: the texts and numbers at the edge of
the format come back. -/
theorem write_read_write_edgeCases :
    Finite edgeCases ∧ read (write (.indented 2) edgeCases) = .good edgeCases ∧
      ∀ e, read (write (.indented 2) edgeCases) = .good e →
        write (.indented 2) e = write (.indented 2) edgeCases := by
  have hfinite : Finite edgeCases := by decide +kernel
  exact ⟨hfinite, write_read_write (.indented 2) hfinite⟩

end Exchange
end Railroad
