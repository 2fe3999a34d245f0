/-
# The font size

A larger font makes boxes wider.  Two things follow for the diagram of a pattern:

* it is stretched to the right (`Draws.stretches`): no `y` coordinate and no height changes,
  and nothing ends further to the left;
* its left side stays where it is (`Draws.edgeAt`): what reaches furthest to the left is at a
  distance from the origin that the tree alone tells.

So the bounds change on the right side alone, and the diagram does not get narrower
(`font_stretches`).  The font has to be no smaller than that of captions; else the caption of
a class may reach to the left of the class.
-/

import Railroad.Proofs.Layout.LeftEdge
import Railroad.Proofs.Layout.Stretch

namespace Railroad
namespace Layout

open Pattern Drawing

/-- Metrics stay in balance with another font, if it is no smaller than that of captions. -/
theorem Metrics.Balanced.withFontSize {style : Style ℚ} (h : style.metrics.Balanced) {size : ℚ}
    (hsize : style.metrics.captionSize ≤ size) : (style.withFontSize size).metrics.Balanced :=
  { h with
    fontSize := h.captionSize.trans hsize
    captionSize_le := hsize }

/-- How the diagrams of one tree with a smaller and a larger font compare. -/
structure StretchedDiagram (small large : Diagram ℚ) : Prop where
  /-- Three sides of the bounds stay where they are, … -/
  minX : small.bounds.minX = large.bounds.minX
  /-- The upper side is the same, … -/
  minY : small.bounds.minY = large.bounds.minY
  /-- … and so is the lower one. -/
  maxY : small.bounds.maxY = large.bounds.maxY
  /-- … and what is between the left side and the right one does not get narrower. -/
  width : small.bounds.width ≤ large.bounds.width
  /-- The primitives are of the same kinds, with the same `y` coordinates and heights. -/
  vertical : small.primitives.map Primitive.vertical = large.primitives.map Primitive.vertical
  /-- Every primitive has an extent, and it does not end further to the left. -/
  maxX : List.Forall₂
    (fun p q => ∃ b c, p.extent? = some b ∧ q.extent? = some c ∧ b.maxX ≤ c.maxX)
    small.primitives large.primitives

/-- The diagrams of a canonical tree, in any style in which loops do not stick out of
branches. -/
theorem exists_stretchedDiagram (style : Style ℚ) (h : style.metrics.Balanced)
    (hroom : style.metrics.loopOverhang ≤ style.metrics.branchOffset) {tree : Node} {g : Nat}
    (hcanonical : tree.Canonical g) {size size' : ℚ} (hsize : style.metrics.captionSize ≤ size)
    (hle : size ≤ size') :
    ∃ small large, diagram (style.withFontSize size) tree = .ok small ∧
      diagram (style.withFontSize size') tree = .ok large ∧ StretchedDiagram small large := by
  have proper := Node.proper_of_spelling hcanonical.spelling
  obtain ⟨drawn, finish, hdraws⟩ :=
    exists_draws (style.withFontSize size) proper (origin (style.withFontSize size))
  obtain ⟨drawn', finish', hdraws', hstretched, -⟩ := hdraws.stretches hle (.refl _)
  -- a larger font cannot move the left edge: it is told by the tree and the metrics alone
  have hedge := hdraws.edgeAt (h.withFontSize hsize) hroom hcanonical
  have hedge' := hdraws'.edgeAt (h.withFontSize (hsize.trans hle)) hroom hcanonical
  have hbounds := Bounds.stretchesTo_of hstretched
  -- so the bounds start at one place, and can only end at another
  have hminX : (Diagram.of drawn).bounds.minX = (Diagram.of drawn').bounds.minX := by
    cases hstretched with
    | nil => rfl
    | cons _ _ =>
        rw [hedge.minX_bounds (List.cons_ne_nil _ _), hedge'.minX_bounds (List.cons_ne_nil _ _)]
        rfl
  refine ⟨_, _, hdraws.diagram_eq, hdraws'.diagram_eq, hminX, hbounds.minY, hbounds.maxY, ?width,
    ?vertical, ?maxX⟩
  case width =>
    rw [Bounds.width, Bounds.width, hminX]
    exact sub_le_sub_right hbounds.maxX _
  case vertical => exact map_vertical_eq hstretched
  case maxX =>
    refine hstretched.imp fun p q hpq => ?_
    obtain ⟨b, c, hb, hc, hbc⟩ := hpq.extents
    exact ⟨b, c, hb, hc, hbc.maxX⟩

/-- **A larger font stretches a diagram to the right, and does nothing else to it.**  Every
pattern has a diagram with any font that is no smaller than that of captions, in any colours;
with a larger font it starts at the same `x`, all of it is at the same heights, and nothing
ends further to the left. -/
theorem font_stretches (palette : Palette) {pattern : String} {tree : Node}
    (hparse : parse pattern = .ok tree) {size size' : ℚ}
    (hsize : ({} : Metrics ℚ).captionSize ≤ size) (hle : size ≤ size') :
    ∃ small large,
      diagram { metrics := { fontSize := size }, palette := palette } tree = .ok small ∧
      diagram { metrics := { fontSize := size' }, palette := palette } tree = .ok large ∧
      StretchedDiagram small large :=
  exists_stretchedDiagram { palette := palette } balanced_default (Nat.cast_le.2 (by decide))
    (parse_eq_ok_iff.1 hparse).1 hsize hle

/-- The hypotheses of `font_stretches` are satisfiable: a group of a loop and a class, with
captions as large as labels and with labels of almost three times that size. -/
theorem font_stretches_group :
    ∃ tree small large, parse "(?:a+|[b-d])c?" = .ok tree ∧
      ({} : Metrics ℚ).captionSize ≤ 11 ∧ (11 : ℚ) ≤ 30 ∧
      diagram ({ metrics := { fontSize := 11 } } : Style ℚ) tree = .ok small ∧
      diagram ({ metrics := { fontSize := 30 } } : Style ℚ) tree = .ok large ∧
      StretchedDiagram small large := by
  have hparse : parse "(?:a+|[b-d])c?" = .ok (.sequence [
      .group (.choice [.oneOrMore (.literal "a"), .charClass [.range "b" "d"] false])
        .nonCapturing,
      .optional (.literal "c")]) := by decide +kernel
  have hcaption : ({} : Metrics ℚ).captionSize ≤ 11 := Nat.cast_ofNat.le
  have hlarger : (11 : ℚ) ≤ 30 := by norm_num
  obtain ⟨small, large, hsmall, hlarge, hstretched⟩ := font_stretches {} hparse hcaption hlarger
  exact ⟨_, small, large, hparse, hcaption, hlarger, hsmall, hlarge, hstretched⟩

end Layout
end Railroad
