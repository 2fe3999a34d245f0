/-
# The points of a curve

A curved path is a chain of cubic segments: a start, two control points and an end, where
the next segment starts.  The point of a segment at `t`, from 0 at its start to 1 at its
end, is a mean of these four points, with the weights of Bernstein's polynomials:

| point | weight |
| --- | --- |
| start | `(1 - t) ^ 3` |
| first control point | `3 * (1 - t) ^ 2 * t` |
| second control point | `3 * (1 - t) * t ^ 2` |
| end | `t ^ 3` |

The weights are not negative and add up to 1, so every point of a curve lies in any
rectangle that covers the extent of the path (`Covers.containsCurve`).
-/

import Mathlib.Data.Real.Basic
import Mathlib.Tactic.GCongr
import Mathlib.Tactic.Ring
import Railroad.Proofs.Drawing.Hull

namespace Railroad
namespace Drawing

/-! ### Means of four numbers -/

/-- The mean of four numbers with the weights of a cubic segment at `t`. -/
def cubicMean (t a b c d : ℝ) : ℝ :=
  (1 - t) ^ 3 * a + 3 * (1 - t) ^ 2 * t * b + 3 * (1 - t) * t ^ 2 * c + t ^ 3 * d

section

variable {t a b c d a' b' c' d' bound : ℝ}

/-- The weights add up to 1. -/
theorem cubicMean_self (t a : ℝ) : cubicMean t a a a a = a := by
  rw [cubicMean]
  ring

/-- The weights are not negative. -/
theorem cubicMean_mono (h0 : 0 ≤ t) (h1 : t ≤ 1) (ha : a ≤ a') (hb : b ≤ b') (hc : c ≤ c')
    (hd : d ≤ d') : cubicMean t a b c d ≤ cubicMean t a' b' c' d' := by
  have hrest : 0 ≤ 1 - t := sub_nonneg.2 h1
  rw [cubicMean, cubicMean]
  generalize 1 - t = s at *
  gcongr

/-- What is below all four numbers is below their mean. -/
theorem le_cubicMean (h0 : 0 ≤ t) (h1 : t ≤ 1) (ha : bound ≤ a) (hb : bound ≤ b)
    (hc : bound ≤ c) (hd : bound ≤ d) : bound ≤ cubicMean t a b c d :=
  calc
    bound = cubicMean t bound bound bound bound := (cubicMean_self t bound).symm
    _ ≤ cubicMean t a b c d := cubicMean_mono h0 h1 ha hb hc hd

/-- What is above all four numbers is above their mean. -/
theorem cubicMean_le (h0 : 0 ≤ t) (h1 : t ≤ 1) (ha : a ≤ bound) (hb : b ≤ bound)
    (hc : c ≤ bound) (hd : d ≤ bound) : cubicMean t a b c d ≤ bound :=
  calc
    cubicMean t a b c d ≤ cubicMean t bound bound bound bound := cubicMean_mono h0 h1 ha hb hc hd
    _ = bound := cubicMean_self t bound

end

/-! ### Segments -/

/-- A cubic segment of a curve. -/
structure Cubic where
  start : Point ℚ
  first : Point ℚ
  second : Point ℚ
  finish : Point ℚ

namespace Cubic

/-- The point of a segment at `t`. -/
def pointAt (segment : Cubic) (t : ℝ) : Point ℝ :=
  ⟨cubicMean t segment.start.x segment.first.x segment.second.x segment.finish.x,
    cubicMean t segment.start.y segment.first.y segment.second.y segment.finish.y⟩

/-- A curve begins at the first of its points. -/
theorem pointAt_zero (segment : Cubic) :
    segment.pointAt 0 = ⟨segment.start.x, segment.start.y⟩ := by
  simp [pointAt, cubicMean]

/-- A curve ends at the last of its points. -/
theorem pointAt_one (segment : Cubic) :
    segment.pointAt 1 = ⟨segment.finish.x, segment.finish.y⟩ := by
  simp [pointAt, cubicMean]

/-- The four points of a segment. -/
def points (segment : Cubic) : List (Point ℚ) :=
  [segment.start, segment.first, segment.second, segment.finish]

end Cubic

/-- The segments of a curve through the given points, each starting where the one before it
ends. -/
def segments : List (Point ℚ) → List Cubic
  | start :: first :: second :: finish :: points =>
    ⟨start, first, second, finish⟩ :: segments (finish :: points)
  | _ => []

/-- A curve has a segment for every three points behind its start. -/
theorem length_segments : ∀ points : List (Point ℚ),
    (segments points).length = (points.length - 1) / 3
  | start :: first :: second :: finish :: points => by
      have hrest := length_segments (finish :: points)
      rw [segments, List.length_cons, hrest]
      simp only [List.length_cons]
      omega
  | [] | [_] | [_, _] | [_, _, _] => by simp [segments]

/-- The points of the segments of a path are points of the path. -/
theorem mem_of_mem_segments {segment : Cubic} {p : Point ℚ} : ∀ {points : List (Point ℚ)},
    segment ∈ segments points → p ∈ segment.points → p ∈ points
  | start :: first :: second :: finish :: points, hsegment, hp => by
      rcases List.mem_cons.1 hsegment with rfl | hsegment
      · exact List.mem_append_left points hp
      · have hrest := mem_of_mem_segments hsegment hp
        exact List.mem_append_right [start, first, second] hrest
  | [], h, _ | [_], h, _ | [_, _], h, _ | [_, _, _], h, _ => absurd h List.not_mem_nil

/-! ### Curves and rectangles -/

namespace Bounds

/-- Whether a place lies inside a rectangle or on one of its sides. -/
structure Contains (bounds : Bounds ℚ) (place : Point ℝ) : Prop where
  /-- It is not left of the rectangle, … -/
  left : (bounds.minX : ℝ) ≤ place.x
  /-- … nor above it, … -/
  top : (bounds.minY : ℝ) ≤ place.y
  /-- … nor right of it, … -/
  right : place.x ≤ bounds.maxX
  /-- … nor below it. -/
  bottom : place.y ≤ bounds.maxY

variable {bounds extent : Bounds ℚ} {segment : Cubic} {t : ℝ}

/-- A segment stays in a rectangle that its four points are in. -/
theorem contains_pointAt (h : ∀ p ∈ segment.points, bounds.Covers (ofPoint p)) (h0 : 0 ≤ t)
    (h1 : t ≤ 1) : bounds.Contains (segment.pointAt t) := by
  simp only [Cubic.points, List.forall_mem_cons, List.not_mem_nil, false_implies, implies_true,
    and_true] at h
  obtain ⟨hstart, hfirst, hsecond, hfinish⟩ := h
  constructor
  · exact le_cubicMean h0 h1 (Rat.cast_le.2 hstart.minX) (Rat.cast_le.2 hfirst.minX)
      (Rat.cast_le.2 hsecond.minX) (Rat.cast_le.2 hfinish.minX)
  · exact le_cubicMean h0 h1 (Rat.cast_le.2 hstart.minY) (Rat.cast_le.2 hfirst.minY)
      (Rat.cast_le.2 hsecond.minY) (Rat.cast_le.2 hfinish.minY)
  · exact cubicMean_le h0 h1 (Rat.cast_le.2 hstart.maxX) (Rat.cast_le.2 hfirst.maxX)
      (Rat.cast_le.2 hsecond.maxX) (Rat.cast_le.2 hfinish.maxX)
  · exact cubicMean_le h0 h1 (Rat.cast_le.2 hstart.maxY) (Rat.cast_le.2 hfirst.maxY)
      (Rat.cast_le.2 hsecond.maxY) (Rat.cast_le.2 hfinish.maxY)

/-- The extent of a path covers its points. -/
theorem covers_ofPoint {path : Connector ℚ} (h : path.extent? = some extent) {p : Point ℚ}
    (hp : p ∈ path.points) : extent.Covers (ofPoint p) :=
  (isHull_unionAll h).covers (List.mem_map_of_mem hp)

/-- Whether a rectangle contains every point of every segment of a curve. -/
def ContainsCurve (bounds : Bounds ℚ) (path : Connector ℚ) : Prop :=
  ∀ segment ∈ segments path.points, ∀ t : ℝ, 0 ≤ t → t ≤ 1 → bounds.Contains (segment.pointAt t)

/-- Whether a rectangle contains all curves among some primitives. -/
def ContainsCurves (bounds : Bounds ℚ) (primitives : List (Primitive ℚ)) : Prop :=
  ∀ path, .path path ∈ primitives → path.curved → bounds.ContainsCurve path

/-- **A curve stays in every rectangle that covers its extent.** -/
theorem Covers.containsCurve {path : Connector ℚ} (hcovers : bounds.Covers extent)
    (h : path.extent? = some extent) : bounds.ContainsCurve path :=
  fun _ hsegment _ => contains_pointAt fun _ hp =>
    hcovers.trans (covers_ofPoint h (mem_of_mem_segments hsegment hp))

/-- A rectangle that covers the extents of some primitives contains their curves. -/
theorem containsCurves {primitives : List (Primitive ℚ)}
    (h : ∀ p ∈ primitives, ∃ extent, p.extent? = some extent ∧ bounds.Covers extent) :
    bounds.ContainsCurves primitives := by
  intro path hpath _
  obtain ⟨extent, hextent, hcovers⟩ := h _ hpath
  exact hcovers.containsCurve hextent

end Bounds
end Drawing
end Railroad
