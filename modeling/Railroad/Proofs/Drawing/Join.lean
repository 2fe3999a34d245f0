/-
# Bounds are least upper bounds

Rectangles are ordered by covering: one is below another when the other covers it.  The
union of two rectangles is the least one above both, so rectangles are a semilattice and
the union is associative, commutative and idempotent.  Nothing is asked of the sides: a
rectangle may be turned inside out.

The bounds of some primitives are the least upper bound of their extents, wherever
primitives without an extent stand between them (`unionAll_eq_some_iff`).  What is
enclosed tells the bounds, then, and neither its order nor how it is cut into parts
(`unionAll_perm`, `unionAll_append`).  `bounds_are_joins` puts this together, with two
laws of margins.
-/

import Mathlib.Algebra.Order.Group.MinMax
import Mathlib.Data.List.Perm.Basic
import Railroad.Proofs.Drawing.Hull

namespace Railroad
namespace Drawing

/-- The primitives without an extent are the paths without points. -/
theorem Primitive.extent?_eq_none_iff {p : Primitive ℚ} :
    p.extent? = none ↔ ∃ path, p = .path path ∧ path.points = [] := by
  cases p with
  | path path =>
      rw [extent?, Connector.extent?, Bounds.unionAll_eq_none_iff, List.map_eq_nil_iff]
      refine ⟨fun h => ⟨path, rfl, h⟩, ?_⟩
      rintro ⟨path, h, hpoints⟩
      obtain rfl := Primitive.path.inj h
      exact hpoints
  | _ => simp [extent?]

namespace Bounds

/-! ### The semilattice of rectangles -/

variable (b c d : Bounds ℚ)

theorem Covers.refl : b.Covers b := ⟨le_rfl, le_rfl, le_rfl, le_rfl⟩

variable {b c d} in
/-- Rectangles that cover each other are the same. -/
theorem Covers.antisymm (h : b.Covers c) (h' : c.Covers b) : b = c := by
  have hminX : b.minX = c.minX := le_antisymm h.minX h'.minX
  have hminY : b.minY = c.minY := le_antisymm h.minY h'.minY
  have hmaxX : b.maxX = c.maxX := le_antisymm h'.maxX h.maxX
  have hmaxY : b.maxY = c.maxY := le_antisymm h'.maxY h.maxY
  cases b
  cases c
  simp_all only

/-- The union of two rectangles, side by side with the lattice operations on numbers. -/
theorem union_eq : b.union c =
    ⟨min b.minX c.minX, min b.minY c.minY, max b.maxX c.maxX, max b.maxY c.maxY⟩ := by
  simp only [union, Scalar.least_eq_min, Scalar.greatest_eq_max]

/-- The union covers the first rectangle, … -/
theorem covers_union_left : (b.union c).Covers b := by
  rw [union_eq]
  exact ⟨min_le_left _ _, min_le_left _ _, le_max_left _ _, le_max_left _ _⟩

/-- … and the second one, … -/
theorem covers_union_right : (b.union c).Covers c := by
  rw [union_eq]
  exact ⟨min_le_right _ _, min_le_right _ _, le_max_right _ _, le_max_right _ _⟩

variable {b c d} in
/-- … and is covered by every rectangle that covers both. -/
theorem Covers.union (h : d.Covers b) (h' : d.Covers c) : d.Covers (b.union c) := by
  rw [union_eq]
  exact ⟨le_min h.minX h'.minX, le_min h.minY h'.minY, max_le h.maxX h'.maxX,
    max_le h.maxY h'.maxY⟩

/-- Rectangles by what they cover, with unions. -/
instance : SemilatticeSup (Bounds ℚ) where
  le inner outer := outer.Covers inner
  le_refl := Covers.refl
  le_trans _ _ _ h h' := h'.trans h
  le_antisymm _ _ h h' := h'.antisymm h
  sup := union
  le_sup_left := covers_union_left
  le_sup_right := covers_union_right
  sup_le _ _ _ := Covers.union

/-- Of three rectangles it does not matter which two are joined first. -/
theorem union_assoc : (b.union c).union d = b.union (c.union d) := sup_assoc b c d

/-- It does not matter in which order two rectangles are joined. -/
theorem union_comm : b.union c = c.union b := sup_comm b c

/-- A rectangle joined with itself stays what it is. -/
theorem union_self : b.union b = b := sup_idem b

/-- The margin around a union is the union of what has the margin. -/
theorem expand_union (margin : ℚ) :
    (b.union c).expand margin = (b.expand margin).union (c.expand margin) := by
  simp only [union_eq, expand, min_sub_sub_right, max_add_add_right]

/-- A margin around a margin is their sum. -/
theorem expand_expand (margin margin' : ℚ) :
    (b.expand margin).expand margin' = b.expand (margin + margin') := by
  simp only [expand, sub_sub, add_assoc]

/-! ### Bounds of lists -/

variable {rectangles others : List (Bounds ℚ)} {hull : Bounds ℚ}

/-- The hull of some rectangles is the least one that covers them: each of its sides is a
side of one of them. -/
theorem IsHull.isLUB (h : IsHull rectangles hull) : IsLUB {b | b ∈ rectangles} hull := by
  refine ⟨fun b hb => h.covers hb, fun outer houter => ⟨?_, ?_, ?_, ?_⟩⟩
  · obtain ⟨b, hb, hside⟩ := List.mem_map.1 h.minX.1
    exact hside ▸ (houter hb).minX
  · obtain ⟨b, hb, hside⟩ := List.mem_map.1 h.minY.1
    exact hside ▸ (houter hb).minY
  · obtain ⟨b, hb, hside⟩ := List.mem_map.1 h.maxX.1
    exact hside ▸ (houter hb).maxX
  · obtain ⟨b, hb, hside⟩ := List.mem_map.1 h.maxY.1
    exact hside ▸ (houter hb).maxY

/-- **The union of a list of rectangles is their least upper bound**, which there is when
there is a rectangle. -/
theorem unionAll_eq_some_iff : unionAll rectangles = some hull ↔
    {b | b ∈ rectangles}.Nonempty ∧ IsLUB {b | b ∈ rectangles} hull := by
  constructor
  · intro h
    have hhull := isHull_unionAll h
    obtain ⟨b, hb, -⟩ := List.mem_map.1 hhull.minX.1
    exact ⟨⟨b, hb⟩, hhull.isLUB⟩
  · rintro ⟨⟨b, hb⟩, hlub⟩
    cases h : unionAll rectangles with
    | none =>
        rw [unionAll_eq_none_iff.1 h] at hb
        cases hb
    | some hull' => rw [(isHull_unionAll h).isLUB.unique hlub]

/-- A union does not depend on the order in which it is put together. -/
theorem unionAll_perm (h : rectangles.Perm others) : unionAll rectangles = unionAll others := by
  have hmem : {b | b ∈ rectangles} = {b | b ∈ others} := Set.ext fun _ => h.mem_iff
  refine Option.ext fun hull => ?_
  rw [unionAll_eq_some_iff, unionAll_eq_some_iff, hmem]

/-- The union of two lists of rectangles is the union of their unions. -/
theorem unionAll_append (rectangles others : List (Bounds ℚ)) :
    unionAll (rectangles ++ others) =
      Option.merge union (unionAll rectangles) (unionAll others) := by
  cases h : unionAll rectangles with
  | none => rw [unionAll_eq_none_iff.1 h, List.nil_append, Option.merge_none_left]
  | some hull =>
      cases h' : unionAll others with
      | none => rw [unionAll_eq_none_iff.1 h', List.append_nil, h, Option.merge_none_right]
      | some hull' =>
          -- both have a union, and the union of both is the least upper bound of all
          obtain ⟨hne, hlub⟩ := unionAll_eq_some_iff.1 h
          obtain ⟨-, hlub'⟩ := unionAll_eq_some_iff.1 h'
          have hmem : {b | b ∈ rectangles ++ others} = {b | b ∈ rectangles} ∪ {b | b ∈ others} :=
            Set.ext fun _ => List.mem_append
          refine unionAll_eq_some_iff.2 ?_
          rw [hmem]
          exact ⟨hne.inl, hlub.union hlub'⟩

/-! ### Bounds of primitives -/

variable (primitives others : List (Primitive ℚ))

/-- Only primitives that are all paths without points have no bounds. -/
theorem of?_eq_none_iff :
    of? primitives = none ↔ ∀ p ∈ primitives, ∃ path, p = .path path ∧ path.points = [] := by
  rw [of?, unionAll_eq_none_iff, List.filterMap_eq_nil_iff]
  exact forall₂_congr fun _ _ => Primitive.extent?_eq_none_iff

/-- The bounds of two drawings together are the union of their bounds. -/
theorem of?_append :
    of? (primitives ++ others) = Option.merge union (of? primitives) (of? others) := by
  rw [of?, List.filterMap_append, unionAll_append, of?, of?]

variable {primitives others} in
/-- The bounds of a drawing do not depend on the order of its primitives. -/
theorem of?_perm (h : primitives.Perm others) : of? primitives = of? others :=
  unionAll_perm (h.filterMap _)

variable {primitives} in
/-- What covers the extents of some primitives is what is above all of them. -/
theorem mem_upperBounds_extents {outer : Bounds ℚ} :
    outer ∈ upperBounds {b | b ∈ extents primitives} ↔
      ∀ p ∈ primitives, ∀ extent, p.extent? = some extent → outer.Covers extent := by
  refine ⟨fun h p hp extent he => h (mem_extents hp he), fun h extent hextent => ?_⟩
  obtain ⟨p, hp, he⟩ := List.mem_filterMap.1 hextent
  exact h p hp extent he

/-- **The bounds of primitives are least upper bounds**, and margins distribute over them.
For any two lists of primitives, any rectangles and any margins: -/
theorem bounds_are_joins (margin margin' : ℚ) :
    -- there are bounds unless there are only paths without points,
    (of? primitives = none ↔ ∀ p ∈ primitives, ∃ path, p = .path path ∧ path.points = []) ∧
    -- they cover every extent, and are covered by all that does;
    (∀ hull, of? primitives = some hull →
      (∀ p ∈ primitives, ∀ extent, p.extent? = some extent → hull.Covers extent) ∧
      ∀ outer : Bounds ℚ, (∀ p ∈ primitives, ∀ extent, p.extent? = some extent →
        outer.Covers extent) → outer.Covers hull) ∧
    -- the bounds of two lists are the union of the bounds that there are, in any order;
    of? (primitives ++ others) = Option.merge union (of? primitives) (of? others) ∧
    (∀ permuted, primitives.Perm permuted → of? permuted = of? primitives) ∧
    -- unions may be taken in any order and as often as one likes,
    ((b.union c).union d = b.union (c.union d) ∧ b.union c = c.union b ∧ b.union b = b) ∧
    -- and a margin may be added before or after, at once or in parts.
    (b.union c).expand margin = (b.expand margin).union (c.expand margin) ∧
    (b.expand margin).expand margin' = b.expand (margin + margin') := by
  refine ⟨of?_eq_none_iff primitives, fun hull h => ?_, of?_append primitives others,
    fun _ h => (of?_perm h).symm, ⟨union_assoc b c d, union_comm b c, union_self b⟩,
    expand_union b c margin, expand_expand b margin margin'⟩
  obtain ⟨hupper, hleast⟩ := (isHull_of? h).isLUB
  exact ⟨mem_upperBounds_extents.1 hupper, fun outer houter =>
    hleast (mem_upperBounds_extents.2 houter)⟩

end Bounds
end Drawing
end Railroad
