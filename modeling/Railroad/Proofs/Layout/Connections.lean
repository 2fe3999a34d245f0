/-
# Connectors meet the track

The curve over an item, the curve back under it and the connectors of a branch are drawn
when the item or the branch has been, from where it ended along the track and from the line
it started on.  A node ends on the line it started from, whatever the metrics
(`Draws.finish_y`), so all of them end on the track:

| path | from | to |
| --- | --- | --- |
| bypass | where the node starts | where the node ends |
| loop | where the item ends | where the item starts |
| first connector of a branch | where the choice starts | where the branch starts |
| second connector of a branch | where the branch ends | the exit, the same for all branches |

`Connected` says this of the drawing of a node, and `connectors_meet_track` of every node of
a proper tree.
-/

import Railroad.Proofs.Layout.Track

namespace Railroad
namespace Layout

open Pattern Drawing

/-! ### Paths from one place to another -/

section

variable {α : Type} [Scalar α]

/-- **A node ends on the track line it started from**, whatever the metrics. -/
theorem Draws.finish_y {style : Style α} {node : Node} {cursor finish : Point α}
    {drawn : List (Primitive α)} (h : Draws style node cursor drawn finish) :
    finish.y = cursor.y := by
  induction h with
  | cons _ _ ihItem ihItems => exact ihItems.trans ihItem
  | optional _ ih => exact ih
  | zeroOrMore _ ih => exact ih
  | oneOrMore _ ih => exact ih
  | counted _ _ ih => exact ih
  | _ => rfl

/-- Whether a primitive is a path from one place to another, and whether a curved one. -/
def Leads (curved : Bool) (p : Primitive α) (start finish : Point α) : Prop :=
  ∃ path : Connector α, p = .path path ∧ path.start? = some start ∧
    path.finish? = some finish ∧ path.curved = curved

omit [Scalar α] in
/-- A point that is moved along its line to below another one becomes that one. -/
theorem withX_eq_of_y_eq {p q : Point α} (h : q.y = p.y) : p.withX q.x = q := by
  rw [Point.withX, ← h]

variable (style : Style α) {cursor finish : Point α}

/-- A bypass leads from the cursor in front of an item to the one behind it. -/
theorem leads_bypass (h : finish.y = cursor.y) :
    Leads true (bypass style cursor.x finish.x cursor.y) cursor finish :=
  ⟨_, rfl, rfl, congrArg some (withX_eq_of_y_eq h), rfl⟩

/-- A loop is a path back, and an arrowhead. -/
theorem exists_loop_eq (h : finish.y = cursor.y) :
    ∃ back arrow, loop style cursor.x finish.x cursor.y = [back, .arrow arrow] ∧
      Leads true back finish cursor :=
  ⟨_, _, rfl, _, rfl, congrArg some (withX_eq_of_y_eq h), rfl, rfl⟩

/-- The connectors of a branch are two paths, curved unless the branch starts on the track
line.  If it ends where it started from, the second leads from there. -/
theorem exists_connectors_eq (cursor entry last : Point α) (exit : α) :
    ∃ into out, connectors style cursor exit ⟨entry, last.x⟩ = [into, out] ∧
      Leads (!(entry.y == cursor.y)) into cursor entry ∧
      (last.y = entry.y → Leads (!(entry.y == cursor.y)) out last (cursor.withX exit)) := by
  rw [connectors]
  split
  next hline =>
    rw [show (entry.y == cursor.y) = true from hline]
    exact ⟨_, _, rfl, ⟨_, rfl, rfl, rfl, rfl⟩,
      fun h => ⟨_, rfl, congrArg some (withX_eq_of_y_eq h), rfl, rfl⟩⟩
  next hline =>
    rw [show (entry.y == cursor.y) = false from Bool.eq_false_iff.2 hline]
    exact ⟨_, _, rfl, ⟨_, rfl, rfl, rfl, rfl⟩,
      fun h => ⟨_, rfl, congrArg some (withX_eq_of_y_eq h), rfl, rfl⟩⟩

end

/-! ### Branches -/

variable (style : Style ℚ) (cursor : Point ℚ) {count i : Nat}

/-- Each alternative starts one line below the one before it. -/
theorem branchEntry_succ_y (count i : Nat) :
    (branchEntry style cursor count (i + 1)).y =
      (branchEntry style cursor count i).y + style.metrics.choiceSpacing := by
  simp only [branchEntry]
  push_cast
  ring

/-- Two branches at the same distance from the first and the last lie symmetrically. -/
theorem branchEntry_y_add (h : i < count) :
    (branchEntry style cursor count i).y + (branchEntry style cursor count (count - 1 - i)).y =
      2 * cursor.y := by
  have hle : i ≤ count - 1 := by omega
  simp only [branchEntry, Nat.cast_sub hle]
  push_cast
  ring

/-- A branch is on the track line if it is the middle one, or if there is no room between
the branches. -/
theorem branchEntry_y_eq_iff (count i : Nat) :
    (branchEntry style cursor count i).y = cursor.y ↔
      2 * i = count - 1 ∨ style.metrics.choiceSpacing = 0 := by
  -- the middle of the branches, in halves: `i` is the middle one exactly if it is at no distance
  have hmiddle : (i : ℚ) - ((count - 1 : ℕ) : ℚ) / 2 = 0 ↔ 2 * i = count - 1 := by
    rw [sub_eq_zero, eq_div_iff two_ne_zero]
    constructor
    · intro heq
      have hcast : ((i * 2 : ℕ) : ℚ) = ((count - 1 : ℕ) : ℚ) := by
        push_cast
        exact heq
      have hnat := Nat.cast_injective hcast
      omega
    · intro heq
      rw [← heq]
      push_cast
      ring
  rw [← hmiddle, ← mul_eq_zero]
  exact add_eq_left

/-! ### Nodes -/

/-- How a node is drawn as the child of another: from where, behind what, and up to where. -/
structure DrawsChild (style : Style ℚ) (parent : Node) (cursor : Point ℚ)
    (before : List (Primitive ℚ)) (node : Node) (entry : Point ℚ) (inside : List (Primitive ℚ))
    (finish : Point ℚ) : Prop where
  /-- The node stands below its parent, and is drawn from its entry. -/
  child : Child style parent cursor before node entry
  /-- From there it draws these primitives, and ends at this cursor. -/
  sketch : sketch style node entry = ⟨inside, .ok finish⟩

/-- How the branches of a choice are connected: branch `i` starts at `entry i`, draws
`inside i` and ends at `last i`, and has the connectors `into i` and `out i`. -/
structure JoinedBranches (style : Style ℚ) (alternatives : List Node) (cursor : Point ℚ)
    (entry last : Nat → Point ℚ) (inside : Nat → List (Primitive ℚ))
    (into out : Nat → Primitive ℚ) (exit : Point ℚ) : Prop where
  /-- Every alternative is drawn behind those in front of it. -/
  branch : ∀ i node, alternatives[i]? = some node →
    DrawsChild style (.choice alternatives) cursor ((List.range i).flatMap inside) node (entry i)
      (inside i) (last i)
  /-- The track lines of the branches are evenly spaced, … -/
  spaced : ∀ i, i + 1 < alternatives.length →
    (entry (i + 1)).y = (entry i).y + style.metrics.choiceSpacing
  /-- … and lie symmetrically about that of the choice. -/
  symmetric : ∀ i < alternatives.length,
    (entry i).y + (entry (alternatives.length - 1 - i)).y = 2 * cursor.y
  /-- The connectors of a branch lead from the start of the choice to that of the branch, and
  from the end of the branch to the exit.  They are straight in the middle, and everywhere if
  there is no room between the branches. -/
  pair : ∀ i < alternatives.length, ∃ curved,
    Leads curved (into i) cursor (entry i) ∧ Leads curved (out i) (last i) exit ∧
      (curved = false ↔ 2 * i = alternatives.length - 1 ∨ style.metrics.choiceSpacing = 0)
  /-- The exit is on the track line of the choice, … -/
  exit_y : exit.y = cursor.y
  /-- … at the furthest of its start and the ends of the branches. -/
  exit_x : IsGreatest {x | x = cursor.x ∨ ∃ i < alternatives.length, x = (last i).x} exit.x

/-- How the paths that a node draws itself meet the track, if it draws any. -/
def Connected (style : Style ℚ) : Node → Point ℚ → List (Primitive ℚ) → Point ℚ → Prop
  | .optional item, cursor, drawn, finish => ∃ entry inside above,
      DrawsChild style (.optional item) cursor [] item entry inside finish ∧
      drawn = inside ++ [above] ∧ Leads true above cursor finish
  | .zeroOrMore item, cursor, drawn, finish => ∃ entry inside above back arrow,
      DrawsChild style (.zeroOrMore item) cursor [] item entry inside finish ∧
      drawn = inside ++ [above, back, .arrow arrow] ∧ Leads true above cursor finish ∧
        Leads true back finish entry
  | .oneOrMore item, cursor, drawn, finish => ∃ entry inside back arrow,
      DrawsChild style (.oneOrMore item) cursor [] item entry inside finish ∧
      drawn = inside ++ [back, .arrow arrow] ∧ Leads true back finish entry
  | .choice alternatives, cursor, drawn, finish => ∃ entry last inside into out exit,
      JoinedBranches style alternatives cursor entry last inside into out exit ∧
      drawn = (List.range alternatives.length).flatMap inside ++
        (List.range alternatives.length).flatMap (fun i => [into i, out i]) ∧
      finish = ⟨exit.x + style.metrics.spacing, exit.y⟩
  | _, _, _, _ => True

variable {style cursor}

/-- The branches of a choice are connected. -/
theorem exists_joinedBranches {alternatives : List Node} {drawn : Nat → List (Primitive ℚ)}
    {finish : Nat → Point ℚ}
    (h : ∀ i node, alternatives[i]? = some node →
      Draws style node (branchEntry style cursor alternatives.length i) (drawn i) (finish i)) :
    ∃ into out,
      JoinedBranches style alternatives cursor (branchEntry style cursor alternatives.length)
        finish drawn into out
        (cursor.withX (exitX cursor (branchesTo style cursor alternatives.length finish))) ∧
      (branchesTo style cursor alternatives.length finish).flatMap (connectors style cursor
          (exitX cursor (branchesTo style cursor alternatives.length finish))) =
        (List.range alternatives.length).flatMap fun i => [into i, out i] := by
  have hpair (i : Nat) := exists_connectors_eq style cursor
    (branchEntry style cursor alternatives.length i) (finish i)
    (exitX cursor (branchesTo style cursor alternatives.length finish))
  choose into out hconnectors hinto hout using hpair
  -- the ends of the branches, as numbers rather than as branches
  have hbranches : {x | x = cursor.x ∨ ∃ i < alternatives.length, x = (finish i).x} =
      {x | x = cursor.x ∨
        ∃ b ∈ branchesTo style cursor alternatives.length finish, x = b.endX} := by
    ext x
    simp [branchesTo]
  -- one path in and one path out for each branch, chosen for all branches at once
  refine ⟨into, out, ?joined, ?drawn⟩
  case joined =>
    refine ⟨fun i node hi => ⟨.of_getElem? h hi, (h i node hi).sketch_eq⟩,
      fun i _ => branchEntry_succ_y style cursor _ i,
      fun i hi => branchEntry_y_add style cursor hi, fun i hi => ⟨_, hinto i, hout i ?_, ?_⟩,
      rfl, ?_⟩
    · exact (h i _ (List.getElem?_eq_getElem hi)).finish_y
    · rw [← branchEntry_y_eq_iff style cursor, Bool.not_eq_eq_eq_not, Bool.not_false, beq_iff_eq]
    · rw [hbranches]
      exact isGreatest_exitX cursor _
  case drawn =>
    rw [branchesTo, List.flatMap_map]
    exact List.flatMap_congr fun i _ => hconnectors i

/-- **What a node draws is connected.** -/
theorem Draws.connected {node : Node} {finish : Point ℚ} {drawn : List (Primitive ℚ)}
    (h : Draws style node cursor drawn finish) : Connected style node cursor drawn finish := by
  have hline := h.finish_y
  cases h with
  | terminal look => cases look <;> trivial
  | choice parts ends hparts =>
      obtain ⟨into, out, hjoined, hdrawn⟩ := exists_joinedBranches hparts
      exact ⟨_, _, _, into, out, _, hjoined, by rw [hdrawn], rfl⟩
  -- of the curves around an item, one leads over it and the other one leads back under it
  | @optional item _ _ inside hitem =>
      exact ⟨_, inside, _, ⟨.optional item cursor, hitem.sketch_eq⟩, rfl,
        leads_bypass style hline⟩
  | @zeroOrMore item _ _ inside hitem =>
      obtain ⟨back, arrow, hloop, hback⟩ := exists_loop_eq style hitem.finish_y
      exact ⟨_, inside, _, back, arrow, ⟨.zeroOrMore item cursor, hitem.sketch_eq⟩,
        congrArg (inside ++ _ :: ·) hloop, leads_bypass style hline, hback⟩
  | @oneOrMore item _ _ inside hitem =>
      obtain ⟨back, arrow, hloop, hback⟩ := exists_loop_eq style hline
      exact ⟨_, inside, back, arrow, ⟨.oneOrMore item cursor, hitem.sketch_eq⟩,
        congrArg (inside ++ ·) hloop, hback⟩
  | _ => trivial

/-- **Connectors meet the track.**  A proper tree is drawn, every node of it is drawn from
somewhere, and wherever a node is drawn, its drawing is a stretch of that of the tree and is
connected: a bypass leads from the cursor of the node to the one it gives, a loop from the
cursor that the item gives to the one it was given, and the connectors of a choice from its
cursor to those of its alternatives, and from the cursors that they give to one exit, a gap
in front of the cursor that the choice gives. -/
theorem connectors_meet_track (style : Style ℚ) {root : Node} (proper : root.Proper)
    (start : Point ℚ) :
    ∃ whole last, sketch style root start = ⟨whole, .ok last⟩ ∧
      (∀ node, Below root node →
        ∃ before cursor, Reaches style root start before node cursor) ∧
      ∀ before node cursor, Reaches style root start before node cursor →
        ∃ drawn finish after, sketch style node cursor = ⟨drawn, .ok finish⟩ ∧
          whole = before ++ drawn ++ after ∧ Connected style node cursor drawn finish := by
  obtain ⟨whole, last, hroot⟩ := exists_draws style proper start
  refine ⟨whole, last, hroot.sketch_eq, fun node => exists_reaches style proper start, ?_⟩
  intro before node cursor hreaches
  obtain ⟨drawn, finish, after, hdraws, hwhole⟩ := hreaches.draws hroot
  exact ⟨drawn, finish, after, hdraws.sketch_eq, hwhole, hdraws.connected⟩

/-- The hypothesis of `connectors_meet_track` is satisfiable: three alternatives, the middle
one an optional group of two more. -/
theorem connectors_meet_track_nested :
    (Node.choice [.oneOrMore (.literal "a"),
      .optional (.group (.choice [.literal "b", .empty]) .capturing), .empty]).Proper ∧
    ∃ drawn finish, Connected {} (.choice [.oneOrMore (.literal "a"),
      .optional (.group (.choice [.literal "b", .empty]) .capturing), .empty]) ⟨20, 100⟩
        drawn finish := by
  have proper : (Node.choice [.oneOrMore (.literal "a"),
      .optional (.group (.choice [.literal "b", .empty]) .capturing), .empty]).Proper := by decide
  obtain ⟨_, _, -, -, hconnected⟩ := connectors_meet_track {} proper ⟨20, 100⟩
  obtain ⟨drawn, finish, _, -, -, hroot⟩ := hconnected _ _ _ .root
  exact ⟨proper, drawn, finish, hroot⟩

end Layout
end Railroad
