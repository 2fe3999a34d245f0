/-
# The opening of a group

Behind a `(` the kind of a group is told by what the text begins with.
`groupKind` looks at up to three characters, some of which may belong to the
content, so two things are to be said of it: it finds the opening of every kind
that has one and nothing else (`groupKind_opening`, `groupKind_capturing`,
`groupKind_sound`), and text behind a character that is in no opening does not
matter to it (`HasOpening.of_append`).
-/

import Mathlib.Data.List.Infix
import Railroad.Pattern.Parser

namespace Railroad
namespace Pattern

/-- The characters that occur in openings. -/
def openingChars : List Char := ['?', ':', '=', '!', '<']

namespace GroupKind

/-- A capturing group has no opening behind its bracket. -/
theorem toList_opening_capturing : capturing.opening.toList = [] := rfl

/-- An opening has no characters but those that openings have. -/
theorem opening_subset (kind : GroupKind) : ∀ c ∈ kind.opening.toList, c ∈ openingChars := by
  cases kind <;> simp [opening, openingChars]

end GroupKind

/-- Whether a text is over or goes on with a character that is in no opening. -/
def NoOpening (rest : List Char) : Prop := ∀ c tail, rest = c :: tail → c ∉ openingChars

/-- Whether a text begins like a kind of group that is not capturing. -/
def HasOpening (cs : List Char) : Prop :=
  ∃ kind : GroupKind, kind ≠ .capturing ∧ kind.opening.toList <+: cs

/-- A text that begins like an opening does so with anything behind it. -/
theorem HasOpening.append {cs : List Char} (h : HasOpening cs) (rest : List Char) :
    HasOpening (cs ++ rest) := by
  obtain ⟨kind, hk, hp⟩ := h
  exact ⟨kind, hk, hp.trans (List.prefix_append cs rest)⟩

/-- A prefix of a text that has none of the characters behind a place lies before
that place. -/
theorem prefix_of_prefix_append {α : Type} {xs ys zs : List α} (h : xs <+: ys ++ zs)
    (hz : ∀ z tail, zs = z :: tail → z ∉ xs) : xs <+: ys := by
  rcases List.prefix_or_prefix_of_prefix h (List.prefix_append ys zs) with hp | ⟨ws, rfl⟩
  · exact hp
  · rw [List.prefix_append_right_inj] at h
    cases ws with
    | nil => rw [List.append_nil]
    | cons w ws =>
        obtain ⟨tail, rfl⟩ := h
        exact absurd (List.mem_append_right ys (List.mem_cons_self ..)) (hz w _ rfl)

/-- An opening is not completed by a character that is in no opening. -/
theorem HasOpening.of_append {cs rest : List Char} (h : HasOpening (cs ++ rest))
    (hr : NoOpening rest) : HasOpening cs := by
  obtain ⟨kind, hk, hp⟩ := h
  refine ⟨kind, hk, prefix_of_prefix_append hp fun c tail e hc => ?_⟩
  exact hr c tail e (kind.opening_subset c hc)

/-- The opening of a kind is found in front of any text. -/
theorem groupKind_opening {kind : GroupKind} (h : kind ≠ .capturing) (cs : List Char) :
    groupKind (kind.opening.toList ++ cs) = (kind, cs) := by
  cases kind with
  | capturing => exact absurd rfl h
  | _ => rfl

/-- Where no opening stands the group is capturing and nothing is taken away. -/
theorem groupKind_capturing {cs : List Char} (h : ¬ HasOpening cs) :
    groupKind cs = (.capturing, cs) := by
  unfold groupKind
  split
  · exact absurd ⟨.lookbehind, by decide, _, rfl⟩ h
  · exact absurd ⟨.negativeLookbehind, by decide, _, rfl⟩ h
  · exact absurd ⟨.nonCapturing, by decide, _, rfl⟩ h
  · exact absurd ⟨.lookahead, by decide, _, rfl⟩ h
  · exact absurd ⟨.negativeLookahead, by decide, _, rfl⟩ h
  · rfl

/-- What `groupKind` takes away is the opening of the kind it gives, and it gives the
capturing kind only where no other opening stands. -/
theorem groupKind_sound (cs : List Char) :
    cs = (groupKind cs).1.opening.toList ++ (groupKind cs).2 ∧
      ((groupKind cs).1 = .capturing → ¬ HasOpening cs) := by
  by_cases h : HasOpening cs
  · obtain ⟨kind, hk, tail, rfl⟩ := h
    rw [groupKind_opening hk]
    exact ⟨rfl, fun e => absurd e hk⟩
  · rw [groupKind_capturing h]
    exact ⟨rfl, fun _ => h⟩

end Pattern
end Railroad
