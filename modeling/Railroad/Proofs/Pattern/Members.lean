/-
# Reading a class is exact

A class is read as the members it was spelled with and as nothing else: what
`classItems` gives is canonical and spells what was consumed
(`classItems_sound`), and canonical members are read back from their spelling,
whatever follows the class (`classItems_complete`).  `charClass_sound` and
`charClass_complete` say the same of a whole class, with its negation and a
leading `]`.

The one place where members run together is a dash.  `beginsWithDash_iff` turns
the condition on the members into the one that the reading tests, on the next two
characters.
-/

import Railroad.Proofs.Pattern.Canonical

namespace Railroad
namespace Pattern

/-- In a class only the closing bracket and the backslash are reserved. -/
theorem mem_classReserved {c : Char} : c ∈ classReserved ↔ c = ']' ∨ c = '\\' := by
  simp [classReserved]

/-- Any other character is not. -/
theorem not_mem_classReserved {c : Char} (h₁ : c ≠ ']') (h₂ : c ≠ '\\') : c ∉ classReserved :=
  fun hc => (mem_classReserved.1 hc).elim h₁ h₂

/-- A character that is no end of a class and, with the text behind it, no escape. -/
theorem not_mem_classReserved_of_tail {c : Char} {tail : List Char} (h₁ : c ≠ ']')
    (h₂ : c = '\\' → tail ≠ []) (h₃ : ∀ d rest, c = '\\' → tail ≠ d :: rest) :
    c ∉ classReserved := by
  refine not_mem_classReserved h₁ fun hc => ?_
  cases tail with
  | nil => exact h₂ hc rfl
  | cons d tail => exact h₃ d tail hc rfl

/-- A text of one character is a dash if the character is. -/
theorem singleton_eq_dash {c : Char} : String.singleton c = "-" ↔ c = '-' := by
  rw [← String.singleton_inj]
  rfl

/-- A text of one character is a caret if the character is. -/
theorem singleton_eq_caret {c : Char} : String.singleton c = "^" ↔ c = '^' := by
  rw [← String.singleton_inj]
  rfl

/-- The text of the members of a class. -/
def membersText (items : List ClassItem) : List Char := items.flatMap ClassItem.spelling

@[simp] theorem membersText_nil : membersText [] = [] := rfl

/-- A member that is one character is written as it. -/
@[simp] theorem membersText_literal (c : Char) (items : List ClassItem) :
    membersText (.literal (String.singleton c) :: items) = c :: membersText items := by
  simp [membersText, ClassItem.spelling]

/-- An escape is written with its backslash. -/
theorem membersText_escape (c : Char) (items : List ClassItem) :
    membersText (.escape (String.ofList ['\\', c]) :: items) =
      '\\' :: c :: membersText items := by
  simp only [membersText, List.flatMap_cons, ClassItem.spelling, String.toList_ofList]
  rfl

/-- A range is written with a dash between its ends. -/
@[simp] theorem membersText_range (a b : Char) (items : List ClassItem) :
    membersText (.range (String.singleton a) (String.singleton b) :: items) =
      a :: '-' :: b :: membersText items := by
  simp [membersText, ClassItem.spelling]

/-- Induction over canonical members: each member is one character, an escape or a
range, and a literal stands before members that do not begin with a dash. -/
@[elab_as_elim]
theorem CanonicalMembers.induction
    {motive : (items : List ClassItem) → CanonicalMembers items → Prop}
    (nil : motive [] trivial)
    (literal : ∀ (c : Char) (items : List ClassItem) (hc : c ∉ classReserved)
      (hd : ¬ BeginsWithDash items) (h : CanonicalMembers items), motive items h →
        motive (.literal (String.singleton c) :: items) ⟨⟨c, rfl, hc⟩, hd, h⟩)
    (escape : ∀ (c : Char) (items : List ClassItem) (h : CanonicalMembers items), motive items h →
      motive (.escape (String.ofList ['\\', c]) :: items) ⟨⟨c, rfl⟩, h⟩)
    (range : ∀ (a b : Char) (items : List ClassItem) (ha : a ∉ classReserved)
      (hb : b ∉ classReserved) (h : CanonicalMembers items), motive items h →
        motive (.range (String.singleton a) (String.singleton b) :: items)
          ⟨⟨a, b, rfl, rfl, ha, hb⟩, h⟩) :
    ∀ {items : List ClassItem} (h : CanonicalMembers items), motive items h
  | [], _ => nil
  | .literal _ :: _, ⟨⟨c, e, hc⟩, hd, h⟩ => by
      subst e
      exact literal c _ hc hd h (induction nil literal escape range h)
  | .escape _ :: _, ⟨⟨c, e⟩, h⟩ => by
      subst e
      exact escape c _ h (induction nil literal escape range h)
  | .range _ _ :: _, ⟨⟨a, b, e₁, e₂, ha, hb⟩, h⟩ => by
      subst e₁ e₂
      exact range a b _ ha hb h (induction nil literal escape range h)

/-- Canonical members do not begin with the end of a class. -/
theorem CanonicalMembers.head_ne {items : List ClassItem} (h : CanonicalMembers items)
    (hne : items ≠ []) (rest tail : List Char) : membersText items ++ rest ≠ ']' :: tail := by
  intro he
  induction h using CanonicalMembers.induction with
  | nil => exact hne rfl
  | literal c items hc =>
      rw [membersText_literal] at he
      exact hc (mem_classReserved.2 (.inl (List.cons.inj he).1))
  | escape c items =>
      rw [membersText_escape] at he
      exact absurd (List.cons.inj he).1 (by decide)
  | range a b items ha =>
      rw [membersText_range] at he
      exact ha (mem_classReserved.2 (.inl (List.cons.inj he).1))

/-- Canonical members begin with a caret exactly when their text does. -/
theorem CanonicalMembers.beginsWithCaret_iff {items : List ClassItem} (h : CanonicalMembers items)
    (rest : List Char) :
    BeginsWithCaret items ↔ ∃ tail, membersText items ++ ']' :: rest = '^' :: tail := by
  induction h using CanonicalMembers.induction with
  | nil => simp [BeginsWithCaret]
  | literal c items =>
      rw [membersText_literal, BeginsWithCaret, singleton_eq_caret]
      exact ⟨fun e => ⟨_, by rw [e]; rfl⟩, fun ⟨_, e⟩ => (List.cons.inj e).1⟩
  | escape c items =>
      rw [membersText_escape]
      simp [BeginsWithCaret]
  | range a b items =>
      rw [membersText_range, BeginsWithCaret, singleton_eq_caret]
      exact ⟨fun e => ⟨_, by rw [e]; rfl⟩, fun ⟨_, e⟩ => (List.cons.inj e).1⟩

/-- **What a literal runs into.**  Canonical members begin with a dash and a
character that may end a range exactly when the next two characters are such, the
end of the class included. -/
theorem beginsWithDash_iff {items : List ClassItem} (h : CanonicalMembers items)
    (rest : List Char) :
    BeginsWithDash items ↔ ∃ b, b ∉ classReserved ∧ ∃ tail,
      membersText items ++ ']' :: rest = '-' :: b :: tail := by
  induction h using CanonicalMembers.induction with
  | nil => simp [BeginsWithDash]
  | escape c items =>
      rw [membersText_escape]
      simp [BeginsWithDash]
  | range a b items => simp [BeginsWithDash, singleton_eq_dash, classReserved]
  | literal c items hc hd h =>
      -- a literal dash is followed by the first character of the next member
      induction h using CanonicalMembers.induction with
      | nil => simp [BeginsWithDash, classReserved]
      | literal d items hd' =>
          rw [membersText_literal, membersText_literal, BeginsWithDash, singleton_eq_dash]
          exact ⟨fun e => ⟨d, hd', _, by rw [e]; rfl⟩, fun ⟨_, _, _, e⟩ => (List.cons.inj e).1⟩
      | escape d items =>
          rw [membersText_literal, membersText_escape]
          simp [BeginsWithDash, classReserved]
      | range a b items ha =>
          rw [membersText_literal, membersText_range, BeginsWithDash, singleton_eq_dash]
          exact ⟨fun e => ⟨a, ha, _, by rw [e]; rfl⟩, fun ⟨_, _, _, e⟩ => (List.cons.inj e).1⟩

/-! ### The members of a class -/

/-- Two characters with a dash between them are read as a range, … -/
theorem classItems_range {a b : Char} {cs rest : List Char} {items : List ClassItem}
    (ha : a ∉ classReserved) (hb : b ∉ classReserved) (h : classItems cs = .ok (items, rest)) :
    classItems (a :: '-' :: b :: cs) =
      .ok (.range (String.singleton a) (String.singleton b) :: items, rest) := by
  rw [mem_classReserved, not_or] at ha
  rw [mem_classReserved] at hb
  rw [classItems, if_neg hb, h]
  · exact ha.1
  · exact ha.2

/-- … and a character with no range ahead by itself. -/
theorem classItems_literal {c : Char} {cs rest : List Char} {items : List ClassItem}
    (hc : c ∉ classReserved) (hd : ∀ b tail, cs = '-' :: b :: tail → b ∈ classReserved)
    (h : classItems cs = .ok (items, rest)) :
    classItems (c :: cs) = .ok (.literal (String.singleton c) :: items, rest) := by
  rw [mem_classReserved, not_or] at hc
  by_cases hcs : ∃ b tail, cs = '-' :: b :: tail
  · obtain ⟨b, tail, rfl⟩ := hcs
    rw [classItems, if_pos (mem_classReserved.1 (hd b tail rfl)), h]
    · exact hc.1
    · exact hc.2
  · rw [classItems, h]
    · exact hc.1
    · exact fun e => absurd e hc.2
    · exact fun _ _ e => absurd e hc.2
    · exact fun b tail e => hcs ⟨b, tail, e⟩

/-- **Canonical members are read back**, with the text behind the class left over. -/
theorem classItems_complete {items : List ClassItem} (h : CanonicalMembers items)
    (rest : List Char) : classItems (membersText items ++ ']' :: rest) = .ok (items, rest) := by
  induction h using CanonicalMembers.induction with
  | nil => rw [membersText_nil, List.nil_append, classItems]
  | literal c items hc hd h ih =>
      rw [membersText_literal]
      refine classItems_literal hc (fun b tail e => ?_) ih
      by_contra hb
      exact hd ((beginsWithDash_iff h rest).2 ⟨b, hb, tail, e⟩)
  | escape c items h ih =>
      rw [membersText_escape, List.cons_append, List.cons_append, classItems, ih]
  | range a b items ha hb h ih =>
      rw [membersText_range]
      exact classItems_range ha hb ih

/-- A literal in front of canonical members that were read is canonical, unless it was
the start of a range. -/
theorem CanonicalMembers.cons_literal {c : Char} {cs rest : List Char} {items : List ClassItem}
    (hc : c ∉ classReserved) (hd : ∀ b tail, cs = '-' :: b :: tail → b ∈ classReserved)
    (h : CanonicalMembers items) (hcs : cs = membersText items ++ ']' :: rest) :
    CanonicalMembers (.literal (String.singleton c) :: items) := by
  refine ⟨⟨c, rfl, hc⟩, fun hdash => ?_, h⟩
  obtain ⟨b, hb, tail, e⟩ := (beginsWithDash_iff h rest).1 hdash
  exact hb (hd b tail (hcs.trans e))

/-- **Members that are read are canonical** and spell what was consumed, up to the
end of the class. -/
theorem classItems_sound {cs rest : List Char} {items : List ClassItem}
    (h : classItems cs = .ok (items, rest)) :
    CanonicalMembers items ∧ cs = membersText items ++ ']' :: rest := by
  fun_induction classItems cs generalizing items rest with
  | case1 => simp at h
  | case2 tail =>
      obtain ⟨rfl, rfl⟩ : [] = items ∧ tail = rest := by simpa using h
      exact ⟨trivial, rfl⟩
  | case3 => simp at h
  | case4 => simp at h
  -- an escape, of two characters
  | case5 c tail items tail' hr ih =>
      obtain ⟨rfl, rfl⟩ := Prod.mk.inj (Except.ok.inj h)
      obtain ⟨hm, e⟩ := ih hr
      refine ⟨⟨⟨c, rfl⟩, hm⟩, ?_⟩
      rw [membersText_escape, e, List.cons_append, List.cons_append]
  | case6 => simp at h
  -- a dash that the end of no range follows: the character stands for itself
  | case7 a b tail h₁ h₂ hb items tail' hr ih =>
      obtain ⟨rfl, rfl⟩ := Prod.mk.inj (Except.ok.inj h)
      obtain ⟨hm, e⟩ := ih hr
      have ha := not_mem_classReserved h₁ h₂
      refine ⟨hm.cons_literal ha (fun c _ hc => ?_) e, ?_⟩
      · obtain ⟨rfl, -⟩ := List.cons.inj (List.cons.inj hc).2
        exact mem_classReserved.2 hb
      · rw [membersText_literal, e]
        rfl
  | case8 => simp at h
  -- a range, of three characters
  | case9 a b tail h₁ h₂ hb items tail' hr ih =>
      obtain ⟨rfl, rfl⟩ := Prod.mk.inj (Except.ok.inj h)
      obtain ⟨hm, e⟩ := ih hr
      have ha := not_mem_classReserved h₁ h₂
      refine ⟨⟨⟨a, b, rfl, rfl, ha, mt mem_classReserved.1 hb⟩, hm⟩, ?_⟩
      rw [membersText_range, e]
      rfl
  | case10 => simp at h
  -- a character with no dash behind it
  | case11 a tail h₁ h₂ h₃ hne items tail' hr ih =>
      obtain ⟨rfl, rfl⟩ := Prod.mk.inj (Except.ok.inj h)
      obtain ⟨hm, e⟩ := ih hr
      have ha := not_mem_classReserved_of_tail h₁ h₂ h₃
      refine ⟨hm.cons_literal ha (fun b t e' => (hne b t e').elim) e, ?_⟩
      rw [membersText_literal, e]
      rfl

/-! ### A whole class -/

/-- A class begins with a caret exactly when its text does. -/
theorem CanonicalBody.beginsWithCaret_iff {items : List ClassItem} (h : CanonicalBody items)
    (rest : List Char) :
    BeginsWithCaret items ↔ ∃ tail, membersText items ++ ']' :: rest = '^' :: tail := by
  rcases h with h | ⟨others, rfl, -⟩
  · exact h.beginsWithCaret_iff rest
  · simp [BeginsWithCaret, membersText, ClassItem.spelling]

/-- The text of a class behind its `[`. -/
def classText (items : List ClassItem) (negated : Bool) : List Char :=
  (if negated then ['^'] else []) ++ membersText items ++ [']']

/-- A class with a text behind it: its negation, its members, and the closing bracket in front
of the text. -/
theorem classText_append (items : List ClassItem) (negated : Bool) (rest : List Char) :
    classText items negated ++ rest =
      (if negated then ['^'] else []) ++ (membersText items ++ ']' :: rest) := by
  simp [classText]

/-- Without a caret in front a class is not negated. -/
theorem negation_of_ne {cs : List Char} (h : ∀ tail, cs ≠ '^' :: tail) :
    negation cs = (false, cs) := by
  unfold negation
  split
  · exact absurd rfl (h _)
  · rfl

/-- Only a closing bracket in front is read as a member. -/
theorem leadingClose_of_ne {cs : List Char} (h : ∀ tail, cs ≠ ']' :: tail) :
    leadingClose cs = ([], cs) := by
  unfold leadingClose
  split
  · exact absurd rfl (h _)
  · rfl

/-- What `negation` takes away is the caret of a negated class. -/
theorem negation_sound (cs : List Char) :
    cs = (if (negation cs).1 then ['^'] else []) ++ (negation cs).2 ∧
      ((negation cs).1 = false → ∀ tail, cs ≠ '^' :: tail) := by
  by_cases hcs : ∃ tail, cs = '^' :: tail
  · obtain ⟨tail, rfl⟩ := hcs
    exact ⟨rfl, fun h => absurd h.symm Bool.false_ne_true⟩
  · have hne := fun tail e => hcs ⟨tail, e⟩
    rw [negation_of_ne hne]
    exact ⟨rfl, fun _ => hne⟩

/-- The members of a class as they are read: a `]` in front is taken as a literal. -/
theorem leadingClose_sound {cs rest : List Char} {items : List ClassItem}
    (h : classItems (leadingClose cs).2 = .ok (items, rest)) :
    (leadingClose cs).1 ++ items ≠ [] ∧
      cs = membersText ((leadingClose cs).1 ++ items) ++ ']' :: rest ∧
        CanonicalBody ((leadingClose cs).1 ++ items) := by
  obtain ⟨hm, hbody⟩ := classItems_sound h
  by_cases hcs : ∃ tail, cs = ']' :: tail
  · obtain ⟨tail, rfl⟩ := hcs
    exact ⟨List.cons_ne_nil _ _, congrArg (']' :: ·) hbody, .inr ⟨items, rfl, hm⟩⟩
  · have hne := fun tail e => hcs ⟨tail, e⟩
    rw [leadingClose_of_ne hne] at hbody ⊢
    refine ⟨?_, hbody, .inl hm⟩
    rintro rfl
    exact hne rest hbody

/-- The members of a class are read back behind its `[` or its caret. -/
theorem leadingClose_complete {items : List ClassItem} {negated : Bool}
    (h : CanonicalClass items negated) (rest : List Char) :
    ∃ leading body others, leadingClose (membersText items ++ ']' :: rest) = (leading, body) ∧
      classItems body = .ok (others, rest) ∧ leading ++ others = items := by
  rcases h.body with hm | ⟨others, rfl, hm⟩
  · refine ⟨[], _, items, ?_, classItems_complete hm rest, rfl⟩
    exact leadingClose_of_ne (hm.head_ne h.nonempty _)
  · exact ⟨[.literal "]"], _, others, rfl, classItems_complete hm rest, rfl⟩

/-- **A class that is read is canonical** and spells what was consumed. -/
theorem charClass_sound {cs rest : List Char} {node : Node}
    (h : charClass cs = .ok (node, rest)) :
    ∃ items negated, node = .charClass items negated ∧ CanonicalClass items negated ∧
      cs = classText items negated ++ rest := by
  simp only [charClass] at h
  split at h
  · simp at h
  rename_i items tail hi
  obtain ⟨rfl, rfl⟩ := Prod.mk.inj (Except.ok.inj h)
  obtain ⟨hne, hbody, hm⟩ := leadingClose_sound hi
  obtain ⟨hcs, hnocaret⟩ := negation_sound cs
  refine ⟨_, _, rfl, ⟨hne, fun hcaret => ?_, hm⟩, ?_⟩
  -- a first member that begins with a caret would have been read as the negation
  · by_contra hneg
    obtain ⟨tail', e⟩ := (hm.beginsWithCaret_iff tail).1 hcaret
    rw [Bool.not_eq_true] at hneg
    rw [hneg, hbody, e] at hcs
    exact hnocaret hneg tail' hcs
  · rw [classText_append, ← hbody]
    exact hcs

/-- **A canonical class is read back**, with the text behind it left over. -/
theorem charClass_complete {items : List ClassItem} {negated : Bool}
    (h : CanonicalClass items negated) (rest : List Char) :
    charClass (classText items negated ++ rest) = .ok (.charClass items negated, rest) := by
  obtain ⟨leading, body, others, hl, hi, rfl⟩ := leadingClose_complete h rest
  have hneg : negation (classText (leading ++ others) negated ++ rest) =
      (negated, membersText (leading ++ others) ++ ']' :: rest) := by
    rw [classText_append]
    cases negated with
    | true => rfl
    | false =>
        refine negation_of_ne fun tail e => ?_
        exact absurd (h.caret ((h.body.beginsWithCaret_iff rest).2 ⟨tail, e⟩)) Bool.false_ne_true
  simp only [charClass, hneg, hl, hi]

end Pattern
end Railroad
