/-
# A walk takes only what is there

A walk over a pattern does what reading does (`follows_group`, by induction on how many
groups may still be opened), and so it has an end, and takes no character that is not
there (`outcome_pattern`).

The productions rely on each other for that, wherever the cursor stands and however many
groups are open.  An alternation stops at the end or in front of a `)`, with as many groups
open as before (`alternation_stops`), so that what is taken behind the content of a group
closes it.  Likewise the last character that is taken for a class is a `]`, and the last
one for a brace quantifier is a `}` (`TakesLast`), and no item and no member is passed
without a character (`MovesOn`).  `walk_is_safe` puts this together.
-/

import Railroad.Proofs.Pattern.Walks

namespace Railroad
namespace Pattern

open Text Cursor

variable {pattern cs : List Char} {depth : Nat}

namespace Walk

/-! ### The grammar -/

/-- Whether walking over a group is reading it with `inner`, from every character of the
pattern and with as many groups open as `depth` says. -/
def Follows (rules : Rules) (pattern : List Char) (depth : Nat) (inner : Reader Fault Node) :
    Prop :=
  ∀ c cs, c :: cs <:+ pattern →
    Agrees pattern depth cs (rules.group.outcome (.before pattern (c :: cs) depth))
      (inner.read cs)

section

variable {rules : Rules} {inner : Reader Fault Node}

/-- A walk over an atom comes to what its reading gives, if one over a group does. -/
theorem agrees_atom (hg : Follows rules pattern depth inner) {c : Char} (h : c :: cs <:+ pattern) :
    Agrees pattern depth cs (rules.atom.outcome (.before pattern (c :: cs) depth))
      (Pattern.atom inner c cs) := by
  rw [Rules.atom, outcome_peek_bind h, List.getElem?_cons_zero]
  -- a group, a class, an escape, and any other character, which stands for itself
  split
  · rename_i e
    obtain rfl := Option.some.inj e
    exact hg _ _ h
  · rename_i e
    obtain rfl := Option.some.inj e
    exact agrees_charClass h
  · rename_i e
    obtain rfl := Option.some.inj e
    exact agrees_escape inner h
  · rename_i hgroup hclass hescape
    rw [Pattern.atom.eq_def, if_neg fun e => hgroup (congrArg some e),
      if_neg fun e => hclass (congrArg some e), if_neg fun e => hescape (congrArg some e),
      outcome_advance_bind h]
    exact .ok _ List.suffix_rfl

/-- So does a walk over an atom and what quantifies it, … -/
theorem agrees_item (hg : Follows rules pattern depth inner) {c : Char} (h : c :: cs <:+ pattern) :
    Agrees pattern depth cs (rules.item.outcome (.before pattern (c :: cs) depth))
      (Pattern.item inner c cs) := by
  have hread : Pattern.item inner c cs =
      (Pattern.atom inner c cs).bind fun p => Pattern.quantified p.1 p.2 := by
    rw [Pattern.item]
    cases Pattern.atom inner c cs <;> rfl
  rw [Rules.item, hread]
  exact (agrees_atom hg h).bind fun node rest _ hrest =>
    (agrees_quantified node (hrest.trans (suffix_of_cons h))).mono hrest

/-- The items of a sequence are read one after the other. -/
theorem items_cons_eq {c : Char} (hc : ¬ endsSequence c) (cs : List Char) :
    Pattern.items inner (c :: cs) = (Pattern.item inner c cs).bind fun p =>
      (Pattern.items inner p.2).bind fun q => .ok (p.1 :: q.1, q.2) := by
  rw [Pattern.items, if_neg hc]
  split
  · rename_i e
    rw [e]
    rfl
  · rename_i node rest e
    rw [e]
    show _ = (Pattern.items inner rest).bind _
    cases Pattern.items inner rest <;> rfl

/-- … one over the items of a sequence, each of which leaves less of the pattern, … -/
theorem agrees_items (hg : Follows rules pattern depth inner) : ∀ cs : List Char, cs <:+ pattern →
    Agrees pattern depth cs (rules.items.outcome (.before pattern cs depth))
      (Pattern.items inner cs)
  | [], h => by
      rw [Rules.items, outcome_atEnd_bind h, Pattern.items]
      exact .ok _ List.suffix_rfl
  | c :: cs, h => by
      rw [Rules.items, outcome_atEnd_bind h, outcome_peek_bind h, List.getElem?_cons_zero]
      by_cases hc : endsSequence c
      · rw [Pattern.items, if_pos hc, if_pos (by simpa using hc)]
        exact .ok _ List.suffix_rfl
      · rw [items_cons_eq hc, if_neg (by simpa using hc)]
        refine ((agrees_item hg h).bind fun first rest _ hrest => ?_).mono (List.suffix_cons c cs)
        -- the item has moved on, so the rest is shorter and the recursion ends
        have hshorter : rest.length < (c :: cs).length := Nat.lt_succ_of_le hrest.length_le
        have hothers := agrees_items hg rest (hrest.trans (suffix_of_cons h))
        exact (hothers.mono hrest).bind fun _ _ _ hrest' => .ok _ hrest'
termination_by cs => cs.length
decreasing_by exact hshorter

/-- The alternatives of an alternation are read as long as a `|` comes next. -/
theorem alternatives_eq (cs : List Char) :
    Pattern.alternatives inner cs = (Pattern.items inner cs).bind fun p =>
      match p.2 with
      | [] => .ok ([.ofItems p.1], [])
      | c :: rest =>
        if c = '|' then
          (Pattern.alternatives inner rest).bind fun q => .ok (.ofItems p.1 :: q.1, q.2)
        else .ok ([.ofItems p.1], c :: rest) := by
  rw [Pattern.alternatives]
  -- the items end with an error, in front of a bar, or in front of anything else
  split
  · rename_i e
    rw [e]
    rfl
  · rename_i rest e
    rw [e]
    show _ = (Pattern.alternatives inner rest).bind _
    cases Pattern.alternatives inner rest <;> rfl
  · rename_i nodes rest hbar e
    rw [e]
    cases rest with
    | nil => rfl
    | cons c rest => exact (if_neg fun hc => hbar rest (by rw [hc])).symm

/-- … one over the alternatives of a choice, … -/
theorem agrees_alternatives (hg : Follows rules pattern depth inner) (cs : List Char)
    (h : cs <:+ pattern) :
    Agrees pattern depth cs (rules.alternatives.outcome (.before pattern cs depth))
      (Pattern.alternatives inner cs) := by
  rw [Rules.alternatives, alternatives_eq]
  refine (agrees_items hg cs h).bind fun first rest _ hrest => ?_
  have hsuffix := hrest.trans h
  rw [outcome_peek_bind hsuffix]
  cases rest with
  | nil => exact .ok _ hrest
  | cons c rest =>
      simp only [List.getElem?_cons_zero]
      by_cases hc : c = '|'
      · subst hc
        rw [if_pos (by rfl), if_pos rfl, outcome_advance_bind hsuffix]
        have hshorter : rest.length < cs.length := hrest.length_le
        -- behind the bar there is less of the pattern
        have hothers := agrees_alternatives hg rest (suffix_of_cons hsuffix)
        exact (hothers.mono (suffix_of_cons hrest)).bind fun _ _ _ hrest' => .ok _ hrest'
      · rw [if_neg (by simpa using hc), if_neg hc]
        exact .ok _ hrest
termination_by cs.length
decreasing_by exact hshorter

/-- … and one over all of them, of which a single one stands for itself. -/
theorem agrees_alternation (hg : Follows rules pattern depth inner) (h : cs <:+ pattern) :
    Agrees pattern depth cs (rules.alternation.outcome (.before pattern cs depth))
      (Pattern.alternation inner cs) := by
  have hread : Pattern.alternation inner cs = (Pattern.alternatives inner cs).bind fun p =>
      .ok (.ofAlternatives p.1, p.2) := by
    rw [Pattern.alternation]
    cases Pattern.alternatives inner cs <;> rfl
  rw [Rules.alternation, hread]
  exact (agrees_alternatives hg cs h).bind fun _ _ _ hrest => .ok _ hrest

/-- What follows the content of a group closes it, or the group has no end. -/
theorem enclosed_eq (cs : List Char) :
    enclosed inner cs = (Pattern.alternation inner (Pattern.groupKind cs).2).bind fun p =>
      match p.2 with
      | ')' :: rest => .ok (.group p.1 (Pattern.groupKind cs).1, rest)
      | rest => .error ⟨.unterminatedGroup, rest.length⟩ := by
  simp only [enclosed]
  -- no content, content that is closed, and content that is not
  split
  · rename_i e
    rw [e]
    rfl
  · rename_i e
    rw [e]
    rfl
  · rename_i content rest hclose e
    rw [e]
    simp only [Except.bind]

end

/-- **Walking over a group is reading it**, however many groups are open.  The content of a
group is followed with one group more open and one less to be opened; since an alternation
is read up to a `)` or the end, the character behind it can be taken unseen. -/
theorem follows_group (rules : Rules) (pattern : List Char) (depth : Nat) :
    Follows rules pattern depth (Pattern.group (rules.maxNesting - depth)) := by
  -- by induction on how much deeper groups may be nested
  generalize hleft : rules.maxNesting - depth = left
  induction left generalizing depth with
  | zero =>
      intro c cs h
      have hdeep : rules.maxNesting ≤ (Cursor.before pattern (c :: cs) depth).depth :=
        Nat.le_of_sub_eq_zero hleft
      rw [Rules.group, outcome_get_bind, if_pos hdeep]
      exact .error ⟨.nestingTooDeep, cs.length + 1⟩
  | succ left ih =>
      intro c cs h
      have hopen : ¬ rules.maxNesting ≤ (Cursor.before pattern (c :: cs) depth).depth := by
        show ¬ rules.maxNesting ≤ depth
        omega
      have hcs := suffix_of_cons h
      have hbody := groupKind_suffix cs
      have hcontent := agrees_alternation (ih (depth + 1) (by omega)) (hbody.trans hcs)
      show Agrees _ _ _ _ (enclosed (Pattern.group left) cs)
      rw [Rules.group, outcome_get_bind, if_neg hopen, outcome_advance_bind h,
        outcome_groupKind_bind hcs, outcome_enter_bind, enclosed_eq]
      refine (hcontent.mono hbody).bind fun content rest hr hrest => ?_
      -- an alternation ends at a closing bracket or at the end of the pattern
      obtain ⟨-, -, hend⟩ := (alternation_eq_ok_iff (exact_group left)).1 hr
      rw [outcome_leave_bind]
      cases rest with
      | nil =>
          rw [outcome_expectMore_bind_nil]
          exact .error ⟨.unterminatedGroup, 0⟩
      | cons d rest =>
          obtain rfl := hend d rest rfl
          have hclose := hrest.trans hcs
          rw [outcome_expectMore_bind_cons hclose, outcome_advance_bind hclose]
          exact .ok _ (suffix_of_cons hrest)

/-! ### The end of the pattern -/

/-- Whether a walk breaks off where there is no character left. -/
def NeedsMore {β : Type} (walk : Walk β) : Prop :=
  ∀ cursor : Cursor, cursor.pattern.length ≤ cursor.position →
    ∃ halt, walk.outcome cursor = some (.error halt)

section

variable {β γ : Type} {cursor : Cursor} (rules : Rules)

/-- At the end of the pattern there is nothing ahead, … -/
theorem outcome_peek_bind_end (h : cursor.pattern.length ≤ cursor.position) (ahead : Nat)
    (next : Option Char → Walk β) :
    (peek ahead >>= next).outcome cursor = (next none).outcome cursor := by
  show (next cursor.pattern[cursor.position + ahead]?).outcome cursor = _
  rw [List.getElem?_eq_none (Nat.le_add_right_of_le h)]

/-- … and this can be told. -/
theorem outcome_atEnd_bind_end (h : cursor.pattern.length ≤ cursor.position)
    (next : Bool → Walk β) :
    (atEnd >>= next).outcome cursor = (next true).outcome cursor := by
  show (next (decide (cursor.pattern.length ≤ cursor.position))).outcome cursor = _
  rw [decide_eq_true h]

/-- To take a character is out of range where there is none, and only there. -/
theorem outcome_advance_eq_outOfRange_iff (cursor : Cursor) :
    advance.outcome cursor = some (.error .outOfRange) ↔
      cursor.pattern.length ≤ cursor.position := by
  rw [outcome_advance, ← List.getElem?_eq_none_iff]
  cases cursor.pattern[cursor.position]? <;> simp

/-- There is no step over the end of the pattern. -/
theorem needsMore_advance : advance.NeedsMore := fun cursor h =>
  ⟨.outOfRange, (outcome_advance_eq_outOfRange_iff cursor).2 h⟩

/-- A walk that breaks off at the end does so with anything behind it. -/
theorem NeedsMore.bind {walk : Walk β} (h : walk.NeedsMore) (next : β → Walk γ) :
    (walk >>= next).NeedsMore := fun cursor hend =>
  (h cursor hend).imp fun _ => outcome_bind_error

/-- A brace quantifier begins with a step, … -/
theorem needsMore_braces : braces.NeedsMore := fun cursor h => by
  rw [braces, outcome_get_bind]
  exact needsMore_advance.bind _ cursor h

/-- … so does a class, … -/
theorem needsMore_charClass : charClass.NeedsMore := needsMore_advance.bind _

/-- … so does a group, once it is known that it is not too deep, … -/
theorem needsMore_group : rules.group.NeedsMore := fun cursor h => by
  rw [Rules.group, outcome_get_bind]
  split
  · exact ⟨_, rfl⟩
  · exact needsMore_advance.bind _ cursor h

/-- … so does a member of a class, … -/
theorem needsMore_member : member.NeedsMore := fun cursor h => by
  rw [member, outcome_peek_bind_end h, if_neg (by decide), outcome_peek_bind_end h,
    outcome_peek_bind_end h, if_neg (by decide)]
  exact needsMore_advance.bind _ cursor h

/-- … and so does an item. -/
theorem needsMore_item : rules.item.NeedsMore := fun cursor h => by
  have hatom : ∃ halt, rules.atom.outcome cursor = some (.error halt) := by
    rw [Rules.atom, outcome_peek_bind_end h]
    exact needsMore_advance.bind _ cursor h
  rw [Rules.item]
  exact hatom.imp fun _ => outcome_bind_error

/-- At the end, and behind it, there is an alternation without a character. -/
theorem outcome_alternation_end (h : cursor.pattern.length ≤ cursor.position) :
    rules.alternation.outcome cursor = some (.ok (.ofAlternatives [.ofItems []], cursor)) := by
  have hitems : rules.items.outcome cursor = some (.ok ([], cursor)) := by
    rw [Rules.items, outcome_atEnd_bind_end h, outcome_peek_bind_end h]
    rfl
  have halternatives : rules.alternatives.outcome cursor = some (.ok ([.ofItems []], cursor)) := by
    rw [Rules.alternatives, outcome_bind_ok hitems, outcome_peek_bind_end h]
    rfl
  rw [Rules.alternation, outcome_bind_ok halternatives]
  rfl

end

/-! ### Where a walk stops -/

/-- Whether a walk that comes to a result has passed at least one character, and none behind
the pattern, and has as many groups open as before. -/
def MovesOn {β : Type} (walk : Walk β) : Prop :=
  ∀ cursor v finish, walk.outcome cursor = some (.ok (v, finish)) →
    ∃ p, cursor.position < p ∧ p ≤ cursor.pattern.length ∧
      finish = { cursor with position := p }

/-- Whether a walk that comes to a result has taken `closer` last, behind at least one other
character, and has as many groups open as before. -/
def TakesLast {β : Type} (closer : Char) (walk : Walk β) : Prop :=
  ∀ cursor v finish, walk.outcome cursor = some (.ok (v, finish)) →
    ∃ p, cursor.position < p ∧ cursor.pattern[p]? = some closer ∧
      finish = { cursor with position := p + 1 }

section

variable {β : Type} {walk : Walk β} {cursor finish : Cursor} {v : β}

/-- A walk that needs a character comes to a result only in front of one. -/
theorem NeedsMore.exists_before (h : walk.NeedsMore)
    (hresult : walk.outcome cursor = some (.ok (v, finish))) :
    ∃ pattern depth c cs, c :: cs <:+ pattern ∧ cursor = .before pattern (c :: cs) depth := by
  by_cases hend : cursor.pattern.length ≤ cursor.position
  · obtain ⟨halt, hhalt⟩ := h cursor hend
    rw [hresult] at hhalt
    cases hhalt
  · have hlt := Nat.lt_of_not_le hend
    have hsuffix := List.drop_suffix cursor.position cursor.pattern
    have hcursor := before_drop (Nat.le_of_lt hlt)
    rw [List.drop_eq_getElem_cons hlt] at hsuffix hcursor
    exact ⟨_, _, _, _, hsuffix, hcursor.symm⟩

/-- What a walk that agrees with a reading has left over. -/
theorem Agrees.eq_before {r : Reading Fault β}
    (h : Agrees pattern depth cs (some (.ok (v, finish))) r) :
    ∃ rest, rest <:+ cs ∧ r = .ok (v, rest) ∧ finish = .before pattern rest depth := by
  cases h with
  | ok v hrest => exact ⟨_, hrest, rfl, rfl⟩

/-- A walk that agrees with a reading behind its first character has passed that character. -/
theorem MovesOn.of_agrees (hmore : walk.NeedsMore)
    (h : ∀ pattern depth c cs, c :: cs <:+ pattern →
      ∃ r, Agrees pattern depth cs (walk.outcome (.before pattern (c :: cs) depth)) r) :
    walk.MovesOn := by
  intro cursor v finish hresult
  obtain ⟨pattern, depth, c, cs, hsuffix, rfl⟩ := hmore.exists_before hresult
  obtain ⟨r, hr⟩ := h pattern depth c cs hsuffix
  rw [hresult] at hr
  obtain ⟨rest, hrest, -, rfl⟩ := hr.eq_before
  exact ⟨_, position_before_lt hsuffix hrest, Nat.sub_le _ _, rfl⟩

/-- A walk that agrees with a reading that ends with a character has taken this character last.
-/
theorem TakesLast.of_agrees {closer : Char} (hmore : walk.NeedsMore)
    (h : ∀ pattern depth c cs, c :: cs <:+ pattern →
      ∃ r, Agrees pattern depth cs (walk.outcome (.before pattern (c :: cs) depth)) r ∧
        ∀ v rest, r = .ok (v, rest) → closer :: rest <:+ cs) :
    walk.TakesLast closer := by
  intro cursor v finish hresult
  obtain ⟨pattern, depth, c, cs, hsuffix, rfl⟩ := hmore.exists_before hresult
  obtain ⟨r, hr, hcloser⟩ := h pattern depth c cs hsuffix
  rw [hresult] at hr
  obtain ⟨rest, -, hread, rfl⟩ := hr.eq_before
  have hlast := hcloser v rest hread
  have hrest := hlast.trans (suffix_of_cons hsuffix)
  refine ⟨_, position_before_lt hsuffix hlast, getElem?_before hrest 0, ?_⟩
  rw [Cursor.before, ← position_before_succ hrest]
  rfl

end

/-- **A walk over an item moves on**, so a walk over all of them ends. -/
theorem movesOn_item (rules : Rules) : rules.item.MovesOn :=
  .of_agrees (needsMore_item rules) fun pattern depth _ _ h =>
    ⟨_, agrees_item (follows_group rules pattern depth) h⟩

/-- A walk over a member of a class moves on. -/
theorem movesOn_member : member.MovesOn := .of_agrees needsMore_member fun _ _ _ _ h =>
  ⟨_, agrees_member h⟩

/-- A group ends with the bracket that closes it, … -/
theorem takesLast_group (rules : Rules) : rules.group.TakesLast ')' := by
  refine .of_agrees (needsMore_group rules) fun pattern depth c cs h =>
    ⟨_, follows_group rules pattern depth c cs h, fun node rest hread => ?_⟩
  obtain ⟨hnode, htext⟩ := (exact_group _ _ _ _).1 hread
  obtain ⟨content, kind, rfl⟩ := hnode.eq_group htext
  refine ⟨kind.opening.toList ++ content.text, ?_⟩
  simpa [Node.text] using htext.symm

/-- … a class with the one that closes it, … -/
theorem takesLast_charClass : charClass.TakesLast ']' := by
  refine .of_agrees needsMore_charClass fun pattern depth c cs h =>
    ⟨_, agrees_charClass h, fun node rest hread => ?_⟩
  obtain ⟨items, negated, -, -, rfl⟩ := charClass_sound hread
  rw [classText_append]
  exact (List.suffix_append _ _).trans (List.suffix_append _ _)

/-- … and a brace quantifier with its closing brace. -/
theorem takesLast_braces : braces.TakesLast '}' := by
  refine .of_agrees needsMore_braces fun pattern depth c cs h =>
    ⟨_, agrees_braces h, fun text rest hread => ?_⟩
  cases hbody : Pattern.braces cs with
  | error e =>
      rw [hbody] at hread
      cases hread
  | ok p =>
      rw [hbody] at hread
      obtain ⟨-, rfl⟩ := Prod.mk.inj (Except.ok.inj hread)
      obtain ⟨body, hclosed, -, htext⟩ := braces_sound hbody
      rw [htext, hclosed, List.append_assoc]
      exact List.suffix_append body _

/-- **An alternation stops at the end or in front of a `)`**, wherever it begins and however
many groups are open, or the pattern is refused. -/
theorem alternation_stops (rules : Rules) (cursor : Cursor) :
    (∃ node p,
      rules.alternation.outcome cursor = some (.ok (node, { cursor with position := p })) ∧
      cursor.position ≤ p ∧
      (p = max cursor.position cursor.pattern.length ∨ cursor.pattern[p]? = some ')')) ∨
    ∃ cause offset, rules.alternation.outcome cursor = some (.error (.refused cause offset)) := by
  rcases le_total cursor.pattern.length cursor.position with hend | hle
  · refine .inl ⟨_, cursor.position, outcome_alternation_end rules hend, le_rfl, .inl ?_⟩
    exact (max_eq_left hend).symm
  -- from inside the pattern the walk agrees with the reading of what is left of it
  have hsuffix := List.drop_suffix cursor.position cursor.pattern
  have hagrees := agrees_alternation (follows_group rules cursor.pattern cursor.depth) hsuffix
  rw [before_drop hle] at hagrees
  generalize hreached : rules.alternation.outcome cursor = reached at hagrees
  generalize hread : Pattern.alternation _ _ = r at hagrees
  cases hagrees with
  | error e => exact .inr ⟨_, _, rfl⟩
  | @ok node rest hrest =>
      refine .inl ⟨node, cursor.pattern.length - rest.length, rfl, ?_, ?_⟩
      · have hlen := hrest.length_le
        rw [List.length_drop] at hlen
        omega
      -- and a reading that succeeds ends where an alternation does
      obtain ⟨-, -, hends⟩ := (alternation_eq_ok_iff (exact_group _)).1 hread
      cases rest with
      | nil => exact .inl (max_eq_right hle).symm
      | cons c rest =>
          obtain rfl := hends c rest rfl
          exact .inr (getElem?_before (hrest.trans hsuffix) 0)

/-- **A walk over a whole pattern does what reading it does**: it has an end, and it is
refused where reading is. -/
theorem outcome_pattern (text : String) :
    (Rules.pattern ⟨maxNesting⟩).outcome ⟨text.toList, 0, 0⟩ = some (match parse text with
      | .ok tree => .ok (tree, ⟨text.toList, text.toList.length, 0⟩)
      | .error e => .error (.refused e.cause e.offset)) := by
  have hstart : (⟨text.toList, 0, 0⟩ : Cursor) = .before text.toList text.toList 0 := by
    rw [Cursor.before, Nat.sub_self]
  have hagrees := agrees_alternation (follows_group ⟨maxNesting⟩ text.toList 0) List.suffix_rfl
  rw [hstart, Rules.pattern, parse]
  generalize hreached : (Rules.alternation ⟨maxNesting⟩).outcome _ = reached at hagrees
  generalize Pattern.alternation _ _ = r at hagrees ⊢
  cases hagrees with
  | error e => exact outcome_bind_error hreached
  | @ok tree rest hrest =>
      rw [outcome_bind_ok hreached, outcome_atEnd_bind hrest]
      cases rest <;> rfl

/-- **No walk over a pattern takes a character that is not there**, and what it takes unseen
is what it relies on, whatever the rules say. -/
theorem walk_is_safe (rules : Rules) :
    -- To take a character is out of range at the end and behind it.
    (∀ cursor, advance.outcome cursor = some (.error .outOfRange) ↔
      cursor.pattern.length ≤ cursor.position) ∧
    -- A walk over a whole pattern has an end, which is its tree or an error in it,
    (∀ text : String, (Rules.pattern ⟨maxNesting⟩).outcome ⟨text.toList, 0, 0⟩ =
      some (match parse text with
        | .ok tree => .ok (tree, ⟨text.toList, text.toList.length, 0⟩)
        | .error e => .error (.refused e.cause e.offset))) ∧
    -- and so has a walk over an alternation from any place at any depth: it comes to the
    -- end or in front of a closing parenthesis, at the depth of its beginning.
    (∀ cursor,
      (∃ node p,
        rules.alternation.outcome cursor = some (.ok (node, { cursor with position := p })) ∧
        cursor.position ≤ p ∧
        (p = max cursor.position cursor.pattern.length ∨ cursor.pattern[p]? = some ')')) ∨
      ∃ cause offset,
        rules.alternation.outcome cursor = some (.error (.refused cause offset))) ∧
    -- What is taken last is what closes a group, a class or a quantifier,
    rules.group.TakesLast ')' ∧ charClass.TakesLast ']' ∧ braces.TakesLast '}' ∧
    -- and there is something to every item and to every member of a class.
    rules.item.MovesOn ∧ member.MovesOn :=
  ⟨outcome_advance_eq_outOfRange_iff, outcome_pattern, alternation_stops rules,
    takesLast_group rules, takesLast_charClass, takesLast_braces, movesOn_item rules,
    movesOn_member⟩

end Walk
end Pattern
end Railroad
