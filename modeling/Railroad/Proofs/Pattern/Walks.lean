/-
# Walking is reading

A walk over a pattern does what the reading of the text in front of the cursor does: it
comes to the same tree, behind the same characters, or is refused for the same cause at
the same place (`Agrees`).  The text in front of the cursor is a suffix of the pattern,
which is all that has to be known of where the cursor stands (`Cursor.before`).

A walk is followed step by step with one equation for each step, and agreement goes on
from one part of a walk to the next (`Agrees.bind`).  So each production is compared with
its reading once, and the parts that do not contain each other come here: quantifiers
(`agrees_quantified`), classes (`agrees_charClass`) and the openings of groups
(`outcome_groupKind_bind`).
-/

import Railroad.Proofs.Pattern.Cursor
import Railroad.Proofs.Pattern.Exactness

namespace Railroad
namespace Pattern

open Text

variable {pattern cs : List Char} {depth : Nat}

/-- Behind its first character a rest of the pattern is a rest of it. -/
theorem suffix_of_cons {c : Char} (h : c :: cs <:+ pattern) : cs <:+ pattern :=
  (List.suffix_cons c cs).trans h

namespace Cursor

/-- The cursor in front of the rest of a pattern. -/
def before (pattern rest : List Char) (depth : Nat) : Cursor :=
  ⟨pattern, pattern.length - rest.length, depth⟩

/-- What is ahead of a cursor in the pattern is ahead in the rest behind it. -/
theorem getElem?_before (h : cs <:+ pattern) (ahead : Nat) :
    pattern[pattern.length - cs.length + ahead]? = cs[ahead]? := by
  obtain ⟨front, rfl⟩ := h
  rw [List.length_append, Nat.add_sub_cancel, List.getElem?_append_right (Nat.le_add_right ..),
    Nat.add_sub_cancel_left]

/-- One character further on. -/
theorem position_before_succ {c : Char} (h : c :: cs <:+ pattern) :
    pattern.length - (c :: cs).length + 1 = pattern.length - cs.length := by
  have hlen := h.length_le
  rw [List.length_cons] at hlen ⊢
  omega

/-- What is left over behind a character begins further on. -/
theorem position_before_lt {c : Char} {rest : List Char} (h : c :: cs <:+ pattern)
    (hrest : rest <:+ cs) :
    (before pattern (c :: cs) depth).position < (before pattern rest depth).position := by
  have hnext := position_before_succ h
  have hlen := hrest.length_le
  simp only [before]
  omega

/-- A cursor is in front of what has not been passed. -/
theorem before_drop {cursor : Cursor} (h : cursor.position ≤ cursor.pattern.length) :
    before cursor.pattern (cursor.pattern.drop cursor.position) cursor.depth = cursor := by
  rw [before, List.length_drop, Nat.sub_sub_self h]

end Cursor

namespace Walk

open Cursor

/-! ### Steps -/

section

variable {β γ : Type} {walk : Walk β} {next : β → Walk γ} {cursor cursor' : Cursor} {v : β}
  {halt : Halt}

theorem outcome_get_bind (next : Cursor → Walk γ) (cursor : Cursor) :
    (get >>= next).outcome cursor = (next cursor).outcome cursor := rfl

/-- A walk goes on from the cursor that the first part left. -/
theorem outcome_bind_ok (h : walk.outcome cursor = some (.ok (v, cursor'))) :
    (walk >>= next).outcome cursor = (next v).outcome cursor' := by
  simp only [outcome] at h
  simp only [outcome, StateT.run_bind, ExceptT.run_bind, h]
  rfl

/-- What breaks off is not gone on with. -/
theorem outcome_bind_error (h : walk.outcome cursor = some (.error halt)) :
    (walk >>= next).outcome cursor = some (.error halt) := by
  simp only [outcome] at h
  simp only [outcome, StateT.run_bind, ExceptT.run_bind, h]
  rfl

/-- A step takes the character at the cursor; where there is none it is out of range. -/
theorem outcome_advance (cursor : Cursor) :
    advance.outcome cursor = match cursor.pattern[cursor.position]? with
      | none => some (.error .outOfRange)
      | some c => some (.ok (c, { cursor with position := cursor.position + 1 })) := by
  rw [advance, outcome_get_bind]
  cases cursor.pattern[cursor.position]? <;> rfl

end

section

variable {β : Type}

/-- A look ahead sees what the rest of the pattern has there, and moves nothing. -/
theorem outcome_peek_bind (h : cs <:+ pattern) (ahead : Nat) (next : Option Char → Walk β) :
    (peek ahead >>= next).outcome (.before pattern cs depth) =
      (next cs[ahead]?).outcome (.before pattern cs depth) := by
  rw [← getElem?_before h]
  rfl

/-- The end of the pattern is where nothing is left of it. -/
theorem outcome_atEnd_bind (h : cs <:+ pattern) (next : Bool → Walk β) :
    (atEnd >>= next).outcome (.before pattern cs depth) =
      (next cs.isEmpty).outcome (.before pattern cs depth) := by
  have hend : decide (pattern.length ≤ pattern.length - cs.length) = cs.isEmpty := by
    cases cs with
    | nil => exact decide_eq_true (Nat.le_refl _)
    | cons c cs =>
        have hnext := position_before_succ h
        exact decide_eq_false (by omega)
  rw [← hend]
  rfl

/-- A step takes the first character of the rest, and never misses one that is there. -/
theorem outcome_advance_bind {c : Char} (h : c :: cs <:+ pattern) (next : Char → Walk β) :
    (advance >>= next).outcome (.before pattern (c :: cs) depth) =
      (next c).outcome (.before pattern cs depth) := by
  have hc : pattern[(before pattern (c :: cs) depth).position]? = some c := getElem?_before h 0
  refine outcome_bind_ok ?_
  rw [outcome_advance]
  simp only [before] at hc ⊢
  rw [hc, position_before_succ h]

/-- A walk comes to a character or to the end of the pattern, and moves nothing. -/
theorem outcome_comesTo (h : cs <:+ pattern) (c : Char) :
    (comesTo c).outcome (.before pattern cs depth) =
      some (.ok (cs.isEmpty || cs[0]? == some c, .before pattern cs depth)) := by
  rw [comesTo, outcome_atEnd_bind h]
  cases cs with
  | nil => rfl
  | cons d cs =>
      show Walk.outcome (peek 0 >>= _) _ = _
      rw [outcome_peek_bind h]
      rfl

/-- Collecting ends where it should stop. -/
theorem outcome_collect_stop {walk : Walk β} {stop : Walk Bool} {cursor : Cursor}
    (h : stop.outcome cursor = some (.ok (true, cursor))) :
    (walk.collect stop).outcome cursor = some (.ok ([], cursor)) := by
  rw [collect, outcome_bind_ok h]
  rfl

/-- At the end of the pattern something is unfinished. -/
theorem outcome_expectMore_bind_nil (cause : Cause) (next : Unit → Walk β) :
    (expectMore cause >>= next).outcome (.before pattern [] depth) =
      some (.error (.refused cause pattern.length)) := by
  refine outcome_bind_error ?_
  rw [expectMore, outcome_atEnd_bind List.nil_suffix]
  rfl

/-- Where a character is left, the walk goes on. -/
theorem outcome_expectMore_bind_cons {c : Char} (h : c :: cs <:+ pattern) (cause : Cause)
    (next : Unit → Walk β) :
    (expectMore cause >>= next).outcome (.before pattern (c :: cs) depth) =
      (next ()).outcome (.before pattern (c :: cs) depth) := by
  refine outcome_bind_ok ?_
  rw [expectMore, outcome_atEnd_bind h]
  rfl

/-- Entering a group opens it. -/
theorem outcome_enter_bind (next : Unit → Walk β) :
    (enter >>= next).outcome (.before pattern cs depth) =
      (next ()).outcome (.before pattern cs (depth + 1)) := rfl

/-- Leaving a group closes it. -/
theorem outcome_leave_bind (next : Unit → Walk β) :
    (leave >>= next).outcome (.before pattern cs (depth + 1)) =
      (next ()).outcome (.before pattern cs depth) := rfl

end

/-! ### Agreement -/

/-- Whether a walk comes to what a reading gives, with a rest of `cs` left over, and with as
many groups open as `depth` says. -/
inductive Agrees {β : Type} (pattern : List Char) (depth : Nat) (cs : List Char) :
    Option (Except Halt (β × Cursor)) → Reading Fault β → Prop where
  | ok (v : β) {rest : List Char} (h : rest <:+ cs) :
      Agrees pattern depth cs (some (.ok (v, .before pattern rest depth))) (.ok (v, rest))
  | error (e : Fault) :
      Agrees pattern depth cs (some (.error (.refused e.cause (pattern.length - e.left))))
        (.error e)

section

variable {β γ : Type} {reached : Option (Except Halt (β × Cursor))} {r : Reading Fault β}

/-- A walk that agrees with what is left of a text agrees with what is left of a longer one. -/
theorem Agrees.mono {others : List Char} (h : Agrees pattern depth others reached r)
    (hcs : others <:+ cs) : Agrees pattern depth cs reached r := by
  cases h with
  | ok v hrest => exact .ok v (hrest.trans hcs)
  | error e => exact .error e

/-- Agreement of one part, and of what comes behind it wherever the first part ends, is
agreement of the whole.  How many groups are open may change in between. -/
theorem Agrees.bind {depth' : Nat} {walk : Walk β} {next : β → Walk γ} {cursor : Cursor}
    {g : β × List Char → Reading Fault γ} (h : Agrees pattern depth' cs (walk.outcome cursor) r)
    (hnext : ∀ v rest, r = .ok (v, rest) → rest <:+ cs →
      Agrees pattern depth cs ((next v).outcome (.before pattern rest depth')) (g (v, rest))) :
    Agrees pattern depth cs ((walk >>= next).outcome cursor) (r.bind g) := by
  generalize hreached : walk.outcome cursor = reached at h
  cases h with
  | ok v hrest =>
      rw [outcome_bind_ok hreached]
      exact hnext v _ rfl hrest
  | error e =>
      rw [outcome_bind_error hreached]
      exact .error e

end

/-! ### Escapes and quantifiers -/

/-- A walk over an escape comes to what its reading gives. -/
theorem agrees_escape (group : Reader Fault Node) (h : '\\' :: cs <:+ pattern) :
    Agrees pattern depth cs (escape.outcome (.before pattern ('\\' :: cs) depth))
      (Pattern.atom group '\\' cs) := by
  have hcs := suffix_of_cons h
  rw [escape, outcome_advance_bind h]
  cases cs with
  | nil =>
      rw [outcome_expectMore_bind_nil]
      exact .error ⟨.danglingEscape, 0⟩
  | cons d cs =>
      rw [outcome_expectMore_bind_cons hcs, outcome_advance_bind hcs]
      exact .ok _ (List.suffix_cons d cs)

/-- Stepping up to a character collects what stands before it. -/
theorem outcome_collect_advance (c : Char) (h : cs <:+ pattern) :
    (advance.collect (comesTo c)).outcome (.before pattern cs depth) =
      some (.ok (cs.takeWhile (· != c), .before pattern (cs.dropWhile (· != c)) depth)) := by
  induction cs with
  | nil => exact outcome_collect_stop (outcome_comesTo h c)
  | cons d cs ih =>
      rw [collect, outcome_bind_ok (outcome_comesTo h c), List.getElem?_cons_zero,
        List.takeWhile_cons, List.dropWhile_cons]
      by_cases hd : d = c
      · rw [if_pos (by simpa using hd), if_neg (by simpa using hd), if_neg (by simpa using hd)]
        rfl
      · rw [if_neg (by simpa using hd), if_pos (by simpa using hd), if_pos (by simpa using hd),
          outcome_advance_bind h, outcome_bind_ok (ih (suffix_of_cons h))]
        rfl

/-- A brace quantifier is what comes in front of the first `}`, and the `}`. -/
theorem braces_eq (cs : List Char) :
    Pattern.braces cs = match cs.dropWhile (· != '}') with
      | [] => .error ⟨.unterminatedQuantifier, 0⟩
      | d :: rest => .ok (cs.takeWhile (· != '}') ++ [d], rest) := by
  induction cs with
  | nil => rfl
  | cons c cs ih =>
      rw [Pattern.braces, List.dropWhile_cons, List.takeWhile_cons]
      by_cases hc : c = '}'
      · rw [if_pos hc, if_neg (by simpa using hc), if_neg (by simpa using hc)]
        rfl
      · rw [if_neg hc, if_pos (by simpa using hc), if_pos (by simpa using hc), ih]
        cases cs.dropWhile (· != '}') <;> rfl

/-- What lies between two places of a pattern is cut out of it. -/
theorem drop_take_before {text rest : List Char} (h : text ++ rest <:+ pattern) :
    (pattern.take (pattern.length - rest.length)).drop
      (pattern.length - (text ++ rest).length) = text := by
  obtain ⟨front, rfl⟩ := h
  have hfinish : (front ++ (text ++ rest)).length - rest.length = (front ++ text).length := by
    simp only [List.length_append]
    omega
  rw [hfinish, ← List.append_assoc, List.take_left, List.append_assoc, List.length_append,
    Nat.add_sub_cancel, List.drop_left]

/-- A walk over a brace quantifier comes to what its reading gives. -/
theorem agrees_braces {c : Char} (h : c :: cs <:+ pattern) :
    Agrees pattern depth cs (braces.outcome (.before pattern (c :: cs) depth))
      ((Pattern.braces cs).bind fun p => .ok (String.ofList (c :: p.1), p.2)) := by
  have hcs := suffix_of_cons h
  have hcut := List.takeWhile_append_dropWhile (p := (· != '}')) (l := cs)
  rw [braces, outcome_get_bind, outcome_advance_bind h,
    outcome_bind_ok (outcome_collect_advance '}' hcs), braces_eq]
  -- what is behind the collected characters: nothing, or the closing brace
  cases hrest : cs.dropWhile (· != '}') with
  | nil =>
      rw [outcome_expectMore_bind_nil]
      exact .error ⟨.unterminatedQuantifier, 0⟩
  | cons d rest =>
      rw [hrest] at hcut
      have hsuffix : d :: rest <:+ cs := hcut ▸ List.suffix_append _ _
      have htext : c :: cs = c :: (cs.takeWhile (· != '}') ++ [d]) ++ rest := by
        rw [List.cons_append, List.append_assoc, List.singleton_append, hcut]
      -- the text of the quantifier is cut out of the pattern, from where it began
      have hslice := drop_take_before (htext ▸ h)
      rw [← htext] at hslice
      rw [outcome_expectMore_bind_cons (hsuffix.trans hcs),
        outcome_advance_bind (hsuffix.trans hcs), outcome_get_bind]
      simp only [before, hslice]
      exact .ok _ (suffix_of_cons hsuffix)

/-- A walk over what quantifies a node comes to what its reading gives.  Both go by the next
character: one of the three signs is passed by itself, a brace opens a quantifier of its own,
and anything else, the end included, leaves the node as it is. -/
theorem agrees_quantified (node : Node) (h : cs <:+ pattern) :
    Agrees pattern depth cs ((quantified node).outcome (.before pattern cs depth))
      (Pattern.quantified node cs) := by
  rw [quantified, outcome_peek_bind h]
  -- either none of the four signs comes next, the end included, or one of them does
  by_cases hq : NoQuantifier cs
  · rw [quantified_bare node hq]
    cases cs with
    | nil => exact .ok node List.suffix_rfl
    | cons c rest =>
        have hc : c ∉ quantifiers := hq c rest rfl
        simp only [quantifiers, List.mem_cons, List.not_mem_nil, or_false, not_or] at hc
        rw [List.getElem?_cons_zero]
        split
        · rename_i e
          exact absurd (Option.some.inj e) hc.1
        · rename_i e
          exact absurd (Option.some.inj e) hc.2.1
        · rename_i e
          exact absurd (Option.some.inj e) hc.2.2.1
        · rename_i e
          exact absurd (Option.some.inj e) hc.2.2.2
        · exact .ok node List.suffix_rfl
  · simp only [NoQuantifier, not_forall, not_not] at hq
    obtain ⟨c, rest, rfl, hc⟩ := hq
    simp only [quantifiers, List.mem_cons, List.not_mem_nil, or_false] at hc
    have hrest := List.suffix_cons c rest
    rcases hc with rfl | rfl | rfl | rfl
    · exact (outcome_advance_bind h _).symm ▸ .ok _ hrest
    · exact (outcome_advance_bind h _).symm ▸ .ok _ hrest
    · exact (outcome_advance_bind h _).symm ▸ .ok _ hrest
    · have hread : Pattern.quantified node ('{' :: rest) =
          ((Pattern.braces rest).bind fun p => .ok (String.ofList ('{' :: p.1), p.2)).bind
            fun p => .ok (.counted node p.1, p.2) := by
        rw [Pattern.quantified]
        cases Pattern.braces rest <;> rfl
      rw [hread]
      exact ((agrees_braces h).mono hrest).bind fun _ _ _ hrest' => .ok _ hrest'

/-! ### Classes -/

/-- Whether a dash and the end of a range come next. -/
def RangeAhead (cs : List Char) : Prop := ∃ b rest, cs = '-' :: b :: rest ∧ endsRange b = true

/-- The member that begins with `c`, which does not close the class. -/
def nextMember (c : Char) (cs : List Char) : Reading Fault ClassItem :=
  if c = '\\' then
    match cs with
    | [] => .error ⟨.unterminatedClass, 0⟩
    | d :: rest => .ok (.escape (String.ofList ['\\', d]), rest)
  else
    match cs with
    | '-' :: b :: rest =>
      if endsRange b then .ok (.range (String.singleton c) (String.singleton b), rest)
      else .ok (.literal (String.singleton c), cs)
    | _ => .ok (.literal (String.singleton c), cs)

/-- What can end a range is neither a closing bracket nor a backslash. -/
theorem endsRange_iff {b : Char} : endsRange b = true ↔ ¬ (b = ']' ∨ b = '\\') := by
  simp [endsRange]

/-- Looking one and two characters ahead tells whether a range comes next. -/
theorem rangeAhead_iff {c : Char} {cs : List Char} :
    ((c :: cs)[1]? == some '-' && (c :: cs)[2]?.any endsRange) = true ↔ RangeAhead cs := by
  rcases cs with _ | ⟨a, _ | ⟨b, rest⟩⟩ <;> simp [RangeAhead]

/-- Where a range comes next, the member is the range, … -/
theorem nextMember_range {c b : Char} {rest : List Char} (hc : c ≠ '\\')
    (hb : endsRange b = true) :
    nextMember c ('-' :: b :: rest) =
      .ok (.range (String.singleton c) (String.singleton b), rest) := by
  unfold nextMember
  rw [if_neg hc]
  exact if_pos hb

/-- … and otherwise a character stands for itself. -/
theorem nextMember_literal {c : Char} {cs : List Char} (hc : c ≠ '\\') (h : ¬ RangeAhead cs) :
    nextMember c cs = .ok (.literal (String.singleton c), cs) := by
  unfold nextMember
  rw [if_neg hc]
  split
  · rename_i b rest
    exact if_neg fun hb => h ⟨b, rest, rfl, hb⟩
  · rfl

/-- The members of a class are read one after the other. -/
theorem classItems_cons {c : Char} (hc : c ≠ ']') (cs : List Char) :
    Pattern.classItems (c :: cs) = (nextMember c cs).bind fun p =>
      (Pattern.classItems p.2).bind fun q => .ok (p.1 :: q.1, q.2) := by
  -- an escape, a range, or a character by itself, the last with or without a dash behind it
  by_cases hb : c = '\\'
  · subst hb
    cases cs with
    | nil => rfl
    | cons d rest =>
        show _ = (Pattern.classItems rest).bind _
        rw [Pattern.classItems]
        cases Pattern.classItems rest <;> rfl
  by_cases hr : RangeAhead cs
  · obtain ⟨b, rest, rfl, hend⟩ := hr
    rw [nextMember_range hb hend, Pattern.classItems, if_neg (endsRange_iff.1 hend)]
    · show _ = (Pattern.classItems rest).bind _
      cases Pattern.classItems rest <;> rfl
    · exact hc
    · exact hb
  rw [nextMember_literal hb hr]
  show _ = (Pattern.classItems cs).bind _
  by_cases hd : ∃ b rest, cs = '-' :: b :: rest
  · obtain ⟨b, rest, rfl⟩ := hd
    have hend : b = ']' ∨ b = '\\' := not_not.1 fun h => hr ⟨b, rest, rfl, endsRange_iff.2 h⟩
    rw [Pattern.classItems, if_pos hend]
    · cases Pattern.classItems ('-' :: b :: rest) <;> rfl
    · exact hc
    · exact hb
  · rw [Pattern.classItems]
    · cases Pattern.classItems cs <;> rfl
    · exact hc
    · exact fun e => absurd e hb
    · exact fun _ _ e => absurd e hb
    · exact fun b rest e => hd ⟨b, rest, e⟩

/-- A walk over a member of a class comes to what its reading gives. -/
theorem agrees_member {c : Char} (h : c :: cs <:+ pattern) :
    Agrees pattern depth cs (member.outcome (.before pattern (c :: cs) depth))
      (nextMember c cs) := by
  have hcs := suffix_of_cons h
  rw [member, outcome_peek_bind h, List.getElem?_cons_zero]
  -- an escape, and where it is cut short the class is unfinished
  by_cases hc : c = '\\'
  · subst hc
    rw [if_pos (by rfl), outcome_advance_bind h]
    cases cs with
    | nil =>
        rw [outcome_expectMore_bind_nil]
        exact .error ⟨.unterminatedClass, 0⟩
    | cons d cs =>
        rw [outcome_expectMore_bind_cons hcs, outcome_advance_bind hcs]
        exact .ok _ (List.suffix_cons d cs)
  rw [if_neg (by simpa using hc), outcome_peek_bind h, outcome_peek_bind h]
  -- both look two characters ahead for a range
  by_cases hr : RangeAhead cs
  · rw [if_pos (rangeAhead_iff.2 hr)]
    obtain ⟨b, rest, rfl, hend⟩ := hr
    rw [nextMember_range hc hend, outcome_advance_bind h, outcome_advance_bind hcs,
      outcome_advance_bind (suffix_of_cons hcs)]
    exact .ok _ (suffix_of_cons (List.suffix_cons _ _))
  · rw [if_neg (mt rangeAhead_iff.1 hr), nextMember_literal hc hr, outcome_advance_bind h]
    exact .ok _ List.suffix_rfl

/-- A class that is not closed is unfinished at the end of the pattern. -/
theorem outcome_classItems_nil :
    classItems.outcome (.before pattern [] depth) =
      some (.error (.refused .unterminatedClass pattern.length)) := by
  have hstop : (comesTo ']').outcome (.before pattern [] depth) =
      some (.ok (true, .before pattern [] depth)) := outcome_comesTo List.nil_suffix ']'
  rw [classItems, outcome_bind_ok (outcome_collect_stop hstop), outcome_expectMore_bind_nil]

/-- A closing bracket ends the members of a class. -/
theorem outcome_classItems_close (h : ']' :: cs <:+ pattern) :
    classItems.outcome (.before pattern (']' :: cs) depth) =
      some (.ok ([], .before pattern cs depth)) := by
  have hstop : (comesTo ']').outcome (.before pattern (']' :: cs) depth) =
      some (.ok (true, .before pattern (']' :: cs) depth)) := outcome_comesTo h ']'
  rw [classItems, outcome_bind_ok (outcome_collect_stop hstop), outcome_expectMore_bind_cons h,
    outcome_advance_bind h]
  rfl

/-- The members behind the first one are followed by the same `]`. -/
theorem outcome_classItems_cons {c : Char} (h : c :: cs <:+ pattern) (hc : c ≠ ']') :
    classItems.outcome (.before pattern (c :: cs) depth) =
      (do
        let first ← member
        return first :: (← classItems) : Walk _).outcome (.before pattern (c :: cs) depth) := by
  conv_lhs => rw [classItems, collect]
  simp only [bind_assoc]
  rw [outcome_bind_ok (outcome_comesTo h ']'), List.getElem?_cons_zero,
    if_neg (by simpa using hc)]
  simp only [bind_assoc, pure_bind, classItems]

/-- The members of a class are walked over as they are read.  The walk is over the rest of
the pattern, which gets shorter with every member. -/
theorem agrees_classItems : ∀ cs : List Char, cs <:+ pattern →
    Agrees pattern depth cs (classItems.outcome (.before pattern cs depth)) (Pattern.classItems cs)
  | [], _ => by
      rw [outcome_classItems_nil]
      exact .error ⟨.unterminatedClass, 0⟩
  | c :: cs, h => by
      by_cases hc : c = ']'
      · subst hc
        rw [outcome_classItems_close h, Pattern.classItems]
        exact .ok _ (List.suffix_cons _ _)
      · rw [outcome_classItems_cons h hc, classItems_cons hc]
        refine ((agrees_member h).bind fun first rest _ hrest => ?_).mono (List.suffix_cons c cs)
        have hshorter : rest.length < (c :: cs).length := Nat.lt_succ_of_le hrest.length_le
        have hothers := agrees_classItems rest (hrest.trans (suffix_of_cons h))
        exact (hothers.mono hrest).bind fun _ _ _ hrest' => .ok _ hrest'
termination_by cs => cs.length
decreasing_by exact hshorter

section

variable {β : Type}

/-- Behind a negation is a rest of the pattern. -/
theorem negation_suffix (cs : List Char) : (Pattern.negation cs).2 <:+ cs :=
  ⟨_, (negation_sound cs).1.symm⟩

/-- A walk over a negation passes a caret, if there is one. -/
theorem outcome_negation_bind (h : cs <:+ pattern) (next : Bool → Walk β) :
    (negation >>= next).outcome (.before pattern cs depth) =
      (next (Pattern.negation cs).1).outcome (.before pattern (Pattern.negation cs).2 depth) := by
  refine outcome_bind_ok ?_
  rw [negation, outcome_peek_bind h]
  cases cs with
  | nil => rfl
  | cons c rest =>
      rw [List.getElem?_cons_zero]
      by_cases hc : c = '^'
      · subst hc
        rw [if_pos (by rfl), outcome_advance_bind h]
        rfl
      · rw [if_neg (by simpa using hc), negation_of_ne fun _ e => hc (List.cons.inj e).1]
        rfl

/-- Behind a closing bracket that comes first is a rest of the pattern. -/
theorem leadingClose_suffix (cs : List Char) : (Pattern.leadingClose cs).2 <:+ cs := by
  unfold Pattern.leadingClose
  split
  · exact List.suffix_cons _ _
  · exact List.suffix_rfl

/-- A walk over a closing bracket that comes first takes it for a member. -/
theorem outcome_leadingClose_bind (h : cs <:+ pattern) (next : List ClassItem → Walk β) :
    (leadingClose >>= next).outcome (.before pattern cs depth) =
      (next (Pattern.leadingClose cs).1).outcome
        (.before pattern (Pattern.leadingClose cs).2 depth) := by
  refine outcome_bind_ok ?_
  rw [leadingClose, outcome_peek_bind h]
  cases cs with
  | nil => rfl
  | cons c rest =>
      rw [List.getElem?_cons_zero]
      -- a closing bracket that comes first is a member
      by_cases hc : c = ']'
      · subst hc
        rw [if_pos (by rfl), outcome_advance_bind h]
        rfl
      · rw [if_neg (by simpa using hc), leadingClose_of_ne fun _ e => hc (List.cons.inj e).1]
        rfl

end

/-- A walk over a class comes to what its reading gives. -/
theorem agrees_charClass {c : Char} (h : c :: cs <:+ pattern) :
    Agrees pattern depth cs (charClass.outcome (.before pattern (c :: cs) depth))
      (Pattern.charClass cs) := by
  -- the reading of a class, part by part
  have hread : Pattern.charClass cs =
      (Pattern.classItems (Pattern.leadingClose (Pattern.negation cs).2).2).bind fun p =>
        .ok (.charClass ((Pattern.leadingClose (Pattern.negation cs).2).1 ++ p.1)
          (Pattern.negation cs).1, p.2) := by
    simp only [Pattern.charClass]
    cases Pattern.classItems (Pattern.leadingClose (Pattern.negation cs).2).2 <;> rfl
  have hcs := suffix_of_cons h
  have hbody := negation_suffix cs
  have hitems := (leadingClose_suffix (Pattern.negation cs).2).trans hbody
  rw [charClass, outcome_advance_bind h, outcome_negation_bind hcs,
    outcome_leadingClose_bind (hbody.trans hcs), hread]
  exact ((agrees_classItems _ (hitems.trans hcs)).mono hitems).bind
    fun _ _ _ hrest => .ok _ hrest

/-! ### Openings -/

/-- The opening that is looked for is the one that is there. -/
theorem find?_openingKinds (cs : List Char) :
    openingKinds.find? (fun kind => kind.opening.toList.isPrefixOf cs) =
      if (Pattern.groupKind cs).1 = .capturing then none else some (Pattern.groupKind cs).1 := by
  by_cases h : HasOpening cs
  · obtain ⟨kind, hk, rest, rfl⟩ := h
    rw [groupKind_opening hk, if_neg hk]
    cases kind with
    | capturing => exact absurd rfl hk
    | _ => rfl
  · rw [groupKind_capturing h, if_pos rfl, List.find?_eq_none]
    intro kind hkind hp
    have hk : kind ≠ .capturing := by
      rintro rfl
      exact absurd hkind (by decide)
    exact h ⟨kind, hk, List.isPrefixOf_iff_prefix.1 hp⟩

/-- Behind the opening of a group is a rest of the pattern. -/
theorem groupKind_suffix (cs : List Char) : (Pattern.groupKind cs).2 <:+ cs :=
  ⟨_, (groupKind_sound cs).1.symm⟩

/-- A walk over the opening of a group finds its kind. -/
theorem outcome_groupKind_bind {β : Type} (h : cs <:+ pattern) (next : GroupKind → Walk β) :
    (groupKind >>= next).outcome (.before pattern cs depth) =
      (next (Pattern.groupKind cs).1).outcome
        (.before pattern (Pattern.groupKind cs).2 depth) := by
  have hrest : pattern.drop (pattern.length - cs.length) = cs :=
    (List.suffix_iff_eq_drop.1 h).symm
  have htext := (groupKind_sound cs).1
  refine outcome_bind_ok ?_
  rw [groupKind, outcome_get_bind]
  simp only [before, hrest, find?_openingKinds]
  -- a capturing group has no opening, and any other one is as far on as its opening is long
  by_cases hk : (Pattern.groupKind cs).1 = .capturing
  · rw [hk] at htext
    rw [if_pos hk, hk, ← show cs = (Pattern.groupKind cs).2 from htext]
    rfl
  · have hlen := h.length_le
    have hlen' := congrArg List.length htext
    rw [List.length_append] at hlen'
    have hpos : pattern.length - cs.length + (Pattern.groupKind cs).1.opening.toList.length =
        pattern.length - (Pattern.groupKind cs).2.length := by omega
    rw [if_neg hk, ← hpos]
    rfl

end Walk
end Pattern
end Railroad
