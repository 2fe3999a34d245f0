/-
# Errors stand where a pattern is beyond repair

The error of a pattern is placed at the first character that no way of going on can
repair (`parse_error_viable`).  What stands before it can be completed, by closing
brackets alone, and what stands behind it does not matter.  An error at the end is
one that more text repairs.

This is a property of the scanner (`viable_of_run_eq_error`), by induction on what it
has in front of it.  Two things are needed of a single step: that it depends on no
text behind what it passes (`move_settled`), and that a step which looks for more than
there is can be given it (`move_completed`).  For the steps that jump they come from
what is looked for (`Delimited`); for a group from the opening of its kind, which no
closing bracket belongs to.
-/

import Railroad.Proofs.Pattern.Simulation

namespace Railroad
namespace Pattern

/-! ### Texts that close -/

/-- The characters that complete what is open. -/
def closers : List Char := [')', ']', '}']

/-- Whether a text has nothing but closing brackets. -/
def Closes (text : List Char) : Prop := ∀ c ∈ text, c ∈ closers

instance (text : List Char) : Decidable (Closes text) :=
  List.decidableBAll (· ∈ closers) text

/-- Closing brackets alone close. -/
theorem closes_replicate (n : Nat) : Closes (List.replicate n ')') := by
  intro c hc
  rw [List.eq_of_mem_replicate hc]
  decide

/-- Two texts that close do so together. -/
theorem Closes.append {xs ys : List Char} (hx : Closes xs) (hy : Closes ys) :
    Closes (xs ++ ys) := by
  intro c hc
  rcases List.mem_append.1 hc with h | h
  · exact hx c h
  · exact hy c h

/-- A closing bracket in front of a text that closes. -/
theorem Closes.cons {c : Char} {cs : List Char} (hc : c ∈ closers) (h : Closes cs) :
    Closes (c :: cs) := List.forall_mem_cons.2 ⟨hc, h⟩

/-- What closes does not go on with an opening. -/
theorem Closes.noOpening {cs : List Char} (h : Closes cs) : NoOpening cs := by
  rintro c tail rfl
  have hc := h c (List.mem_cons_self ..)
  simp only [closers, List.mem_cons, List.not_mem_nil, or_false] at hc
  rcases hc with rfl | rfl | rfl <;> decide

/-! ### Lengths that are told by what they pass -/

/-- Whether a length in front of `cs` is told by the text it passes, or by `cs` with some
closing brackets where `cs` is not enough. -/
structure DelimitedAt (length : List Char → Option Nat) (cs : List Char) : Prop where
  /-- What is passed tells the length, whatever stands behind it. -/
  settled : ∀ k, length cs = some k → ∃ taken rest, cs = taken ++ rest ∧ k = taken.length ∧
    taken ≠ [] ∧ ∀ ys, length (taken ++ ys) = some k
  /-- Where nothing is told, some closing brackets would do. -/
  completed : length cs = none →
    ∃ closing, Closes closing ∧ length (cs ++ closing) = some (cs ++ closing).length

/-- Whether a length is told so everywhere. -/
def Delimited (length : List Char → Option Nat) : Prop := ∀ cs, DelimitedAt length cs

section

variable {length length' : List Char → Option Nat} {cs : List Char}

/-- A length that passes a text, whatever stands behind it, is told by this text. -/
theorem DelimitedAt.of_settled {taken : List Char} (hne : taken ≠ [])
    (h : ∀ ys, length (taken ++ ys) = some taken.length) (rest : List Char) :
    DelimitedAt length (taken ++ rest) where
  settled k hk := by
    obtain rfl := Option.some.inj ((h rest).symm.trans hk)
    exact ⟨taken, rest, rfl, rfl, hne, h⟩
  completed hnone := by
    rw [h rest] at hnone
    cases hnone

/-- A length that is not told, but would be behind some closing brackets. -/
theorem DelimitedAt.of_completed (hnone : length cs = none) {closing : List Char}
    (hclosing : Closes closing)
    (h : length (cs ++ closing) = some (cs ++ closing).length) : DelimitedAt length cs where
  settled k hk := by
    rw [hnone] at hk
    cases hk
  completed _ := ⟨closing, hclosing, h⟩

/-- A length that passes some characters and goes on. -/
theorem DelimitedAt.after {front : List Char} (hne : front ≠ [])
    (hstep : ∀ ys, length' (front ++ ys) = (length ys).map (· + front.length))
    (h : DelimitedAt length cs) : DelimitedAt length' (front ++ cs) where
  -- the front is passed first, and what is told is told behind it
  settled k hk := by
    rw [hstep] at hk
    obtain ⟨m, hm, rfl⟩ := Option.map_eq_some_iff.1 hk
    obtain ⟨taken, rest, rfl, rfl, -, htaken⟩ := h.settled m hm
    refine ⟨front ++ taken, rest, (List.append_assoc ..).symm, ?_, ?_, fun ys => ?_⟩
    · rw [List.length_append, Nat.add_comm]
    · exact List.append_ne_nil_of_left_ne_nil hne taken
    · rw [List.append_assoc, hstep, htaken, Option.map_some]
  completed hnone := by
    rw [hstep, Option.map_eq_none_iff] at hnone
    obtain ⟨closing, hclosing, hlen⟩ := h.completed hnone
    refine ⟨closing, hclosing, ?_⟩
    rw [List.append_assoc, hstep, hlen, Option.map_some, Nat.add_comm, ← List.length_append]

/-- Text behind what a length passes does not change it. -/
theorem Delimited.append (h : Delimited length) {pre suf : List Char} {k : Nat}
    (hk : length (pre ++ suf) = some k) (hle : k ≤ pre.length) (ys : List Char) :
    length (pre ++ ys) = some k := by
  obtain ⟨taken, rest, hcs, rfl, -, htaken⟩ := (h _).settled k hk
  have hprefix : taken <+: pre :=
    List.prefix_of_prefix_length_le ⟨rest, hcs.symm⟩ (List.prefix_append pre suf) hle
  obtain ⟨mid, rfl⟩ := hprefix
  rw [List.append_assoc]
  exact htaken _

/-- No length passes the end of the text. -/
theorem Delimited.le (h : Delimited length) {k : Nat} (hk : length cs = some k) :
    k ≤ cs.length := by
  obtain ⟨taken, rest, rfl, rfl, -, -⟩ := (h cs).settled k hk
  rw [List.length_append]
  exact Nat.le_add_right _ _

end

/-- A brace quantifier is told by the text up to its brace, or completed by one. -/
theorem delimited_braceLength : Delimited braceLength := by
  intro cs
  induction cs with
  | nil =>
      have hclosing : Closes ['}'] := by decide
      exact .of_completed rfl hclosing rfl
  | cons c cs ih =>
      by_cases hc : c = '}'
      · subst hc
        refine .of_settled (List.cons_ne_nil '}' []) (fun ys => ?_) cs
        exact (braceLength_cons '}' ys).trans (if_pos rfl)
      · refine ih.after (List.cons_ne_nil c []) fun ys => ?_
        exact (braceLength_cons c ys).trans (if_neg hc)

/-- An escape is told by its two characters, or completed by a closing bracket, as by any other
character. -/
theorem delimited_escapeLength : Delimited escapeLength := by
  intro cs
  cases cs with
  | nil =>
      have hclosing : Closes [']'] := by decide
      exact .of_completed rfl hclosing rfl
  | cons c cs => exact .of_settled (List.cons_ne_nil c []) (fun _ => rfl) cs

/-- The rest of a class is told by the text up to its bracket, or completed by one. -/
theorem delimited_untilClose : Delimited untilClose := by
  intro cs
  fun_induction untilClose cs with
  | case1 =>
      have hclosing : Closes [']'] := by decide
      exact .of_completed rfl hclosing rfl
  -- a backslash at the end takes the first bracket for its own, so there have to be two
  | case2 =>
      have hclosing : Closes [']', ']'] := by decide
      refine .of_completed rfl hclosing ?_
      simp [untilClose]
  | case3 c cs ih =>
      refine ih.after (List.cons_ne_nil '\\' [c]) fun ys => ?_
      simp [untilClose]
  | case4 cs h₁ h₂ =>
      refine .of_settled (List.cons_ne_nil ']' []) (fun ys => ?_) cs
      simp [untilClose]
  | case5 c cs h₁ h₂ hc ih =>
      refine ih.after (List.cons_ne_nil c []) fun ys => ?_
      exact untilClose_cons (not_mem_classReserved_of_tail hc h₁ h₂) ys

/-- An optional character in front leaves a length told by what it passes.  Where there is
no text at all the closing brackets may begin with that character, and it is added to
them. -/
theorem Delimited.optionally {length : List Char → Option Nat} (h : Delimited length) (c : Char) :
    Delimited (optionally c length) := by
  intro cs
  cases cs with
  | nil =>
      cases hlen : length [] with
      | some k =>
          obtain ⟨taken, rest, hcs, -, hne, -⟩ := (h []).settled k hlen
          exact absurd (List.append_eq_nil_iff.1 hcs.symm).1 hne
      | none =>
          obtain ⟨closing, hclosing, hfull⟩ := (h []).completed hlen
          rw [List.nil_append] at hfull
          -- the completion might begin with the optional character, which is then closed once
          -- more
          by_cases hc : ∃ tail, closing = c :: tail
          · obtain ⟨tail, rfl⟩ := hc
            have hmem : c ∈ closers := hclosing c (List.mem_cons_self ..)
            refine .of_completed hlen (hclosing.cons hmem) ?_
            rw [List.nil_append, optionally_self, hfull]
            rfl
          · refine .of_completed hlen hclosing ?_
            rw [List.nil_append, optionally_of_ne (fun tail e => hc ⟨tail, e⟩), hfull]
  | cons d cs =>
      by_cases hd : d = c
      · subst hd
        exact (h cs).after (List.cons_ne_nil d []) (optionally_self d length)
      -- where the character does not come it makes no difference
      · have hsame (ys : List Char) : Pattern.optionally c length (d :: ys) = length (d :: ys) :=
          optionally_of_ne (fun tail e => hd (List.cons.inj e).1) length
        refine ⟨fun k hk => ?_, fun hnone => ?_⟩
        · rw [hsame] at hk
          obtain ⟨taken, rest, hcs, rfl, hne, htaken⟩ := (h (d :: cs)).settled k hk
          obtain ⟨e, taken, rfl⟩ := List.exists_cons_of_ne_nil hne
          obtain ⟨rfl, rfl⟩ := List.cons.inj hcs
          refine ⟨d :: taken, rest, rfl, rfl, hne, fun ys => ?_⟩
          rw [List.cons_append, hsame]
          exact htaken ys
        · rw [hsame] at hnone
          obtain ⟨closing, hclosing, hfull⟩ := (h (d :: cs)).completed hnone
          refine ⟨closing, hclosing, ?_⟩
          rw [List.cons_append, hsame]
          exact hfull

/-- So is a class, with what may come first in it. -/
theorem delimited_classLength : Delimited classLength :=
  (delimited_untilClose.optionally ']').optionally '^'

/-! ### Openings -/

section

variable {pre suf ys : List Char}

/-- What stands behind an opening has no part in its length. -/
theorem openingLength_append (h : HasOpening (pre ++ ys) → HasOpening pre) :
    openingLength (pre ++ ys) = openingLength pre := by
  by_cases ho : HasOpening pre
  · obtain ⟨kind, hk, tail, rfl⟩ := ho
    rw [List.append_assoc, openingLength_opening hk, openingLength_opening hk]
  · rw [openingLength_of_not_hasOpening ho, openingLength_of_not_hasOpening (mt h ho)]

/-- An opening that lies before a place is found without the text behind the place. -/
theorem openingLength_of_le (h : openingLength (pre ++ suf) ≤ pre.length) :
    openingLength (pre ++ suf) = openingLength pre := by
  refine openingLength_append fun ho => ?_
  obtain ⟨kind, hk, hp⟩ := ho
  have hlen : kind.opening.toList.length ≤ pre.length := by
    obtain ⟨tail, e⟩ := hp
    rwa [← e, openingLength_opening hk] at h
  exact ⟨kind, hk, List.prefix_of_prefix_length_le hp (List.prefix_append pre suf) hlen⟩

/-- Nor has what cannot be in one. -/
theorem openingLength_of_noOpening (h : NoOpening ys) :
    openingLength (pre ++ ys) = openingLength pre :=
  openingLength_append fun ho => ho.of_append h

end

/-! ### One step -/

/-- A jump that passes something was told how much. -/
theorem Move.jump_eq_skip {cause : Cause} {opened opened' more : Nat}
    {afterAtom afterAtom' : Bool} {length : Option Nat}
    (h : Move.jump cause opened' afterAtom' length = .skip more opened afterAtom) :
    length = some more ∧ opened' = opened ∧ afterAtom' = afterAtom := by
  cases length with
  | none => cases h
  | some k =>
      obtain ⟨rfl, rfl, rfl⟩ := Move.skip.inj h
      exact ⟨rfl, rfl, rfl⟩

namespace Scanner

/-- What a scanner does at a character, whatever stands behind it. -/
inductive Acts (s : Scanner) (c : Char) : Prop where
  | takes (opened : Nat) (afterAtom : Bool)
      (h : ∀ cs, s.move c cs = .skip 0 opened afterAtom) : Acts s c
  | jumps (cause : Cause) (opened : Nat) (afterAtom : Bool) (length : List Char → Option Nat)
      (hlength : Delimited length)
      (h : ∀ cs, s.move c cs = .jump cause opened afterAtom (length cs)) : Acts s c
  | opens (opened : Nat)
      (h : ∀ cs, s.move c cs = .skip (openingLength cs) opened false) : Acts s c
  | stops (cause : Cause) (hc : c ∉ openingChars)
      (h : ∀ cs, s.move c cs = .stopHere cause) : Acts s c

/-- Whatever a scanner is in front of, it does one of these. -/
theorem acts (s : Scanner) (c : Char) : s.Acts c := by
  -- the conditions of a move, in the order in which it asks for them
  by_cases h₁ : s.afterAtom ∧ (c = '*' ∨ c = '+' ∨ c = '?')
  · exact .takes s.opened false fun cs => by rw [move, if_pos h₁]
  by_cases h₂ : s.afterAtom ∧ c = '{'
  · refine .jumps .unterminatedQuantifier s.opened false braceLength delimited_braceLength
      fun cs => ?_
    rw [move, if_neg h₁, if_pos h₂]
  by_cases h₃ : c = '|'
  · exact .takes s.opened false fun cs => by rw [move, if_neg h₁, if_neg h₂, if_pos h₃]
  by_cases h₄ : c = ')'
  · by_cases h₅ : s.opened = 0
    · refine .stops .unexpectedClose (by rw [h₄]; decide) fun cs => ?_
      rw [move, if_neg h₁, if_neg h₂, if_neg h₃, if_pos h₄, if_pos h₅]
    · refine .takes (s.opened - 1) true fun cs => ?_
      rw [move, if_neg h₁, if_neg h₂, if_neg h₃, if_pos h₄, if_neg h₅]
  by_cases h₅ : c = '('
  · by_cases h₆ : s.opened = 100
    · refine .stops .nestingTooDeep (by rw [h₅]; decide) fun cs => ?_
      rw [move, if_neg h₁, if_neg h₂, if_neg h₃, if_neg h₄, if_pos h₅, if_pos h₆]
    · refine .opens (s.opened + 1) fun cs => ?_
      rw [move, if_neg h₁, if_neg h₂, if_neg h₃, if_neg h₄, if_pos h₅, if_neg h₆]
  by_cases h₆ : c = '['
  · refine .jumps .unterminatedClass s.opened true classLength delimited_classLength fun cs => ?_
    rw [move, if_neg h₁, if_neg h₂, if_neg h₃, if_neg h₄, if_neg h₅, if_pos h₆]
  by_cases h₇ : c = '\\'
  · refine .jumps .danglingEscape s.opened true escapeLength delimited_escapeLength fun cs => ?_
    rw [move, if_neg h₁, if_neg h₂, if_neg h₃, if_neg h₄, if_neg h₅, if_neg h₆, if_pos h₇]
  · refine .takes s.opened true fun cs => ?_
    rw [move, if_neg h₁, if_neg h₂, if_neg h₃, if_neg h₄, if_neg h₅, if_neg h₆, if_neg h₇]

section

variable {s : Scanner} {c : Char} {cs pre suf ys : List Char} {more opened : Nat}
  {afterAtom : Bool} {cause : Cause}

/-- A scanner passes no more than there is. -/
theorem move_le (h : s.move c cs = .skip more opened afterAtom) : more ≤ cs.length := by
  cases s.acts c with
  | takes opened' afterAtom' hm =>
      rw [hm] at h
      obtain ⟨rfl, -, -⟩ := Move.skip.inj h
      exact Nat.zero_le _
  -- a length that is told does not pass the end
  | jumps cause opened' afterAtom' length hlength hm =>
      rw [hm] at h
      exact hlength.le (Move.jump_eq_skip h).1
  | opens opened' hm =>
      rw [hm] at h
      obtain ⟨rfl, -, -⟩ := Move.skip.inj h
      exact openingLength_le cs
  | stops cause hc hm =>
      rw [hm] at h
      cases h

/-- **A step depends on no text behind what it passes**, but that an opening must not be
made longer. -/
theorem move_settled (h : s.move c (pre ++ suf) = .skip more opened afterAtom)
    (hmore : more ≤ pre.length) (hys : NoOpening ys) :
    s.move c (pre ++ ys) = .skip more opened afterAtom := by
  cases s.acts c with
  | takes opened' afterAtom' hm => rwa [hm] at h ⊢
  -- what a jump passes is told by the text that it passes
  | jumps cause opened' afterAtom' length hlength hm =>
      rw [hm] at h
      obtain ⟨hk, rfl, rfl⟩ := Move.jump_eq_skip h
      rw [hm, hlength.append hk hmore ys]
      rfl
  -- an opening is not made longer by what cannot be in one
  | opens opened' hm =>
      rw [hm] at h
      obtain ⟨rfl, rfl, rfl⟩ := Move.skip.inj h
      rw [hm, openingLength_of_le hmore, openingLength_of_noOpening hys]
  | stops cause hc hm =>
      rw [hm] at h
      cases h

/-- **A step that finds too little text can be given more**, and passes just that. -/
theorem move_completed (h : s.move c cs = .stopAtEnd cause) :
    ∃ closing opened afterAtom, Closes closing ∧ ∀ ys,
      s.move c (cs ++ closing ++ ys) = .skip (cs ++ closing).length opened afterAtom := by
  cases s.acts c with
  | takes opened' afterAtom' hm =>
      rw [hm] at h
      cases h
  -- only a jump can find something unfinished, and its length has a completion
  | jumps cause' opened' afterAtom' length hlength hm =>
      rw [hm] at h
      cases hlen : length cs with
      | some k =>
          rw [hlen] at h
          cases h
      | none =>
          obtain ⟨closing, hclosing, hfull⟩ := (hlength cs).completed hlen
          rw [← List.append_nil (cs ++ closing)] at hfull
          refine ⟨closing, opened', afterAtom', hclosing, fun ys => ?_⟩
          rw [hm, hlength.append hfull (by simp) ys]
          simp [Move.jump]
  | opens opened' hm =>
      rw [hm] at h
      cases h
  | stops cause hc hm =>
      rw [hm] at h
      cases h

/-- A step that stops at a character does so whatever stands behind it. -/
theorem move_stopHere (h : s.move c cs = .stopHere cause) :
    c ∉ openingChars ∧ ∀ cs', s.move c cs' = .stopHere cause := by
  cases s.acts c with
  | takes opened' afterAtom' hm =>
      rw [hm] at h
      cases h
  | jumps cause' opened' afterAtom' length hlength hm =>
      rw [hm] at h
      cases hlen : length cs with
      | some k => rw [hlen] at h; cases h
      | none => rw [hlen] at h; cases h
  | opens opened' hm =>
      rw [hm] at h
      cases h
  -- only a stop reports the character itself, whatever stands behind it
  | stops cause' hc hm =>
      rw [hm] at h
      obtain rfl := Move.stopHere.inj h
      exact ⟨hc, hm⟩

/-! ### Runs -/

/-- A scanner that skips goes on behind what it skips. -/
theorem run_skip (h : s.move c cs = .skip more opened afterAtom) :
    s.run (c :: cs) = run ⟨s.position + 1 + more, opened, afterAtom⟩ (cs.drop more) := by
  rw [run, h]

/-- A scanner that stops at a character reports it. -/
theorem run_stopHere (h : s.move c cs = .stopHere cause) :
    s.run (c :: cs) = .error (cause, s.position) := by
  rw [run, h]

/-- The groups that are open can be closed. -/
theorem run_replicate (position opened : Nat) (afterAtom : Bool) :
    run ⟨position, opened, afterAtom⟩ (List.replicate opened ')') = .ok () := by
  induction opened generalizing position afterAtom with
  | zero => rw [List.replicate_zero, run, if_pos rfl]
  | succ opened ih =>
      have hmove : move ⟨position, opened + 1, afterAtom⟩ ')'
          (List.replicate opened ')') = .skip 0 opened true := by
        simp [Scanner.move]
      rw [List.replicate_succ, run_skip hmove]
      exact ih _ _

/-- An error `e` between the texts `before` and `behind`: what stands before it can be
completed, and its first character cannot be repaired by what follows. -/
structure Viable (s : Scanner) (e : Cause × Nat) (before behind : List Char) : Prop where
  /-- The error is where the two texts meet. -/
  offset : e.2 = s.position + before.length
  /-- What stands before it can be completed by closing brackets. -/
  completed : ∃ closing, Closes closing ∧ s.run (before ++ closing) = .ok ()
  /-- The first character behind it is refused, whatever stands behind that. -/
  stops : ∀ c tail, behind = c :: tail →
    c ∉ openingChars ∧ ∀ tail', s.run (before ++ c :: tail') = .error e

/-- **A scanner stops where no text can go on.** -/
theorem viable_of_run_eq_error {e : Cause × Nat} (h : s.run cs = .error e) :
    ∃ before behind, cs = before ++ behind ∧ Viable s e before behind := by
  fun_induction run s cs with
  | case1 s hopened => cases h
  | case2 s hopened =>
      obtain rfl := Except.error.inj h
      refine ⟨[], [], rfl, rfl, ?_, fun c tail hc => (by cases hc)⟩
      exact ⟨_, closes_replicate s.opened, run_replicate ..⟩
  | case3 s c cs cause hm =>
      obtain rfl := Except.error.inj h
      obtain ⟨hc, hm⟩ := move_stopHere hm
      refine ⟨[], c :: cs, rfl, rfl, ?_, fun d tail hd => ?_⟩
      · exact ⟨_, closes_replicate s.opened, run_replicate ..⟩
      · obtain ⟨rfl, rfl⟩ := List.cons.inj hd
        exact ⟨hc, fun tail' => run_stopHere (hm tail')⟩
  | case4 s c cs cause hm =>
      obtain rfl := Except.error.inj h
      obtain ⟨closing, opened, afterAtom, hclosing, hfull⟩ := move_completed hm
      refine ⟨c :: cs, [], (List.append_nil _).symm, rfl, ?_, fun d tail hd => (by cases hd)⟩
      refine ⟨closing ++ List.replicate opened ')', ?_, ?_⟩
      · exact hclosing.append (closes_replicate opened)
      · rw [List.cons_append, ← List.append_assoc, run_skip (hfull _), List.drop_left]
        exact run_replicate ..
  | case5 s c cs more opened afterAtom hm ih =>
      obtain ⟨before, behind, hdrop, hv⟩ := ih h
      obtain ⟨taken, rfl, rfl⟩ :
          ∃ taken, taken.length = more ∧ cs = taken ++ (before ++ behind) := by
        refine ⟨cs.take more, List.length_take_of_le (move_le hm), ?_⟩
        rw [← hdrop, List.take_append_drop]
      rw [← List.append_assoc] at hm
      -- the step is the same whatever stands in the place of `behind`, short of an opening
      have hrun (ys : List Char) (hys : NoOpening ys) :
          s.run (c :: (taken ++ before) ++ ys) =
            run ⟨s.position + 1 + taken.length, opened, afterAtom⟩ (before ++ ys) := by
        have hmove := move_settled hm (by simp) hys
        rw [List.cons_append, run_skip hmove, List.append_assoc, List.drop_left]
      refine ⟨c :: (taken ++ before), behind, ?_, ?_, ?_, ?_⟩
      · rw [List.cons_append, List.append_assoc]
      · have hoffset := hv.offset
        simp only [List.length_cons, List.length_append] at hoffset ⊢
        omega
      · obtain ⟨closing, hclosing, hok⟩ := hv.completed
        exact ⟨closing, hclosing, (hrun closing hclosing.noOpening).trans hok⟩
      · intro d tail hd
        obtain ⟨hopen, hstop⟩ := hv.stops d tail hd
        refine ⟨hopen, fun tail' => (hrun (d :: tail') fun d' _ e => ?_).trans (hstop tail')⟩
        rwa [← (List.cons.inj e).1]

end

end Scanner

/-! ### Patterns -/

/-- **An error stands at the first character that no text behind it can repair.**  It
stands in the pattern or at its end; what stands before it is the beginning of a
pattern that is read; and every pattern with the same text up to the character of
the error has the same error at the same place. -/
theorem parse_error_viable {pattern : String} {e : SyntaxError}
    (h : parse pattern = .error e) :
    e.offset ≤ pattern.length ∧
      (∃ rest tree, parse (String.ofList (pattern.toList.take e.offset) ++ rest) = .ok tree) ∧
      (e.offset < pattern.length →
        ∀ other : String, pattern.toList.take (e.offset + 1) <+: other.toList →
          parse other = .error ⟨e.cause, e.offset, other⟩) := by
  -- the scanner has the same error, and what is said of it is carried over
  obtain ⟨before, behind, hcs, hv⟩ := Scanner.viable_of_run_eq_error (scan_of_parse_error h)
  have hoffset : e.offset = before.length := hv.offset.trans (Nat.zero_add _)
  have hlen : pattern.length = before.length + behind.length := by
    rw [← String.length_toList, hcs, List.length_append]
  refine ⟨by omega, ?_, fun hlt other hother => ?_⟩
  · obtain ⟨closing, -, hok⟩ := hv.completed
    have hscan : scan (String.ofList before ++ String.ofList closing) = .ok () := by
      rw [scan, String.toList_append, String.toList_ofList, String.toList_ofList]
      exact hok
    obtain ⟨tree, ht⟩ := scan_eq_ok_iff.1 hscan
    rw [hcs, hoffset, List.take_left]
    exact ⟨String.ofList closing, tree, ht⟩
  · cases behind with
    | nil =>
        rw [List.length_nil] at hlen
        omega
    | cons c tail =>
        obtain ⟨tail', htail'⟩ := hother
        have htake : pattern.toList.take (e.offset + 1) = before ++ [c] := by
          rw [hcs, hoffset, List.take_length_add_append]
          rfl
        rw [htake, List.append_assoc] at htail'
        refine scan_eq_error_iff.1 ?_
        rw [scan, ← htail']
        exact (hv.stops c tail rfl).2 tail'

/-- The hypothesis of `parse_error_viable` is satisfiable: a `)` too many behind a class
that holds one, which a longer pattern does not repair. -/
theorem parse_error_viable_close :
    parse "a[)])+" = .error ⟨.unexpectedClose, 4, "a[)])+"⟩ ∧
      parse "a[)])(?:b" = .error ⟨.unexpectedClose, 4, "a[)])(?:b"⟩ := by
  have h : parse "a[)])+" = .error ⟨.unexpectedClose, 4, "a[)])+"⟩ := by decide +kernel
  have hother : "a[)])+".toList.take 5 <+: "a[)])(?:b".toList := by decide
  exact ⟨h, (parse_error_viable h).2.2 (by decide) "a[)])(?:b" hother⟩

end Pattern
end Railroad
