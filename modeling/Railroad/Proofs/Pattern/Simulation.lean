/-
# The scanner agrees with the reading of trees

The readings of the grammar call each other to any depth; the scanner counts.  Put
in front of the same text, with the same number of groups open, the scanner goes
on where a reading ends and reports the error that a reading reports
(`scanRest_items`, `scanRest_alternation`, `scans_group`).  So it accepts the
patterns that are read and finds the first error of all others
(`scan_decides_parse`).

A reading counts the characters left and the scanner those passed.  The answer of a
scanner is therefore taken relative to the length `n` of the whole pattern
(`scanRest`), and that of a reading is turned into the same terms (`resume`).
-/

import Railroad.Proofs.Pattern.Exactness
import Railroad.Proofs.Pattern.Scanner

namespace Railroad
namespace Pattern

open Text

/-- The answer of a scanner in front of the rest of a pattern of `n` characters. -/
def scanRest (n opened : Nat) (afterAtom : Bool) (cs : List Char) : Except (Cause × Nat) Unit :=
  Scanner.run ⟨n - cs.length, opened, afterAtom⟩ cs

/-- The answer of a scanner that goes on behind what was read. -/
def resume {β : Type} (n opened : Nat) (afterAtom : Bool) :
    Reading Fault β → Except (Cause × Nat) Unit
  | .error e => .error (e.cause, n - e.left)
  | .ok (_, rest) => scanRest n opened afterAtom rest

/-! ### Steps of the scanner -/

section

variable {n opened opened' more : Nat} {afterAtom afterAtom' : Bool} {cause : Cause} {c : Char}
  {cs : List Char}

/-- A move that skips some characters goes on behind them. -/
theorem scanRest_skip (hn : (c :: cs).length ≤ n) (hmore : more ≤ cs.length)
    (h : Scanner.move ⟨n - (c :: cs).length, opened, afterAtom⟩ c cs =
      .skip more opened' afterAtom') :
    scanRest n opened afterAtom (c :: cs) = scanRest n opened' afterAtom' (cs.drop more) := by
  rw [scanRest, Scanner.run, h, scanRest]
  simp only [List.length_cons, List.length_drop] at hn ⊢
  rw [show n - (cs.length + 1) + 1 + more = n - (cs.length - more) by omega]

/-- A move that stops at a character reports this character, … -/
theorem scanRest_stopHere
    (h : Scanner.move ⟨n - (c :: cs).length, opened, afterAtom⟩ c cs = .stopHere cause) :
    scanRest n opened afterAtom (c :: cs) = .error (cause, n - (c :: cs).length) := by
  rw [scanRest, Scanner.run, h]

/-- … and one that finds something unfinished reports the end of the pattern. -/
theorem scanRest_stopAtEnd (hn : (c :: cs).length ≤ n)
    (h : Scanner.move ⟨n - (c :: cs).length, opened, afterAtom⟩ c cs = .stopAtEnd cause) :
    scanRest n opened afterAtom (c :: cs) = .error (cause, n) := by
  rw [scanRest, Scanner.run, h]
  simp only
  rw [Nat.sub_add_cancel hn]

/-- Whether a reading of `cs` takes as many characters as `length` says, and fails for
the given cause at the end of the text where `length` says nothing. -/
def Takes {β : Type} (cause : Cause) (cs : List Char) (length : Option Nat) :
    Reading Fault β → Prop
  | .error e => e = ⟨cause, 0⟩ ∧ length = none
  | .ok (_, rest) => ∃ taken, cs = taken ++ rest ∧ length = some taken.length

/-- A jump of the scanner is a reading that takes as much. -/
theorem scanRest_jump {β : Type} {r : Reading Fault β} {length : Option Nat}
    (hn : (c :: cs).length ≤ n)
    (h : Scanner.move ⟨n - (c :: cs).length, opened, afterAtom⟩ c cs =
      .jump cause opened' afterAtom' length) (hr : Takes cause cs length r) :
    scanRest n opened afterAtom (c :: cs) = resume n opened' afterAtom' r := by
  cases r with
  | error e =>
      obtain ⟨rfl, rfl⟩ := hr
      rw [scanRest_stopAtEnd hn h]
      rfl
  | ok v =>
      obtain ⟨taken, rfl, rfl⟩ := hr
      rw [scanRest_skip hn (by simp) h, List.drop_left]
      rfl

end

/-! ### Lengths -/

section

variable {β γ : Type} {cause : Cause} {cs : List Char} {length : Option Nat}

/-- A reading that fails behind some characters fails from their front on. -/
theorem Takes.error_after {e : Fault} (h : Takes cause cs length (.error e : Reading Fault β))
    (front : List Char) :
    Takes cause (front ++ cs) (length.map (· + front.length)) (.error e : Reading Fault γ) :=
  ⟨h.1, by rw [h.2, Option.map_none]⟩

/-- A reading behind some characters takes these too when it starts at their front. -/
theorem Takes.ok_after {v : β} {rest : List Char} (h : Takes cause cs length (.ok (v, rest)))
    (front : List Char) (w : γ) :
    Takes cause (front ++ cs) (length.map (· + front.length)) (.ok (w, rest)) := by
  obtain ⟨taken, rfl, rfl⟩ := h
  refine ⟨front ++ taken, (List.append_assoc ..).symm, ?_⟩
  rw [Option.map_some, List.length_append, Nat.add_comm]

end

/-- A brace quantifier ends at the first closing brace. -/
theorem braceLength_cons (c : Char) (cs : List Char) :
    braceLength (c :: cs) = if c = '}' then some 1 else (braceLength cs).map (· + 1) := by
  rw [braceLength, List.idxOf?_cons]
  by_cases hc : c = '}'
  · rw [if_pos hc, if_pos (beq_iff_eq.2 hc), Option.map_some]
  · rw [if_neg hc, if_neg (mt beq_iff_eq.1 hc), braceLength]

/-- The reading of a brace quantifier takes the characters up to its brace. -/
theorem takes_braces (cs : List Char) :
    Takes .unterminatedQuantifier cs (braceLength cs) (braces cs) := by
  induction cs with
  | nil => exact ⟨rfl, rfl⟩
  | cons c cs ih =>
      rw [braceLength_cons, braces]
      split
      · exact ⟨[c], rfl, rfl⟩
      · cases h : braces cs with
        | error e =>
            rw [h] at ih
            exact ih.error_after [c]
        | ok v =>
            rw [h] at ih
            exact ih.ok_after [c] _

/-- A character that is not reserved is one further character of a class, … -/
theorem untilClose_cons {c : Char} (h : c ∉ classReserved) (cs : List Char) :
    untilClose (c :: cs) = (untilClose cs).map (· + 1) := by
  rw [mem_classReserved, not_or] at h
  rw [untilClose, if_neg h.1]
  · exact fun e => absurd e h.2
  · exact fun _ _ e => absurd e h.2

/-- … and a range is three: its ends are not reserved, so no class closes within it. -/
theorem untilClose_range {a b : Char} (ha : a ∉ classReserved) (hb : b ∉ classReserved)
    (cs : List Char) : untilClose (a :: '-' :: b :: cs) = (untilClose cs).map (· + 3) := by
  have hdash : '-' ∉ classReserved := by decide
  rw [untilClose_cons ha, untilClose_cons hdash, untilClose_cons hb, Option.map_map, Option.map_map]
  rfl

/-- The reading of the members of a class takes the characters up to the bracket that closes it.
The reading goes by members and the scanner by characters; they meet at the end of each member,
and the induction follows the members. -/
theorem takes_classItems (cs : List Char) :
    Takes .unterminatedClass cs (untilClose cs) (classItems cs) := by
  fun_induction classItems cs with
  | case1 => exact ⟨rfl, rfl⟩
  | case2 tail => exact ⟨[']'], rfl, rfl⟩
  | case3 => exact ⟨rfl, rfl⟩
  -- an escape is two characters for the scanner as well
  | case4 c tail e hr ih =>
      rw [hr] at ih
      rw [untilClose]
      exact ih.error_after ['\\', c]
  | case5 c tail items tail' hr ih =>
      rw [hr] at ih
      rw [untilClose]
      exact ih.ok_after ['\\', c] _
  -- a dash with a reserved character behind it: no range, so one character at a time
  | case6 a b tail h₁ h₂ hb e hr ih =>
      rw [hr] at ih
      rw [untilClose_cons (not_mem_classReserved h₁ h₂)]
      exact ih.error_after [a]
  | case7 a b tail h₁ h₂ hb items tail' hr ih =>
      rw [hr] at ih
      rw [untilClose_cons (not_mem_classReserved h₁ h₂)]
      exact ih.ok_after [a] _
  -- a range: its three characters are no bracket, and the scanner passes them one by one
  | case8 a b tail h₁ h₂ hb e hr ih =>
      rw [hr] at ih
      rw [untilClose_range (not_mem_classReserved h₁ h₂) (mt mem_classReserved.1 hb)]
      exact ih.error_after [a, '-', b]
  | case9 a b tail h₁ h₂ hb items tail' hr ih =>
      rw [hr] at ih
      rw [untilClose_range (not_mem_classReserved h₁ h₂) (mt mem_classReserved.1 hb)]
      exact ih.ok_after [a, '-', b] _
  | case10 a tail h₁ h₂ h₃ hne e hr ih =>
      rw [hr] at ih
      rw [untilClose_cons (not_mem_classReserved_of_tail h₁ h₂ h₃)]
      exact ih.error_after [a]
  | case11 a tail h₁ h₂ h₃ hne items tail' hr ih =>
      rw [hr] at ih
      rw [untilClose_cons (not_mem_classReserved_of_tail h₁ h₂ h₃)]
      exact ih.ok_after [a] _

/-- A character that may come first is passed, … -/
theorem optionally_self (c : Char) (length : List Char → Option Nat) (cs : List Char) :
    optionally c length (c :: cs) = (length cs).map (· + 1) := by
  rw [optionally, if_pos rfl]

/-- … and where it does not come nothing is. -/
theorem optionally_of_ne {c : Char} {cs : List Char} (h : ∀ tail, cs ≠ c :: tail)
    (length : List Char → Option Nat) : optionally c length cs = length cs := by
  cases cs with
  | nil => rfl
  | cons d cs =>
      have hd : d ≠ c := fun e => h cs (by rw [e])
      rw [optionally, if_neg hd]

/-- A reading behind an optional character takes that character too. -/
theorem Takes.optionally {β : Type} {c : Char} {cause : Cause} {length : List Char → Option Nat}
    {cs body : List Char} {r : Reading Fault β} (h : Takes cause body (length body) r)
    (hcs : cs = c :: body ∨ cs = body ∧ ∀ tail, cs ≠ c :: tail) :
    Takes cause cs (optionally c length cs) r := by
  rcases hcs with rfl | ⟨rfl, hne⟩
  · rw [optionally_self]
    cases r with
    | error e => exact h.error_after [c]
    | ok v => exact h.ok_after [c] v.1
  · rwa [optionally_of_ne hne]

/-- There is a caret to be passed, or none. -/
theorem negation_cases (cs : List Char) :
    cs = '^' :: (negation cs).2 ∨ cs = (negation cs).2 ∧ ∀ tail, cs ≠ '^' :: tail := by
  by_cases h : ∃ tail, cs = '^' :: tail
  · obtain ⟨tail, rfl⟩ := h
    exact .inl rfl
  · have hne := fun tail e => h ⟨tail, e⟩
    exact .inr ⟨by rw [negation_of_ne hne], hne⟩

/-- There is a closing bracket to be passed, or none. -/
theorem leadingClose_cases (cs : List Char) :
    cs = ']' :: (leadingClose cs).2 ∨ cs = (leadingClose cs).2 ∧ ∀ tail, cs ≠ ']' :: tail := by
  by_cases h : ∃ tail, cs = ']' :: tail
  · obtain ⟨tail, rfl⟩ := h
    exact .inl rfl
  · have hne := fun tail e => h ⟨tail, e⟩
    exact .inr ⟨by rw [leadingClose_of_ne hne], hne⟩

/-- The reading of a class takes its negation, a closing bracket that comes first, and all up to
the one that closes it. -/
theorem takes_charClass (cs : List Char) :
    Takes .unterminatedClass cs (classLength cs) (charClass cs) := by
  have hmembers := takes_classItems (leadingClose (negation cs).2).2
  have hbody := hmembers.optionally (leadingClose_cases (negation cs).2)
  have hall := hbody.optionally (negation_cases cs)
  simp only [charClass]
  cases h : classItems (leadingClose (negation cs).2).2 with
  | error e =>
      rw [h] at hall
      exact hall
  | ok v =>
      rw [h] at hall
      exact hall

/-- The kinds of their own are those the scanner looks for. -/
theorem mem_openings {opening : List Char} (h : opening ∈ openings) :
    ∃ kind : GroupKind, kind ≠ .capturing ∧ kind.opening.toList = opening := by
  simp only [openings, List.mem_cons, List.not_mem_nil, or_false] at h
  rcases h with rfl | rfl | rfl | rfl | rfl
  · exact ⟨.lookbehind, by decide, rfl⟩
  · exact ⟨.negativeLookbehind, by decide, rfl⟩
  · exact ⟨.nonCapturing, by decide, rfl⟩
  · exact ⟨.lookahead, by decide, rfl⟩
  · exact ⟨.negativeLookahead, by decide, rfl⟩

/-- The opening of a group that is not capturing is passed whole, … -/
theorem openingLength_opening {kind : GroupKind} (h : kind ≠ .capturing) (cs : List Char) :
    openingLength (kind.opening.toList ++ cs) = kind.opening.toList.length := by
  cases kind with
  | capturing => exact absurd rfl h
  | _ => rfl

/-- … and where there is none nothing is passed, … -/
theorem openingLength_of_not_hasOpening {cs : List Char} (h : ¬ HasOpening cs) :
    openingLength cs = 0 := by
  have hnone : openings.find? (fun opening => opening.isPrefixOf cs) = none := by
    rw [List.find?_eq_none]
    intro opening hmem hp
    obtain ⟨kind, hk, rfl⟩ := mem_openings hmem
    exact h ⟨kind, hk, List.isPrefixOf_iff_prefix.1 hp⟩
  rw [openingLength, hnone]
  rfl

/-- The scanner passes the opening that tells the kind of a group. -/
theorem openingLength_eq (cs : List Char) :
    openingLength cs = (groupKind cs).1.opening.toList.length := by
  by_cases h : HasOpening cs
  · obtain ⟨kind, hk, tail, rfl⟩ := h
    rw [openingLength_opening hk, groupKind_opening hk]
  · rw [openingLength_of_not_hasOpening h, groupKind_capturing h]
    rfl

/-- … so the scanner goes on where the reading of the kind does, … -/
theorem groupKind_eq_drop (cs : List Char) : (groupKind cs).2 = cs.drop (openingLength cs) := by
  have hdrop := congrArg (List.drop (openingLength cs)) (groupKind_sound cs).1
  rw [openingLength_eq, List.drop_left] at hdrop
  rw [openingLength_eq, hdrop]

/-- … and not behind the end of the pattern. -/
theorem openingLength_le (cs : List Char) : openingLength cs ≤ cs.length := by
  have hlen := congrArg List.length (groupKind_sound cs).1
  rw [List.length_append] at hlen
  rw [openingLength_eq]
  omega

/-! ### Items -/

section

variable {n opened : Nat} {afterAtom : Bool} {c : Char} {cs : List Char}
  {group : Reader Fault Node}

/-- At the end of the pattern no group may be open. -/
theorem scanRest_nil (n opened : Nat) (afterAtom : Bool) :
    scanRest n opened afterAtom [] =
      if opened = 0 then .ok () else .error (.unterminatedGroup, n) := by
  rw [scanRest, Scanner.run]
  rfl

/-- Only a quantifier is told apart by what stands before it. -/
theorem Scanner.move_of_not_quantifier (h : c ∉ quantifiers) (position opened : Nat)
    (afterAtom : Bool) (cs : List Char) :
    Scanner.move ⟨position, opened, afterAtom⟩ c cs =
      Scanner.move ⟨position, opened, false⟩ c cs := by
  simp only [quantifiers, List.mem_cons, List.not_mem_nil, or_false, not_or] at h
  obtain ⟨h₁, h₂, h₃, h₄⟩ := h
  simp [Scanner.move, h₁, h₂, h₃, h₄]

/-- In front of no quantifier it does not matter whether one could follow. -/
theorem scanRest_of_noQuantifier (h : NoQuantifier cs) :
    scanRest n opened afterAtom cs = scanRest n opened false cs := by
  cases cs with
  | nil => rw [scanRest_nil, scanRest_nil]
  | cons c cs =>
      have hc : c ∉ quantifiers := h c cs rfl
      have hmove := Scanner.move_of_not_quantifier hc (n - (c :: cs).length) opened afterAtom cs
      rw [scanRest, scanRest, Scanner.run, Scanner.run, hmove]

/-- Behind an atom the scanner passes what quantifies it. -/
theorem scanRest_quantified (atom : Node) (hn : cs.length ≤ n) :
    scanRest n opened true cs = resume n opened false (quantified atom cs) := by
  by_cases h : NoQuantifier cs
  · rw [quantified_bare atom h, scanRest_of_noQuantifier h]
    rfl
  · simp only [NoQuantifier, not_forall, not_not] at h
    obtain ⟨c, tail, rfl, hc⟩ := h
    simp only [quantifiers, List.mem_cons, List.not_mem_nil, or_false] at hc
    rcases hc with rfl | rfl | rfl | rfl
    · exact scanRest_skip hn (Nat.zero_le _) rfl
    · exact scanRest_skip hn (Nat.zero_le _) rfl
    · exact scanRest_skip hn (Nat.zero_le _) rfl
    · rw [scanRest_jump hn rfl (takes_braces tail), quantified]
      cases braces tail <;> rfl

/-- A `group` that reads what the scanner passes, when so many groups are open. -/
def Scans (n opened : Nat) (group : Reader Fault Node) : Prop :=
  ∀ cs, ('(' :: cs).length ≤ n →
    scanRest n opened false ('(' :: cs) = resume n opened true (group.read cs)

/-- In front of an atom the scanner goes on as if the atom had been read, or stops with the
error of its reading.  Each kind of atom is told by its first character; for a group this is
what is known of groups by induction on the depth that is left. -/
theorem scanRest_atom (hg : Scans n opened group) (hc : endsSequence c = false)
    (hn : (c :: cs).length ≤ n) :
    scanRest n opened false (c :: cs) = resume n opened true (atom group c cs) := by
  unfold atom
  -- a group, a class, an escape, or a character that stands for itself
  split
  · rename_i e
    subst e
    exact hg cs hn
  split
  · rename_i e
    subst e
    exact scanRest_jump hn rfl (takes_charClass cs)
  split
  · rename_i e
    subst e
    cases cs with
    | nil => exact scanRest_stopAtEnd hn rfl
    | cons d rest => exact scanRest_skip hn (Nat.le_add_left 1 _) rfl
  · rename_i h₁ h₂ h₃
    rw [endsSequence, Bool.or_eq_false_iff, beq_eq_false_iff_ne, beq_eq_false_iff_ne] at hc
    refine scanRest_skip hn (Nat.zero_le _) ?_
    simp [Scanner.move, h₁, h₂, h₃, hc.1, hc.2]

/-- So it is for an atom with what quantifies it, … -/
theorem scanRest_item (hg : Scans n opened group) (hc : endsSequence c = false)
    (hn : (c :: cs).length ≤ n) :
    scanRest n opened false (c :: cs) = resume n opened false (item group c cs) := by
  rw [scanRest_atom hg hc hn, item]
  cases h : atom group c cs with
  | error e => rfl
  | ok v =>
      obtain ⟨node, rest⟩ := v
      have hle : rest.length ≤ n := (atom_le h).trans ((Nat.le_succ _).trans hn)
      exact scanRest_quantified node hle

/-- **The scanner reads the items of a sequence**, one after the other. -/
theorem scanRest_items (hg : Scans n opened group) (hn : cs.length ≤ n) :
    scanRest n opened false cs = resume n opened false (items group cs) := by
  fun_induction items group cs with
  | case1 => rfl
  | case2 c cs hc => rfl
  | case3 c cs hc e hi =>
      rw [scanRest_item hg (eq_false_of_ne_true hc) hn, hi]
      rfl
  -- the item is passed, and the others are what is left
  | case4 c cs hc node rest hi e hr ih =>
      have hle : rest.length ≤ n := (item_le hi).trans ((Nat.le_succ _).trans hn)
      rw [scanRest_item hg (eq_false_of_ne_true hc) hn, hi]
      show scanRest n opened false rest = _
      rw [ih hle, hr]
  | case5 c cs hc node rest hi nodes rest' hr ih =>
      have hle : rest.length ≤ n := (item_le hi).trans ((Nat.le_succ _).trans hn)
      rw [scanRest_item hg (eq_false_of_ne_true hc) hn, hi]
      show scanRest n opened false rest = _
      rw [ih hle, hr]
      rfl

/-- … and a bar is passed by itself. -/
theorem scanRest_bar (hn : ('|' :: cs).length ≤ n) :
    scanRest n opened false ('|' :: cs) = scanRest n opened false cs :=
  scanRest_skip hn (Nat.zero_le _) rfl

/-- So the scanner passes the alternatives of a choice, each of which leaves less of the
pattern. -/
theorem scanRest_alternatives (hg : Scans n opened group) (hn : cs.length ≤ n) :
    scanRest n opened false cs = resume n opened false (alternatives group cs) := by
  fun_induction alternatives group cs with
  | case1 cs e hi =>
      rw [scanRest_items hg hn, hi]
  -- the items are passed, then the bar, then the other alternatives
  | case2 cs nodes mid hi e hr ih =>
      have hle : ('|' :: mid).length ≤ n := (items_le hi).trans hn
      rw [scanRest_items hg hn, hi]
      show scanRest n opened false ('|' :: mid) = _
      rw [scanRest_bar hle, ih ((Nat.le_succ _).trans hle), hr]
  | case3 cs nodes mid hi others rest hr ih =>
      have hle : ('|' :: mid).length ≤ n := (items_le hi).trans hn
      rw [scanRest_items hg hn, hi]
      show scanRest n opened false ('|' :: mid) = _
      rw [scanRest_bar hle, ih ((Nat.le_succ _).trans hle), hr]
      rfl
  | case4 cs nodes rest hbar hi =>
      rw [scanRest_items hg hn, hi]
      rfl

/-- **The scanner reads an alternation** without counting its bars. -/
theorem scanRest_alternation (hg : Scans n opened group) (hn : cs.length ≤ n) :
    scanRest n opened false cs = resume n opened false (alternation group cs) := by
  rw [scanRest_alternatives hg hn, alternation]
  cases alternatives group cs <;> rfl

end

/-! ### Groups -/

/-- **The scanner reads a group**, as long as the groups that are open and those that may
still be opened are 100 together. -/
theorem scans_group {n opened : Nat} (g : Nat) (h : opened + g = 100) :
    Scans n opened (group g) := by
  induction g generalizing opened with
  | zero =>
      obtain rfl : opened = 100 := h
      intro cs hn
      exact scanRest_stopHere rfl
  | succ g ih =>
      intro cs hn
      have hopened : opened ≠ 100 := by omega
      have hmove : Scanner.move ⟨n - ('(' :: cs).length, opened, false⟩ '(' cs =
          .skip (openingLength cs) (opened + 1) false := by
        simp [Scanner.move, hopened]
      have hbody : (groupKind cs).2.length ≤ n :=
        (groupKind_le cs).trans ((Nat.le_succ _).trans hn)
      have hg : Scans n (opened + 1) (group g) := ih (by omega)
      rw [scanRest_skip hn (openingLength_le cs) hmove, ← groupKind_eq_drop,
        scanRest_alternation hg hbody]
      show _ = resume n opened true (enclosed (group g) cs)
      rw [enclosed]
      cases halt : alternation (group g) (groupKind cs).2 with
      | error e =>
          simp only [halt]
          rfl
      | ok v =>
          obtain ⟨content, rest⟩ := v
          -- no bar is left over, so what follows is the end or the `)` of the group
          obtain ⟨-, -, hend⟩ := (alternation_eq_ok_iff (exact_group g)).1 halt
          simp only [halt]
          cases rest with
          | nil =>
              show scanRest n (opened + 1) false [] = _
              rw [scanRest_nil, if_neg (Nat.succ_ne_zero opened)]
              rfl
          | cons c rest =>
              obtain rfl := hend c rest rfl
              have hle : (')' :: rest).length ≤ n := (alternation_le halt).trans hbody
              exact scanRest_skip hle (Nat.zero_le _) rfl

/-! ### Patterns -/

/-- Reading a pattern and scanning it have the same outcome, but for the tree. -/
theorem parse_map_eq_scan (pattern : String) :
    (parse pattern).map (fun _ => ()) =
      (scan pattern).mapError fun (cause, offset) => ⟨cause, offset, pattern⟩ := by
  have hg : Scans pattern.toList.length 0 (group maxNesting) := scans_group maxNesting rfl
  have hscan : scan pattern = scanRest pattern.toList.length 0 false pattern.toList := by
    rw [scan, scanRest, Nat.sub_self]
  rw [hscan, scanRest_alternation hg (Nat.le_refl _)]
  simp only [parse]
  cases halt : alternation (group maxNesting) pattern.toList with
  | error e => rfl
  | ok v =>
      obtain ⟨node, rest⟩ := v
      obtain ⟨-, -, hend⟩ := (alternation_eq_ok_iff (exact_group maxNesting)).1 halt
      -- outside all groups an alternation ends at the end, or at a bracket that closes nothing
      cases rest with
      | nil =>
          show _ = (scanRest _ 0 false []).mapError _
          rw [scanRest_nil, if_pos rfl]
          rfl
      | cons c rest =>
          obtain rfl := hend c rest rfl
          show _ = (scanRest _ 0 false (')' :: rest)).mapError _
          rw [scanRest_stopHere rfl]
          rfl

/-- The error of a pattern is what the scanner stops with. -/
theorem scan_of_parse_error {pattern : String} {e : SyntaxError}
    (h : parse pattern = .error e) : scan pattern = .error (e.cause, e.offset) := by
  have hmap := parse_map_eq_scan pattern
  rw [h] at hmap
  cases hs : scan pattern with
  | ok v => rw [hs] at hmap; cases hmap
  | error f =>
      rw [hs] at hmap
      obtain rfl := Except.error.inj hmap
      rfl

/-- The scanner accepts the patterns that have a tree. -/
theorem scan_eq_ok_iff {pattern : String} :
    scan pattern = .ok () ↔ ∃ tree, parse pattern = .ok tree := by
  constructor
  · intro h
    cases hp : parse pattern with
    | ok tree => exact ⟨tree, rfl⟩
    | error e =>
        rw [scan_of_parse_error hp] at h
        cases h
  · rintro ⟨tree, ht⟩
    have hmap := parse_map_eq_scan pattern
    rw [ht] at hmap
    cases hs : scan pattern with
    | ok v => rfl
    | error f => rw [hs] at hmap; cases hmap

/-- The scanner stops at the error of a pattern. -/
theorem scan_eq_error_iff {pattern : String} {cause : Cause} {offset : Nat} :
    scan pattern = .error (cause, offset) ↔
      parse pattern = .error ⟨cause, offset, pattern⟩ := by
  refine ⟨fun h => ?_, scan_of_parse_error⟩
  have hmap := parse_map_eq_scan pattern
  rw [h] at hmap
  cases hp : parse pattern with
  | ok tree => rw [hp] at hmap; cases hmap
  | error e =>
      rw [hp] at hmap
      rw [Except.error.inj hmap]

end Pattern
end Railroad
