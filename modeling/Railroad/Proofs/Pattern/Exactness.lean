/-
# Reading is exact

Every reading of the grammar gives the canonical trees of its production and no
others, and it takes exactly their text.  For an atom that is an equivalence with
no further condition; an item and a sequence also say what the next character
cannot be, since they end where the text stops going on:

| reading | gives `t` and leaves `rest` exactly when the text is `t.text ++ rest` and |
| --- | --- |
| atom | `t` is a canonical atom |
| item | `t` is a canonical item; `rest` begins with no quantifier if `t` is bare |
| items | `t` is a canonical run; `rest` is over or begins with `\|` or `)` |
| alternation | `t` is a canonical alternation; `rest` is over or begins with `)` |

What a group reads is a parameter up to `exact_group`, which closes the circle by
induction on the number of groups that may still be opened.  `parse_eq_ok_iff` is
the whole: a pattern is read as the canonical tree that has it as its text.
-/

import Railroad.Proofs.Pattern.Spelling

namespace Railroad
namespace Pattern

open Text Node

/-- Whether a text is over or goes on with a character that ends a sequence. -/
def EndsSequence (rest : List Char) : Prop :=
  ∀ c tail, rest = c :: tail → endsSequence c = true

/-- Whether a text is over or goes on with a `)`. -/
def EndsAlternation (rest : List Char) : Prop := ∀ c tail, rest = c :: tail → c = ')'

/-- Whether a text goes on with no quantifier. -/
def NoQuantifier (rest : List Char) : Prop := ∀ c tail, rest = c :: tail → c ∉ quantifiers

/-- What ends an alternation ends the sequence in it. -/
theorem EndsAlternation.endsSequence {rest : List Char} (h : EndsAlternation rest) :
    EndsSequence rest := fun c tail e => by
  rw [h c tail e]
  rfl

/-- A bar ends a sequence. -/
theorem endsSequence_bar (tail : List Char) : EndsSequence ('|' :: tail) := fun c _ e => by
  rw [← (List.cons.inj e).1]
  rfl

/-- A closing bracket ends an alternation. -/
theorem endsAlternation_close (tail : List Char) : EndsAlternation (')' :: tail) :=
  fun _ _ e => (List.cons.inj e).1.symm

/-- A `group` that reads, behind a `(`, the canonical groups that hold what `inner` says. -/
def Exact (inner : Node → Prop) (group : Reader Fault Node) : Prop :=
  ∀ cs node rest, group.read cs = .ok (node, rest) ↔
    IsAtom inner node ∧ '(' :: cs = node.text ++ rest

/-! ### Items -/

/-- A brace quantifier ends at the first `}`. -/
theorem braces_complete {body : List Char} (h : '}' ∉ body) (rest : List Char) :
    braces (body ++ '}' :: rest) = .ok (body ++ ['}'], rest) := by
  induction body with
  | nil => rw [List.nil_append, braces, if_pos rfl, List.nil_append]
  | cons c body ih =>
      rw [List.mem_cons, not_or] at h
      rw [List.cons_append, braces, if_neg (Ne.symm h.1), ih h.2, List.cons_append]

/-- What is read as a brace quantifier ends at the first closing brace. -/
theorem braces_sound {cs text rest : List Char} (h : braces cs = .ok (text, rest)) :
    ∃ body, text = body ++ ['}'] ∧ '}' ∉ body ∧ cs = text ++ rest := by
  -- by induction on the characters, up to the first closing brace
  induction cs generalizing text with
  | nil => cases h
  | cons c cs ih =>
      rw [braces] at h
      split at h
      · rename_i hc
        obtain ⟨rfl, rfl⟩ := Prod.mk.inj (Except.ok.inj h)
        exact ⟨[], by rw [hc]; rfl, List.not_mem_nil, rfl⟩
      · rename_i hc
        split at h
        · cases h
        · rename_i e
          obtain ⟨rfl, rfl⟩ := Prod.mk.inj (Except.ok.inj h)
          obtain ⟨body, rfl, hb, rfl⟩ := ih e
          refine ⟨c :: body, rfl, ?_, rfl⟩
          exact fun hm => (List.mem_cons.1 hm).elim (fun e => hc e.symm) hb

section

variable {inner : Node → Prop} {group : Reader Fault Node}

/-- What follows an atom makes it an item, and is left over where it is no quantifier. -/
theorem quantified_sound {atom node : Node} {cs rest : List Char} (ha : IsAtom inner atom)
    (h : quantified atom cs = .ok (node, rest)) :
    IsItem inner node ∧ (node.IsQuantified ∨ NoQuantifier rest) ∧
      atom.text ++ cs = node.text ++ rest := by
  -- one case for each quantifier, and one for none
  unfold quantified at h
  split at h
  · obtain ⟨rfl, rfl⟩ := Prod.mk.inj (Except.ok.inj h)
    exact ⟨.zeroOrMore ha, .inl trivial, by rw [text, List.append_assoc]; rfl⟩
  · obtain ⟨rfl, rfl⟩ := Prod.mk.inj (Except.ok.inj h)
    exact ⟨.oneOrMore ha, .inl trivial, by rw [text, List.append_assoc]; rfl⟩
  · obtain ⟨rfl, rfl⟩ := Prod.mk.inj (Except.ok.inj h)
    exact ⟨.optional ha, .inl trivial, by rw [text, List.append_assoc]; rfl⟩
  · split at h
    · cases h
    · rename_i e
      obtain ⟨rfl, rfl⟩ := Prod.mk.inj (Except.ok.inj h)
      obtain ⟨body, rfl, hb, rfl⟩ := braces_sound e
      refine ⟨.counted ha hb, .inl trivial, ?_⟩
      rw [text_counted, List.append_assoc atom.text, List.cons_append]
  · rename_i h₁ h₂ h₃ h₄
    obtain ⟨rfl, rfl⟩ := Prod.mk.inj (Except.ok.inj h)
    refine ⟨.bare ha, .inr fun c tail e hc => ?_, rfl⟩
    simp only [quantifiers, List.mem_cons, List.not_mem_nil, or_false] at hc
    rcases hc with rfl | rfl | rfl | rfl
    · exact h₁ tail e
    · exact h₂ tail e
    · exact h₃ tail e
    · exact h₄ tail e

/-- An atom that no quantifier follows is an item by itself. -/
theorem quantified_bare {rest : List Char} (atom : Node) (h : NoQuantifier rest) :
    quantified atom rest = .ok (atom, rest) := by
  unfold quantified
  split
  · exact absurd (by decide) (h _ _ rfl)
  · exact absurd (by decide) (h _ _ rfl)
  · exact absurd (by decide) (h _ _ rfl)
  · exact absurd (by decide) (h _ _ rfl)
  · rfl

/-- An item is its atom, read with the quantifier that follows it. -/
theorem quantified_complete {node : Node} {rest : List Char} (h : IsItem inner node)
    (hr : node.IsQuantified ∨ NoQuantifier rest) :
    ∃ cs, node.text ++ rest = node.unquantified.text ++ cs ∧
      quantified node.unquantified cs = .ok (node, rest) := by
  cases h with
  -- nothing is added to an atom, and what follows it is no quantifier
  | bare h =>
      rw [h.unquantified_eq]
      exact ⟨rest, rfl, quantified_bare node (hr.resolve_left h.not_isQuantified)⟩
  | optional => exact ⟨'?' :: rest, by rw [text, List.append_assoc]; rfl, rfl⟩
  | zeroOrMore => exact ⟨'*' :: rest, by rw [text, List.append_assoc]; rfl, rfl⟩
  | oneOrMore => exact ⟨'+' :: rest, by rw [text, List.append_assoc]; rfl, rfl⟩
  | @counted atom body h hb =>
      refine ⟨'{' :: (body ++ '}' :: rest), ?_, ?_⟩
      · rw [text_counted, unquantified, List.append_assoc, List.cons_append, List.append_assoc]
        rfl
      · rw [unquantified, quantified, braces_complete hb]

/-- A character that opens nothing is an atom by itself. -/
theorem bare_sound {c : Char} (h : c ∉ ['(', '[', '\\']) (hc : endsSequence c = false) :
    IsAtom inner (bare c) ∧ (bare c).text = [c] := by
  unfold bare
  split
  · rename_i e
    exact ⟨.anyChar, by rw [e]; rfl⟩
  split
  · rename_i e
    exact ⟨.anchorStart, by rw [e]; rfl⟩
  split
  · rename_i e
    exact ⟨.anchorEnd, by rw [e]; rfl⟩
  · refine ⟨.literal ?_, text_literal c⟩
    simp_all [endsSequence, reserved]

/-- A character with no meaning of its own is read as a literal. -/
theorem atom_literal {c : Char} (h : c ∉ reserved) (cs : List Char) :
    atom group c cs = .ok (.literal (String.singleton c), cs) := by
  simp only [reserved, List.mem_cons, List.not_mem_nil, or_false, not_or] at h
  obtain ⟨h₁, -, h₂, -, h₃, h₄, h₅, h₆⟩ := h
  unfold atom bare
  rw [if_neg h₁, if_neg h₂, if_neg h₆, if_neg h₃, if_neg h₄, if_neg h₅]

/-- An atom is read by its first character. -/
theorem atom_eq_ok_iff (hg : Exact inner group) {c : Char} (hc : endsSequence c = false)
    {cs rest : List Char} {node : Node} :
    atom group c cs = .ok (node, rest) ↔ IsAtom inner node ∧ c :: cs = node.text ++ rest := by
  constructor
  · intro h
    -- a character tells the kind of atom: bracket, square bracket, backslash, or one by itself
    unfold atom at h
    split at h
    · rename_i e
      exact e ▸ (hg cs node rest).1 h
    split at h
    · rename_i e
      obtain ⟨items, negated, rfl, hclass, rfl⟩ := charClass_sound h
      exact ⟨.charClass hclass, by rw [e]; rfl⟩
    split at h
    · rename_i e
      split at h
      · cases h
      · obtain ⟨rfl, rfl⟩ := Prod.mk.inj (Except.ok.inj h)
        rw [e, text_escape]
        exact ⟨.escape _, rfl⟩
    · rename_i h₁ h₂ h₃
      obtain ⟨rfl, rfl⟩ := Prod.mk.inj (Except.ok.inj h)
      have hopen : c ∉ ['(', '[', '\\'] := by simp [h₁, h₂, h₃]
      obtain ⟨ha, ht⟩ := bare_sound hopen hc
      exact ⟨ha, by rw [ht]; rfl⟩
  -- the other way round the kind of atom tells its first character
  · rintro ⟨h, e⟩
    cases h with
    | anyChar =>
        obtain ⟨rfl, rfl⟩ := List.cons.inj e
        rfl
    | anchorStart =>
        obtain ⟨rfl, rfl⟩ := List.cons.inj e
        rfl
    | anchorEnd =>
        obtain ⟨rfl, rfl⟩ := List.cons.inj e
        rfl
    | literal hl =>
        rw [text_literal] at e
        obtain ⟨rfl, rfl⟩ := List.cons.inj e
        exact atom_literal hl _
    | escape d =>
        rw [text_escape] at e
        obtain ⟨rfl, rfl⟩ := List.cons.inj e
        rfl
    | charClass h =>
        obtain ⟨rfl, rfl⟩ := List.cons.inj e
        exact charClass_complete h rest
    | group hi hk =>
        obtain ⟨rfl, -⟩ := List.cons.inj e
        exact (hg cs _ rest).2 ⟨.group hi hk, e⟩

/-- **An item is read whole**: it is over only where no quantifier follows. -/
theorem item_eq_ok_iff (hg : Exact inner group) {c : Char} (hc : endsSequence c = false)
    {cs rest : List Char} {node : Node} :
    item group c cs = .ok (node, rest) ↔
      IsItem inner node ∧ c :: cs = node.text ++ rest ∧
        (node.IsQuantified ∨ NoQuantifier rest) := by
  -- an atom and what quantifies it, which is written behind the atom
  constructor
  · intro h
    unfold item at h
    split at h
    · cases h
    · rename_i e
      obtain ⟨ha, hcs⟩ := (atom_eq_ok_iff hg hc).1 e
      obtain ⟨hi, hq, ht⟩ := quantified_sound ha h
      exact ⟨hi, hcs.trans ht, hq⟩
  · rintro ⟨hi, hcs, hq⟩
    obtain ⟨tail, ht, hqt⟩ := quantified_complete hi hq
    have ha := (atom_eq_ok_iff hg hc).2 ⟨hi.unquantified_isAtom.1, hcs.trans ht⟩
    rw [item, ha]
    exact hqt

/-! ### Sequences -/

/-- What ends a sequence is no quantifier. -/
theorem EndsSequence.noQuantifier {rest : List Char} (h : EndsSequence rest) :
    NoQuantifier rest := by
  intro c tail e hc
  have hend := h c tail e
  simp only [quantifiers, List.mem_cons, List.not_mem_nil, or_false] at hc
  rcases hc with rfl | rfl | rfl | rfl <;> exact absurd hend (by decide)

/-- An item keeps quantifiers away from the item before it unless it begins with one. -/
theorem noQuantifier_text_iff {node : Node} (h : IsItem inner node) (rest : List Char) :
    NoQuantifier (node.text ++ rest) ↔ ¬ node.IsQuantifierLiteral := by
  obtain ⟨c, tail, ht, -, hq⟩ := h.text_eq_cons
  rw [ht, ← hq]
  refine ⟨fun hn => hn c _ rfl, fun hn d tail' e => ?_⟩
  obtain ⟨rfl, -⟩ := List.cons.inj e
  exact hn

/-- A run with one more item in front: where the run is followed by a text that ends
the sequence, the new item must be quantified or followed by no quantifier. -/
theorem isRun_cons_iff {node : Node} {nodes : List Node} {rest : List Char}
    (hr : EndsSequence rest) :
    IsRun inner (node :: nodes) ↔ IsItem inner node ∧ IsRun inner nodes ∧
      (node.IsQuantified ∨ NoQuantifier ((nodes.map text).flatten ++ rest)) := by
  -- what follows an item is the next item, or what ends the sequence
  constructor
  · rintro ⟨hitems, hchain⟩
    obtain ⟨hi, his⟩ := List.forall_mem_cons.1 hitems
    refine ⟨hi, ⟨his, hchain.of_cons⟩, ?_⟩
    cases nodes with
    | nil => exact .inr hr.noQuantifier
    | cons next nodes =>
        refine hchain.rel.imp_right fun hn => ?_
        rw [List.map_cons, List.flatten_cons, List.append_assoc]
        exact (noQuantifier_text_iff (his next (List.mem_cons_self ..)) _).2 hn
  · rintro ⟨hi, ⟨his, hchain⟩, hq⟩
    refine ⟨List.forall_mem_cons.2 ⟨hi, his⟩, ?_⟩
    cases nodes with
    | nil => exact .singleton node
    | cons next nodes =>
        refine .cons_cons (hq.imp_right fun hn => ?_) hchain
        rw [List.map_cons, List.flatten_cons, List.append_assoc] at hn
        exact (noQuantifier_text_iff (his next (List.mem_cons_self ..)) _).1 hn

/-- In front of what ends a sequence there are no further items. -/
theorem items_of_endsSequence {rest : List Char} (h : EndsSequence rest) :
    items group rest = .ok ([], rest) := by
  cases rest with
  | nil => rw [items]
  | cons c tail => rw [items, if_pos (h c tail rfl)]

/-- An item, and the items behind it. -/
theorem items_cons {c : Char} {cs mid rest : List Char} {node : Node} {nodes : List Node}
    (hc : endsSequence c = false) (h : item group c cs = .ok (node, mid))
    (hm : items group mid = .ok (nodes, rest)) :
    items group (c :: cs) = .ok (node :: nodes, rest) := by
  rw [items, if_neg (by rw [hc]; exact Bool.false_ne_true)]
  split
  · rename_i e
    cases h.symm.trans e
  · rename_i e
    obtain ⟨rfl, rfl⟩ := Prod.mk.inj (Except.ok.inj (h.symm.trans e))
    rw [hm]

/-- **The items of a sequence are read up to its end.** -/
theorem items_eq_ok_iff (hg : Exact inner group) {cs rest : List Char} {nodes : List Node} :
    items group cs = .ok (nodes, rest) ↔
      IsRun inner nodes ∧ cs = (nodes.map text).flatten ++ rest ∧ EndsSequence rest := by
  constructor
  · intro h
    -- soundness follows the recursion of the reader, completeness the list of items
    fun_induction items group cs generalizing nodes rest with
    | case1 =>
        obtain ⟨rfl, rfl⟩ := Prod.mk.inj (Except.ok.inj h)
        exact ⟨⟨fun _ hm => absurd hm List.not_mem_nil, .nil⟩, rfl, fun _ _ e => by cases e⟩
    | case2 c cs hc =>
        obtain ⟨rfl, rfl⟩ := Prod.mk.inj (Except.ok.inj h)
        refine ⟨⟨fun _ hm => absurd hm List.not_mem_nil, .nil⟩, rfl, fun d tail e => ?_⟩
        obtain ⟨rfl, -⟩ := List.cons.inj e
        exact hc
    | case3 => cases h
    | case4 => cases h
    | case5 c cs hc node mid hi others rest' hr ih =>
        obtain ⟨rfl, rfl⟩ := Prod.mk.inj (Except.ok.inj h)
        obtain ⟨hrun, hmid, hend⟩ := ih hr
        obtain ⟨hitem, hcs, hq⟩ := (item_eq_ok_iff hg (eq_false_of_ne_true hc)).1 hi
        refine ⟨(isRun_cons_iff hend).2 ⟨hitem, hrun, hmid ▸ hq⟩, ?_, hend⟩
        rw [hcs, hmid, List.map_cons, List.flatten_cons, List.append_assoc]
  · rintro ⟨hrun, rfl, hr⟩
    induction nodes with
    | nil => exact items_of_endsSequence hr
    | cons node nodes ih =>
        obtain ⟨hi, hrun, hq⟩ := (isRun_cons_iff hr).1 hrun
        obtain ⟨c, tail, ht, hc, -⟩ := hi.text_eq_cons
        have hitem := (item_eq_ok_iff hg hc).2 ⟨hi, by rw [ht]; rfl, hq⟩
        rw [List.map_cons, List.flatten_cons, List.append_assoc, ht]
        exact items_cons hc hitem (ih hrun)

/-! ### Alternations -/

/-- An alternative with no bar behind it is the last one. -/
theorem alternatives_last {cs rest : List Char} {nodes : List Node}
    (h : items group cs = .ok (nodes, rest)) (hr : ∀ tail, rest ≠ '|' :: tail) :
    alternatives group cs = .ok ([.ofItems nodes], rest) := by
  rw [alternatives]
  split
  · rename_i e
    cases h.symm.trans e
  · rename_i e
    exact absurd (Prod.mk.inj (Except.ok.inj (h.symm.trans e))).2 (hr _)
  · rename_i e
    obtain ⟨rfl, rfl⟩ := Prod.mk.inj (Except.ok.inj (h.symm.trans e))
    rfl

/-- An alternative with a bar behind it, and the others. -/
theorem alternatives_cons {cs mid rest : List Char} {nodes others : List Node}
    (h : items group cs = .ok (nodes, '|' :: mid))
    (hm : alternatives group mid = .ok (others, rest)) :
    alternatives group cs = .ok (.ofItems nodes :: others, rest) := by
  rw [alternatives]
  split
  · rename_i e
    cases h.symm.trans e
  · rename_i e
    obtain ⟨rfl, hbar⟩ := Prod.mk.inj (Except.ok.inj (h.symm.trans e))
    obtain ⟨-, rfl⟩ := List.cons.inj hbar
    rw [hm]
  · rename_i hne e
    obtain ⟨-, rfl⟩ := Prod.mk.inj (Except.ok.inj (h.symm.trans e))
    exact absurd rfl (hne mid)

/-- The sequence of a canonical tree is read up to where it ends. -/
theorem items_eq_ok_of_isSequence (hg : Exact inner group) {node : Node} (h : IsSequence inner node)
    (rest : List Char) (hr : EndsSequence rest) :
    ∃ nodes, node = .ofItems nodes ∧ items group (node.text ++ rest) = .ok (nodes, rest) := by
  obtain ⟨nodes, rfl, hrun⟩ := isSequence_iff.1 h
  rw [text_ofItems]
  exact ⟨nodes, rfl, (items_eq_ok_iff hg).2 ⟨hrun, rfl, hr⟩⟩

/-- Alternatives are followed by the end or by a `)`, being read past every bar. -/
theorem alternatives_eq_ok_iff (hg : Exact inner group) {cs rest : List Char}
    {nodes : List Node} :
    alternatives group cs = .ok (nodes, rest) ↔
      nodes ≠ [] ∧ (∀ node ∈ nodes, IsSequence inner node) ∧
        cs = ['|'].intercalate (nodes.map text) ++ rest ∧ EndsAlternation rest := by
  constructor
  · intro h
    -- soundness follows the recursion of the reader, completeness the alternatives
    fun_induction alternatives group cs generalizing nodes rest with
    | case1 => cases h
    | case2 => cases h
    | case3 cs nodes mid hi others rest' hr ih =>
        obtain ⟨rfl, rfl⟩ := Prod.mk.inj (Except.ok.inj h)
        obtain ⟨hrun, hcs, -⟩ := (items_eq_ok_iff hg).1 hi
        obtain ⟨hne, hseq, hmid, hend⟩ := ih hr
        refine ⟨List.cons_ne_nil _ _, ?_, ?_, hend⟩
        · exact List.forall_mem_cons.2 ⟨isSequence_iff.2 ⟨nodes, rfl, hrun⟩, hseq⟩
        · rw [hcs, hmid, List.map_cons,
            List.intercalate_cons_of_ne_nil (mt List.map_eq_nil_iff.1 hne), text_ofItems]
          simp
    | case4 cs nodes rest' hbar hi =>
        obtain ⟨rfl, rfl⟩ := Prod.mk.inj (Except.ok.inj h)
        obtain ⟨hrun, hcs, hend⟩ := (items_eq_ok_iff hg).1 hi
        refine ⟨List.cons_ne_nil _ _, ?_, ?_, fun c tail e => ?_⟩
        · exact List.forall_mem_singleton.2 (isSequence_iff.2 ⟨nodes, rfl, hrun⟩)
        · rw [hcs, List.map_singleton, List.intercalate_singleton, text_ofItems]
        · have hc := hend c tail e
          rw [endsSequence, Bool.or_eq_true, beq_iff_eq, beq_iff_eq] at hc
          exact hc.resolve_left fun hc => hbar tail (hc ▸ e)
  · rintro ⟨hne, hseq, rfl, hr⟩
    induction nodes with
    | nil => exact absurd rfl hne
    | cons node nodes ih =>
        obtain ⟨hnode, hseq⟩ := List.forall_mem_cons.1 hseq
        cases nodes with
        | nil =>
            obtain ⟨its, rfl, hits⟩ := items_eq_ok_of_isSequence hg hnode rest hr.endsSequence
            rw [List.map_singleton, List.intercalate_singleton]
            refine alternatives_last hits fun tail e => ?_
            exact absurd (hr '|' tail e) (by decide)
        | cons next nodes =>
            have hmid := ih (List.cons_ne_nil _ _) hseq
            obtain ⟨its, rfl, hits⟩ := items_eq_ok_of_isSequence hg hnode _
              (endsSequence_bar (['|'].intercalate ((next :: nodes).map text) ++ rest))
            rw [List.map_cons, List.map_cons, List.intercalate_cons_cons, List.append_assoc,
              List.append_assoc]
            exact alternatives_cons hits hmid

/-- **An alternation is read up to the end or to the `)` that closes it.** -/
theorem alternation_eq_ok_iff (hg : Exact inner group) {cs rest : List Char} {node : Node} :
    alternation group cs = .ok (node, rest) ↔
      IsAlternation inner node ∧ cs = node.text ++ rest ∧ EndsAlternation rest := by
  -- one alternative stands for itself, and more of them are a choice
  constructor
  · intro h
    unfold alternation at h
    split at h
    · cases h
    · rename_i e
      obtain ⟨rfl, rfl⟩ := Prod.mk.inj (Except.ok.inj h)
      obtain ⟨hne, hseq, hcs, hend⟩ := (alternatives_eq_ok_iff hg).1 e
      refine ⟨isAlternation_iff.2 ⟨_, hne, rfl, hseq⟩, ?_, hend⟩
      rw [text_ofAlternatives hne]
      exact hcs
  · rintro ⟨h, rfl, hend⟩
    obtain ⟨nodes, hne, rfl, hseq⟩ := isAlternation_iff.1 h
    rw [alternation, text_ofAlternatives hne,
      (alternatives_eq_ok_iff hg).2 ⟨hne, hseq, rfl, hend⟩]

/-! ### Groups -/

/-- A canonical group holds the text behind its `(` up to its `)`. -/
theorem enclosed_eq_ok_iff (hg : Exact inner group)
    (hinner : ∀ node, inner node → node.spelling = .ok node.text) {cs rest : List Char}
    {node : Node} :
    enclosed group cs = .ok (node, rest) ↔
      IsAtom (IsAlternation inner) node ∧ '(' :: cs = node.text ++ rest := by
  constructor
  · intro h
    -- the opening has been taken off, and a capturing group had none
    obtain ⟨hcs, hkind⟩ := groupKind_sound cs
    simp only [enclosed] at h
    split at h
    · cases h
    · rename_i content rest' e
      obtain ⟨rfl, rfl⟩ := Prod.mk.inj (Except.ok.inj h)
      obtain ⟨hcontent, hbody, -⟩ := (alternation_eq_ok_iff hg).1 e
      rw [hbody] at hcs
      refine ⟨.group hcontent fun hcap hopens => hkind hcap ?_, ?_⟩
      · rw [opensKind_iff (hcontent.spelling hinner)] at hopens
        rw [hcap] at hcs
        exact hcs ▸ hopens.append _
      · conv_lhs => rw [hcs]
        simp [text]
    · cases h
  · rintro ⟨h, e⟩
    obtain ⟨content, kind, rfl⟩ := h.eq_group e
    cases h with
    | group hcontent hcap =>
        have hcs : cs = kind.opening.toList ++ (content.text ++ ')' :: rest) := by
          simpa [text] using e
        -- the content must not be taken for the opening of another kind
        have hkind : groupKind cs = (kind, content.text ++ ')' :: rest) := by
          by_cases hk : kind = .capturing
          · rw [opensKind_iff (hcontent.spelling hinner)] at hcap
            subst hk
            rw [hcs, GroupKind.toList_opening_capturing, List.nil_append]
            refine groupKind_capturing fun ho => hcap rfl (ho.of_append fun c tail e => ?_)
            rw [← (List.cons.inj e).1]
            decide
          · rw [hcs, groupKind_opening hk]
        have halt := (alternation_eq_ok_iff hg).2
          ⟨hcontent, rfl, endsAlternation_close rest⟩
        simp only [enclosed, hkind, halt]

end

/-- **Reading a group is exact**, however many groups may still be opened. -/
theorem exact_group (g : Nat) : Exact (IsContent g) (group g) := by
  induction g with
  | zero =>
      intro cs node rest
      refine ⟨fun h => (by cases h), fun ⟨h, e⟩ => ?_⟩
      obtain ⟨content, kind, rfl⟩ := h.eq_group e
      cases h with
      | group hcontent => exact hcontent.elim
  | succ g ih => exact fun cs node rest => enclosed_eq_ok_iff ih fun _ => IsContent.spelling

/-- **A pattern is read as the canonical tree that spells it**, and only a pattern that
is spelled by one is read. -/
theorem parse_eq_ok_iff {pattern : String} {tree : Node} :
    parse pattern = .ok tree ↔ tree.Canonical maxNesting ∧ tree.text = pattern.toList := by
  -- a pattern is an alternation with nothing behind it
  have halt (rest : List Char) : alternation (group maxNesting) pattern.toList = .ok (tree, rest) ↔
      tree.Canonical maxNesting ∧ pattern.toList = tree.text ++ rest ∧ EndsAlternation rest :=
    alternation_eq_ok_iff (exact_group maxNesting)
  constructor
  · intro h
    simp only [parse] at h
    split at h
    · cases h
    · rename_i e
      obtain rfl := Except.ok.inj h
      obtain ⟨hc, ht, -⟩ := (halt []).1 e
      rw [List.append_nil] at ht
      exact ⟨hc, ht.symm⟩
    · cases h
  · rintro ⟨hc, ht⟩
    have hread := (halt []).2 ⟨hc, by rw [List.append_nil, ht], fun _ _ e => by cases e⟩
    simp only [parse, hread]

end Pattern
end Railroad
