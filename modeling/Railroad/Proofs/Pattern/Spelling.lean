/-
# The text of a canonical tree

`Node.spelling` gives the text of a tree or its first stray object.  Canonical
trees hold no stray object, so they have a text outright: `Node.text`, in which a
stray object is passed over.  The two agree wherever there is a spelling at all
(`Node.text_of_spelling`), and a canonical tree has one (`Node.Canonical.spelling`).

The rest says how the text of an atom or an item begins, which is all that the
reading of the item before it looks at.
-/

import Railroad.Proofs.Pattern.Members

namespace Railroad
namespace Pattern
namespace Node

mutual

/-- The characters of a tree, those of a stray object left out. -/
def text : Node → List Char
  | literal text => text.toList
  | escape text => text.toList
  | anyChar => ['.']
  | anchorStart => ['^']
  | anchorEnd => ['$']
  | charClass items negated => '[' :: classText items negated
  | sequence items => (texts items).flatten
  | choice alternatives => ['|'].intercalate (texts alternatives)
  | optional item => text item ++ ['?']
  | zeroOrMore item => text item ++ ['*']
  | oneOrMore item => text item ++ ['+']
  | counted item quantifier => text item ++ quantifier.toList
  | group content kind => '(' :: kind.opening.toList ++ text content ++ [')']
  | empty => []
  | stray _ => []

/-- The characters of the trees of a list, tree by tree. -/
def texts : List Node → List (List Char)
  | [] => []
  | node :: nodes => text node :: texts nodes

end

/-- The texts of several trees are their texts one by one. -/
theorem texts_eq_map (nodes : List Node) : texts nodes = nodes.map text := by
  induction nodes with
  | nil => rfl
  | cons node nodes ih => rw [texts, ih, List.map_cons]

@[simp] theorem text_literal (c : Char) : (literal (String.singleton c)).text = [c] := by
  rw [text, String.toList_singleton]

@[simp] theorem text_escape (c : Char) : (escape (String.ofList ['\\', c])).text = ['\\', c] := by
  rw [text, String.toList_ofList]

/-- The text of a row is that of its items, one behind the other. -/
@[simp] theorem text_sequence (items : List Node) :
    (sequence items).text = (items.map text).flatten := by
  rw [text, texts_eq_map]

/-- The text of a choice is that of its alternatives, with bars between them. -/
@[simp] theorem text_choice (alternatives : List Node) :
    (choice alternatives).text = ['|'].intercalate (alternatives.map text) := by
  rw [text, texts_eq_map]

/-- A brace quantifier is written behind what it counts. -/
theorem text_counted (item : Node) (body : List Char) :
    (counted item (String.ofList ('{' :: (body ++ ['}'])))).text =
      item.text ++ '{' :: (body ++ ['}']) := by
  rw [text, String.toList_ofList]

/-! ### The two spellings -/

/-- A result that something was done with was a success if it now is one. -/
theorem map_eq_ok {ε α β : Type} {f : α → β} {x : Except ε α} {y : β} (h : x.map f = .ok y) :
    ∃ a, x = .ok a ∧ f a = y := by
  cases x with
  | error => cases h
  | ok a => exact ⟨a, rfl, Except.ok.inj h⟩

mutual

/-- Where a tree has a spelling, it is the text of the tree. -/
theorem text_of_spelling :
    ∀ {node : Node} {cs : List Char}, node.spelling = .ok cs → cs = node.text
  | literal _, _, h => (Except.ok.inj h).symm
  | escape _, _, h => (Except.ok.inj h).symm
  | anyChar, _, h => (Except.ok.inj h).symm
  | anchorStart, _, h => (Except.ok.inj h).symm
  | anchorEnd, _, h => (Except.ok.inj h).symm
  | charClass items negated, _, h => by
      rw [← Except.ok.inj h, text, classText]
      simp [membersText]
  -- a text has been put together from those of the parts
  | sequence items, _, h => by
      obtain ⟨ts, hts, rfl⟩ := map_eq_ok h
      rw [texts_of_spellings hts, text]
  | choice alternatives, _, h => by
      obtain ⟨ts, hts, rfl⟩ := map_eq_ok h
      rw [texts_of_spellings hts, text]
  | optional item, _, h => by
      obtain ⟨t, ht, rfl⟩ := map_eq_ok h
      rw [text_of_spelling ht, text]
  | zeroOrMore item, _, h => by
      obtain ⟨t, ht, rfl⟩ := map_eq_ok h
      rw [text_of_spelling ht, text]
  | oneOrMore item, _, h => by
      obtain ⟨t, ht, rfl⟩ := map_eq_ok h
      rw [text_of_spelling ht, text]
  | counted item quantifier, _, h => by
      obtain ⟨t, ht, rfl⟩ := map_eq_ok h
      rw [text_of_spelling ht, text]
  | group content kind, _, h => by
      obtain ⟨t, ht, rfl⟩ := map_eq_ok h
      rw [text_of_spelling ht, text]
  | empty, _, h => (Except.ok.inj h).symm
  | stray _, _, h => by cases h

/-- Spellings that succeed are the texts. -/
theorem texts_of_spellings :
    ∀ {nodes : List Node} {ts : List (List Char)}, spellings nodes = .ok ts → ts = texts nodes
  | [], _, h => (Except.ok.inj h).symm
  | node :: nodes, _, h => by
      rw [spellings] at h
      split at h
      · cases h
      · rename_i t ht
        obtain ⟨ts, hts, rfl⟩ := map_eq_ok h
        rw [text_of_spelling ht, texts_of_spellings hts, texts]

end

/-- Trees that all have a spelling have one as a list. -/
theorem spellings_eq_texts {nodes : List Node}
    (h : ∀ node ∈ nodes, node.spelling = .ok node.text) : spellings nodes = .ok (texts nodes) := by
  induction nodes with
  | nil => rfl
  | cons node nodes ih =>
      rw [spellings, h node (List.mem_cons_self ..),
        ih fun other ho => h other (List.mem_cons_of_mem _ ho)]
      rfl

section

variable {inner : Node → Prop} (hinner : ∀ node, inner node → node.spelling = .ok node.text)

include hinner

/-- An atom of the grammar has no stray object, so it is spelled as its text. -/
theorem IsAtom.spelling {node : Node} (h : IsAtom inner node) : node.spelling = .ok node.text := by
  cases h with
  | charClass => simp [Node.spelling, text, classText, membersText]
  | group hc =>
      rw [Node.spelling, hinner _ hc, text]
      rfl
  | _ => rfl

/-- So is an item, … -/
theorem IsItem.spelling {node : Node} (h : IsItem inner node) : node.spelling = .ok node.text := by
  cases h with
  | bare h => exact h.spelling hinner
  | optional h => rw [Node.spelling, h.spelling hinner, text]; rfl
  | zeroOrMore h => rw [Node.spelling, h.spelling hinner, text]; rfl
  | oneOrMore h => rw [Node.spelling, h.spelling hinner, text]; rfl
  | counted h => rw [Node.spelling, h.spelling hinner, text]; rfl

/-- … so is a sequence, … -/
theorem IsSequence.spelling {node : Node} (h : IsSequence inner node) :
    node.spelling = .ok node.text := by
  cases h with
  | empty => rfl
  | item h => exact h.spelling hinner
  | sequence _ h =>
      have hitems := spellings_eq_texts fun item hi => (h.canonical item hi).spelling hinner
      rw [Node.spelling, hitems, text]
      rfl

/-- … so is an alternation, … -/
theorem IsAlternation.spelling {node : Node} (h : IsAlternation inner node) :
    node.spelling = .ok node.text := by
  cases h with
  | sequence h => exact h.spelling hinner
  | choice _ h =>
      have hothers := spellings_eq_texts fun other ho => (h other ho).spelling hinner
      rw [Node.spelling, hothers, text]
      rfl

end

/-- Where a tree has a text, it begins like a kind of group when its text does. -/
theorem opensKind_iff {node : Node} (h : node.spelling = .ok node.text) :
    node.OpensKind ↔ HasOpening node.text := by
  refine ⟨fun ⟨cs, hcs, hk⟩ => ?_, fun hk => ⟨_, h, hk⟩⟩
  exact text_of_spelling hcs ▸ hk

/-- … and so is what a group holds. -/
theorem IsContent.spelling {g : Nat} {node : Node} (h : IsContent g node) :
    node.spelling = .ok node.text := by
  induction g generalizing node with
  | zero => exact h.elim
  | succ g ih => exact IsAlternation.spelling (fun _ => ih) h

/-- **A canonical tree has a spelling.** -/
theorem Canonical.spelling {g : Nat} {node : Node} (h : Canonical g node) :
    node.spelling = .ok node.text :=
  IsAlternation.spelling (fun _ => IsContent.spelling) h

/-! ### How a text begins -/

section

variable {inner : Node → Prop}

/-- An atom begins with a character that does not end a sequence, and that quantifies
nothing unless it is the atom. -/
theorem IsAtom.text_eq_cons {node : Node} (h : IsAtom inner node) :
    ∃ c tail, node.text = c :: tail ∧ endsSequence c = false ∧
      (c ∈ quantifiers → node = .literal (String.singleton c)) := by
  cases h with
  | anyChar => exact ⟨'.', [], rfl, by decide, fun hc => absurd hc (by decide)⟩
  | anchorStart => exact ⟨'^', [], rfl, by decide, fun hc => absurd hc (by decide)⟩
  | anchorEnd => exact ⟨'$', [], rfl, by decide, fun hc => absurd hc (by decide)⟩
  | @literal c hc =>
      refine ⟨c, [], text_literal c, ?_, fun _ => rfl⟩
      rw [reserved] at hc
      simp_all [endsSequence]
  | escape c => exact ⟨'\\', [c], text_escape c, by decide, fun hc => absurd hc (by decide)⟩
  | charClass => exact ⟨'[', _, rfl, by decide, fun hc => absurd hc (by decide)⟩
  | group => exact ⟨'(', _, rfl, by decide, fun hc => absurd hc (by decide)⟩

/-- Only a group begins with a `(`. -/
theorem IsAtom.eq_group {node : Node} (h : IsAtom inner node) {cs rest : List Char}
    (e : '(' :: cs = node.text ++ rest) : ∃ content kind, node = .group content kind := by
  cases h with
  | anyChar => exact absurd (List.cons.inj e).1 (by decide)
  | anchorStart => exact absurd (List.cons.inj e).1 (by decide)
  | anchorEnd => exact absurd (List.cons.inj e).1 (by decide)
  | literal hc =>
      rw [text_literal] at e
      exact absurd (by rw [← (List.cons.inj e).1]; decide) hc
  | escape =>
      rw [text_escape] at e
      exact absurd (List.cons.inj e).1 (by decide)
  | charClass => exact absurd (List.cons.inj e).1 (by decide)
  | group => exact ⟨_, _, rfl⟩

/-- An atom is under no quantifier. -/
theorem IsAtom.not_isQuantified {node : Node} (h : IsAtom inner node) : ¬ node.IsQuantified := by
  cases h <;> exact id

/-- An atom has no quantifier to take off. -/
theorem IsAtom.unquantified_eq {node : Node} (h : IsAtom inner node) :
    node.unquantified = node := by
  cases h <;> rfl

/-- An item is an atom and the text of its quantifier. -/
theorem IsItem.unquantified_isAtom {node : Node} (h : IsItem inner node) :
    IsAtom inner node.unquantified ∧ ∃ suffix, node.text = node.unquantified.text ++ suffix := by
  cases h with
  | bare h => exact ⟨h.unquantified_eq.symm ▸ h, [], by rw [h.unquantified_eq, List.append_nil]⟩
  | optional h => exact ⟨h, _, rfl⟩
  | zeroOrMore h => exact ⟨h, _, rfl⟩
  | oneOrMore h => exact ⟨h, _, rfl⟩
  | counted h => exact ⟨h, _, rfl⟩

/-- **What an item shows to the item before it.**  It begins with a character that does
not end a sequence, and with a quantifier only if its atom is that literal. -/
theorem IsItem.text_eq_cons {node : Node} (h : IsItem inner node) :
    ∃ c tail, node.text = c :: tail ∧ endsSequence c = false ∧
      (c ∈ quantifiers ↔ node.IsQuantifierLiteral) := by
  obtain ⟨hatom, suffix, hsuffix⟩ := h.unquantified_isAtom
  obtain ⟨c, tail, htext, hc, hq⟩ := hatom.text_eq_cons
  refine ⟨c, tail ++ suffix, by rw [hsuffix, htext]; rfl, hc, fun h => ⟨c, h, hq h⟩, ?_⟩
  rintro ⟨d, hd, e⟩
  rw [e, text_literal] at htext
  obtain ⟨rfl, -⟩ := List.cons.inj htext
  exact hd

end

/-! ### Sequences and alternations as lists -/

section

variable {inner : Node → Prop}

/-- Two or more items make a row, … -/
theorem ofItems_of_two_le {items : List Node} (h : 2 ≤ items.length) :
    ofItems items = sequence items := by
  match items with
  | [] => simp at h
  | [_] => simp at h
  | _ :: _ :: _ => rfl

/-- … and two or more alternatives a choice. -/
theorem ofAlternatives_of_two_le {alternatives : List Node} (h : 2 ≤ alternatives.length) :
    ofAlternatives alternatives = choice alternatives := by
  match alternatives with
  | [] => simp at h
  | [_] => simp at h
  | _ :: _ :: _ => rfl

/-- What stands for some items is written like them. -/
theorem text_ofItems (items : List Node) : (ofItems items).text = (items.map text).flatten := by
  match items with
  | [] => rfl
  | [item] => simp [ofItems]
  | _ :: _ :: _ => exact text_sequence _

/-- What stands for some alternatives is written like them. -/
theorem text_ofAlternatives {alternatives : List Node} (h : alternatives ≠ []) :
    (ofAlternatives alternatives).text = ['|'].intercalate (alternatives.map text) := by
  match alternatives with
  | [] => exact absurd rfl h
  | [alternative] => simp [ofAlternatives]
  | _ :: _ :: _ => exact text_choice _

/-- A canonical sequence is a run of items, and every run is one. -/
theorem isSequence_iff {node : Node} :
    IsSequence inner node ↔ ∃ items, node = ofItems items ∧ IsRun inner items := by
  constructor
  · rintro (_ | h | ⟨hl, h⟩)
    · exact ⟨[], rfl, fun _ h => absurd h List.not_mem_nil, .nil⟩
    · exact ⟨[node], rfl, fun _ hi => List.mem_singleton.1 hi ▸ h, .singleton _⟩
    · exact ⟨_, (ofItems_of_two_le hl).symm, h⟩
  · rintro ⟨items, rfl, h⟩
    match items with
    | [] => exact .empty
    | [item] => exact .item (h.canonical item (List.mem_singleton_self _))
    | item :: next :: items => exact .sequence (by simp) h

/-- A canonical alternation is one or more sequences. -/
theorem isAlternation_iff {node : Node} :
    IsAlternation inner node ↔ ∃ alternatives, alternatives ≠ [] ∧
      node = ofAlternatives alternatives ∧ ∀ other ∈ alternatives, IsSequence inner other := by
  constructor
  · rintro (h | ⟨hl, h⟩)
    · exact ⟨[node], List.cons_ne_nil _ _, rfl, fun _ hi => List.mem_singleton.1 hi ▸ h⟩
    · refine ⟨_, ?_, (ofAlternatives_of_two_le hl).symm, h⟩
      rintro rfl
      simp at hl
  · rintro ⟨alternatives, hne, rfl, h⟩
    match alternatives with
    | [] => exact absurd rfl hne
    | [alternative] => exact .sequence (h alternative (List.mem_singleton_self _))
    | first :: second :: others => exact .choice (by simp) h

end

end Node
end Pattern
end Railroad
