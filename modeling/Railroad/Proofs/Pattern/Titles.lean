/-
# A line of an outline tells its entry

The line of an entry is its indentation, its text and a line feed.  No text begins with a
space, so the indentation tells the depth.  The text of an entry has no line feed in it, with
one exception: a brace quantifier is shown as it is, and may hold anything between its
braces.  It ends at its only `}`, and no other text begins like it.  So whatever follows a
line, the line can be told from it (`Entry.line_append_inj`), and the lines of an outline
tell its entries (`flatMap_line_injective`).

| entry | what tells it from the others | what it tells |
| --- | --- | --- |
| node | its name, the letters in front | what the node holds besides its children |
| class member | its name | all of the member |

Whatever stands below a node is left out by `Node.hollow`: `Node.hollow_eq_of_title_eq` says
that the title of a legible node tells the rest.  A legible node is one that is no stray
object and has no `}` in its quantifier but the last character.
-/

import Railroad.Pattern.Outline
import Railroad.Proofs.Pattern.Openings
import Railroad.Proofs.Text.Quoted

namespace Railroad
namespace Pattern

/-! ### Where a text ends -/

/-- Two texts are cut at the same place if the part in front is told by its characters. -/
theorem append_inj_of_span {α : Type} {p : α → Prop} {xs ys zs ws : List α}
    (hxs : ∀ a ∈ xs, p a) (hys : ∀ a ∈ ys, p a) (hzs : ∀ a ∈ zs.head?, ¬ p a)
    (hws : ∀ a ∈ ws.head?, ¬ p a) (h : xs ++ zs = ys ++ ws) : xs = ys ∧ zs = ws := by
  induction xs generalizing ys with
  -- if one front were longer, an element of it would stand where the other is over
  | nil =>
      cases ys with
      | nil => exact ⟨rfl, h⟩
      | cons y ys =>
          subst h
          exact absurd (hys y List.mem_cons_self) (hzs y rfl)
  | cons x xs ih =>
      cases ys with
      | nil =>
          subst h
          exact absurd (hxs x List.mem_cons_self) (hws x rfl)
      | cons y ys =>
          obtain ⟨rfl, htail⟩ := List.cons.inj h
          obtain ⟨rfl, hrest⟩ := ih (fun a ha => hxs a (List.mem_cons_of_mem _ ha))
            (fun a ha => hys a (List.mem_cons_of_mem _ ha)) htail
          exact ⟨rfl, hrest⟩

/-- Two texts are cut at the same place before the first of some character. -/
theorem append_cons_inj_of_notMem {α : Type} {a : α} {xs ys zs ws : List α} (hxs : a ∉ xs)
    (hys : a ∉ ys) (h : xs ++ a :: zs = ys ++ a :: ws) : xs = ys ∧ zs = ws := by
  have hfront {front : List α} (hne : a ∉ front) : ∀ b ∈ front, b ≠ a :=
    fun b hb hba => hne (hba ▸ hb)
  have hback (back : List α) : ∀ b ∈ (a :: back).head?, ¬ b ≠ a := by
    rintro b ⟨⟩ hne
    exact hne rfl
  obtain ⟨hfronts, hbacks⟩ :=
    append_inj_of_span (hfront hxs) (hfront hys) (hback zs) (hback ws) h
  exact ⟨hfronts, (List.cons.inj hbacks).2⟩

/-- How the text of a brace quantifier begins. -/
def countedHead : List Char := "Repeat ".toList

/-- A text that an entry may show: it stays on its line, or it is a brace quantifier. -/
inductive IsTitle : List Char → Prop where
  | plain {text : List Char} :
      '\n' ∉ text → ¬ countedHead <+: text → (∀ c ∈ text.head?, c ≠ ' ') → IsTitle text
  | counted {body : List Char} : '}' ∉ body → IsTitle (countedHead ++ (body ++ ['}']))

namespace IsTitle

variable {text text' rest rest' : List Char}

/-- No title begins with a space, so the indentation is told from it. -/
theorem head?_ne (h : IsTitle text) : ∀ c ∈ text.head?, c ≠ ' ' := by
  cases h with
  | plain _ _ hhead => exact hhead
  | counted _ =>
      rintro _ ⟨⟩
      decide

/-- A text that is no brace quantifier is none together with the next lines either. -/
theorem not_counted (hhead : ¬ countedHead <+: text) (body : List Char) :
    text ++ '\n' :: rest ≠ countedHead ++ body := fun h => by
  refine hhead (prefix_of_prefix_append ⟨body, h.symm⟩ fun c tail e => ?_)
  rw [← (List.cons.inj e).1]
  decide

/-- **A title shows where it ends.** -/
theorem append_inj (h : IsTitle text) (h' : IsTitle text')
    (heq : text ++ '\n' :: rest = text' ++ '\n' :: rest') : text = text' ∧ rest = rest' := by
  cases h with
  | plain hline hhead _ =>
      cases h' with
      | plain hline' _ _ => exact append_cons_inj_of_notMem hline hline' heq
      | counted _ =>
          rw [List.append_assoc countedHead] at heq
          exact absurd heq (not_counted hhead _)
  | counted hbody =>
      cases h' with
      | plain _ hhead' _ =>
          rw [List.append_assoc countedHead] at heq
          exact absurd heq.symm (not_counted hhead' _)
      | counted hbody' =>
          -- a quantifier is cut at its only brace, and not at the end of a line
          simp only [List.append_assoc, List.append_cancel_left_eq, List.singleton_append] at heq
          obtain ⟨rfl, htail⟩ := append_cons_inj_of_notMem hbody hbody' heq
          exact ⟨rfl, (List.cons.inj htail).2⟩

end IsTitle

/-! ### Lines -/

/-- **A line shows its entry and where it ends.** -/
theorem Entry.line_append_inj {e e' : Entry} (h : IsTitle e.text) (h' : IsTitle e'.text)
    {rest rest' : List Char} (heq : e.line ++ rest = e'.line ++ rest') :
    e = e' ∧ rest = rest' := by
  have hspaces (n : Nat) : ∀ c ∈ List.replicate n ' ', c = ' ' := fun _ => List.eq_of_mem_replicate
  -- what follows the indentation is no space, so both have the same
  have hnext {text : List Char} (htext : IsTitle text) (rest : List Char) :
      ∀ c ∈ (text ++ '\n' :: rest).head?, c ≠ ' ' := by
    cases text with
    | nil =>
        rintro _ ⟨⟩
        decide
    | cons c text => exact htext.head?_ne
  simp only [line, List.append_assoc, List.singleton_append] at heq
  obtain ⟨hindent, htail⟩ :=
    append_inj_of_span (hspaces _) (hspaces _) (hnext h rest) (hnext h' rest') heq
  obtain ⟨htext, hrest⟩ := h.append_inj h' htail
  have hlength := congrArg List.length hindent
  rw [List.length_replicate, List.length_replicate] at hlength
  -- two spaces for each level
  have hdepth : e.depth = e'.depth := by omega
  cases e with
  | mk depth text =>
      cases hdepth
      cases htext
      exact ⟨rfl, hrest⟩

/-- **The lines of an outline tell its entries.** -/
theorem flatMap_line_injective {entries entries' : List Entry}
    (h : ∀ e ∈ entries, IsTitle e.text) (h' : ∀ e ∈ entries', IsTitle e.text)
    (heq : entries.flatMap Entry.line = entries'.flatMap Entry.line) : entries = entries' := by
  -- no line is empty, so both are over at the same time
  have hne (e : Entry) (rest : List Char) : [] ≠ e.line ++ rest := by simp [Entry.line]
  induction entries generalizing entries' with
  | nil =>
      cases entries' with
      | nil => rfl
      | cons e' entries' => exact absurd heq (hne e' _)
  | cons e entries ih =>
      cases entries' with
      | nil => exact absurd heq.symm (hne e _)
      | cons e' entries' =>
          obtain ⟨he, hentries⟩ := List.forall_mem_cons.1 h
          obtain ⟨he', hentries'⟩ := List.forall_mem_cons.1 h'
          rw [List.flatMap_cons, List.flatMap_cons] at heq
          obtain ⟨rfl, hrest⟩ := Entry.line_append_inj he he' heq
          rw [ih hentries hentries' hrest]

/-! ### Titles by name -/

/-- A name, and what is shown behind it: the name is of letters, and no letter follows. -/
structure IsNamed (name : String) (details : List Char) : Prop where
  /-- The name is of letters, … -/
  letters : name.toList.all Char.isAlpha = true
  /-- … and ends where these do. -/
  stops : ∀ c ∈ details.head?, ¬ c.isAlpha = true

/-- The name ends where the letters do, so it is told from what is shown behind it. -/
theorem IsNamed.inj {name name' : String} {details details' : List Char}
    (h : IsNamed name details) (h' : IsNamed name' details')
    (heq : name.toList ++ details = name'.toList ++ details') :
    name = name' ∧ details = details' :=
  (append_inj_of_span (List.all_eq_true.1 h.letters) (List.all_eq_true.1 h'.letters) h.stops
    h'.stops heq).imp_left String.toList_inj.1

/-- What is shown behind a name stays on its line with the name, and is no brace quantifier
if the name is not that of one. -/
theorem IsNamed.isTitle {name : String} {details : List Char} (h : IsNamed name details)
    (hcounted : name ≠ "Repeat") (hname : name.toList ≠ []) (hline : '\n' ∉ details) :
    IsTitle (name.toList ++ details) := by
  refine .plain ?_ ?_ ?_
  · rw [List.mem_append, not_or]
    exact ⟨fun hm => absurd (List.all_eq_true.1 h.letters _ hm) (by decide), hline⟩
  -- it is not the head of a brace quantifier, whose name is another
  · rintro ⟨body, heq⟩
    have hrepeat : IsNamed "Repeat" (' ' :: body) := by
      refine ⟨by decide, ?_⟩
      rintro _ ⟨⟩
      decide
    exact hcounted (h.inj hrepeat heq.symm).1
  · obtain ⟨c, cs, hcons⟩ := List.exists_cons_of_ne_nil hname
    have hletter := List.all_eq_true.1 h.letters c (hcons ▸ List.mem_cons_self)
    rw [hcons]
    rintro _ ⟨⟩ rfl
    exact absurd hletter (by decide)

section

variable (printable : Char → Bool)

/-- A quoted text is told from its quotation. -/
theorem shown_injective {s t : String} (h : shown printable s = shown printable t) : s = t := by
  have happend : shown printable s ++ [] = shown printable t ++ [] := congrArg (· ++ []) h
  exact String.toList_inj.1 (Text.quoted_append_inj printable happend).1

/-! ### Members of classes -/

namespace ClassItem

/-- The name under which a member is listed. -/
def name : ClassItem → String
  | literal _ => "Literal"
  | escape _ => "Escape"
  | range _ _ => "Range"

/-- What the entry of a member shows behind its name. -/
def details : ClassItem → List Char
  | literal text => '(' :: (shown printable text ++ [')'])
  | escape text => '(' :: (shown printable text ++ [')'])
  | range first last =>
    '(' :: (shown printable first ++ (", ".toList ++ (shown printable last ++ [')'])))

/-- The title of a member is its name and what is shown behind it. -/
theorem title_eq (item : ClassItem) :
    item.title printable = item.name.toList ++ item.details printable := by
  have hopened (name : String) (text : List Char) :
      (name ++ "(").toList ++ text = name.toList ++ '(' :: text := by
    rw [String.toList_append, List.append_assoc]
    rfl
  cases item with
  | literal text => exact (List.append_assoc ..).trans (hopened "Literal" _)
  | escape text => exact (List.append_assoc ..).trans (hopened "Escape" _)
  | range first last =>
      dsimp only [title]
      rw [List.append_assoc, List.append_assoc, List.append_assoc]
      exact hopened "Range" _

/-- The name of a member is of letters, and no letter follows. -/
theorem isNamed (item : ClassItem) : IsNamed item.name (item.details printable) := by
  constructor
  · cases item <;> simp only [name] <;> decide
  · cases item <;> rintro _ ⟨⟩ <;> decide

/-- The entry of a member shows a title. -/
theorem isTitle (item : ClassItem) : IsTitle (item.title printable) := by
  rw [title_eq]
  refine (item.isNamed printable).isTitle ?_ ?_ ?_
  · cases item <;> simp only [name] <;> decide
  · cases item <;> simp only [name] <;> decide
  · cases item <;> simp [details, shown, Text.lineFeed_notMem_quoted]

/-- **The title of a member tells the member.** -/
theorem title_injective {item item' : ClassItem}
    (h : item.title printable = item'.title printable) : item = item' := by
  rw [title_eq, title_eq] at h
  obtain ⟨hname, hdetails⟩ := (item.isNamed printable).inj (item'.isNamed printable) h
  -- the name tells the kind of member, and what is behind it tells the member
  cases item with
  | literal text =>
      cases item' with
      | literal text' =>
          have hshown := List.append_cancel_right (List.cons.inj hdetails).2
          rw [shown_injective printable hshown]
      | _ => simp [name] at hname
  | escape text =>
      cases item' with
      | escape text' =>
          have hshown := List.append_cancel_right (List.cons.inj hdetails).2
          rw [shown_injective printable hshown]
      | _ => simp [name] at hname
  | range first last =>
      cases item' with
      | range first' last' =>
          obtain ⟨hfirst, hrest⟩ := Text.quoted_append_inj printable (List.cons.inj hdetails).2
          obtain ⟨hlast, -⟩ := Text.quoted_append_inj printable (List.append_cancel_left hrest)
          rw [String.toList_inj.1 hfirst, String.toList_inj.1 hlast]
      | _ => simp [name] at hname

end ClassItem

/-! ### Nodes -/

/-- Every kind of group has a name of its own. -/
theorem GroupKind.name_injective {kind kind' : GroupKind} (h : kind.name = kind'.name) :
    kind = kind' := by
  have hfound := ofName?_name kind
  rw [h, ofName?_name] at hfound
  exact (Option.some.inj hfound).symm

namespace Node

/-- A node without what stands below it. -/
def hollow : Node → Node
  | charClass _ negated => charClass [] negated
  | sequence _ => sequence []
  | choice _ => choice []
  | optional _ => optional empty
  | zeroOrMore _ => zeroOrMore empty
  | oneOrMore _ => oneOrMore empty
  | counted _ quantifier => counted empty quantifier
  | group _ kind => group empty kind
  | node => node

/-- Whether the entry of a node tells the node but for what stands below it. -/
def IsLegible : Node → Prop
  | counted _ quantifier => ∃ body, quantifier.toList = body ++ ['}'] ∧ '}' ∉ body
  | stray _ => False
  | _ => True

/-- What the entry of a node shows behind its name. -/
def details : Node → List Char
  | literal text => '(' :: shown printable text ++ [')']
  | escape text => '(' :: shown printable text ++ [')']
  | charClass _ negated => if negated then " negated".toList else []
  | counted _ quantifier => ' ' :: quantifier.toList
  | group _ kind => ' ' :: kind.name.toList
  | _ => []

/-- The title of a node is its name and what is shown behind it. -/
theorem title_eq (node : Node) :
    node.title printable = node.name.toList ++ node.details printable := by
  cases node <;> rfl

/-- The name of a node is of letters, and no letter follows. -/
theorem isNamed (node : Node) : IsNamed node.name (node.details printable) := by
  constructor
  · cases node with
    | stray object => cases object <;> simp only [name, Stray.name] <;> decide
    | _ => simp only [name]; decide
  · cases node with
    | charClass items negated => cases negated <;> rintro _ ⟨⟩; decide
    | _ => rintro _ ⟨⟩ <;> decide

theorem toList_name_ne_nil (node : Node) : node.name.toList ≠ [] := by
  cases node with
  | stray object => cases object <;> simp only [name, Stray.name] <;> decide
  | _ => simp only [name]; decide

/-- Only a brace quantifier may reach beyond its line. -/
theorem lineFeed_notMem_details {node : Node} (h : node.name ≠ "Repeat") :
    '\n' ∉ node.details printable := by
  cases node with
  | counted item quantifier => exact absurd rfl h
  | literal text => simp [details, shown, Text.lineFeed_notMem_quoted]
  | escape text => simp [details, shown, Text.lineFeed_notMem_quoted]
  | charClass items negated => cases negated <;> simp [details]
  | group content kind => cases kind <;> simp [details, GroupKind.name]
  | _ => exact List.not_mem_nil

/-- The entry of a node that can be told shows a title. -/
theorem isTitle {node : Node} (h : node.IsLegible) : IsTitle (node.title printable) := by
  rw [title_eq]
  by_cases hcounted : node.name = "Repeat"
  · cases node with
    | counted item quantifier =>
        obtain ⟨body, hquantifier, hbody⟩ := h
        have hhead : countedHead = "Repeat".toList ++ [' '] := by decide
        have htitle := IsTitle.counted hbody
        rw [hhead, List.append_assoc] at htitle
        rw [details, hquantifier]
        exact htitle
    | stray object => exact h.elim
    | _ => simp [name] at hcounted
  · exact (isNamed printable node).isTitle hcounted node.toList_name_ne_nil
      (lineFeed_notMem_details printable hcounted)

/-- **The title of a legible node tells the node but for what stands below it.** -/
theorem hollow_eq_of_title_eq {x y : Node} (hx : x.IsLegible) (hy : y.IsLegible)
    (h : x.title printable = y.title printable) : x.hollow = y.hollow := by
  rw [title_eq, title_eq] at h
  obtain ⟨hname, hdetails⟩ := (isNamed printable x).inj (isNamed printable y) h
  have hquoted {text text' : String} (heq : '(' :: shown printable text ++ [')'] =
      '(' :: shown printable text' ++ [')']) : text = text' :=
    shown_injective printable (List.append_cancel_right (List.cons.inj heq).2)
  cases x with
  | literal text =>
      cases y with
      | literal text' => rw [hquoted hdetails]
      | stray object => exact hy.elim
      | _ => simp [name] at hname
  | escape text =>
      cases y with
      | escape text' => rw [hquoted hdetails]
      | stray object => exact hy.elim
      | _ => simp [name] at hname
  | charClass items negated =>
      cases y with
      | charClass items' negated' =>
          have hnegated : negated = negated' := by
            cases negated <;> cases negated' <;> simp [details] at hdetails ⊢
          rw [hollow, hollow, hnegated]
      | stray object => exact hy.elim
      | _ => simp [name] at hname
  | counted item quantifier =>
      cases y with
      | counted item' quantifier' =>
          rw [hollow, hollow, String.toList_inj.1 (List.cons.inj hdetails).2]
      | stray object => exact hy.elim
      | _ => simp [name] at hname
  | group content kind =>
      cases y with
      | group content' kind' =>
          have hkind := String.toList_inj.1 (List.cons.inj hdetails).2
          rw [hollow, hollow, GroupKind.name_injective hkind]
      | stray object => exact hy.elim
      | _ => simp [name] at hname
  | stray object => exact hx.elim
  | _ =>
      -- the name says it all
      cases y with
      | stray object => exact hy.elim
      | _ => first
        | rfl
        | simp [name] at hname

end Node

end

end Pattern
end Railroad
