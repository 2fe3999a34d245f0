/-
# Reading a pattern

The grammar, with `g` the number of groups that may still be opened:

| production | reads |
| --- | --- |
| alternation | sequences separated by `\|` |
| sequence | items, up to a `\|`, a `)` or the end |
| item | an atom and at most one quantifier: `*`, `+`, `?` or `{`…`}` |
| atom | a group (`g > 0`), a class, an escape, `.`, `^`, `$`, or any other character |
| group | `(`, the opening text of a kind, an alternation (`g - 1`), `)` |
| class | `[`, an optional `^`, an optional leading `]`, then members up to `]` |
| member | a backslash and a character, a range `a-b`, or a character |

A quantifier character that follows no bare atom is a literal, and the text
between the braces of a quantifier is not looked at.  In a class, `a-b` is a
range unless `b` is `]` or a backslash.

Every reading gives what follows it, and an error is placed by the number of
characters left when it is found, so no reading needs to know where it stands.
-/

import Railroad.Text.Reading
import Railroad.Pattern.Node
import Railroad.Pattern.SyntaxError

namespace Railroad
namespace Pattern

open Text

/-- An error found while reading: its cause and the number of characters that
were left. -/
structure Fault where
  /-- What is wrong. -/
  cause : Cause
  /-- How many characters were left where it was found. -/
  left : Nat
  deriving DecidableEq, Repr

/-- How many groups may be open at one time. -/
def maxNesting : Nat := 100

/-- The rest of a brace quantifier: everything up to the first `}`, which is
included. -/
def braces : List Char → Reading Fault (List Char)
  | [] => .error ⟨.unterminatedQuantifier, 0⟩
  | c :: rest =>
    if c = '}' then .ok ([c], rest)
    else match braces rest with
      | .error e => .error e
      | .ok (text, rest) => .ok (c :: text, rest)

/-- A brace quantifier consumes its closing brace at least. -/
theorem braces_shorter {cs text rest} (h : braces cs = .ok (text, rest)) :
    rest.length < cs.length := by
  induction cs generalizing text rest with
  | nil => simp [braces] at h
  | cons c cs ih =>
    rw [braces] at h
    split at h
    · simp_all
    · split at h
      · simp at h
      · rename_i e
        obtain ⟨-, rfl⟩ : _ ∧ _ = rest := by simpa using h
        exact Nat.lt_succ_of_lt (ih e)

/-- An atom with the quantifier that follows it, if there is one. -/
def quantified (atom : Node) : List Char → Reading Fault Node
  | '*' :: rest => .ok (.zeroOrMore atom, rest)
  | '+' :: rest => .ok (.oneOrMore atom, rest)
  | '?' :: rest => .ok (.optional atom, rest)
  | '{' :: rest =>
    match braces rest with
    | .error e => .error e
    | .ok (text, rest) => .ok (.counted atom (String.ofList ('{' :: text)), rest)
  | rest => .ok (atom, rest)

/-- A quantifier may be missing, so it need not consume anything. -/
theorem quantified_le {atom cs node rest} (h : quantified atom cs = .ok (node, rest)) :
    rest.length ≤ cs.length := by
  unfold quantified at h
  split at h
  iterate 3
    · obtain ⟨-, rfl⟩ : _ ∧ _ = rest := by simpa using h
      exact Nat.le_succ _
  · split at h
    · simp at h
    · rename_i e
      obtain ⟨-, rfl⟩ : _ ∧ _ = rest := by simpa using h
      exact Nat.le_succ_of_le (Nat.le_of_lt (braces_shorter e))
  · obtain ⟨-, rfl⟩ : _ ∧ _ = rest := by simpa using h
    exact Nat.le_refl _

/-- The members of a class and the `]` behind them. -/
def classItems : List Char → Reading Fault (List ClassItem)
  | [] => .error ⟨.unterminatedClass, 0⟩
  | ']' :: rest => .ok ([], rest)
  | ['\\'] => .error ⟨.unterminatedClass, 0⟩
  | '\\' :: c :: rest =>
    match classItems rest with
    | .error e => .error e
    | .ok (items, rest) => .ok (.escape (String.ofList ['\\', c]) :: items, rest)
  | a :: '-' :: b :: rest =>
    -- no range ends in a bracket or an escape: the dash is left for the next member
    if b = ']' ∨ b = '\\' then
      match classItems ('-' :: b :: rest) with
      | .error e => .error e
      | .ok (items, rest) => .ok (.literal (String.singleton a) :: items, rest)
    else
      match classItems rest with
      | .error e => .error e
      | .ok (items, rest) =>
        .ok (.range (String.singleton a) (String.singleton b) :: items, rest)
  -- also a dash at the front or at the end, and a bracket that opens
  | a :: rest =>
    match classItems rest with
    | .error e => .error e
    | .ok (items, rest) => .ok (.literal (String.singleton a) :: items, rest)

/-- The members of a class consume its closing bracket at least. -/
theorem classItems_shorter {cs items rest} (h : classItems cs = .ok (items, rest)) :
    rest.length < cs.length := by
  fun_induction classItems cs generalizing items rest <;> grind

/-- The `^` that negates a class, and the text behind it. -/
def negation : List Char → Bool × List Char
  | '^' :: rest => (true, rest)
  | cs => (false, cs)

/-- A negation may be missing, … -/
theorem negation_le (cs : List Char) : (negation cs).2.length ≤ cs.length := by
  unfold negation; split <;> simp

/-- A `]` right behind the opening of a class, which is a member, and the text
behind it. -/
def leadingClose : List Char → List ClassItem × List Char
  | ']' :: rest => ([.literal "]"], rest)
  | cs => ([], cs)

/-- … and so may a closing bracket right behind it. -/
theorem leadingClose_le (cs : List Char) : (leadingClose cs).2.length ≤ cs.length := by
  unfold leadingClose; split <;> simp

/-- A character class, after its `[`. -/
def charClass (cs : List Char) : Reading Fault Node :=
  let (negated, body) := negation cs
  let (leading, body) := leadingClose body
  match classItems body with
  | .error e => .error e
  | .ok (items, rest) => .ok (.charClass (leading ++ items) negated, rest)

/-- A class consumes its closing bracket at least. -/
theorem charClass_shorter {cs node rest} (h : charClass cs = .ok (node, rest)) :
    rest.length < cs.length := by
  have h₁ := negation_le cs
  have h₂ := leadingClose_le (negation cs).2
  simp only [charClass] at h
  split at h
  · simp at h
  · rename_i e
    have h₃ := classItems_shorter e
    obtain ⟨-, rfl⟩ : _ ∧ _ = rest := by simpa using h
    omega

/-- The kind of a group by the text behind its `(`, and the text after that
opening.  A text with no opening of its own begins a capturing group. -/
def groupKind : List Char → GroupKind × List Char
  | '?' :: '<' :: '=' :: rest => (.lookbehind, rest)
  | '?' :: '<' :: '!' :: rest => (.negativeLookbehind, rest)
  | '?' :: ':' :: rest => (.nonCapturing, rest)
  | '?' :: '=' :: rest => (.lookahead, rest)
  | '?' :: '!' :: rest => (.negativeLookahead, rest)
  | rest => (.capturing, rest)

/-- An opening may be missing. -/
theorem groupKind_le (cs : List Char) : (groupKind cs).2.length ≤ cs.length := by
  unfold groupKind; split <;> simp <;> omega

/-- A character that stands for itself or for a place or class of its own. -/
def bare (c : Char) : Node :=
  if c = '.' then .anyChar
  else if c = '^' then .anchorStart
  else if c = '$' then .anchorEnd
  else .literal (String.singleton c)

/-- The atom that begins with `c`; `group` reads what follows a `(`. -/
def atom (group : Reader Fault Node) (c : Char) (cs : List Char) : Reading Fault Node :=
  if c = '(' then group.read cs
  else if c = '[' then charClass cs
  else if c = '\\' then
    match cs with
    | [] => .error ⟨.danglingEscape, 0⟩
    | d :: rest => .ok (.escape (String.ofList [c, d]), rest)
  else .ok (bare c, cs)

/-- An atom may be a single character, so it need not consume anything behind it. -/
theorem atom_le {group : Reader Fault Node} {c cs node rest}
    (h : atom group c cs = .ok (node, rest)) : rest.length ≤ cs.length := by
  unfold atom at h
  split at h
  · exact Nat.le_of_lt (group.shorter h)
  · split at h
    · exact Nat.le_of_lt (charClass_shorter h)
    · grind

/-- The item that begins with `c`: an atom and its quantifier. -/
def item (group : Reader Fault Node) (c : Char) (cs : List Char) : Reading Fault Node :=
  match atom group c cs with
  | .error e => .error e
  | .ok (node, rest) => quantified node rest

/-- Nor need an item. -/
theorem item_le {group : Reader Fault Node} {c cs node rest}
    (h : item group c cs = .ok (node, rest)) : rest.length ≤ cs.length := by
  unfold item at h
  split at h
  · simp at h
  · rename_i e
    exact Nat.le_trans (quantified_le h) (atom_le e)

/-- Whether a character ends a sequence. -/
def endsSequence (c : Char) : Bool := c == '|' || c == ')'

/-- The items of a sequence. -/
def items (group : Reader Fault Node) : List Char → Reading Fault (List Node)
  | [] => .ok ([], [])
  | c :: cs =>
    if endsSequence c then .ok ([], c :: cs)
    else match _h : item group c cs with
      | .error e => .error e
      | .ok (node, rest) =>
        match items group rest with
        | .error e => .error e
        | .ok (nodes, rest) => .ok (node :: nodes, rest)
termination_by cs => cs.length
decreasing_by exact Nat.lt_succ_of_le (item_le _h)

/-- A sequence may have no items. -/
theorem items_le {group : Reader Fault Node} {cs nodes rest}
    (h : items group cs = .ok (nodes, rest)) : rest.length ≤ cs.length := by
  fun_induction items group cs generalizing nodes rest with
  | case1 => simp_all
  | case2 => simp_all
  | case3 => simp at h
  | case4 => simp at h
  | case5 _ _ _ _ _ hi _ _ hr ih =>
    obtain ⟨-, rfl⟩ : _ ∧ _ = rest := by simpa using h
    exact Nat.le_trans (ih hr) (Nat.le_succ_of_le (item_le hi))

/-- The alternatives of an alternation. -/
def alternatives (group : Reader Fault Node) (cs : List Char) : Reading Fault (List Node) :=
  match _h : items group cs with
  | .error e => .error e
  -- behind a bar there is always another alternative, be it empty
  | .ok (nodes, '|' :: rest) =>
    match alternatives group rest with
    | .error e => .error e
    | .ok (others, rest) => .ok (.ofItems nodes :: others, rest)
  | .ok (nodes, rest) => .ok ([.ofItems nodes], rest)
termination_by cs.length
decreasing_by exact items_le _h

/-- An alternation may have nothing but empty sequences. -/
theorem alternatives_le {group : Reader Fault Node} {cs nodes rest}
    (h : alternatives group cs = .ok (nodes, rest)) : rest.length ≤ cs.length := by
  fun_induction alternatives group cs generalizing nodes rest with
  | case1 => simp at h
  | case2 => simp at h
  | case3 _ _ _ hi _ _ hr ih =>
    obtain ⟨-, rfl⟩ : _ ∧ _ = rest := by simpa using h
    exact Nat.le_trans (ih hr) (Nat.le_of_lt (items_le hi))
  | case4 _ _ _ _ hi =>
    obtain ⟨-, rfl⟩ : _ ∧ _ = rest := by simpa using h
    exact items_le hi

/-- A whole alternation as one node. -/
def alternation (group : Reader Fault Node) (cs : List Char) : Reading Fault Node :=
  match alternatives group cs with
  | .error e => .error e
  | .ok (nodes, rest) => .ok (.ofAlternatives nodes, rest)

/-- So may it as one node. -/
theorem alternation_le {group : Reader Fault Node} {cs node rest}
    (h : alternation group cs = .ok (node, rest)) : rest.length ≤ cs.length := by
  unfold alternation at h
  split at h
  · simp at h
  · rename_i e
    obtain ⟨-, rfl⟩ : _ ∧ _ = rest := by simpa using h
    exact alternatives_le e

/-- A group after its `(`: the opening text of its kind, its content, its `)`. -/
def enclosed (group : Reader Fault Node) (cs : List Char) : Reading Fault Node :=
  let (kind, body) := groupKind cs
  match alternation group body with
  | .error e => .error e
  | .ok (content, ')' :: rest) => .ok (.group content kind, rest)
  -- an alternation stops at the end or at a bracket, so this is the end
  | .ok (_, rest) => .error ⟨.unterminatedGroup, rest.length⟩

/-- A group consumes its closing bracket at least. -/
theorem enclosed_shorter {group : Reader Fault Node} {cs node rest}
    (h : enclosed group cs = .ok (node, rest)) : rest.length < cs.length := by
  have h₁ := groupKind_le cs
  simp only [enclosed] at h
  split at h
  · simp at h
  · rename_i e
    have h₂ := alternation_le e
    obtain ⟨-, rfl⟩ : _ ∧ _ = rest := by simpa using h
    simp only [List.length_cons] at h₂
    omega
  · simp at h

/-- What follows a `(` when `g` more groups may be opened.  With none left the
error stands at the `(`, one character further back. -/
def group : (g : Nat) → Reader Fault Node
  | 0 => ⟨fun cs => .error ⟨.nestingTooDeep, cs.length + 1⟩, by simp⟩
  | g + 1 => ⟨enclosed (group g), enclosed_shorter⟩

/-- The tree of a pattern that is read to its end, or the first error.  Only a
`)` stops an alternation before the end. -/
def parse (pattern : String) : Except SyntaxError Node :=
  let cs := pattern.toList
  match alternation (group maxNesting) cs with
  | .error e => .error ⟨e.cause, cs.length - e.left, pattern⟩
  | .ok (node, []) => .ok node
  -- a bracket that closes nothing
  | .ok (_, rest) => .error ⟨.unexpectedClose, cs.length - rest.length, pattern⟩

end Pattern
end Railroad
