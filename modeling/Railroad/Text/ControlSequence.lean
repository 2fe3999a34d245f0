/-
# Control sequences

A terminal takes a control sequence for a command and shows nothing of it.  Behind
an escape character and a `[` it has three parts:

| part | characters | how many |
| --- | --- | --- |
| parameters | `0` to `?` | any number |
| intermediates | the space to `/` | any number |
| final | `@` to `~` | one |

What is printed about a pattern holds no such sequence: it is what a terminal would
show.
-/

namespace Railroad
namespace Text

/-- Whether a character may be a parameter of a control sequence. -/
def isParameter (c : Char) : Bool := '0' ≤ c && c ≤ '?'

/-- Whether a character may stand between the parameters of a control sequence and
its final character. -/
def isIntermediate (c : Char) : Bool := ' ' ≤ c && c ≤ '/'

/-- Whether a character may end a control sequence. -/
def isFinal (c : Char) : Bool := '@' ≤ c && c ≤ '~'

/-- The text behind a control sequence, if the text, which stands behind an escape
character, begins with the rest of one.  No character is of two parts, so each part
is as long as it can be. -/
def behindControl? : List Char → Option (List Char)
  | '[' :: cs =>
    match (cs.dropWhile isParameter).dropWhile isIntermediate with
    | [] => none
    | c :: rest => if isFinal c then some rest else none
  | _ => none

theorem behindControl?_shorter {cs rest : List Char} (h : behindControl? cs = some rest) :
    rest.length < cs.length := by
  unfold behindControl? at h
  split at h
  · rename_i cs
    have h₁ := (List.dropWhile_sublist (l := cs) isParameter).length_le
    have h₂ := (List.dropWhile_sublist (l := cs.dropWhile isParameter) isIntermediate).length_le
    grind
  · simp at h

/-- A text without its control sequences, which are looked for from the left; what
is joined by leaving one out is not looked at again. -/
def dropControls : List Char → List Char
  | [] => []
  | c :: cs =>
    if c = '\x1b' then
      match _h : behindControl? cs with
      | some rest => dropControls rest
      | none => c :: dropControls cs
    else c :: dropControls cs
termination_by cs => cs.length
decreasing_by
  · exact Nat.lt_succ_of_lt (behindControl?_shorter _h)
  · exact Nat.lt_succ_self _
  · exact Nat.lt_succ_self _

/-- A text without escape characters is not changed. -/
theorem dropControls_eq_self {cs : List Char} (h : '\x1b' ∉ cs) : dropControls cs = cs := by
  induction cs with
  | nil => rw [dropControls]
  | cons c cs ih =>
    have hc : c ≠ '\x1b' := fun e => h (e ▸ List.mem_cons_self)
    rw [dropControls, if_neg hc, ih fun hm => h (List.mem_cons_of_mem _ hm)]

/-- A text as it is printed. -/
def printed (text : String) : String := String.ofList (dropControls text.toList)

end Text
end Railroad
