/-
# Quoted text

A text is shown between quotes, so that its ends and its unprintable characters
can be seen.

* The quote is `'`, or `"` for a text that holds a `'` and no `"`.
* The quote in use and the backslash get a backslash in front; line feed,
  carriage return and tab are `\n`, `\r` and `\t`.
* A printable character is shown as itself, any other by its code: `\xhh`,
  `\uhhhh` or `\Uhhhhhhhh`, whichever is the first that is wide enough.

Which characters are printable is a parameter.
-/

import Railroad.Text.Hex

namespace Railroad
namespace Text

/-- The quote around a text. -/
def quoteFor (cs : List Char) : Char :=
  if cs.contains '\'' && !cs.contains '"' then '"' else '\''

/-- A character by its code. -/
def escapedCode (c : Char) : List Char :=
  if c.toNat < 0x100 then '\\' :: 'x' :: hexDigits 2 c.toNat
  else if c.toNat < 0x10000 then '\\' :: 'u' :: hexDigits 4 c.toNat
  else '\\' :: 'U' :: hexDigits 8 c.toNat

/-- A character between quotes. -/
def quotedChar (printable : Char → Bool) (quote c : Char) : List Char :=
  if c = quote ∨ c = '\\' then ['\\', c]
  else if c = '\n' then ['\\', 'n']
  else if c = '\r' then ['\\', 'r']
  else if c = '\t' then ['\\', 't']
  else if printable c then [c]
  else escapedCode c

/-- A text in its quotes. -/
def quoted (printable : Char → Bool) (cs : List Char) : List Char :=
  let quote := quoteFor cs
  quote :: cs.flatMap (quotedChar printable quote) ++ [quote]

end Text
end Railroad
