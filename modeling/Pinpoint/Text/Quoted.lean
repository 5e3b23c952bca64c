import Pinpoint.Text.Hex
import Pinpoint.Text.Printable

/-!
# Quoted texts

`quote` is the form in which messages show a text they did not choose themselves. The text stands
between single quotes, or between double quotes if it has a single quote and no double one; the quote in
use and the backslash are written after a backslash, and a character that cannot be shown is written as
an escape. `escape` is the rule for one character.
-/

namespace Pinpoint.Text

/-- How a character is written between quotes `q`. -/
def escape (q c : Char) : List Char :=
  if c = q ∨ c = '\\' then ['\\', c]
  else if c = '\n' then ['\\', 'n']
  else if c = '\r' then ['\\', 'r']
  else if c = '\t' then ['\\', 't']
  else if isPrintable c then [c]
  else if c.toNat < 0x100 then '\\' :: 'x' :: hexDigits 2 c.toNat
  else if c.toNat < 0x10000 then '\\' :: 'u' :: hexDigits 4 c.toNat
  else '\\' :: 'U' :: hexDigits 8 c.toNat

/-- The quote put around a text. -/
def quoteFor (cs : List Char) : Char :=
  if cs.contains '\'' && !cs.contains '"' then '"' else '\''

/-- The text between quotes. -/
def quoteChars (cs : List Char) : List Char :=
  let q := quoteFor cs
  q :: cs.flatMap (escape q) ++ [q]

/-- The text between quotes, as a string. -/
def quote (s : String) : String :=
  String.ofList (quoteChars s.toList)

end Pinpoint.Text
