import Pinpoint.Text.Quoted
import Pinpoint.Yaml.Scalar

/-!
# Writing YAML

How texts and truth values are written as scalars in a block. A text is written as it is if it reads back
as the same text that way; else it stands between single quotes, which are doubled inside. A text with
characters that are neither printable ASCII nor line feeds, or with a space beside a line feed, stands
between double quotes and has them escaped.

A long text goes on over several lines, at the column `margin`. A line that has passed the column `width`
is broken at the next space that stands alone, and the line end is read as that space (`folded`). Between
single quotes a line feed is written as a line end of its own, one more for the first of several. Between
double quotes a line may also be broken behind an escape, and there a backslash takes the line end back
(`escaped`).
-/

namespace Pinpoint.Yaml.Writer

/-- A truth value. -/
def bool (b : Bool) : String :=
  if b then "true" else "false"

/-- A printable ASCII character. -/
def isVisible (c : Char) : Bool :=
  0x20 ≤ c.toNat && c.toNat ≤ 0x7E

/-- A space follows, or nothing. -/
def atEndOrSpace : List Char → Bool
  | [] => true
  | c :: _ => c == ' '

/-- A character that begins something else than a plain scalar. -/
def isIndicator (c : Char) : Bool :=
  "#,[]\x7b\x7d&*!|>'\"%@".toList.contains c || c.toNat == 0x60

/-- Somewhere a colon is followed by a space or by nothing, or a space is followed by a number sign. -/
def hasMark : List Char → Bool
  | [] => false
  | c :: rest =>
    (c == ':' && atEndOrSpace rest) || (c == ' ' && rest.head? == some '#') || hasMark rest

/-- A text that reads as the same text without quotes. -/
def isPlain (cs : List Char) : Bool :=
  match cs with
  | [] => false
  | c :: rest =>
    cs.all isVisible && c != ' ' && cs.getLast? != some ' ' && !Scalar.isSpecial cs &&
      !"---".toList.isPrefixOf cs && !"...".toList.isPrefixOf cs && !isIndicator c &&
      !("-?:".toList.contains c && atEndOrSpace rest) && !hasMark cs

/-- The letter written behind a backslash for a character that has one. -/
def escapeLetter? (c : Char) : Option Char :=
  let codes := [0, 7, 8, 9, 10, 11, 12, 13, 27, 34, 92, 0x85, 0xA0, 0x2028, 0x2029]
  let letters := "0abtnvfre\"\\N_LP".toList
  ((codes.zip letters).find? (·.1 = c.toNat)).map (·.2)

/-- Hexadecimal digits in upper case. -/
def hexDigits (width n : Nat) : List Char :=
  (Text.hexDigits width n).map Char.toUpper

/-- How a character is written between double quotes. -/
def escape (c : Char) : List Char :=
  match escapeLetter? c with
  | some letter => ['\\', letter]
  | none =>
    if isVisible c then [c]
    else if c.toNat ≤ 0xFF then '\\' :: 'x' :: hexDigits 2 c.toNat
    else if c.toNat ≤ 0xFFFF then '\\' :: 'u' :: hexDigits 4 c.toNat
    else '\\' :: 'U' :: hexDigits 8 c.toNat

/-- How a character is written between single quotes. -/
def double (c : Char) : List Char :=
  if c = '\'' then ['\'', '\''] else [c]

/-- A line feed stands beside a space. -/
def hasEdge : List Char → Bool
  | c :: d :: rest => (c == ' ' && d == '\n') || (c == '\n' && d == ' ') || hasEdge (d :: rest)
  | _ => false

/-- A text that can stand between single quotes. -/
def isQuotable (cs : List Char) : Bool :=
  cs.all (fun c => isVisible c || c == '\n') && !hasEdge cs

/-! ### Long texts -/

/-- A line that has passed this column is broken. -/
def width : Nat := 80

/-- The column at which a text starts, and goes on in further lines: the texts to write are items of a
list under a key of a section. -/
def margin : Nat := 4

/-- What a further line begins with. -/
def indentation : List Char := List.replicate margin ' '

/-- The line is broken at a space: it is long enough, and there is no other space beside this one. -/
def breaksAt (column : Nat) (before : Option Char) (rest : List Char) : Bool :=
  width < column && before.any (· ≠ ' ') && rest.head?.any (· ≠ ' ')

/-- A text at a column behind the character `before`, its characters written as `write` says. -/
def folded (write : Char → List Char) (column : Nat) (before : Option Char) : List Char → List Char
  | [] => []
  | c :: rest =>
    if c = ' ' then
      if breaksAt column before rest then '\n' :: indentation ++ folded write margin (some c) rest
      else c :: folded write (column + 1) (some c) rest
    else if c = '\n' then
      (if before = some '\n' then [] else ['\n']) ++ '\n' ::
        (if rest.head? = some '\n' then [] else indentation) ++ folded write margin (some c) rest
    else write c ++ folded write (column + (write c).length) (some c) rest

/-- How a line is broken between double quotes. -/
def continuation : List Char := '\\' :: '\n' :: indentation

/-- What stands before a character between double quotes. -/
inductive Before where
  /-- The indentation of a further line, where a space must be escaped. -/
  | lineStart
  | escape
  | other
  deriving DecidableEq

/-- A text between double quotes, from a column on. A line is broken before a space, or behind an escape. -/
def escaped (column : Nat) (before : Before) : List Char → List Char
  | [] => []
  | c :: rest =>
    if escape c = [c] then
      let breaks := !rest.isEmpty && (c == ' ' || before == .escape) && width < column
      let written := if c = ' ' ∧ (breaks ∨ before = .lineStart) then ['\\', c] else [c]
      if breaks then continuation ++ written ++ escaped (margin + written.length) .other rest
      else written ++ escaped (column + written.length) .other rest
    else
      let reached := column + (escape c).length
      if !rest.isEmpty && width + 1 < reached then
        escape c ++ continuation ++ escaped margin .lineStart rest
      else escape c ++ escaped reached .escape rest

/-- A text as a scalar. -/
def scalarChars (cs : List Char) : List Char :=
  if isPlain cs then folded (fun c => [c]) margin none cs
  else if isQuotable cs then '\'' :: folded double (margin + 1) none cs ++ ['\'']
  else '"' :: escaped (margin + 1) .other cs ++ ['"']

/-- A text as a scalar. -/
def scalar (s : String) : String :=
  String.ofList (scalarChars s.toList)

end Pinpoint.Yaml.Writer
