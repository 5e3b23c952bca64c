import Pinpoint.Text.Blank

/-!
# Reading and writing integers

Integers are unbounded, but a text of more than `digitLimit` digits is neither read nor written.

Two notations are read. The *plain* one, `readPlain`, is an optional minus sign and ASCII digits. The
*loose* one, `readLoose?`, also takes blanks on either side, a plus sign, the decimal digits of every
script, and single underscores between digits. Both accept leading zeros, which count as digits.
`tooLong` says of a number that it cannot be written.
-/

namespace Pinpoint.Text

/-- The largest number of digits that is read or written. -/
def digitLimit : Nat := 4300

/-- The characters for zero of each script that has decimal digits. The other nine digits of the script
follow it. -/
def zeroDigits : List Nat := [
  0x30, 0x660, 0x6F0, 0x7C0, 0x966, 0x9E6, 0xA66, 0xAE6, 0xB66, 0xBE6, 0xC66, 0xCE6, 0xD66, 0xDE6,
  0xE50, 0xED0, 0xF20, 0x1040, 0x1090, 0x17E0, 0x1810, 0x1946, 0x19D0, 0x1A80, 0x1A90, 0x1B50,
  0x1BB0, 0x1C40, 0x1C50, 0xA620, 0xA8D0, 0xA900, 0xA9D0, 0xA9F0, 0xAA50, 0xABF0, 0xFF10, 0x104A0,
  0x10D30, 0x11066, 0x110F0, 0x11136, 0x111D0, 0x112F0, 0x11450, 0x114D0, 0x11650, 0x116C0, 0x11730,
  0x118E0, 0x11950, 0x11C50, 0x11D50, 0x11DA0, 0x16A60, 0x16AC0, 0x16B50, 0x1D7CE, 0x1D7D8, 0x1D7E2,
  0x1D7EC, 0x1D7F6, 0x1E140, 0x1E2F0, 0x1E950, 0x1FBF0]

/-- The value of a decimal digit of any script. -/
def digitValue? (c : Char) : Option Nat :=
  (zeroDigits.find? fun first => first ≤ c.toNat && c.toNat < first + 10).map (c.toNat - ·)

/-- The value of an ASCII digit; of no interest elsewhere. -/
def asciiDigitValue (c : Char) : Nat := c.toNat - 0x30

/-- The number written by decimal digits, the most significant first. -/
def ofDigits (ds : List Nat) : Nat :=
  ds.foldl (fun n d => 10 * n + d) 0

/-- What a text says when it is read as a plain integer. -/
inductive Reading where
  /-- The text is not an integer. -/
  | malformed
  /-- The text is an integer with more digits than are read. -/
  | tooLong
  | value (n : Int)
  deriving DecidableEq, Repr

/-- The text is one or more ASCII digits. -/
def isDigits (cs : List Char) : Bool :=
  !cs.isEmpty && cs.all Char.isDigit

/-- Reads one or more ASCII digits. -/
def readDigits (cs : List Char) : Reading :=
  if !isDigits cs then .malformed
  else if digitLimit < cs.length then .tooLong
  else .value (ofDigits (cs.map asciiDigitValue))

/-- Reads an optional minus sign and ASCII digits. -/
def readPlain : List Char → Reading
  | '-' :: cs => match readDigits cs with
    | .value n => .value (-n)
    | other => other
  | cs => readDigits cs

/-- The digits of a text in which single underscores may separate them, after a digit. -/
def digitsAfter? : List Char → Option (List Nat)
  | [] => some []
  | '_' :: c :: rest => do
    let d ← digitValue? c
    return d :: (← digitsAfter? rest)
  | c :: rest => do
    let d ← digitValue? c
    return d :: (← digitsAfter? rest)

/-- One or more digits; single underscores may stand between them. -/
def looseDigits? : List Char → Option (List Nat)
  | [] => none
  | c :: rest => do
    let d ← digitValue? c
    return d :: (← digitsAfter? rest)

/-- Reads digits of any script within the limit on their number. -/
def readLooseDigits? (cs : List Char) : Option Nat := do
  let ds ← looseDigits? cs
  if digitLimit < ds.length then none else some (ofDigits ds)

/-- The blanks that may surround an integer: all but the information separators. -/
def isPadding (c : Char) : Bool :=
  isBlank c && !(0x1C ≤ c.toNat && c.toNat ≤ 0x1F)

/-- Reads an integer in the loose notation; `none` if the text is not one or is too long. -/
def readLoose? (cs : List Char) : Option Int :=
  match trimBy isPadding cs with
  | '-' :: rest => (readLooseDigits? rest).map fun n => -(n : Int)
  | '+' :: rest => (readLooseDigits? rest).map fun n => (n : Int)
  | rest => (readLooseDigits? rest).map fun n => (n : Int)

/-- The least number of `digitLimit + 1` digits. -/
def tooLongFrom : Nat := Nat.pow 10 digitLimit

/-- A number with more digits than are written. -/
def tooLong (n : Int) : Bool :=
  tooLongFrom ≤ n.natAbs

end Pinpoint.Text
