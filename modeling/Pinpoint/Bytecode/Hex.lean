import Pinpoint.Error
import Pinpoint.Text.Blank
import Pinpoint.Text.Hex

/-!
# Hexadecimal bytecode

Bytecode is given as hexadecimal digits, two for each byte and the high half first, with blanks around
them and a leading `0x` allowed. `decodeHex` reads it in three steps: digits come in pairs, which is
checked first; they are digits and nothing else; and pair by pair they are converted.

The later steps are laxer by themselves: the check of the digits is that of a line, which may end in a
line break (`isDigitLine`), and the conversion passes over spaces before a pair (`bytesOfHex?`).
-/

namespace Pinpoint.Bytecode

/-- A hexadecimal digit, in either case. -/
def isHexDigit (c : Char) : Bool :=
  ('0' ≤ c && c ≤ '9') || ('a' ≤ c && c ≤ 'f') || ('A' ≤ c && c ≤ 'F')

/-- The spaces that the conversion passes over. -/
def isSpace (c : Char) : Bool :=
  c == ' ' || ('\t' ≤ c && c ≤ '\r')

/-- The text is a line of hexadecimal digits, with or without the line break that ends it. -/
def isDigitLine (cs : List Char) : Bool :=
  let rest := cs.dropWhile isHexDigit
  rest == [] || rest == ['\n']

/-- The bytes that pairs of digits stand for. There may be spaces before a pair, but not within one. -/
def bytesOfHex? : List Char → Option (List UInt8)
  | [] => some []
  | high :: rest =>
    if isSpace high then bytesOfHex? rest
    else match rest with
      | [] => none
      | low :: rest => do
        let h ← Text.hexValue? high
        let l ← Text.hexValue? low
        let bytes ← bytesOfHex? rest
        return UInt8.ofNat (16 * h + l) :: bytes

/-- The text without a leading `0x`. -/
def dropMarker : List Char → List Char
  | '0' :: 'x' :: rest => rest
  | '0' :: 'X' :: rest => rest
  | cs => cs

/-- The digits of a bytecode text: blanks around them and the marker are dropped. -/
def hexDigitsOf (cs : List Char) : List Char :=
  dropMarker (Text.trim cs)

/-- The bytes of a bytecode text. -/
def decodeHex (text : String) : Except Error (List UInt8) :=
  let digits := hexDigitsOf text.toList
  if digits.length % 2 ≠ 0 then .error (.oddDigits digits.length)
  else match isDigitLine digits with
    | false => .error .notHex
    | true => match bytesOfHex? digits with
      | some bytes => .ok bytes
      -- digits in pairs can all be converted, so this is not reached
      | none => .error .wrongType

end Pinpoint.Bytecode
