import Pinpoint.Double.Decimal
import Pinpoint.Json.Basic
import Pinpoint.Text.Hex
import Pinpoint.Text.Integer

/-!
# Reading JSON

`Json.parse` reads a text as JSON, or says what is wrong with it and where (`Fault`). The reader works on
what is left of the text: a reading function takes the rest of the text, gives a value with the rest
behind it, or stops at some rest (`Stop`), whose length tells the place.

A number with a fraction or an exponent is read to double precision, and so are the names of what is no
number and of infinity; any other number is an integer, and one with more digits than are read is refused.
In a text between quotes a control character has to be escaped, and two escapes for the halves of a
surrogate pair give one character. A field given twice keeps its first place and its last value.

A text is made of characters, and half a surrogate pair on its own is none. Files with an escape for such a
half lie outside of what is described here: it is read as U+FFFD, whichever half it is.
-/

namespace Pinpoint.Json

/-- What can be wrong with a JSON text. -/
inductive Cause where
  | expectingValue
  | expectingName
  | expectingColon
  | expectingComma
  | extraData
  | unterminatedText
  | controlCharacter
  | badEscape
  | badUnicodeEscape
  | byteOrderMark
  deriving DecidableEq, Repr

/-- The cause in words. -/
def Cause.text : Cause → String
  | .expectingValue => "Expecting value"
  | .expectingName => "Expecting property name enclosed in double quotes"
  | .expectingColon => "Expecting ':' delimiter"
  | .expectingComma => "Expecting ',' delimiter"
  | .extraData => "Extra data"
  | .unterminatedText => "Unterminated string starting at"
  | .controlCharacter => "Invalid control character at"
  | .badEscape => "Invalid \\escape"
  | .badUnicodeEscape => "Invalid \\uXXXX escape"
  | .byteOrderMark => "Unexpected UTF-8 BOM (decode using utf-8-sig)"

/-- Why a text was not read. -/
inductive Fault where
  /-- The text is not JSON. Lines and columns are counted from one, offsets from zero. -/
  | malformed (cause : Cause) (line column offset : Nat)
  /-- A number has too many digits. -/
  | tooLong (digits : Nat)
  deriving DecidableEq, Repr

/-- The fault in words. -/
def Fault.message : Fault → String
  | .malformed cause line column offset =>
    s!"{cause.text}: line {line} column {column} (char {offset})"
  | .tooLong digits =>
    s!"Exceeds the limit ({Text.digitLimit} digits) for integer string conversion: " ++
      s!"value has {digits} digits; use sys.set_int_max_str_digits() to increase the limit"

namespace Reader

/-- Why reading stopped, and what was left then. -/
inductive Stop where
  | at (cause : Cause) (rest : List Char)
  | tooLong (digits : Nat)

/-- A value with what is left behind it. -/
abbrev Result (α : Type) := Except Stop (α × List Char)

/-- The characters that may stand between the parts of a value. -/
def isSpace (c : Char) : Bool :=
  c == ' ' || c == '\t' || c == '\n' || c == '\r'

/-- What is left behind spaces. -/
def skip (cs : List Char) : List Char :=
  cs.dropWhile isSpace

/-! ### Texts between quotes -/

/-- The number that four hexadecimal digits write. -/
def unit? (a b c d : Char) : Option Nat := do
  let a ← Text.hexValue? a
  let b ← Text.hexValue? b
  let c ← Text.hexValue? c
  let d ← Text.hexValue? d
  return ((a * 16 + b) * 16 + c) * 16 + d

/-- The character that a letter after a backslash stands for. -/
def escaped? : Char → Option Char
  | '"' => some '"'
  | '\\' => some '\\'
  | '/' => some '/'
  | 'b' => some (Char.ofNat 8)
  | 'f' => some (Char.ofNat 12)
  | 'n' => some '\n'
  | 'r' => some '\r'
  | 't' => some '\t'
  | _ => none

/-- A first half of a surrogate pair. -/
def isHighHalf (n : Nat) : Bool := 0xD800 ≤ n && n ≤ 0xDBFF

/-- A second half of a surrogate pair. -/
def isLowHalf (n : Nat) : Bool := 0xDC00 ≤ n && n ≤ 0xDFFF

/-- The character with a code point; U+FFFD for half a surrogate pair. -/
def charOf (n : Nat) : Char :=
  if isHighHalf n || isLowHalf n then Char.ofNat 0xFFFD else Char.ofNat n

/-- The characters of code points in which characters beyond U+FFFF may be given as two halves. -/
def joinHalves : List Nat → List Char
  | [] => []
  | high :: rest =>
    match rest with
    | [] => [charOf high]
    | low :: rest' =>
      if isHighHalf high && isLowHalf low then
        Char.ofNat (0x10000 + (high - 0xD800) * 0x400 + (low - 0xDC00)) :: joinHalves rest'
      else charOf high :: joinHalves (low :: rest')

/-- Reads a text up to its closing quote. `opening` is what was left at the opening quote, and `done`
holds the code points read so far, the last one first. -/
def readText (opening : List Char) (done : List Nat) : List Char → Result String
  | [] => .error (.at .unterminatedText opening)
  | '"' :: rest => .ok (String.ofList (joinHalves done.reverse), rest)
  | '\\' :: 'u' :: rest =>
    match rest with
    -- The four digits must not be the end of the whole text.
    | a :: b :: c :: d :: e :: rest' => match unit? a b c d with
      | some n => readText opening (n :: done) (e :: rest')
      | none => .error (.at .badUnicodeEscape ('u' :: rest))
    | _ => .error (.at .badUnicodeEscape ('u' :: rest))
  | '\\' :: c :: rest =>
    match escaped? c with
    | some d => readText opening (d.toNat :: done) rest
    | none => .error (.at .badEscape ('\\' :: c :: rest))
  | ['\\'] => .error (.at .unterminatedText opening)
  | c :: rest =>
    if c.toNat < 0x20 then .error (.at .controlCharacter (c :: rest))
    else readText opening (c.toNat :: done) rest

/-! ### Numbers -/

/-- Reads the digits of a number: a zero on its own, or digits that do not start with zero. -/
def digits? : List Char → Option (List Char × List Char)
  | '0' :: rest => some (['0'], rest)
  | c :: rest =>
    if c.isDigit then some (c :: rest.takeWhile Char.isDigit, rest.dropWhile Char.isDigit) else none
  | [] => none

/-- The number that digits write. -/
def valueOf (ds : List Char) : Nat :=
  Text.ofDigits (ds.map Text.asciiDigitValue)

/-- Reads the digits behind a point; without any, the point is left as well. -/
def readFraction : List Char → List Char × List Char
  | '.' :: rest => match rest.takeWhile Char.isDigit with
    | [] => ([], '.' :: rest)
    | ds => (ds, rest.dropWhile Char.isDigit)
  | cs => ([], cs)

/-- Reads a sign, if there is one: whether it is a minus, and what is left. -/
def readSign : List Char → Bool × List Char
  | '-' :: rest => (true, rest)
  | '+' :: rest => (false, rest)
  | cs => (false, cs)

/-- Reads an exponent: a letter, a sign or none, and digits. -/
def readExponent? : List Char → Option (Int × List Char)
  | [] => none
  | c :: rest =>
    if c == 'e' || c == 'E' then
      let (negative, cs) := readSign rest
      match cs.takeWhile Char.isDigit with
      | [] => none
      | ds =>
        let e : Int := valueOf ds
        some (if negative then -e else e, cs.dropWhile Char.isDigit)
    else none

/-- The integer with the given digits, if there are not too many of them. -/
def integer (negative : Bool) (ds rest : List Char) : Result Json :=
  if Text.digitLimit < ds.length then .error (.tooLong ds.length)
  else
    let n : Int := valueOf ds
    .ok (.int (if negative then -n else n), rest)

/-- The number with the given digits before and behind the point, and an exponent. -/
def decimal (negative : Bool) (whole fraction : List Char) (e : Int) : Json :=
  .float (Double.ofDecimal negative (valueOf (whole ++ fraction)) (e - fraction.length))

/-- Reads a number; `negative` if it stands behind a minus sign. -/
def readDigits (start : List Char) (negative : Bool) (cs : List Char) : Result Json :=
  match digits? cs with
  | none => .error (.at .expectingValue start)
  | some (whole, rest) =>
    let (fraction, rest) := readFraction rest
    match readExponent? rest with
    | some (e, rest) => .ok (decimal negative whole fraction e, rest)
    | none =>
      if fraction.isEmpty then integer negative whole rest
      else .ok (decimal negative whole fraction 0, rest)

/-- Reads infinity. -/
def infinity? (negative : Bool) : List Char → Option (Json × List Char)
  | 'I' :: 'n' :: 'f' :: 'i' :: 'n' :: 'i' :: 't' :: 'y' :: rest =>
    some (.float (Double.infinity negative), rest)
  | _ => none

/-- Reads a number or infinity, without its sign. -/
def readUnsigned (start : List Char) (negative : Bool) (cs : List Char) : Result Json :=
  match infinity? negative cs with
  | some r => .ok r
  | none => readDigits start negative cs

/-- Reads a number or infinity. -/
def readNumber : List Char → Result Json
  | '-' :: rest => readUnsigned ('-' :: rest) true rest
  | cs => readUnsigned cs false cs

/-! ### Values -/

mutual

/-- Reads a value, with no spaces before it. The first argument bounds the depth of the recursion. -/
def readValue : Nat → List Char → Result Json
  | 0, cs => .error (.at .expectingValue cs)
  | fuel + 1, cs => match cs with
    | '"' :: rest => (readText cs [] rest).map fun r => (.str r.1, r.2)
    | '[' :: rest => match skip rest with
      | ']' :: rest' => .ok (.arr [], rest')
      | rest' => readItems fuel [] rest'
    | '\x7b' :: rest => match skip rest with
      | '\x7d' :: rest' => .ok (.obj [], rest')
      | rest' => readFields fuel [] rest'
    | 'n' :: 'u' :: 'l' :: 'l' :: rest => .ok (.null, rest)
    | 't' :: 'r' :: 'u' :: 'e' :: rest => .ok (.bool true, rest)
    | 'f' :: 'a' :: 'l' :: 's' :: 'e' :: rest => .ok (.bool false, rest)
    | 'N' :: 'a' :: 'N' :: rest => .ok (.float .nan, rest)
    | _ => readNumber cs

/-- Reads the items of a list up to its end. `done` holds those read so far, the last one first. -/
def readItems : Nat → List Json → List Char → Result Json
  | 0, _, cs => .error (.at .expectingValue cs)
  | fuel + 1, done, cs => match readValue fuel cs with
    | .error e => .error e
    | .ok (item, rest) => match skip rest with
      | ']' :: rest' => .ok (.arr (item :: done).reverse, rest')
      | ',' :: rest' => readItems fuel (item :: done) (skip rest')
      | rest' => .error (.at .expectingComma rest')

/-- Reads the fields of an object up to its end. `done` holds those read so far, the last one first. -/
def readFields : Nat → List (String × Json) → List Char → Result Json
  | 0, _, cs => .error (.at .expectingValue cs)
  | fuel + 1, done, cs => match cs with
    | '"' :: afterQuote => match readText cs [] afterQuote with
      | .error e => .error e
      | .ok (name, rest) => match skip rest with
        | ':' :: afterColon => match readValue fuel (skip afterColon) with
          | .error e => .error e
          | .ok (value, rest') => match skip rest' with
            | '\x7d' :: rest'' => .ok (.obj (Fields.ofPairs ((name, value) :: done).reverse), rest'')
            | ',' :: rest'' => readFields fuel ((name, value) :: done) (skip rest'')
            | rest'' => .error (.at .expectingComma rest'')
        | rest' => .error (.at .expectingColon rest')
    | _ => .error (.at .expectingName cs)

end

/-- The fault for a stop while reading `text`. -/
def faultOf (text : List Char) : Stop → Fault
  | .tooLong digits => .tooLong digits
  | .at cause rest =>
    let offset := text.length - rest.length
    let lineSoFar := (text.take offset).reverse.takeWhile (· ≠ '\n')
    .malformed cause ((text.take offset).count '\n' + 1) (lineSoFar.length + 1) offset

/-- Reads a whole text; only spaces may follow the value. -/
def readAll (text : List Char) : Except Stop Json :=
  match text with
  | '\uFEFF' :: _ => .error (.at .byteOrderMark text)
  | _ => match readValue (text.length + 1) (skip text) with
    | .error e => .error e
    | .ok (value, rest) => match skip rest with
      | [] => .ok value
      | rest' => .error (.at .extraData rest')

end Reader

/-- Reads a text as JSON. -/
def parse (text : List Char) : Except Fault Json :=
  (Reader.readAll text).mapError (Reader.faultOf text)

end Pinpoint.Json
