import Pinpoint.Double.Decimal
import Pinpoint.Json.Basic
import Pinpoint.Text.Hex
import Pinpoint.Text.Integer
import Pinpoint.Text.Split

/-!
# Plain scalars

A scalar that is written without quotes may read as something else than a text: as null, as a truth value,
as a number, or as a date. `Scalar.resolve` gives the value. `Scalar.isSpecial` tells which scalars must
be quoted to stay texts.

Integers may be decimal, octal (with a leading zero), hexadecimal, binary, or given in base sixty with
colons, and underscores between their digits do not count. A number with a fraction is read to double
precision. Fractions in base sixty and dates are recognised, but kept as they are written.
-/

namespace Pinpoint.Yaml.Scalar

/-- The spellings of null. -/
def nulls : List String := ["", "~", "null", "Null", "NULL"]

/-- The spellings of true. -/
def trues : List String :=
  ["yes", "Yes", "YES", "on", "On", "ON", "true", "True", "TRUE"]

/-- The spellings of false. -/
def falses : List String :=
  ["no", "No", "NO", "off", "Off", "OFF", "false", "False", "FALSE"]

/-- The spellings of infinity, behind its sign. -/
def infinities : List String := [".inf", ".Inf", ".INF"]

/-- The spellings of what is no number. -/
def nans : List String := [".nan", ".NaN", ".NAN"]

/-! ### Shapes of numbers

A shape takes what it describes from the front of a text and gives the rest. -/

/-- One or more characters with property `p` make up the whole text. -/
def allOf (p : Char → Bool) (cs : List Char) : Bool :=
  !cs.isEmpty && cs.all p

/-- A decimal digit or an underscore. -/
def isDigitOrLine (c : Char) : Bool := c.isDigit || c == '_'

/-- What is left behind a sign, if there is one. -/
def unsigned : List Char → List Char
  | '-' :: rest => rest
  | '+' :: rest => rest
  | cs => cs

/-- An exponent, or nothing. -/
def isExponent : List Char → Bool
  | [] => true
  | e :: sign :: rest =>
    (e == 'e' || e == 'E') && (sign == '-' || sign == '+') && allOf Char.isDigit rest
  | _ => false

/-- One or two digits that count sixtieths. -/
def isSixty : List Char → Bool
  | [a] => a.isDigit
  | [a, b] => '0' ≤ a && a ≤ '5' && b.isDigit
  | _ => false

/-- The digits of an integer, behind its sign. -/
def isUnsignedInteger (cs : List Char) : Bool :=
  match cs with
  | ['0'] => true
  | '0' :: 'b' :: rest => allOf (fun c => c == '0' || c == '1' || c == '_') rest
  | '0' :: 'x' :: rest => allOf (fun c => (Text.hexValue? c).isSome || c == '_') rest
  | '0' :: rest => allOf (fun c => ('0' ≤ c && c ≤ '7') || c == '_') rest
  | c :: _ => c.isDigit && match Text.splitOn ':' cs with
    | [] => false
    | whole :: sixties => whole.all isDigitOrLine && sixties.all isSixty
  | [] => false

/-- An integer. -/
def isInteger (cs : List Char) : Bool :=
  isUnsignedInteger (unsigned cs)

/-- A number with a fraction, behind its sign. -/
def isUnsignedFraction (cs : List Char) : Bool :=
  let whole := cs.takeWhile (· ≠ '.')
  match cs.dropWhile (· ≠ '.') with
  | _ :: fraction =>
    let exponent := fraction.dropWhile isDigitOrLine
    match whole with
    | c :: _ =>
      c.isDigit && match Text.splitOn ':' whole with
      | [_] => whole.all isDigitOrLine && isExponent exponent
      | first :: sixties => first.all isDigitOrLine && sixties.all isSixty && exponent.isEmpty
      | [] => false
    | [] => false
  | [] => false

/-- A number with a fraction, or one of the names for infinity and for no number. -/
def isFraction (cs : List Char) : Bool :=
  isUnsignedFraction (unsigned cs) ||
    infinities.contains (String.ofList (unsigned cs)) || nans.contains (String.ofList cs) ||
    match cs with
    | '.' :: c :: rest =>
      c.isDigit && isExponent (rest.dropWhile isDigitOrLine)
    | _ => false

/-- Between `least` and `most` digits, and what is left behind them. -/
def digits? (least most : Nat) (cs : List Char) : Option (List Char) :=
  let n := ((cs.take most).takeWhile Char.isDigit).length
  if least ≤ n then some (cs.drop n) else none

/-- The character `c`, and what is left behind it. -/
def char? (c : Char) : List Char → Option (List Char)
  | d :: rest => if d = c then some rest else none
  | [] => none

/-- Behind a time of day: a zone, or nothing. -/
def isZone (cs : List Char) : Bool :=
  match cs.dropWhile fun c => c == ' ' || c == '\t' with
  | [] => cs.isEmpty
  | ['Z'] => true
  | sign :: rest => (sign == '+' || sign == '-') && match digits? 1 2 rest with
    | some [] => true
    | some rest' => ((char? ':' rest').bind (digits? 2 2)) == some []
    | none => false

/-- A time of day. -/
def isTime (cs : List Char) : Bool :=
  let seconds := do
    digits? 2 2 (← char? ':' (← digits? 2 2 (← char? ':' (← digits? 1 2 cs))))
  match seconds with
  | some ('.' :: rest) => isZone (rest.dropWhile Char.isDigit)
  | some rest => isZone rest
  | none => false

/-- A date, with or without a time of day. -/
def isDate (cs : List Char) : Bool :=
  let day := do
    digits? 1 2 (← char? '-' (← digits? 1 2 (← char? '-' (← digits? 4 4 cs))))
  match day with
  | some [] => cs.length == 10
  | some (c :: rest) =>
    if c == 'T' || c == 't' then isTime rest
    else (c == ' ' || c == '\t') && isTime (rest.dropWhile fun d => d == ' ' || d == '\t')
  | none => false

/-! ### Values -/

/-- The number that digits write in a base up to sixteen; none if there is no digit. -/
def inBase (base : Nat) (cs : List Char) : Option Nat :=
  if cs.isEmpty then none else some (cs.foldl (fun n c => base * n + (Text.hexValue? c).getD 0) 0)

/-- The number that decimal digits write, within the limit on their number. -/
def decimal (cs : List Char) : Option Nat :=
  if Text.digitLimit < cs.length then none else inBase 10 cs

/-- The value of an integer without sign and underscores; none if it has no digits or too many. -/
def naturalValue? (cs : List Char) : Option Nat :=
  match cs with
  | '0' :: 'b' :: rest => inBase 2 rest
  | '0' :: 'x' :: rest => inBase 16 rest
  | '0' :: _ => inBase 8 cs
  | _ => do
    let parts ← (Text.splitOn ':' cs).mapM decimal
    return parts.foldl (fun n part => 60 * n + part) 0

/-- The value of an integer; none if it has no digits or too many. -/
def integerValue? (cs : List Char) : Option Int :=
  let digits := (unsigned cs).filter (· ≠ '_')
  match cs with
  | '-' :: _ => (naturalValue? digits).map fun n => -(n : Int)
  | _ => (naturalValue? digits).map fun n => (n : Int)

/-- The value of an exponent behind its letter; zero without one. -/
def exponentValue (cs : List Char) : Int :=
  let size : Int := (inBase 10 (unsigned cs)).getD 0
  if cs.head? == some '-' then -size else size

/-- The value of a number with a fraction; none if it is given in base sixty. -/
def fractionValue? (cs : List Char) : Option Double :=
  let negative := cs.head? == some '-'
  let written := (unsigned cs).filter (· ≠ '_')
  if written.contains ':' then none
  else if infinities.contains (String.ofList written) then some (Double.infinity negative)
  else if nans.contains (String.ofList written) then some .nan
  else
    let whole := written.takeWhile Char.isDigit
    let behind := (written.dropWhile Char.isDigit).drop 1
    let fraction := behind.takeWhile Char.isDigit
    let exponent := exponentValue ((behind.dropWhile Char.isDigit).drop 1)
    some (Double.ofDecimal negative ((inBase 10 (whole ++ fraction)).getD 0) (exponent - fraction.length))

/-- Why a plain scalar has no value. -/
inductive Fault where
  /-- The scalar is reserved. -/
  | reserved
  /-- A number has no digits or too many. -/
  | number
  deriving DecidableEq, Repr

/-- The value of a plain scalar. -/
def resolve (cs : List Char) : Except Fault Json :=
  let s := String.ofList cs
  if nulls.contains s then .ok .null
  else if trues.contains s then .ok (.bool true)
  else if falses.contains s then .ok (.bool false)
  else if isInteger cs then match integerValue? cs with
    | some n => .ok (.int n)
    | none => .error .number
  else if isFraction cs then .ok (((fractionValue? cs).map .float).getD (.str s))
  else if cs == ['='] then .error .reserved
  else .ok (.str s)

/-- A scalar that is not a text unless it is quoted. -/
def isSpecial (cs : List Char) : Bool :=
  let s := String.ofList cs
  nulls.contains s || trues.contains s || falses.contains s || isInteger cs || isFraction cs ||
    isDate cs || s == "=" || s == "<<"

end Pinpoint.Yaml.Scalar
