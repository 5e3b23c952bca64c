import Pinpoint.Double.Basic

/-!
# Decimal notation of numbers of double precision

`ofDecimal` reads digits and a power of ten as the nearest number. `Double.text` writes a number with the fewest
digits that are read back as it: of the multiples of a power of ten only the two around the number come into
question, and powers are tried from the one above the first digit down (`shortest`). The search needs no bound, since
every number has a last decimal place.

A point stands among or beside the digits for numbers from `10 ^ -4` up to `10 ^ 16`; all others have one digit
before the point and an exponent (`layout`).
-/

namespace Pinpoint.Double

/-! ### Reading -/

/-- The rank of the number nearest to `digits * 10 ^ exponent`. Far from all finite numbers there is nothing to
compute. -/
def decimalRank (digits : Nat) (exponent : Int) : Nat :=
  let point := (Nat.toDigits 10 digits).length + exponent
  if digits = 0 ∨ point < -330 then 0
  else if 310 < point then topRank
  else min topRank (nearest (unitsPerOne * (digits * Nat.pow 10 exponent.toNat)) (Nat.pow 10 (-exponent).toNat))

theorem decimalRank_le (digits : Nat) (exponent : Int) : decimalRank digits exponent ≤ topRank := by
  unfold decimalRank
  dsimp only
  split
  · exact Nat.zero_le _
  · split
    · exact Nat.le_refl _
    · exact Nat.min_le_left _ _

/-- The number nearest to `digits * 10 ^ exponent`, with a sign. -/
def ofDecimal (negative : Bool) (digits : Nat) (exponent : Int) : Double :=
  ranked negative ⟨decimalRank digits exponent, Nat.lt_succ_of_le (decimalRank_le digits exponent)⟩

/-! ### The fewest digits -/

/-- The number of rank `r` in multiples of the last decimal place that a number can have. -/
def decimals (r : Nat) : Nat := Nat.pow 5 unitExponent * units r

/-- The power of ten for a place, counted from the last place that a number can have. -/
def placeExponent (place : Nat) : Int := place - unitExponent

/-- The two multiples of a place around the number of rank `r`: the nearer one first, or the even one of two that
are equally near. -/
def neighbours (r place : Nat) : List Nat :=
  let size := Nat.pow 10 place
  let low := decimals r / size
  let twice := 2 * (decimals r % size)
  if twice < size ∨ (twice = size ∧ low % 2 = 0) then [low, low + 1] else [low + 1, low]

/-- The multiple of a place that is read back as the number of rank `r`. -/
def digitsAt? (r place : Nat) : Option Nat :=
  (neighbours r place).find? fun digits => decimalRank digits (placeExponent place) == r

/-- The digits for the number of rank `r` at the first place, from `place` on downwards, where there are any. -/
def shortestFrom (r : Nat) : Nat → Nat × Nat
  | 0 => (decimals r, 0)
  | place + 1 => match digitsAt? r (place + 1) with
    | some digits => (digits, place + 1)
    | none => shortestFrom r place

/-- The fewest digits that are read back as the number of rank `r`, and their last place. -/
def shortest (r : Nat) : Nat × Nat :=
  shortestFrom r (Nat.toDigits 10 (decimals r)).length

/-! ### Writing -/

/-- Digits with a point behind the first `point` of them, or with zeros up to the point. -/
def plain (ds : List Char) (point : Int) : List Char :=
  if point ≤ 0 then '0' :: '.' :: (List.replicate (-point).toNat '0' ++ ds)
  else if point < ds.length then ds.take point.toNat ++ '.' :: ds.drop point.toNat
  else ds ++ (List.replicate (point.toNat - ds.length) '0' ++ ['.', '0'])

/-- An exponent with its sign and at least two digits. -/
def exponentText (e : Int) : List Char :=
  let ds := Nat.toDigits 10 e.natAbs
  (if e < 0 then '-' else '+') :: (if ds.length < 2 then '0' :: ds else ds)

/-- Digits with a point behind the first one, if there are more, and an exponent. -/
def scientific (ds : List Char) (point : Int) : List Char :=
  let fraction := if ds.length ≤ 1 then [] else '.' :: ds.drop 1
  ds.take 1 ++ (fraction ++ 'e' :: exponentText (point - 1))

/-- Digits and the place of the point, counted from the first digit. -/
def layout (ds : List Char) (point : Int) : List Char :=
  if -4 < point ∧ point ≤ 16 then plain ds point else scientific ds point

/-- How the finite number of rank `r` is written. -/
def rankText (r : Nat) : List Char :=
  if r = 0 then ['0', '.', '0']
  else
    let (digits, place) := shortest r
    let ds := Nat.toDigits 10 digits
    layout ds (ds.length + placeExponent place)

/-- How the number is written, with names for what is not finite. -/
def text (nanName infinityName : String) : Double → String
  | nan => nanName
  | ranked negative rank =>
    (if negative then "-" else "") ++
      if rank = Fin.last topRank then infinityName else String.ofList (rankText rank)

end Pinpoint.Double
