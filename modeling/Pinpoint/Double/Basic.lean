/-!
# Numbers of double precision

A number with a fraction or an exponent is kept to double precision. The numbers of one sign are counted by size,
from zero on, and this is their *rank*: the first `2 * blockSize` are evenly spaced, and with every further
`blockSize` of them the gap to the next one doubles (`gapExponent`). The last rank is that of infinity. Every rank
is that of a number, so no value of the type is malformed, and there is one value besides that is no number.

The gaps are whole numbers of *units*, and so is every finite number (`units`); a unit is the least positive number,
and there are `unitsPerOne` of them in one. `nearest` rounds a quotient of units to a rank: halfway between two
numbers it takes the one of even rank.
-/

namespace Pinpoint

namespace Double

/-- How many numbers in a row have the same gap. -/
def blockSize : Nat := 1 <<< 52

/-- The rank of infinity. -/
def topRank : Nat := 2047 * blockSize

end Double

/-- A number of double precision, or the value that is no number. -/
inductive Double where
  | nan
  | ranked (negative : Bool) (rank : Fin (Double.topRank + 1))
  deriving DecidableEq, Repr

namespace Double

/-- A unit is one, divided by two to this power. -/
def unitExponent : Nat := 1074

/-- How many units there are in one. -/
def unitsPerOne : Nat := 1 <<< unitExponent

/-- The gap between the number of rank `r` and the next one is two to this power, in units. -/
def gapExponent (r : Nat) : Nat := r / blockSize - 1

/-- The number of rank `r`, in units. -/
def units (r : Nat) : Nat := (r - blockSize * gapExponent r) <<< gapExponent r

/-- The rank of the greatest number that is not above `n` units. -/
def rankBelow (n : Nat) : Nat := blockSize * (n.log2 - 52) + n >>> (n.log2 - 52)

/-- The rank of the number nearest to `p / q` units, the even one of two that are equally near. -/
def nearest (p q : Nat) : Nat :=
  let r := rankBelow (p / q)
  let twiceMiddle := (units r + units (r + 1)) * q
  if 2 * p < twiceMiddle then r
  else if twiceMiddle < 2 * p then r + 1
  else r + r % 2

/-- Zero of either sign. -/
def isZero : Double → Bool
  | nan => false
  | ranked _ rank => rank.val == 0

/-- Infinity of either sign. -/
def infinity (negative : Bool) : Double := ranked negative (Fin.last topRank)

/-- The integer that the number is. -/
def integer? : Double → Option Int
  | nan => none
  | ranked negative rank =>
    if rank = Fin.last topRank ∨ units rank % unitsPerOne ≠ 0 then none
    else
      let n : Int := units rank / unitsPerOne
      some (if negative then -n else n)

end Double

end Pinpoint
