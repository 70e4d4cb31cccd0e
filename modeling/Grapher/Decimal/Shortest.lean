import Grapher.Decimal.Basic

/-!
# The shortest decimal of a double

Of the decimals that round to a given positive double, the one with the fewest digits is chosen,
and of several with that many digits the nearest, an exact tie going to the even last digit. For
each digit count only the two neighbours of the double on that decimal grid need be tried. Every
double is a decimal itself, with as many digits as it takes, so the search always has an answer.
-/

set_option autoImplicit false

namespace Grapher.Decimal

/-- The power of ten of the leading digit of a positive number of units. -/
def leadingExponent (units : Nat) : Int :=
  if Double.unitsPerOne ≤ units then (digitCount (units / Double.unitsPerOne) : Int) - 1
  else -(digitCount (Double.unitsPerOne / units) : Int)

/-- A positive number of units written out in full. -/
def exact (units : Nat) : Decimal :=
  ⟨units * 5 ^ 1074, -1074⟩

/-- Of two decimals the one that rounds to the double with the given magnitude bits; of two such
the nearer one. -/
def chosen? (bits : Nat) (below above : Decimal) (belowNearer : Bool) : Option Decimal :=
  match below.bits == bits, above.bits == bits with
  | true, true => some (if belowNearer then below else above)
  | true, false => some below
  | false, true => some above
  | false, false => none

/-- The nearest decimal with the given number of digits that rounds to the double with the given
magnitude bits, if one of its two neighbours with that many digits does. -/
def withDigits? (bits : Nat) (count : Nat) : Option Decimal :=
  let units := Double.unitsOfBits bits
  let power := leadingExponent units - (count - 1)
  let numerator := if 0 ≤ power then units else units * 10 ^ (-power).toNat
  let denominator :=
    if 0 ≤ power then Double.unitsPerOne * 10 ^ power.toNat else Double.unitsPerOne
  let quotient := numerator / denominator
  let rest := numerator % denominator
  let below : Decimal := ⟨quotient, power⟩
  let above : Decimal :=
    if quotient + 1 = 10 ^ count then ⟨1, power + count⟩ else ⟨quotient + 1, power⟩
  let belowNearer := 2 * rest < denominator || (2 * rest == denominator && quotient % 2 == 0)
  chosen? bits below above belowNearer

/-- The decimal with the fewest digits that rounds to the positive finite double with the given
magnitude bits; seventeen digits are always enough. -/
def shortest (bits : Nat) : Decimal :=
  (((List.range 17).map (· + 1)).findSome? (withDigits? bits)).getD
    (exact (Double.unitsOfBits bits))

end Grapher.Decimal
