import Grapher.Double.Nearest

/-!
# Decimals

A decimal is a natural number times a power of ten. It stands for the double nearest to it.
-/

set_option autoImplicit false

namespace Grapher

/-- The number `coefficient * 10 ^ exponent`. -/
structure Decimal where
  coefficient : Nat
  exponent : Int
  deriving DecidableEq, Repr

namespace Decimal

/-- How many decimal digits a natural number has. -/
def digitCount (n : Nat) : Nat := (Nat.toDigits 10 n).length

/-- The power of ten above which every decimal rounds to the infinity, and whose inverse bounds
the decimals that round to zero. -/
def outOfRange : Int := 400

/-- The magnitude bits of the double nearest to a decimal. Powers of ten far outside the range of
the doubles are decided by size alone. -/
def bits (d : Decimal) : Nat :=
  let size := d.exponent + digitCount d.coefficient
  if d.coefficient = 0 || size < -outOfRange then 0
  else if outOfRange < size then Double.infinityBits
  else if 0 ≤ d.exponent then
    Double.nearestBits (d.coefficient * 10 ^ d.exponent.toNat * Double.unitsPerOne) 1
  else Double.nearestBits (d.coefficient * Double.unitsPerOne) (10 ^ (-d.exponent).toNat)

/-- The double nearest to a decimal, with the given sign. -/
def toDouble (negative : Bool) (d : Decimal) : Float :=
  Double.ofMagnitudeBits negative d.bits

end Decimal

end Grapher
