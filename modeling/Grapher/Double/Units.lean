/-!
# Doubles as whole numbers of units

The least positive double is 2^-1074, and every finite double is a whole number of that unit.
Read this way the doubles need no exponents: comparing a double with an integer, rounding it down,
or asking whether it is whole is arithmetic on integers, with nothing lost.

The magnitude bits of a double, its bits without the sign, count the nonnegative doubles in
order: 0 is zero, 1 the least positive double, and the infinity comes right after the last finite
one. With `k` steps of 2^52 below the leading one, magnitude bits `k * 2^52 + m` stand for
`m * 2^k` units.
-/

set_option autoImplicit false

namespace Grapher

-- Powers of numbers are the computed ones, whatever algebra of numbers is in scope.

@[default_instance 10001]
instance (priority := high) natPower : Pow Nat Nat := instPowNat

instance (priority := high) intPower : Pow Int Nat := instPowNat

namespace Double

/-- How many units make one. -/
def unitsPerOne : Nat := 2 ^ 1074

/-- The magnitude bits of the infinity. -/
def infinityBits : Nat := 2047 * 2 ^ 52

/-- The bits of a double without its sign. -/
def magnitudeBits (x : Float) : Nat := x.toBits.toNat % 2 ^ 63

/-- Whether the sign bit is set; so it is for the negative zero. -/
def isNegative (x : Float) : Bool := 2 ^ 63 ≤ x.toBits.toNat

/-- Neither infinite nor undefined. -/
def isFinite (x : Float) : Bool := magnitudeBits x < infinityBits

/-- One of the two infinities. -/
def isInfinite (x : Float) : Bool := magnitudeBits x == infinityBits

/-- The double with the given sign and magnitude bits. -/
def ofMagnitudeBits (negative : Bool) (bits : Nat) : Float :=
  Float.ofBits (UInt64.ofNat (bits + if negative then 2 ^ 63 else 0))

/-- The positive infinity. -/
def infinity : Float := ofMagnitudeBits false infinityBits

/-- The negative infinity. -/
def negativeInfinity : Float := ofMagnitudeBits true infinityBits

/-- The undefined result. -/
def nan : Float := Float.ofBits 0x7ff8000000000000

/-- The steps of 2^52 below the leading bit of a magnitude. -/
def scaleOfBits (bits : Nat) : Nat := bits / 2 ^ 52 - 1

/-- The units of the finite double with the given magnitude bits. -/
def unitsOfBits (bits : Nat) : Nat :=
  (bits - scaleOfBits bits * 2 ^ 52) * 2 ^ scaleOfBits bits

/-- A finite double as a whole number of units. -/
def units? (x : Float) : Option Int :=
  if isFinite x then
    let size : Int := unitsOfBits (magnitudeBits x)
    some (if isNegative x then -size else size)
  else none

/-- A whole double as an integer. -/
def toInt? (x : Float) : Option Int := do
  let size ← units? x
  if size % unitsPerOne = 0 then some (size / unitsPerOne) else none

/-- The greatest integer that is not above a finite double. -/
def floor? (x : Float) : Option Int :=
  (units? x).map fun size => Int.fdiv size unitsPerOne

/-- The least integer that is not below a finite double. -/
def ceil? (x : Float) : Option Int :=
  (units? x).map fun size => -Int.fdiv (-size) unitsPerOne

/-- The integer part of a finite double, toward zero. -/
def truncate? (x : Float) : Option Int :=
  (units? x).map fun size => Int.tdiv size unitsPerOne

end Double

end Grapher
