import Grapher.Double.Units

/-!
# The double nearest to a quotient

Rounding to nearest, a tie going to the even neighbour, for every nonnegative quotient of natural
numbers. Nothing is estimated: the quotient is taken in units, its size fixes the grid of the
doubles around it, and one division on that grid decides. A quotient beyond the last finite double
gives the infinity.
-/

set_option autoImplicit false

namespace Grapher.Double

/-- The natural number nearest to a quotient, a tie going to the even one. -/
def roundHalfEven (numerator denominator : Nat) : Nat :=
  let quotient := numerator / denominator
  let rest := numerator % denominator
  if denominator < 2 * rest || (2 * rest == denominator && quotient % 2 == 1) then quotient + 1
  else quotient

/-- The magnitude bits of the double nearest to a quotient of units. -/
def nearestBits (numerator denominator : Nat) : Nat :=
  let scale := (numerator / denominator).log2 - 52
  min (scale * 2 ^ 52 + roundHalfEven numerator (denominator * 2 ^ scale)) infinityBits

/-- The double nearest to a quotient with the given sign. -/
def nearest (negative : Bool) (numerator denominator : Nat) : Float :=
  ofMagnitudeBits negative (nearestBits (numerator * unitsPerOne) denominator)

/-- The double nearest to an integer; beyond the finite doubles it is an infinity. -/
def ofInt (n : Int) : Float :=
  nearest (n < 0) n.natAbs 1

end Grapher.Double
