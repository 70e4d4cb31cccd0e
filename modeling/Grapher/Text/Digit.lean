import Grapher.Text.CodeSet

/-!
# Digits of all scripts

Two classes are told apart. A decimal digit has a value from 0 to 9 and can stand in a number;
the decimal digits of each script are ten consecutive code points. A digit sign is a decimal
digit or a sign that only looks like one: a superscript, a subscript, a circled digit.
-/

set_option autoImplicit false

namespace Grapher.Text

/-- The zeros of the scripts beyond ASCII, in ascending order; the digits 1 to 9 of a script
follow its zero. -/
def zerosBeyondAscii : List Nat := [
  1632, 1776, 1984, 2406, 2534, 2662, 2790, 2918, 3046, 3174, 3302, 3430, 3558, 3664, 3792, 3872,
  4160, 4240, 6112, 6160, 6470, 6608, 6784, 6800, 6992, 7088, 7232, 7248, 42528, 43216, 43264,
  43472, 43504, 43600, 44016, 65296, 66720, 68912, 69734, 69872, 69942, 70096, 70384, 70736, 70864,
  71248, 71360, 71472, 71904, 72016, 72784, 73040, 73120, 92768, 92864, 93008, 120782, 120792,
  120802, 120812, 120822, 123200, 123632, 125264, 130032]

/-- The value of a decimal digit of any script. -/
def decimalValue? (c : Char) : Option Nat :=
  if c.isDigit then some (c.toNat - '0'.toNat)
  else
    (zerosBeyondAscii.find? fun first => first ≤ c.toNat && c.toNat < first + 10).map (c.toNat - ·)

/-- A decimal digit of any script. -/
def isDecimal (c : Char) : Bool :=
  (decimalValue? c).isSome

/-- Signs that look like digits but have no decimal value. -/
def digitSignsBeyondAscii : CodeSet :=
  .ofDistances [
    178, 2, 5, 1, 4783, 9, 1640, 1, 1685, 1, 3, 6, 6, 10, 982, 9, 11, 9, 11, 9, 89, 1, 10, 9, 1, 1,
    630, 9, 1, 9, 1, 9, 58029, 4, 1052, 9, 489, 9, 57509, 11]

/-- A decimal digit or a sign that looks like one. -/
def isDigitSign (c : Char) : Bool :=
  isDecimal c || digitSignsBeyondAscii.contains c.toNat

end Grapher.Text
