import Grapher.Decimal.Shortest

/-!
# How doubles are written

A finite double is written by the digits of its shortest decimal. From 0.0001 up to, not
including, 10^16 the digits stand in place around the point, and a whole number keeps one zero
after it; otherwise one digit stands before the point and the power of ten follows, with its sign
and at least two digits.
-/

set_option autoImplicit false

namespace Grapher.Decimal

/-- The digits of a natural number. -/
def digits (n : Nat) : List Char := Nat.toDigits 10 n

/-- The powers of ten of a leading digit that are written in place. -/
def inPlace (leading : Int) : Bool := -4 ≤ leading && leading < 16

/-- Digits in place, the point standing after `point` of them (before the first if negative). -/
def positional (digits : List Char) (point : Int) : List Char :=
  if point ≤ 0 then '0' :: '.' :: List.replicate (-point).toNat '0' ++ digits
  else
    let whole := point.toNat
    if digits.length ≤ whole then
      digits ++ List.replicate (whole - digits.length) '0' ++ ['.', '0']
    else digits.take whole ++ '.' :: digits.drop whole

/-- A power of ten with its sign and at least two digits. -/
def exponentSuffix (power : Int) : List Char :=
  let size := digits power.natAbs
  'e' :: (if power < 0 then '-' else '+') :: List.replicate (2 - size.length) '0' ++ size

/-- One digit before the point, the others after it, and the power of ten. -/
def scientific (digits : List Char) (leading : Int) : List Char :=
  match digits with
  | [] => exponentSuffix leading
  | [first] => first :: exponentSuffix leading
  | first :: rest => first :: '.' :: rest ++ exponentSuffix leading

/-- The text of a decimal. -/
def layout (d : Decimal) : List Char :=
  let ds := digits d.coefficient
  let leading := d.exponent + ds.length - 1
  if inPlace leading then positional ds (leading + 1) else scientific ds leading

/-- The text of a nonnegative finite double, by its magnitude bits. -/
def magnitudeText (bits : Nat) : List Char :=
  if bits = 0 then ['0', '.', '0'] else layout (shortest bits)

/-- The text of any double. -/
def doubleText (x : Float) : String :=
  let bits := Double.magnitudeBits x
  if Double.infinityBits < bits then "nan"
  else
    let sign := if Double.isNegative x then "-" else ""
    if bits = Double.infinityBits then sign ++ "inf"
    else sign ++ String.ofList (magnitudeText bits)

/-- The text of an integer. -/
def intText (n : Int) : String :=
  (if n < 0 then "-" else "") ++ String.ofList (digits n.natAbs)

end Grapher.Decimal
