import Grapher.Decimal.Basic
import Grapher.Text.Digit

/-!
# Numerals

Numerals as they stand in a text: digits with an optional point among or before them, and where
the text allows it a power of ten. Digits may come from any script. Each scanner takes as much of
the text as belongs to the numeral and returns the rest.
-/

set_option autoImplicit false

namespace Grapher.Decimal

/-- The value of a run of decimal digits. -/
def valueOf (digits : List Char) : Nat :=
  digits.foldl (fun value c => 10 * value + (Text.decimalValue? c).getD 0) 0

/-- The longest run of decimal digits at the start of a text, and the rest. -/
def scanDigits (text : List Char) : List Char × List Char :=
  (text.takeWhile Text.isDecimal, text.dropWhile Text.isDecimal)

/-- Digits, a point and digits, where either side of the point but not both may be empty, and the
point may be left out. -/
def scanPlain? (text : List Char) : Option (Decimal × List Char) :=
  match scanDigits text with
  | ([], '.' :: afterPoint) =>
    match scanDigits afterPoint with
    | ([], _) => none
    | (fraction, rest) => some (⟨valueOf fraction, -fraction.length⟩, rest)
  | ([], _) => none
  | (whole, '.' :: afterPoint) =>
    let (fraction, rest) := scanDigits afterPoint
    some (⟨valueOf (whole ++ fraction), -fraction.length⟩, rest)
  | (whole, rest) => some (⟨valueOf whole, 0⟩, rest)

/-- A power of ten: the letter e in either case, an optional sign, and digits. -/
def scanPower? (text : List Char) : Option (Int × List Char) :=
  match text with
  | mark :: rest =>
    if mark == 'e' || mark == 'E' then
      let (negative, rest) := match rest with
        | '-' :: rest => (true, rest)
        | '+' :: rest => (false, rest)
        | rest => (false, rest)
      match scanDigits rest with
      | ([], _) => none
      | (digits, rest) =>
        let size : Int := valueOf digits
        some (if negative then -size else size, rest)
    else none
  | [] => none

/-- A plain numeral with an optional power of ten after it. -/
def scanScaled? (text : List Char) : Option (Decimal × List Char) := do
  let (plain, rest) ← scanPlain? text
  match scanPower? rest with
  | some (power, rest) => some (⟨plain.coefficient, plain.exponent + power⟩, rest)
  | none => some (plain, rest)

end Grapher.Decimal
