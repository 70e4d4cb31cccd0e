import Grapher.Decimal.Numeral
import Grapher.Text.Blank

/-!
# Numbers given as text

The liberal form in which a whole text is taken for a number: blanks around it, a sign, single
underscores between digits, digits of any script, and the words for the infinities and the
undefined number in any case.
-/

set_option autoImplicit false

namespace Grapher.Decimal

/-- The blanks allowed around a number; the information separators are not among them. -/
def isNumberBlank (c : Char) : Bool :=
  Text.isBlank c && !(28 ≤ c.toNat && c.toNat ≤ 31)

/-- The text without the blanks around a number. -/
def trimNumber (text : List Char) : List Char :=
  ((text.dropWhile isNumberBlank).reverse.dropWhile isNumberBlank).reverse

/-- A leading sign, and the rest. -/
def splitSign (text : List Char) : Bool × List Char :=
  match text with
  | '-' :: rest => (true, rest)
  | '+' :: rest => (false, rest)
  | rest => (false, rest)

/-- The text without its underscores, each of which must stand between two digits; `afterDigit`
says whether the character before the text is one. -/
def dropUnderscores? (afterDigit : Bool) : List Char → Option (List Char)
  | [] => some []
  | '_' :: next :: rest =>
    if afterDigit && Text.isDecimal next then (next :: ·) <$> dropUnderscores? true rest else none
  | c :: rest =>
    if c == '_' then none else (c :: ·) <$> dropUnderscores? (Text.isDecimal c) rest

/-- The words for numbers that have no digits. -/
def namedDouble? (negative : Bool) (word : List Char) : Option Float :=
  match String.ofList (word.map Char.toLower) with
  | "inf" | "infinity" => some (Double.ofMagnitudeBits negative Double.infinityBits)
  | "nan" => some Double.nan
  | _ => none

/-- A whole text as a double. -/
def readDouble? (text : String) : Option Float := do
  let plain ← dropUnderscores? false (trimNumber text.toList)
  let (negative, body) := splitSign plain
  match namedDouble? negative body with
  | some named => some named
  | none =>
    match scanScaled? body with
    | some (d, []) => some (d.toDouble negative)
    | _ => none

/-- A whole text as an integer. -/
def readInt? (text : String) : Option Int := do
  let plain ← dropUnderscores? false (trimNumber text.toList)
  let (negative, body) := splitSign plain
  match scanDigits body with
  | ([], _) => none
  | (digits, []) =>
    let size : Int := valueOf digits
    some (if negative then -size else size)
  | _ => none

end Grapher.Decimal
