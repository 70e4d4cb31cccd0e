import Grapher.Text.Printable

/-!
# Quoted text

The form in which error messages and generated source show a text: between single quotes, or
between double quotes when the text holds a single quote and no double one. The quote in use and
the backslash are escaped, the three common line characters have short names, and every other
character that is not printable is written by its code in the shortest of three widths.
-/

set_option autoImplicit false

namespace Grapher.Text

/-- A number in lower-case hexadecimal digits, filled with zeros to the given width. -/
def hexadecimal (width number : Nat) : List Char :=
  let digits := Nat.toDigits 16 number
  List.replicate (width - digits.length) '0' ++ digits

/-- One character of a quoted text. -/
def escaped (quote c : Char) : List Char :=
  if c == quote || c == '\\' then ['\\', c]
  else if c == '\n' then ['\\', 'n']
  else if c == '\r' then ['\\', 'r']
  else if c == '\t' then ['\\', 't']
  else if isPrintable c then [c]
  else if c.toNat < 0x100 then '\\' :: 'x' :: hexadecimal 2 c.toNat
  else if c.toNat < 0x10000 then '\\' :: 'u' :: hexadecimal 4 c.toNat
  else '\\' :: 'U' :: hexadecimal 8 c.toNat

/-- The quote around a text: the single one unless only that one occurs in it. -/
def quoteFor (text : List Char) : Char :=
  if text.contains '\'' && !text.contains '"' then '"' else '\''

/-- A text in quotes, as a list of characters. -/
def quotedChars (text : List Char) : List Char :=
  let quote := quoteFor text
  quote :: text.flatMap (escaped quote) ++ [quote]

/-- A text in quotes. -/
def quoted (text : String) : String :=
  String.ofList (quotedChars text.toList)

/-- One character in quotes. -/
def quotedChar (c : Char) : String :=
  String.ofList (quotedChars [c])

end Grapher.Text
