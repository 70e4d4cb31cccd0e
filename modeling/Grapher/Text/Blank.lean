import Grapher.Text.CodeSet

/-!
# Blank characters

The characters that separate tokens and are trimmed from both ends of a text: white space of
every script, the four information separators included.
-/

set_option autoImplicit false

namespace Grapher.Text

/-- The blank characters beyond ASCII. -/
def blanksBeyondAscii : CodeSet :=
  .ofDistances [133, 1, 26, 1, 5599, 1, 2431, 11, 29, 2, 5, 1, 47, 1, 4000, 1]

/-- White space: tab to carriage return, the information separators, the space, and the blanks
of other scripts. -/
def isBlank (c : Char) : Bool :=
  inClass (fun c => (9 ≤ c.toNat && c.toNat ≤ 13) || (28 ≤ c.toNat && c.toNat ≤ 32))
    blanksBeyondAscii c

/-- The text without the blanks at its start. -/
def dropBlanks (text : List Char) : List Char :=
  text.dropWhile isBlank

/-- The text without the blanks at its end. -/
def dropBlanksRight (text : List Char) : List Char :=
  (text.reverse.dropWhile isBlank).reverse

/-- The text without the blanks at both ends. -/
def trim (text : List Char) : List Char :=
  dropBlanksRight (dropBlanks text)

end Grapher.Text
