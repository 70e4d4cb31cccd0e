import Grapher.Decimal.Numeral
import Grapher.Program.Error
import Grapher.Text.Blank

/-!
# From program text to tokens

A lexeme is a number, a word or a mark, with any blanks before it. The scanner walks the text
character by character: where a lexeme starts it is recognised together with its length, and the
walk passes over the rest of it. A lexeme that cannot be recognised is reported at the first of
the blanks before it.
-/

set_option autoImplicit false

namespace Grapher.Program

/-- Marks of two characters. -/
def doubleMarks : List ((Char × Char) × Mark) := [
  (('-', '>'), .arrow),
  (('=', '='), .relation .equal), (('!', '='), .relation .notEqual),
  (('<', '='), .relation .lessEqual), (('>', '='), .relation .greaterEqual)]

/-- Marks of one character. -/
def singleMarks : List (Char × Mark) := [
  ('-', .minus), ('+', .plus), ('*', .times), ('/', .divide), ('^', .power),
  ('(', .opening), (')', .closing), (',', .comma),
  ('<', .relation .less), ('>', .relation .greater)]

/-- Whether a character can start a word. -/
def isWordStart (c : Char) : Bool := c.isAlpha || c == '_'

/-- Whether a character can continue a word. -/
def isWordRest (c : Char) : Bool := c.isAlphanum || c == '_'

/-- The token of a word. -/
def wordToken (word : String) : Token :=
  match Keyword.ofText? word with
  | some keyword => .keyword keyword
  | none => .name word

/-- The mark at the start of a text, with its length. -/
def markLexeme? (c : Char) (rest : List Char) : Option (Token × Nat) :=
  match rest.head?.bind fun next => doubleMarks.lookup (c, next) with
  | some sign => some (.mark sign, 2)
  | none => (singleMarks.lookup c).map fun sign => (.mark sign, 1)

/-- The lexeme at the start of a text without blanks before it, with its length. -/
def lexeme? (text : List Char) : Option (Token × Nat) :=
  match Decimal.scanScaled? text with
  | some (d, rest) => some (.number (d.toDouble false), text.length - rest.length)
  | none =>
    match text with
    | [] => none
    | c :: rest =>
      if isWordStart c then
        let word := c :: rest.takeWhile isWordRest
        some (wordToken (String.ofList word), word.length)
      else markLexeme? c rest

/-- The tokens of a text from a position on; `skip` characters belong to the lexeme before. -/
def scan (skip position : Nat) : List Char → Except SyntaxError (List Token)
  | [] => .ok []
  | c :: rest =>
    match skip with
    | skip + 1 => scan skip (position + 1) rest
    | 0 =>
      match lexeme? (Text.dropBlanks (c :: rest)) with
      | none => .error (.unknownCharacter c position)
      | some (token, length) =>
        if Text.isBlank c then scan 0 (position + 1) rest
        else do
          let more ← scan (length - 1) (position + 1) rest
          .ok (token :: more)

/-- The tokens of a text. -/
def tokens (text : String) : Except SyntaxError (List Token) :=
  scan 0 0 (Text.dropBlanksRight text.toList)

end Grapher.Program
