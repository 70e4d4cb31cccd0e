import Grapher.Text.Quoted
import Grapher.Tree.Basic

/-!
# Tokens of a program

A program is the text form in which a formula is evaluated. Its tokens are numbers, names, the
three connective words, and marks. Every token has a spelling; scanning the spelling gives the
token back.
-/

set_option autoImplicit false

namespace Grapher.Program

/-- The words that are no names. -/
inductive Keyword where
  | and | or | not
  deriving DecidableEq, Repr

/-- The marks between and around operands. -/
inductive Mark where
  | arrow
  | relation (relation : Relation)
  | plus | minus | times | divide | power
  | opening | closing | comma
  deriving DecidableEq, Repr

/-- A token of a program. -/
inductive Token where
  | number (value : Float)
  | name (name : String)
  | keyword (word : Keyword)
  | mark (mark : Mark)

/-- The spelling of a connective word. -/
def Keyword.text : Keyword → String
  | .and => "and"
  | .or => "or"
  | .not => "not"

/-- All connective words. -/
def Keyword.all : List Keyword := [.and, .or, .not]

/-- The connective word with a given spelling. -/
def Keyword.ofText? (word : String) : Option Keyword :=
  Keyword.all.find? (·.text == word)

/-- The spelling of a mark. -/
def Mark.text : Mark → String
  | .arrow => "->"
  | .relation sign => sign.symbol
  | .plus => "+"
  | .minus => "-"
  | .times => "*"
  | .divide => "/"
  | .power => "^"
  | .opening => "("
  | .closing => ")"
  | .comma => ","

/-- The spelling of a nonnegative finite number: all digits of a whole number, else the shortest
text that reads back. -/
def numberText (value : Float) : String :=
  Node.numberText value

namespace Token

/-- The spelling of a token. -/
def text : Token → String
  | .number value => numberText value
  | .name word => word
  | .keyword word => word.text
  | .mark sign => sign.text

/-- How messages show a token. -/
def display : Token → String
  | .number value => Decimal.doubleText value
  | .name word => Text.quoted word
  | .keyword word => Text.quoted word.text
  | .mark sign => Text.quoted sign.text

end Token

/-- A token or a blank of a written program. -/
inductive Piece where
  | token (token : Token)
  | blank

/-- The spelling of a piece. -/
def Piece.text : Piece → String
  | .token lexeme => lexeme.text
  | .blank => " "

/-- The text of pieces in a row. -/
def piecesText (pieces : List Piece) : String :=
  String.join (pieces.map Piece.text)

/-- The tokens among pieces. -/
def piecesTokens (pieces : List Piece) : List Token :=
  pieces.filterMap fun
    | .token lexeme => some lexeme
    | .blank => none

end Grapher.Program
