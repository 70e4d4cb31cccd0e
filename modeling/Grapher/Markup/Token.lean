import Grapher.Text.Quoted
import Grapher.Tree.Basic

/-!
# Tokens of formula markup

Formula markup is LaTeX or plain text. Its tokens are numbers, names, function words, signs,
prime marks, brackets and braces, bars, and the two marks that take their arguments by position:
the fraction and the integral. A token remembers the position of its first character.
-/

set_option autoImplicit false

namespace Grapher.Markup

/-- Brackets that group with round, square or curly signs. -/
inductive Bracket where
  | round | square | curly
  deriving DecidableEq, Repr

/-- The sign that opens a group. -/
def Bracket.openingText : Bracket → String
  | .round => "("
  | .square => "["
  | .curly => "\\\x7b"

/-- The sign that closes a group. -/
def Bracket.closingText : Bracket → String
  | .round => ")"
  | .square => "]"
  | .curly => "\\\x7d"

/-- The signs between and before operands. -/
inductive Sign where
  | plus | minus | times | divide | power | subscript
  | relation (relation : Relation)
  | and | or | not
  deriving DecidableEq, Repr

/-- The spelling of a sign in messages. -/
def Sign.text : Sign → String
  | .plus => "+"
  | .minus => "-"
  | .times => "*"
  | .divide => "/"
  | .power => "^"
  | .subscript => "_"
  | .relation .equal => "="
  | .relation sign => sign.symbol
  | .and => "and"
  | .or => "or"
  | .not => "not"

/-- A token of formula markup. A bar is written as itself or named by a command. -/
inductive Token where
  | number (value : Float)
  | name (name : String)
  | function (word : String) (function : Elementary)
  | sign (sign : Sign)
  | prime (count : Nat)
  | opening (bracket : Bracket)
  | closing (bracket : Bracket)
  | braceOpen
  | braceClose
  | bar (written : Bool)
  | comma
  | fraction
  | integral

namespace Token

/-- The word for the kind of a token. -/
def kind : Token → String
  | .number _ => "num"
  | .name _ => "ident"
  | .function _ _ => "func"
  | .sign _ => "op"
  | .prime _ => "prime"
  | .opening _ => "open"
  | .closing _ => "close"
  | .braceOpen => "lbrace"
  | .braceClose => "rbrace"
  | .bar _ => "bar"
  | .comma => "comma"
  | .fraction => "frac"
  | .integral => "int"

/-- How messages show a token: by its content, or by its kind when it has none. -/
def display : Token → String
  | .number value => Decimal.doubleText value
  | .name text => Text.quoted text
  | .function word _ => Text.quoted word
  | .sign mark => Text.quoted mark.text
  | .prime count => Decimal.intText count
  | .opening bracket => Text.quoted bracket.openingText
  | .closing bracket => Text.quoted bracket.closingText
  | .braceOpen => Text.quoted "\x7b"
  | .braceClose => Text.quoted "\x7d"
  | .bar true => Text.quoted "|"
  | .comma => Text.quoted ","
  | token => Text.quoted token.kind

end Token

/-- A token with the position of its first character. -/
structure Located where
  token : Token
  position : Nat

end Grapher.Markup
