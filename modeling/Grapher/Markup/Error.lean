import Grapher.Markup.Token

/-!
# Why markup is refused

Each cause of refusal is a constructor; the wording stands in one place. A misplaced token is
reported with what was wanted in its place, and the end of the text counts as a place.
-/

set_option autoImplicit false

namespace Grapher.Markup

/-- What the parser wanted where it found something else. -/
inductive Expectation where
  | operand
  | noSubscript
  | closingBrace
  | closingBar
  | closingBracket (bracket : Bracket)
  | argument (word : String)
  deriving DecidableEq, Repr

/-- Why markup is refused. -/
inductive ParseError where
  | empty
  | foreignSign
  | unknownCharacter (character : Char) (position : Nat)
  | unknownCommand (name : String) (position : Nat)
  | missingGroup (position : Nat)
  | misplaced (expectation : Expectation) (found : Option Located)
  | indefiniteIntegral
  | exhausted

/-- The words before the token that was found. -/
def Expectation.text : Expectation → String
  | .operand => "Unexpected"
  | .noSubscript => "Unexpected subscript"
  | .closingBrace => "Expected 'rbrace', found"
  | .closingBar => "Expected 'bar', found"
  | .closingBracket bracket => "Expected " ++ Text.quoted bracket.closingText ++ ", found"
  | .argument word => "Missing argument for " ++ word ++ ":"

/-- The words for a position. -/
def atPosition (position : Nat) : String :=
  " at position " ++ Decimal.intText position

/-- The message of a refusal. The scanner never exhausts its text and the parser never its
budget; the last message is there to make the function total. -/
def ParseError.message : ParseError → String
  | .empty => "Empty expression"
  | .foreignSign => "'NoneType' object has no attribute 'group'"
  | .unknownCharacter character position =>
    "Unexpected character " ++ Text.quotedChar character ++ atPosition position
  | .unknownCommand name position => "Unknown command \\" ++ name ++ atPosition position
  | .missingGroup position => "Expected '\x7b' after command" ++ atPosition position
  | .misplaced expectation none => expectation.text ++ " end of input"
  | .misplaced expectation (some found) =>
    expectation.text ++ " " ++ found.token.display ++ atPosition found.position
  | .indefiniteIntegral => "Only definite integrals with both limits are supported"
  | .exhausted => "Nesting too deep"

end Grapher.Markup
