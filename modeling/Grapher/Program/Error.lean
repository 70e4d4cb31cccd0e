import Grapher.Program.Token

/-!
# Why a program text is refused
-/

set_option autoImplicit false

namespace Grapher.Program

/-- Why a program text is refused. -/
inductive SyntaxError where
  | empty
  | unknownCharacter (character : Char) (position : Nat)
  | unclosed (found : Option Token)
  | unexpected (found : Token)
  | unexpectedEnd
  | exhausted

/-- The message of a refusal. The parser never exhausts its budget; the last message is there to
make the function total. -/
def SyntaxError.message : SyntaxError → String
  | .empty => "Empty expression"
  | .unknownCharacter character position =>
    "Unexpected character " ++ Text.quotedChar character ++ " at position "
      ++ Decimal.intText position
  | .unclosed none => "Expected ')' but found end of input"
  | .unclosed (some found) => "Expected ')' but found " ++ found.display
  | .unexpected found => "Unexpected token " ++ found.display
  | .unexpectedEnd => "Unexpected end of input"
  | .exhausted => "Nesting too deep"

end Grapher.Program
