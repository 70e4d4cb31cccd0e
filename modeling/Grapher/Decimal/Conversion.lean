import Grapher.Decimal.Layout
import Grapher.Decimal.Reading
import Grapher.Text.Quoted

/-!
# Taking something as a double

Numbers and texts can be taken as doubles. An integer beyond the finite doubles, a text that is no
number, and anything that is neither are refused, each with its own reason.
-/

set_option autoImplicit false

namespace Grapher

/-- Kinds of things that are neither numbers nor texts. -/
inductive NonNumeric where
  | null | list | record | function
  deriving DecidableEq, Repr

/-- Why something cannot be taken as a double. -/
inductive DoubleError where
  | notNumeric (kind : NonNumeric)
  | unreadable (text : String)
  | tooLarge
  deriving DecidableEq, Repr

namespace DoubleError

/-- The word for a kind that is no number. -/
def kindText : NonNumeric → String
  | .null => "NoneType"
  | .list => "list"
  | .record => "dict"
  | .function => "function"

/-- The message of a refused conversion. -/
def message : DoubleError → String
  | .notNumeric kind =>
    "float() argument must be a string or a real number, not '" ++ kindText kind ++ "'"
  | .unreadable text => "could not convert string to float: " ++ Text.quoted text
  | .tooLarge => "int too large to convert to float"

end DoubleError

namespace Decimal

/-- The message for a text that had to be an integer; a long text is cut short. -/
def notIntegerMessage (text : String) : String :=
  "invalid literal for int() with base 10: "
    ++ String.ofList ((Text.quotedChars text.toList).take 200)

/-- An integer as a double. -/
def doubleOfInt (n : Int) : Except DoubleError Float :=
  let x := Double.ofInt n
  if Double.isFinite x then .ok x else .error .tooLarge

/-- A text as a double. -/
def doubleOfText (text : String) : Except DoubleError Float :=
  match readDouble? text with
  | some x => .ok x
  | none => .error (.unreadable text)

/-- A truth value as a double. -/
def doubleOfBool (value : Bool) : Float := if value then 1.0 else 0.0

end Decimal

end Grapher
