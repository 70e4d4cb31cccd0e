import Grapher.Decimal.Conversion

/-!
# Why an evaluation fails
-/

set_option autoImplicit false

namespace Grapher

/-- Why an evaluation fails. -/
inductive Fault where
  /-- An operation met a kind of value that it does not take, or a call had a wrong number of
  arguments. -/
  | wrongKind
  /-- Something could not be taken as a double. -/
  | conversion (reason : DoubleError)
  /-- A text that had to be an integer is none. -/
  | notInteger (text : String)
  /-- A function was asked outside of its domain. -/
  | outsideDomain
  /-- A result lies beyond the finite doubles. -/
  | overflow
  /-- A division by zero. -/
  | divisionByZero
  /-- A name that neither the scope nor the builtins define. -/
  | undefined (name : String)
  /-- A name that native code did not find in the scope. -/
  | missing (name : String)
  /-- Simpson's rule with an interval count that is not positive and even, shown as text. -/
  | intervalCount (shown : String)
  /-- Calls nested deeper than the limit. -/
  | tooDeep
  deriving DecidableEq, Repr

/-- The message of a fault. -/
def Fault.message : Fault → String
  | .wrongKind => "unsupported operand or argument"
  | .conversion reason => reason.message
  | .notInteger text => Decimal.notIntegerMessage text
  | .outsideDomain => "math domain error"
  | .overflow => "math range error"
  | .divisionByZero => "division by zero"
  | .undefined name => "Undefined symbol: " ++ name
  | .missing name => Text.quoted name
  | .intervalCount shown => "Simpson's rule needs a positive even interval count, got " ++ shown
  | .tooDeep => "maximum recursion depth exceeded"

/-- A conversion as a step of an evaluation. -/
def Fault.ofConversion {α : Type} : Except DoubleError α → Except Fault α
  | .ok value => .ok value
  | .error reason => .error (.conversion reason)

end Grapher
