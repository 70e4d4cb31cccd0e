import Grapher.Program.Eval
import Grapher.Tree.Chain

/-!
# Runs

A run is what something gives when it is evaluated, in each scope at each moment. The operations
on runs say once in which order operands are evaluated, which of them are not looked at, and at
which moment each of them is.
-/

set_option autoImplicit false

namespace Grapher

open Program (Arithmetic Expr resolve)

/-- The value of something in each scope at each moment. -/
abbrev Run := Scope → Moment → Except Fault Value

namespace Run

/-- A value that is always the same. -/
def constant (value : Value) : Run := fun _ _ => .ok value

/-- What has no value. -/
def nothing : Run := fun _ _ => .error .wrongKind

/-- The value of a name: from the scope, else from the helpers, else from the builtins. -/
def named (helpers : Scope) (name : String) : Run := fun scope _ => resolve helpers scope name

/-- An arithmetic operation, the left operand before the right one. -/
def binary (operation : Arithmetic) (left right : Run) : Run := fun scope moment => do
  let a ← left scope (.part moment 0)
  let b ← right scope (.part moment 1)
  operation.apply a b

/-- The negative of a number. -/
def negated (operand : Run) : Run := fun scope moment => do
  let value ← operand scope moment
  value.negate

/-- Whether a condition holds. -/
def truth (operand : Run) : Run := fun scope moment => do
  let value ← operand scope moment
  .ok (.bool value.truth)

/-- Whether a condition does not hold. -/
def denied (operand : Run) : Run := fun scope moment => do
  let value ← operand scope moment
  .ok (.bool !value.truth)

/-- Whether two conditions hold; the second is not looked at if the first does not. -/
def both (left right : Run) : Run := fun scope moment => do
  let a ← left scope (.part moment 0)
  if a.truth then
    let b ← right scope (.part moment 1)
    .ok (.bool b.truth)
  else .ok (.bool false)

/-- Whether one of two conditions holds; the second is not looked at if the first does. -/
def either (left right : Run) : Run := fun scope moment => do
  let a ← left scope (.part moment 0)
  if a.truth then .ok (.bool true)
  else
    let b ← right scope (.part moment 1)
    .ok (.bool b.truth)

/-- Whether a relation holds between two terms. -/
def related (link : Link Run Relation) : Run := fun scope moment => do
  let a ← link.left scope (.part moment 0)
  let b ← link.right scope (.part moment 1)
  let holds ← Value.relates link.head a b
  .ok (.bool holds)

/-- The values of arguments; `index` is the part that the first of them is. -/
def arguments (index : Nat) : List Run → Scope → Moment → Except Fault (List Value)
  | [], _, _ => .ok []
  | arg :: args, scope, moment => do
    let value ← arg scope (.part moment index)
    let values ← arguments (index + 1) args scope moment
    .ok (value :: values)

/-- A call of a function, which is evaluated before its arguments. -/
def called (call : Apply) (callee : Run) (args : List Run) : Run := fun scope moment => do
  let function ← callee scope (.part moment 0)
  let values ← arguments 1 args scope moment
  call (.entry moment) function values

/-- A function of the values of its arguments. -/
def applied (function : List Value → Except Fault Value) (args : List Run) : Run :=
  fun scope moment => do
    let values ← arguments 1 args scope moment
    function values

/-- A closure over the scope at hand, with a program as its body. -/
def closed (helpers : Scope) (parameter : String) (body : Expr) : Run := fun scope moment =>
  .ok (.function (.closure moment parameter body helpers scope))

/-- Any number of operands from left to right. -/
def folded (combine : Run → Run → Run) : List Run → Run
  | [] => nothing
  | first :: more => more.foldl combine first

end Run

end Grapher
