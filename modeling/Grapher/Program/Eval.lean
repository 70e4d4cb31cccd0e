import Grapher.Value.Primitive

/-!
# Running a program

A name is looked up in the scope, then among the helpers, then among the builtins. Operands are
evaluated from left to right, a callee before its arguments; connectives and comparison chains stop
as soon as they are decided. A binder becomes a closure over the scope at hand, born at the moment
of its evaluation. Each of several operands has a moment of its own, and so has a call.

Calling a function is a parameter of the evaluation, so that every statement about programs can be
made for any meaning of calls.
-/

set_option autoImplicit false

namespace Grapher

/-- A meaning of calls: what a value gives when it is called with arguments at a moment. -/
abbrev Apply := Moment → Value → List Value → Except Fault Value

namespace Program

/-- The value of a name. -/
def resolve (helpers scope : Scope) (name : String) : Except Fault Value :=
  match scope.lookup name with
  | some value => .ok value
  | none =>
    match helpers.lookup name with
    | some value => .ok value
    | none =>
      match builtin? name with
      | some value => .ok value
      | none => .error (.undefined name)

/-- The operation of an arithmetic sign. -/
def Arithmetic.apply : Arithmetic → Value → Value → Except Fault Value
  | .add => Value.add
  | .subtract => Value.subtract
  | .multiply => Value.multiply
  | .divide => Value.quotient
  | .power => Value.power

namespace Expr

mutual

/-- The value of a program at a moment. -/
def eval (call : Apply) (helpers scope : Scope) (moment : Moment) : Expr → Except Fault Value
  | .number value => .ok (.float value)
  | .name word => resolve helpers scope word
  | .negate operand => do
    let value ← eval call helpers scope moment operand
    value.negate
  | .not operand => do
    let value ← eval call helpers scope moment operand
    .ok (.bool !value.truth)
  | .arithmetic operation left right => do
    let a ← eval call helpers scope (.part moment 0) left
    let b ← eval call helpers scope (.part moment 1) right
    operation.apply a b
  | .and left right => do
    let a ← eval call helpers scope (.part moment 0) left
    if a.truth then
      let b ← eval call helpers scope (.part moment 1) right
      .ok (.bool b.truth)
    else .ok (.bool false)
  | .or left right => do
    let a ← eval call helpers scope (.part moment 0) left
    if a.truth then .ok (.bool true)
    else
      let b ← eval call helpers scope (.part moment 1) right
      .ok (.bool b.truth)
  | .compare first relations others => do
    let a ← eval call helpers scope (.part moment 0) first
    let holds ← evalChain call helpers scope moment 1 a relations others
    .ok (.bool holds)
  | .call callee args => do
    let function ← eval call helpers scope (.part moment 0) callee
    let values ← evalArgs call helpers scope moment 1 args
    call (.entry moment) function values
  | .binder parameter body => .ok (.function (.closure moment parameter body helpers scope))

/-- Whether each further term of a chain stands in its relation to the term before it; `index` is
the part that the first of them is. -/
def evalChain (call : Apply) (helpers scope : Scope) (moment : Moment) (index : Nat)
    (left : Value) (relations : List Relation) : List Expr → Except Fault Bool
  | [] => .ok true
  | next :: others =>
    match relations with
    | [] => .ok true
    | relation :: relations => do
      let right ← eval call helpers scope (.part moment index) next
      let holds ← Value.relates relation left right
      if holds then evalChain call helpers scope moment (index + 1) right relations others
      else .ok false

/-- The values of arguments; `index` is the part that the first of them is. -/
def evalArgs (call : Apply) (helpers scope : Scope) (moment : Moment) (index : Nat) :
    List Expr → Except Fault (List Value)
  | [] => .ok []
  | arg :: args => do
    let value ← eval call helpers scope (.part moment index) arg
    let values ← evalArgs call helpers scope moment (index + 1) args
    .ok (value :: values)

end

end Expr

end Program

end Grapher
