import Grapher.Tree.Head

/-!
# Programs

A program is an expression over numbers and names with calls, arithmetic, comparison chains and
connectives. A binder, a function of one variable, occurs as an argument of a call.
-/

set_option autoImplicit false

namespace Grapher.Program

/-- The arithmetic operations between two operands. -/
inductive Arithmetic where
  | add | subtract | multiply | divide | power
  deriving DecidableEq, Repr

/-- A program. -/
inductive Expr where
  | number (value : Float)
  | name (name : String)
  | negate (operand : Expr)
  | not (operand : Expr)
  | arithmetic (operation : Arithmetic) (left right : Expr)
  | and (left right : Expr)
  | or (left right : Expr)
  | compare (first : Expr) (relations : List Relation) (others : List Expr)
  | call (callee : Expr) (args : List Expr)
  | binder (parameter : String) (body : Expr)

end Grapher.Program
