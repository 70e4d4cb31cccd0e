import Grapher.Tree.Constant
import Grapher.Tree.Head
import Grapher.Text.Identifier

/-!
# What a tree means

The reading of a tree resolves what its shape leaves open: which groups are arguments of a call,
where a derivative is taken, which variable an integral binds, and how comparisons chain. A
program and native code are both written from the reading, so they agree on the meaning of a tree.
-/

set_option autoImplicit false

namespace Grapher.Reading

/-- The operations that join any number of operands, at least one. -/
inductive Joiner where
  | add | subtract | multiply
  deriving DecidableEq, Repr

/-- The connectives of any number of conditions, at least one. -/
inductive Connective where
  | and | or
  deriving DecidableEq, Repr

/-- The meaning of a tree. -/
inductive Term where
  /-- A number. -/
  | number (value : Float)
  /-- A symbol, by its name in the tree. -/
  | symbol (name : String)
  /-- Operands joined from left to right. -/
  | joined (joiner : Joiner) (args : List Term)
  /-- Factors written next to each other, at least two. -/
  | product (factors : List Term)
  | quotient (numerator denominator : Term)
  | power (base exponent : Term)
  | negate (operand : Term)
  /-- An elementary function of as many arguments as it takes. -/
  | elementary (function : Elementary) (args : List Term)
  /-- The links of a chain of at least two terms, all of which must hold. -/
  | chain (terms : List Term) (relations : List Relation)
  | connective (connective : Connective) (args : List Term)
  | not (operand : Term)
  /-- The derivative of a function at given arguments. -/
  | derivative (function : String) (args : List Term)
  /-- The derivative of a function at the default variable. -/
  | derivativeHere (function : String)
  /-- A call of a named function. -/
  | call (function : String) (args : List Term)
  /-- A definite integral over its variable. -/
  | integral (name : String) (body lower upper : Term)

/-- The words that a program uses as connectives, so that they cannot be names. -/
def connectiveWords : List String := ["and", "or", "not"]

/-- Whether a word can be a name of a program. -/
def isName (word : String) : Bool :=
  Text.isIdentifier word && !connectiveWords.contains word

end Grapher.Reading

namespace Grapher.Elementary

/-- The function of a program that stands for an elementary function of so many arguments. One
argument of a logarithm means base ten, one argument of a root the square root. -/
def programName? : Elementary → Nat → Option String
  | .sqrt, 1 => some "sqrt"
  | .root, 1 => some "sqrt"
  | .root, 2 => some "nthRoot"
  | .sin, 1 => some "sin"
  | .cos, 1 => some "cos"
  | .tan, 1 => some "tan"
  | .sec, 1 => some "sec"
  | .csc, 1 => some "csc"
  | .cot, 1 => some "cot"
  | .arcsin, 1 => some "asin"
  | .arccos, 1 => some "acos"
  | .arctan, 1 => some "atan"
  | .sinh, 1 => some "sinh"
  | .cosh, 1 => some "cosh"
  | .tanh, 1 => some "tanh"
  | .abs, 1 => some "abs"
  | .exp, 1 => some "exp"
  | .ln, 1 => some "log"
  | .log, 1 => some "log10"
  | .log, 2 => some "log"
  | .floor, 1 => some "floor"
  | .ceil, 1 => some "ceil"
  | .sign, 1 => some "sign"
  | _, _ => none

end Grapher.Elementary
