import Grapher.Native.Code
import Grapher.Program.Expr
import Grapher.Value.Moment
import Grapher.Value.Number

/-!
# Values

What a scope can hold: numbers, texts, the absent value, and functions. Functions are given by
what they are made of, so that values are plain data: a builtin, a program with parameters, a
closure over the scope it was made in, the integration rules, a compiled formula as a function of
its variable, or the numerical derivative of another function.
-/

set_option autoImplicit false

namespace Grapher

open Program (Expr)
open Native (Code)

/-- What a valid formula runs: its program, and its native code if it has any. -/
structure Routine where
  program : Expr
  native : Option Code

mutual

/-- A value. -/
inductive Value where
  | number (number : Number)
  | text (text : String)
  | absent
  | function (function : Function)

/-- A function. -/
inductive Function where
  /-- A builtin function. -/
  | primitive (primitive : Primitive)
  /-- A program with parameters and nothing else in its scope; the label tells two of them apart. -/
  | lambda (label : String) (parameters : List String) (body : Expr)
  /-- A binder with the helpers and the scope where it was evaluated, and the moment when. -/
  | closure (birth : Moment) (parameter : String) (body : Expr)
      (helpers scope : List (String × Value))
  /-- Simpson's rule as a function of an integrand, two limits, and perhaps an interval count. -/
  | quadrature
  /-- Simpson's rule with a fixed interval count. -/
  | integral (intervals : Nat)
  /-- A formula as a function of its variable, at a given time and with a given interval count for
  its integrals. A formula without a routine is undefined everywhere. -/
  | formula (routine : Option Routine) (intervals : Nat) (time : Value)
  /-- The central difference of a function with a given step. -/
  | derivative (function : Function) (step : Number)

end

/-- The names that a formula can use, with their values. -/
abbrev Scope := List (String × Value)

namespace Function

/-- Whether two functions are one and the same. Each evaluation of a binder makes a new function,
which is equal to itself only. -/
def same : Function → Function → Bool
  | .primitive p, .primitive q => p == q
  | .lambda label _ _, .lambda other _ _ => label == other
  | .closure birth _ _ _ _, .closure other _ _ _ _ => birth == other
  | .quadrature, .quadrature => true
  | .integral _, .integral _ => true
  | .formula _ _ _, .formula _ _ _ => true
  | .derivative _ _, .derivative _ _ => true
  | _, _ => false

@[simp] theorem same_closure_iff {birth other : Moment} {parameter parameter' : String}
    {body body' : Expr} {helpers scope helpers' scope' : List (String × Value)} :
    same (.closure birth parameter body helpers scope)
      (.closure other parameter' body' helpers' scope') = true ↔ birth = other := by
  simp [same]

end Function

namespace Value

/-- A double as a value. -/
abbrev float (x : Float) : Value := .number (.float x)

/-- An integer as a value. -/
abbrev int (n : Int) : Value := .number (.int n)

/-- A truth value as a value. -/
abbrev bool (b : Bool) : Value := .number (.bool b)

/-- The undefined number as a value. -/
def nan : Value := .number .nan

/-- The number in a value; any other value is of the wrong kind. -/
def asNumber : Value → Except Fault Number
  | .number a => .ok a
  | _ => .error .wrongKind

/-- A value taken as a double; texts are read. -/
def toDouble : Value → Except DoubleError Float
  | .number a => a.toDouble
  | .text s => Decimal.doubleOfText s
  | .absent => .error (.notNumeric .null)
  | .function _ => .error (.notNumeric .function)

/-- A value taken as a double, as a step of an evaluation. -/
def double (value : Value) : Except Fault Float :=
  Fault.ofConversion value.toDouble

/-- Whether a value counts as true: all but zero, the empty text and the absent value do. -/
def truth : Value → Bool
  | .number a => a.truth
  | .text s => s != ""
  | .absent => false
  | .function _ => true

/-- Whether two values are equal; values of different kinds never are. -/
def equal : Value → Value → Bool
  | .number a, .number b => a.relates .equal b
  | .text s, .text t => s == t
  | .absent, .absent => true
  | .function f, .function g => f.same g
  | _, _ => false

/-! ## Arithmetic -/

/-- An operation on two numbers. -/
def onNumbers (operation : Number → Number → Except Fault Number) (a b : Value) :
    Except Fault Value :=
  match a, b with
  | .number a, .number b => do
    let result ← operation a b
    .ok (.number result)
  | _, _ => .error .wrongKind

/-- The sum of numbers, or two texts in a row. -/
def add : Value → Value → Except Fault Value
  | .text s, .text t => .ok (.text (s ++ t))
  | a, b => onNumbers Number.add a b

/-- The difference of numbers. -/
def subtract : Value → Value → Except Fault Value := onNumbers Number.subtract

/-- The bound on the length of a text. -/
def lengthLimit : Nat := 2 ^ 63

/-- A text so many times in a row; a count or a length out of range overflows. -/
def repeated (text : String) (count : Int) : Except Fault Value :=
  if count < -lengthLimit || (lengthLimit : Int) ≤ count then .error .overflow
  else if lengthLimit ≤ text.length * count.toNat then .error .overflow
  else .ok (.text (String.join (List.replicate count.toNat text)))

/-- The product of numbers, or a text repeated. -/
def multiply : Value → Value → Except Fault Value
  | .text s, .number count | .number count, .text s =>
    match count.whole? with
    | some n => repeated s n
    | none => .error .wrongKind
  | a, b => onNumbers Number.multiply a b

/-- The quotient over the extended reals. -/
def quotient : Value → Value → Except Fault Value := onNumbers Number.quotient

/-- The quotient, where a division by zero fails. -/
def exactQuotient : Value → Value → Except Fault Value := onNumbers Number.exactQuotient

/-- The power over the extended reals. -/
def power : Value → Value → Except Fault Value := onNumbers Number.power

/-- The negative of a number. -/
def negate : Value → Except Fault Value
  | .number a => .ok (.number a.negate)
  | _ => .error .wrongKind

/-! ## Comparison -/

/-- The order of two texts, by their characters. -/
def compareTexts (s t : String) : Ordering :=
  if s < t then .lt else if t < s then .gt else .eq

/-- Whether a relation holds between two values. Equality can be asked of any two values; an order
only exists among numbers and among texts. -/
def relates (relation : Relation) (a b : Value) : Except Fault Bool :=
  match relation with
  | .equal => .ok (equal a b)
  | .notEqual => .ok (!equal a b)
  | relation =>
    match a, b with
    | .number a, .number b => .ok (a.relates relation b)
    | .text s, .text t => .ok (Number.holds relation (some (compareTexts s t)))
    | _, _ => .error .wrongKind

end Value

end Grapher
