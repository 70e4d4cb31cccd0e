import Grapher.Calculus.Difference
import Grapher.Calculus.Simpson
import Grapher.Native.Eval

/-!
# Calling functions

Functions call programs, and programs call functions. The circle is cut by a limit on how deep
calls may nest: a function at depth `n + 1` runs its program with calls at depth `n`. A program
that applies a function to itself forever thus fails instead of running on.

The limits of an integral are taken as doubles before anything is sampled; a sample that fails
counts as zero, so these two conversions and the interval count are all that can fail.

The samples of an integral and the two of a difference are taken at the moment of the call: what
one of them makes ends with it, as only a number is kept or the difference fails.
-/

set_option autoImplicit false

namespace Grapher

open Calculus (Operations)

namespace Value

/-- The operations of values, where a division by zero fails. -/
def operations : Operations Fault Value where
  add := Value.add
  subtract := Value.subtract
  multiply := Value.multiply
  divide := Value.exactQuotient
  two := .int 2

end Value

/-! ## Integration -/

/-- Whether a number is positive and even. -/
def isEvenCount : Number → Bool
  | .float x =>
    match Double.units? x with
    | some units => 0 < units && units % (2 * Double.unitsPerOne) == 0
    | none => false
  | count =>
    match count.whole? with
    | some n => 0 < n && n % 2 == 0
    | none => false

/-- The interval count as a natural number; it has to be whole by kind, not only by value. -/
def intervalsOf (count : Number) : Except Fault Nat :=
  match count.whole? with
  | some n => .ok n.toNat
  | none => .error .wrongKind

/-- The integral of a sampled function between two limits by Simpson's rule. -/
def integrate (sampled : Float → Except Fault Float) (lower upper : Value) (count : Number) :
    Except Fault Value := do
  if isEvenCount count then
    let a ← lower.double
    let b ← upper.double
    let intervals ← intervalsOf count
    .ok (.float (Calculus.simpson sampled a b intervals))
  else .error (.intervalCount count.display)

/-- The integral between two limits, where the count divides the length of the interval and so has
to be a double as well. -/
def integralBetween (sampled : Float → Except Fault Float) (lower upper : Value) (count : Number) :
    Except Fault Value := do
  if isEvenCount count then
    let a ← lower.double
    let b ← upper.double
    let _ ← count.double
    integrate sampled (.float a) (.float b) count
  else .error (.intervalCount count.display)

/-- A function value sampled at a double. -/
def sampleAt (call : Apply) (moment : Moment) (integrand : Value) (x : Float) :
    Except Fault Float := do
  let value ← call moment integrand [.float x]
  value.double

/-- The interval count that Simpson's rule has when none is given. -/
def defaultIntervals : Nat := 20

/-- The step that a central difference has when none is given. -/
def defaultStep : Float := 0.001

/-! ## Formulas -/

/-- The helpers that a formula can use beside the builtins. -/
def engineHelpers (intervals : Nat) : Scope :=
  [("integral", .function (.integral intervals))]

/-- What a formula makes of a result: numbers pass, anything else is undefined. -/
def resultOf : Value → Number
  | .number a => a
  | _ => .nan

namespace Routine

/-- The result of the program of a formula; a failure is undefined. -/
def evaluate (call : Apply) (intervals : Nat) (scope : Scope) (moment : Moment)
    (routine : Routine) : Number :=
  match routine.program.eval call (engineHelpers intervals) scope moment with
  | .ok value => resultOf value
  | .error _ => .nan

/-- The result of a formula by its native code if it has any, else by its program. -/
def evaluateNative (call : Apply) (intervals : Nat) (scope : Scope) (moment : Moment)
    (routine : Routine) : Number :=
  match routine.native with
  | some code => resultOf (code.run call scope moment)
  | none => routine.evaluate call intervals scope moment

end Routine

/-- The scope in which a formula is taken as a function of its variable. -/
def variableScope (x time : Value) : Scope :=
  [("x", x), ("t", time), ("T", time), ("pi", .float Constant.pi.value),
    ("e", .float Constant.e.value)]

/-! ## Calls -/

namespace Function

/-- The scope of a call: each parameter with its argument, a later parameter before an earlier one
of the same name. -/
def parameterScope (parameters : List String) (args : List Value) : Scope :=
  (parameters.zip args).reverse

/-- What a function gives for arguments, with a meaning of the calls inside it. -/
def applyWith (call : Apply) (moment : Moment) : Function → List Value → Except Fault Value
  | .primitive p, args => p.apply args
  | .lambda _ parameters body, args =>
    if parameters.length = args.length then
      body.eval call [] (parameterScope parameters args) moment
    else .error .wrongKind
  | .closure _ parameter body helpers scope, [value] =>
    body.eval call helpers ((parameter, value) :: scope) moment
  | .quadrature, [integrand, lower, upper] =>
    integralBetween (sampleAt call moment integrand) lower upper (.int defaultIntervals)
  | .quadrature, [integrand, lower, upper, .number count] =>
    integralBetween (sampleAt call moment integrand) lower upper count
  | .integral intervals, [integrand, lower, upper] =>
    integralBetween (sampleAt call moment integrand) lower upper (.int intervals)
  | .formula routine intervals time, [x] =>
    match routine with
    | some routine =>
      .ok (.number (routine.evaluateNative call intervals (variableScope x time) moment))
    | none => .ok .nan
  | .derivative function step, [x] =>
    Calculus.centralDifference Value.operations (fun y => call moment (.function function) [y]) x
      (.number step)
  | _, _ => .error .wrongKind

end Function

/-- Calls nested at most to a given depth. -/
def applyAt : Nat → Apply
  | 0, _, _, _ => .error .tooDeep
  | depth + 1, moment, .function function, args => function.applyWith (applyAt depth) moment args
  | _ + 1, _, _, _ => .error .wrongKind

/-- How deep calls may nest. -/
def depthLimit : Nat := 400

/-- Calls up to the depth limit. -/
def apply : Apply := applyAt depthLimit

end Grapher
