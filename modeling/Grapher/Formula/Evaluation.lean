import Grapher.Formula.Basic

/-!
# Evaluating formulas

A formula is evaluated in a scope, by its program or by its native code. The result is always a
number: a formula that cannot be run and an evaluation that fails are undefined. The settings at
the time of the evaluation give the interval count of integrals.
-/

set_option autoImplicit false

namespace Grapher.Formula

/-- The result of the program. -/
def evaluate (settings : Settings) (scope : Scope) (formula : Formula) : Number :=
  match formula.routine? with
  | some routine => routine.evaluate apply settings.simpsonIntervals scope .start
  | none => .nan

/-- The result of the native code, or of the program where there is none. -/
def evaluateNative (settings : Settings) (scope : Scope) (formula : Formula) : Number :=
  match formula.routine? with
  | some routine => routine.evaluateNative apply settings.simpsonIntervals scope .start
  | none => .nan

/-- The truth of a formula as a condition; the undefined number is false. -/
def condition (settings : Settings) (scope : Scope) (formula : Formula) : Bool :=
  let result := formula.evaluateNative settings scope
  !result.isNaN && result.truth

/-- The result of a formula as a double; an integer beyond the doubles is refused. -/
def scalar (settings : Settings) (scope : Scope) (formula : Formula) : Except DoubleError Float :=
  (formula.evaluate settings scope).toDouble

/-- The result of a formula at a place of its variable. -/
def valueAt (settings : Settings) (formula : Formula) (x : Value) : Number :=
  formula.evaluate settings [("x", x)]

/-- The central difference of a formula at a place, with the given step or that of the settings. -/
def derivativeAt (settings : Settings) (formula : Formula) (x : Value) (step : Option Value) :
    Except Fault Value :=
  Calculus.centralDifference Value.operations
    (fun y => .ok (.number (formula.valueAt settings y))) x
    (step.getD (.number settings.step))

/-- The integral of a formula between two limits. -/
def integralOver (settings : Settings) (formula : Formula) (lower upper : Value) :
    Except Fault Value :=
  integralBetween (fun x => (formula.valueAt settings (.float x)).double) lower upper
    (.int settings.simpsonIntervals)

end Grapher.Formula
