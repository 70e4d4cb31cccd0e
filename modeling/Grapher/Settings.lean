import Grapher.Text.Blank
import Grapher.Text.Identifier
import Grapher.Value.Number

/-!
# Settings

The step of numerical derivatives, the interval count of integrals, whether native code is made,
and the variable at which a bare derivative is taken. Settings outside of their range are reported
by warnings and replaced where they are used: the step in use is positive, and the interval count
in use is positive and even.
-/

set_option autoImplicit false

namespace Grapher

/-- The settings of formulas. -/
structure Settings where
  derivativeStep : Number
  integralIntervals : Int
  nativeEnabled : Bool
  defaultVariable : String

/-- Why settings given as texts are refused. -/
inductive SettingsError where
  | step (reason : DoubleError)
  | intervals (text : String)

/-- The message of a refusal. -/
def SettingsError.message : SettingsError → String
  | .step reason => reason.message
  | .intervals text => Decimal.notIntegerMessage text

namespace Settings

/-- The step that is used when the given one is not positive. -/
def standardStep : Number := .float 0.001

/-- The settings that hold when nothing else is said. -/
def standard : Settings where
  derivativeStep := standardStep
  integralIntervals := 20
  nativeEnabled := true
  defaultVariable := "x"

/-- The words for a switch that is off. -/
def offWords : List String := ["0", "false", "no", "off", ""]

/-- A switch given as a text: on, unless the text is one of the words for off. -/
def switchOfText (text : String) : Bool :=
  !offWords.contains (String.ofList ((Text.trim text.toList).map Char.toLower))

/-- Settings given as texts; what is not given is standard. -/
def ofTexts (step intervals native : Option String) : Except SettingsError Settings := do
  let step ←
    match step with
    | none => .ok standard.derivativeStep
    | some text =>
      match Decimal.doubleOfText text with
      | .ok x => .ok (.float x)
      | .error reason => .error (.step reason)
  let intervals ←
    match intervals with
    | none => .ok standard.integralIntervals
    | some text =>
      match Decimal.readInt? text with
      | some n => .ok n
      | none => .error (.intervals text)
  .ok { standard with
    derivativeStep := step
    integralIntervals := intervals
    nativeEnabled := (native.map switchOfText).getD true }

/-- What is wrong with settings, in the order of the settings. -/
def warnings (settings : Settings) : List String :=
  let step :=
    if settings.derivativeStep.relates .lessEqual (.int 0) then
      ["derivative_step must be positive, got " ++ settings.derivativeStep.display]
    else []
  let count := Decimal.intText settings.integralIntervals
  let intervals :=
    if settings.integralIntervals ≤ 0 then ["integral_intervals must be positive, got " ++ count]
    else if settings.integralIntervals % 2 ≠ 0 then
      ["integral_intervals must be even for Simpson's rule, got " ++ count]
    else []
  let name :=
    if Text.isIdentifier settings.defaultVariable then []
    else ["default_variable " ++ Text.quoted settings.defaultVariable ++ " is not a valid name"]
  step ++ intervals ++ name

/-- The interval count in use: the least positive even number that is not below the given one. -/
def simpsonIntervals (settings : Settings) : Nat :=
  let count := max 2 settings.integralIntervals
  (count + count % 2).toNat

/-- The step in use. -/
def step (settings : Settings) : Number :=
  if settings.derivativeStep.relates .greater (.int 0) then settings.derivativeStep
  else standardStep

end Settings

end Grapher
