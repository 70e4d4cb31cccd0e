import Grapher.Formula.Evaluation

/-!
# Formulas over formulas

A world formula sees a player formula through its scope: the value of the player's function at
hand, the function itself, its numerical derivative, and the place and time. A curve samples the
world formula along places; what is not finite is a gap.
-/

set_option autoImplicit false

namespace Grapher

/-- Where and when a player formula is looked at. The two further coordinates default to the place
and to zero. -/
structure Viewpoint where
  place : Value
  time : Value
  across : Option Value
  height : Option Value

namespace Formula

/-- The formula as a function of its variable at a given time. -/
def asFunction (settings : Settings) (player : Formula) (time : Value) : Function :=
  .formula player.routine? settings.simpsonIntervals time

/-- The scope that a world formula sees. -/
def worldScope (settings : Settings) (player : Formula) (view : Viewpoint) : Scope :=
  let function := asFunction settings player view.time
  let here : Number :=
    match player.routine? with
    | some routine =>
      routine.evaluateNative apply settings.simpsonIntervals (variableScope view.place view.time)
        .start
    | none => .nan
  [("f", .number here),
    ("F", .function function),
    ("derivative_f", .function (.derivative function settings.step)),
    ("x", view.place),
    ("X", view.across.getD view.place),
    ("Y", view.height.getD (.float 0)),
    ("t", view.time),
    ("T", view.time),
    ("pi", .float Constant.pi.value),
    ("e", .float Constant.e.value)]

/-- The result of a world formula over a player formula; undefined if one of them cannot be run. -/
def composed (settings : Settings) (world player : Formula) (view : Viewpoint) : Number :=
  if world.isValid && player.isValid then
    world.evaluateNative settings (worldScope settings player view)
  else .nan

/-! ## Curves -/

/-- A place of a curve or a grid as a double; the absent value is undefined. -/
def coordinate : Value → Except DoubleError Float
  | .absent => .ok Double.nan
  | value => value.toDouble

/-- A sample of a curve: a finite value, or a gap. -/
def gapUnlessFinite (x : Float) : Float :=
  if Double.isFinite x then x else Double.nan

/-- The samples of a curve at places given as doubles. -/
def samples (settings : Settings) (world player : Formula) (view : Viewpoint)
    (places : List Float) : Except DoubleError (List Float) :=
  if world.isValid && player.isValid then
    places.mapM fun x => do
      let y ← (composed settings world player { view with place := .float x }).toDouble
      .ok (gapUnlessFinite y)
  else .ok (places.map fun _ => Double.nan)

/-- The curve of a world formula over a player formula along places. -/
def curve (settings : Settings) (world player : Formula) (view : Viewpoint) (places : List Value) :
    Except DoubleError (List Float) := do
  let places ← places.mapM coordinate
  samples settings world player view places

end Formula

end Grapher
