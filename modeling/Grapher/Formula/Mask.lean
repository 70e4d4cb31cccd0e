import Grapher.Formula.Composition

/-!
# Masks of regions

A region is given by groups of conditions: a cell of a grid belongs to it when some group holds as
a whole there. Formulas that cannot be run are left out, and a group without any other formula
never holds. Conditions with native code are asked by it directly, so that any value can answer,
not only a number.
-/

set_option autoImplicit false

namespace Grapher.Formula

/-- Whether the answer of a condition counts as true; the undefined number does not. -/
def isSatisfied : Value → Bool
  | .number a => !a.isNaN && a.truth
  | value => value.truth

/-- The answer of a condition in a scope. -/
def answer (settings : Settings) (scope : Scope) (routine : Routine) : Value :=
  match routine.native with
  | some code => code.run apply scope .start
  | none => .number (routine.evaluate apply settings.simpsonIntervals scope .start)

/-- The scope of a cell. -/
def cellScope (scope : Scope) (x y : Float) : Scope :=
  ("x", .float x) :: ("y", .float y) :: scope

/-- The groups of routines that can hold. -/
def liveGroups (groups : List (List Formula)) : List (List Routine) :=
  (groups.map fun group => group.filterMap routine?).filter (!·.isEmpty)

/-- Whether a cell belongs to the region. -/
def cell (settings : Settings) (groups : List (List Routine)) (scope : Scope) (x y : Float) :
    Bool :=
  groups.any fun group =>
    group.all fun routine => isSatisfied (answer settings (cellScope scope x y) routine)

/-- The mask of a region: a row for each of `ys`, a cell for each of `xs`. -/
def mask (settings : Settings) (groups : List (List Formula)) (xs ys : List Value)
    (scope : Scope) : Except DoubleError (List (List Bool)) := do
  let xs ← xs.mapM coordinate
  let ys ← ys.mapM coordinate
  let live := liveGroups groups
  .ok (ys.map fun y => xs.map fun x => cell settings live scope x y)

end Grapher.Formula
