/-!
# Moments of an evaluation

A moment is the way that an evaluation took to where it is: into which part of an expression it
turned, and where it entered a function that was called. Different parts of one evaluation never
share a moment, so a function that is made during an evaluation is told apart from all others by
the moment at which it was made.
-/

set_option autoImplicit false

namespace Grapher

/-- A moment of an evaluation. -/
inductive Moment where
  /-- The beginning. -/
  | start
  /-- At a part of the expression that is evaluated at an earlier moment. -/
  | part (earlier : Moment) (index : Nat)
  /-- Inside of the function that is called at an earlier moment. -/
  | entry (earlier : Moment)
  deriving DecidableEq, Repr

end Grapher
