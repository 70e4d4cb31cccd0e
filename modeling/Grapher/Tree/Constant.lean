/-!
# Named constants of a tree

The three constants that a tree names by a word of its own, and their names in a program.
-/

set_option autoImplicit false

namespace Grapher

/-- The name of the circle constant in a tree. -/
def circleConstant : String := "Pi"

/-- The name of the base of the natural logarithm in a tree. -/
def naturalBase : String := "ExponentialE"

/-- The name of the positive infinity in a tree. -/
def infinityConstant : String := "PositiveInfinity"

/-- The constants of a tree with their names in a program. -/
def constantNames : List (String × String) :=
  [(circleConstant, "pi"), (naturalBase, "e"), (infinityConstant, "Infinity")]

/-- Whether a name of a tree is one of the constants. -/
def isConstantName (name : String) : Bool :=
  (constantNames.lookup name).isSome

/-- The name that a program uses for a name of a tree. -/
def resolveConstant (name : String) : String :=
  (constantNames.lookup name).getD name

end Grapher
