import Grapher.Tree.Basic

/-!
# Free symbols

The symbols of a tree that are not integration variables. An integral binds its variable in the
integrand; the limits lie outside. The variable is the first of three entries of the limits, or
else the parameter of the integrand when that is a function.
-/

set_option autoImplicit false

namespace Grapher.Node

/-- The name that a bound variable has, when it is a symbol under any number of holds. -/
def heldName? (node : Node) : Option String :=
  match node.unwrap (· == .hold) with
  | .symbol name => some name
  | _ => none

/-- The variable named by limits of three entries. -/
def limitsVariable? : List Node → Option String
  | _ :: .op _ (first :: _ :: _ :: _) :: _ => first.heldName?
  | _ => none

/-- The first parameter of a function as integrand. -/
def parameter? : List Node → Option String
  | .of .function (_ :: .symbol name :: _) :: _ => some name
  | .of .lambda (_ :: .symbol name :: _) :: _ => some name
  | _ => none

/-- The variable that an integral with the given arguments binds, empty when it names none. -/
def integrationVariable (args : List Node) : String :=
  ((limitsVariable? args).or (parameter? args)).getD ""

/-- The names bound in an integrand. -/
def boundWith (name : String) (bound : List String) : List String :=
  if name == "" then bound else name :: bound

mutual

/-- The symbols that occur outside the given names, in order of occurrence. -/
def freeOccurrences (bound : List String) : Node → List String
  | .number _ => []
  | .symbol name => if bound.contains name then [] else [name]
  | .op head args =>
    if head == .operator .integrate then
      match args with
      | [] => []
      | integrand :: limits =>
        freeOccurrences (boundWith (integrationVariable args) bound) integrand
          ++ freeOccurrencesArgs bound limits
    else freeOccurrencesArgs bound args

/-- The free occurrences in an argument list. -/
def freeOccurrencesArgs (bound : List String) : List Node → List String
  | [] => []
  | node :: nodes => freeOccurrences bound node ++ freeOccurrencesArgs bound nodes

end

/-- Whether a name is a free symbol of the tree. -/
def isFree (name : String) (node : Node) : Bool :=
  (freeOccurrences [] node).contains name

/-- The free symbols of the tree, each once, in the order of their characters. -/
def freeSymbols (node : Node) : List String :=
  ((freeOccurrences [] node).eraseDups).mergeSort fun first second => !(second < first)

end Grapher.Node
