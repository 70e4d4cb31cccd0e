import Grapher.Decimal.Layout
import Grapher.Tree.Head

/-!
# Formula trees

A formula tree is a number, a symbol, or an operation: a head with its arguments. The tree keeps
the shape of what was written; nothing is simplified, reordered or folded.
-/

set_option autoImplicit false

namespace Grapher

/-- A formula tree. -/
inductive Node where
  | number (value : Float)
  | symbol (name : String)
  | op (head : Head) (args : List Node)

namespace Node

/-- An operation whose head is an operator. -/
@[match_pattern] abbrev of (operator : Operator) (args : List Node) : Node :=
  .op (.operator operator) args

/-- The number one. -/
def one : Node := .number 1.0

/-- Whether the tree is a symbol. -/
def isSymbol : Node → Bool
  | .symbol _ => true
  | _ => false

/-- Whether the tree is the symbol of the given name. -/
def isSymbolNamed (wanted : String) : Node → Bool
  | .symbol name => name == wanted
  | _ => false

/-- Whether the tree is a comparison. -/
def isComparison : Node → Bool
  | .of (.relation _) _ => true
  | _ => false

/-- Whether the tree is an operation with the given operator. -/
def isOperation (wanted : Operator) : Node → Bool
  | .of operator _ => operator == wanted
  | _ => false

/-! ## The same tree -/

/-- Numbers that a tree does not tell apart: the two zeros, and the undefined number with
itself. -/
def sameNumber (x y : Float) : Bool :=
  x == y || (x.isNaN && y.isNaN)

mutual

/-- Trees of the same shape with the same names and numbers. -/
def same : Node → Node → Bool
  | .number x, .number y => sameNumber x y
  | .symbol name, .symbol other => name == other
  | .op head args, .op other others => head == other && sameArgs args others
  | _, _ => false

/-- Argument lists of the same length with the same trees. -/
def sameArgs : List Node → List Node → Bool
  | [], [] => true
  | node :: nodes, other :: others => same node other && sameArgs nodes others
  | _, _ => false

end

/-! ## Display -/

/-- The text of a number: a whole number has no point. -/
def numberText (value : Float) : String :=
  match Double.toInt? value with
  | some whole => Decimal.intText whole
  | none => Decimal.doubleText value

mutual

/-- The display text of a tree, with the head before its arguments in parentheses. -/
def text : Node → String
  | .number value => numberText value
  | .symbol name => name
  | .op head args => head.name ++ "(" ++ ", ".intercalate (argTexts args) ++ ")"

/-- The display texts of arguments. -/
def argTexts : List Node → List String
  | [] => []
  | node :: nodes => text node :: argTexts nodes

end

/-! ## Wrappers -/

/-- The tree inside operations of one argument with the given operators. -/
def unwrap (wrapper : Operator → Bool) : Node → Node
  | .of operator [inner] => if wrapper operator then unwrap wrapper inner else .of operator [inner]
  | node => node

end Node

end Grapher
