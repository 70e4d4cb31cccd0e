import Grapher.Program.Writer
import Grapher.Tree.Free

/-!
# Boundaries of a region

A condition that isolates one axis on one side of a comparison draws an edge: the curve on which
the two sides are equal, solid when the edge belongs to the region and dotted when it does not. The
vertical axis is tried first, with the other side free of it; the horizontal axis needs the other
side free of both. Conditions are looked for under connectives and wrappers.
-/

set_option autoImplicit false

namespace Grapher

/-- The axis that an edge isolates. -/
inductive Axis where
  | horizontal | vertical
  deriving DecidableEq, Repr

/-- How an edge is drawn. -/
inductive EdgeStyle where
  | solid | dotted
  deriving DecidableEq, Repr

/-- An edge of a region: where the axis equals the expression. -/
structure Boundary where
  axis : Axis
  text : String
  style : EdgeStyle
  expression : Node

/-- The symbol of an axis. -/
def Axis.name : Axis → String
  | .horizontal => "x"
  | .vertical => "y"

/-- The symbols that the other side must not depend on. -/
def Axis.excluded : Axis → List String
  | .horizontal => ["x", "y"]
  | .vertical => ["y"]

/-- The word for a style. -/
def EdgeStyle.name : EdgeStyle → String
  | .solid => "solid"
  | .dotted => "dotted"

namespace Boundary

/-- The style of the edge of a relation. -/
def styleOf (relation : Relation) : EdgeStyle :=
  if relation.isInclusive then .solid else .dotted

/-- The edge where `side` is the axis itself and `other` is the curve. -/
def isolating? (here : String) (style : EdgeStyle) (axis : Axis) (side other : Node) :
    Option Boundary :=
  if side.isSymbolNamed axis.name && !axis.excluded.any (other.isFree ·) then
    (Program.textOf? here other).map fun text => ⟨axis, text, style, other⟩
  else none

/-- The edge of one link of a chain. -/
def ofLink? (here : String) (link : Link Node Relation) : Option Boundary :=
  let style := styleOf link.head
  [Axis.vertical, .horizontal].findSome? fun axis =>
    (isolating? here style axis link.left link.right).or
      (isolating? here style axis link.right link.left)

/-- The operators under which conditions are looked for. -/
def isPassedThrough : Operator → Bool
  | .and | .or | .not | .delimiter | .hold | .block => true
  | _ => false

mutual

/-- The edges of a condition, from left to right; `here` is the default variable. -/
def ofNode (here : String) : Node → List Boundary
  | .of operator args =>
    match operator with
    | .relation relation =>
      (Node.comparisonChain relation args).links.filterMap (ofLink? here)
    | operator => if isPassedThrough operator then ofNodes here args else []
  | _ => []

/-- The edges of several conditions. -/
def ofNodes (here : String) : List Node → List Boundary
  | [] => []
  | node :: nodes => ofNode here node ++ ofNodes here nodes

end

end Boundary

end Grapher
