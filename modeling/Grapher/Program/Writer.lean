import Grapher.Program.Token
import Grapher.Reading.Basic

/-!
# Programs written from readings

The program of a reading as a row of pieces, tokens with blanks where they are set apart. Joined
operands stand in parentheses, and so do the two sides of a quotient and of a power; a quotient
among the factors of a product stands bare.
-/

set_option autoImplicit false

namespace Grapher.Program

open Reading

/-- A mark as a piece. -/
def markPiece (mark : Mark) : Piece := .token (.mark mark)

/-- A name as a piece. -/
def namePiece (name : String) : Piece := .token (.name name)

/-- Pieces in parentheses. -/
def enclosed (pieces : List Piece) : List Piece :=
  markPiece .opening :: pieces ++ [markPiece .closing]

/-- Rows of pieces with a token between them, set apart by blanks. -/
def separated (separator : Token) (parts : List (List Piece)) : List Piece :=
  [.blank, .token separator, .blank].intercalate parts

/-- A call of a function by its name. -/
def callPieces (name : String) (args : List (List Piece)) : List Piece :=
  namePiece name :: enclosed ([markPiece .comma, .blank].intercalate args)

/-- The pieces of a number: a negative one stands in parentheses, and the numbers without digits
have names. -/
def numberPieces (value : Float) : List Piece :=
  if value.isNaN then [namePiece "NaN"]
  else if value < 0 then
    let size := if Double.isInfinite value then namePiece "Infinity" else .token (.number (-value))
    enclosed [markPiece .minus, size]
  else if Double.isInfinite value then [namePiece "Infinity"]
  else [.token (.number (if value == 0 then 0 else value))]

/-- The mark of a joiner. -/
def joinerMark : Joiner → Mark
  | .add => .plus
  | .subtract => .minus
  | .multiply => .times

/-- The word of a connective. -/
def connectiveKeyword : Connective → Keyword
  | .and => .and
  | .or => .or

/-- The name of the derivative of a function. -/
def derivativeName (function : String) : String := "derivative_" ++ function

/-- The name of the integration function. -/
def integralName : String := "integral"

/-- The links of a chain: each in parentheses, and more than one joined by `and`. -/
def chainPieces (terms : List (List Piece)) (relations : List Relation) : List Piece :=
  let links := (Chain.linksOf relations terms).map fun link =>
    enclosed (separated (.mark (.relation link.head)) [link.left, link.right])
  match links with
  | [link] => link
  | links => enclosed (separated (.keyword .and) links)

/-- Conditions joined by a connective; a single one stands for itself. -/
def connectivePieces (connective : Connective) (parts : List (List Piece)) : List Piece :=
  match parts with
  | [only] => only
  | parts => enclosed (separated (.keyword (connectiveKeyword connective)) parts)

mutual

/-- The pieces of a reading; `here` is the default variable. -/
def pieces (here : String) : Term → List Piece
  | .number value => numberPieces value
  | .symbol name => [namePiece (resolveConstant name)]
  | .joined joiner args =>
    enclosed (separated (.mark (joinerMark joiner)) (piecesArgs here args))
  | .product factors => enclosed (separated (.mark .times) (piecesArgs here factors))
  | .quotient numerator denominator =>
    separated (.mark .divide)
      [enclosed (pieces here numerator), enclosed (pieces here denominator)]
  | .power base exponent =>
    separated (.mark .power) [enclosed (pieces here base), enclosed (pieces here exponent)]
  | .negate operand => markPiece .minus :: enclosed (pieces here operand)
  | .elementary function args =>
    callPieces ((function.programName? args.length).getD "") (piecesArgs here args)
  | .chain terms relations => chainPieces (piecesArgs here terms) relations
  | .connective connective args => connectivePieces connective (piecesArgs here args)
  | .not operand => enclosed (.token (.keyword .not) :: .blank :: pieces here operand)
  | .derivative function args => callPieces (derivativeName function) (piecesArgs here args)
  | .derivativeHere function => callPieces (derivativeName function) [[namePiece here]]
  | .call function args => callPieces function (piecesArgs here args)
  | .integral name body lower upper =>
    callPieces integralName [
      namePiece name :: .blank :: markPiece .arrow :: .blank :: pieces here body,
      pieces here lower, pieces here upper]

/-- The pieces of arguments. -/
def piecesArgs (here : String) : List Term → List (List Piece)
  | [] => []
  | term :: terms => pieces here term :: piecesArgs here terms

end

/-- The program text of a tree with a given default variable, if the tree has a reading. -/
def textOf? (here : String) (node : Node) : Option String :=
  (read here node).map fun term => piecesText (pieces here term)

/-- The program text of a tree, empty if the tree has no reading. -/
def textOf (here : String) (node : Node) : String :=
  (textOf? here node).getD ""

/-- The program text of a number. -/
def literalText (value : Float) : String :=
  piecesText (numberPieces value)

end Grapher.Program
