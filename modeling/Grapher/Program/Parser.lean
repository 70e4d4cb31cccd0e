import Grapher.Program.Expr
import Grapher.Program.Scanner

/-!
# From program tokens to programs

The grammar, from the loosest to the tightest binding:

* `or`, `and`, then `not`,
* comparisons, which chain,
* sums and differences, products and quotients, from left to right,
* signs,
* powers, whose exponent may carry a sign and so associates to the right,
* calls, which may follow each other,
* numbers, names and groups.

An argument of a call may be a binder, a name with an arrow before the body. Every call of a parsing
function passes on a smaller budget; `parseTokens` starts with one that no descent uses up.
-/

set_option autoImplicit false

namespace Grapher.Program

/-- The tokens still to be read. -/
abbrev Rest := List Token

/-- The tokens after a closing mark. -/
def afterClosing : Rest → Except SyntaxError Rest
  | .mark .closing :: rest => .ok rest
  | rest => .error (.unclosed rest.head?)

/-- A comparison chain; without a relation it is the first operand itself. -/
def comparison (first : Expr) (more : List (Relation × Expr)) : Expr :=
  match more with
  | [] => first
  | _ => .compare first (more.map (·.1)) (more.map (·.2))

mutual

/-- Operands joined by `or`. -/
def parseOr (budget : Nat) (rest : Rest) : Except SyntaxError (Expr × Rest) :=
  match budget with
  | 0 => .error .exhausted
  | budget + 1 => do
    let (left, rest) ← parseAnd budget rest
    parseOrTail budget left rest
termination_by structural budget

/-- What follows the left side of an `or`. -/
def parseOrTail (budget : Nat) (left : Expr) (rest : Rest) : Except SyntaxError (Expr × Rest) :=
  match budget with
  | 0 => .error .exhausted
  | budget + 1 =>
    match rest with
    | .keyword .or :: rest => do
      let (right, rest) ← parseAnd budget rest
      parseOrTail budget (.or left right) rest
    | rest => .ok (left, rest)
termination_by structural budget

/-- Operands joined by `and`. -/
def parseAnd (budget : Nat) (rest : Rest) : Except SyntaxError (Expr × Rest) :=
  match budget with
  | 0 => .error .exhausted
  | budget + 1 => do
    let (left, rest) ← parseNot budget rest
    parseAndTail budget left rest
termination_by structural budget

/-- What follows the left side of an `and`. -/
def parseAndTail (budget : Nat) (left : Expr) (rest : Rest) : Except SyntaxError (Expr × Rest) :=
  match budget with
  | 0 => .error .exhausted
  | budget + 1 =>
    match rest with
    | .keyword .and :: rest => do
      let (right, rest) ← parseNot budget rest
      parseAndTail budget (.and left right) rest
    | rest => .ok (left, rest)
termination_by structural budget

/-- Any number of `not` before a comparison. -/
def parseNot (budget : Nat) (rest : Rest) : Except SyntaxError (Expr × Rest) :=
  match budget with
  | 0 => .error .exhausted
  | budget + 1 =>
    match rest with
    | .keyword .not :: rest => do
      let (operand, rest) ← parseNot budget rest
      .ok (.not operand, rest)
    | rest => parseComparison budget rest
termination_by structural budget

/-- Sums joined by relations. -/
def parseComparison (budget : Nat) (rest : Rest) : Except SyntaxError (Expr × Rest) :=
  match budget with
  | 0 => .error .exhausted
  | budget + 1 => do
    let (first, rest) ← parseSum budget rest
    let (more, rest) ← parseComparisonTail budget rest
    .ok (comparison first more, rest)
termination_by structural budget

/-- The further relations of a chain, each with the sum after it. -/
def parseComparisonTail (budget : Nat) (rest : Rest) :
    Except SyntaxError (List (Relation × Expr) × Rest) :=
  match budget with
  | 0 => .error .exhausted
  | budget + 1 =>
    match rest with
    | .mark (.relation relation) :: rest => do
      let (next, rest) ← parseSum budget rest
      let (more, rest) ← parseComparisonTail budget rest
      .ok ((relation, next) :: more, rest)
    | rest => .ok ([], rest)
termination_by structural budget

/-- Products joined by plus and minus. -/
def parseSum (budget : Nat) (rest : Rest) : Except SyntaxError (Expr × Rest) :=
  match budget with
  | 0 => .error .exhausted
  | budget + 1 => do
    let (left, rest) ← parseProduct budget rest
    parseSumTail budget left rest
termination_by structural budget

/-- What follows the left side of a sum. -/
def parseSumTail (budget : Nat) (left : Expr) (rest : Rest) : Except SyntaxError (Expr × Rest) :=
  match budget with
  | 0 => .error .exhausted
  | budget + 1 =>
    match rest with
    | .mark .plus :: rest => do
      let (right, rest) ← parseProduct budget rest
      parseSumTail budget (.arithmetic .add left right) rest
    | .mark .minus :: rest => do
      let (right, rest) ← parseProduct budget rest
      parseSumTail budget (.arithmetic .subtract left right) rest
    | rest => .ok (left, rest)
termination_by structural budget

/-- Signed operands joined by times and division. -/
def parseProduct (budget : Nat) (rest : Rest) : Except SyntaxError (Expr × Rest) :=
  match budget with
  | 0 => .error .exhausted
  | budget + 1 => do
    let (left, rest) ← parseSigned budget rest
    parseProductTail budget left rest
termination_by structural budget

/-- What follows the left side of a product. -/
def parseProductTail (budget : Nat) (left : Expr) (rest : Rest) :
    Except SyntaxError (Expr × Rest) :=
  match budget with
  | 0 => .error .exhausted
  | budget + 1 =>
    match rest with
    | .mark .times :: rest => do
      let (right, rest) ← parseSigned budget rest
      parseProductTail budget (.arithmetic .multiply left right) rest
    | .mark .divide :: rest => do
      let (right, rest) ← parseSigned budget rest
      parseProductTail budget (.arithmetic .divide left right) rest
    | rest => .ok (left, rest)
termination_by structural budget

/-- Any number of signs before a power; a plus leaves no trace. -/
def parseSigned (budget : Nat) (rest : Rest) : Except SyntaxError (Expr × Rest) :=
  match budget with
  | 0 => .error .exhausted
  | budget + 1 =>
    match rest with
    | .mark .minus :: rest => do
      let (operand, rest) ← parseSigned budget rest
      .ok (.negate operand, rest)
    | .mark .plus :: rest => parseSigned budget rest
    | rest => parsePower budget rest
termination_by structural budget

/-- A base with an optional exponent. -/
def parsePower (budget : Nat) (rest : Rest) : Except SyntaxError (Expr × Rest) :=
  match budget with
  | 0 => .error .exhausted
  | budget + 1 => do
    let (base, rest) ← parseCall budget rest
    match rest with
    | .mark .power :: rest => do
      let (exponent, rest) ← parseSigned budget rest
      .ok (.arithmetic .power base exponent, rest)
    | rest => .ok (base, rest)
termination_by structural budget

/-- An operand with the calls after it. -/
def parseCall (budget : Nat) (rest : Rest) : Except SyntaxError (Expr × Rest) :=
  match budget with
  | 0 => .error .exhausted
  | budget + 1 => do
    let (callee, rest) ← parseOperand budget rest
    parseCallTail budget callee rest
termination_by structural budget

/-- The calls after an operand. -/
def parseCallTail (budget : Nat) (callee : Expr) (rest : Rest) :
    Except SyntaxError (Expr × Rest) :=
  match budget with
  | 0 => .error .exhausted
  | budget + 1 =>
    match rest with
    | .mark .opening :: rest => do
      let (args, rest) ← parseArguments budget rest
      parseCallTail budget (.call callee args) rest
    | rest => .ok (callee, rest)
termination_by structural budget

/-- The arguments of a call, up to the closing mark. -/
def parseArguments (budget : Nat) (rest : Rest) : Except SyntaxError (List Expr × Rest) :=
  match budget with
  | 0 => .error .exhausted
  | budget + 1 =>
    match rest with
    | .mark .closing :: rest => .ok ([], rest)
    | rest => parseArgumentList budget rest
termination_by structural budget

/-- One or more arguments with commas between them, and the closing mark. -/
def parseArgumentList (budget : Nat) (rest : Rest) : Except SyntaxError (List Expr × Rest) :=
  match budget with
  | 0 => .error .exhausted
  | budget + 1 => do
    let (arg, rest) ← parseArgument budget rest
    match rest with
    | .mark .comma :: rest => do
      let (args, rest) ← parseArgumentList budget rest
      .ok (arg :: args, rest)
    | rest => do
      let rest ← afterClosing rest
      .ok ([arg], rest)
termination_by structural budget

/-- An argument: a binder or an expression. -/
def parseArgument (budget : Nat) (rest : Rest) : Except SyntaxError (Expr × Rest) :=
  match budget with
  | 0 => .error .exhausted
  | budget + 1 =>
    match rest with
    | .name parameter :: .mark .arrow :: rest => do
      let (body, rest) ← parseOr budget rest
      .ok (.binder parameter body, rest)
    | rest => parseOr budget rest
termination_by structural budget

/-- A number, a name or a group. -/
def parseOperand (budget : Nat) (rest : Rest) : Except SyntaxError (Expr × Rest) :=
  match budget with
  | 0 => .error .exhausted
  | budget + 1 =>
    match rest with
    | .number value :: rest => .ok (.number value, rest)
    | .name name :: rest => .ok (.name name, rest)
    | .mark .opening :: rest => do
      let (inner, rest) ← parseOr budget rest
      let rest ← afterClosing rest
      .ok (inner, rest)
    | token :: _ => .error (.unexpected token)
    | [] => .error .unexpectedEnd
termination_by structural budget

end

/-- The budget for a number of tokens: no path of calls is longer, since at most twelve calls lie
between two tokens. -/
def budgetFor (count : Nat) : Nat := 16 * (count + 1)

/-- The program of a list of tokens, all of which must be used. -/
def parseTokens (rest : List Token) : Except SyntaxError Expr := do
  let (program, rest) ← parseOr (budgetFor rest.length) rest
  match rest with
  | [] => .ok program
  | token :: _ => .error (.unexpected token)

/-- The program of a text. -/
def parse (text : String) : Except SyntaxError Expr :=
  if (Text.trim text.toList).isEmpty then .error .empty
  else do
    let found ← tokens text
    parseTokens found

end Grapher.Program
