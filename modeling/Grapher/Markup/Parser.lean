import Grapher.Markup.Scanner

/-!
# From markup tokens to trees

A recursive descent with one function per level of precedence, from the connectives down to single
operands:

* `or`, `and`, `not`,
* relations, which chain,
* sums, products, signs,
* products written by juxtaposition,
* powers and primes,
* numbers, names, groups, bars, function words, fractions and integrals.

Runs of equal operators become one operation with many arguments; relations of mixed kinds nest to
the right. Two facts about the surroundings matter: directly inside bars, a bar closes instead of
opening, and inside an integral, the letter d before a name is the differential.

Every call passes on a smaller budget, so the descent is structural; `parseTokens` starts it with
a budget in proportion to the number of tokens, which no descent uses up.
-/

set_option autoImplicit false

namespace Grapher.Markup

/-- The tokens still to be read. -/
abbrev Rest := List Located

/-- What a parsing function finds: a result and the remaining tokens. -/
abbrev Parsed (α : Type) := α × Rest

/-- What the surroundings make of bars and of the letter d. -/
structure Mode where
  inBars : Bool
  inIntegral : Bool

/-- Outside of bars and integrals. -/
def Mode.plain : Mode := ⟨false, false⟩

/-- The refusal of the token at hand. -/
def misplaced (expectation : Expectation) (rest : Rest) : ParseError :=
  .misplaced expectation rest.head?

/-! ## What stands next -/

/-- Whether the differential of an integral stands next. -/
def atDifferential (mode : Mode) (rest : Rest) : Bool :=
  mode.inIntegral &&
    match rest with
    | ⟨.name letter, _⟩ :: ⟨.name _, _⟩ :: _ => letter == "d"
    | _ => false

/-- Whether an operand stands next that multiplies what came before. -/
def startsOperand (mode : Mode) (rest : Rest) : Bool :=
  !atDifferential mode rest &&
    match rest with
    | ⟨.bar _, _⟩ :: _ => !mode.inBars
    | ⟨.number _, _⟩ :: _ | ⟨.name _, _⟩ :: _ | ⟨.function _ _, _⟩ :: _ | ⟨.fraction, _⟩ :: _
    | ⟨.integral, _⟩ :: _ | ⟨.opening _, _⟩ :: _ | ⟨.braceOpen, _⟩ :: _ => true
    | _ => false

/-- Whether a number or a name stands next that belongs to the bare argument of a function. -/
def continuesArgument (mode : Mode) (rest : Rest) : Bool :=
  !atDifferential mode rest &&
    match rest with
    | ⟨.number _, _⟩ :: _ | ⟨.name _, _⟩ :: _ => true
    | _ => false

/-- The tokens after a closing brace. -/
def afterBrace : Rest → Except ParseError Rest
  | ⟨.braceClose, _⟩ :: rest => .ok rest
  | rest => .error (misplaced .closingBrace rest)

/-- The tokens after a closing bar. -/
def afterBar : Rest → Except ParseError Rest
  | ⟨.bar _, _⟩ :: rest => .ok rest
  | rest => .error (misplaced .closingBar rest)

/-- The tokens after a closing bracket, if it stands next. -/
def afterBracket? (bracket : Bracket) : Rest → Option Rest
  | ⟨.closing other, _⟩ :: rest => if other = bracket then some rest else none
  | _ => none

/-- The tokens after a closing bracket. -/
def afterBracket (bracket : Bracket) (rest : Rest) : Except ParseError Rest :=
  match afterBracket? bracket rest with
  | some rest => .ok rest
  | none => .error (misplaced (.closingBracket bracket) rest)

/-! ## Building trees -/

/-- One operation over a run of operands; a single operand stands for itself. -/
def joined (operator : Operator) (first : Node) (more : List Node) : Node :=
  match more with
  | [] => first
  | _ => .of operator (first :: more)

/-- Relations of mixed kinds, nested to the right. -/
def nestRight (first : Node) : List (Relation × Node) → Node
  | [] => first
  | (relation, next) :: more => .of (.relation relation) [first, nestRight next more]

/-- The tree of a run of relations: flat when all are equal, else nested to the right. -/
def relationTree (first : Node) (more : List (Relation × Node)) : Node :=
  match more with
  | [] => first
  | (relation, _) :: _ =>
    if more.all (·.1 == relation) then .of (.relation relation) (first :: more.map (·.2))
    else nestRight first more

/-- Folds a run of operands with two operators of one level. The first operator collects its
neighbouring operands into one operation; the second takes two operands and ends the collection.
`run` holds the operands collected so far. -/
def foldRun (collecting binary : Operator) (left : Node) (run : List Node) :
    List (Bool × Node) → Node
  | [] => left
  | (true, right) :: more =>
    let run := if run.isEmpty then [left, right] else run ++ [right]
    foldRun collecting binary (.of collecting run) run more
  | (false, right) :: more => foldRun collecting binary (.of binary [left, right]) [] more

/-- The tree of a sum; each operand comes with whether it is added. -/
def sumTree (first : Node) (more : List (Bool × Node)) : Node :=
  foldRun .add .subtract first [] more

/-- The tree of a product; each operand comes with whether it is multiplied. -/
def productTree (first : Node) (more : List (Bool × Node)) : Node :=
  foldRun .multiply .divide first [] more

/-- A tree under a number of primes. -/
def primed : Nat → Node → Node
  | 0, node => node
  | count + 1, node => primed count (.of .prime [node])

/-- Applies the prime marks that stand next. -/
def applyPrimes (node : Node) : Rest → Node × Rest
  | ⟨.prime count, _⟩ :: rest => applyPrimes (primed count node) rest
  | rest => (node, rest)

/-- The symbol of a name; the letter e is the base of the natural logarithm. -/
def nameTree (name : String) : Node :=
  if name == "e" then .symbol naturalBase else .symbol name

/-- The group of the items between brackets. -/
def groupTree : List Node → Node
  | [] => .of .delimiter []
  | [item] => .of .delimiter [item]
  | items => .of .delimiter [.of .sequence items]

/-- The negative of one. -/
def isMinusOne : Node → Bool
  | .of .negate [.number value] => value == 1.0
  | _ => false

/-- The scripts and the index written at a function word. -/
structure Scripts where
  base : Option Node
  power : Option Node

/-- A function word with its exponent, where the exponent -1 makes the inverse of a trigonometric
function. -/
def inverted (function : Elementary) (power : Option Node) : Elementary × Option Node :=
  match power, inverse? function with
  | some power, some inverse =>
    if isMinusOne power then (inverse, none) else (function, some power)
  | power, _ => (function, power)

/-- The tree of a function word with its index, base and arguments. -/
def wordTree (function : Elementary) (index base : Option Node) (args : List Node) : Node :=
  match function, index, base with
  | .sqrt, some index, _ => .of (.elementary .root) (args ++ [index])
  | .log, _, some base => .of (.elementary .log) (args ++ [base])
  | _, _, _ => .of (.elementary function) args

/-- The tree of a function word with its scripts, index and arguments. -/
def functionTree (function : Elementary) (scripts : Scripts) (index : Option Node)
    (args : List Node) : Node :=
  let (function, power) := inverted function scripts.power
  let node := wordTree function index scripts.base args
  match power with
  | some power => .of .power [node, power]
  | none => node

/-- The tree of an integral. -/
def integralTree (body : Node) (name : String) (lower upper : Node) : Node :=
  .of .integrate [
    .of .function [body, .symbol name],
    .of .limits [.symbol name, lower, upper]]

/-- The limits of an integral found so far. -/
structure Limits where
  lower : Option Node
  upper : Option Node

/-- The variable of the differential that stands next, and the tokens after it. -/
def differential (mode : Mode) (rest : Rest) : String × Rest :=
  match atDifferential mode rest, rest with
  | true, _ :: ⟨.name name, _⟩ :: rest => (name, rest)
  | _, _ => ("x", rest)

/-! ## The descent -/

mutual

/-- Operands joined by `or`. -/
def parseOr (budget : Nat) (mode : Mode) (rest : Rest) : Except ParseError (Parsed Node) :=
  match budget with
  | 0 => .error .exhausted
  | budget + 1 => do
    let (first, rest) ← parseAnd budget mode rest
    let (more, rest) ← parseOrTail budget mode rest
    .ok (joined .or first more, rest)
termination_by structural budget

/-- The further operands of a run of `or`. -/
def parseOrTail (budget : Nat) (mode : Mode) (rest : Rest) :
    Except ParseError (Parsed (List Node)) :=
  match budget with
  | 0 => .error .exhausted
  | budget + 1 =>
    match rest with
    | ⟨.sign .or, _⟩ :: rest => do
      let (next, rest) ← parseAnd budget mode rest
      let (more, rest) ← parseOrTail budget mode rest
      .ok (next :: more, rest)
    | rest => .ok ([], rest)
termination_by structural budget

/-- Operands joined by `and`. -/
def parseAnd (budget : Nat) (mode : Mode) (rest : Rest) : Except ParseError (Parsed Node) :=
  match budget with
  | 0 => .error .exhausted
  | budget + 1 => do
    let (first, rest) ← parseNot budget mode rest
    let (more, rest) ← parseAndTail budget mode rest
    .ok (joined .and first more, rest)
termination_by structural budget

/-- The further operands of a run of `and`. -/
def parseAndTail (budget : Nat) (mode : Mode) (rest : Rest) :
    Except ParseError (Parsed (List Node)) :=
  match budget with
  | 0 => .error .exhausted
  | budget + 1 =>
    match rest with
    | ⟨.sign .and, _⟩ :: rest => do
      let (next, rest) ← parseNot budget mode rest
      let (more, rest) ← parseAndTail budget mode rest
      .ok (next :: more, rest)
    | rest => .ok ([], rest)
termination_by structural budget

/-- Any number of `not` before relations. -/
def parseNot (budget : Nat) (mode : Mode) (rest : Rest) : Except ParseError (Parsed Node) :=
  match budget with
  | 0 => .error .exhausted
  | budget + 1 =>
    match rest with
    | ⟨.sign .not, _⟩ :: rest => do
      let (inner, rest) ← parseNot budget mode rest
      .ok (.of .not [inner], rest)
    | rest => parseRelation budget mode rest
termination_by structural budget

/-- Sums joined by relations. -/
def parseRelation (budget : Nat) (mode : Mode) (rest : Rest) : Except ParseError (Parsed Node) :=
  match budget with
  | 0 => .error .exhausted
  | budget + 1 => do
    let (first, rest) ← parseSum budget mode rest
    let (more, rest) ← parseRelationTail budget mode rest
    .ok (relationTree first more, rest)
termination_by structural budget

/-- The further relations of a chain, each with the sum after it. -/
def parseRelationTail (budget : Nat) (mode : Mode) (rest : Rest) :
    Except ParseError (Parsed (List (Relation × Node))) :=
  match budget with
  | 0 => .error .exhausted
  | budget + 1 =>
    match rest with
    | ⟨.sign (.relation relation), _⟩ :: rest => do
      let (next, rest) ← parseSum budget mode rest
      let (more, rest) ← parseRelationTail budget mode rest
      .ok ((relation, next) :: more, rest)
    | rest => .ok ([], rest)
termination_by structural budget

/-- Products joined by plus and minus. -/
def parseSum (budget : Nat) (mode : Mode) (rest : Rest) : Except ParseError (Parsed Node) :=
  match budget with
  | 0 => .error .exhausted
  | budget + 1 => do
    let (first, rest) ← parseProduct budget mode rest
    let (more, rest) ← parseSumTail budget mode rest
    .ok (sumTree first more, rest)
termination_by structural budget

/-- The further operands of a sum, each with whether it is added. -/
def parseSumTail (budget : Nat) (mode : Mode) (rest : Rest) :
    Except ParseError (Parsed (List (Bool × Node))) :=
  match budget with
  | 0 => .error .exhausted
  | budget + 1 =>
    match rest with
    | ⟨.sign .plus, _⟩ :: rest => do
      let (next, rest) ← parseProduct budget mode rest
      let (more, rest) ← parseSumTail budget mode rest
      .ok ((true, next) :: more, rest)
    | ⟨.sign .minus, _⟩ :: rest => do
      let (next, rest) ← parseProduct budget mode rest
      let (more, rest) ← parseSumTail budget mode rest
      .ok ((false, next) :: more, rest)
    | rest => .ok ([], rest)
termination_by structural budget

/-- Signed operands joined by times and division. -/
def parseProduct (budget : Nat) (mode : Mode) (rest : Rest) : Except ParseError (Parsed Node) :=
  match budget with
  | 0 => .error .exhausted
  | budget + 1 => do
    let (first, rest) ← parseSigned budget mode rest
    let (more, rest) ← parseProductTail budget mode rest
    .ok (productTree first more, rest)
termination_by structural budget

/-- The further operands of a product, each with whether it is multiplied. -/
def parseProductTail (budget : Nat) (mode : Mode) (rest : Rest) :
    Except ParseError (Parsed (List (Bool × Node))) :=
  match budget with
  | 0 => .error .exhausted
  | budget + 1 =>
    match rest with
    | ⟨.sign .times, _⟩ :: rest => do
      let (next, rest) ← parseSigned budget mode rest
      let (more, rest) ← parseProductTail budget mode rest
      .ok ((true, next) :: more, rest)
    | ⟨.sign .divide, _⟩ :: rest => do
      let (next, rest) ← parseSigned budget mode rest
      let (more, rest) ← parseProductTail budget mode rest
      .ok ((false, next) :: more, rest)
    | rest => .ok ([], rest)
termination_by structural budget

/-- Any number of signs before a juxtaposition. -/
def parseSigned (budget : Nat) (mode : Mode) (rest : Rest) : Except ParseError (Parsed Node) :=
  match budget with
  | 0 => .error .exhausted
  | budget + 1 =>
    match rest with
    | ⟨.sign .minus, _⟩ :: rest => do
      let (inner, rest) ← parseSigned budget mode rest
      .ok (.of .negate [inner], rest)
    | ⟨.sign .not, _⟩ :: rest => do
      let (inner, rest) ← parseSigned budget mode rest
      .ok (.of .not [inner], rest)
    | ⟨.sign .plus, _⟩ :: rest => parseSigned budget mode rest
    | rest => parseJuxtaposed budget mode rest
termination_by structural budget

/-- Powers written next to each other. -/
def parseJuxtaposed (budget : Nat) (mode : Mode) (rest : Rest) : Except ParseError (Parsed Node) :=
  match budget with
  | 0 => .error .exhausted
  | budget + 1 => do
    let (first, rest) ← parsePower budget mode rest
    let (more, rest) ← parseJuxtaposedTail budget mode rest
    .ok (joined .invisible first more, rest)
termination_by structural budget

/-- The further factors of a juxtaposition. -/
def parseJuxtaposedTail (budget : Nat) (mode : Mode) (rest : Rest) :
    Except ParseError (Parsed (List Node)) :=
  match budget with
  | 0 => .error .exhausted
  | budget + 1 =>
    if startsOperand mode rest then do
      let (next, rest) ← parsePower budget mode rest
      let (more, rest) ← parseJuxtaposedTail budget mode rest
      .ok (next :: more, rest)
    else .ok ([], rest)
termination_by structural budget

/-- An operand with its primes and its exponent. An exponent made of primes alone adds them to the
operand. -/
def parsePower (budget : Nat) (mode : Mode) (rest : Rest) : Except ParseError (Parsed Node) :=
  match budget with
  | 0 => .error .exhausted
  | budget + 1 => do
    let (base, rest) ← parseOperand budget mode rest
    let (base, rest) := applyPrimes base rest
    match rest with
    | ⟨.sign .power, _⟩ :: ⟨.prime count, position⟩ :: rest =>
      .ok (applyPrimes base (⟨.prime count, position⟩ :: rest))
    | ⟨.sign .power, _⟩ :: ⟨.braceOpen, _⟩ :: ⟨.prime count, _⟩ :: ⟨.braceClose, _⟩ :: rest =>
      .ok (primed count base, rest)
    | ⟨.sign .power, _⟩ :: rest => do
      let (exponent, rest) ← parseScript budget mode rest
      .ok (.of .power [base, exponent], rest)
    | ⟨.sign .subscript, position⟩ :: rest =>
      .error (misplaced .noSubscript (⟨.sign .subscript, position⟩ :: rest))
    | rest => .ok (base, rest)
termination_by structural budget

/-- The argument of a script: a group in braces, or one operand with any number of minus signs. -/
def parseScript (budget : Nat) (mode : Mode) (rest : Rest) : Except ParseError (Parsed Node) :=
  match budget with
  | 0 => .error .exhausted
  | budget + 1 =>
    match rest with
    | ⟨.braceOpen, _⟩ :: rest => do
      let (inner, rest) ← parseOr budget mode rest
      let rest ← afterBrace rest
      .ok (inner, rest)
    | ⟨.sign .minus, _⟩ :: rest => do
      let (inner, rest) ← parseScript budget mode rest
      .ok (.of .negate [inner], rest)
    | rest => parseOperand budget mode rest
termination_by structural budget

/-- A single operand. -/
def parseOperand (budget : Nat) (mode : Mode) (rest : Rest) : Except ParseError (Parsed Node) :=
  match budget with
  | 0 => .error .exhausted
  | budget + 1 =>
    match rest with
    | ⟨.number value, _⟩ :: rest => .ok (.number value, rest)
    | ⟨.name name, _⟩ :: rest => .ok (nameTree name, rest)
    | ⟨.opening bracket, _⟩ :: rest => do
      let (items, rest) ← parseItems budget mode bracket rest
      .ok (groupTree items, rest)
    | ⟨.braceOpen, _⟩ :: rest => do
      let (inner, rest) ← parseOr budget mode rest
      let rest ← afterBrace rest
      .ok (inner, rest)
    | ⟨.bar _, _⟩ :: rest => do
      let (inner, rest) ← parseOr budget { mode with inBars := true } rest
      let rest ← afterBar rest
      .ok (.of (.elementary .abs) [inner], rest)
    | ⟨.function word function, _⟩ :: rest => parseFunction budget mode word function rest
    | ⟨.fraction, _⟩ :: rest => do
      let (numerator, rest) ← parseScript budget mode rest
      let (denominator, rest) ← parseScript budget mode rest
      .ok (.of .divide [numerator, denominator], rest)
    | ⟨.integral, _⟩ :: rest => parseIntegral budget mode rest
    | rest => .error (misplaced .operand rest)
termination_by structural budget

/-- The items between brackets, up to the closing one. -/
def parseItems (budget : Nat) (mode : Mode) (bracket : Bracket) (rest : Rest) :
    Except ParseError (Parsed (List Node)) :=
  match budget with
  | 0 => .error .exhausted
  | budget + 1 =>
    match afterBracket? bracket rest with
    | some rest => .ok ([], rest)
    | none => do
      let (items, rest) ← parseItemList budget { mode with inBars := false } rest
      let rest ← afterBracket bracket rest
      .ok (items, rest)
termination_by structural budget

/-- One or more items with commas between them. -/
def parseItemList (budget : Nat) (mode : Mode) (rest : Rest) :
    Except ParseError (Parsed (List Node)) :=
  match budget with
  | 0 => .error .exhausted
  | budget + 1 => do
    let (item, rest) ← parseOr budget mode rest
    match rest with
    | ⟨.comma, _⟩ :: rest => do
      let (items, rest) ← parseItemList budget mode rest
      .ok (item :: items, rest)
    | rest => .ok ([item], rest)
termination_by structural budget

/-- A function word with its scripts, index and arguments. -/
def parseFunction (budget : Nat) (mode : Mode) (word : String) (function : Elementary)
    (rest : Rest) : Except ParseError (Parsed Node) :=
  match budget with
  | 0 => .error .exhausted
  | budget + 1 => do
    let (scripts, rest) ← parseScripts budget mode ⟨none, none⟩ rest
    let (index, rest) ← parseIndex budget mode function rest
    let (args, rest) ← parseArguments budget mode word rest
    .ok (functionTree function scripts index args, rest)
termination_by structural budget

/-- The subscripts and superscripts of a function word; the last of each kind counts. -/
def parseScripts (budget : Nat) (mode : Mode) (scripts : Scripts) (rest : Rest) :
    Except ParseError (Parsed Scripts) :=
  match budget with
  | 0 => .error .exhausted
  | budget + 1 =>
    match rest with
    | ⟨.sign .subscript, _⟩ :: rest => do
      let (base, rest) ← parseScript budget mode rest
      parseScripts budget mode { scripts with base := some base } rest
    | ⟨.sign .power, _⟩ :: rest => do
      let (power, rest) ← parseScript budget mode rest
      parseScripts budget mode { scripts with power := some power } rest
    | rest => .ok (scripts, rest)
termination_by structural budget

/-- The index of a root, in square brackets. -/
def parseIndex (budget : Nat) (mode : Mode) (function : Elementary) (rest : Rest) :
    Except ParseError (Parsed (Option Node)) :=
  match budget with
  | 0 => .error .exhausted
  | budget + 1 =>
    match function, rest with
    | .sqrt, ⟨.opening .square, _⟩ :: rest => do
      let (index, rest) ← parseOr budget mode rest
      let rest ← afterBracket .square rest
      .ok (some index, rest)
    | _, rest => .ok (none, rest)
termination_by structural budget

/-- The arguments of a function word: items in round brackets, a group in braces, or the operands
that follow. -/
def parseArguments (budget : Nat) (mode : Mode) (word : String) (rest : Rest) :
    Except ParseError (Parsed (List Node)) :=
  match budget with
  | 0 => .error .exhausted
  | budget + 1 =>
    match rest with
    | ⟨.opening .round, _⟩ :: rest => parseItems budget mode .round rest
    | ⟨.braceOpen, position⟩ :: rest => do
      let (arg, rest) ← parseScript budget mode (⟨.braceOpen, position⟩ :: rest)
      .ok ([arg], rest)
    | rest =>
      if startsOperand mode rest then do
        let (first, rest) ← parsePower budget mode rest
        let (more, rest) ← parseArgumentTail budget mode rest
        .ok ([joined .invisible first more], rest)
      else .error (misplaced (.argument word) rest)
termination_by structural budget

/-- The numbers and names that continue a bare argument. -/
def parseArgumentTail (budget : Nat) (mode : Mode) (rest : Rest) :
    Except ParseError (Parsed (List Node)) :=
  match budget with
  | 0 => .error .exhausted
  | budget + 1 =>
    if continuesArgument mode rest then do
      let (next, rest) ← parsePower budget mode rest
      let (more, rest) ← parseArgumentTail budget mode rest
      .ok (next :: more, rest)
    else .ok ([], rest)
termination_by structural budget

/-- A definite integral: its limits, its integrand and its differential. Without a differential
the variable is x; a differential alone has the integrand one. -/
def parseIntegral (budget : Nat) (mode : Mode) (rest : Rest) : Except ParseError (Parsed Node) :=
  match budget with
  | 0 => .error .exhausted
  | budget + 1 => do
    let (limits, rest) ← parseLimit budget mode ⟨none, none⟩ rest
    let (limits, rest) ← parseLimit budget mode limits rest
    match limits with
    | ⟨some lower, some upper⟩ => do
      let inner := { mode with inIntegral := true }
      let (body, rest) ←
        if atDifferential inner rest then .ok (Node.one, rest) else parseSum budget inner rest
      let (name, rest) := differential inner rest
      .ok (integralTree body name lower upper, rest)
    | _ => .error .indefiniteIntegral
termination_by structural budget

/-- One limit of an integral, if one stands next. -/
def parseLimit (budget : Nat) (mode : Mode) (limits : Limits) (rest : Rest) :
    Except ParseError (Parsed Limits) :=
  match budget with
  | 0 => .error .exhausted
  | budget + 1 =>
    match rest with
    | ⟨.sign .subscript, _⟩ :: rest => do
      let (lower, rest) ← parseScript budget mode rest
      .ok ({ limits with lower := some lower }, rest)
    | ⟨.sign .power, _⟩ :: rest => do
      let (upper, rest) ← parseScript budget mode rest
      .ok ({ limits with upper := some upper }, rest)
    | rest => .ok (limits, rest)
termination_by structural budget

end

/-! ## Whole formulas -/

/-- The budget for a number of tokens: no path of calls is longer, since at most twelve calls lie
between two tokens. -/
def budgetFor (count : Nat) : Nat := 16 * (count + 1)

/-- The tree of a list of tokens, all of which must be used. -/
def parseTokens (located : List Located) : Except ParseError Node :=
  if located.isEmpty then .error .empty
  else do
    let (node, rest) ← parseOr (budgetFor located.length) .plain located
    match rest with
    | [] => .ok node
    | rest => .error (misplaced .operand rest)

/-- Replaces every occurrence of two characters. -/
def replacePair (first second : Char) (replacement : List Char) : List Char → List Char
  | a :: b :: rest =>
    if a == first && b == second then replacement ++ replacePair first second replacement rest
    else a :: replacePair first second replacement (b :: rest)
  | rest => rest

/-- The text without dollar signs and outer blanks, spacing commands resolved. -/
def prepared (text : List Char) : List Char :=
  let text := text.filter (· != '$')
  let text := replacePair '\\' '!' [] text
  let text := replacePair '\\' ',' [' '] text
  let text := replacePair '\\' ';' [' '] text
  let text := replacePair '\\' ':' [' '] text
  Text.trim text

/-- The tree of a formula. -/
def parse (text : String) : Except ParseError Node := do
  let text := prepared text.toList
  if text.isEmpty then .error .empty
  else
    let located ← scan 0 0 text
    parseTokens located

end Grapher.Markup
