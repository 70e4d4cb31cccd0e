import Grapher.Reading.Term
import Grapher.Tree.Chain

/-!
# Reading a tree

Every node of a tree is annotated with its reading, from the leaves up. The rule for a head looks
at the annotated arguments, as deep into them as it needs: the items of a group, the terms of a
nested chain, the parameter of an integrand. An argument without a reading leaves its parent
without one, so that a tree is read as a whole or not at all.
-/

set_option autoImplicit false

namespace Grapher.Reading

/-- A tree with the reading of each of its nodes. -/
inductive Annotated where
  | mk (node : Node) (term : Option Term) (args : List Annotated)

namespace Annotated

/-- The tree itself. -/
def node : Annotated → Node
  | .mk node _ _ => node

/-- The reading of the tree, if it has one. -/
def term : Annotated → Option Term
  | .mk _ term _ => term

/-- The annotated arguments. -/
def args : Annotated → List Annotated
  | .mk _ _ args => args

/-- The readings of all trees of a list, if each has one. -/
def terms? : List Annotated → Option (List Term)
  | [] => some []
  | first :: rest => do
    let term ← first.term
    let terms ← terms? rest
    some (term :: terms)

/-- The same, for a list that must not be empty. -/
def someTerms? : List Annotated → Option (List Term)
  | [] => none
  | args => terms? args

/-- The tree inside holds and blocks. -/
def unwrapped : Annotated → Annotated
  | .mk (.of .hold _) _ [inner] => inner.unwrapped
  | .mk (.of .block _) _ [inner] => inner.unwrapped
  | other => other

/-- The items of a group in brackets. -/
def groupItems? (group : Annotated) : Option (List Annotated) :=
  match group.node, group.args with
  | .of .delimiter _, [inner] =>
    match inner.node with
    | .of .sequence _ => some inner.args
    | _ => some [inner]
  | .of .delimiter _, items => some items
  | _, _ => none

mutual

/-- What one argument contributes to a chain of comparisons. -/
def spliced : Annotated → Chain (Option Term) Relation
  | .mk node term args =>
    match node, args with
    | .of (.relation relation) _, _ :: _ :: _ => flattened relation args
    | _, _ => ⟨[term], []⟩

/-- The chain of the arguments of a comparison. -/
def flattened (outer : Relation) : List Annotated → Chain (Option Term) Relation
  | [] => ⟨[], []⟩
  | first :: rest =>
    let part := spliced first
    match rest with
    | [] => part
    | _ :: _ =>
      let more := flattened outer rest
      ⟨part.terms ++ more.terms, part.heads ++ outer :: more.heads⟩

end

end Annotated

open Annotated

/-! ## Calls -/

/-- The function whose derivative a prime marks, if it is a plain name. -/
def primedName? : Node → Option String
  | .of .prime [.symbol name] => if isName name then some name else none
  | _ => none

/-- A symbol that reads as a function when a group follows it. -/
def calleeName? : Node → Option String
  | .symbol name => if !isConstantName name && isName name then some name else none
  | _ => none

/-- The call that a tree in front of arguments makes, if it is a primed name or a callee. -/
def application? (head : Node) : Option (List Term → Term) :=
  match primedName? head with
  | some name => some (.derivative name)
  | none => (calleeName? head).map .call

/-- The factors of a juxtaposition. A primed name or a callee takes the group after it as its
arguments. -/
def factors? : List Annotated → Option (List Term)
  | [] => some []
  | [last] => do
    let term ← last.term
    some [term]
  | item :: next :: rest =>
    match next.groupItems?, application? item.node with
    | some items, some apply => do
      let args ← terms? items
      let factors ← factors? rest
      some (apply args :: factors)
    | _, _ => do
      let term ← item.term
      let factors ← factors? (next :: rest)
      some (term :: factors)

/-- The arguments after the head of a tuple; a single group stands for its items. -/
def tupleArguments : List Annotated → List Annotated
  | [only] => only.groupItems?.getD [only]
  | args => args

/-! ## Integrals -/

/-- The integrand of an integral with the parameter it names, which is empty when it names none. A
function without a body has no integrand. -/
def integrand? (argument : Annotated) : Option (String × Option Term) :=
  let inner := argument.unwrapped
  match inner.node, inner.args with
  | .of .function _, body :: parameters => some (parameterName parameters, body.term)
  | .of .lambda _, body :: parameters => some (parameterName parameters, body.term)
  | .of .function _, [] => none
  | .of .lambda _, [] => none
  | _, _ => some ("", inner.term)
where
  /-- The name of the first parameter, if it is a symbol. -/
  parameterName : List Annotated → String
    | first :: _ =>
      match first.node with
      | .symbol name => name
      | _ => ""
    | [] => ""

/-- The limits of an integral with the variable they name, if they name one. -/
def limits? (limits : Annotated) : Option (Option String × Option Term × Option Term) :=
  if [Operator.limits, .triple, .tuple].any limits.node.isOperation then
    match limits.args with
    | [bound, lower, upper] =>
      match bound.node.unwrap (· == .hold) with
      | .symbol name => some (some name, lower.term, upper.term)
      | _ => none
    | [lower, upper] => some (none, lower.term, upper.term)
    | _ => none
  else none

/-- The reading of an integral. A variable that is named nowhere is the default variable. -/
def integral? (fallback : String) (argument limits : Annotated) : Option Term := do
  let (parameter, body) ← integrand? argument
  let (bound, lower, upper) ← limits? limits
  let named := bound.getD parameter
  let name := if named == "" then fallback else named
  if isName name then
    some (.integral name (← body) (← lower) (← upper))
  else none

/-! ## The rules -/

/-- The reading of a chain of comparisons; a single term compares nothing. -/
def chain? (chain : Chain (Option Term) Relation) : Option Term :=
  match chain.heads with
  | [] => none
  | relations => do
    let terms ← chain.terms.mapM id
    some (.chain terms relations)

/-- The reading of a single argument. -/
def single? : List Annotated → Option Term
  | [only] => only.term
  | _ => none

/-- The readings of exactly two arguments. -/
def pair? : List Annotated → Option (Term × Term)
  | [first, second] => do some (← first.term, ← second.term)
  | _ => none

/-- The reading of an operation with an operator as its head. -/
def readOperator (fallback : String) (operator : Operator) (args : List Annotated) : Option Term :=
  match operator with
  | .add => (someTerms? args).map (.joined .add)
  | .subtract => (someTerms? args).map (.joined .subtract)
  | .multiply => (someTerms? args).map (.joined .multiply)
  | .divide | .rational => (pair? args).map fun (a, b) => .quotient a b
  | .power => (pair? args).map fun (a, b) => .power a b
  | .negate => (single? args).map .negate
  | .elementary function =>
    if (function.programName? args.length).isSome then (terms? args).map (.elementary function)
    else none
  | .relation relation => chain? (flattened relation args)
  | .and => (someTerms? args).map (.connective .and)
  | .or => (someTerms? args).map (.connective .or)
  | .not => (single? args).map .not
  | .prime =>
    match args with
    | [only] => (primedName? (.of .prime [only.node])).map .derivativeHere
    | _ => none
  | .invisible => do
    match ← factors? args with
    | [] => none
    | [only] => some only
    | factors => some (.product factors)
  | .delimiter =>
    match args with
    | [only] => if only.node.isOperation .sequence then none else only.term
    | _ => none
  | .hold | .block => single? args
  | .tuple =>
    match args with
    | head :: rest => do
      let apply ← application? head.node
      let terms ← terms? (tupleArguments rest)
      some (apply terms)
    | [] => none
  | .integrate =>
    match args with
    | [argument, limits] => integral? fallback argument limits
    | _ => none
  | .sequence | .function | .lambda | .limits | .triple => none

/-- The reading of an operation. -/
def readOperation (fallback : String) (head : Head) (args : List Annotated) : Option Term :=
  match head with
  | .operator operator => readOperator fallback operator args
  | .call name _ => if isName name then (terms? args).map (.call name) else none

/-- The reading of a symbol: a constant, or a name of a program. -/
def readSymbol (name : String) : Option Term :=
  if isConstantName name || isName name then some (.symbol name) else none

mutual

/-- A tree with the reading of each of its nodes; `fallback` is the default variable. -/
def annotate (fallback : String) : Node → Annotated
  | .number value => .mk (.number value) (some (.number value)) []
  | .symbol name => .mk (.symbol name) (readSymbol name) []
  | .op head nodes =>
    let args := annotateArgs fallback nodes
    .mk (.op head nodes) (readOperation fallback head args) args

/-- Annotated arguments. -/
def annotateArgs (fallback : String) : List Node → List Annotated
  | [] => []
  | node :: nodes => annotate fallback node :: annotateArgs fallback nodes

end

/-- The meaning of a tree with a given default variable, if it has one. -/
def read (fallback : String) (node : Node) : Option Term :=
  (annotate fallback node).term

end Grapher.Reading
