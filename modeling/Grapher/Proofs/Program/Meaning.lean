import Grapher.Evaluation.Apply
import Grapher.Evaluation.Run
import Grapher.Proofs.Program.Writing
import Grapher.Proofs.Reading.Rules

/-!
# The meaning of a tree

`evaluate` gives the value of a tree by its shape alone, one clause for each kind of tree, without a
text, tokens or a program in between.
-/

set_option autoImplicit false

namespace Grapher

open Reading Program

namespace Run

/-- A number as it stands in a tree. A number with digits is its own value, the negative zero taken
as zero; the others are looked up by their names. -/
def literal (helpers : Scope) (value : Float) : Run :=
  if value.isNaN then named helpers "NaN"
  else if Double.isInfinite value then
    if value < 0 then negated (named helpers "Infinity") else named helpers "Infinity"
  else constant (.float (if value == 0 then 0 else value))

/-- A factor of a product: a value, or a quotient that is not grouped. -/
inductive Factor where
  | plain (run : Run)
  | quotient (numerator denominator : Run)

/-- A factor at the start of a product. -/
def Factor.first : Factor → Run
  | .plain run => run
  | .quotient numerator denominator => binary .divide numerator denominator

/-- The product of what stands to the left and a factor. A quotient multiplies by its numerator, and
divides the whole by its denominator. -/
def Factor.after (left : Run) : Factor → Run
  | .plain run => binary .multiply left run
  | .quotient numerator denominator => binary .divide (binary .multiply left numerator) denominator

/-- Factors from left to right. -/
def product : List Factor → Run
  | [] => nothing
  | first :: more => more.foldl Factor.after first.first

end Run

namespace Node

/-- The sides of a quotient that stands bare or inside of groups. -/
def bareQuotient? : Node → Option (Node × Node)
  | .of .divide [a, b] | .of .rational [a, b] => some (a, b)
  | .of .delimiter [inner] | .of .hold [inner] | .of .block [inner] | .of .invisible [inner]
  | .of .and [inner] | .of .or [inner] => inner.bareQuotient?
  | _ => none

/-- The function that a tree in front of a group names: a primed name its derivative, a callee
itself. -/
def applicationName? (head : Node) : Option String :=
  match primedName? head with
  | some name => some (derivativeName name)
  | none => calleeName? head

/-- What stands in a juxtaposition: a factor, or a function with the group of its arguments. -/
inductive Juxtaposed where
  | factor (node : Node)
  | application (name : String) (args : List Node)

/-- The factors and applications of a juxtaposition. -/
def juxtaposed : List Node → List Juxtaposed
  | [] => []
  | [last] => [.factor last]
  | head :: group :: rest =>
    match applicationName? head, group.items? with
    | some name, some items => .application name items :: juxtaposed rest
    | _, _ => .factor head :: juxtaposed (group :: rest)

theorem within_bareQuotient {node a b : Node} (found : node.bareQuotient? = some (a, b)) :
    Within a node ∧ Within b node := by
  fun_induction bareQuotient? node with
  | case1 | case2 => cases found; exact ⟨.arg (.head _), .arg (.tail _ (.head _))⟩
  | case3 inner ih | case4 inner ih | case5 inner ih | case6 inner ih | case7 inner ih
  | case8 inner ih =>
    obtain ⟨left, right⟩ := ih found
    exact ⟨.deep (.head _) left, .deep (.head _) right⟩
  | case9 => cases found

theorem within_links {relation : Relation} {head : Head} {args : List Node}
    {link : Link Node Relation} (member : link ∈ (comparisonChain relation args).links) :
    Within link.left (.op head args) ∧ Within link.right (.op head args) := by
  obtain ⟨left, right⟩ := mem_linksOf member
  obtain ⟨outer, among, reaches⟩ := reaches_flattened id relation args left
  obtain ⟨outer', among', reaches'⟩ := reaches_flattened id relation args right
  exact ⟨reaches.sub.within among, reaches'.sub.within among'⟩

theorem within_juxtaposed {head : Head} {nodes all : List Node} (among : ∀ node ∈ nodes, node ∈ all) :
    (∀ {node : Node}, .factor node ∈ juxtaposed nodes → Within node (.op head all)) ∧
    (∀ {name : String} {args : List Node} {node : Node}, .application name args ∈ juxtaposed nodes →
      node ∈ args → Within node (.op head all)) := by
  fun_induction juxtaposed nodes with
  | case1 => exact ⟨fun member => (by cases member), fun member => (by cases member)⟩
  | case2 last =>
    refine ⟨fun member => ?_, fun member => ?_⟩
    · cases List.mem_singleton.mp member
      exact .arg (among _ (.head _))
    · cases List.mem_singleton.mp member
  | case3 first group rest name items isGroup _ ih =>
    obtain ⟨factors, applications⟩ := ih fun node member => among node (.tail _ (.tail _ member))
    refine ⟨fun member => ?_, fun member inside => ?_⟩
    · rcases List.mem_cons.mp member with same | later
      · cases same
      · exact factors later
    · rcases List.mem_cons.mp member with same | later
      · cases same
        exact .deep (among group (.tail _ (.head _))) (within_items isGroup inside)
      · exact applications later inside
  | case4 first group rest _ ih =>
    obtain ⟨factors, applications⟩ := ih fun node member => among node (.tail _ member)
    refine ⟨fun member => ?_, fun member inside => ?_⟩
    · rcases List.mem_cons.mp member with same | later
      · cases same
        exact .arg (among _ (.head _))
      · exact factors later
    · rcases List.mem_cons.mp member with same | later
      · cases same
      · exact applications later inside

/-- The program of a tree on its own. -/
def compiled (here : String) (node : Node) : Expr :=
  match Program.parse (textOf here node) with
  | .ok program => program
  | .error _ => .number 0

mutual

/-- The value of a tree; `here` is the default variable. -/
def evaluate (call : Apply) (helpers : Scope) (here : String) : Node → Run
  | .number value => .literal helpers value
  | .symbol name => .named helpers (resolveConstant name)
  | .op (.call name _) args => .called call (.named helpers name) (args.map (evaluate call helpers here))
  | .of .add args => .folded (.binary .add) (args.map (evaluate call helpers here))
  | .of .subtract args => .folded (.binary .subtract) (args.map (evaluate call helpers here))
  | .of .multiply args => .product (args.map (evaluateFactor call helpers here))
  | .of .divide [a, b] | .of .rational [a, b] =>
    .binary .divide (evaluate call helpers here a) (evaluate call helpers here b)
  | .of .power [a, b] =>
    .binary .power (evaluate call helpers here a) (evaluate call helpers here b)
  | .of .negate [a] => .negated (evaluate call helpers here a)
  | .of (.elementary function) args =>
    .called call (.named helpers ((function.programName? args.length).getD ""))
      (args.map (evaluate call helpers here))
  | .of (.relation relation) args =>
    .folded .both ((comparisonChain relation args).links.attach.map fun ⟨link, _⟩ =>
      .related ⟨link.head, evaluate call helpers here link.left,
        evaluate call helpers here link.right⟩)
  | .of .and args => .folded .both (args.map (evaluate call helpers here))
  | .of .or args => .folded .either (args.map (evaluate call helpers here))
  | .of .not [a] => .denied (evaluate call helpers here a)
  | .of .prime [.symbol name] =>
    .called call (.named helpers (derivativeName name)) [.named helpers here]
  | .of .invisible nodes => .product ((juxtaposed nodes).attach.map fun
      | ⟨.factor node, _⟩ => evaluateFactor call helpers here node
      | ⟨.application name args, _⟩ =>
        .plain (.called call (.named helpers name)
          (args.attach.map fun ⟨arg, _⟩ => evaluate call helpers here arg)))
  | .of .delimiter [a] | .of .hold [a] | .of .block [a] => evaluate call helpers here a
  | .of .tuple (head :: rest) =>
    .called call (.named helpers ((applicationName? head).getD ""))
      ((tupleArguments rest).attach.map fun ⟨arg, _⟩ => evaluate call helpers here arg)
  | .of .integrate [argument, limits] =>
    match argument.integrand?, _ : limits.limits? with
    | some (parameter, body), some (bound, lower, upper) =>
      .called call (.named helpers Program.integralName)
        [.closed helpers (integralName here parameter bound) (compiled here body),
          evaluate call helpers here lower, evaluate call helpers here upper]
    | _, _ => .nothing
  | _ => .nothing
termination_by node => (sizeOf node, 0)
decreasing_by
  all_goals
    apply Prod.Lex.left
    apply Within.sizeOf_lt
    first
    | exact .arg ‹_›
    | exact .arg (.head _)
    | exact .arg (.tail _ (.head _))
    | exact (within_links ‹_›).1
    | exact (within_links ‹_›).2
    | exact (within_juxtaposed fun _ => id).1 ‹_›
    | exact (within_juxtaposed fun _ => id).2 ‹_› ‹_›
    | exact within_tupleArguments ‹_›
    | exact .deep (.tail _ (.head _)) (within_limits ‹_›).1
    | exact .deep (.tail _ (.head _)) (within_limits ‹_›).2

/-- The value of a tree as a factor. -/
def evaluateFactor (call : Apply) (helpers : Scope) (here : String) (node : Node) : Run.Factor :=
  match _ : node.bareQuotient? with
  | some (a, b) => .quotient (evaluate call helpers here a) (evaluate call helpers here b)
  | none => .plain (evaluate call helpers here node)
termination_by (sizeOf node, 1)
decreasing_by
  · exact .left _ _ (within_bareQuotient ‹_›).1.sizeOf_lt
  · exact .left _ _ (within_bareQuotient ‹_›).2.sizeOf_lt
  · exact .right _ Nat.zero_lt_one

end

/-! ## Clauses over the parts of a tree -/

section Clauses

variable (call : Apply) (helpers : Scope) (here : String)

theorem evaluate_relation (relation : Relation) (args : List Node) :
    evaluate call helpers here (.of (.relation relation) args)
      = .folded .both ((comparisonChain relation args).links.map fun link =>
        .related ⟨link.head, link.left.evaluate call helpers here,
          link.right.evaluate call helpers here⟩) := by
  rw [evaluate]
  exact congrArg _ (@List.attach_map_val _ _ (comparisonChain relation args).links fun link =>
    Run.related ⟨link.head, link.left.evaluate call helpers here,
      link.right.evaluate call helpers here⟩)

theorem evaluate_tuple (head : Node) (rest : List Node) :
    evaluate call helpers here (.of .tuple (head :: rest))
      = .called call (.named helpers ((applicationName? head).getD ""))
        ((tupleArguments rest).map (evaluate call helpers here)) := by
  rw [evaluate]
  exact congrArg _ (@List.attach_map_val _ _ (tupleArguments rest) (evaluate call helpers here))

/-- The value of a part of a juxtaposition. -/
def evaluateJuxtaposed : Juxtaposed → Run.Factor
  | .factor node => node.evaluateFactor call helpers here
  | .application name args =>
    .plain (.called call (.named helpers name) (args.map (evaluate call helpers here)))

theorem evaluate_invisible (nodes : List Node) :
    evaluate call helpers here (.of .invisible nodes)
      = .product ((juxtaposed nodes).map (evaluateJuxtaposed call helpers here)) := by
  rw [evaluate, ← @List.attach_map_val _ _ (juxtaposed nodes) (evaluateJuxtaposed call helpers here)]
  congr 2
  funext part
  rcases part with ⟨node | ⟨name, args⟩, _⟩
  · rfl
  · exact congrArg (fun values => Run.Factor.plain (.called call (.named helpers name) values))
      (@List.attach_map_val _ _ args (evaluate call helpers here))

theorem evaluate_integrate {argument limits body lower upper : Node} {parameter : String}
    {bound : Option String} (integrand : argument.integrand? = some (parameter, body))
    (limited : limits.limits? = some (bound, lower, upper)) :
    evaluate call helpers here (.of .integrate [argument, limits])
      = .called call (.named helpers Program.integralName)
        [.closed helpers (integralName here parameter bound) (compiled here body),
          evaluate call helpers here lower, evaluate call helpers here upper] := by
  rw [evaluate, integrand]
  split
  · next same found =>
    cases same
    rw [limited] at found
    cases found
    rfl
  · next other => exact absurd limited (other _ _ _ _ _ rfl)

theorem evaluateFactor_some {node a b : Node} (found : node.bareQuotient? = some (a, b)) :
    node.evaluateFactor call helpers here
      = .quotient (a.evaluate call helpers here) (b.evaluate call helpers here) := by
  rw [evaluateFactor]
  split
  · next same => rw [found] at same; cases same; rfl
  · next same => rw [found] at same; cases same

theorem evaluateFactor_none {node : Node} (found : node.bareQuotient? = none) :
    node.evaluateFactor call helpers here = .plain (node.evaluate call helpers here) := by
  rw [evaluateFactor]
  split
  · next same => rw [found] at same; cases same
  · rfl

end Clauses

end Node

end Grapher
