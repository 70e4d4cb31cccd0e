import Grapher.Proofs.Reading.Bearing
import Grapher.Proofs.Tree.Occurrences
import Grapher.Value.Builtin
import Mathlib.Logic.Equiv.Defs

/-!
# Trees with their symbols renamed

A permutation of names that moves no word of the language (`KeepsWords`) can be applied to the symbols
of a tree before it is read, or to the names of its reading. Both come to the same for a tree whose
operations have unmoved names for their heads and whose integrals name their variables
(`read_mapSymbols`); since an integral that names its variable does not ask for the default variable,
the two readings may even be taken with different ones.

The statement goes from rule to rule: a rule of reading about a tree is the same rule about the
renamed tree, and whatever the rules allow is a reading (`read_of_rule`).
-/

set_option autoImplicit false

namespace Grapher

open List Node

/-! ## Every rule gives a reading -/

namespace Reading

variable {nodes : List Node} {terms : List Term} {term : Term}

variable {here : String}

theorem terms?_of_readAll (all : ReadAll here nodes terms) :
    Annotated.terms? (nodes.map (annotate here)) = some terms := by
  induction all with
  | nil => rfl
  | cons first _ ih =>
    rw [map_cons, Annotated.terms?, term_annotate, first, ih]
    rfl

theorem someTerms?_of_readAll (some : nodes ≠ []) (all : ReadAll here nodes terms) :
    Annotated.someTerms? (nodes.map (annotate here)) = .some terms := by
  cases nodes with
  | nil => exact absurd rfl some
  | cons node nodes => exact terms?_of_readAll all

theorem application?_of_application {head : Node} {args : List Term}
    (made : Application head args term) :
    ∃ apply, application? head = some apply ∧ apply args = term := by
  cases made with
  | @derivative name primed => exact ⟨.derivative name, by rw [application?, primed], rfl⟩
  | @call name callee =>
    have plain : primedName? head = none := by
      cases head with
      | symbol word => rfl
      | _ => cases callee
    exact ⟨.call name, by rw [application?, plain, callee]; rfl, rfl⟩

theorem factors?_of_factors
    (factors : Factors (fun node term => read here node = some term) nodes terms) :
    factors? (nodes.map (annotate here)) = some terms := by
  induction factors with
  | nil => rfl
  | @plain node nodes term terms alone first _ ih =>
    cases nodes with
    | nil =>
      cases ih
      rw [map_cons, map_nil, factors?, term_annotate, first]
      rfl
    | cons next rest =>
      have apart : application? node = none ∨ next.items? = none := by
        rw [takesNext, Bool.and_eq_false_iff, Option.isSome_eq_false_iff,
          Option.isSome_eq_false_iff, Option.isNone_iff_eq_none, Option.isNone_iff_eq_none] at alone
        exact alone
      rw [factors?_plain apart, first, ih]
      rfl
  | @applied head group items nodes term args terms found all made _ ih =>
    obtain ⟨apply, takes, rfl⟩ := application?_of_application made
    rw [factors?_applied found takes, terms?_of_readAll all, ih]
    rfl

theorem not_sequence_of_read {node : Node} (found : read here node = some term) :
    node.isOperation .sequence = false := by
  cases node with
  | op head nodes =>
    cases head with
    | call name unknown => rfl
    | operator operator =>
      cases operator with
      | sequence => cases found
      | _ => rfl
  | _ => rfl

/-- Whatever the rules allow is a reading. -/
theorem read_of_rule {node : Node}
    (rule : Rule here (fun node term => read here node = some term) node term) :
    read here node = some term := by
  cases rule with
  | number value => rfl
  | @symbol name named =>
    change readSymbol name = _
    rw [readSymbol, if_pos named]
  | joined joiner some all =>
    rw [read_op, readOperation]
    cases joiner <;>
      simp only [Joiner.operator, readOperator, someTerms?_of_readAll some all, Option.map_some]
  | quotient divides first second =>
    rw [read_op, readOperation]
    rcases divides with rfl | rfl <;>
      simp only [readOperator, map_cons, map_nil, pair?, term_annotate, first, second] <;> rfl
  | power first second =>
    rw [read_op, readOperation]
    simp only [readOperator, map_cons, map_nil, pair?, term_annotate, first, second]
    rfl
  | negate only | not only =>
    rw [read_op, readOperation]
    simp only [readOperator, map_cons, map_nil, single?, term_annotate, only]
    rfl
  | elementary takes all =>
    rw [read_op, readOperation, readOperator, length_map, if_pos takes, terms?_of_readAll all]
    rfl
  | chain compares all =>
    rw [comparisonChain] at compares all ⊢
    rw [read_relation, if_neg compares, terms?_of_readAll all]
    rfl
  | connective connective some all =>
    rw [read_op, readOperation]
    cases connective <;>
      simp only [Connective.operator, readOperator, someTerms?_of_readAll some all, Option.map_some]
  | derivativeHere named =>
    rw [read_op, readOperation]
    simp only [readOperator, map_cons, map_nil, node_annotate, primedName?, named, if_true]
    rfl
  | wrapped wraps only =>
    rw [read_op, readOperation]
    simp only [mem_cons, not_mem_nil, or_false] at wraps
    rcases wraps with rfl | rfl | rfl
    · simp only [readOperator, map_cons, map_nil, node_annotate, term_annotate,
        not_sequence_of_read only, only]
      rfl
    · exact only
    · exact only
  | single factors | product factors =>
    rw [read_invisible, factors?_of_factors factors]
    rfl
  | tuple all made =>
    obtain ⟨apply, takes, rfl⟩ := application?_of_application made
    rw [read_op, readOperation]
    simp only [readOperator, map_cons, node_annotate, takes, items_tuple, terms?_of_readAll all]
    rfl
  | call named all =>
    rw [read_op, readOperation, if_pos named, terms?_of_readAll all]
    rfl
  | integral integrand limited named inside low high =>
    rw [read_op, readOperation]
    simp only [readOperator, map_cons, map_nil, integral?, integrand?_annotate,
      limits?_annotate, integrand, limited, Option.map_some, inside, low, high]
    exact if_pos named

end Reading

/-! ## Renaming -/

/-- A permutation of names that keeps the names of a program among themselves, and moves none that
has a meaning of its own. -/
structure KeepsWords (π : Equiv.Perm String) : Prop where
  named : ∀ word, Reading.isName (π word) = Reading.isName word
  empty : π "" = ""
  constant : ∀ word, isConstantName word = true → π word = word
  builtin : ∀ word, isBuiltinName word = true → π word = word
  integral : π Program.integralName = Program.integralName

theorem keepsWords_refl : KeepsWords (Equiv.refl String) :=
  ⟨fun _ => rfl, rfl, fun _ _ => rfl, fun _ _ => rfl, rfl⟩

theorem KeepsWords.isConstantName {π : Equiv.Perm String} (keeps : KeepsWords π) (word : String) :
    isConstantName (π word) = isConstantName word := by
  cases constant : Grapher.isConstantName word with
  | true => rw [keeps.constant word constant, constant]
  | false =>
    rw [← Bool.not_eq_true] at constant ⊢
    intro moved
    rw [π.injective (keeps.constant _ moved)] at moved
    exact constant moved

namespace Node

mutual

/-- The tree with the names of its symbols mapped. -/
def mapSymbols (f : String → String) : Node → Node
  | .number value => .number value
  | .symbol name => .symbol (f name)
  | .op head args => .op head (mapSymbolsArgs f args)

/-- Several trees with the names of their symbols mapped. -/
def mapSymbolsArgs (f : String → String) : List Node → List Node
  | [] => []
  | node :: nodes => mapSymbols f node :: mapSymbolsArgs f nodes

end

/-- Whether a tree names its variable, if it is an integral. -/
def namesVariable : Node → Bool
  | .of .integrate [argument, limits] =>
    match argument.integrand?, limits.limits? with
    | some (parameter, _), some (bound, _, _) => bound.getD parameter != ""
    | _, _ => true
  | _ => true

/-- A tree in which no head of an operation is moved and every integral names its variable. -/
abbrev Renamable (π : Equiv.Perm String) (node : Node) : Prop :=
  node.Throughout fun part =>
    (∀ name, part.headName? = some name → π name = name) ∧ part.namesVariable = true

section Parts

variable {f : String → String}

@[simp] theorem mapSymbolsArgs_eq_map (nodes : List Node) :
    mapSymbolsArgs f nodes = nodes.map (mapSymbols f) := by
  induction nodes with
  | nil => rfl
  | cons node nodes ih => rw [mapSymbolsArgs, ih, map_cons]

@[simp] theorem mapSymbols_op (head : Head) (args : List Node) :
    mapSymbols f (.op head args) = .op head (args.map (mapSymbols f)) := by
  rw [mapSymbols, mapSymbolsArgs_eq_map]

@[simp] theorem args_mapSymbols (node : Node) :
    (node.mapSymbols f).args = node.args.map (mapSymbols f) := by
  cases node with
  | op head args => rw [mapSymbols_op, Node.args, Node.args]
  | _ => rfl

@[simp] theorem isOperation_mapSymbols (operator : Operator) (node : Node) :
    (node.mapSymbols f).isOperation operator = node.isOperation operator := by
  cases node with
  | op head args => rw [mapSymbols_op]; cases head <;> rfl
  | _ => rfl

/-- What holds of the renamed parts of a tree holds of the parts of the renamed tree. -/
theorem throughout_mapSymbols {property : Node → Prop} {node : Node}
    (each : node.Throughout fun part => property (part.mapSymbols f)) :
    (node.mapSymbols f).Throughout property := by
  cases node with
  | number value => exact .number each.here
  | symbol name => exact .symbol each.here
  | op head args =>
    have root := each.here
    rw [mapSymbols_op] at root ⊢
    refine .op root fun part member => ?_
    obtain ⟨arg, among, rfl⟩ := mem_map.mp member
    exact throughout_mapSymbols (each.within (.arg among))
termination_by sizeOf node

theorem mapSymbols_congr {g : String → String} {node : Node}
    (same : node.Throughout fun part => ∀ name, part = .symbol name → f name = g name) :
    node.mapSymbols f = node.mapSymbols g := by
  cases node with
  | number value => rfl
  | symbol name => exact congrArg symbol (same.here name rfl)
  | op head args =>
    rw [mapSymbols_op, mapSymbols_op]
    refine congrArg (op head) (map_congr_left fun arg member => ?_)
    exact mapSymbols_congr (same.within (.arg member))
termination_by sizeOf node

theorem mapSymbols_id (node : Node) : node.mapSymbols id = node := by
  cases node with
  | number value | symbol name => rfl
  | op head args =>
    rw [mapSymbols_op]
    refine congrArg (op head) ((map_congr_left fun arg member => ?_).trans args.map_id)
    exact mapSymbols_id arg
termination_by sizeOf node

theorem items?_mapSymbols (node : Node) :
    (node.mapSymbols f).items? = node.items?.map (·.map (mapSymbols f)) := by
  cases node with
  | op head args =>
    rw [mapSymbols_op]
    cases head with
    | call name unknown => rfl
    | operator operator =>
      cases operator with
      | delimiter =>
        rcases args with _ | ⟨only, _ | ⟨second, more⟩⟩
        · rfl
        · cases only with
          | op inner items =>
            cases inner with
            | call name unknown => rfl
            | operator inside =>
              cases inside with
              | sequence =>
                rw [map_cons, map_nil, mapSymbols_op]
                rfl
              | _ => rfl
          | _ => rfl
        · simp [items?]
      | _ => rfl
  | _ => rfl

theorem tupleArguments_mapSymbols (nodes : List Node) :
    tupleArguments (nodes.map (mapSymbols f)) = (tupleArguments nodes).map (mapSymbols f) := by
  rcases nodes with _ | ⟨only, _ | ⟨second, more⟩⟩
  · rfl
  · rw [map_cons, map_nil, tupleArguments, tupleArguments, items?_mapSymbols]
    cases only.items? <;> rfl
  · rfl

theorem unwrap_mapSymbols (wrapper : Operator → Bool) (node : Node) :
    (node.mapSymbols f).unwrap wrapper = (node.unwrap wrapper).mapSymbols f := by
  fun_induction unwrap wrapper node with
  | case1 operator inner wraps ih => rw [mapSymbols_op, map_cons, map_nil, unwrap, if_pos wraps, ih]
  | case2 operator inner other => rw [mapSymbols_op, map_cons, map_nil, unwrap, if_neg other]
  | case3 node plain =>
    cases node with
    | op head args =>
      rw [mapSymbols_op]
      cases head with
      | call name unknown => simp [unwrap]
      | operator operator =>
        rcases args with _ | ⟨inner, _ | ⟨second, more⟩⟩
        · simp [unwrap]
        · exact absurd rfl (plain operator inner)
        · simp [unwrap]
    | _ => simp [mapSymbols, unwrap]

theorem unheld_mapSymbols (node : Node) : (node.mapSymbols f).unheld = node.unheld.mapSymbols f := by
  fun_induction unheld node with
  | case1 inner ih | case2 inner ih => exact ih
  | case3 node hold block =>
    cases node with
    | op head args =>
      rw [mapSymbols_op]
      cases head with
      | call name unknown => rfl
      | operator operator =>
        cases operator with
        | hold =>
          rcases args with _ | ⟨inner, _ | ⟨second, more⟩⟩
          · rfl
          · exact absurd rfl (hold inner)
          · rfl
        | block =>
          rcases args with _ | ⟨inner, _ | ⟨second, more⟩⟩
          · rfl
          · exact absurd rfl (block inner)
          · rfl
        | _ => rfl
    | _ => rfl

theorem parameterName_mapSymbols (empty : f "" = "") (parameters : List Node) :
    parameterName (parameters.map (mapSymbols f)) = f (parameterName parameters) := by
  rcases parameters with _ | ⟨first, more⟩
  · exact empty.symm
  · cases first with
    | symbol name => rfl
    | _ => exact empty.symm

theorem integrand?_mapSymbols (empty : f "" = "") (argument : Node) :
    (argument.mapSymbols f).integrand?
      = argument.integrand?.map fun found => (f found.1, found.2.mapSymbols f) := by
  unfold integrand?
  rw [unheld_mapSymbols]
  generalize argument.unheld = inner
  cases inner with
  | op head args =>
    rw [mapSymbols_op]
    cases head with
    | call name unknown => simp only [Option.map_some, empty, mapSymbols_op]
    | operator operator =>
      cases operator with
      | function | lambda =>
        cases args with
        | nil => rfl
        | cons body parameters =>
          simp only [map_cons, parameterName_mapSymbols empty, Option.map_some]
      | _ => simp only [Option.map_some, empty, mapSymbols_op]
  | number value | symbol name => simp only [mapSymbols, Option.map_some, empty]

theorem limits?_mapSymbols (limits : Node) :
    (limits.mapSymbols f).limits? = limits.limits?.map fun found =>
      (found.1.map f, found.2.1.mapSymbols f, found.2.2.mapSymbols f) := by
  unfold limits?
  simp only [isOperation_mapSymbols, args_mapSymbols]
  split
  · rcases limits.args with _ | ⟨bound, _ | ⟨lower, _ | ⟨upper, _ | ⟨fourth, more⟩⟩⟩⟩
    · rfl
    · rfl
    · rfl
    · simp only [map_cons, map_nil, unwrap_mapSymbols]
      cases bound.unwrap (· == .hold) <;> rfl
    · rfl
  · rfl

theorem isChain_mapSymbols (node : Node) : (node.mapSymbols f).isChain = node.isChain := by
  cases node with
  | number value | symbol name => rfl
  | op head nodes => rw [mapSymbols_op, Bool.eq_iff_iff, isChain_iff, isChain_iff, length_map]

theorem flattened_mapSymbols {Bond : Type} (bond : Relation → Bond) (outer : Bond)
    (nodes : List Node) : flattened bond outer (nodes.map (mapSymbols f))
      = ⟨(flattened bond outer nodes).terms.map (mapSymbols f), (flattened bond outer nodes).heads⟩ := by
  refine flattened_induction bond (motive := fun outer nodes chain =>
    flattened bond outer (nodes.map (mapSymbols f)) = ⟨chain.terms.map (mapSymbols f), chain.heads⟩)
    rfl ?_ ?_ ?_ outer nodes
  · intro outer node single
    rw [map_singleton, flattened, spliced_term bond ((isChain_mapSymbols node).trans single)]
  · intro outer relation args inner several same
    rw [map_singleton, mapSymbols_op, flattened, spliced_comparison bond (by simpa using several)]
    exact same
  · intro outer first second rest here later same others
    rw [map_singleton, flattened] at same
    rw [map_cons] at others
    rw [map_cons, map_cons, flattened_cons, same, others, map_append]

end Parts

end Node

namespace Reading

namespace Term

mutual

/-- The reading with its names permuted, those of variables of integrals included. -/
def rename (π : Equiv.Perm String) : Term → Term
  | .number value => .number value
  | .symbol name => .symbol (π name)
  | .joined joiner args => .joined joiner (renameArgs π args)
  | .product factors => .product (renameArgs π factors)
  | .quotient numerator denominator => .quotient (numerator.rename π) (denominator.rename π)
  | .power base exponent => .power (base.rename π) (exponent.rename π)
  | .negate operand => .negate (operand.rename π)
  | .elementary function args => .elementary function (renameArgs π args)
  | .chain terms relations => .chain (renameArgs π terms) relations
  | .connective joint args => .connective joint (renameArgs π args)
  | .not operand => .not (operand.rename π)
  | .derivative function args => .derivative (π function) (renameArgs π args)
  | .derivativeHere function => .derivativeHere (π function)
  | .call function args => .call (π function) (renameArgs π args)
  | .integral name body lower upper =>
    .integral (π name) (body.rename π) (lower.rename π) (upper.rename π)

/-- Several readings with their names permuted. -/
def renameArgs (π : Equiv.Perm String) : List Term → List Term
  | [] => []
  | term :: terms => term.rename π :: renameArgs π terms

end

@[simp] theorem renameArgs_eq_map (π : Equiv.Perm String) (terms : List Term) :
    renameArgs π terms = terms.map (rename π) := by
  induction terms with
  | nil => rfl
  | cons term terms ih => rw [renameArgs, ih, map_cons]

mutual

theorem rename_refl : ∀ term : Term, term.rename (Equiv.refl String) = term
  | .number _ | .symbol _ | .derivativeHere _ => rfl
  | .joined _ _ | .product _ | .elementary _ _ | .chain _ _ | .connective _ _ | .derivative _ _
  | .call _ _ => by simp only [rename, renameArgs_refl, Equiv.refl_apply]
  | .quotient _ _ | .power _ _ | .negate _ | .not _ | .integral _ _ _ _ => by
    simp only [rename, rename_refl, Equiv.refl_apply]

theorem renameArgs_refl : ∀ terms : List Term, renameArgs (Equiv.refl String) terms = terms
  | [] => rfl
  | term :: terms => by rw [renameArgs, rename_refl, renameArgs_refl]

end

end Term

section Rules

variable {π : Equiv.Perm String} (keeps : KeepsWords π)

include keeps

theorem primedName?_mapSymbols (head : Node) :
    primedName? (head.mapSymbols π) = (primedName? head).map π := by
  cases head with
  | op head args =>
    rw [mapSymbols_op]
    cases head with
    | call name unknown => rfl
    | operator operator =>
      cases operator with
      | prime =>
        rcases args with _ | ⟨only, _ | ⟨second, more⟩⟩
        · rfl
        · cases only with
          | symbol name =>
            simp only [map_cons, map_nil, mapSymbols, primedName?, keeps.named]
            split <;> rfl
          | number value | op inner args => rfl
        · simp [primedName?]
      | _ => rfl
  | _ => rfl

theorem calleeName?_mapSymbols (head : Node) :
    calleeName? (head.mapSymbols π) = (calleeName? head).map π := by
  cases head with
  | symbol name =>
    simp only [mapSymbols, calleeName?, keeps.isConstantName, keeps.named]
    split <;> rfl
  | number value | op head args => rfl

theorem isSome_application?_mapSymbols (head : Node) :
    (application? (head.mapSymbols π)).isSome = (application? head).isSome := by
  rw [application?, application?, primedName?_mapSymbols keeps, calleeName?_mapSymbols keeps]
  cases primedName? head with
  | some name => rfl
  | none => cases calleeName? head <;> rfl

theorem takesNext_mapSymbols (nodes : List Node) :
    takesNext (nodes.map (mapSymbols π)) = takesNext nodes := by
  rcases nodes with _ | ⟨head, _ | ⟨group, rest⟩⟩
  · rfl
  · rfl
  · rw [map_cons, map_cons, takesNext, takesNext, isSome_application?_mapSymbols keeps,
      items?_mapSymbols, Option.isSome_map]

theorem Application.mapSymbols {head : Node} {args : List Term} {term : Term}
    (made : Application head args term) :
    Application (head.mapSymbols π) (args.map (Term.rename π)) (term.rename π) := by
  cases made with
  | derivative primed =>
    rw [Term.rename, Term.renameArgs_eq_map]
    exact .derivative (by rw [primedName?_mapSymbols keeps, primed]; rfl)
  | call callee =>
    rw [Term.rename, Term.renameArgs_eq_map]
    exact .call (by rw [calleeName?_mapSymbols keeps, callee]; rfl)

variable {R S : Node → Term → Prop}
  (carried : ∀ part term, R part term → S (part.mapSymbols π) (term.rename π))

include carried

omit keeps in
theorem forall₂_mapSymbols {nodes : List Node} {terms : List Term} (all : Forall₂ R nodes terms) :
    Forall₂ S (nodes.map (mapSymbols π)) (terms.map (Term.rename π)) := by
  rw [forall₂_map_left_iff, forall₂_map_right_iff]
  exact all.imp carried

theorem Factors.mapSymbols {nodes : List Node} {terms : List Term} (factors : Factors R nodes terms) :
    Factors S (nodes.map (mapSymbols π)) (terms.map (Term.rename π)) := by
  induction factors with
  | nil => exact .nil
  | plain alone first _ ih =>
    refine .plain ?_ (carried _ _ first) ih
    rw [← map_cons, takesNext_mapSymbols keeps]
    exact alone
  | applied found all made _ ih =>
    exact .applied (by rw [items?_mapSymbols, found]; rfl) (forall₂_mapSymbols carried all)
      (made.mapSymbols keeps) ih

omit carried in
/-- The variable of an integral that names one does not depend on the default variable. -/
theorem integralName_rename {here parameter : String} {bound : Option String} (there : String)
    (some : bound.getD parameter ≠ "") :
    integralName there (π parameter) (bound.map π) = π (integralName here parameter bound) := by
  have moved : (bound.map π).getD (π parameter) = π (bound.getD parameter) := by
    cases bound <;> rfl
  have still : π (bound.getD parameter) ≠ "" := by
    intro none
    rw [← keeps.empty] at none
    exact some (π.injective none)
  rw [integralName, integralName, moved, if_neg (by simpa using still),
    if_neg (by simpa using some)]

/-- A rule about a tree is the same rule about the tree with its symbols renamed. -/
theorem rule_mapSymbols {here : String} (there : String) {node : Node} {term : Term}
    (heads : ∀ name, node.headName? = some name → π name = name)
    (named : node.namesVariable = true) (rule : Rule here R node term) :
    Rule there S (node.mapSymbols π) (term.rename π) := by
  have all := @forall₂_mapSymbols π R S carried
  have factors := @Factors.mapSymbols π keeps R S carried
  cases rule with
  | number value => exact .number value
  | symbol known =>
    refine .symbol ?_
    rw [keeps.isConstantName, keeps.named]
    exact known
  | joined joiner some each =>
    rw [mapSymbols_op, Term.rename, Term.renameArgs_eq_map]
    exact .joined joiner (by simpa using some) (all each)
  | quotient divides first second =>
    rw [mapSymbols_op, Term.rename]
    exact .quotient divides (carried _ _ first) (carried _ _ second)
  | power first second =>
    rw [mapSymbols_op, Term.rename]
    exact .power (carried _ _ first) (carried _ _ second)
  | negate only =>
    rw [mapSymbols_op, Term.rename]
    exact .negate (carried _ _ only)
  | elementary takes each =>
    rw [mapSymbols_op, Term.rename, Term.renameArgs_eq_map]
    exact .elementary (by simpa using takes) (all each)
  | @chain relation nodes terms compares each =>
    have chain := @flattened_mapSymbols π _ id relation nodes
    rw [mapSymbols_op, Term.rename, Term.renameArgs_eq_map]
    rw [← comparisonChain, ← comparisonChain] at chain
    have made := @Rule.chain there S relation (nodes.map (mapSymbols π)) (terms.map (Term.rename π))
      (by rw [chain]; exact compares) (by rw [chain]; exact all each)
    rwa [chain] at made
  | connective connective some each =>
    rw [mapSymbols_op, Term.rename, Term.renameArgs_eq_map]
    exact .connective connective (by simpa using some) (all each)
  | not only =>
    rw [mapSymbols_op, Term.rename]
    exact .not (carried _ _ only)
  | derivativeHere known =>
    rw [mapSymbols_op, Term.rename]
    exact .derivativeHere (by rw [keeps.named]; exact known)
  | wrapped wraps only =>
    rw [mapSymbols_op]
    exact .wrapped wraps (carried _ _ only)
  | single row =>
    rw [mapSymbols_op]
    exact .single (factors row)
  | product row =>
    rw [mapSymbols_op, Term.rename, Term.renameArgs_eq_map]
    exact .product (factors row)
  | tuple each made =>
    rw [mapSymbols_op]
    refine .tuple ?_ (made.mapSymbols keeps)
    rw [tupleArguments_mapSymbols]
    exact all each
  | @call name unknown _ _ known each =>
    rw [mapSymbols_op, Term.rename, Term.renameArgs_eq_map, heads name rfl]
    exact .call known (all each)
  | @integral argument limits body lower upper parameter bound b l u integrand limited known inside
      low high =>
    have some : bound.getD parameter ≠ "" := by
      simpa [namesVariable, integrand, limited] using named
    have same := @integralName_rename π keeps here parameter bound there some
    rw [mapSymbols_op, Term.rename, ← same]
    refine .integral ?_ ?_ ?_ (carried _ _ inside) (carried _ _ low) (carried _ _ high)
    · rw [integrand?_mapSymbols keeps.empty, integrand]
      rfl
    · rw [limits?_mapSymbols, limited]
      rfl
    · rw [same, keeps.named]
      exact known

end Rules

/-- The reading of a tree with renamed symbols is the renamed reading. -/
theorem read_mapSymbols {π : Equiv.Perm String} (keeps : KeepsWords π) {here : String} (there : String)
    {node : Node} {term : Term} (found : read here node = some term) (renamable : node.Renamable π) :
    read there (node.mapSymbols π) = some (term.rename π) := by
  revert renamable
  refine @read_induction here (fun node term => node.Renamable π →
    read there (node.mapSymbols π) = some (term.rename π)) ?_ node term found
  intro node term inside rule renamable
  obtain ⟨heads, named⟩ := renamable.here
  refine read_of_rule (rule_mapSymbols keeps ?_ there heads named rule)
  rintro part partTerm ⟨partFound, within⟩
  exact inside part partTerm within partFound (renamable.within within)

/-- The reading of a tree whose integrals name their variables does not depend on the default
variable. -/
theorem read_of_named {here : String} (there : String) {node : Node} {term : Term}
    (found : read here node = some term)
    (named : node.Throughout fun part => part.namesVariable = true) :
    read there node = some term := by
  have again := read_mapSymbols keepsWords_refl there found
    fun part sub => ⟨fun _ _ => rfl, named part sub⟩
  rw [Term.rename_refl] at again
  rw [← again]
  exact congrArg (read there) (mapSymbols_id node).symm

end Reading

end Grapher
