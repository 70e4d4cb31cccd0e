import Grapher.Proofs.Tree.Parts
import Grapher.Reading.Basic
import Mathlib.Data.List.Forall2

/-!
# The rules of reading

A tree is read from annotations that carry the readings of all nodes below it. This module states
what that amounts to on the tree itself: one rule for each way in which a tree comes to its reading,
with the readings of the parts as premises (`Rule`). Every reading is an instance of a rule
(`rule_of_read`), with smaller trees in the premises, so a property of readings that all rules
preserve holds of every reading (`read_induction`).
-/

set_option autoImplicit false

namespace Grapher

/-- From a value that is made of two to the outcomes with the two. -/
theorem some_of_bind {α β γ : Type} {first : Option α} {second : Option β} {make : α → β → γ}
    {result : γ} (found : (do let a ← first; let b ← second; some (make a b)) = some result) :
    ∃ a, first = some a ∧ ∃ b, second = some b ∧ make a b = result := by
  simpa only [Option.bind_eq_bind, Option.bind_eq_some_iff, Option.some.injEq] using found

/-- A name stands for itself, unless it is a constant, which stands for a name of the table. -/
theorem resolveConstant_cases (name : String) :
    isConstantName name = false ∧ resolveConstant name = name ∨
      isConstantName name = true ∧ resolveConstant name ∈ constantNames.map (·.2) := by
  unfold isConstantName resolveConstant
  cases found : constantNames.lookup name with
  | none => exact .inl ⟨rfl, rfl⟩
  | some word =>
    obtain ⟨before, after, shape, -⟩ := List.lookup_eq_some_iff.mp found
    have member : (name, word) ∈ constantNames := by rw [shape]; simp
    exact .inr ⟨rfl, List.mem_map_of_mem member⟩

namespace Reading

open Annotated List

variable {here : String} {nodes : List Node} {terms : List Term} {term : Term}

/-! ## Annotations -/

@[simp] theorem node_annotate (node : Node) : (annotate here node).node = node := by
  cases node <;> rfl

theorem annotateArgs_eq_map (nodes : List Node) :
    annotateArgs here nodes = nodes.map (annotate here) := by
  induction nodes with
  | nil => rfl
  | cons node nodes ih => rw [annotateArgs, ih, map_cons]

@[simp] theorem args_annotate (node : Node) :
    (annotate here node).args = node.args.map (annotate here) := by
  cases node with
  | number value | symbol name => rfl
  | op head nodes => exact annotateArgs_eq_map nodes

@[simp] theorem term_annotate (node : Node) : (annotate here node).term = read here node := rfl

theorem read_op (head : Head) (nodes : List Node) :
    read here (.op head nodes) = readOperation here head (nodes.map (annotate here)) := by
  rw [← annotateArgs_eq_map]
  rfl

/-- The readings of the trees of a list. -/
abbrev ReadAll (here : String) (nodes : List Node) (terms : List Term) : Prop :=
  List.Forall₂ (fun node term => read here node = some term) nodes terms

theorem readAll_of_terms? (found : terms? (nodes.map (annotate here)) = some terms) :
    ReadAll here nodes terms := by
  induction nodes generalizing terms with
  | nil => cases found; exact .nil
  | cons node nodes ih =>
    obtain ⟨term, first, more, rest, rfl⟩ := some_of_bind found
    exact .cons first (ih rest)

theorem readAll_of_someTerms? (found : someTerms? (nodes.map (annotate here)) = some terms) :
    nodes ≠ [] ∧ ReadAll here nodes terms := by
  cases nodes with
  | nil => cases found
  | cons node nodes => exact ⟨cons_ne_nil _ _, readAll_of_terms? found⟩

theorem groupItems?_annotate (node : Node) :
    (annotate here node).groupItems? = node.items?.map (·.map (annotate here)) := by
  cases node with
  | number value | symbol name => rfl
  | op head nodes =>
    cases head with
    | call name unknown => rfl
    | operator operator =>
      cases operator with
      | delimiter =>
        match nodes with
        | [] => rfl
        | [.number value] => rfl
        | [.symbol name] => rfl
        | [.op (.call name unknown) nodes] => rfl
        | [.op (.operator inner) nodes] =>
          cases inner with
          | sequence => exact congrArg some (annotateArgs_eq_map nodes)
          | _ => rfl
        | first :: second :: more =>
          have items : Node.items? (.of .delimiter (first :: second :: more))
              = some (first :: second :: more) := by simp [Node.items?]
          rw [items]
          exact congrArg some (@annotateArgs_eq_map here (first :: second :: more))
      | _ => rfl

theorem flattened_cons (outer : Relation) (first second : Annotated) (rest : List Annotated) :
    flattened outer (first :: second :: rest)
      = ⟨(spliced first).terms ++ (flattened outer (second :: rest)).terms,
        (spliced first).heads ++ outer :: (flattened outer (second :: rest)).heads⟩ := by
  rw [flattened]

theorem spliced_annotate {node : Node} (single : node.isChain = false) :
    spliced (annotate here node) = ⟨[read here node], []⟩ := by
  cases node with
  | number value | symbol name => rfl
  | op head nodes =>
    cases head with
    | call name unknown => simp [annotate, spliced, read, term]
    | operator operator =>
      cases operator with
      | relation relation =>
        rcases nodes with _ | ⟨first, _ | ⟨second, more⟩⟩
        · simp [annotate, annotateArgs, spliced, read, term]
        · simp [annotate, annotateArgs, spliced, read, term]
        · cases single
      | _ => simp [annotate, spliced, read, term]

theorem flattened_annotate (outer : Relation) (nodes : List Node) :
    flattened outer (annotateArgs here nodes)
      = ⟨(Node.flattened id outer nodes).terms.map (read here),
        (Node.flattened id outer nodes).heads⟩ := by
  refine Node.flattened_induction id (motive := fun outer nodes chain =>
    flattened outer (annotateArgs here nodes) = ⟨chain.terms.map (read here), chain.heads⟩)
    rfl ?_ ?_ ?_ outer nodes
  · intro outer node single
    rw [annotateArgs, annotateArgs, flattened, spliced_annotate single]
    rfl
  · intro outer relation args inner several same
    rcases args with _ | ⟨first, _ | ⟨second, more⟩⟩
    · cases several
    · exact absurd several (by simp)
    · simpa only [annotateArgs, annotate, flattened, spliced, id] using same
  · intro outer first second rest here later same others
    rw [annotateArgs, annotateArgs, flattened] at same
    rw [annotateArgs] at others ⊢
    rw [annotateArgs, flattened_cons, same, others, map_append]

theorem unwrapped_annotate (node : Node) :
    (annotate here node).unwrapped = annotate here node.unheld := by
  fun_induction Node.unheld node with
  | case1 inner ih | case2 inner ih => exact ih
  | case3 node hold block =>
    cases node with
    | number value | symbol name => rfl
    | op head nodes =>
      cases head with
      | call name unknown => rfl
      | operator operator =>
        cases operator with
        | hold =>
          rcases nodes with _ | ⟨inner, _ | ⟨second, more⟩⟩
          · rfl
          · exact absurd rfl (hold inner)
          · rfl
        | block =>
          rcases nodes with _ | ⟨inner, _ | ⟨second, more⟩⟩
          · rfl
          · exact absurd rfl (block inner)
          · rfl
        | _ => rfl

/-! ## The rules -/

/-- The operator of a joiner. -/
def Joiner.operator : Joiner → Operator
  | .add => .add
  | .subtract => .subtract
  | .multiply => .multiply

/-- The operator of a connective. -/
def Connective.operator : Connective → Operator
  | .and => .and
  | .or => .or

/-- What a primed name or a callee makes of arguments. -/
inductive Application (head : Node) (args : List Term) : Term → Prop where
  | derivative {name : String} (primed : primedName? head = some name) :
      Application head args (.derivative name args)
  | call {name : String} (callee : calleeName? head = some name) :
      Application head args (.call name args)

/-- Whether the first of some trees takes the next one as its arguments. -/
def takesNext : List Node → Bool
  | head :: group :: _ => (application? head).isSome && group.items?.isSome
  | _ => false

/-- The factors of a juxtaposition. -/
inductive Factors (R : Node → Term → Prop) : List Node → List Term → Prop where
  | nil : Factors R [] []
  | plain {node : Node} {nodes : List Node} {term : Term} {terms : List Term}
      (alone : takesNext (node :: nodes) = false) (first : R node term)
      (rest : Factors R nodes terms) : Factors R (node :: nodes) (term :: terms)
  | applied {head group : Node} {items nodes : List Node} {term : Term} {args terms : List Term}
      (found : group.items? = some items) (all : List.Forall₂ R items args)
      (made : Application head args term) (rest : Factors R nodes terms) :
      Factors R (head :: group :: nodes) (term :: terms)

/-- The rules of reading; `R` relates the parts of a tree to their readings. -/
inductive Rule (here : String) (R : Node → Term → Prop) : Node → Term → Prop where
  | number (value : Float) : Rule here R (.number value) (.number value)
  | symbol {name : String} (named : (isConstantName name || isName name) = true) :
      Rule here R (.symbol name) (.symbol name)
  | joined (joiner : Joiner) {nodes : List Node} {terms : List Term} (some : nodes ≠ [])
      (all : List.Forall₂ R nodes terms) :
      Rule here R (.of joiner.operator nodes) (.joined joiner terms)
  | quotient {operator : Operator} (divides : operator = .divide ∨ operator = .rational)
      {a b : Node} {s t : Term} (first : R a s) (second : R b t) :
      Rule here R (.of operator [a, b]) (.quotient s t)
  | power {a b : Node} {s t : Term} (first : R a s) (second : R b t) :
      Rule here R (.of .power [a, b]) (.power s t)
  | negate {a : Node} {s : Term} (only : R a s) : Rule here R (.of .negate [a]) (.negate s)
  | elementary {function : Elementary} {nodes : List Node} {terms : List Term}
      (takes : (function.programName? nodes.length).isSome = true)
      (all : List.Forall₂ R nodes terms) :
      Rule here R (.of (.elementary function) nodes) (.elementary function terms)
  | chain {relation : Relation} {nodes : List Node} {terms : List Term}
      (compares : (Node.comparisonChain relation nodes).heads ≠ [])
      (all : List.Forall₂ R (Node.comparisonChain relation nodes).terms terms) :
      Rule here R (.of (.relation relation) nodes)
        (.chain terms (Node.comparisonChain relation nodes).heads)
  | connective (connective : Connective) {nodes : List Node} {terms : List Term}
      (some : nodes ≠ []) (all : List.Forall₂ R nodes terms) :
      Rule here R (.of connective.operator nodes) (.connective connective terms)
  | not {a : Node} {s : Term} (only : R a s) : Rule here R (.of .not [a]) (.not s)
  | derivativeHere {name : String} (named : isName name = true) :
      Rule here R (.of .prime [.symbol name]) (.derivativeHere name)
  | wrapped {operator : Operator} (wraps : operator ∈ [Operator.delimiter, .hold, .block])
      {a : Node} {s : Term} (only : R a s) : Rule here R (.of operator [a]) s
  | single {nodes : List Node} {term : Term} (factors : Factors R nodes [term]) :
      Rule here R (.of .invisible nodes) term
  | product {nodes : List Node} {first second : Term} {more : List Term}
      (factors : Factors R nodes (first :: second :: more)) :
      Rule here R (.of .invisible nodes) (.product (first :: second :: more))
  | tuple {head : Node} {rest : List Node} {args : List Term} {term : Term}
      (all : List.Forall₂ R (Node.tupleArguments rest) args) (made : Application head args term) :
      Rule here R (.of .tuple (head :: rest)) term
  | call {name : String} {unknown : Operator.ofName? name = none} {nodes : List Node}
      {terms : List Term} (named : isName name = true) (all : List.Forall₂ R nodes terms) :
      Rule here R (.op (.call name unknown) nodes) (.call name terms)
  | integral {argument limits body lower upper : Node} {parameter : String}
      {bound : Option String} {b l u : Term}
      (integrand : argument.integrand? = some (parameter, body))
      (limited : limits.limits? = some (bound, lower, upper))
      (named : isName (Node.integralName here parameter bound) = true)
      (inside : R body b) (low : R lower l) (high : R upper u) :
      Rule here R (.of .integrate [argument, limits])
        (.integral (Node.integralName here parameter bound) b l u)

/-! ## Every reading follows a rule -/

theorem application_of_application? {head : Node} {apply : List Term → Term}
    (found : application? head = some apply) (args : List Term) :
    Application head args (apply args) := by
  unfold application? at found
  split at found
  · next name primed =>
    cases found
    exact .derivative primed
  · obtain ⟨name, callee, rfl⟩ := Option.map_eq_some_iff.mp found
    exact .call callee

theorem factors_of_factors? :
    ∀ {nodes : List Node} {terms : List Term},
      factors? (nodes.map (annotate here)) = some terms →
        Factors (fun node term => read here node = some term) nodes terms
  | [], terms, found => by cases found; exact .nil
  | [last], terms, found => by
    simp only [map_cons, map_nil, factors?, term_annotate, Option.bind_eq_bind,
      Option.bind_eq_some_iff] at found
    obtain ⟨term, first, same⟩ := found
    cases same
    exact .plain rfl first .nil
  | item :: next :: rest, terms, found => by
    simp only [map_cons, factors?, groupItems?_annotate, node_annotate] at found
    split at found
    · next items apply group head =>
      obtain ⟨nodes, isGroup, rfl⟩ := Option.map_eq_some_iff.mp group
      obtain ⟨args, all, factors, later, rfl⟩ := some_of_bind found
      exact .applied isGroup (readAll_of_terms? all) (application_of_application? head args)
        (factors_of_factors? later)
    · next other =>
      obtain ⟨term, first, factors, later, rfl⟩ := some_of_bind found
      refine .plain ?_ first (@factors_of_factors? (next :: rest) factors later)
      cases head : application? item with
      | none => simp [takesNext, head]
      | some apply =>
        cases group : next.items? with
        | none => simp [takesNext, group]
        | some nodes => exact absurd head (other _ apply (by rw [group]; rfl))

theorem items_tuple (nodes : List Node) :
    Reading.tupleArguments (nodes.map (annotate here))
      = (Node.tupleArguments nodes).map (annotate here) := by
  match nodes with
  | [] => rfl
  | [only] =>
    simp only [map_cons, map_nil, Reading.tupleArguments, Node.tupleArguments, groupItems?_annotate]
    cases only.items? <;> rfl
  | first :: second :: more => rfl

theorem parameterName_annotate (parameters : List Node) :
    integrand?.parameterName (parameters.map (annotate here)) = Node.parameterName parameters := by
  match parameters with
  | [] => rfl
  | .number value :: _ => rfl
  | .symbol name :: _ => rfl
  | .op head nodes :: _ => rfl

theorem integrand?_annotate (argument : Node) :
    Reading.integrand? (annotate here argument)
      = argument.integrand?.map fun (parameter, body) => (parameter, read here body) := by
  unfold Reading.integrand? Node.integrand?
  rw [unwrapped_annotate]
  generalize argument.unheld = inner
  simp only [node_annotate, args_annotate]
  cases inner with
  | number value | symbol name => rfl
  | op head nodes =>
    cases head with
    | call name unknown => rfl
    | operator operator =>
      cases operator with
      | function | lambda =>
        cases nodes with
        | nil => rfl
        | cons body parameters =>
          simp only [Node.args, map_cons, parameterName_annotate, term_annotate, Option.map_some]
      | _ => rfl

theorem limits?_annotate (limits : Node) :
    Reading.limits? (annotate here limits)
      = limits.limits?.map fun (bound, lower, upper) =>
        (bound, read here lower, read here upper) := by
  unfold Reading.limits? Node.limits?
  simp only [node_annotate, args_annotate]
  split
  · rcases limits.args with _ | ⟨bound, _ | ⟨lower, _ | ⟨upper, _ | ⟨fourth, more⟩⟩⟩⟩
    · rfl
    · rfl
    · rfl
    · simp only [map_cons, map_nil, node_annotate, term_annotate]
      cases bound.unwrap (· == .hold) <;> rfl
    · rfl
  · rfl

theorem pair_of_pair? {s t : Term} (found : pair? (nodes.map (annotate here)) = some (s, t)) :
    ∃ a b, nodes = [a, b] ∧ read here a = some s ∧ read here b = some t := by
  match nodes with
  | [] => cases found
  | [only] => cases found
  | [a, b] =>
    simp only [map_cons, map_nil, pair?, term_annotate, Option.bind_eq_bind,
      Option.bind_eq_some_iff] at found
    obtain ⟨s', first, t', second, same⟩ := found
    cases same
    exact ⟨a, b, rfl, first, second⟩
  | first :: second :: third :: more => cases found

theorem single_of_single? {s : Term} (found : single? (nodes.map (annotate here)) = some s) :
    ∃ a, nodes = [a] ∧ read here a = some s := by
  match nodes with
  | [] => cases found
  | [only] => exact ⟨only, rfl, found⟩
  | first :: second :: more => cases found

theorem readAll_of_mapM (found : (nodes.map (read here)).mapM id = some terms) :
    ReadAll here nodes terms := by
  induction nodes generalizing terms with
  | nil => cases found; exact .nil
  | cons node nodes ih =>
    rw [map_cons, mapM_cons] at found
    obtain ⟨term, first, more, rest, rfl⟩ := some_of_bind found
    exact .cons first (ih rest)

theorem rule_of_readOperator {operator : Operator}
    (found : readOperator here operator (nodes.map (annotate here)) = some term) :
    Rule here (fun node term => read here node = some term) (.of operator nodes) term := by
  have joined : ∀ joiner : Joiner,
      (someTerms? (nodes.map (annotate here))).map (.joined joiner) = some term →
      Rule here (fun node term => read here node = some term) (.of joiner.operator nodes) term := by
    intro joiner found
    obtain ⟨terms, all, rfl⟩ := Option.map_eq_some_iff.mp found
    obtain ⟨some, all⟩ := readAll_of_someTerms? all
    exact .joined joiner some all
  have connected : ∀ connective : Connective,
      (someTerms? (nodes.map (annotate here))).map (.connective connective) = some term →
      Rule here (fun node term => read here node = some term) (.of connective.operator nodes)
        term := by
    intro connective found
    obtain ⟨terms, all, rfl⟩ := Option.map_eq_some_iff.mp found
    obtain ⟨some, all⟩ := readAll_of_someTerms? all
    exact .connective connective some all
  have wrapped : ∀ {operator : Operator}, operator ∈ [Operator.delimiter, .hold, .block] →
      single? (nodes.map (annotate here)) = some term →
      Rule here (fun node term => read here node = some term) (.of operator nodes) term := by
    intro operator wraps found
    obtain ⟨a, rfl, only⟩ := single_of_single? found
    exact .wrapped wraps only
  cases operator with
  | add => exact joined .add found
  | subtract => exact joined .subtract found
  | multiply => exact joined .multiply found
  | divide =>
    obtain ⟨⟨s, t⟩, pair, rfl⟩ := Option.map_eq_some_iff.mp found
    obtain ⟨a, b, rfl, first, second⟩ := pair_of_pair? pair
    exact .quotient (.inl rfl) first second
  | rational =>
    obtain ⟨⟨s, t⟩, pair, rfl⟩ := Option.map_eq_some_iff.mp found
    obtain ⟨a, b, rfl, first, second⟩ := pair_of_pair? pair
    exact .quotient (.inr rfl) first second
  | power =>
    obtain ⟨⟨s, t⟩, pair, rfl⟩ := Option.map_eq_some_iff.mp found
    obtain ⟨a, b, rfl, first, second⟩ := pair_of_pair? pair
    exact .power first second
  | negate =>
    obtain ⟨s, single, rfl⟩ := Option.map_eq_some_iff.mp found
    obtain ⟨a, rfl, only⟩ := single_of_single? single
    exact .negate only
  | elementary function =>
    simp only [readOperator, length_map] at found
    split at found
    · next takes =>
      obtain ⟨terms, all, rfl⟩ := Option.map_eq_some_iff.mp found
      exact .elementary takes (readAll_of_terms? all)
    · cases found
  | relation relation =>
    simp only [readOperator] at found
    rw [← annotateArgs_eq_map, flattened_annotate] at found
    unfold chain? at found
    split at found
    · cases found
    · next compares =>
      simp only [Option.bind_eq_bind, Option.bind_eq_some_iff] at found
      obtain ⟨terms, all, same⟩ := found
      cases same
      exact .chain compares (readAll_of_mapM all)
  | and => exact connected .and found
  | or => exact connected .or found
  | not =>
    obtain ⟨s, single, rfl⟩ := Option.map_eq_some_iff.mp found
    obtain ⟨a, rfl, only⟩ := single_of_single? single
    exact .not only
  | prime =>
    match nodes with
    | [] => cases found
    | [only] =>
      simp only [readOperator, map_cons, map_nil, node_annotate] at found
      obtain ⟨name, primed, rfl⟩ := Option.map_eq_some_iff.mp found
      unfold primedName? at primed
      split at primed
      · next shape =>
        split at primed <;> cases primed
        rename_i named
        cases shape
        exact .derivativeHere named
      · cases primed
    | first :: second :: more => cases found
  | invisible =>
    simp only [readOperator, Option.bind_eq_bind, Option.bind_eq_some_iff] at found
    obtain ⟨factors, all, same⟩ := found
    have all := factors_of_factors? all
    match factors, same with
    | [only], same => cases same; exact .single all
    | first :: second :: more, same => cases same; exact .product all
  | delimiter =>
    match nodes with
    | [] => cases found
    | [only] =>
      simp only [readOperator, map_cons, map_nil, term_annotate] at found
      split at found
      · cases found
      · exact .wrapped (.head _) found
    | first :: second :: more => cases found
  | hold | block => exact wrapped (by decide) found
  | tuple =>
    cases nodes with
    | nil => cases found
    | cons head rest =>
      simp only [readOperator, map_cons, node_annotate, items_tuple, Option.bind_eq_bind,
        Option.bind_eq_some_iff] at found
      obtain ⟨apply, callee, terms, all, same⟩ := found
      cases same
      exact .tuple (readAll_of_terms? all) (application_of_application? callee terms)
  | integrate =>
    match nodes with
    | [] => cases found
    | [only] => cases found
    | [argument, limits] =>
      simp only [readOperator, map_cons, map_nil, integral?, integrand?_annotate, limits?_annotate,
        Option.bind_eq_bind, Option.bind_eq_some_iff, Option.map_eq_some_iff] at found
      obtain ⟨-, ⟨⟨parameter, body⟩, integrand, rfl⟩, -, ⟨⟨bound, lower, upper⟩, limited, rfl⟩,
        found⟩ := found
      change (if isName (Node.integralName here parameter bound) = true then
        (read here body).bind fun b => (read here lower).bind fun l =>
          (read here upper).bind fun u =>
            some (Term.integral (Node.integralName here parameter bound) b l u)
        else none) = some term at found
      split at found
      · next named =>
        simp only [Option.bind_eq_some_iff] at found
        obtain ⟨b, inside, l, low, u, high, same⟩ := found
        cases same
        exact .integral integrand limited named inside low high
      · cases found
    | first :: second :: third :: more => cases found
  | sequence | function | lambda | limits | triple => cases found

/-- Every reading follows a rule. -/
theorem rule_of_read {node : Node} (found : read here node = some term) :
    Rule here (fun node term => read here node = some term) node term := by
  cases node with
  | number value => cases found; exact .number value
  | symbol name =>
    change readSymbol name = some term at found
    unfold readSymbol at found
    split at found
    · next named => cases found; exact .symbol named
    · cases found
  | op head nodes =>
    rw [read_op] at found
    cases head with
    | call name unknown =>
      simp only [readOperation] at found
      split at found
      · next named =>
        obtain ⟨terms, all, rfl⟩ := Option.map_eq_some_iff.mp found
        exact .call named (readAll_of_terms? all)
      · cases found
    | operator operator => exact rule_of_readOperator found

end Reading

/-! ## Induction on readings -/

namespace Reading

open Node (Within)

variable {here : String}

theorem forall_right {R : Node → Term → Prop} {P : Term → Prop} {nodes : List Node}
    {terms : List Term} (all : List.Forall₂ R nodes terms)
    (each : ∀ node term, R node term → P term) : ∀ term ∈ terms, P term := by
  induction all with
  | nil => exact fun _ member => nomatch member
  | cons first _ ih => exact List.forall_mem_cons.mpr ⟨each _ _ first, ih⟩

theorem forall₂_imp {R S : Node → Term → Prop} {whole : Node} {nodes : List Node} {terms : List Term}
    (weaker : ∀ node term, Within node whole → R node term → S node term)
    (each : ∀ node ∈ nodes, Within node whole) (all : List.Forall₂ R nodes terms) :
    List.Forall₂ S nodes terms := by
  induction all with
  | nil => exact .nil
  | cons first _ ih =>
    rw [List.forall_mem_cons] at each
    exact .cons (weaker _ _ each.1 first) (ih each.2)

theorem Factors.imp {R S : Node → Term → Prop} {whole : Node} {nodes : List Node}
    {terms : List Term} (weaker : ∀ node term, Within node whole → R node term → S node term)
    (each : ∀ node ∈ nodes, Within node whole) (factors : Factors R nodes terms) :
    Factors S nodes terms := by
  induction factors with
  | nil => exact .nil
  | plain alone first _ ih =>
    rw [List.forall_mem_cons] at each
    exact .plain alone (weaker _ _ each.1 first) (ih each.2)
  | applied found all made _ ih =>
    rw [List.forall_mem_cons, List.forall_mem_cons] at each
    refine .applied found (forall₂_imp weaker (fun node member => ?_) all) made (ih each.2.2)
    exact (Node.within_items found member).trans each.2.1

/-- The premises of a rule are about trees inside the one that is read. -/
theorem Rule.imp {R S : Node → Term → Prop} {node : Node} {term : Term}
    (weaker : ∀ part term, Within part node → R part term → S part term)
    (rule : Rule here R node term) : Rule here S node term := by
  cases rule with
  | number value => exact .number value
  | symbol named => exact .symbol named
  | joined joiner some all => exact .joined joiner some (forall₂_imp weaker (fun _ => .arg) all)
  | quotient divides first second =>
    exact .quotient divides (weaker _ _ (.arg (.head _)) first)
      (weaker _ _ (.arg (.tail _ (.head _))) second)
  | power first second =>
    exact .power (weaker _ _ (.arg (.head _)) first) (weaker _ _ (.arg (.tail _ (.head _))) second)
  | negate only => exact .negate (weaker _ _ (.arg (.head _)) only)
  | elementary takes all => exact .elementary takes (forall₂_imp weaker (fun _ => .arg) all)
  | chain compares all =>
    refine .chain compares (forall₂_imp weaker (fun part member => ?_) all)
    obtain ⟨whole, among, reaches⟩ := Node.reaches_flattened id _ _ member
    exact reaches.sub.within among
  | connective connective some all =>
    exact .connective connective some (forall₂_imp weaker (fun _ => .arg) all)
  | not only => exact .not (weaker _ _ (.arg (.head _)) only)
  | derivativeHere named => exact .derivativeHere named
  | wrapped wraps only => exact .wrapped wraps (weaker _ _ (.arg (.head _)) only)
  | single factors => exact .single (factors.imp weaker fun _ => .arg)
  | product factors => exact .product (factors.imp weaker fun _ => .arg)
  | tuple all made =>
    exact .tuple (forall₂_imp weaker (fun _ => Node.within_tupleArguments) all) made
  | call named all => exact .call named (forall₂_imp weaker (fun _ => .arg) all)
  | integral integrand limited named inside low high =>
    obtain ⟨lower, upper⟩ := Node.within_limits limited
    exact .integral integrand limited named
      (weaker _ _ ((Node.reaches_integrand integrand).sub.within (.head _)) inside)
      (weaker _ _ (.deep (.tail _ (.head _)) lower) low)
      (weaker _ _ (.deep (.tail _ (.head _)) upper) high)

/-- A property of readings holds if each rule hands it on from the trees inside to the whole. -/
theorem read_induction {P : Node → Term → Prop}
    (step : ∀ node term,
      (∀ part partTerm, Within part node → read here part = some partTerm → P part partTerm) →
      Rule here (fun part partTerm => read here part = some partTerm ∧ Within part node) node term →
      P node term)
    {node : Node} {term : Term} (found : read here node = some term) : P node term := by
  refine step node term (fun part partTerm inside partFound => ?_)
    ((rule_of_read found).imp fun _ _ inside partFound => ⟨partFound, inside⟩)
  have smaller := inside.sizeOf_lt
  exact read_induction step partFound
termination_by sizeOf node

/-- A property of readings holds if each rule hands it on, for trees with a property that goes on to
the trees inside. -/
theorem read_of_rules {P : Node → Term → Prop} {H : Node → Prop}
    (inherits : ∀ {part whole : Node}, Within part whole → H whole → H part)
    (step : ∀ {node : Node} {term : Term}, H node → Rule here P node term → P node term)
    {node : Node} {term : Term} (found : read here node = some term) : H node → P node term := by
  refine @read_induction here (fun node term => H node → P node term) ?_ node term found
  intro node term below rule holds
  refine step holds (rule.imp ?_)
  rintro part partTerm inside ⟨partFound, -⟩
  exact below part partTerm inside partFound (inherits inside holds)

end Reading

end Grapher
