import Grapher.Proofs.Program.Meaning
import Grapher.Proofs.Program.Writable

/-!
# Writing and parsing keep the meaning

The program of a tree is written as text, scanned, parsed and run. For a tree with ASCII names the
whole detour gives what the tree means by its shape: each construct of the program language runs as
the corresponding clause of `Node.evaluate`.
-/

set_option autoImplicit false

namespace Grapher

open Reading Program List Node Expr

variable {term : Term} {node : Node} {nodes : List Node} {terms : List Term}

/-! ## Runs of expressions -/

namespace Program.Expr

variable (call : Apply) (helpers : Scope)

-- all proofs of this section rewrite with the equations of the evaluator, so they are made first
attribute [local grind =] eval

/-- The value of an expression in each scope at each moment. -/
def run (e : Expr) : Run := fun scope moment => e.eval call helpers scope moment

theorem run_number (value : Float) :
    run call helpers (.number value) = .constant (.float value) := by
  funext scope moment
  simp only [run, eval, Run.constant]

theorem run_name (name : String) : run call helpers (.name name) = .named helpers name := by
  funext scope moment
  simp only [run, eval, Run.named]

theorem run_arithmetic (operation : Arithmetic) (left right : Expr) :
    run call helpers (.arithmetic operation left right)
      = .binary operation (run call helpers left) (run call helpers right) := by
  funext scope moment
  simp only [run, eval, Run.binary]

theorem run_negate (operand : Expr) :
    run call helpers (.negate operand) = .negated (run call helpers operand) := by
  funext scope moment
  simp only [run, eval, Run.negated]

theorem run_not (operand : Expr) :
    run call helpers (.not operand) = .denied (run call helpers operand) := by
  funext scope moment
  simp only [run, eval, Run.denied]

theorem run_and (left right : Expr) :
    run call helpers (.and left right)
      = .both (run call helpers left) (run call helpers right) := by
  funext scope moment
  simp only [run, eval, Run.both]

theorem run_or (left right : Expr) :
    run call helpers (.or left right)
      = .either (run call helpers left) (run call helpers right) := by
  funext scope moment
  simp only [run, eval, Run.either]

theorem run_compare (relation : Relation) (left right : Expr) :
    run call helpers (.compare left [relation] [right])
      = .related ⟨relation, run call helpers left, run call helpers right⟩ := by
  funext scope moment
  simp only [run, eval, evalChain, Run.related]
  cases eval call helpers scope (.part moment 0) left with
  | error fault => rfl
  | ok a =>
    cases eval call helpers scope (.part moment 1) right with
    | error fault => rfl
    | ok b =>
      simp only [ok_bind]
      cases Value.relates relation a b with
      | error fault => rfl
      | ok holds => cases holds <;> rfl

theorem run_binder (parameter : String) (body : Expr) :
    run call helpers (.binder parameter body) = .closed helpers parameter body := by
  funext scope moment
  simp only [run, eval, Run.closed]

theorem evalArgs_eq (args : List Expr) (index : Nat) (scope : Scope) (moment : Moment) :
    evalArgs call helpers scope moment index args
      = Run.arguments index (args.map (run call helpers)) scope moment := by
  induction args generalizing index with
  | nil => simp only [evalArgs, map_nil, Run.arguments]
  | cons arg args ih => simp only [evalArgs, map_cons, Run.arguments, ih, run]

theorem run_call (name : String) (args : List Expr) :
    run call helpers (.call (.name name) args)
      = .called call (.named helpers name) (args.map (run call helpers)) := by
  funext scope moment
  simp only [run, eval, Run.called, Run.named, evalArgs_eq]

theorem run_leftFold {combine : Expr → Expr → Expr} {operation : Run → Run → Run}
    (same : ∀ left right, run call helpers (combine left right)
      = operation (run call helpers left) (run call helpers right))
    {exprs : List Expr} (some : exprs ≠ []) :
    run call helpers (leftFold combine exprs)
      = .folded operation (exprs.map (run call helpers)) := by
  cases exprs with
  | nil => exact absurd rfl some
  | cons first more =>
    simp only [leftFold, map_cons, Run.folded]
    induction more generalizing first with
    | nil => rfl
    | cons next more ih =>
      simp only [foldl_cons, map_cons]
      rw [ih (combine first next) (cons_ne_nil _ _), same]

/-- An expression as a factor, marked if it is a bare quotient. -/
def factor (bare : Bool) (e : Expr) : Run.Factor :=
  match bare, e with
  | true, .arithmetic .divide a b => .quotient (run call helpers a) (run call helpers b)
  | _, e => .plain (run call helpers e)

theorem run_timesFactor (left : Expr) (bare : Bool) (e : Expr) :
    run call helpers (timesFactor left bare e)
      = (factor call helpers bare e).after (run call helpers left) := by
  unfold timesFactor factor
  split
  · simp only [run_arithmetic, Run.Factor.after]
  · simp only [run_arithmetic, Run.Factor.after]

theorem first_factor (bare : Bool) (e : Expr) :
    (factor call helpers bare e).first = run call helpers e := by
  unfold factor
  split
  · simp only [run_arithmetic, Run.Factor.first]
  · rfl

theorem run_productExpr {factors : List (Bool × Expr)} (some : factors ≠ []) :
    run call helpers (productExpr factors)
      = .product (factors.map fun entry => factor call helpers entry.1 entry.2) := by
  cases factors with
  | nil => exact absurd rfl some
  | cons first more =>
    simp only [productExpr, map_cons, Run.product, first_factor]
    clear some
    generalize first.2 = left
    induction more generalizing left with
    | nil => rfl
    | cons next more ih =>
      simp only [foldl_cons, map_cons]
      rw [ih, run_timesFactor]

theorem run_numberExpr (value : Float) :
    run call helpers (numberExpr value) = .literal helpers value := by
  unfold numberExpr Run.literal
  split
  · rw [run_name]
  · next defined =>
    by_cases infinite : Double.isInfinite value = true
    · simp only [infinite, if_true]
      split
      · rw [run_negate, run_name]
      · rw [run_name]
    · simp only [infinite, Bool.false_eq_true, if_false]
      split
      · next negative =>
        obtain ⟨-, positive, bound⟩ := (Double.lt_zero_iff value).mp negative
        have nonzero : ¬ (value == 0) = true := by
          rw [Double.beq_zero_iff]
          omega
        rw [run_negate, run_number, if_neg nonzero]
        funext scope moment
        show Except.ok (Value.float (- -value)) = .ok (.float value)
        rw [Double.neg_neg_of_defined bound]
      · rw [run_number]

end Program.Expr

/-! ## Bare quotients -/

/-- A tree is a bare quotient exactly if its reading is, and then both have the same sides. -/
def BareAgrees (here : String) (node : Node) (term : Term) : Prop :=
  (node.bareQuotient? = none ∧ term.isBare = false) ∨
  ∃ a b s t, node.bareQuotient? = some (a, b) ∧ term.isBare = true ∧
    read here a = some s ∧ read here b = some t ∧
    expr here term = .arithmetic .divide (expr here s) (expr here t)

theorem isBare_of_application {head : Node} {args : List Term} (made : Application head args term) :
    term.isBare = false := by
  cases made <;> rfl

theorem bareAgrees_of_read {here : String} (found : read here node = some term) :
    BareAgrees here node term := by
  refine read_induction (fun node term inside rule => ?_) found
  cases rule with
  | number value | symbol named => exact .inl ⟨rfl, rfl⟩
  | joined joiner some all => cases joiner <;> exact .inl ⟨rfl, rfl⟩
  | quotient divides first second =>
    rcases divides with rfl | rfl <;>
      exact .inr ⟨_, _, _, _, rfl, rfl, first.1, second.1, by rw [expr]⟩
  | power first second => exact .inl ⟨rfl, rfl⟩
  | negate only | elementary takes all | chain compares all => exact .inl ⟨rfl, rfl⟩
  | connective connective some all =>
    rcases all with _ | ⟨first, _ | ⟨second, rest⟩⟩
    · exact absurd rfl some
    · have agrees := inside _ _ first.2 first.1
      unfold BareAgrees at agrees ⊢
      rw [expr, exprArgs_eq_map]
      cases connective <;> exact agrees
    · cases connective <;> exact .inl ⟨rfl, rfl⟩
  | not only | derivativeHere named => exact .inl ⟨rfl, rfl⟩
  | wrapped wraps only =>
    have agrees := inside _ _ only.2 only.1
    simp only [mem_cons, not_mem_nil, or_false] at wraps
    unfold BareAgrees at agrees ⊢
    rcases wraps with rfl | rfl | rfl <;> exact agrees
  | single factors =>
    rcases factors with _ | ⟨_, first, none⟩ | ⟨_, _, made, none⟩
    · cases none
      have agrees := inside _ _ first.2 first.1
      unfold BareAgrees at agrees ⊢
      exact agrees
    · cases none
      exact .inl ⟨rfl, isBare_of_application made⟩
  | product factors =>
    refine .inl ⟨?_, rfl⟩
    rcases factors with _ | ⟨_, _, more⟩ | ⟨_, _, _, more⟩ <;> cases more <;> rfl
  | tuple all made => exact .inl ⟨rfl, isBare_of_application made⟩
  | call named all | integral integrand limited named inside low high => exact .inl ⟨rfl, rfl⟩

/-! ## The program of a tree -/

section Agreement

variable {call : Apply} {helpers : Scope} {here : String}

theorem compiled_of_read (default : IsWord here) (found : read here node = some term)
    (spellable : node.Spellable) :
    parse (textOf here node) = .ok (expr here term) ∧
      node.compiled here = expr here term := by
  have text : textOf here node = piecesText (pieces here term) := by
    simp only [textOf, textOf?, found, Option.map_some, Option.getD_some]
  have parsed := parse_pieces default (writable_of_read default found spellable)
  rw [← text] at parsed
  refine ⟨parsed, ?_⟩
  unfold compiled
  rw [parsed]

/-- A tree runs as its reading does. -/
abbrev Agrees (call : Apply) (helpers : Scope) (here : String) (node : Node) (term : Term) : Prop :=
  Expr.run call helpers (expr here term) = node.evaluate call helpers here

theorem map_run (all : Forall₂ (Agrees call helpers here) nodes terms) :
    (exprArgs here terms).map (run call helpers) = nodes.map (evaluate call helpers here) := by
  rw [exprArgs_eq_map]
  induction all with
  | nil => rfl
  | cons first _ ih => rw [map_cons, map_cons, map_cons, first, ih]

theorem exprArgs_ne_nil {R : Node → Term → Prop} (all : Forall₂ R nodes terms) (some : nodes ≠ []) :
    exprArgs here terms ≠ [] := by
  rw [exprArgs_eq_map]
  simpa using ne_nil_of_forall₂ all some

/-- A tree is the same factor as its reading, if all trees inside agree with theirs. -/
theorem factor_of_read (found : read here node = some term)
    (agrees : Agrees call helpers here node term)
    (inside : ∀ part partTerm, part.Within node → read here part = some partTerm →
      Agrees call helpers here part partTerm) :
    factor call helpers term.isBare (expr here term)
      = node.evaluateFactor call helpers here := by
  rcases bareAgrees_of_read found with ⟨bare, whole⟩ | ⟨a, b, s, t, bare, marked, first, second, same⟩
  · rw [evaluateFactor_none _ _ _ bare, whole, ← agrees]
    rfl
  · obtain ⟨left, right⟩ := within_bareQuotient bare
    rw [evaluateFactor_some _ _ _ bare, marked, same, ← inside a s left first,
      ← inside b t right second]
    rfl

theorem applicationName_of_application {head : Node} {args : List Term}
    (made : Application head args term) :
    ∃ name, head.applicationName? = some name ∧
      expr here term = .call (.name name) (exprArgs here args) ∧
      pieces here term = callPieces name (piecesArgs here args) := by
  cases made with
  | @derivative name primed =>
    refine ⟨derivativeName name, ?_, by rw [expr], by rw [pieces]⟩
    simp [applicationName?, primed]
  | @call name callee =>
    refine ⟨name, ?_, by rw [expr], by rw [pieces]⟩
    have plain : primedName? head = none := by
      unfold calleeName? at callee
      split at callee
      · rfl
      · cases callee
    simp [applicationName?, plain, callee]

theorem isSome_application? (head : Node) :
    (application? head).isSome = head.applicationName?.isSome := by
  unfold application? applicationName?
  split
  · next primed => simp [primed]
  · next plain => simp [plain]

theorem juxtaposed_plain (alone : takesNext (node :: nodes) = false) :
    juxtaposed (node :: nodes) = .factor node :: juxtaposed nodes := by
  cases nodes with
  | nil => rfl
  | cons group rest =>
    rw [juxtaposed]
    split
    · next name items called isGroup =>
      simp [takesNext, isSome_application?, called, isGroup] at alone
    · rfl

theorem map_factors {whole : Node}
    (inside : ∀ part partTerm, part.Within whole → read here part = some partTerm →
      Agrees call helpers here part partTerm)
    (factors : Factors (fun part partTerm => read here part = some partTerm ∧ part.Within whole)
      nodes terms) :
    (exprFactors here terms).map (fun entry => factor call helpers entry.1 entry.2)
      = (juxtaposed nodes).map (evaluateJuxtaposed call helpers here) := by
  induction factors with
  | nil => rfl
  | @plain node nodes term terms alone first _ ih =>
    have agrees := inside node term first.2 first.1
    rw [exprFactors, map_cons, ih, juxtaposed_plain alone, map_cons]
    refine congrArg (· :: _) ?_
    exact factor_of_read first.1 agrees fun part partTerm deeper =>
      inside part partTerm (deeper.trans first.2)
  | @applied head group items nodes term args terms found all made _ ih =>
    obtain ⟨name, called, same, -⟩ := @applicationName_of_application term here head args made
    have values := map_run (all.imp fun part partTerm both => inside part partTerm both.2 both.1)
    have unfolded : juxtaposed (head :: group :: nodes)
        = .application name items :: juxtaposed nodes := by
      rw [juxtaposed, called, found]
    rw [exprFactors, map_cons, ih, unfolded, map_cons, isBare_of_application made, same]
    refine congrArg (· :: _) ?_
    simp only [factor, evaluateJuxtaposed]
    rw [run_call, values]

/-- Products of trees run as the products of their readings. -/
theorem map_multiplied {whole : Node}
    (inside : ∀ part partTerm, part.Within whole → read here part = some partTerm →
      Agrees call helpers here part partTerm)
    (all : Forall₂ (fun part partTerm => read here part = some partTerm ∧ part.Within whole)
      nodes terms) :
    (exprFactors here terms).map (fun entry => factor call helpers entry.1 entry.2)
      = nodes.map (evaluateFactor call helpers here) := by
  induction all with
  | nil => rfl
  | @cons node term nodes terms first _ ih =>
    rw [exprFactors, map_cons, ih, map_cons]
    refine congrArg (· :: _) ?_
    exact factor_of_read first.1 (inside node term first.2 first.1) fun part partTerm deeper =>
      inside part partTerm (deeper.trans first.2)

/-- The links of a chain of trees run as the links of their readings. -/
theorem map_links (relations : List Relation) (all : Forall₂ (Agrees call helpers here) nodes terms) :
    (Chain.linksOf relations terms).map (fun link => run call helpers (linkExpr here link))
      = (Chain.linksOf relations nodes).map fun link =>
        .related ⟨link.head, link.left.evaluate call helpers here,
          link.right.evaluate call helpers here⟩ := by
  induction all generalizing relations with
  | nil => cases relations <;> rfl
  | @cons node term nodes terms first rest ih =>
    match relations, rest with
    | [], _ => rfl
    | _ :: _, .nil => rfl
    | relation :: relations, .cons second rest =>
      rw [Chain.linksOf, Chain.linksOf, map_cons, map_cons, ih]
      refine congrArg (· :: _) ?_
      simp only [linkExpr]
      rw [run_compare, first, second]

/-- The program of a tree with ASCII names runs as the tree means. -/
theorem run_of_read (default : IsWord here) (found : read here node = some term)
    (spellable : node.Spellable) : Agrees call helpers here node term := by
  revert spellable
  refine @read_induction here
    (fun node term => node.Spellable → Agrees call helpers here node term) ?_ node term found
  intro node term below rule spellable
  have inside : ∀ part partTerm, part.Within node → read here part = some partTerm →
      Agrees call helpers here part partTerm :=
    fun part partTerm within found => below part partTerm within found (spellable.within within)
  have agree : ∀ {part : Node} {partTerm : Term},
      (read here part = some partTerm ∧ part.Within node) → Agrees call helpers here part partTerm :=
    fun both => inside _ _ both.2 both.1
  unfold Agrees
  cases rule with
  | number value => rw [expr, run_numberExpr, evaluate]
  | symbol named => rw [expr, run_name, evaluate]
  | @joined joiner nodes terms some all =>
    have values := map_run (all.imp fun _ _ => agree)
    cases joiner with
    | add | subtract =>
      rw [expr, run_leftFold _ _ (run_arithmetic _ _ _) (exprArgs_ne_nil all some), values]
      rw [Joiner.operator, evaluate]
    | multiply =>
      have nonempty : exprFactors here terms ≠ [] := by
        rw [exprFactors_eq_map]
        simpa using ne_nil_of_forall₂ all some
      rw [expr, run_productExpr _ _ nonempty, map_multiplied inside all]
      rw [Joiner.operator, evaluate]
  | quotient divides first second =>
    rw [expr, run_arithmetic, agree first, agree second]
    rcases divides with rfl | rfl <;> rw [evaluate]
  | power first second => rw [expr, run_arithmetic, agree first, agree second, evaluate]
  | negate only => rw [expr, run_negate, agree only, evaluate]
  | elementary takes all =>
    rw [expr, run_call, map_run (all.imp fun _ _ => agree), evaluate, all.length_eq]
  | @chain relation nodes terms compares all =>
    have count : terms.length = (comparisonChain relation nodes).heads.length + 1 := by
      rw [← all.length_eq]
      refine length_flattened id relation nodes ?_
      rintro rfl
      exact compares rfl
    have linked := linksOf_ne_nil compares count
    rw [expr, chainExpr_eq, run_leftFold _ _ (run_and _ _) (by simpa using linked),
      map_map, evaluate_relation]
    exact congrArg _ (map_links _ (all.imp fun _ _ => agree))
  | connective connective some all =>
    have values := map_run (all.imp fun _ _ => agree)
    cases connective with
    | and =>
      rw [expr, connect, run_leftFold _ _ (run_and _ _) (exprArgs_ne_nil all some), values]
      rw [Connective.operator, evaluate]
    | or =>
      rw [expr, connect, run_leftFold _ _ (run_or _ _) (exprArgs_ne_nil all some), values]
      rw [Connective.operator, evaluate]
  | not only => rw [expr, run_not, agree only, evaluate]
  | derivativeHere named => rw [expr, run_call, evaluate, map_cons, map_nil, run_name]
  | wrapped wraps only =>
    rw [agree only]
    simp only [mem_cons, not_mem_nil, or_false] at wraps
    rcases wraps with rfl | rfl | rfl <;> rw [evaluate]
  | single factors =>
    have values := map_factors inside factors
    rw [evaluate_invisible, ← values]
    simp only [exprFactors, map_cons, map_nil, Run.product, foldl_nil, first_factor]
  | product factors =>
    rw [expr, run_productExpr _ _ (by simp [exprFactors]), map_factors inside factors,
      evaluate_invisible]
  | tuple all made =>
    obtain ⟨name, called, same, -⟩ := @applicationName_of_application _ here _ _ made
    rw [same, run_call, map_run (all.imp fun _ _ => agree), evaluate_tuple, called]
    rfl
  | call named all => rw [expr, run_call, map_run (all.imp fun _ _ => agree), evaluate]
  | integral integrand limited named inner low high =>
    have body := (compiled_of_read default inner.1 (spellable.within inner.2)).2
    rw [expr, run_call, map_cons, map_cons, map_cons, map_nil,
      run_binder, agree low, agree high, evaluate_integrate _ _ _ integrand limited, body]

theorem exists_read (written : textOf here node ≠ "") : ∃ term, read here node = some term := by
  cases found : read here node with
  | some term => exact ⟨term, rfl⟩
  | none => exact absurd (by simp only [textOf, textOf?, found]; rfl) written

/-- The integrand of an integral that has a program runs, as the body of a closure, as it means with
the variable bound to the argument. -/
theorem closure_of_integrate (default : IsWord here) {argument limits body : Node}
    {parameter : String} (integrand : argument.integrand? = some (parameter, body))
    (spellable : Spellable (.of .integrate [argument, limits]))
    (written : textOf here (.of .integrate [argument, limits]) ≠ "") (scope : Scope)
    (birth moment : Moment) (name : String) (value : Value) :
    (Function.closure birth name (body.compiled here) helpers scope).applyWith call moment [value]
      = body.evaluate call helpers here ((name, value) :: scope) moment := by
  obtain ⟨term, found⟩ := exists_read written
  have rule := (rule_of_read found).imp fun _ _ inside read => And.intro read inside
  generalize whole : of .integrate [argument, limits] = node at rule spellable
  cases rule with
  | integral same _ _ inner _ _ =>
    cases whole
    rw [integrand] at same
    cases same
    have spellableBody := spellable.within inner.2
    rw [(compiled_of_read default inner.1 spellableBody).2]
    exact congrFun (congrFun (run_of_read default inner.1 spellableBody) _) _
  | joined joiner => cases joiner <;> cases whole
  | connective connective => cases connective <;> cases whole
  | quotient divides =>
    cases whole
    simp at divides
  | _ => cases whole

end Agreement

/-- Writing a tree as text and compiling the text keeps the meaning. Whenever a tree with ASCII names
has a program text, the text is scanned and parsed, and the program gives the value that the tree
has by its shape, or fails in the same way. A closure that an integral of the tree hands over gives
what the integrand means with the variable bound. -/
theorem Node.eval_compiled {here : String} {node : Node} (default : isName here = true)
    (defaultAscii : Program.isAscii here = true) (ascii : node.isAscii = true)
    (written : textOf here node ≠ "") :
    (∃ found, Program.tokens (textOf here node) = .ok found ∧
      Program.parseTokens found = .ok (node.compiled here)) ∧
    Program.parse (textOf here node) = .ok (node.compiled here) ∧
    (∀ call helpers scope moment, (node.compiled here).eval call helpers scope moment
      = node.evaluate call helpers here scope moment) ∧
    ∀ argument limits parameter body, Sub (.of .integrate [argument, limits]) node →
      textOf here (.of .integrate [argument, limits]) ≠ "" →
      argument.integrand? = some (parameter, body) →
      ∀ call helpers scope birth moment name value,
        (Function.closure birth name (body.compiled here) helpers scope).applyWith call moment [value]
          = body.evaluate call helpers here ((name, value) :: scope) moment := by
  have word : IsWord here := ⟨default, defaultAscii⟩
  obtain ⟨term, found⟩ := exists_read written
  have spellable := spellable_of_isAscii ascii
  obtain ⟨parsed, same⟩ := compiled_of_read word found spellable
  rw [same]
  refine ⟨?_, parsed, ?_, ?_⟩
  · unfold parse at parsed
    split at parsed
    · cases parsed
    · cases scanned : tokens (textOf here node) with
      | error fault => rw [scanned] at parsed; cases parsed
      | ok tokens => exact ⟨tokens, rfl, by rwa [scanned] at parsed⟩
  · intro call helpers scope moment
    exact congrFun (congrFun (run_of_read word found spellable) scope) moment
  · intro argument limits parameter body sub writtenPart integrand call helpers scope birth moment
      name value
    exact closure_of_integrate word integrand (spellable.sub sub) writtenPart scope birth moment name
      value

/-- A quotient after the first factor, and an integral over the default variable. -/
theorem Node.eval_compiled_quotient_integral :
    let integral := of .integrate
      [.of .function [.of .multiply [.symbol "x", .symbol "a"], .symbol "x"],
        .of .limits [.symbol "x", .number 0, .symbol "b"]]
    let node := of .multiply
      [.symbol "a", .of .delimiter [.of .divide [.symbol "x", .symbol "b"]], integral]
    textOf "x" node = "(a * (x) / (b) * integral(x -> (x * a), 0, b))" ∧
    parse (textOf "x" node) = .ok (node.compiled "x") ∧
    ∀ call helpers scope moment, (node.compiled "x").eval call helpers scope moment
      = node.evaluate call helpers "x" scope moment := by
  intro integral node
  have kept := @eval_compiled "x" node (by decide) (by decide) (by decide) (by decide +kernel)
  exact ⟨by decide +kernel, kept.2.1, kept.2.2.1⟩

end Grapher
