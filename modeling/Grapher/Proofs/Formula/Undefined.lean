import Grapher.Proofs.Evaluation.Strictness
import Grapher.Proofs.Formula.Edges
import Grapher.Proofs.Native.Extent

/-!
# Names without a value

A formula in which a name has no value is undefined, as long as nothing in it can be decided
without looking at the name: no connective of two or more conditions and no chain of two or more
links stands in it, and no derivative or integral. Such a tree demands each name in it, as an operand
or as a function that is called (`demands_of_read`). Its program and its native code then both look
the name up in every evaluation, and fail.
-/

set_option autoImplicit false

namespace Grapher

open Reading Program List Node Term

variable {nodes : List Node} {node : Node} {here : String}

namespace Reading.Term

mutual

/-- The names that every evaluation of a reading looks up, as they stand in the tree. Conditions
that may be decided early give none. -/
def demanded : Term → List String
  | .number _ | .derivativeHere _ => []
  | .symbol name => [name]
  | .joined _ args | .product args | .elementary _ args | .derivative _ args => demandedArgs args
  | .quotient first second | .power first second => demanded first ++ demanded second
  | .negate operand | .not operand => demanded operand
  | .chain [left, right] (_ :: _) => demanded left ++ demanded right
  | .connective _ [only] => demanded only
  | .chain _ _ | .connective _ _ => []
  | .call function args => function :: demandedArgs args
  | .integral _ _ lower upper => demanded lower ++ demanded upper

/-- The names that every evaluation of several readings looks up. -/
def demandedArgs : List Term → List String
  | [] => []
  | term :: terms => demanded term ++ demandedArgs terms

end

end Reading.Term

/-- A word that nothing gives a value: neither a scope nor the constants and functions of the language
nor the helper for integrals. -/
structure Undefined (scope : Scope) (word : String) : Prop where
  unbound : scope.lookup word = none
  unknown : builtin? word = none
  helper : word ≠ Program.integralName

namespace Undefined

variable {scope : Scope} {word : String}

theorem resolve_engineHelpers (undefined : Undefined scope word) (intervals : Nat) :
    resolve (engineHelpers intervals) scope word = .error (.undefined word) := by
  have other : (engineHelpers intervals).lookup word = none := by
    have apart : (word == "integral") = false := beq_eq_false_iff_ne.mpr undefined.helper
    rw [engineHelpers, lookup_cons, apart]
    rfl
  simp only [resolve, undefined.unbound, undefined.unknown, other]

/-- The constants have values. -/
theorem eq_resolveConstant {name : String} (undefined : Undefined scope (resolveConstant name)) :
    resolveConstant name = name := by
  rcases resolveConstant_cases name with ⟨-, same⟩ | ⟨-, member⟩
  · exact same
  · have known : ∀ word ∈ constantNames.map (·.2), (builtin? word).isSome = true := by decide
    have found := known _ member
    rw [undefined.unknown] at found
    cases found

end Undefined

/-- Two terms make one link, whatever relations there are left. -/
theorem Chain.linksOf_pair {Term Bond : Type} (head : Bond) (heads : List Bond) (left right : Term) :
    Chain.linksOf (head :: heads) [left, right] = [⟨head, left, right⟩] := by
  cases heads <;> rfl

/-! ## Programs -/

namespace Program

variable {word : String}

theorem exists_factor {terms : List Term} (found : ∃ e ∈ exprArgs here terms, e.Demands word) :
    ∃ factor ∈ exprFactors here terms, factor.2.Demands word := by
  obtain ⟨e, member, inside⟩ := found
  rw [exprArgs_eq_map] at member
  obtain ⟨term, among, rfl⟩ := mem_map.mp member
  rw [exprFactors_eq_map]
  exact ⟨_, mem_map_of_mem among, inside⟩

mutual

/-- The program of a reading looks up the names that the reading demands. -/
theorem demands_expr (here : String) (plain : resolveConstant word = word) :
    ∀ {term : Term}, word ∈ term.demanded → (expr here term).Demands word
  | .number _, found | .derivativeHere _, found => by cases found
  | .symbol name, found => by
    cases mem_singleton.mp found
    rw [expr, plain]
    exact .name
  | .joined joiner args, found => by
    obtain ⟨e, member, inside⟩ := demands_exprArgs here plain found
    cases joiner with
    | add => exact Expr.demands_leftFold .add member inside
    | subtract => exact Expr.demands_leftFold .subtract member inside
    | multiply =>
      obtain ⟨factor, among, inside⟩ := exists_factor ⟨e, member, inside⟩
      exact Expr.demands_productExpr among inside
  | .product args, found => by
    obtain ⟨factor, among, inside⟩ := exists_factor (demands_exprArgs here plain found)
    exact Expr.demands_productExpr among inside
  | .quotient first second, found | .power first second, found => by
    rcases mem_append.mp found with left | right
    · exact .left (demands_expr here plain left)
    · exact .right (demands_expr here plain right)
  | .negate operand, found => by exact .negate (demands_expr here plain found)
  | .not operand, found => by exact .not (demands_expr here plain found)
  | .elementary _ args, found | .derivative _ args, found => by
    obtain ⟨e, member, inside⟩ := demands_exprArgs here plain found
    exact .argument member inside
  | .chain [left, right] (_ :: _), found => by
    rw [expr, exprArgs, exprArgs, exprArgs, chainExpr, Chain.linksOf_pair]
    rcases mem_append.mp found with first | second
    · exact .first (demands_expr here plain first)
    · exact .second (demands_expr here plain second)
  | .chain [] _, found | .chain [_] _, found | .chain [_, _] [], found
  | .chain (_ :: _ :: _ :: _) _, found => by cases found
  | .connective _ [only], found => by
    rw [expr]
    exact demands_expr here plain found
  | .connective _ [], found | .connective _ (_ :: _ :: _), found => by cases found
  | .call function args, found => by
    rcases mem_cons.mp found with rfl | later
    · exact .callee .name
    · obtain ⟨e, member, inside⟩ := demands_exprArgs here plain later
      exact .argument member inside
  | .integral _ _ lower upper, found => by
    rcases mem_append.mp found with low | high
    · exact .argument (.tail _ (.head _)) (demands_expr here plain low)
    · exact .argument (.tail _ (.tail _ (.head _))) (demands_expr here plain high)

theorem demands_exprArgs (here : String) (plain : resolveConstant word = word) :
    ∀ {terms : List Term}, word ∈ demandedArgs terms →
      ∃ e ∈ exprArgs here terms, e.Demands word
  | [], found => by cases found
  | term :: terms, found => by
    rcases mem_append.mp found with first | later
    · exact ⟨_, .head _, demands_expr here plain first⟩
    · obtain ⟨e, member, inside⟩ := demands_exprArgs here plain later
      exact ⟨e, .tail _ member, inside⟩

end

end Program

/-! ## Native code -/

namespace Native

variable {word : String} {scope : Scope}

theorem Reference.fails_run {target : Reference} (found : reference? word = some target)
    (plain : resolveConstant word = word) (undefined : Undefined scope word) :
    target.run.Fails scope := by
  unfold reference? at found
  rw [plain] at found
  dsimp only at found
  split at found
  · split at found <;> cases found
    · refine @Run.Fails.named _ _ _ (.undefined word) ?_
      simp only [resolve, undefined.unbound, undefined.unknown, lookup_nil]
    · intro moment
      unfold Reference.run
      dsimp only
      rw [undefined.unbound]
      exact ⟨_, rfl⟩
  · cases found

theorem fails_helper (function : Helper) {args : List Run} {arg : Run} (member : arg ∈ args)
    (fails : arg.Fails scope) : (function.run args).Fails scope := by
  have either : ∀ {a b : Run}, arg ∈ [a, b] → a.Fails scope ∨ b.Fails scope := by
    intro a b member
    simp only [mem_cons, not_mem_nil, or_false] at member
    rcases member with rfl | rfl
    · exact .inl fails
    · exact .inr fails
  unfold Helper.run
  split
  · exact .binary .divide (either member)
  · exact .binary .power (either member)
  · exact .applied member fails

mutual

/-- Native code fails where a name has no value that its reading demands. -/
theorem fails_eval (call : Apply) (plain : resolveConstant word = word)
    (undefined : Undefined scope word) :
    ∀ {term : Term} {code : Code}, word ∈ term.demanded → ofTerm? term = some code →
      (code.eval call).Fails scope
  | .number _, _, found, _ | .derivativeHere _, _, found, _ => by cases found
  | .derivative _ _, _, _, made | .integral _ _ _ _, _, _, made => by cases made
  | .symbol name, _, found, made => by
    cases mem_singleton.mp found
    obtain ⟨target, named, rfl⟩ := Option.map_eq_some_iff.mp made
    exact Reference.fails_run named plain undefined
  | .joined _ args, _, found, made | .product args, _, found, made => by
    obtain ⟨codes, each, rfl⟩ := Option.map_eq_some_iff.mp made
    obtain ⟨run, member, fails⟩ := fails_evalArgs call plain undefined found each
    exact .folded (.binary _) member fails
  | .quotient first second, _, found, made | .power first second, _, found, made => by
    obtain ⟨left, leftMade, right, rightMade, rfl⟩ := some_of_bind made
    rcases mem_append.mp found with here | there
    · exact fails_helper _ (.head _) (fails_eval call plain undefined here leftMade)
    · exact fails_helper _ (.tail _ (.head _)) (fails_eval call plain undefined there rightMade)
  | .negate operand, _, found, made => by
    rw [demanded] at found
    obtain ⟨code, each, rfl⟩ := Option.map_eq_some_iff.mp made
    exact (fails_eval call plain undefined found each).negated
  | .not operand, _, found, made => by
    rw [demanded] at found
    obtain ⟨code, each, rfl⟩ := Option.map_eq_some_iff.mp made
    exact (fails_eval call plain undefined found each).denied
  | .elementary _ args, _, found, made => by
    obtain ⟨function, -, codes, each, rfl⟩ := some_of_bind made
    obtain ⟨run, member, fails⟩ := fails_evalArgs call plain undefined found each
    exact fails_helper function member fails
  | .chain [left, right] (_ :: _), _, found, made => by
    simp only [ofTerm?, ofTerms?, Option.bind_eq_bind, Option.map_eq_some_iff,
      Option.bind_eq_some_iff, Option.some.injEq] at made
    obtain ⟨codes, ⟨a, leftMade, more, ⟨b, rightMade, none, rfl, rfl⟩, rfl⟩, rfl⟩ := made
    rw [Code.eval, Code.evalArgs, Code.evalArgs, Code.evalArgs, Chain.linksOf_pair]
    rcases mem_append.mp found with here | there
    · exact .related (.inl (fails_eval call plain undefined here leftMade))
    · exact .related (.inr (fails_eval call plain undefined there rightMade))
  | .chain [] _, _, found, _ | .chain [_] _, _, found, _ | .chain [_, _] [], _, found, _
  | .chain (_ :: _ :: _ :: _) _, _, found, _ => by cases found
  | .connective _ [only], _, found, made => by
    rw [demanded] at found
    simp only [ofTerm?, ofTerms?, Option.bind_eq_bind, Option.map_eq_some_iff,
      Option.bind_eq_some_iff, Option.some.injEq] at made
    obtain ⟨codes, ⟨a, each, none, rfl, rfl⟩, rfl⟩ := made
    exact (fails_eval call plain undefined found each).truth
  | .connective _ [], _, found, _ | .connective _ (_ :: _ :: _), _, found, _ => by cases found
  | .call function args, _, found, made => by
    obtain ⟨target, named, codes, each, rfl⟩ := some_of_bind made
    rcases mem_cons.mp found with rfl | later
    · exact .callee (Reference.fails_run named plain undefined) _
    · obtain ⟨run, member, fails⟩ := fails_evalArgs call plain undefined later each
      exact .called member fails

theorem fails_evalArgs (call : Apply) (plain : resolveConstant word = word)
    (undefined : Undefined scope word) :
    ∀ {terms : List Term} {codes : List Code}, word ∈ demandedArgs terms →
      ofTerms? terms = some codes → ∃ run ∈ Code.evalArgs call codes, run.Fails scope
  | [], _, found, _ => by cases found
  | term :: terms, _, found, made => by
    obtain ⟨code, each, codes, others, rfl⟩ := some_of_bind made
    rcases mem_append.mp found with here | later
    · exact ⟨_, .head _, fails_eval call plain undefined here each⟩
    · obtain ⟨run, member, fails⟩ := fails_evalArgs call plain undefined later others
      exact ⟨run, .tail _ member, fails⟩

end

end Native

/-! ## Trees -/

namespace Node

/-- The name at the root of a tree: of a symbol, or of a function that is called. -/
def name? : Node → Option String
  | .symbol name | .op (.call name _) _ => some name
  | _ => none

/-- Whether the root of a tree takes the values of all that stands under it: it is no derivative and
no integral, no connective of two or more conditions and no chain of two or more links. -/
def isStrict : Node → Bool
  | .of .prime _ | .of .integrate _ => false
  | .of .and args | .of .or args => args.length < 2
  | .of (.relation relation) args => (comparisonChain relation args).heads.length < 2
  | _ => true

/-- Whether the root of a tree is another name. -/
def lacks (name : String) (node : Node) : Bool :=
  node.name? != some name

end Node

namespace Reading

/-- A reading demands a name if it stands in the tree, and takes no derivative at the default
variable. -/
structure Shows (name : String) (node : Node) (term : Term) : Prop where
  derives : term.derivesHere = false
  lacks : name ∉ term.demanded → node.all (Node.lacks name) = true

/-- The same of several readings. -/
structure ShowsAll (name : String) (nodes : List Node) (terms : List Term) : Prop where
  derives : Term.derivesHereArgs terms = false
  lacks : name ∉ Term.demandedArgs terms → nodes.all (Node.all (Node.lacks name)) = true

variable {name : String}

theorem Shows.cons {term : Term} {terms : List Term} (first : Shows name node term)
    (rest : ShowsAll name nodes terms) : ShowsAll name (node :: nodes) (term :: terms) where
  derives := by rw [derivesHereArgs, first.derives, rest.derives]; rfl
  lacks absent := by
    rw [demandedArgs, mem_append, not_or] at absent
    rw [all_cons, first.lacks absent.1, rest.lacks absent.2]
    rfl

theorem showsAll {terms : List Term} (all : List.Forall₂ (Shows name) nodes terms) :
    ShowsAll name nodes terms := by
  induction all with
  | nil => exact ⟨rfl, fun _ => rfl⟩
  | cons first _ ih => exact first.cons ih

theorem lacks_name {word : String} (named : node.name? = some word) (other : name ≠ word) :
    node.lacks name = true := by
  rw [lacks, named, bne_iff_ne]
  exact fun same => other (Option.some.inj same).symm

theorem lacks_operator (operator : Operator) (args : List Node) :
    lacks name (.of operator args) = true := rfl

theorem lacks_group : ∀ operator ∈ [Operator.delimiter, .sequence], ∀ args,
    lacks name (.of operator args) = true := fun operator _ args => lacks_operator operator args

/-- A call demands its function and what its arguments demand. -/
theorem shows_of_application {head : Node} {args : List Term} {term : Term}
    (made : Application head args term) (strict : head.isStrict = true)
    (all : ShowsAll name nodes args) :
    term.derivesHere = false ∧ (name ∉ term.demanded →
      head.all (Node.lacks name) = true ∧ nodes.all (Node.all (Node.lacks name)) = true) := by
  cases made with
  | derivative primed =>
    unfold primedName? at primed
    split at primed
    · cases strict
    · cases primed
  | @call function callee =>
    refine ⟨all.derives, fun absent => ?_⟩
    rw [demanded, mem_cons, not_or] at absent
    refine ⟨?_, all.lacks absent.2⟩
    unfold calleeName? at callee
    split at callee
    · split at callee <;> cases callee
      exact lacks_name rfl absent.1
    · cases callee

theorem showsAll_of_factors {terms : List Term} (factors : Factors (Shows name) nodes terms)
    (strict : ∀ node ∈ nodes, node.isStrict = true) : ShowsAll name nodes terms := by
  induction factors with
  | nil => exact ⟨rfl, fun _ => rfl⟩
  | plain _ first _ ih => exact first.cons (ih (forall_mem_cons.mp strict).2)
  | applied found all made _ ih =>
    obtain ⟨head, others⟩ := forall_mem_cons.mp strict
    have rest := ih (forall_mem_cons.mp others).2
    obtain ⟨derives, lacks⟩ := shows_of_application made head (showsAll all)
    refine ⟨by rw [derivesHereArgs, derives, rest.derives]; rfl, fun absent => ?_⟩
    rw [demandedArgs, mem_append, not_or] at absent
    obtain ⟨first, items⟩ := lacks absent.1
    rw [all_cons, all_cons, all_items lacks_group found, first, items, rest.lacks absent.2]
    rfl

/-- An operator demands what its parts demand. -/
theorem shows_operator {operator : Operator} {terms : List Term} {term : Term}
    (all : ShowsAll name nodes terms) (derives : term.derivesHere = derivesHereArgs terms)
    (demanded : term.demanded = demandedArgs terms) : Shows name (.of operator nodes) term where
  derives := derives.trans all.derives
  lacks absent := by
    rw [demanded] at absent
    rw [all_op, lacks_operator, all.lacks absent]
    rfl

/-- A chain of one link demands what its two terms demand. -/
theorem shows_chain {relation : Relation} {terms : List Term}
    (compares : (comparisonChain relation nodes).heads ≠ [])
    (all : ShowsAll name (comparisonChain relation nodes).terms terms)
    (same : (comparisonChain relation nodes).terms.length = terms.length)
    (strict : (comparisonChain relation nodes).heads.length < 2) :
    Shows name (.of (.relation relation) nodes)
      (.chain terms (comparisonChain relation nodes).heads) := by
  have some : nodes ≠ [] := by
    rintro rfl
    exact compares rfl
  have count : terms.length = (comparisonChain relation nodes).heads.length + 1 :=
    same.symm.trans (length_flattened id relation nodes some)
  refine ⟨all.derives, fun absent => ?_⟩
  have demanded : (chain terms (comparisonChain relation nodes).heads).demanded
      = demandedArgs terms := by
    cases heads : (comparisonChain relation nodes).heads with
    | nil => exact absurd heads compares
    | cons head more =>
      rw [heads] at strict count
      cases more with
      | cons second more =>
        rw [length_cons, length_cons] at strict
        omega
      | nil =>
        obtain ⟨left, right, rfl⟩ := length_eq_two.mp count
        rw [demanded, demandedArgs, demandedArgs, demandedArgs, append_nil]
  rw [demanded] at absent
  have inside := all.lacks absent
  rw [comparisonChain, all_flattened fun relation args => lacks_operator _ args] at inside
  rw [all_op, lacks_operator, inside]
  rfl

/-- A rule demands what stands in a tree of strict places, as long as the parts do. -/
theorem shows_of_rule {term : Term} (strict : node.Throughout fun part => part.isStrict = true)
    (rule : Rule here (Shows name) node term) : Shows name node term := by
  cases rule with
  | number value => exact ⟨rfl, fun _ => rfl⟩
  | symbol named => exact ⟨rfl, fun absent => lacks_name rfl (by simpa [demanded] using absent)⟩
  | joined joiner some all | elementary takes all => exact shows_operator (showsAll all) rfl rfl
  | quotient divides first second | power first second =>
    exact shows_operator (showsAll (.cons first (.cons second .nil)))
      (by simp [derivesHere, derivesHereArgs]) (by simp [demanded, demandedArgs])
  | negate only | not only =>
    exact shows_operator (showsAll (.cons only .nil))
      (by simp [derivesHere, derivesHereArgs]) (by simp [demanded, demandedArgs])
  | chain compares all =>
    exact shows_chain compares (showsAll all) all.length_eq (of_decide_eq_true strict.here)
  | @connective connective nodes terms some all =>
    have few : nodes.length < 2 := by
      cases connective <;> exact of_decide_eq_true strict.here
    cases all with
    | nil => exact absurd rfl some
    | cons first rest =>
      cases rest with
      | nil =>
        exact shows_operator (showsAll (.cons first .nil)) rfl
          (by simp [demanded, demandedArgs])
      | cons second more =>
        rw [length_cons, length_cons] at few
        omega
  | derivativeHere named | integral => cases strict.here
  | wrapped wraps only =>
    exact shows_operator (showsAll (.cons only .nil)) (by simp [derivesHereArgs])
      (by simp [demandedArgs])
  | single factors =>
    exact shows_operator
      (showsAll_of_factors factors fun _ member => (strict.within (.arg member)).here)
      (by simp [derivesHereArgs]) (by simp [demandedArgs])
  | product factors =>
    exact shows_operator
      (showsAll_of_factors factors fun _ member => (strict.within (.arg member)).here) rfl rfl
  | tuple all made =>
    obtain ⟨derives, lacks⟩ :=
      shows_of_application made (strict.within (.arg (.head _))).here (showsAll all)
    refine ⟨derives, fun absent => ?_⟩
    obtain ⟨first, rest⟩ := lacks absent
    rw [all_tupleArguments lacks_group] at rest
    rw [all_op, lacks_operator, all_cons, first, rest]
    rfl
  | call named all =>
    refine ⟨(showsAll all).derives, fun absent => ?_⟩
    rw [demanded, mem_cons, not_or] at absent
    rw [all_op, lacks_name rfl absent.1, (showsAll all).lacks absent.2]
    rfl

theorem shows_of_read {term : Term} (found : read here node = some term)
    (strict : node.Throughout fun part => part.isStrict = true) : Shows name node term :=
  read_of_rules (fun inside strict => strict.within inside) shows_of_rule found strict

/-- A tree of strict places demands each name in it. -/
theorem demands_of_read {part : Node} {term : Term} (found : read here node = some term)
    (strict : node.Throughout fun part => part.isStrict = true) (sub : part.Sub node)
    (named : part.name? = some name) : name ∈ term.demanded := by
  by_contra absent
  have lacking := throughout_of_all ((shows_of_read found strict).lacks absent)
  have other := (lacking.sub sub).here
  rw [lacks, named, bne_self_eq_false] at other
  cases other

end Reading

/-! ## Results -/

namespace Formula

/-- A tree of strict places that takes no derivative at the default variable has the same program
under each default variable. -/
theorem program_of_strict {compiling : Settings} {tree : Node} (ascii : tree.isAscii = true)
    (strict : tree.Throughout fun part => part.isStrict = true) {text : String} {program : Expr}
    (written : textOf? compiling.defaultVariable tree = some text)
    (parsed : Program.parse text = .ok program) :
    ∃ term, read Native.anyVariable tree = some term ∧ program = expr Native.anyVariable term := by
  have same : annotate compiling.defaultVariable tree = annotate Native.anyVariable tree :=
    Markup.annotate_of_throughout (fun _ => Bool.false_ne_true) _ _ strict
  have reads : read compiling.defaultVariable tree = read Native.anyVariable tree :=
    congrArg Annotated.term same
  obtain ⟨term, found, -⟩ := Option.map_eq_some_iff.mp written
  have absent : (read compiling.defaultVariable tree).any derivesHere = false := by
    rw [found]
    exact (@shows_of_read _ _ "" _ found strict).derives
  rw [textOf?_congr same absent] at written
  rw [reads] at found
  obtain ⟨again, -⟩ := compiled_of_read ⟨by decide, by decide⟩ found (spellable_of_isAscii ascii)
  rw [textOf, written, Option.getD_some, parsed] at again
  exact ⟨term, found, Except.ok.inj again⟩

/-- A formula of strict places is undefined, by its program and by its native code, and false as a
condition, if some name in it has no value. -/
theorem results_of_undefined (compiling evaluating : Settings) (tree : Node) (raw : String)
    (scope : Scope) (name : String) (ascii : tree.isAscii = true)
    (strict : tree.all Node.isStrict = true)
    (occurs : ∃ part : Node, part.Sub tree ∧ part.name? = some name)
    (undefined : Undefined scope (resolveConstant name)) :
    let formula := ofTree compiling tree raw
    formula.evaluate evaluating scope = .nan ∧ formula.evaluateNative evaluating scope = .nan ∧
      formula.condition evaluating scope = false := by
  intro formula
  obtain ⟨part, sub, named⟩ := occurs
  have throughout := throughout_of_all strict
  have plain := undefined.eq_resolveConstant
  rw [plain] at undefined
  cases compiled : formula.routine? with
  | none =>
    have native : formula.evaluateNative evaluating scope = .nan := by rw [evaluateNative, compiled]
    exact ⟨by rw [evaluate, compiled], native, by rw [condition, native]; rfl⟩
  | some routine =>
    obtain ⟨⟨text, written, parsed⟩, made⟩ := Build.routine_of_ofTree compiled
    obtain ⟨term, found, program⟩ := program_of_strict ascii throughout written parsed
    have demanded := demands_of_read found throughout sub named
    have byProgram : routine.evaluate apply evaluating.simpsonIntervals scope .start = .nan := by
      obtain ⟨fault, failed⟩ := (demands_expr Native.anyVariable plain demanded).fails apply
        (undefined.resolve_engineHelpers evaluating.simpsonIntervals) .start
      rw [← program] at failed
      rw [Routine.evaluate]
      rw [Expr.run] at failed
      rw [failed]
    have native : formula.evaluateNative evaluating scope = .nan := by
      rw [evaluateNative, compiled]
      dsimp only
      rw [Routine.evaluateNative]
      cases coded : routine.native with
      | none => exact byProgram
      | some code =>
        have ofTerm : Native.ofTerm? term = some code := by
          have whole := made code coded
          rwa [Native.ofNode?, found] at whole
        obtain ⟨fault, failed⟩ := Native.fails_eval apply plain undefined demanded ofTerm .start
        dsimp only
        rw [Native.Code.run, failed]
        rfl
    exact ⟨by rw [evaluate, compiled]; exact byProgram, native, by rw [condition, native]; rfl⟩

/-- A call of a function without a value, in a comparison that is denied. The argument of the call
and the other side of the comparison have values. -/
theorem results_of_undefined_callee :
    let call := op (.call "f" (by decide)) [.symbol "x", .symbol "Pi"]
    let tree := of .not [.of (.relation .equal) [.of .multiply [.number 2, call], .symbol "x"]]
    let formula := ofTree .standard tree ""
    let scope : Scope := [("x", .int 3)]
    formula.isValid = true ∧ formula.native?.isSome = true ∧
      formula.evaluate .standard scope = .nan ∧ formula.evaluateNative .standard scope = .nan ∧
      formula.condition .standard scope = false := by
  intro call tree formula scope
  have inside : call.Sub tree := .inr (.deep (.head _) (.deep (.head _) (.arg (.tail _ (.head _)))))
  exact ⟨by decide +kernel, by decide +kernel, results_of_undefined .standard .standard tree "" scope "f"
    (by decide +kernel) (by decide +kernel) ⟨call, inside, rfl⟩ ⟨rfl, by decide, by decide⟩⟩

/-- A name of a word and a digit beyond ASCII is taken apart in the text of a program. Where the word
is a negation, the program denies a number, and its result is false; native code looks the name up. -/
theorem evaluate_of_undefined_negation :
    let formula := ofTree .standard (.symbol "not٣") ""
    formula.isValid = true ∧ Undefined [] "not٣" ∧
      (formula.evaluate .standard []).whole? = some 0 ∧
      (formula.evaluateNative .standard []).isNaN = true := by
  refine ⟨by decide +kernel, ⟨rfl, by decide, by decide⟩, by decide +kernel, by decide +kernel⟩

end Formula

end Grapher
