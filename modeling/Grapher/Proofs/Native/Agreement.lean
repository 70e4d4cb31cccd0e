import Grapher.Native.OfTree
import Grapher.Proofs.Markup.Shape
import Grapher.Proofs.Native.Builtins
import Grapher.Proofs.Program.Preservation

/-!
# Native code against programs

Native code and the program of a reading are both made of operations on runs, and they agree part by
part. What each place in a tree has to bring for this is collected in `Node.Accords`: a program
divides the whole product on the left of a bare quotient by its denominator, so quotients may only
be the first of their factors; native code calls the elementary functions directly and writes
numbers out, so the scope may not change their names; and only programs know the helper for
integrals.
-/

set_option autoImplicit false

namespace Grapher

open Reading Program Native List Expr

variable {node : Node} {term : Term} {name : String}

/-! ## Factors -/

/-- A tree that is not a bare quotient has a reading that is not one. -/
theorem isBare_eq_false {here : String} (found : read here node = some term)
    (other : node.bareQuotient? = none) : term.isBare = false := by
  rcases bareAgrees_of_read found with ⟨-, whole⟩ | ⟨a, b, s, t, bare, -⟩
  · exact whole
  · rw [other] at bare
    cases bare

/-- Factors without a bare quotient after the first are multiplied from left to right. -/
theorem productExpr_plain {here : String} {terms : List Term}
    (plain : ∀ term ∈ terms.tail, term.isBare = false) :
    productExpr (exprFactors here terms) = leftFold (.arithmetic .multiply) (exprArgs here terms) := by
  cases terms with
  | nil => rfl
  | cons first more =>
    rw [exprFactors, exprArgs, productExpr, leftFold]
    generalize expr here first = left
    induction more generalizing left with
    | nil => rfl
    | cons next more ih =>
      obtain ⟨whole, rest⟩ := forall_mem_cons.mp plain
      rw [exprFactors, exprArgs, foldl_cons, foldl_cons, whole]
      exact ih rest _

/-! ## Native code of each reading -/

/-- The native code of a reading, if it has any, runs like the program of the reading; the values
are of a given class. -/
def Follows (good : Value → Prop) (depth intervals : Nat) (here : String) (scope : Scope)
    (term : Term) : Prop :=
  ∀ code, ofTerm? term = some code →
    Run.Alike good scope (code.eval (applyAt (depth + 1)))
      (Expr.run (applyAt (depth + 1)) (engineHelpers intervals) (expr here term))

/-- The second of two arguments is the value of the second operand. -/
theorem arguments_pair {runs : List Run} {scope : Scope} {moment : Moment} {a base : Value}
    (found : Run.arguments 1 runs scope moment = .ok [a, base]) :
    ∃ first second, runs = [first, second] ∧ second scope (.part moment 2) = .ok base := by
  match runs with
  | [] => cases found
  | first :: rest =>
    obtain ⟨one, -, found⟩ := ok_of_bind found
    obtain ⟨more, others, result⟩ := ok_of_bind found
    cases result
    match rest with
    | [] => cases others
    | second :: rest =>
      obtain ⟨two, isBase, others⟩ := ok_of_bind others
      obtain ⟨more, none, result⟩ := ok_of_bind others
      cases result
      match rest with
      | [] => exact ⟨first, second, rfl, isBase⟩
      | third :: rest =>
        obtain ⟨three, -, none⟩ := ok_of_bind none
        obtain ⟨more, -, result⟩ := ok_of_bind none
        cases result

namespace Follows

variable {good : Value → Prop} {depth intervals : Nat} {here : String} {scope : Scope}

theorem parts {terms : List Term}
    (all : ∀ term ∈ terms, Follows good depth intervals here scope term)
    {codes : List Code} (found : ofTerms? terms = some codes) :
    Forall₂ (Run.Alike good scope) (Code.evalArgs (applyAt (depth + 1)) codes)
      ((exprArgs here terms).map (run (applyAt (depth + 1)) (engineHelpers intervals))) := by
  induction terms generalizing codes with
  | nil =>
    cases found
    exact .nil
  | cons term terms ih =>
    obtain ⟨first, rest⟩ := forall_mem_cons.mp all
    obtain ⟨code, one, more, others, rfl⟩ := some_of_bind found
    exact .cons (first code one) (ih rest others)

variable (admits : Admits good (applyAt (depth + 1)) scope)

include admits

theorem number {value : Float}
    (literal : ∀ moment, Run.literal (engineHelpers intervals) value scope moment
      = .ok (.float value)) :
    Follows good depth intervals here scope (.number value) := by
  intro code found moment
  cases found
  rw [expr, run_numberExpr, literal]
  exact .ok (admits.plain _ (.inl ⟨_, rfl⟩))

theorem symbol (bound : resolveConstant name = integralName →
      scope.lookup integralName ≠ none) :
    Follows good depth intervals here scope (.symbol name) := by
  intro code found
  obtain ⟨target, refers, rfl⟩ := Option.map_eq_some_iff.mp found
  rw [expr, run_name]
  refine alike_reference intervals admits.held ?_ refers bound
  intro name value builtin
  unfold builtin? at builtin
  split at builtin
  · cases builtin
    exact admits.plain _ (.inl ⟨_, rfl⟩)
  · obtain ⟨primitive, -, rfl⟩ := Option.map_eq_some_iff.mp builtin
    exact admits.function _

theorem quotient {a b : Term} (first : Follows good depth intervals here scope a)
    (second : Follows good depth intervals here scope b) :
    Follows good depth intervals here scope (.quotient a b) := by
  intro code found
  obtain ⟨left, one, right, two, rfl⟩ := some_of_bind found
  rw [expr, run_arithmetic]
  exact .binary admits.plain .divide (first left one) (second right two)

theorem power {a b : Term} (first : Follows good depth intervals here scope a)
    (second : Follows good depth intervals here scope b) :
    Follows good depth intervals here scope (.power a b) := by
  intro code found
  obtain ⟨left, one, right, two, rfl⟩ := some_of_bind found
  rw [expr, run_arithmetic]
  exact .binary admits.plain .power (first left one) (second right two)

theorem negate {a : Term} (only : Follows good depth intervals here scope a) :
    Follows good depth intervals here scope (.negate a) := by
  intro code found
  obtain ⟨operand, one, rfl⟩ := Option.map_eq_some_iff.mp found
  rw [expr, run_negate]
  exact .negated admits.plain (only operand one)

theorem not {a : Term} (only : Follows good depth intervals here scope a) :
    Follows good depth intervals here scope (.not a) := by
  intro code found
  obtain ⟨operand, one, rfl⟩ := Option.map_eq_some_iff.mp found
  rw [expr, run_not]
  exact .denied admits.plain (only operand one)

theorem links {runs runs' : List Run} (relations : List Relation)
    (all : Forall₂ (Run.Alike good scope) runs runs') :
    Forall₂ (Run.Alike good scope) ((Chain.linksOf relations runs).map .related)
      ((Chain.linksOf relations runs').map .related) := by
  induction all generalizing relations with
  | nil => cases relations <;> exact .nil
  | @cons run run' runs runs' first rest ih =>
    match relations, rest with
    | [], _ => exact .nil
    | _ :: _, .nil => exact .nil
    | relation :: relations, .cons second rest =>
      exact .cons (.related admits.plain relation first second) (ih relations)

variable {terms : List Term} (all : ∀ term ∈ terms, Follows good depth intervals here scope term)

include all

/-- Operands joined from left to right. -/
theorem folded {joiner : Joiner} (some : terms ≠ []) {codes : List Code}
    (found : ofTerms? terms = .some codes) :
    Run.Alike good scope (Code.eval (applyAt (depth + 1)) (.joined joiner codes))
      (run (applyAt (depth + 1)) (engineHelpers intervals)
        (leftFold (.arithmetic (operation joiner)) (exprArgs here terms))) := by
  have nonempty : exprArgs here terms ≠ [] := by simpa [exprArgs_eq_map] using some
  rw [Code.eval, run_leftFold _ _ (run_arithmetic _ _ _) nonempty]
  exact Run.Alike.folded (Run.Alike.binary admits.plain _) (parts all found)

theorem joined {joiner : Joiner} (some : terms ≠ [])
    (whole : joiner = .multiply → ∀ term ∈ terms.tail, term.isBare = false) :
    Follows good depth intervals here scope (.joined joiner terms) := by
  intro code found
  obtain ⟨codes, each, rfl⟩ := Option.map_eq_some_iff.mp found
  cases joiner with
  | add | subtract => rw [expr]; exact folded admits all some each
  | multiply => rw [expr, productExpr_plain (whole rfl)]; exact folded admits all some each

theorem product (some : terms ≠ []) (whole : ∀ term ∈ terms.tail, term.isBare = false) :
    Follows good depth intervals here scope (.product terms) := by
  intro code found
  obtain ⟨codes, each, rfl⟩ := Option.map_eq_some_iff.mp found
  rw [expr, productExpr_plain whole]
  exact folded admits all some each

theorem elementary {function : Elementary}
    (unchanged : ∀ name, function.programName? terms.length = some name → Unchanged scope name)
    (based : good .absent → function = .log → ∀ a base, terms = [a, base] → ∀ moment,
      run (applyAt (depth + 1)) (engineHelpers intervals) (expr here base) scope moment
        ≠ .ok .absent) :
    Follows good depth intervals here scope (.elementary function terms) := by
  intro code found moment
  obtain ⟨helper, direct, codes, each, rfl⟩ := some_of_bind found
  obtain ⟨primitive, named, runs, applies⟩ := alike_helper direct
  rw [expr, run_call, named, Option.getD_some, Code.eval, runs]
  unfold Run.applied Run.called
  rw [named_primitive intervals (unchanged _ named)]
  have args : Alike (fun values => (∀ value ∈ values, good value) ∧ HasBase values)
      (Run.arguments 1 (Code.evalArgs (applyAt (depth + 1)) codes) scope moment)
      (Run.arguments 1 ((exprArgs here terms).map
        (run (applyAt (depth + 1)) (engineHelpers intervals))) scope moment) := by
    -- An absent base would be a value of the class, and then the base is known not to give it.
    refine (Run.Alike.arguments (parts all each) 1 moment).imp fun values result areGood => ?_
    refine ⟨areGood, ?_⟩
    rintro a base rfl rfl
    obtain ⟨first, second, operands, isAbsent⟩ := arguments_pair result
    match terms, operands with
    | [s, t], operands =>
      cases operands
      exact based (areGood .absent (.tail _ (.head _))) (eq_log_of_helper direct) s t rfl _ isAbsent
  refine args.bind fun values given => (applies values given.2).imp fun value result _ => ?_
  rcases Primitive.apply_cases result with plain | member
  · exact admits.plain value plain
  · exact given.1 value member

theorem call (plainName : resolveConstant name = name)
    (bound : name = integralName → scope.lookup integralName ≠ none) :
    Follows good depth intervals here scope (.call name terms) := by
  intro code found
  obtain ⟨target, refers, codes, each, rfl⟩ := some_of_bind found
  rw [expr, run_call, Code.eval]
  refine Run.Alike.called ?_ (parts all each)
  have alike := @alike_reference name (·.Keeps good (applyAt (depth + 1))) scope intervals
    admits.kept ?_ target refers (by rwa [plainName])
  · rwa [plainName] at alike
  · intro word value builtin moment args result given applied
    unfold builtin? at builtin
    split at builtin
    · cases builtin
      cases applied
    · obtain ⟨primitive, -, rfl⟩ := Option.map_eq_some_iff.mp builtin
      rcases Primitive.apply_cases applied with plain | member
      · exact admits.plain _ plain
      · exact given result member

theorem chain {relations : List Relation} (compares : relations ≠ [])
    (count : terms.length = relations.length + 1) :
    Follows good depth intervals here scope (.chain terms relations) := by
  intro code found
  obtain ⟨codes, each, rfl⟩ := Option.map_eq_some_iff.mp found
  have linked := linksOf_ne_nil compares count
  have same : (Chain.linksOf relations terms).map (fun link =>
        run (applyAt (depth + 1)) (engineHelpers intervals) (linkExpr here link))
      = (Chain.linksOf relations ((exprArgs here terms).map
          (run (applyAt (depth + 1)) (engineHelpers intervals)))).map .related := by
    rw [exprArgs_eq_map, map_map, linksOf_map, map_map]
    refine map_congr_left fun link _ => ?_
    exact run_compare _ _ _ _ _
  rw [expr, chainExpr_eq, run_leftFold _ _ (run_and _ _) (by simpa using linked),
    map_map, Function.comp_def, same, Code.eval]
  exact Run.Alike.folded (Run.Alike.both admits.plain) (links admits relations (parts all each))

theorem connective {joint : Connective} (several : 2 ≤ terms.length) :
    Follows good depth intervals here scope (.connective joint terms) := by
  intro code found
  obtain ⟨codes, each, rfl⟩ := Option.map_eq_some_iff.mp found
  have alike := parts all each
  have many : 2 ≤ (Code.evalArgs (applyAt (depth + 1)) codes).length := by
    rw [alike.length_eq, length_map, exprArgs_eq_map, length_map]
    exact several
  have nonempty : exprArgs here terms ≠ [] := by
    rw [exprArgs_eq_map]
    rintro empty
    rw [map_eq_nil_iff.mp empty] at several
    cases several
  rw [Code.eval]
  cases joint with
  | and =>
    rw [expr, Program.connect, run_leftFold _ _ (run_and _ _) nonempty, Native.connect,
      Run.folded_truth Run.truth_both Run.both_truth many]
    exact Run.Alike.folded (Run.Alike.both admits.plain) alike
  | or =>
    rw [expr, Program.connect, run_leftFold _ _ (run_or _ _) nonempty, Native.connect,
      Run.folded_truth Run.truth_either Run.either_truth many]
    exact Run.Alike.folded (Run.Alike.either admits.plain) alike

end Follows

/-! ## Native code of each tree -/

namespace Node

/-- The sides of a part of a juxtaposition that is a bare quotient. -/
def Juxtaposed.bareQuotient? : Juxtaposed → Option (Node × Node)
  | .factor node => node.bareQuotient?
  | .application _ _ => none

/-- What a place in a tree has to bring for native code and the program to agree in a scope. The
condition on the base of a logarithm is for values that may be absent. -/
structure Accords (good : Value → Prop) (depth intervals : Nat) (here : String) (scope : Scope)
    (node : Node) : Prop where
  literal : ∀ value, node = .number value → ∀ moment,
    Run.literal (engineHelpers intervals) value scope moment = .ok (.float value)
  word : node.word? = some Program.integralName → scope.lookup Program.integralName ≠ none
  head : ∀ name unknown args, node = .op (.call name unknown) args → resolveConstant name = name
  function : ∀ function args name, node = .of (.elementary function) args →
    function.programName? args.length = some name → Unchanged scope name
  base : good .absent → ∀ value base, node = .of (.elementary .log) [value, base] →
    ∀ term, read here base = some term → ∀ moment,
      Expr.run (applyAt (depth + 1)) (engineHelpers intervals) (expr here term) scope moment
        ≠ .ok .absent
  several : ∀ (connective : Connective) args, node = .of connective.operator args → 2 ≤ args.length
  multiplied : ∀ args, node = .of .multiply args → ∀ arg ∈ args.tail, arg.bareQuotient? = none
  juxtaposed : ∀ args, node = .of .invisible args →
    ∀ part ∈ (juxtaposed args).tail, part.bareQuotient? = none

end Node

theorem resolveConstant_of_other (other : isConstantName name = false) :
    resolveConstant name = name := by
  rw [isConstantName, Option.isSome_eq_false_iff, Option.isNone_iff_eq_none] at other
  rw [resolveConstant, other, Option.getD_none]

theorem eq_integral_of_resolveConstant (same : resolveConstant name = integralName) :
    name = integralName := by
  rcases resolveConstant_cases name with ⟨-, itself⟩ | ⟨-, member⟩
  · rwa [itself] at same
  · have words : ∀ word ∈ constantNames.map (·.2), word ≠ integralName := by decide
    exact absurd same (words _ member)

/-- If the parts after the first are whole, so are their readings. -/
theorem bare_tail {Part : Type} {whole : Part → Prop} {parts : List Part} {terms : List Term}
    (all : Forall₂ (fun part term => whole part → Term.isBare term = false) parts terms)
    (leads : ∀ part ∈ parts.tail, whole part) : ∀ term ∈ terms.tail, term.isBare = false := by
  cases all with
  | nil => exact fun _ member => nomatch member
  | cons _ rest =>
    rw [tail_cons] at leads ⊢
    induction rest with
    | nil => exact fun _ member => nomatch member
    | cons next _ ih =>
      obtain ⟨first, others⟩ := forall_mem_cons.mp leads
      exact forall_mem_cons.mpr ⟨next first, ih others⟩

section Trees

variable {good : Value → Prop} {depth intervals : Nat} {here : String} {scope : Scope}
  {whole : Node}

/-- The parts of a juxtaposition that are no quotients have readings that are not bare. -/
theorem bare_juxtaposed {nodes : List Node} {terms : List Term}
    (factors : Factors (fun part term => read here part = some term ∧ part.Within whole) nodes terms) :
    Forall₂ (fun part term => Node.Juxtaposed.bareQuotient? part = none → term.isBare = false)
      (Node.juxtaposed nodes) terms := by
  induction factors with
  | nil => exact .nil
  | plain alone first _ ih =>
    rw [juxtaposed_plain alone]
    exact .cons (isBare_eq_false first.1) ih
  | @applied head group items nodes term args terms found all made _ ih =>
    obtain ⟨name, called, -⟩ := @applicationName_of_application term here head args made
    rw [Node.juxtaposed, called, found]
    exact .cons (fun _ => isBare_of_application made) ih

variable (admits : Admits good (applyAt (depth + 1)) scope)

include admits

theorem follows_application {head : Node}
    (word : head.word? = some integralName → scope.lookup integralName ≠ none) {args : List Term}
    (all : ∀ arg ∈ args, Follows good depth intervals here scope arg)
    (made : Application head args term) : Follows good depth intervals here scope term := by
  cases made with
  | derivative primed => exact fun _ found => nomatch found
  | @call name callee =>
    unfold calleeName? at callee
    split at callee
    · next symbol =>
      split at callee <;> cases callee
      rename_i named
      rw [Bool.and_eq_true, Bool.not_eq_true'] at named
      exact .call admits all (resolveConstant_of_other named.1) fun same =>
        word (congrArg some same)
    · cases callee

theorem follows_factors
    (follow : ∀ part term, read here part = some term ∧ part.Within whole →
      Follows good depth intervals here scope term) {nodes : List Node} {terms : List Term}
    (words : ∀ node ∈ nodes, node.word? = some integralName →
      scope.lookup integralName ≠ none)
    (factors : Factors (fun part term => read here part = some term ∧ part.Within whole) nodes terms) :
    ∀ term ∈ terms, Follows good depth intervals here scope term := by
  induction factors with
  | nil => exact fun _ member => nomatch member
  | plain _ first _ ih =>
    obtain ⟨-, rest⟩ := forall_mem_cons.mp words
    exact forall_mem_cons.mpr ⟨follow _ _ first, ih rest⟩
  | applied _ all made _ ih =>
    obtain ⟨word, others⟩ := forall_mem_cons.mp words
    obtain ⟨-, rest⟩ := forall_mem_cons.mp others
    have args := forall_right all follow
    exact forall_mem_cons.mpr ⟨follows_application admits word args made, ih rest⟩

/-- The native code of a tree runs like its program, if all places in the tree allow for it. -/
theorem follows_of_accords (found : read here node = some term)
    (accords : node.Throughout (Node.Accords good depth intervals here scope)) :
    Follows good depth intervals here scope term := by
  revert accords
  refine @read_induction here
    (fun node term => node.Throughout (Node.Accords good depth intervals here scope) →
      Follows good depth intervals here scope term) ?_ node term found
  intro node term below rule accords
  have follow : ∀ part partTerm, (read here part = some partTerm ∧ part.Within node) →
      Follows good depth intervals here scope partTerm :=
    fun part partTerm both => below part partTerm both.2 both.1 (accords.within both.2)
  have words : ∀ part : Node, part.Within node → part.word? = some integralName →
      scope.lookup integralName ≠ none :=
    fun part within => (accords.within within).here.word
  have place := accords.here
  cases rule with
  | number value => exact .number admits (place.literal value rfl)
  | symbol named =>
    refine .symbol admits fun same => place.word ?_
    exact congrArg some (eq_integral_of_resolveConstant same)
  | @joined joiner nodes terms some all =>
    refine .joined admits (forall_right all follow) (ne_nil_of_forall₂ all some) ?_
    rintro rfl
    refine @bare_tail _ (·.bareQuotient? = none) _ _ (all.imp ?_) (place.multiplied nodes rfl)
    exact fun part partTerm both => isBare_eq_false both.1
  | quotient divides first second => exact .quotient admits (follow _ _ first) (follow _ _ second)
  | power first second => exact .power admits (follow _ _ first) (follow _ _ second)
  | negate only => exact .negate admits (follow _ _ only)
  | @elementary function nodes terms takes all =>
    refine .elementary admits (forall_right all follow) ?_ ?_
    · intro name named
      exact place.function function nodes name rfl (all.length_eq ▸ named)
    · rintro isAbsent rfl a base rfl
      cases all with
      | cons _ rest =>
        cases rest with
        | cons second none =>
          cases none
          exact place.base isAbsent _ _ rfl base second.1
  | @chain relation nodes terms compares all =>
    refine .chain admits (forall_right all follow) compares ?_
    rw [← all.length_eq]
    refine Node.length_flattened id relation nodes ?_
    rintro rfl
    exact compares rfl
  | @connective joint nodes terms some all =>
    refine .connective admits (forall_right all follow) ?_
    rw [← all.length_eq]
    exact place.several joint nodes rfl
  | not only => exact .not admits (follow _ _ only)
  | derivativeHere named => exact fun _ found => nomatch found
  | wrapped wraps only => exact follow _ _ only
  | @single nodes term factors =>
    exact follows_factors admits follow (fun part member => words part (.arg member)) factors term
      (.head _)
  | @product nodes first second more factors =>
    refine .product admits (follows_factors admits follow
      (fun part member => words part (.arg member)) factors) (cons_ne_nil _ _) ?_
    exact bare_tail (bare_juxtaposed factors) (place.juxtaposed nodes rfl)
  | @tuple head rest args term all made =>
    exact follows_application admits (words head (.arg (.head _))) (forall_right all follow) made
  | @call name unknown nodes terms named all =>
    exact .call admits (forall_right all follow) (place.head name unknown nodes rfl) fun same =>
      place.word (congrArg some same)
  | integral integrand limited named inside low high => exact fun _ found => nomatch found

end Trees

/-! ## Parsed trees -/

namespace Node

/-- Whether a tree is a quotient, bare or inside of groups. -/
def isQuotient : Node → Bool
  | .of .divide _ => true
  | .of .delimiter [inner] => inner.isQuotient
  | _ => false

/-- Whether a part of a juxtaposition is a quotient. -/
def Juxtaposed.isQuotient : Juxtaposed → Bool
  | .factor node => node.isQuotient
  | .application _ _ => false

/-- Whether no factor of a product but the first is a quotient. -/
def leadsWithQuotient : Node → Bool
  | .of .multiply args => args.tail.all (!·.isQuotient)
  | .of .invisible args => (juxtaposed args).tail.all (!·.isQuotient)
  | _ => true

/-- What native code needs of each place in a tree to agree with the program: the shape of a parsed
tree, no use of the name that is a helper of programs, and no quotient after the first factor. -/
structure IsDirect (node : Node) : Prop where
  shaped : Markup.IsShaped node
  word : node.word? ≠ some Program.integralName
  leads : node.leadsWithQuotient = true

theorem bareQuotient?_eq_none (shaped : node.Throughout Markup.IsShaped)
    (other : node.isQuotient = false) : node.bareQuotient? = none := by
  fun_induction bareQuotient? node with
  | case1 => cases other
  | case2 | case4 | case5 | case6 | case7 | case8 => cases shaped.here
  | case3 inner ih => exact ih (shaped.within (.arg (.head _))) other
  | case9 => rfl

theorem IsDirect.accords {scope : Scope} (keeps : KeepsBuiltins scope) (depth intervals : Nat)
    (here : String) (direct : node.Throughout IsDirect) :
    node.Accords (· ≠ .absent) depth intervals here scope where
  literal := by
    rintro value rfl
    have shaped := direct.here.shaped
    refine literal_eq intervals (fun undefined => ?_) (fun _ => ?_) (fun _ => shaped.2)
    · rw [shaped.1] at undefined
      cases undefined
    · exact keeps.unchanged (by decide) (by decide) (by decide)
  word isIntegral := absurd isIntegral direct.here.word
  head := by
    rintro name unknown args rfl
    exact absurd direct.here.shaped id
  function function args name _ named := keeps.elementary named
  base isAbsent := absurd rfl isAbsent
  several := by
    rintro connective args rfl
    have count := direct.here.shaped
    cases connective <;> exact of_decide_eq_true count
  multiplied := by
    rintro args rfl arg member
    have leads := all_eq_true.mp direct.here.leads arg member
    have inside := direct.within (.arg (mem_of_mem_tail member))
    exact bareQuotient?_eq_none (fun part sub => (inside part sub).shaped) (by simpa using leads)
  juxtaposed := by
    rintro args rfl part member
    have leads := all_eq_true.mp direct.here.leads part member
    match part with
    | .application _ _ => rfl
    | .factor node =>
      have within : node.Within (.of .invisible args) :=
        (within_juxtaposed fun _ => id).1 (mem_of_mem_tail member)
      have inside := direct.within within
      exact bareQuotient?_eq_none (fun part sub => (inside part sub).shaped)
        (by simpa [Juxtaposed.isQuotient] using leads)

end Node

end Grapher
