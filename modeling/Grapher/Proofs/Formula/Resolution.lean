import Grapher.Proofs.Formula.FastPath

/-!
# Names on the two ways of evaluation

A formula that applies functions to names and numbers is evaluated alike by its program and by its
native code, whatever the scope holds under other names. Programs look every name up when they reach
it, the names of elementary functions, of undefined and infinite numbers and of the helper for
integrals included. Native code calls the elementary functions directly, writes numbers out, and
finds the helper only in the scope. `Node.Resolves` says of a place in a tree that this makes no
difference in a scope.
-/

set_option autoImplicit false

namespace Grapher

open Reading Program Native

variable {node : Node} {scope : Scope}

/-! ## Trees of applications -/

namespace Node

/-- Whether a place in a tree is a number, a name, or part of an application of a function: of an
elementary one, or of a named one to arguments of its own, to a group or in a row. -/
def isApplicative : Node → Bool
  | .number _ | .symbol _ | .op (.call _ _) _ => true
  | .of (.elementary _) _ => true
  | .of .invisible _ | .of .delimiter _ | .of .sequence _ | .of .tuple _ => true
  | _ => false

/-- A tree of applications. -/
abbrev Applicative (node : Node) : Prop := node.Throughout (·.isApplicative = true)

theorem Applicative.bareQuotient (applicative : node.Applicative) : node.bareQuotient? = none := by
  have here := applicative.here
  fun_induction bareQuotient? node with
  | case3 inner ih | case6 inner ih =>
    have inside := applicative.within (.arg (.head _))
    exact ih inside inside.here
  | case9 => rfl
  | _ => cases here

/-- What a tree of applications means does not depend on the default variable. -/
theorem Applicative.annotate_congr (a b : String) (applicative : node.Applicative) :
    annotate a node = annotate b node :=
  Markup.annotate_of_throughout (fun _ => Bool.false_ne_true) a b applicative

/-! ## Places where names make no difference -/

/-- A place in a tree at which programs and native code find the same values in a scope. The scope
does not change the name of an undefined or infinite number, nor that of an elementary function that
is applied, and it has the helper for integrals where that is named. Zeros have no sign, the base of
a logarithm is not absent, and no constant is called by its name in the tree. -/
def Resolves (intervals : Nat) (scope : Scope) : Node → Prop
  | .number value =>
    (value.isNaN = true → Unchanged scope "NaN") ∧
    (Double.isInfinite value = true → Unchanged scope "Infinity") ∧
    (value == 0 → Double.isNegative value = false)
  | .symbol name => name = Program.integralName → scope.lookup Program.integralName ≠ none
  | .op (.call name _) _ =>
    isConstantName name = false ∧
    (name = Program.integralName → scope.lookup Program.integralName ≠ none)
  | .of (.elementary function) args =>
    (∀ name, function.programName? args.length = some name → Unchanged scope name) ∧
    (function = .log → ∀ value base, args = [value, base] → ∀ moment,
      base.evaluate apply (engineHelpers intervals) anyVariable scope moment ≠ .ok .absent)
  | _ => True

theorem name_ne_integral (operator : Operator) : operator.name ≠ Program.integralName := by
  cases operator with
  | elementary function => cases function <;> decide
  | relation relation => cases relation <;> decide
  | _ => decide

theorem Resolves.helper {intervals : Nat} (resolves : node.Resolves intervals scope)
    (named : node.word? = some Program.integralName) :
    scope.lookup Program.integralName ≠ none := by
  match node with
  | .number _ => cases named
  | .symbol name => exact resolves (Option.some.inj named)
  | .op (.call name _) _ => exact resolves.2 (Option.some.inj named)
  | .of operator _ => exact absurd (Option.some.inj named) (name_ne_integral operator)

theorem Resolves.accords {depth intervals : Nat} (limit : apply = applyAt (depth + 1))
    (applicative : node.Applicative) (spellable : node.Spellable)
    (resolves : node.Resolves intervals scope) :
    node.Accords (fun _ => True) depth intervals anyVariable scope where
  literal := by
    rintro value rfl
    exact literal_eq intervals resolves.1 resolves.2.1 resolves.2.2
  word := resolves.helper
  head := by
    rintro name unknown args rfl
    exact resolveConstant_of_other resolves.1
  function := by
    rintro function args name rfl
    exact resolves.1 name
  base := by
    rintro - value base rfl term found moment
    have inside := spellable.within (.arg (.tail _ (.head _)))
    have same := @run_of_read _ _ apply (engineHelpers intervals) _ ⟨by decide, by decide⟩ found
      inside
    rw [← limit, same]
    exact resolves.2 rfl value base rfl moment
  several := by
    rintro connective args rfl
    have here := applicative.here
    cases connective <;> cases here
  multiplied := by
    rintro args rfl
    cases applicative.here
  juxtaposed := by
    rintro args rfl part member
    match part with
    | .application _ _ => rfl
    | .factor node =>
      have within : node.Within (.of .invisible args) :=
        (within_juxtaposed fun _ => id).1 (List.mem_of_mem_tail member)
      exact Applicative.bareQuotient (applicative.within within)

end Node

namespace Formula

/-- What a formula makes of an outcome: a failure is undefined. -/
def numberOf : Except Fault Value → Number
  | .ok value => resultOf value
  | .error _ => .nan

/-- The program and the native code of a tree of applications find the same values for all names. In
a scope that resolves all places of the tree, both give what the tree means, where each name, that
of an applied function too, is looked up in the scope first, then as the helper for integrals, and
then among the builtins. -/
theorem evaluateNative_of_resolves {compiling : Settings} {tree : Node} {raw : String}
    (applicative : tree.all Node.isApplicative = true) (ascii : tree.isAscii = true)
    (native : (ofTree compiling tree raw).native?.isSome = true)
    (settings : Settings) {scope : Scope}
    (resolves : tree.Throughout (Node.Resolves settings.simpsonIntervals scope)) :
    (ofTree compiling tree raw).evaluateNative settings scope
      = (ofTree compiling tree raw).evaluate settings scope ∧
    (ofTree compiling tree raw).evaluate settings scope
      = numberOf (tree.evaluate apply (engineHelpers settings.simpsonIntervals) anyVariable scope
        .start) := by
  obtain ⟨code, native⟩ := Option.isSome_iff_exists.mp native
  have spellable := Node.spellable_of_isAscii ascii
  have applied : tree.Applicative := Node.throughout_of_all applicative
  have same : read compiling.defaultVariable tree = read anyVariable tree :=
    congrArg Annotated.term (applied.annotate_congr _ _)
  obtain ⟨term, source, meaning, coded, built⟩ := Build.ofTree_of_native same spellable native
  have alike : Run.Alike (fun _ => True) scope (code.eval apply)
      (Expr.run apply (engineHelpers settings.simpsonIntervals) (expr anyVariable term)) :=
    follows_of_accords .everything meaning (fun part sub =>
      (resolves part sub).accords rfl (applied.sub sub) (spellable.sub sub)) code coded
  have value : Expr.run apply (engineHelpers settings.simpsonIntervals) (expr anyVariable term)
      = tree.evaluate apply (engineHelpers settings.simpsonIntervals) anyVariable :=
    run_of_read ⟨by decide, by decide⟩ meaning spellable
  have outcome := alike .start
  simp only [evaluateNative, evaluate, routine?, ofTree, built, Build.routine?,
    Routine.evaluateNative, Routine.evaluate, Code.run, ← value]
  unfold Expr.run at outcome ⊢
  generalize code.eval apply scope .start = first at outcome ⊢
  generalize (expr anyVariable term).eval apply _ scope .start = second at outcome ⊢
  cases outcome with
  | ok _ | error _ _ => exact ⟨rfl, rfl⟩

/-- A call with an elementary function, a builtin name of the scope and a logarithm among its
arguments. -/
theorem evaluateNative_of_resolves_call :
    let tree : Node := .op (.call "g" rfl) [.of (.elementary .abs) [.symbol "x"], .symbol "sin",
      .of (.elementary .log) [.number 8, .symbol "b"]]
    let scope : Scope := [("x", .int (-3)), ("sin", .int 5), ("b", .int 2),
      ("g", .function (.lambda "g" ["u", "v", "w"] (.arithmetic .add (.name "u") (.name "v"))))]
    let formula := ofTree .standard tree ""
    formula.native?.isSome = true ∧
      tree.Throughout (Node.Resolves Settings.standard.simpsonIntervals scope) ∧
      formula.evaluateNative .standard scope = formula.evaluate .standard scope := by
  intro tree scope formula
  have base : ∀ moment, Node.evaluate apply (engineHelpers Settings.standard.simpsonIntervals)
      anyVariable (.symbol "b") scope moment ≠ .ok .absent := by
    intro moment
    rw [Node.evaluate]
    rintro ⟨⟩
  have name : ∀ word, word ≠ Program.integralName →
      (Node.symbol word).Throughout (Node.Resolves Settings.standard.simpsonIntervals scope) :=
    fun word other => .symbol fun same => absurd same other
  have resolves : tree.Throughout (Node.Resolves Settings.standard.simpsonIntervals scope) := by
    refine .op ⟨by decide, by decide⟩ ?_
    simp only [List.forall_mem_cons, List.not_mem_nil, false_implies, implies_true, and_true]
    refine ⟨.op ⟨?_, ?_⟩ ?_, name "sin" (by decide), .op ⟨?_, ?_⟩ ?_⟩
    · rintro name ⟨⟩ value bound
      cases bound
    · rintro ⟨⟩
    · simp only [List.forall_mem_cons, List.not_mem_nil, false_implies, implies_true, and_true]
      exact name "x" (by decide)
    · rintro name ⟨⟩ value bound
      cases bound
    · rintro - value _ ⟨⟩
      exact base
    · simp only [List.forall_mem_cons, List.not_mem_nil, false_implies, implies_true, and_true]
      refine ⟨.number ⟨fun undefined => ?_, fun infinite => ?_, by decide⟩, name "b" (by decide)⟩
      · exact absurd undefined (by decide)
      · exact absurd infinite (by decide)
  have native : formula.native?.isSome = true := by decide +kernel
  exact ⟨native, resolves,
    (evaluateNative_of_resolves (by decide) (by decide) native .standard resolves).1⟩

/-- A tree whose program and native code give different results in a scope. -/
def Differs (tree : Node) (scope : Scope) : Prop :=
  (ofTree .standard tree "").native?.isSome = true ∧
    (ofTree .standard tree "").evaluateNative .standard scope
      ≠ (ofTree .standard tree "").evaluate .standard scope

/-- Whether a test tells the results of a tree by its native code and by its program apart. -/
def separates (test : Number → Bool) (tree : Node) (scope : Scope) : Bool :=
  (ofTree .standard tree "").native?.isSome &&
    test ((ofTree .standard tree "").evaluateNative .standard scope) &&
    !test ((ofTree .standard tree "").evaluate .standard scope)

theorem differs_of_separates {tree : Node} (test : Number → Bool)
    (separated : separates test tree scope = true) : Differs tree scope := by
  simp only [separates, Bool.and_eq_true, Bool.not_eq_true'] at separated
  obtain ⟨⟨native, first⟩, second⟩ := separated
  refine ⟨native, fun same => ?_⟩
  rw [same, second] at first
  cases first

/-- A function of one argument as a value of a scope. -/
def oneArgument (body : Expr) : Value := .function (.lambda "f" ["u"] body)

/-- Names are not resolved alike where the scope changes an elementary function, where the helper
for integrals is not in the scope, where the scope changes the name of an undefined or infinite
number, at a negative zero, at an absent base of a logarithm, where a constant is called, and for a
name that a program reads as two words. -/
theorem differs_by_names :
    Differs (.of (.elementary .abs) [.symbol "x"])
      [("x", .int (-3)), ("abs", oneArgument (.name "u"))] ∧
    Differs (.op (.call "integral" rfl) [.symbol "f", .number 0, .number 1])
      [("f", oneArgument (.name "u"))] ∧
    Differs (.number Double.nan) [("NaN", .int 3)] ∧
    Differs (.number Double.infinity) [("Infinity", .int 3)] ∧
    Differs (.op (.call "f" rfl) [.number (-0.0)])
      [("f", oneArgument (.arithmetic .divide (.number 1) (.name "u")))] ∧
    Differs (.op (.call "f" rfl) [.of (.elementary .log) [.symbol "x", .symbol "b"]])
      [("x", .int 1), ("b", .absent), ("f", oneArgument (.number 3))] ∧
    Differs (.op (.call "Pi" rfl) [.symbol "x"])
      [("x", .int 2), ("pi", oneArgument (.name "u"))] ∧
    Differs (.symbol "not٣") [("not٣", .int 5)] := by
  refine ⟨?_, ?_, ?_, ?_, ?_, ?_, ?_, ?_⟩
  · exact differs_of_separates (·.whole? == some 3) (by decide +kernel)
  · exact differs_of_separates (·.isNaN) (by decide +kernel)
  · exact differs_of_separates (·.isNaN) (by decide +kernel)
  · exact differs_of_separates (·.whole? == none) (by decide +kernel)
  · exact differs_of_separates (Number.relates .less · (.int 0)) (by decide +kernel)
  · exact differs_of_separates (·.isNaN) (by decide +kernel)
  · exact differs_of_separates (·.whole? == some 2) (by decide +kernel)
  · exact differs_of_separates (·.whole? == some 5) (by decide +kernel)

end Formula

end Grapher
