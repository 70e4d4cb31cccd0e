import Grapher.Proofs.Evaluation.Likeness
import Grapher.Proofs.Program.Grammar

/-!
# What an evaluation depends on

A run that looks up only given names gives related outcomes in scopes that match on these names.
Each operation on runs keeps this, so it holds of a program and of the native code of a formula, and
of a program and its copy with permuted names. A call of a function keeps every likeness of values,
at every depth of nesting: the bodies of related closures run in scopes that match on what they look
up. So the result of a formula, which is a number, is the same in any two scopes that hold the same
values under the names that stand in it.

The second run may be at another moment, if a map takes the first moment and everything that comes
later inside of it there step by step (`Moment.Carries`).
-/

set_option autoImplicit false

namespace Grapher

open List Likeness

open Program (Arithmetic Expr)

/-! ## Later moments -/

namespace Moment

/-- A moment or one that comes later inside of it. -/
inductive From (origin : Moment) : Moment → Prop where
  | here : From origin origin
  | part {later : Moment} (index : Nat) (before : From origin later) : From origin (.part later index)
  | entry {later : Moment} (before : From origin later) : From origin (.entry later)

theorem From.trans {origin middle later : Moment} (first : origin.From middle)
    (second : middle.From later) : origin.From later := by
  induction second with
  | here => exact first
  | part index _ ih => exact .part index ih
  | entry _ ih => exact .entry ih

/-- A map of moments that goes along with every step from a moment on. -/
structure Carries (f : Moment → Moment) (origin : Moment) : Prop where
  part : ∀ {later : Moment}, origin.From later → ∀ index, f (.part later index) = .part (f later) index
  entry : ∀ {later : Moment}, origin.From later → f (.entry later) = .entry (f later)

theorem Carries.later {f : Moment → Moment} {origin later : Moment} (carries : Carries f origin)
    (before : origin.From later) : Carries f later :=
  ⟨fun after => carries.part (before.trans after), fun after => carries.entry (before.trans after)⟩

theorem carries_id (origin : Moment) : Carries id origin := ⟨fun _ _ => rfl, fun _ => rfl⟩

end Moment

/-- Calls of related functions with related arguments have related outcomes, by two meanings of
calls. -/
def Apply.Keeps (f : Moment → Moment) (R : Value → Value → Prop) (call call' : Apply) : Prop :=
  ∀ ⦃moment : Moment⦄, Moment.Carries f moment → ∀ ⦃function function' : Value⦄
    ⦃args args' : List Value⦄, R function function' → List.Forall₂ R args args' →
    Paired R (call moment function args) (call' (f moment) function' args')

/-- Two runs that have related outcomes in scopes that match on the given names. -/
def Run.Matches (f : Moment → Moment) (R : Value → Value → Prop) (π : Equiv.Perm String)
    (names : String → Prop) (run run' : Run) : Prop :=
  ∀ ⦃scope scope' : Scope⦄, scope.Matches R π names scope' →
    ∀ ⦃moment : Moment⦄, Moment.Carries f moment →
    Paired R (run scope moment) (run' scope' (f moment))

namespace Native

/-- The name of a reference. -/
def Reference.name : Reference → String
  | .scope name => name
  | .builtin name => name

namespace Code

mutual

/-- The names of native code. -/
def names : Code → List String
  | .number _ => []
  | .reference target => [target.name]
  | .joined _ parts | .helper _ parts | .connective _ parts | .chain parts _ => namesArgs parts
  | .negate operand | .not operand => names operand
  | .call function args => function.name :: namesArgs args

/-- The names of several parts. -/
def namesArgs : List Code → List String
  | [] => []
  | code :: codes => names code ++ namesArgs codes

end

end Code

end Native

variable {f : Moment → Moment} {R : Value → Value → Prop} [likeness : Likeness f R]
  {π : Equiv.Perm String} {names : String → Prop} {call call' : Apply}
  {helpers : Scope}

/-! ## Operations on runs -/

namespace Run.Matches

omit likeness in
/-- A part of an evaluation is carried along, at its own moment. -/
theorem part {run run' : Run} (agrees : run.Matches f R π names run') {scope scope' : Scope}
    (agree : scope.Matches R π names scope') {moment : Moment} (carries : Moment.Carries f moment)
    (index : Nat) : Paired R (run scope (.part moment index)) (run' scope' (.part (f moment) index)) := by
  rw [← carries.part .here]
  exact agrees agree (carries.later (.part index .here))

omit likeness in
theorem nothing : Run.Matches f R π names .nothing .nothing := fun _ _ _ _ _ => .error _

include likeness

theorem constant {value : Value} (isBuiltin : value.isBuiltin = true) :
    Run.Matches f R π names (.constant value) (.constant value) :=
  fun _ _ _ _ _ => .ok (basic isBuiltin)

theorem named (helped : helpers.Stands R) {name : String} (among : names name) :
    Run.Matches f R π names (.named helpers name) (.named helpers (π name)) := by
  intro scope scope' agree moment _
  obtain ⟨held, other⟩ := agree name among
  unfold Run.named Program.resolve
  generalize scope.lookup name = first, scope'.lookup (π name) = second at held other
  cases held with
  | some like => exact .ok like
  | none =>
    have held := (helped name trivial).1
    rw [Equiv.refl_apply] at held
    rw [other rfl]
    cases found : helpers.lookup name with
    | some value =>
      rw [found] at held
      cases held with
      | some like => exact .ok like
    | none =>
      unfold builtin?
      cases Constant.ofName? name with
      | some constant => exact .ok (basic rfl)
      | none =>
        cases Primitive.ofName? name with
        | some primitive => exact .ok (basic rfl)
        | none => exact .error _

section Operand

variable {operand operand' : Run} (agrees : operand.Matches f R π names operand')

include agrees

theorem negated : Run.Matches f R π names (.negated operand) (.negated operand') := by
  intro scope scope' agree moment carries
  exact (agrees agree carries).bind fun a a' like =>
    Likeness.paired (Likeness.twin like).negate fun _ => Value.isPlain_negate

theorem truth : Run.Matches f R π names (.truth operand) (.truth operand') := by
  intro scope scope' agree moment carries
  refine (agrees agree carries).bind fun a a' like => ?_
  rw [Likeness.truth like]
  exact Likeness.bool _

theorem denied : Run.Matches f R π names (.denied operand) (.denied operand') := by
  intro scope scope' agree moment carries
  refine (agrees agree carries).bind fun a a' like => ?_
  rw [Likeness.truth like]
  exact Likeness.bool _

end Operand

section Operands

variable {left left' right right' : Run} (first : left.Matches f R π names left')
  (second : right.Matches f R π names right')

include first second

theorem binary (operation : Arithmetic) :
    Run.Matches f R π names (.binary operation left right) (.binary operation left' right') := by
  intro scope scope' agree moment carries
  refine (first.part agree carries 0).bind fun a a' likeLeft => ?_
  refine (second.part agree carries 1).bind fun b b' likeRight => ?_
  exact Likeness.arithmetic operation likeLeft likeRight

theorem both : Run.Matches f R π names (.both left right) (.both left' right') := by
  intro scope scope' agree moment carries
  refine (first.part agree carries 0).bind fun a a' like => ?_
  rw [Likeness.truth like]
  split
  · exact second.truth.part agree carries 1
  · exact Likeness.bool false

theorem either : Run.Matches f R π names (.either left right) (.either left' right') := by
  intro scope scope' agree moment carries
  refine (first.part agree carries 0).bind fun a a' like => ?_
  rw [Likeness.truth like]
  split
  · exact Likeness.bool true
  · exact second.truth.part agree carries 1

theorem related (relation : Relation) :
    Run.Matches f R π names (.related ⟨relation, left, right⟩) (.related ⟨relation, left', right'⟩) := by
  intro scope scope' agree moment carries
  refine (first.part agree carries 0).bind fun a a' likeLeft => ?_
  refine (second.part agree carries 1).bind fun b b' likeRight => ?_
  rw [relates relation likeLeft likeRight]
  exact (Paired.refl (fun _ => rfl) _).bind fun holds holds' same => same ▸ bool holds

end Operands

omit likeness

theorem folded {combine : Run → Run → Run}
    (step : ∀ {a a' b b'}, Run.Matches f R π names a a' → Run.Matches f R π names b b' →
      Run.Matches f R π names (combine a b) (combine a' b'))
    {runs runs' : List Run} (all : Forall₂ (Run.Matches f R π names) runs runs') :
    Run.Matches f R π names (.folded combine runs) (.folded combine runs') := by
  cases all with
  | nil => exact nothing
  | cons first more =>
    exact @rel_foldl _ _ _ _ (Run.Matches f R π names) (Run.Matches f R π names) _ _
      (fun _ _ a _ _ b => step a b) _ _ first _ _ more

section Arguments

variable {args args' : List Run} (all : Forall₂ (Run.Matches f R π names) args args')

include all

theorem arguments {scope scope' : Scope} (agree : scope.Matches R π names scope') {moment : Moment}
    (carries : Moment.Carries f moment) (index : Nat) :
    Paired (Forall₂ R) (Run.arguments index args scope moment)
      (Run.arguments index args' scope' (f moment)) := by
  induction all generalizing index with
  | nil => exact .ok .nil
  | cons first _ ih =>
    refine (first.part agree carries index).bind fun value value' like => ?_
    refine (ih _).bind fun values values' likes => ?_
    exact .ok (.cons like likes)

theorem called (keeps : call.Keeps f R call') {callee callee' : Run}
    (function : callee.Matches f R π names callee') :
    Run.Matches f R π names (.called call callee args) (.called call' callee' args') := by
  intro scope scope' agree moment carries
  refine (function.part agree carries 0).bind fun g g' like => ?_
  refine (arguments all agree carries 1).bind fun values values' likes => ?_
  have entered := keeps (carries.later (.entry .here)) like likes
  rwa [carries.entry .here] at entered

theorem applied {function : List Value → Except Fault Value}
    (keeps : ∀ {values values' : List Value}, Forall₂ R values values' →
      Paired R (function values) (function values')) :
    Run.Matches f R π names (.applied function args) (.applied function args') := by
  intro scope scope' agree moment carries
  exact (arguments all agree carries 1).bind fun values values' likes => keeps likes

end Arguments

theorem closed (closes : Closes f R π) (helped : helpers.Stands R) {parameter : String} {body : Expr}
    (among : ∀ name ∈ body.namesOutside [parameter], names name) :
    Run.Matches f R π names (.closed helpers parameter body)
      (.closed helpers (π parameter) (body.rename π)) :=
  fun _ _ agree _ _ => .ok (closes helped fun name member => agree name (among name member))

section Chains

variable {more more' : List (Relation × Run)}
  (all : Forall₂ (fun next next' => next.1 = next'.1 ∧ next.2.Matches f R π names next'.2)
    more more')

include likeness all

theorem linked {scope scope' : Scope} (agree : scope.Matches R π names scope') {moment : Moment}
    (carries : Moment.Carries f moment) {left left' : Value} (like : R left left') (index : Nat) :
    Paired Eq (Run.linked index left more scope moment)
      (Run.linked index left' more' scope' (f moment)) := by
  induction all generalizing index left left' with
  | nil => exact .ok rfl
  | @cons next next' more more' both _ ih =>
    obtain ⟨relation, term⟩ := next
    obtain ⟨relation', term'⟩ := next'
    have agrees : term.Matches f R π names term' := both.2
    obtain rfl : relation = relation' := both.1
    refine (agrees.part agree carries index).bind fun right right' likeRight => ?_
    rw [relates relation like likeRight]
    refine (Paired.refl (fun _ => rfl) _).bind fun holds holds' same => ?_
    subst same
    cases holds with
    | true => exact ih likeRight _
    | false => exact .ok rfl

theorem chained {first first' : Run} (agrees : first.Matches f R π names first') :
    Run.Matches f R π names (.chained first more) (.chained first' more') := by
  intro scope scope' agree moment carries
  refine (agrees.part agree carries 0).bind fun a a' like => ?_
  refine (linked all agree carries like 1).bind fun holds holds' same => ?_
  exact same ▸ bool holds

end Chains

end Run.Matches

/-! ## Programs -/

namespace Program.Expr

omit likeness in
theorem forall₂_zip (relations : List Relation) {runs runs' : List Run}
    (all : Forall₂ (Run.Matches f R π names) runs runs') :
    Forall₂ (fun next next' => next.1 = next'.1 ∧ next.2.Matches f R π names next'.2)
      (relations.zip runs) (relations.zip runs') := by
  induction all generalizing relations with
  | nil => simp
  | cons first _ ih =>
    cases relations with
    | nil => simp
    | cons relation relations => exact .cons ⟨rfl, first⟩ (ih relations)

section

variable (closes : Closes f R π) (keeps : call.Keeps f R call') (helped : helpers.Stands R)

include likeness closes keeps helped

set_option linter.unusedSectionVars false in
mutual

/-- A program looks up the names that stand in it outside of its binders. With all of its names
permuted it looks up the permuted ones. -/
theorem matches_run : ∀ {e : Expr}, (∀ name ∈ e.namesOutside [], names name) →
    Run.Matches f R π names (e.run call helpers) ((e.rename π).run call' helpers)
  | .number value, _ => by
    rw [rename, run_number]
    exact .constant rfl
  | .name word, among => by
    rw [rename, run_name, run_name]
    exact .named helped (among word (by simp [namesOutside]))
  | .negate operand, among => by
    rw [rename, run_negate, run_negate]
    exact .negated (matches_run among)
  | .not operand, among => by
    rw [rename, run_not, run_not]
    exact .denied (matches_run among)
  | .arithmetic operation left right, among => by
    rw [namesOutside, forall_mem_append] at among
    rw [rename, run_arithmetic, run_arithmetic]
    exact .binary (matches_run among.1) (matches_run among.2) operation
  | .and left right, among => by
    rw [namesOutside, forall_mem_append] at among
    rw [rename, run_and, run_and]
    exact .both (matches_run among.1) (matches_run among.2)
  | .or left right, among => by
    rw [namesOutside, forall_mem_append] at among
    rw [rename, run_or, run_or]
    exact .either (matches_run among.1) (matches_run among.2)
  | .compare first relations others, among => by
    rw [namesOutside, forall_mem_append] at among
    rw [rename, run_chained, run_chained]
    exact .chained (forall₂_zip relations (matches_runs among.2)) (matches_run among.1)
  | .call callee args, among => by
    rw [namesOutside, forall_mem_append] at among
    rw [rename, run_called, run_called]
    exact .called (matches_runs among.2) keeps (matches_run among.1)
  | .binder parameter body, among => by
    rw [rename, run_binder, run_binder]
    exact .closed closes helped among

theorem matches_runs : ∀ {es : List Expr}, (∀ name ∈ namesOutsideArgs [] es, names name) →
    Forall₂ (Run.Matches f R π names) (es.map (Expr.run call helpers))
      ((renameArgs π es).map (Expr.run call' helpers))
  | [], _ => by simp [renameArgs]
  | e :: es, among => by
    rw [namesOutsideArgs, forall_mem_append] at among
    rw [renameArgs, map_cons, map_cons]
    exact .cons (matches_run among.1) (matches_runs among.2)

end

end

include likeness in
theorem matches_run_self (keeps : call.Keeps f R call') (helped : helpers.Stands R) {e : Expr}
    (among : ∀ name ∈ e.namesOutside [], names name) :
    Run.Matches f R (Equiv.refl String) names (e.run call helpers) (e.run call' helpers) := by
  have agrees := matches_run closes keeps helped among
  rwa [rename_refl] at agrees

end Program.Expr

/-! ## Native code -/

namespace Native

include likeness

theorem matches_reference {target : Reference} (among : names target.name) :
    Run.Matches f R (Equiv.refl String) names target.run target.run := by
  cases target with
  | scope name =>
    intro scope scope' agree moment _
    have held := (agree name among).1
    unfold Reference.run
    dsimp only
    rw [Equiv.refl_apply] at held
    generalize scope.lookup name = first, scope'.lookup name = second at held
    cases held with
    | some like => exact .ok like
    | none => exact .error _
  | builtin name => exact @Run.Matches.named f R _ (Equiv.refl String) names [] Scope.matches_nil name among

theorem paired_helper (function : Helper) {args args' : List Value} (all : Forall₂ R args args') :
    Paired R (function.apply args) (function.apply args') := by
  have primitive : ∀ p : Primitive, Paired R (p.apply args) (p.apply args') :=
    fun p => p.paired_apply all
  cases function with
  | divide | power => exact .error _
  | log =>
    cases all with
    | nil => exact primitive .log
    | cons first rest =>
      cases rest with
      | nil => exact primitive .log
      | cons second more =>
        cases more with
        | nil => exact onNumbers Number.logBase first second
        | cons => exact primitive .log
  | sqrt => exact primitive .sqrt
  | sin => exact primitive .sin
  | cos => exact primitive .cos
  | tan => exact primitive .tan
  | abs => exact primitive .abs
  | exp => exact primitive .exp
  | log10 => exact primitive .log10

theorem matches_helper (function : Helper) {args args' : List Run}
    (all : Forall₂ (Run.Matches f R π names) args args') :
    Run.Matches f R π names (function.run args) (function.run args') := by
  have applied := Run.Matches.applied all (paired_helper function)
  cases all with
  | nil => cases function <;> exact applied
  | cons first rest =>
    cases rest with
    | nil => cases function <;> exact applied
    | cons second more =>
      cases more with
      | nil =>
        cases function with
        | divide => exact .binary first second .divide
        | power => exact .binary first second .power
        | _ => exact applied
      | cons => cases function <;> exact applied

namespace Code

omit likeness in
theorem evalArgs_eq_map (codes : List Code) : evalArgs call codes = codes.map (eval call) := by
  induction codes with
  | nil => rfl
  | cons code codes ih => rw [evalArgs, ih, map_cons]

omit likeness in
/-- What one makes of the runs of parts, in either meaning of calls. -/
theorem forall₂_parts {α : Type} {parts : List α} {made made' : α → Run}
    (all : ∀ part ∈ parts, Run.Matches f R π names (made part) (made' part)) :
    Forall₂ (Run.Matches f R π names) (parts.map made) (parts.map made') := by
  rw [forall₂_map_left_iff, forall₂_map_right_iff]
  exact forall₂_same.mpr all

variable (keeps : call.Keeps f R call')

include keeps

set_option linter.unusedSectionVars false in
mutual

/-- Native code looks up the names that stand in it. -/
theorem matches_eval : ∀ {code : Code}, (∀ name ∈ code.names, names name) →
    Run.Matches f R (Equiv.refl String) names (code.eval call) (code.eval call')
  | .number value, _ => by exact .constant rfl
  | .reference target, among => by exact matches_reference (among _ (by simp [Code.names]))
  | .joined joiner parts, among => by
    rw [eval, eval, evalArgs_eq_map, evalArgs_eq_map]
    exact .folded (fun first second => .binary first second _) (forall₂_parts (matches_evals among))
  | .helper function args, among => by
    rw [eval, eval, evalArgs_eq_map, evalArgs_eq_map]
    exact matches_helper function (forall₂_parts (matches_evals among))
  | .negate operand, among => by exact .negated (matches_eval among)
  | .not operand, among => by exact .denied (matches_eval among)
  | .connective joint parts, among => by
    rw [eval, eval, evalArgs_eq_map, evalArgs_eq_map, map_map, map_map]
    refine .folded ?_ (forall₂_parts fun part member => .truth (matches_evals among part member))
    intro a a' b b' first second
    cases joint with
    | and => exact .both first second
    | or => exact .either first second
  | .chain terms relations, among => by
    rw [eval, eval, evalArgs_eq_map, evalArgs_eq_map, Program.linksOf_map, Program.linksOf_map,
      map_map, map_map]
    refine .folded .both (forall₂_parts fun link member => ?_)
    obtain ⟨left, right⟩ := Program.mem_linksOf member
    exact .related (matches_evals among _ left) (matches_evals among _ right) link.head
  | .call function args, among => by
    rw [Code.names, forall_mem_cons] at among
    rw [eval, eval, evalArgs_eq_map, evalArgs_eq_map]
    exact .called (forall₂_parts (matches_evals among.2)) keeps (matches_reference among.1)

theorem matches_evals : ∀ {codes : List Code}, (∀ name ∈ namesArgs codes, names name) →
    ∀ code ∈ codes, Run.Matches f R (Equiv.refl String) names (code.eval call) (code.eval call')
  | [], _ => by simp
  | code :: codes, among => by
    rw [namesArgs, forall_mem_append] at among
    rw [forall_mem_cons]
    exact ⟨matches_eval among.1, matches_evals among.2⟩

end

end Code

end Native

/-! ## Results of formulas -/

include likeness in
/-- Related outcomes have the same result. -/
theorem resultOf_congr {value value' : Value} (like : R value value') :
    resultOf value = resultOf value' := by
  cases twin like <;> rfl

omit likeness in
theorem stands_engineHelpers {intervals : Nat} (counted : Counts R intervals) :
    (engineHelpers intervals).Stands R :=
  .cons counted Scope.matches_nil

namespace Routine

variable {scope scope' : Scope} {routine routine' : Routine} {intervals : Nat} {moment : Moment}

include likeness

/-- Programs with related outcomes have the same result. -/
theorem evaluate_of_paired {moment' : Moment}
    (paired : Paired R (routine.program.eval call (engineHelpers intervals) scope moment)
      (routine'.program.eval call' (engineHelpers intervals) scope' moment')) :
    routine.evaluate call intervals scope moment
      = routine'.evaluate call' intervals scope' moment' := by
  unfold evaluate
  generalize routine.program.eval call (engineHelpers intervals) scope moment = first at paired ⊢
  generalize routine'.program.eval call' (engineHelpers intervals) scope' moment' = second at paired ⊢
  cases paired with
  | ok like => exact resultOf_congr like
  | error => rfl

variable (keeps : call.Keeps f R call') (agree : scope.Matches R (Equiv.refl String) names scope')
  (carries : Moment.Carries f moment)

include keeps agree carries

theorem evaluate_of_matches (counted : Counts R intervals)
    (among : ∀ name ∈ routine.program.namesOutside [], names name) :
    routine.evaluate call intervals scope moment
      = routine.evaluate call' intervals scope' (f moment) :=
  evaluate_of_paired
    (Expr.matches_run_self keeps (stands_engineHelpers counted) among agree carries)

theorem run_of_matches {code : Native.Code} (among : ∀ name ∈ code.names, names name) :
    resultOf (code.run call scope moment) = resultOf (code.run call' scope' (f moment)) := by
  have paired := Native.Code.matches_eval keeps among agree carries
  unfold Native.Code.run
  generalize code.eval call scope moment = first at paired ⊢
  generalize code.eval call' scope' (f moment) = second at paired ⊢
  cases paired with
  | ok like => exact resultOf_congr like
  | error => rfl

theorem evaluateNative_of_matches (counted : Counts R intervals)
    (among : ∀ name ∈ routine.program.namesOutside [], names name)
    (native : ∀ code, routine.native = some code → ∀ name ∈ code.names, names name) :
    routine.evaluateNative call intervals scope moment
      = routine.evaluateNative call' intervals scope' (f moment) := by
  unfold evaluateNative
  cases found : routine.native with
  | some code => exact run_of_matches keeps agree carries (native code found)
  | none => exact evaluate_of_matches keeps agree carries counted among

end Routine

/-! ## Calls -/

theorem simpson_congr {sampled sampled' : Float → Except Fault Float}
    (paired : ∀ x, Paired Eq (sampled x) (sampled' x)) :
    Calculus.simpson sampled = Calculus.simpson sampled' := by
  have samples : Calculus.sample sampled = Calculus.sample sampled' := by
    funext x
    unfold Calculus.sample
    generalize sampled x = first, sampled' x = second, paired x = same
    cases same with
    | ok same => exact same
    | error => rfl
  funext a b intervals
  simp only [Calculus.simpson, Calculus.weightedSum, samples]

theorem isPlain_integralBetween {sampled : Float → Except Fault Float} {lower upper value : Value}
    {count : Number} (found : integralBetween sampled lower upper count = .ok value) :
    value.IsPlain := by
  unfold integralBetween integrate at found
  split at found
  · obtain ⟨a, -, found⟩ := ok_of_bind found
    obtain ⟨b, -, found⟩ := ok_of_bind found
    obtain ⟨-, -, found⟩ := ok_of_bind found
    obtain ⟨a, -, found⟩ := ok_of_bind found
    obtain ⟨b, -, found⟩ := ok_of_bind found
    obtain ⟨intervals, -, found⟩ := ok_of_bind found
    cases found
    exact .inl ⟨_, rfl⟩
  · cases found

include likeness

theorem paired_centralDifference {function function' : Value → Except Fault Value}
    (paired : ∀ y y', R y y' → Paired R (function y) (function' y'))
    {place place' : Value} (like : R place place') (step : Number) :
    Paired R (Calculus.centralDifference Value.operations function place (.number step))
      (Calculus.centralDifference Value.operations function' place' (.number step)) := by
  have two : R (.int 2) (.int 2) := basic rfl
  have same : R (.number step) (.number step) := basic rfl
  have moved : ∀ operation : Arithmetic,
      Paired R (operation.apply place (.number step)) (operation.apply place' (.number step)) :=
    fun operation => arithmetic operation like same
  refine (moved .add).bind fun right right' likeRight => ?_
  refine (paired right right' likeRight).bind fun above above' likeAbove => ?_
  refine (moved .subtract).bind fun left left' likeLeft => ?_
  refine (paired left left' likeLeft).bind fun below below' likeBelow => ?_
  refine (arithmetic .subtract likeAbove likeBelow).bind fun rise rise' likeRise => ?_
  refine (arithmetic .multiply two same).bind fun run run' likeRun => ?_
  exact onNumbers Number.exactQuotient likeRise likeRun

omit likeness in
theorem matches_parameterScope (parameters : List String) {args args' : List Value}
    (all : Forall₂ R args args') :
    Scope.Matches R (Equiv.refl String) names (Function.parameterScope parameters args)
      (Function.parameterScope parameters args') := by
  refine Scope.matches_of_forall₂ (forall₂_reverse_iff.mpr ?_)
  induction all generalizing parameters with
  | nil => simp
  | cons like _ ih =>
    cases parameters with
    | nil => simp
    | cons parameter parameters => exact .cons ⟨rfl, like⟩ (ih parameters)

section Calls

variable (keeps : call.Keeps f R call') {moment : Moment} (carries : Moment.Carries f moment)

include keeps carries

/-- The integral of a function over limits, of which the first three arguments are related. -/
theorem paired_integralBetween {integrand integrand' lower lower' upper upper' : Value}
    (like : R integrand integrand') (low : R lower lower') (high : R upper upper') (count : Number) :
    Paired R (integralBetween (sampleAt call moment integrand) lower upper count)
      (integralBetween (sampleAt call' (f moment) integrand') lower' upper' count) := by
  have samples : ∀ x, Paired Eq (sampleAt call moment integrand x)
      (sampleAt call' (f moment) integrand' x) := by
    intro x
    refine (keeps carries like (.cons (basic rfl) .nil)).bind fun value value' same => ?_
    rw [(twin same).double]
    exact .refl (fun _ => rfl) _
  refine paired ?_ fun _ => isPlain_integralBetween
  unfold integralBetween integrate
  rw [(twin low).double, (twin high).double, simpson_congr samples]

namespace Function

variable {args args' : List Value} (all : Forall₂ R args args')

include all

/-- The bodies of related closures run in scopes that match on the names they look up. -/
theorem paired_closure (closes : Closes f R π) (helped : helpers.Stands R) {birth birth' : Moment}
    {parameter : String} {body : Expr} {scope scope' : Scope}
    (agree : scope.Matches R π (· ∈ body.namesOutside [parameter]) scope') :
    Paired R ((closure birth parameter body helpers scope).applyWith call moment args)
      ((closure birth' (π parameter) (body.rename π) helpers scope').applyWith call' (f moment)
        args') := by
  match all with
  | .nil => exact .error _
  | .cons (a := value) (b := value') like .nil =>
    have inside : Scope.Matches R π (· ∈ body.namesOutside []) ((parameter, value) :: scope)
        ((π parameter, value') :: scope') := by
      refine .cons like (agree.mono fun name found => ?_)
      rw [Expr.mem_namesOutside]
      exact ⟨by simpa using found.2, found.1⟩
    exact Expr.matches_run closes keeps helped (fun _ => id) inside carries
  | .cons _ (.cons _ _) => exact .error _

theorem paired_quadrature :
    Paired R (quadrature.applyWith call moment args) (quadrature.applyWith call' (f moment) args') := by
  match all with
  | .nil | .cons _ .nil | .cons _ (.cons _ .nil) => exact .error _
  | .cons integrand (.cons low (.cons high .nil)) =>
    exact paired_integralBetween keeps carries integrand low high _
  | .cons integrand (.cons low (.cons high (.cons same .nil))) =>
    cases twin same with
    | number count => exact paired_integralBetween keeps carries integrand low high count
    | _ => exact .error _
  | .cons _ (.cons _ (.cons _ (.cons _ (.cons _ _)))) =>
    simp only [applyWith]
    exact .error _

theorem paired_integral (intervals : Nat) :
    Paired R ((integral intervals).applyWith call moment args)
      ((integral intervals).applyWith call' (f moment) args') := by
  match all with
  | .nil | .cons _ .nil | .cons _ (.cons _ .nil) => exact .error _
  | .cons integrand (.cons low (.cons high .nil)) =>
    exact paired_integralBetween keeps carries integrand low high _
  | .cons _ (.cons _ (.cons _ (.cons _ _))) => exact .error _

theorem paired_formula (routine : Option Routine) {intervals : Nat} (counted : Counts R intervals)
    {time time' : Value} (same : R time time') :
    Paired R ((formula routine intervals time).applyWith call moment args)
      ((formula routine intervals time').applyWith call' (f moment) args') := by
  match all with
  | .nil => exact .error _
  | .cons (a := x) (b := x') like .nil =>
    cases routine with
    | none => exact .ok (basic rfl)
    | some routine =>
      have agree : Scope.Matches R (Equiv.refl String) (fun _ => True) (variableScope x time)
          (variableScope x' time') :=
        .cons like (.cons same (.cons same (.cons (basic rfl)
          (.cons (basic rfl) Scope.matches_nil))))
      have results := @Routine.evaluateNative_of_matches f R _ _ call call' _ _ routine intervals
        moment keeps agree carries counted (fun _ _ => trivial) fun _ _ _ _ => trivial
      simp only [applyWith, results]
      exact .ok (basic rfl)
  | .cons _ (.cons _ _) => exact .error _

theorem paired_derivative {function function' : Function} (same : R (.function function) (.function function'))
    (step : Number) :
    Paired R ((derivative function step).applyWith call moment args)
      ((derivative function' step).applyWith call' (f moment) args') := by
  match all with
  | .nil => exact .error _
  | .cons like .nil =>
    exact paired_centralDifference (fun y y' near => keeps carries same (.cons near .nil)) like step
  | .cons _ (.cons _ _) => exact .error _

/-- Related functions of related arguments, one case for each kind of function. -/
theorem paired_applyWith {function function' : Function}
    (like : R (.function function) (.function function')) :
    Paired R (function.applyWith call moment args) (function'.applyWith call' (f moment) args') := by
  cases inversion like with
  | closure closes helped agree => exact paired_closure keeps carries all closes helped agree
  | formula counted same => exact paired_formula keeps carries all _ counted same
  | derivative same => exact paired_derivative keeps carries all same _
  | basic isBasic =>
    cases function with
    | primitive p => exact p.paired_apply all
    | lambda label parameters body =>
      simp only [applyWith, all.length_eq]
      split
      · exact Expr.matches_run_self keeps Scope.matches_nil (fun _ _ => trivial)
          (@matches_parameterScope R (fun _ => True) parameters _ _ all) carries
      · exact .error _
    | quadrature => exact paired_quadrature keeps carries all
    | integral intervals => exact paired_integral keeps carries all intervals
    | closure | formula | derivative => cases isBasic

end Function

end Calls

/-- Calls keep every likeness, at every depth. -/
theorem keeps_applyAt (depth : Nat) : (applyAt depth).Keeps f R (applyAt depth) := by
  induction depth with
  | zero => exact fun _ _ _ _ _ _ _ _ => .error _
  | succ depth ih =>
    intro moment carries function function' args args' like all
    cases twin like with
    | function => exact Function.paired_applyWith ih carries all like
    | _ => exact .error _

theorem keeps_apply : apply.Keeps f R apply := keeps_applyAt depthLimit

omit likeness

/-! ## Scopes that agree -/

theorem stable_apply : apply.Keeps id Value.Like apply := keeps_apply

/-- A program has like outcomes in scopes that agree on the names that it looks up. -/
theorem Program.Expr.stable_run (stable : call.Keeps id Value.Like call) (helpers : Scope) {e : Expr}
    (among : ∀ name ∈ e.namesOutside [], names name) (scope scope' : Scope)
    (agree : scope.Agree names scope') (moment : Moment) :
    Paired Value.Like (e.run call helpers scope moment) (e.run call helpers scope' moment) :=
  matches_run_self stable (Scope.matches_refl .refl helpers) among agree.matches
    (Moment.carries_id moment)

namespace Routine

variable {scope scope' : Scope} {routine : Routine}

theorem evaluate_congr (stable : call.Keeps id Value.Like call) (agree : scope.Agree names scope')
    (among : ∀ name ∈ routine.program.namesOutside [], names name) (intervals : Nat)
    (moment : Moment) :
    routine.evaluate call intervals scope moment = routine.evaluate call intervals scope' moment :=
  evaluate_of_matches stable agree.matches (Moment.carries_id moment) (.refl _) among

theorem evaluateNative_congr (stable : call.Keeps id Value.Like call) (agree : scope.Agree names scope')
    (among : ∀ name ∈ routine.program.namesOutside [], names name)
    (native : ∀ code, routine.native = some code → ∀ name ∈ code.names, names name)
    (intervals : Nat) (moment : Moment) :
    routine.evaluateNative call intervals scope moment
      = routine.evaluateNative call intervals scope' moment :=
  evaluateNative_of_matches stable agree.matches (Moment.carries_id moment) (.refl _) among native

end Routine

end Grapher
