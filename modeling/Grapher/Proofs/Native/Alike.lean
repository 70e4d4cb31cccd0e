import Grapher.Evaluation.Apply
import Grapher.Evaluation.Run
import Grapher.Proofs.Descent
import Mathlib.Data.List.Forall2

/-!
# Runs that agree up to the reason of a failure

Two outcomes are alike if both give the same value or both fail. Every operation on runs keeps this,
as long as the values stay in a class that calls do not leave. The class is needed for one value: an
absent base of a logarithm is no base to the builtin function, and an error to the direct one.
-/

set_option autoImplicit false

namespace Grapher

open Program (Arithmetic)

variable {left left' right right' : Run} {a value : Value}

/-- Two outcomes with the same value, of a given class, or two failures. -/
inductive Alike {α : Type} (good : α → Prop) : Except Fault α → Except Fault α → Prop where
  | ok {value : α} (isGood : good value) : Alike good (.ok value) (.ok value)
  | error (first second : Fault) : Alike good (.error first) (.error second)

namespace Alike

variable {α β : Type} {good : α → Prop} {better : β → Prop}

theorem same {outcome : Except Fault α} (kept : ∀ value, outcome = .ok value → good value) :
    Alike good outcome outcome := by
  cases outcome with
  | ok value => exact .ok (kept value rfl)
  | error fault => exact .error fault fault

theorem refl (outcome : Except Fault α) : Alike (fun _ => True) outcome outcome :=
  same fun _ _ => trivial

theorem bind {first second : Except Fault α} (alike : Alike good first second)
    {next other : α → Except Fault β}
    (more : ∀ value, good value → Alike better (next value) (other value)) :
    Alike better (first >>= next) (second >>= other) := by
  cases alike with
  | ok isGood => exact more _ isGood
  | error fault fault' => exact .error fault fault'

/-- What is known of the second outcome may narrow the class. -/
theorem imp {finer : α → Prop} {first second : Except Fault α} (alike : Alike good first second)
    (more : ∀ value, second = .ok value → good value → finer value) :
    Alike finer first second := by
  cases alike with
  | ok isGood => exact .ok (more _ rfl isGood)
  | error fault fault' => exact .error fault fault'

end Alike

/-! ## Classes of values -/

/-- A value that is a number or a text. -/
def Value.IsPlain (value : Value) : Prop :=
  (∃ number, value = .number number) ∨ ∃ text, value = .text text

/-- A class of values that a call of the value with arguments of the class does not leave. -/
def Value.Keeps (value : Value) (good : Value → Prop) (call : Apply) : Prop :=
  ∀ moment args result, (∀ arg ∈ args, good arg) → call moment value args = .ok result → good result

/-- A class of values that evaluation in a scope does not leave: it has all numbers, texts and
functions, the values of the scope, and what these give when they are called. -/
structure Admits (good : Value → Prop) (call : Apply) (scope : Scope) : Prop where
  plain : ∀ value : Value, value.IsPlain → good value
  function : ∀ function, good (.function function)
  held : ∀ name value, scope.lookup name = some value → good value
  kept : ∀ name value, scope.lookup name = some value → value.Keeps good call

/-- Neither the values of the scope nor what they give when they are called are absent. -/
structure Present (call : Apply) (scope : Scope) : Prop where
  held : ∀ name value, scope.lookup name = some value → value ≠ .absent
  kept : ∀ name value, scope.lookup name = some value → ∀ moment args,
    (∀ arg ∈ args, arg ≠ .absent) → call moment value args ≠ .ok .absent

theorem Value.IsPlain.present (plain : value.IsPlain) : value ≠ .absent := by
  rintro rfl
  rcases plain with ⟨number, same⟩ | ⟨text, same⟩ <;> cases same

theorem Present.admits {call : Apply} {scope : Scope} (present : Present call scope) :
    Admits (· ≠ .absent) call scope where
  plain _ plain := plain.present
  function _ := Value.noConfusion
  held := present.held
  kept name value found moment args result given applied := by
    rintro rfl
    exact present.kept name value found moment args given applied

theorem Admits.everything {call : Apply} {scope : Scope} : Admits (fun _ => True) call scope where
  plain _ _ := trivial
  function _ := trivial
  held _ _ _ := trivial
  kept _ _ _ _ _ _ _ _ := trivial

namespace Value

theorem isPlain_onNumbers {operation : Number → Number → Except Fault Number} {b : Value}
    (found : onNumbers operation a b = .ok value) : value.IsPlain := by
  unfold onNumbers at found
  split at found
  · obtain ⟨number, -, result⟩ := ok_of_bind found
    cases result
    exact .inl ⟨number, rfl⟩
  · cases found

theorem isPlain_repeated {text : String} {count : Int} (found : repeated text count = .ok value) :
    value.IsPlain := by
  unfold repeated at found
  split at found
  · cases found
  · split at found <;> cases found
    exact .inr ⟨_, rfl⟩

theorem isPlain_arithmetic {operation : Arithmetic} {b : Value}
    (found : operation.apply a b = .ok value) : value.IsPlain := by
  cases operation with
  | add =>
    simp only [Arithmetic.apply, add] at found
    split at found
    · cases found
      exact .inr ⟨_, rfl⟩
    · exact isPlain_onNumbers found
  | subtract | divide | power => exact isPlain_onNumbers found
  | multiply =>
    simp only [Arithmetic.apply, multiply] at found
    split at found
    · split at found
      · exact isPlain_repeated found
      · cases found
    · split at found
      · exact isPlain_repeated found
      · cases found
    · exact isPlain_onNumbers found

theorem isPlain_negate (found : a.negate = .ok value) : value.IsPlain := by
  cases a with
  | number a =>
    cases found
    exact .inl ⟨_, rfl⟩
  | _ => cases found

end Value

/-! ## Operations on runs -/

/-- Two runs that are alike at each moment of a scope. -/
def Run.Alike (good : Value → Prop) (scope : Scope) (first second : Run) : Prop :=
  ∀ moment, Grapher.Alike good (first scope moment) (second scope moment)

namespace Run.Alike

variable {call : Apply} {scope : Scope} {good : Value → Prop}

section Plain

variable (plain : ∀ value : Value, value.IsPlain → good value)

include plain

theorem bool (b : Bool) : good (.bool b) := plain _ (.inl ⟨_, rfl⟩)

theorem binary (operation : Arithmetic) (first : Run.Alike good scope left left')
    (second : Run.Alike good scope right right') :
    Run.Alike good scope (.binary operation left right) (.binary operation left' right') := by
  intro moment
  refine (first _).bind fun a _ => ?_
  refine (second _).bind fun b _ => ?_
  exact .same fun value found => plain value (Value.isPlain_arithmetic found)

theorem negated {operand operand' : Run} (alike : Run.Alike good scope operand operand') :
    Run.Alike good scope (.negated operand) (.negated operand') := by
  intro moment
  refine (alike _).bind fun a _ => ?_
  exact .same fun value found => plain value (Value.isPlain_negate found)

theorem denied {operand operand' : Run} (alike : Run.Alike good scope operand operand') :
    Run.Alike good scope (.denied operand) (.denied operand') := by
  intro moment
  exact (alike _).bind fun a _ => .ok (bool plain _)

theorem both (first : Run.Alike good scope left left') (second : Run.Alike good scope right right') :
    Run.Alike good scope (.both left right) (.both left' right') := by
  intro moment
  refine (first _).bind fun a _ => ?_
  split
  · exact (second _).bind fun b _ => .ok (bool plain _)
  · exact .ok (bool plain _)

theorem either (first : Run.Alike good scope left left')
    (second : Run.Alike good scope right right') :
    Run.Alike good scope (.either left right) (.either left' right') := by
  intro moment
  refine (first _).bind fun a _ => ?_
  split
  · exact .ok (bool plain _)
  · exact (second _).bind fun b _ => .ok (bool plain _)

theorem related (relation : Relation) (first : Run.Alike good scope left left')
    (second : Run.Alike good scope right right') :
    Run.Alike good scope (.related ⟨relation, left, right⟩) (.related ⟨relation, left', right'⟩) := by
  intro moment
  refine (first _).bind fun a _ => ?_
  refine (second _).bind fun b _ => ?_
  exact (Grapher.Alike.refl _).bind fun holds _ => .ok (bool plain _)

end Plain

theorem folded {combine : Run → Run → Run}
    (step : ∀ {a a' b b'}, Run.Alike good scope a a' → Run.Alike good scope b b' →
      Run.Alike good scope (combine a b) (combine a' b'))
    {runs runs' : List Run} (all : List.Forall₂ (Run.Alike good scope) runs runs') :
    Run.Alike good scope (.folded combine runs) (.folded combine runs') := by
  cases all with
  | nil => exact fun _ => .error _ _
  | cons first more =>
    exact @List.rel_foldl _ _ _ _ (Run.Alike good scope) (Run.Alike good scope) _ _
      (fun _ _ a _ _ b => step a b) _ _ first _ _ more

theorem arguments {args args' : List Run} (all : List.Forall₂ (Run.Alike good scope) args args')
    (index : Nat) (moment : Moment) :
    Grapher.Alike (fun values => ∀ value ∈ values, good value)
      (Run.arguments index args scope moment) (Run.arguments index args' scope moment) := by
  induction all generalizing index with
  | nil => exact .ok fun _ member => nomatch member
  | cons first _ ih =>
    refine (first _).bind fun value isGood => ?_
    refine (ih _).bind fun values areGood => ?_
    exact .ok (List.forall_mem_cons.mpr ⟨isGood, areGood⟩)

theorem called {callee callee' : Run}
    (same : Run.Alike (·.Keeps good call) scope callee callee')
    {args args' : List Run} (all : List.Forall₂ (Run.Alike good scope) args args') :
    Run.Alike good scope (.called call callee args) (.called call callee' args') := by
  intro moment
  refine (same _).bind fun function kept => ?_
  refine (arguments all 1 moment).bind fun values areGood => ?_
  exact .same fun result found => kept _ values result areGood found

end Run.Alike

/-! ## Conditions of a connective -/

theorem Value.truth_bool (b : Bool) : (Value.bool b).truth = b := by
  cases b <;> rfl

namespace Run

theorem both_truth (left right : Run) : both left right.truth = both left right := by
  funext scope moment
  unfold both truth
  cases left scope (.part moment 0) with
  | error fault => rfl
  | ok a =>
    cases right scope (.part moment 1) with
    | error fault => rfl
    | ok b => simp only [bind, Except.bind, Value.truth_bool]

theorem either_truth (left right : Run) : either left right.truth = either left right := by
  funext scope moment
  unfold either truth
  cases left scope (.part moment 0) with
  | error fault => rfl
  | ok a =>
    cases right scope (.part moment 1) with
    | error fault => rfl
    | ok b => simp only [bind, Except.bind, Value.truth_bool]

theorem truth_both (left right : Run) : both left.truth right = both left right := by
  funext scope moment
  unfold both truth
  cases left scope (.part moment 0) with
  | error fault => rfl
  | ok a => simp only [bind, Except.bind, Value.truth_bool]

theorem truth_either (left right : Run) : either left.truth right = either left right := by
  funext scope moment
  unfold either truth
  cases left scope (.part moment 0) with
  | error fault => rfl
  | ok a => simp only [bind, Except.bind, Value.truth_bool]

/-- Two or more operands may be taken for their truth first, if that changes neither side. -/
theorem folded_truth {combine : Run → Run → Run}
    (left : ∀ a b, combine (truth a) b = combine a b)
    (right : ∀ a b, combine a (truth b) = combine a b) {runs : List Run}
    (several : 2 ≤ runs.length) : folded combine (runs.map truth) = folded combine runs := by
  match runs with
  | first :: second :: more =>
    simp only [List.map_cons, folded, List.foldl_cons, left, right]
    generalize combine first second = start
    clear several
    induction more generalizing start with
    | nil => rfl
    | cons next more ih => simp only [List.map_cons, List.foldl_cons, right, ih]

end Run

end Grapher
