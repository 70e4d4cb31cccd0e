import Grapher.Proofs.Evaluation.Dependence

/-!
# Evaluation at another moment

A moment says where an evaluation has got to, and a closure remembers the moment of its birth. Nothing
else in a value depends on moments, and an evaluation uses them for one thing only: to tell closures
apart. So a map of moments that keeps different moments different leads from an evaluation to one at
another moment, whose closures were born at the mapped moments (`Value.Moved`).

What a scope holds was made before. A map that moves only moments from the one of the evaluation on
leaves it as it is, and the same expression has the same outcome at both moments, up to the births of
the closures that it makes (`Expr.eval_moved`).
-/

set_option autoImplicit false

namespace Grapher

open Program (Expr)

/-! ## Births -/

mutual

/-- The births of the closures in a value, those in their scopes included. -/
def Value.births : Value → List Moment
  | .number _ | .text _ | .absent => []
  | .function g => g.births

/-- The births in a function. -/
def Function.births : Function → List Moment
  | .primitive _ | .lambda _ _ _ | .quadrature | .integral _ => []
  | .closure birth _ _ helpers scope => birth :: (Scope.births helpers ++ Scope.births scope)
  | .formula _ _ time => time.births
  | .derivative g _ => g.births

/-- The births in the values of a scope. -/
def Scope.births : Scope → List Moment
  | [] => []
  | (_, value) :: entries => value.births ++ Scope.births entries

end

/-- Values with mapped births: values that hold no others, and closures of one binder with the first
birth mapped to the second one, whose scopes hold such values under the names that the body looks up.
The helpers of a closure stay. -/
inductive Value.Moved (f : Moment → Moment) : Value → Value → Prop where
  | basic {value : Value} (isBasic : value.isBasic = true) : Moved f value value
  | closure {birth : Moment} {parameter : String} {body : Expr} {helpers scope scope' : Scope}
      (helped : ∀ name, Option.Rel (Moved f) (helpers.lookup name) (helpers.lookup name))
      (agree : ∀ name ∈ body.namesOutside [parameter],
        Option.Rel (Moved f) (scope.lookup name) (scope'.lookup name)) :
      Moved f (.function (.closure birth parameter body helpers scope))
        (.function (.closure (f birth) parameter body helpers scope'))
  | formula {routine : Option Routine} {intervals : Nat} {time time' : Value}
      (moved : Moved f time time') :
      Moved f (.function (.formula routine intervals time))
        (.function (.formula routine intervals time'))
  | derivative {function function' : Function} {step : Number}
      (moved : Moved f (.function function) (.function function')) :
      Moved f (.function (.derivative function step)) (.function (.derivative function' step))

variable {f : Moment → Moment}

namespace Value

theorem closes_moved : Closes f (Moved f) (Equiv.refl String) := by
  intro birth parameter body helpers scope scope' helped agree
  rw [Expr.rename_refl]
  exact .closure (fun name => (helped name trivial).1) fun name member => (agree name member).1

theorem likeness_moved (injective : Function.Injective f) : Likeness f (Moved f) where
  injective := injective
  basic isBuiltin := .basic (Value.isBasic_of_isBuiltin isBuiltin)
  closes := closes_moved
  inversion moved := by
    cases moved with
    | basic isBasic => exact .basic isBasic
    | @closure birth parameter body helpers scope scope' helped agree =>
      have case := @Likeness.Case.closure _ _ _ closes_moved birth parameter body helpers scope scope'
        (fun name _ => ⟨helped name, fun _ => rfl⟩) fun name member => ⟨agree name member, fun _ => rfl⟩
      rwa [Expr.rename_refl] at case
    | formula moved => exact .formula (.basic rfl) moved
    | derivative moved => exact .derivative moved

end Value

mutual

/-- A map that leaves the births of a value alone leaves the value alone. -/
theorem Value.moved_self : ∀ {value : Value}, (∀ birth ∈ value.births, f birth = birth) →
    value.Moved f value
  | .number _, _ | .text _, _ | .absent, _ => .basic rfl
  | .function _, fixed => Function.moved_self fixed

theorem Function.moved_self : ∀ {g : Function}, (∀ birth ∈ g.births, f birth = birth) →
    Value.Moved f (.function g) (.function g)
  | .primitive _, _ | .lambda _ _ _, _ | .quadrature, _ | .integral _, _ => .basic rfl
  | .closure birth parameter body helpers scope, fixed => by
    rw [Function.births, List.forall_mem_cons, List.forall_mem_append] at fixed
    have moved := @Value.Moved.closure f birth parameter body helpers scope scope
      (Scope.moved_self fixed.2.1) fun name _ => Scope.moved_self fixed.2.2 name
    rwa [fixed.1] at moved
  | .formula _ _ _, fixed => .formula (Value.moved_self fixed)
  | .derivative _ _, fixed => .derivative (Function.moved_self fixed)

theorem Scope.moved_self : ∀ {scope : Scope}, (∀ birth ∈ scope.births, f birth = birth) →
    ∀ name, Option.Rel (Value.Moved f) (scope.lookup name) (scope.lookup name)
  | [], _, _ => .none
  | (word, value) :: entries, fixed, name => by
    rw [Scope.births, List.forall_mem_append] at fixed
    rw [List.lookup_cons]
    cases name == word with
    | true => exact .some (Value.moved_self fixed.1)
    | false => exact Scope.moved_self fixed.2 name

end

/-- A program at the mapped moment has the outcome with mapped births, if the map leaves alone what
the scope and the helpers hold. -/
theorem Program.Expr.eval_moved (injective : Function.Injective f) {moment : Moment}
    (carries : Moment.Carries f moment) {helpers scope : Scope}
    (helped : ∀ birth ∈ helpers.births, f birth = birth)
    (fixed : ∀ birth ∈ scope.births, f birth = birth) (depth : Nat) (e : Expr) :
    Paired (Value.Moved f) (e.eval (applyAt depth) helpers scope moment)
      (e.eval (applyAt depth) helpers scope (f moment)) := by
  have := Value.likeness_moved injective
  exact matches_run_self (keeps_applyAt depth)
    (fun name _ => ⟨Scope.moved_self helped name, fun _ => rfl⟩) (fun _ _ => trivial)
    (fun name _ => ⟨Scope.moved_self fixed name, fun _ => rfl⟩) carries

end Grapher
