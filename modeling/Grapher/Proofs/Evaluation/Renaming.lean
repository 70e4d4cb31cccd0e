import Grapher.Proofs.Evaluation.Dependence

/-!
# Binders with other names

Closures of a binder and of the binder with its names permuted are told apart by no evaluation, as
long as their scopes hold such values under the names that the two bodies look up (`Value.Variant`).
This is a likeness of values, so calls and programs keep it. A permutation that moves none of the
free names of a binder keeps what the closure looks up in any scope: so the binder can be replaced
by the permuted one in every program (`Expr.Interchangeable`).
-/

set_option autoImplicit false

namespace Grapher

open Program (Arithmetic Expr)

/-- Values that differ by the names of binders: equal ones, and closures of a binder and of the
binder with its names permuted, whose scopes hold such values under the names that are looked up. A
name that the scopes do not hold is not moved. -/
inductive Value.Variant : Value → Value → Prop where
  | refl (value : Value) : Variant value value
  | closure {π : Equiv.Perm String} {birth : Moment} {parameter : String} {body : Expr}
      {helpers scope scope' : Scope}
      (held : ∀ name ∈ body.namesOutside [parameter],
        Option.Rel Variant (scope.lookup name) (scope'.lookup (π name)))
      (kept : ∀ name ∈ body.namesOutside [parameter], scope.lookup name = none → π name = name) :
      Variant (.function (.closure birth parameter body helpers scope))
        (.function (.closure birth (π parameter) (body.rename π) helpers scope'))

namespace Value

theorem closes_variant (π : Equiv.Perm String) : Closes id Variant π := by
  intro birth parameter body helpers scope scope' _ agree
  exact .closure (fun name member => (agree name member).1) fun name member => (agree name member).2

instance likeness_variant : Likeness id Variant where
  injective := Function.injective_id
  basic _ := .refl _
  closes := closes_variant (Equiv.refl String)
  inversion like := by
    cases like with
    | refl => exact .refl .refl (closes_variant _) _
    | @closure π _ _ _ _ _ _ held kept =>
      exact .closure (closes_variant π) (Scope.matches_refl .refl _)
        fun name member => ⟨held name member, kept name member⟩

end Value

/-- A binder and the permuted one, if no name that the binder looks up is moved. -/
theorem Run.Matches.renamed {π : Equiv.Perm String} {names : String → Prop} {helpers : Scope}
    {parameter : String} {body : Expr}
    (among : ∀ name ∈ body.namesOutside [parameter], names name)
    (fixed : ∀ name ∈ body.namesOutside [parameter], π name = name) :
    Run.Matches id Value.Variant (Equiv.refl String) names (.closed helpers parameter body)
      (.closed helpers (π parameter) (body.rename π)) := by
  intro scope scope' agree moment _
  refine .ok (Value.closes_variant π (Scope.matches_refl .refl helpers) fun name member => ?_)
  rw [fixed name member]
  exact ⟨(agree name (among name member)).1, fun _ => rfl⟩

namespace Program.Expr

/-- Programs with variants of values for their outcomes in every scope. -/
def Interchangeable (e e' : Expr) : Prop :=
  ∀ helpers, Run.Matches id Value.Variant (Equiv.refl String) (fun _ => True) (e.run apply helpers)
    (e'.run apply helpers)

namespace Interchangeable

variable {e e' : Expr}

theorem refl (e : Expr) : Interchangeable e e := fun helpers =>
  matches_run_self keeps_apply (Scope.matches_refl .refl helpers) fun _ _ => trivial

theorem binder {π : Equiv.Perm String} {parameter : String} {body : Expr}
    (fixed : ∀ name ∈ body.namesOutside [parameter], π name = name) :
    Interchangeable (.binder parameter body) (.binder (π parameter) (body.rename π)) := by
  intro helpers
  rw [run_binder, run_binder]
  exact .renamed (fun _ _ => trivial) fixed

theorem arithmetic (operation : Arithmetic) (same : Interchangeable e e') (right : Expr) :
    Interchangeable (.arithmetic operation e right) (.arithmetic operation e' right) := by
  intro helpers
  rw [run_arithmetic, run_arithmetic]
  exact .binary (same helpers) (refl right helpers) operation

theorem and (same : Interchangeable e e') (right : Expr) :
    Interchangeable (.and e right) (.and e' right) := by
  intro helpers
  rw [run_and, run_and]
  exact .both (same helpers) (refl right helpers)

theorem or (same : Interchangeable e e') (right : Expr) :
    Interchangeable (.or e right) (.or e' right) := by
  intro helpers
  rw [run_or, run_or]
  exact .either (same helpers) (refl right helpers)

theorem runs_refl (es : List Expr) (helpers : Scope) :
    List.Forall₂ (Run.Matches id Value.Variant (Equiv.refl String) fun _ => True)
      (es.map (run apply helpers)) (es.map (run apply helpers)) := by
  rw [List.forall₂_map_left_iff, List.forall₂_map_right_iff]
  exact List.forall₂_same.mpr fun e _ => refl e helpers

theorem compare (same : Interchangeable e e') (relations : List Relation) (others : List Expr) :
    Interchangeable (.compare e relations others) (.compare e' relations others) := by
  intro helpers
  rw [run_chained, run_chained]
  exact .chained (forall₂_zip relations (runs_refl others helpers)) (same helpers)

theorem callee (same : Interchangeable e e') (args : List Expr) :
    Interchangeable (.call e args) (.call e' args) := by
  intro helpers
  rw [run_called, run_called]
  exact .called (runs_refl args helpers) keeps_apply (same helpers)

theorem argument (callee : Expr) (same : Interchangeable e e') (args : List Expr) :
    Interchangeable (.call callee (e :: args)) (.call callee (e' :: args)) := by
  intro helpers
  rw [run_called, run_called]
  exact .called (.cons (same helpers) (runs_refl args helpers)) keeps_apply (refl callee helpers)

end Interchangeable

end Program.Expr

/-- Routines whose programs are interchangeable have the same results. -/
theorem Routine.evaluate_of_interchangeable {routine routine' : Routine}
    (same : routine.program.Interchangeable routine'.program) (intervals : Nat) (scope : Scope)
    (moment : Moment) :
    routine.evaluate apply intervals scope moment = routine'.evaluate apply intervals scope moment :=
  evaluate_of_paired (same (engineHelpers intervals) (Scope.matches_refl .refl scope)
    (Moment.carries_id moment))

end Grapher
