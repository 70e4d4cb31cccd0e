import Grapher.Proofs.Program.Grammar

/-!
# Names that every evaluation looks up

A run fails in a scope if it has no value there at any moment. An operand that fails makes the whole
fail, as long as the operand is looked at, whatever comes of the operands before it. Which names a
program looks at in every evaluation can be seen on the program: all of them but those behind the
first condition of a connective, behind the second term of a chain, and in the body of a binder.
-/

set_option autoImplicit false

namespace Grapher

open Program (Arithmetic Expr)

variable {operand : Run} {args : List Run}

/-- A run without a value in a scope. -/
def Run.Fails (scope : Scope) (run : Run) : Prop :=
  ∀ moment, ∃ fault, run scope moment = .error fault

theorem error_of_first {α β : Type} {outcome : Except Fault α} {next : α → Except Fault β}
    (first : ∃ fault, outcome = .error fault) : ∃ fault, outcome >>= next = .error fault := by
  obtain ⟨fault, rfl⟩ := first
  exact ⟨fault, rfl⟩

theorem error_of_next {α β : Type} {outcome : Except Fault α} {next : α → Except Fault β}
    (second : ∀ a, ∃ fault, next a = .error fault) : ∃ fault, outcome >>= next = .error fault := by
  cases outcome with
  | error fault => exact ⟨fault, rfl⟩
  | ok a => exact second a

namespace Run.Fails

variable {scope : Scope}

theorem named {helpers : Scope} {name : String} {fault : Fault}
    (undefined : Program.resolve helpers scope name = .error fault) :
    Run.Fails scope (.named helpers name) :=
  fun _ => ⟨fault, undefined⟩

theorem binary (operation : Arithmetic) {left right : Run} (fails : left.Fails scope ∨ right.Fails scope) :
    Run.Fails scope (.binary operation left right) := by
  intro moment
  rcases fails with first | second
  · exact error_of_first (first _)
  · exact error_of_next fun _ => error_of_first (second _)

theorem negated (fails : operand.Fails scope) : Run.Fails scope (.negated operand) :=
  fun moment => error_of_first (fails moment)

theorem denied (fails : operand.Fails scope) : Run.Fails scope (.denied operand) :=
  fun moment => error_of_first (fails moment)

theorem truth (fails : operand.Fails scope) : Run.Fails scope (.truth operand) :=
  fun moment => error_of_first (fails moment)

theorem related {link : Link Run Relation}
    (fails : link.left.Fails scope ∨ link.right.Fails scope) : Run.Fails scope (.related link) := by
  intro moment
  rcases fails with first | second
  · exact error_of_first (first _)
  · exact error_of_next fun _ => error_of_first (second _)

theorem arguments {arg : Run} (member : arg ∈ args) (fails : arg.Fails scope) (index : Nat)
    (moment : Moment) : ∃ fault, Run.arguments index args scope moment = .error fault := by
  induction args generalizing index with
  | nil => cases member
  | cons first args ih =>
    rcases List.mem_cons.mp member with rfl | later
    · exact error_of_first (fails _)
    · exact error_of_next fun _ => error_of_first (ih later _)

theorem callee {call : Apply} {function : Run} (fails : function.Fails scope) (args : List Run) :
    Run.Fails scope (.called call function args) :=
  fun _ => error_of_first (fails _)

theorem called {call : Apply} {function : Run} {arg : Run} (member : arg ∈ args)
    (fails : arg.Fails scope) : Run.Fails scope (.called call function args) :=
  fun moment => error_of_next fun _ => error_of_first (arguments member fails 1 moment)

theorem applied {function : List Value → Except Fault Value} {arg : Run} (member : arg ∈ args)
    (fails : arg.Fails scope) : Run.Fails scope (.applied function args) :=
  fun moment => error_of_first (arguments member fails 1 moment)

/-- Operands from left to right, all of which are looked at. -/
theorem folded {combine : Run → Run → Run}
    (step : ∀ {a b : Run}, a.Fails scope ∨ b.Fails scope → (combine a b).Fails scope)
    {runs : List Run} {run : Run} (member : run ∈ runs) (fails : run.Fails scope) :
    Run.Fails scope (.folded combine runs) := by
  have rest : ∀ (more : List Run) (first : Run), (first.Fails scope ∨ run ∈ more) →
      (more.foldl combine first).Fails scope := by
    intro more
    induction more with
    | nil =>
      rintro first (here | none)
      · exact here
      · cases none
    | cons next more ih =>
      rintro first (here | later)
      · exact ih _ (.inl (step (.inl here)))
      · rcases List.mem_cons.mp later with rfl | later
        · exact ih _ (.inl (step (.inr fails)))
        · exact ih _ (.inr later)
  cases runs with
  | nil => cases member
  | cons first more =>
    refine rest more first ?_
    rcases List.mem_cons.mp member with rfl | later
    · exact .inl fails
    · exact .inr later

theorem chained_first {first : Run} (fails : first.Fails scope) (more : List (Relation × Run)) :
    Run.Fails scope (.chained first more) :=
  fun _ => error_of_first (fails _)

theorem chained_second {first second : Run} (fails : second.Fails scope) (relation : Relation)
    (more : List (Relation × Run)) : Run.Fails scope (.chained first ((relation, second) :: more)) :=
  fun _ => error_of_next fun _ => error_of_first (error_of_first (fails _))

end Run.Fails

namespace Program.Expr

/-- A program that looks up a name in every evaluation. -/
inductive Demands (word : String) : Expr → Prop where
  | name : Demands word (.name word)
  | negate {operand : Expr} (inside : Demands word operand) : Demands word (.negate operand)
  | not {operand : Expr} (inside : Demands word operand) : Demands word (.not operand)
  | left {operation : Arithmetic} {left right : Expr} (inside : Demands word left) :
      Demands word (.arithmetic operation left right)
  | right {operation : Arithmetic} {left right : Expr} (inside : Demands word right) :
      Demands word (.arithmetic operation left right)
  | first {first : Expr} {relations : List Relation} {others : List Expr}
      (inside : Demands word first) : Demands word (.compare first relations others)
  | second {first second : Expr} {relation : Relation} {relations : List Relation}
      {others : List Expr} (inside : Demands word second) :
      Demands word (.compare first (relation :: relations) (second :: others))
  | callee {callee : Expr} {args : List Expr} (inside : Demands word callee) :
      Demands word (.call callee args)
  | argument {callee arg : Expr} {args : List Expr} (member : arg ∈ args)
      (inside : Demands word arg) : Demands word (.call callee args)

/-- A program fails where a name has no value that it looks up in every evaluation. -/
theorem Demands.fails {word : String} {e : Expr} (demands : e.Demands word) (call : Apply)
    {helpers scope : Scope} {fault : Fault}
    (undefined : resolve helpers scope word = .error fault) : (e.run call helpers).Fails scope := by
  induction demands with
  | name =>
    rw [run_name]
    exact .named undefined
  | negate _ ih =>
    rw [run_negate]
    exact ih.negated
  | not _ ih =>
    rw [run_not]
    exact ih.denied
  | left _ ih =>
    rw [run_arithmetic]
    exact .binary _ (.inl ih)
  | right _ ih =>
    rw [run_arithmetic]
    exact .binary _ (.inr ih)
  | first _ ih =>
    rw [run_chained]
    exact ih.chained_first _
  | second _ ih =>
    rw [run_chained]
    exact .chained_second ih _ _
  | callee _ ih =>
    rw [run_called]
    exact ih.callee _
  | argument member _ ih =>
    rw [run_called]
    exact .called (List.mem_map_of_mem member) ih

/-! ## Programs of several operands -/

variable {word : String}

theorem demands_foldl {α : Type} {combine : Expr → α → Expr} {demands : α → Prop}
    (step : ∀ {left next}, left.Demands word ∨ demands next → (combine left next).Demands word)
    {more : List α} {first : Expr} (found : first.Demands word ∨ ∃ next ∈ more, demands next) :
    (more.foldl combine first).Demands word := by
  induction more generalizing first with
  | nil =>
    rcases found with here | ⟨next, none, -⟩
    · exact here
    · cases none
  | cons next more ih =>
    refine ih ?_
    rcases found with here | ⟨other, member, inside⟩
    · exact .inl (step (.inl here))
    · rcases List.mem_cons.mp member with rfl | later
      · exact .inl (step (.inr inside))
      · exact .inr ⟨other, later, inside⟩

theorem demands_leftFold (operation : Arithmetic) {exprs : List Expr} {e : Expr}
    (member : e ∈ exprs) (demands : e.Demands word) :
    (leftFold (.arithmetic operation) exprs).Demands word := by
  cases exprs with
  | nil => cases member
  | cons first more =>
    refine @demands_foldl word _ _ (Demands word) (fun found => found.elim .left .right) _ _ ?_
    rcases List.mem_cons.mp member with rfl | later
    · exact .inl demands
    · exact .inr ⟨e, later, demands⟩

/-- A bare quotient is taken apart, but both of its sides are still operands. -/
theorem demands_timesFactor {left factor : Expr} (bare : Bool)
    (found : left.Demands word ∨ factor.Demands word) : (timesFactor left bare factor).Demands word := by
  unfold timesFactor
  split
  · rcases found with before | inside
    · exact .left (.left before)
    · cases inside with
      | left inside => exact .left (.right inside)
      | right inside => exact .right inside
  · exact found.elim .left .right

theorem demands_productExpr {factors : List (Bool × Expr)} {factor : Bool × Expr}
    (member : factor ∈ factors) (demands : factor.2.Demands word) :
    (productExpr factors).Demands word := by
  cases factors with
  | nil => cases member
  | cons first more =>
    refine @demands_foldl word _ _ (fun next => next.2.Demands word) (demands_timesFactor _) _ _ ?_
    rcases List.mem_cons.mp member with rfl | later
    · exact .inl demands
    · exact .inr ⟨factor, later, demands⟩

end Program.Expr

end Grapher
