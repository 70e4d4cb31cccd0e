import Grapher.Formula.Evaluation
import Grapher.Proofs.Native.Names
import Grapher.Proofs.Program.Mention

/-!
# A formula depends on the names that it mentions

The program of a tree looks up names only that the tree mentions, and so does its native code. Its
results are then the same in any two scopes that hold the same values under these names, whatever
else they hold: under the variable of an integral too, which is not looked up in the scope.

The default variable is written into the program of a bare derivative as it stands. If it is no
name, the program may look up names that stand in it, and the formula depends on these as well.
-/

set_option autoImplicit false

namespace Grapher

namespace Program

/-- The names that the program of a tree looks up are mentioned by the tree. -/
theorem mentioned_of_parse {here text : String} (named : Text.isIdentifier here = true) {node : Node}
    (written : textOf? here node = some text) {program : Expr} (parsed : parse text = .ok program) :
    ∀ word ∈ program.namesOutside [], node.Mentioned here [] word := by
  obtain ⟨term, found, rfl⟩ := Option.map_eq_some_iff.mp written
  have row := row_of_read named found
  have spaced := @Mentions.spaced _ _ row [] .nil .nil
  rw [List.append_nil] at spaced
  intro word member
  have walked := names_of_parse spaced parsed member
  rw [← List.append_nil (piecesTokens _)] at walked
  rcases row.names [] (nofun : Arrowless []) word walked with mentioned | none
  · exact mentioned
  · cases none

end Program

/-- What a tree runs is parsed from its program text, and made of it natively. -/
theorem Build.routine_of_ofTree {compiling : Settings} {tree : Node} {routine : Routine}
    (found : (Build.ofTree compiling tree).routine? = some routine) :
    (∃ text, Program.textOf? compiling.defaultVariable tree = some text ∧
      Program.parse text = .ok routine.program) ∧
    ∀ code, routine.native = some code → Native.ofNode? tree = some code := by
  unfold ofTree at found
  split at found
  · cases found
  · next text written =>
    split at found <;> cases found
    rename_i program parsed
    refine ⟨⟨text, written, parsed⟩, fun code native => ?_⟩
    split at native
    · exact native
    · cases native

namespace Formula

/-- A formula that is compiled with a proper name as the default variable has the same results in
scopes that hold the same values under the names that its tree mentions. -/
theorem evaluate_eq_of_mentioned (compiling evaluating : Settings) (tree : Node) (raw : String)
    (named : Text.isIdentifier compiling.defaultVariable = true) (scope scope' : Scope)
    (same : ∀ word, tree.mentions compiling.defaultVariable word = true →
      scope.lookup word = scope'.lookup word) :
    let formula := ofTree compiling tree raw
    formula.evaluate evaluating scope = formula.evaluate evaluating scope' ∧
      formula.evaluateNative evaluating scope = formula.evaluateNative evaluating scope' := by
  intro formula
  have agree := Scope.agree_of_lookup_eq same
  unfold evaluate evaluateNative
  cases found : formula.routine? with
  | none => exact ⟨rfl, rfl⟩
  | some routine =>
    obtain ⟨⟨text, written, parsed⟩, native⟩ := Build.routine_of_ofTree found
    have program := fun word member =>
      (Program.mentioned_of_parse named written parsed word member).mentions
    exact ⟨Routine.evaluate_congr stable_apply agree program _ _,
      Routine.evaluateNative_congr stable_apply agree program
        (fun code made => Native.mentions_of_ofNode? (native code made)) _ _⟩

/-- An integral in scopes that hold different values under its variable, and one of which holds
a name that does not stand in it. -/
theorem evaluate_integral_of_variable :
    let product := Node.of .multiply [.symbol "t", .op (.call "g" (by decide)) [.symbol "a"]]
    let tree := Node.of .integrate
      [.of .function [product, .symbol "t"], .of .tuple [.number 0, .symbol "b"]]
    let formula := ofTree .standard tree ""
    let root := Value.function (.primitive .sqrt)
    let scope : Scope := [("g", root), ("a", .int 4), ("b", .int 3), ("t", .int 7), ("c", .int 0)]
    let scope' : Scope := [("g", root), ("a", .int 4), ("b", .int 3), ("t", .absent)]
    formula.isValid = true ∧
    (∀ word, tree.mentions "x" word = true → scope.lookup word = scope'.lookup word) ∧
    formula.evaluate .standard scope = formula.evaluate .standard scope' := by
  intro product tree formula root scope scope'
  have bound : tree.mentions "x" "t" = false := by
    simp only [Node.mentions, Node.contains_freeSymbols]
    decide +kernel
  have absent : tree.mentions "x" "c" = false := by
    simp only [Node.mentions, Node.contains_freeSymbols]
    decide +kernel
  have same : ∀ word, tree.mentions "x" word = true → scope.lookup word = scope'.lookup word := by
    intro word mentioned
    have first : (word == "t") = false := by
      rw [beq_eq_false_iff_ne]
      rintro rfl
      rw [bound] at mentioned
      cases mentioned
    have second : (word == "c") = false := by
      rw [beq_eq_false_iff_ne]
      rintro rfl
      rw [absent] at mentioned
      cases mentioned
    simp only [scope, scope', List.lookup_cons, List.lookup_nil, first, second]
  exact ⟨by decide +kernel, same,
    (evaluate_eq_of_mentioned .standard .standard tree "" (by decide) scope scope' same).1⟩

/-- With a sum as the default variable, a bare derivative depends on the terms of the sum, which the
tree does not mention. -/
theorem evaluate_derivative_at_sum :
    let settings : Settings := { Settings.standard with defaultVariable := "a + b" }
    let tree := Node.of .prime [.symbol "f"]
    let formula := ofTree settings tree ""
    let identity := Value.function (.lambda "u" ["u"] (.name "u"))
    let scope : Scope := [("derivative_f", identity), ("a", .int 1), ("b", .int 1)]
    let scope' : Scope := [("derivative_f", identity), ("a", .int 2), ("b", .int 1)]
    (∀ word, tree.mentions "a + b" word = true → scope.lookup word = scope'.lookup word) ∧
    formula.isValid = true ∧
    (formula.evaluate settings scope).whole? = some 2 ∧
    (formula.evaluate settings scope').whole? = some 3 ∧
    (formula.evaluateNative settings scope).whole? = some 2 ∧
    (formula.evaluateNative settings scope').whole? = some 3 := by
  intro settings tree formula identity scope scope'
  have unmentioned : tree.mentions "a + b" "a" = false := by decide +kernel
  refine ⟨fun word mentioned => ?_, by decide +kernel⟩
  have other : (word == "a") = false := by
    rw [beq_eq_false_iff_ne]
    rintro rfl
    rw [unmentioned] at mentioned
    cases mentioned
  simp only [scope, scope', List.lookup_cons, other]

end Formula

end Grapher
