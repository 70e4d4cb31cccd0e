import Grapher.Formula.Evaluation
import Grapher.Proofs.Native.Agreement

/-!
# The two ways to evaluate a formula

A formula with native code can be evaluated by it or by its program. The program is written with the
default variable of the settings and native code is read with any; as integrals of a parsed tree
name their variable, and a bare derivative has no native code, both come from the same reading.
-/

set_option autoImplicit false

namespace Grapher

open Reading Program Native

mutual

/-- A reading with native code is written without the default variable. -/
theorem pieces_congr (a b : String) :
    ∀ {term : Term} {code : Code}, ofTerm? term = some code → pieces a term = pieces b term
  | .number _, _, _ | .symbol _, _, _ => rfl
  | .joined _ args, _, found | .product args, _, found | .chain terms _, _, found
  | .connective _ args, _, found => by
    obtain ⟨codes, each, -⟩ := Option.map_eq_some_iff.mp found
    rw [pieces, pieces, piecesArgs_congr a b each]
  | .quotient left right, _, found | .power left right, _, found => by
    obtain ⟨_, first, _, second, -⟩ := some_of_bind found
    rw [pieces, pieces, pieces_congr a b first, pieces_congr a b second]
  | .negate operand, _, found | .not operand, _, found => by
    obtain ⟨_, only, -⟩ := Option.map_eq_some_iff.mp found
    rw [pieces, pieces, pieces_congr a b only]
  | .elementary _ args, _, found | .call _ args, _, found => by
    obtain ⟨_, -, _, each, -⟩ := some_of_bind found
    rw [pieces, pieces, piecesArgs_congr a b each]
  | .derivative _ _, _, found | .derivativeHere _, _, found | .integral _ _ _ _, _, found =>
    nomatch found

theorem piecesArgs_congr (a b : String) :
    ∀ {terms : List Term} {codes : List Code}, ofTerms? terms = some codes →
      piecesArgs a terms = piecesArgs b terms
  | [], _, _ => rfl
  | term :: terms, _, found => by
    obtain ⟨_, first, _, rest, -⟩ := some_of_bind found
    rw [piecesArgs, piecesArgs, pieces_congr a b first, piecesArgs_congr a b rest]

end

/-- A tree with native code is compiled to the program and the code of one reading, if the reading
does not depend on the default variable. -/
theorem Build.ofTree_of_native {compiling : Settings} {tree : Node} {code : Code}
    (same : read compiling.defaultVariable tree = read anyVariable tree)
    (spellable : tree.Spellable)
    (native : (Build.ofTree compiling tree).routine?.bind (·.native) = some code) :
    ∃ term source, read anyVariable tree = some term ∧ ofTerm? term = some code ∧
      Build.ofTree compiling tree = .ready tree source ⟨expr anyVariable term, some code⟩ := by
  unfold Build.ofTree at native ⊢
  split at native
  · cases native
  · next source written =>
    split at native
    · cases native
    · next program parsed =>
      have enabled : compiling.nativeEnabled = true ∧ ofNode? tree = some code := by
        split at native
        · next enabled => exact ⟨enabled, native⟩
        · cases native
      obtain ⟨term, meaning, coded⟩ := Option.bind_eq_some_iff.mp enabled.2
      have text : source = textOf anyVariable tree := by
        simp only [textOf?, same, meaning, Option.map_some, Option.some.injEq] at written
        simp only [textOf, textOf?, meaning, Option.map_some, Option.getD_some]
        rw [← written, pieces_congr _ anyVariable coded]
      have compiled := (compiled_of_read ⟨by decide, by decide⟩ meaning spellable).1
      rw [← text, parsed] at compiled
      cases compiled
      refine ⟨term, source, meaning, coded, ?_⟩
      simp only [enabled.1, enabled.2, if_true]

namespace Formula

end Formula

end Grapher
