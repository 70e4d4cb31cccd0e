import Grapher.Proofs.Tree.Parts
import Mathlib.Data.List.Flatten

/-!
# Nestings of a chain

A chain of comparisons is a run of terms with a relation in each gap. The same chain can be nested
in many ways: flat, to the left, to the right, or on both sides of a comparison, to any depth.
`Nesting node chain` says that a tree is such a nesting: its terms from left to right are those of
the chain, and the relation of a comparison stands in the gaps between its arguments. Flattening
finds the chain again, whatever the nesting (`spliced_of_nesting`).
-/

set_option autoImplicit false

namespace Grapher

variable {relation : Relation} {chain : Chain Node Relation}

namespace Chain

/-- The chain of a first term and of further terms, each with the relation before it. -/
def ofRun {Term Bond : Type} (first : Term) (more : List (Bond × Term)) : Chain Term Bond :=
  ⟨first :: more.map Prod.snd, more.map Prod.fst⟩

/-- A chain with other heads. -/
def mapHeads {Term Bond Other : Type} (f : Bond → Other) (chain : Chain Term Bond) :
    Chain Term Other :=
  ⟨chain.terms, chain.heads.map f⟩

/-- Each relation of a run with the terms next to it. -/
def adjacent {Term Bond : Type} : Term → List (Bond × Term) → List (Link Term Bond)
  | _, [] => []
  | left, (head, right) :: more => ⟨head, left, right⟩ :: adjacent right more

theorem links_ofRun {Term Bond : Type} (first : Term) (more : List (Bond × Term)) :
    (ofRun first more).links = adjacent first more := by
  induction more generalizing first with
  | nil => rfl
  | cons entry more ih =>
    obtain ⟨head, right⟩ := entry
    exact congrArg (⟨head, first, right⟩ :: ·) (ih right)

end Chain

namespace Node

/-- A part of a nesting: a tree with the chain that it nests. -/
abbrev ChainPart := Node × Chain Node Relation

/-- The chain of parts side by side with a relation between each two neighbours. -/
def sideBySide (relation : Relation) (parts : List ChainPart) : Chain Node Relation :=
  ⟨parts.flatMap (·.2.terms), [relation].intercalate (parts.map (·.2.heads))⟩

/-- The trees that nest a chain. -/
inductive Nesting : Node → Chain Node Relation → Prop where
  | term {node : Node} (single : node.isChain = false) : Nesting node ⟨[node], []⟩
  | comparison {relation : Relation} {parts : List ChainPart} (several : 2 ≤ parts.length)
      (all : ∀ part ∈ parts, Nesting part.1 part.2) :
      Nesting (.of (.relation relation) (parts.map Prod.fst)) (sideBySide relation parts)

/-! ## Flattening -/

section Flattening

variable {Bond : Type} (bond : Relation → Bond)

theorem sideBySide_cons (relation : Relation) (first second : ChainPart) (more : List ChainPart) :
    sideBySide relation (first :: second :: more)
      = ⟨first.2.terms ++ (sideBySide relation (second :: more)).terms,
        first.2.heads ++ relation :: (sideBySide relation (second :: more)).heads⟩ := by
  simp [sideBySide, List.intercalate]

/-- Flattening puts the chains of the arguments side by side. -/
theorem flattened_parts {parts : List ChainPart} (some : parts ≠ [])
    (all : ∀ part ∈ parts, part.1.spliced bond = part.2.mapHeads bond) :
    flattened bond (bond relation) (parts.map Prod.fst)
      = (sideBySide relation parts).mapHeads bond := by
  induction parts with
  | nil => exact absurd rfl some
  | cons first rest ih =>
    have head := all first (.head _)
    cases rest with
    | nil =>
      rw [List.map_singleton, flattened, head]
      simp [sideBySide, List.intercalate, Chain.mapHeads]
    | cons second more =>
      have tail := ih (List.cons_ne_nil _ _) fun part member => all part (.tail _ member)
      rw [List.map_cons, List.map_cons] at *
      rw [flattened_cons, head, tail, sideBySide_cons]
      simp [Chain.mapHeads]

/-- Flattening finds the chain that a tree nests. -/
theorem spliced_of_nesting {node : Node} (nesting : Nesting node chain) :
    node.spliced bond = chain.mapHeads bond := by
  induction nesting with
  | term single => exact spliced_term bond single
  | @comparison relation parts several all ih =>
    have some : parts ≠ [] := by rintro rfl; cases several
    rw [spliced_comparison bond (by simpa using several), flattened_parts bond some ih]

end Flattening

/-- A nesting with a gap is a comparison of the nested parts. -/
theorem Nesting.comparison_of_heads {node : Node} (nesting : Nesting node chain)
    (linked : chain.heads ≠ []) :
    ∃ relation args, node = .of (.relation relation) args ∧ 2 ≤ args.length := by
  cases nesting with
  | term single => exact absurd rfl linked
  | @comparison relation parts several all =>
    exact ⟨relation, parts.map Prod.fst, rfl, by simpa using several⟩

/-- The chain of a comparison does not depend on how it is nested. -/
theorem flattened_of_nesting {Bond : Type} (bond : Relation → Bond) {args : List Node}
    (several : 2 ≤ args.length) (nesting : Nesting (.of (.relation relation) args) chain) :
    flattened bond (bond relation) args = chain.mapHeads bond := by
  rw [← spliced_comparison bond several]
  exact spliced_of_nesting bond nesting

end Node

end Grapher
