import Grapher.Boundary
import Grapher.Native.OfTree
import Grapher.Proofs.Markup.Phrase
import Grapher.Proofs.Reading.Rules
import Grapher.Proofs.Tree.Nesting

/-!
# What a chain of comparisons means

Programs, native code and boundaries are made from the chain that a comparison flattens to, so they
are the same for all nestings of one chain. The parser writes a run of comparisons flat when its
relations agree and nests it to the right when they do not; both are nestings of the run as it is
written.
-/

set_option autoImplicit false

namespace Grapher

open List Node

open Node (Nesting)

variable {more : List (Relation × Node)} {first : Node}

/-! ## Readings and boundaries -/

section Shapes

variable {node other : Node} {chain : Chain Node Relation}

theorem Reading.read_of_nesting (here : String) (nesting : Nesting node chain)
    (linked : chain.heads ≠ []) :
    Reading.read here node
      = Reading.chain? ⟨chain.terms.map (Reading.read here), chain.heads⟩ := by
  obtain ⟨relation, args, rfl, several⟩ := nesting.comparison_of_heads linked
  have flat := flattened_of_nesting id several nesting
  have annotated := @Reading.flattened_annotate here relation args
  rw [id, Chain.mapHeads, map_id] at flat
  rw [flat] at annotated
  rw [Reading.read_op, ← Reading.annotateArgs_eq_map]
  exact congrArg Reading.chain? annotated

theorem Boundary.ofNode_of_nesting (here : String) (nesting : Nesting node chain)
    (linked : chain.heads ≠ []) :
    Boundary.ofNode here node = chain.links.filterMap (Boundary.ofLink? here) := by
  obtain ⟨relation, args, rfl, several⟩ := nesting.comparison_of_heads linked
  have flat := flattened_of_nesting id several nesting
  rw [id, Chain.mapHeads, map_id] at flat
  rw [Boundary.ofNode, comparisonChain, flat]

end Shapes

/-! ## Runs of comparisons -/

namespace Markup

theorem nesting_nestRight (singles : ∀ term ∈ (Chain.ofRun first more).terms, term.isChain = false) :
    Nesting (nestRight first more) (.ofRun first more) := by
  induction more generalizing first with
  | nil => exact .term (singles first (.head _))
  | cons entry more ih =>
    obtain ⟨relation, next⟩ := entry
    have left : Nesting first ⟨[first], []⟩ := .term (singles first (.head _))
    have right : Nesting (nestRight next more) (.ofRun next more) :=
      ih fun term member => singles term (.tail _ member)
    have both := @Nesting.comparison relation [(first, ⟨[first], []⟩), (_, _)] (Nat.le_refl 2)
      (forall_mem_cons.mpr ⟨left, forall_mem_singleton.mpr right⟩)
    simpa [sideBySide, intercalate, Chain.ofRun, nestRight] using both

/-- Terms side by side under one relation. -/
theorem sideBySide_singles (relation : Relation) (first : Node) (more : List Node) :
    sideBySide relation ((first :: more).map fun term => (term, ⟨[term], []⟩))
      = .ofRun first (more.map (relation, ·)) := by
  induction more generalizing first with
  | nil => rfl
  | cons next more ih =>
    have rest := ih next
    rw [map_cons] at rest
    rw [map_cons, map_cons, sideBySide_cons, rest]
    rfl

theorem nesting_flat (relation : Relation) {more : List Node} (some : more ≠ [])
    (singles : ∀ term ∈ first :: more, term.isChain = false) :
    Nesting (.of (.relation relation) (first :: more))
      (.ofRun first (more.map (relation, ·))) := by
  have several : 2 ≤ (first :: more).length :=
    Nat.succ_le_succ (length_pos_iff.mpr some)
  have all : ∀ part ∈ (first :: more).map fun term => ((term, ⟨[term], []⟩) : ChainPart),
      Nesting part.1 part.2 := by
    intro part member
    obtain ⟨term, inside, rfl⟩ := mem_map.mp member
    exact .term (singles term inside)
  have nesting := @Nesting.comparison relation _ (by rwa [length_map]) all
  rwa [sideBySide_singles, map_map, Function.comp_def, map_id'] at nesting

/-- The tree of a run of comparisons nests the run as it is written. -/
theorem nesting_relationTree
    (singles : ∀ term ∈ (Chain.ofRun first more).terms, term.isChain = false) :
    Nesting (relationTree first more) (.ofRun first more) := by
  unfold relationTree
  split
  · exact .term (singles first (.head _))
  · next relation next rest =>
    split
    · next same =>
      have flat := nesting_flat relation (cons_ne_nil next (rest.map Prod.snd)) singles
      have entries : ((relation, next) :: rest).map (fun entry => (relation, entry.2))
          = (relation, next) :: rest := by
        refine (map_congr_left fun entry member => ?_).trans (map_id _)
        have head := beq_iff_eq.mp (all_eq_true.mp same entry member)
        exact Prod.ext head.symm rfl
      have run : (next :: rest.map Prod.snd).map (relation, ·) = (relation, next) :: rest := by
        rw [← entries]
        simp
      rwa [run] at flat
    · exact nesting_nestRight singles

/-! ## Written runs -/

/-- The tokens of further terms, each after its relation. -/
inductive RunRow : List (Relation × Node) → List Located → Prop where
  | nil : RunRow [] []
  | cons {relation : Relation} {term : Node} {more : List (Relation × Node)}
      {row others : List Located} (position : Nat) (phrase : Phrase .sum term row)
      (rest : RunRow more others) :
      RunRow ((relation, term) :: more) (⟨.sign (.relation relation), position⟩ :: (row ++ others))

/-- The next relation ends a term. -/
theorem RunRow.ends {row : List Located} (run : RunRow more row) {mode : Mode} {rest : Rest}
    (ends : Ends .relation mode rest) : Ends .sum mode (row ++ rest) := by
  cases run with
  | nil => exact ends.mono (by decide)
  | cons position phrase others =>
    intro tightest continued
    cases continued
    decide

theorem RunRow.parses {row : List Located} (run : RunRow more row) {mode : Mode} {rest : Rest}
    (ends : Ends .relation mode rest) {budget : Nat} (enough : 16 * row.length + 1 ≤ budget) :
    parseRelationTail budget mode (row ++ rest) = .ok (more, rest) := by
  induction run generalizing budget with
  | nil =>
    rcases budget with _ | budget
    · omega
    exact readsRow_relation.stops budget mode rest ends
  | @cons relation term more row others position phrase run ih =>
    simp only [length_cons, length_append] at enough
    rcases budget with _ | budget
    · omega
    have room : need .sum row ≤ budget := by
      simp only [need, Level.index]
      omega
    have first := phrase.parses room (run.ends ends)
    have later := ih (by omega : 16 * others.length + 1 ≤ budget)
    simp only [Level.parse] at first
    simp only [cons_append, append_assoc]
    rw [parseRelationTail, first]
    simp only [bind, Except.bind, later]

/-- A written run of comparisons is parsed to its tree. -/
theorem phrase_relationTree {row others : List Located} (phrase : Phrase .sum first row)
    (run : RunRow more others) : Phrase .relation (relationTree first more) (row ++ others) := by
  refine .of_step ((phrase.starts.mono (by decide)).append others) ?_
  intro budget mode rest enough ends
  simp only [need, Level.index, length_append] at enough
  have room : need .sum row ≤ budget := by
    simp only [need, Level.index]
    omega
  have start := phrase.parses room (run.ends ends)
  have tail := run.parses ends (by omega : 16 * others.length + 1 ≤ budget)
  rw [append_assoc, readsRow_relation.opens]
  simp only [Level.inner, start, bind, Except.bind, tail]

end Markup

/-! ## All nestings of one chain -/

open Markup in
/-- A chain of comparisons means the same in every nesting. Each nesting flattens to the terms and
the relations of the chain, and its links are the neighbours in order; any two nestings have the same
program, the same native code and the same boundaries. The tree that the parser builds for a written
run is one of the nestings. -/
theorem comparison_of_nesting {first : Node} {more : List (Relation × Node)} (linked : more ≠ [])
    (singles : ∀ term ∈ (Chain.ofRun first more).terms, term.isChain = false) :
    (∀ node, Nesting node (.ofRun first more) →
      ∃ relation args, node = .of (.relation relation) args ∧
        Node.comparisonChain relation args = .ofRun first more ∧
        Node.operationChain (.operator (.relation relation)) args
          = (Chain.ofRun first more).mapHeads (fun relation => .operator (.relation relation)) ∧
        (Node.comparisonChain relation args).links = Chain.adjacent first more) ∧
    (∀ here node other, Nesting node (.ofRun first more) → Nesting other (.ofRun first more) →
      Program.textOf? here node = Program.textOf? here other ∧
      Native.ofNode? node = Native.ofNode? other ∧
      Boundary.ofNode here node = Boundary.ofNode here other) ∧
    Nesting (relationTree first more) (.ofRun first more) ∧
    ∀ row others, Phrase .sum first row → RunRow more others →
      Phrase .relation (relationTree first more) (row ++ others) := by
  have gaps : (Chain.ofRun first more).heads ≠ [] := fun none => linked (map_eq_nil_iff.mp none)
  refine ⟨?_, ?_, nesting_relationTree singles, fun row others => phrase_relationTree⟩
  · intro node nesting
    obtain ⟨relation, args, rfl, several⟩ := nesting.comparison_of_heads gaps
    have flat : comparisonChain relation args = .ofRun first more := by
      have found := flattened_of_nesting id several nesting
      rwa [id, Chain.mapHeads, map_id] at found
    refine ⟨relation, args, rfl, flat, ?_, ?_⟩
    · exact flattened_of_nesting (fun relation => Head.operator (.relation relation)) several
        nesting
    · rw [flat, Chain.links_ofRun]
  · intro here node other nesting nesting'
    have same : ∀ here, Reading.read here node = Reading.read here other := fun here => by
      rw [Reading.read_of_nesting here nesting gaps, Reading.read_of_nesting here nesting' gaps]
    refine ⟨?_, ?_, ?_⟩
    · rw [Program.textOf?, Program.textOf?, same]
    · rw [Native.ofNode?, Native.ofNode?, same]
    · rw [Boundary.ofNode_of_nesting here nesting gaps, Boundary.ofNode_of_nesting here nesting' gaps]

open Markup in
/-- The chain x < y ≤ z nested to the left, and as the parser nests it. -/
theorem comparison_of_nesting_left :
    Node.comparisonChain .lessEqual
        [.of (.relation .less) [.symbol "x", .symbol "y"], .symbol "z"]
      = .ofRun (.symbol "x") [(.less, .symbol "y"), (.lessEqual, .symbol "z")] ∧
    Program.textOf? "x" (.of (.relation .lessEqual)
        [.of (.relation .less) [.symbol "x", .symbol "y"], .symbol "z"])
      = Program.textOf? "x"
        (relationTree (.symbol "x") [(.less, .symbol "y"), (.lessEqual, .symbol "z")]) := by
  have inner : Nesting (.of (.relation .less) [.symbol "x", .symbol "y"])
      (.ofRun (.symbol "x") [(.less, .symbol "y")]) :=
    nesting_flat .less (cons_ne_nil (symbol "y") []) (by decide)
  have last : Nesting (.symbol "z") ⟨[.symbol "z"], []⟩ := .term rfl
  have left : Nesting (.of (.relation .lessEqual)
      [.of (.relation .less) [.symbol "x", .symbol "y"], .symbol "z"])
      (.ofRun (.symbol "x") [(.less, .symbol "y"), (.lessEqual, .symbol "z")]) :=
    @Nesting.comparison .lessEqual [(_, _), (_, _)] (Nat.le_refl 2)
      (forall_mem_cons.mpr ⟨inner, forall_mem_singleton.mpr last⟩)
  obtain ⟨flat, same, parsed, -⟩ := comparison_of_nesting
    (cons_ne_nil (Relation.less, symbol "y") [(.lessEqual, .symbol "z")])
    (by decide : ∀ term ∈ (Chain.ofRun (symbol "x")
      [(Relation.less, .symbol "y"), (.lessEqual, .symbol "z")]).terms, term.isChain = false)
  obtain ⟨relation, args, shape, chain, -⟩ := flat _ left
  cases shape
  exact ⟨chain, (same "x" _ _ left parsed).1⟩

end Grapher
