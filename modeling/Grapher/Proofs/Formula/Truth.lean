import Grapher.Formula.Evaluation
import Grapher.Proofs.Formula.Dependence
import Grapher.Proofs.Program.Outermost

/-!
# Conditions have truth values

The result of a negation, a comparison or a connective is a truth value, or undefined because the
evaluation failed. Native code takes the truth of each condition that a connective joins, so this
holds of every such tree there. A program writes a connective of a single condition as that
condition alone, so there the result is the one of the condition, which need not be a truth value.
-/

set_option autoImplicit false

namespace Grapher

open Reading Program List

/-! ## Runs with truth values -/

/-- A run whose values are truth values. -/
def Run.Decides (run : Run) : Prop :=
  ∀ scope moment value, run scope moment = .ok value → ∃ b, value = .bool b

namespace Run.Decides

theorem nothing : Run.nothing.Decides := fun _ _ _ found => by cases found

theorem truth (operand : Run) : operand.truth.Decides := by
  intro scope moment value found
  obtain ⟨a, -, found⟩ := ok_of_bind found
  cases found
  exact ⟨_, rfl⟩

theorem denied (operand : Run) : operand.denied.Decides := by
  intro scope moment value found
  obtain ⟨a, -, found⟩ := ok_of_bind found
  cases found
  exact ⟨_, rfl⟩

theorem both (left right : Run) : (Run.both left right).Decides := by
  intro scope moment value found
  obtain ⟨a, -, found⟩ := ok_of_bind found
  split at found
  · obtain ⟨b, -, found⟩ := ok_of_bind found
    cases found
    exact ⟨_, rfl⟩
  · cases found
    exact ⟨_, rfl⟩

theorem either (left right : Run) : (Run.either left right).Decides := by
  intro scope moment value found
  obtain ⟨a, -, found⟩ := ok_of_bind found
  split at found
  · cases found
    exact ⟨_, rfl⟩
  · obtain ⟨b, -, found⟩ := ok_of_bind found
    cases found
    exact ⟨_, rfl⟩

theorem related (link : Link Run Relation) : (Run.related link).Decides := by
  intro scope moment value found
  obtain ⟨a, -, found⟩ := ok_of_bind found
  obtain ⟨b, -, found⟩ := ok_of_bind found
  obtain ⟨holds, -, found⟩ := ok_of_bind found
  cases found
  exact ⟨_, rfl⟩

theorem chained (first : Run) (more : List (Relation × Run)) : (Run.chained first more).Decides := by
  intro scope moment value found
  obtain ⟨a, -, found⟩ := ok_of_bind found
  obtain ⟨holds, -, found⟩ := ok_of_bind found
  cases found
  exact ⟨_, rfl⟩

/-- Conditions that are joined one after the other. -/
theorem folded {combine : Run → Run → Run} (step : ∀ left right, (combine left right).Decides)
    {runs : List Run} (all : ∀ run ∈ runs, run.Decides) : (Run.folded combine runs).Decides := by
  cases runs with
  | nil => exact nothing
  | cons first more =>
    exact foldlRecOn more combine (all first (.head _)) fun left _ right _ => step left right

end Run.Decides

theorem Program.Expr.decides {e : Expr} (condition : e.isCondition = true) (call : Apply)
    (helpers : Scope) : (e.run call helpers).Decides := by
  cases e with
  | not operand =>
    rw [Expr.run_not]
    exact .denied _
  | and left right =>
    rw [Expr.run_and]
    exact .both _ _
  | or left right =>
    rw [Expr.run_or]
    exact .either _ _
  | compare first relations others =>
    rw [Expr.run_chained]
    exact .chained _ _
  | _ => cases condition

/-! ## Readings of conditions -/

/-- Whether a reading is written as a condition. A connective of a single condition is written as
this condition. -/
def Reading.Term.isCondition : Term → Bool
  | .not _ | .connective _ (_ :: _ :: _) | .chain (_ :: _ :: _) (_ :: _) => true
  | .connective _ [only] => only.isCondition
  | _ => false

namespace Program

/-- A row in parentheses with a relation or a connective word right inside them. -/
def ShowsCondition (row : List Piece) : Prop :=
  ∃ inside outer token, row = enclosed inside ∧ Nested (piecesTokens inside) outer ∧
    token ∈ outer ∧ token.isConditional = true

theorem ShowsCondition.separated {separator : Token} (plain : separator.isParenthesis = false)
    (conditional : separator.isConditional = true) {rows : List (List Piece)}
    (several : 2 ≤ rows.length) (all : ∀ row ∈ rows, Closed row) :
    ShowsCondition (enclosed (separated separator rows)) := by
  obtain ⟨outer, nested, shown⟩ := Closed.separated plain all
  exact ⟨_, outer, separator, rfl, nested, shown several, conditional⟩

theorem showsCondition_linkRow {link : Link (List Piece) Relation} (left : Closed link.left)
    (right : Closed link.right) : ShowsCondition (linkRow link) := by
  refine .separated rfl rfl (Nat.le_refl 2) ?_
  simp only [forall_mem_cons]
  exact ⟨left, right, fun _ member => by cases member⟩

theorem showsCondition_chain {first second : List Piece} {rows : List (List Piece)}
    (all : ∀ row ∈ first :: second :: rows, Closed row) (relation : Relation)
    (relations : List Relation) :
    ShowsCondition (chainPieces (first :: second :: rows) (relation :: relations)) := by
  have links := Closed.links all (relation :: relations)
  rw [chainPieces_eq_connectivePieces, Chain.linksOf, map_cons]
  rw [Chain.linksOf, map_cons] at links
  cases more : (Chain.linksOf relations (second :: rows)).map linkRow with
  | nil => exact showsCondition_linkRow (all first (.head _)) (all second (.tail _ (.head _)))
  | cons link more' =>
    rw [more] at links
    exact .separated rfl rfl (by simp) links

theorem showsCondition_pieces (here : String) {term : Term} (condition : term.isCondition = true) :
    ShowsCondition (pieces here term) := by
  fun_induction Term.isCondition term with
  | case1 operand =>
    obtain ⟨outer, nested⟩ := closed_pieces here operand
    exact ⟨_, _, .keyword .not, rfl, .token rfl nested, .head _, rfl⟩
  | case2 connective first second more =>
    exact .separated rfl rfl (Nat.le_add_left 2 _) (closed_piecesArgs here (first :: second :: more))
  | case3 first second more relation relations =>
    exact showsCondition_chain (closed_piecesArgs here (first :: second :: more)) relation relations
  | case4 connective only ih => exact ih condition
  | case5 => cases condition

/-- The program of a condition is a condition, whatever the names in it are. -/
theorem isCondition_of_parse {here : String} (default : Text.isIdentifier here = true) {node : Node}
    {term : Term} (found : read here node = some term) (condition : term.isCondition = true)
    {program : Expr} (parsed : parse (piecesText (pieces here term)) = .ok program) :
    program.isCondition = true := by
  have spaced := @Mentions.spaced _ _ (row_of_read default found) [] .nil .nil
  rw [append_nil] at spaced
  obtain ⟨tokens, parsed, garbled⟩ := garbled_of_parse spaced parsed
  obtain ⟨inside, outer, token, shape, nested, shown, conditional⟩ :=
    showsCondition_pieces here condition
  rw [shape, piecesTokens_enclosed] at garbled
  cases garbled with
  | same _ later =>
    obtain ⟨first, second, rfl, here, there⟩ := later.append_inv
    cases there with
    | same _ none =>
      cases none
      obtain ⟨outer', nested', kept⟩ := nested.garbled here
      exact isCondition_of_enclosed nested' (kept token shown conditional) conditional parsed

end Program

/-! ## Trees -/

namespace Node

/-- Whether a tree is a negation, a comparison or a connective. -/
def isLogical : Node → Bool
  | .of .and _ | .of .or _ | .of .not _ | .of (.relation _) _ => true
  | _ => false

/-- Whether the program of a tree is a condition. A group and a connective of a single condition
stand for what they hold. -/
def isCondition : Node → Bool
  | .of .and [only] | .of .or [only] | .of .delimiter [only] | .of .hold [only] | .of .block [only]
  | .of .invisible [only] => only.isCondition
  | .of .and _ | .of .or _ | .of .not _ | .of (.relation _) _ => true
  | _ => false

end Node

/-- A rule writes a condition for a tree that is one. -/
theorem Reading.isCondition_of_rule {here : String} {node : Node} {term : Term}
    (rule : Rule here (fun part term => part.isCondition = true → term.isCondition = true) node term)
    (condition : node.isCondition = true) : term.isCondition = true := by
  cases rule with
  | number | symbol | power | negate | elementary | derivativeHere | tuple | call | integral =>
    cases condition
  | joined joiner => cases joiner <;> cases condition
  | quotient divides => rcases divides with rfl | rfl <;> cases condition
  | not only => rfl
  | @chain relation nodes terms compares all =>
    have some : nodes ≠ [] := by
      rintro rfl
      exact compares rfl
    have count : (Node.comparisonChain relation nodes).terms.length
        = (Node.comparisonChain relation nodes).heads.length + 1 :=
      Node.length_flattened id relation nodes some
    rw [all.length_eq] at count
    obtain ⟨head, heads, same⟩ := exists_cons_of_ne_nil compares
    rw [same] at count ⊢
    rcases terms with _ | ⟨first, _ | ⟨second, more⟩⟩
    · cases count
    · cases count
    · rfl
  | connective connective some all =>
    rcases all with _ | ⟨first, _ | ⟨second, rest⟩⟩
    · exact absurd rfl some
    · refine first ?_
      cases connective <;> exact condition
    · rfl
  | wrapped wraps only =>
    simp only [mem_cons, not_mem_nil, or_false] at wraps
    rcases wraps with rfl | rfl | rfl <;> exact only condition
  | single factors =>
    rcases factors with _ | ⟨_, first, none⟩ | ⟨_, _, made, none⟩
    · cases none
      exact first condition
    · cases none
      cases condition
  | product factors =>
    rcases factors with _ | ⟨_, _, _ | _⟩ | ⟨_, _, _, _⟩ <;> cases condition

/-- What a tree runs, if it is a condition, decides by its program. -/
theorem Node.decides_of_ofTree {compiling : Settings}
    (default : Text.isIdentifier compiling.defaultVariable = true) {tree : Node}
    (condition : tree.isCondition = true) {routine : Routine}
    (compiled : (Build.ofTree compiling tree).routine? = some routine) (call : Apply)
    (helpers : Scope) : (routine.program.run call helpers).Decides := by
  obtain ⟨⟨text, written, parsed⟩, -⟩ := Build.routine_of_ofTree compiled
  obtain ⟨term, found, rfl⟩ := Option.map_eq_some_iff.mp written
  refine Expr.decides (isCondition_of_parse default found ?_ parsed) call helpers
  exact read_of_rules (P := fun part term => part.isCondition = true → term.isCondition = true)
    (H := fun _ => True) (fun _ => id) (fun _ => Reading.isCondition_of_rule) found trivial condition

/-! ## Native code -/

/-- Native code of a negation, a comparison or a connective decides. -/
theorem Native.decides_of_isLogical {tree : Node} (logical : tree.isLogical = true)
    {code : Native.Code} (made : Native.ofNode? tree = some code) (call : Apply) :
    (code.eval call).Decides := by
  obtain ⟨term, found, coded⟩ := Option.bind_eq_some_iff.mp made
  cases rule_of_read found with
  | number | symbol | power | negate | elementary | derivativeHere | single | product | tuple | call
  | integral => cases logical
  | joined joiner => cases joiner <;> cases logical
  | quotient divides => rcases divides with rfl | rfl <;> cases logical
  | wrapped wraps =>
    simp only [mem_cons, not_mem_nil, or_false] at wraps
    rcases wraps with rfl | rfl | rfl <;> cases logical
  | not only =>
    obtain ⟨operand, -, rfl⟩ := Option.map_eq_some_iff.mp coded
    exact .denied _
  | chain compares all =>
    obtain ⟨terms, -, rfl⟩ := Option.map_eq_some_iff.mp coded
    refine .folded .both fun run member => ?_
    obtain ⟨link, -, rfl⟩ := mem_map.mp member
    exact .related link
  | connective connective some all =>
    obtain ⟨parts, -, rfl⟩ := Option.map_eq_some_iff.mp coded
    refine .folded (fun left right => ?_) fun run member => ?_
    · cases connective with
      | and => exact .both left right
      | or => exact .either left right
    · obtain ⟨part, -, rfl⟩ := mem_map.mp member
      exact .truth part

/-! ## Results -/

namespace Formula

/-- A result that is the truth value of an evaluation, or undefined because the evaluation
failed. -/
def IsTruthOf (outcome : Except Fault Value) (result : Number) : Prop :=
  (∃ b, outcome = .ok (.bool b) ∧ result = .bool b) ∨ ∃ fault, outcome = .error fault ∧ result = .nan

theorem isTruthOf_evaluate {routine : Routine} {call : Apply} {intervals : Nat}
    (decides : (routine.program.run call (engineHelpers intervals)).Decides) (scope : Scope)
    (moment : Moment) :
    IsTruthOf (routine.program.eval call (engineHelpers intervals) scope moment)
      (routine.evaluate call intervals scope moment) := by
  have truth := decides scope moment
  unfold Expr.run at truth
  unfold Routine.evaluate
  generalize routine.program.eval call (engineHelpers intervals) scope moment = outcome at truth ⊢
  cases outcome with
  | error fault => exact .inr ⟨fault, rfl, rfl⟩
  | ok value =>
    obtain ⟨b, rfl⟩ := truth value rfl
    exact .inl ⟨b, rfl, rfl⟩

theorem isTruthOf_run {code : Native.Code} {call : Apply} (decides : (code.eval call).Decides)
    (scope : Scope) (moment : Moment) :
    IsTruthOf (code.eval call scope moment) (resultOf (code.run call scope moment)) := by
  have truth := decides scope moment
  unfold Native.Code.run
  generalize code.eval call scope moment = outcome at truth ⊢
  cases outcome with
  | error fault => exact .inr ⟨fault, rfl, rfl⟩
  | ok value =>
    obtain ⟨b, rfl⟩ := truth value rfl
    exact .inl ⟨b, rfl, rfl⟩

/-- A connective of a single condition is compiled as this condition. -/
theorem textOf?_connective (here : String) (connective : Connective) (only : Node) :
    textOf? here (.of connective.operator [only]) = textOf? here only := by
  have reading : read here (.of connective.operator [only])
      = (read here only).map fun term => .connective connective [term] := by
    rw [read_op]
    cases connective <;>
      simp only [readOperation, readOperator, Connective.operator, map_cons, map_nil,
        Annotated.someTerms?, Annotated.terms?, term_annotate] <;>
      cases read here only <;> rfl
  rw [textOf?, textOf?, reading, Option.map_map]
  rfl

/-- The result of the program depends on the program text only. -/
theorem evaluate_of_textOf? {compiling : Settings} {tree other : Node}
    (same : textOf? compiling.defaultVariable tree = textOf? compiling.defaultVariable other)
    (evaluating : Settings) (raw raw' : String) (scope : Scope) :
    (ofTree compiling tree raw).evaluate evaluating scope
      = (ofTree compiling other raw').evaluate evaluating scope := by
  unfold evaluate ofTree routine?
  unfold Build.ofTree
  rw [same]
  cases textOf? compiling.defaultVariable other with
  | none => rfl
  | some text =>
    dsimp only
    cases Program.parse text <;> rfl

/-- A negation, a comparison and a connective of two or more conditions have truth values, or are
undefined because the evaluation failed. A connective of a single condition has the result of this
condition. Native code has truth values in all of these cases. -/
theorem results_of_logical (compiling evaluating : Settings) (tree : Node) (raw : String)
    (scope : Scope) (default : Text.isIdentifier compiling.defaultVariable = true)
    (logical : tree.isLogical = true) {routine : Routine}
    (compiled : (ofTree compiling tree raw).routine? = some routine) :
    let formula := ofTree compiling tree raw
    (tree.isCondition = true →
      IsTruthOf (routine.program.eval apply (engineHelpers evaluating.simpsonIntervals) scope .start)
        (formula.evaluate evaluating scope)) ∧
    (∀ (connective : Connective) only, tree = .of connective.operator [only] → ∀ raw',
      formula.evaluate evaluating scope = (ofTree compiling only raw').evaluate evaluating scope) ∧
    ∀ code, routine.native = some code →
      IsTruthOf (code.eval apply scope .start) (formula.evaluateNative evaluating scope) := by
  intro formula
  refine ⟨fun condition => ?_, ?_, fun code native => ?_⟩
  · have result : formula.evaluate evaluating scope
        = routine.evaluate apply evaluating.simpsonIntervals scope .start := by
      rw [evaluate, compiled]
    rw [result]
    exact isTruthOf_evaluate (Node.decides_of_ofTree default condition compiled apply _) scope .start
  · rintro connective only rfl raw'
    exact evaluate_of_textOf? (textOf?_connective _ connective only) evaluating raw raw' scope
  · have result : formula.evaluateNative evaluating scope
        = resultOf (code.run apply scope .start) := by
      rw [evaluateNative, compiled]
      dsimp only
      rw [Routine.evaluateNative, native]
    obtain ⟨-, made⟩ := Build.routine_of_ofTree compiled
    rw [result]
    exact isTruthOf_run (Native.decides_of_isLogical logical (made code native) apply) scope .start

/-- A chain of comparisons in a group, as the only condition of a connective. -/
theorem results_of_logical_chain :
    let chain := Node.of (.relation .less) [.symbol "x", .symbol "y", .number 3]
    let tree := Node.of .or [.of .delimiter [chain]]
    let formula := ofTree .standard tree ""
    let scope : Scope := [("x", .int 1), ("y", .int 2)]
    ∃ routine code, formula.routine? = some routine ∧ routine.native = some code ∧
      IsTruthOf (routine.program.eval apply (engineHelpers 20) scope .start)
        (formula.evaluate .standard scope) ∧
      IsTruthOf (code.eval apply scope .start) (formula.evaluateNative .standard scope) ∧
      (formula.evaluate .standard scope).whole? = some 1 := by
  intro chain tree formula scope
  have coded : (formula.routine?.bind (·.native)).isSome = true := by decide +kernel
  obtain ⟨code, found⟩ := Option.isSome_iff_exists.mp coded
  obtain ⟨routine, compiled, native⟩ := Option.bind_eq_some_iff.mp found
  obtain ⟨program, -, natively⟩ := results_of_logical .standard .standard tree "" scope
    (by decide) rfl compiled
  exact ⟨routine, code, compiled, native, program rfl, natively code native, by decide +kernel⟩

/-- What the two conditions leave out. A connective of a single number has this number as its
result; native code makes a truth value of it. A default variable that is no name can end the
parentheses of a comparison, and the program is a sum. -/
theorem results_beyond_truth :
    let single := ofTree .standard (.of .and [.number 5]) ""
    let settings : Settings := { Settings.standard with defaultVariable := "x)) + ((1" }
    let ended := ofTree settings (.of (.relation .less) [.of .prime [.symbol "f"], .number 1]) ""
    let scope : Scope := [("x", .int 5), ("derivative_f", .function (.lambda "u" ["u"] (.name "u")))]
    single.isValid = true ∧ (single.evaluate .standard []).whole? = none ∧
      (single.evaluate .standard []).relates .equal (.int 5) = true ∧
      (single.evaluateNative .standard []).whole? = some 1 ∧
    ended.isValid = true ∧ (ended.evaluate settings scope).whole? = some 5 := by
  decide +kernel

end Formula

end Grapher
