import Grapher.Proofs.Evaluation.Relocation
import Grapher.Proofs.Tree.Nesting
import Mathlib.Data.List.Induction
import Mathlib.Data.List.TakeWhile

/-!
# Chains of comparisons as conjunctions

A chain of comparisons takes each of its terms once and carries it to the next relation. The
conjunction of the comparisons of neighbours takes the inner terms again, and at other moments: a
closure that a term makes is there another one. A comparison does not depend on that, since it only
asks whether two closures are one, and a map of moments that moves a comparison to another place
keeps this (`Run.related_elsewhere`). So the chain and the conjunction have the same outcome
(`Run.conjoined_eq_chained`). Where the first relations of a chain do not all hold, they alone decide
about it (`Run.chained_of_stopped`): what comes after them is never looked at.
-/

set_option autoImplicit false

namespace Grapher

open List Moment

/-! ## Other places inside of an evaluation -/

namespace Moment

/-- A moment that belongs to a part of the evaluation at another one. -/
def Inside (origin later : Moment) : Prop := ∃ index, (Moment.part origin index).From later

/-- The number of steps to a moment. -/
def steps : Moment → Nat
  | .start => 0
  | .part earlier _ => earlier.steps + 1
  | .entry earlier => earlier.steps + 1

theorem From.steps_le {origin later : Moment} (after : origin.From later) :
    origin.steps ≤ later.steps := by
  induction after with
  | here => exact Nat.le_refl _
  | part _ _ ih | entry _ ih => exact Nat.le_succ_of_le ih

/-- No moment belongs to a part of itself. -/
theorem not_from_part (origin : Moment) (index : Nat) : ¬ (part origin index).From origin :=
  fun after => Nat.not_succ_le_self _ after.steps_le

/-- The parts of the evaluation at a moment as parts of the evaluation at another place, from an index
on. All other moments stay. -/
def regraft (origin place : Moment) (offset : Nat) : Moment → Moment
  | .start => .start
  | .part earlier index =>
    if earlier = origin then .part place (index + offset)
    else .part (regraft origin place offset earlier) index
  | .entry earlier => .entry (regraft origin place offset earlier)

section Regraft

variable {origin place : Moment} {offset : Nat}

theorem regraft_part (index : Nat) :
    regraft origin place offset (.part origin index) = .part place (index + offset) := by
  rw [regraft, if_pos rfl]

theorem regraft_of_outside {moment : Moment} (outside : ¬ origin.Inside moment) :
    regraft origin place offset moment = moment := by
  induction moment with
  | start => rfl
  | part earlier index ih =>
    have other : earlier ≠ origin := by
      rintro rfl
      exact outside ⟨index, .here⟩
    rw [regraft, if_neg other, ih fun ⟨first, after⟩ => outside ⟨first, .part index after⟩]
  | entry earlier ih => rw [regraft, ih fun ⟨first, after⟩ => outside ⟨first, .entry after⟩]

/-- The parts are carried along, each with everything inside of it. -/
theorem carries_regraft (index : Nat) :
    Carries (regraft origin place offset) (.part origin index) := by
  refine ⟨fun {later} after next => ?_, fun _ => rfl⟩
  have other : later ≠ origin := by
    rintro rfl
    exact not_from_part later index after
  rw [regraft, if_neg other]

theorem regraft_from {index : Nat} {moment : Moment} (after : (part origin index).From moment) :
    (part place (index + offset)).From (regraft origin place offset moment) := by
  induction after with
  | here => rw [regraft_part]; exact .here
  | part next before ih => rw [(carries_regraft index).part before]; exact .part next ih
  | entry before ih => exact .entry ih

/-- Only the origin can come to stand at the place. -/
theorem eq_of_regraft_eq (inside : place = origin ∨ origin.Inside place) {moment : Moment}
    (same : regraft origin place offset moment = place) : moment = origin := by
  by_cases within : origin.Inside moment
  · obtain ⟨index, after⟩ := within
    have beyond := @regraft_from origin place offset index moment after
    rw [same] at beyond
    exact absurd beyond (not_from_part place _)
  · rw [regraft_of_outside within] at same
    subst same
    exact inside.resolve_right within

/-- Different moments stay different if the parts move further into the same evaluation. -/
theorem regraft_injective (inside : place = origin ∨ origin.Inside place) :
    Function.Injective (regraft origin place offset) := by
  intro moment
  induction moment with
  | start =>
    intro other same
    cases other with
    | start => rfl
    | entry => cases same
    | part earlier index =>
      rw [regraft, regraft] at same
      split at same <;> cases same
  | entry earlier ih =>
    intro other same
    cases other with
    | start => cases same
    | entry earlier' => rw [ih (entry.inj same)]
    | part earlier' index =>
      rw [regraft, regraft] at same
      split at same <;> cases same
  | part earlier index ih =>
    intro other same
    cases other with
    | start | entry =>
      rw [regraft, regraft] at same
      split at same <;> cases same
    | part earlier' index' =>
      rw [regraft, regraft] at same
      split at same
      · next here =>
        split at same
        · next here' =>
          obtain ⟨-, shifted⟩ := part.inj same
          rw [here, here', Nat.add_right_cancel shifted]
        · next away =>
          exact absurd (eq_of_regraft_eq inside (part.inj same).1.symm) away
      · next away =>
        split at same
        · next here' =>
          exact absurd (eq_of_regraft_eq inside (part.inj same).1) away
        · next away' =>
          obtain ⟨moved, rfl⟩ := part.inj same
          rw [ih moved]

end Regraft

end Moment

/-! ## Runs that can be placed anywhere -/

/-- Nothing in a scope was made inside of the evaluation at a moment. A scope without closures is
such, and so is every scope that was filled before the evaluation starts: only the evaluation itself
makes closures that are born inside of it. -/
def Scope.MadeBefore (scope : Scope) (moment : Moment) : Prop :=
  ∀ birth ∈ scope.births, ¬ moment.Inside birth

namespace Run

variable {scope : Scope} {moment : Moment}

/-- A run whose outcome goes along with every map that only moves moments inside of an evaluation. -/
def Portable (scope : Scope) (moment : Moment) (run : Run) : Prop :=
  ∀ ⦃f : Moment → Moment⦄, Function.Injective f → (∀ birth, ¬ moment.Inside birth → f birth = birth) →
    ∀ ⦃place : Moment⦄, Moment.Carries f place →
      Paired (Value.Moved f) (run scope place) (run scope (f place))

/-- A comparison has the same outcome with its terms at two other neighbouring parts. -/
theorem related_elsewhere {relation : Relation} {left right : Run} (first : Portable scope moment left)
    (second : Portable scope moment right) {place : Moment}
    (inside : place = moment ∨ moment.Inside place) (index : Nat) :
    related ⟨relation, left, right⟩ scope moment = (do
      let a ← left scope (.part place index)
      let b ← right scope (.part place (index + 1))
      let holds ← Value.relates relation a b
      .ok (.bool holds)) := by
  have injective := @regraft_injective moment place index inside
  have fixed : ∀ birth, ¬ moment.Inside birth → regraft moment place index birth = birth :=
    fun _ outside => regraft_of_outside outside
  have moved := first injective fixed (carries_regraft 0)
  have moved' := second injective fixed (carries_regraft 1)
  rw [regraft_part, Nat.zero_add] at moved
  rw [regraft_part, Nat.add_comm] at moved'
  have := Value.likeness_moved injective
  refine Paired.eq (moved.bind fun a a' likeLeft => moved'.bind fun b b' likeRight => ?_)
  rw [Likeness.relates relation likeLeft likeRight]
  exact .refl (fun _ => rfl) _

/-- A comparison has the same outcome at another place inside of the evaluation. -/
theorem related_inside {link : Link Run Relation} (first : Portable scope moment link.left)
    (second : Portable scope moment link.right) {place : Moment}
    (inside : place = moment ∨ moment.Inside place) :
    related link scope place = related link scope moment :=
  (related_elsewhere first second inside 0).symm

end Run

/-! ## The first relations of a chain -/

namespace Chain

variable {Term Bond : Type}

/-- The last term of a run. -/
def last (first : Term) (more : List (Bond × Term)) : Term :=
  more.foldl (fun _ next => next.2) first

theorem adjacent_map {Other : Type} (f : Term → Other) (first : Term) (more : List (Bond × Term)) :
    adjacent (f first) (more.map fun next => (next.1, f next.2))
      = (adjacent first more).map fun link => ⟨link.head, f link.left, f link.right⟩ := by
  induction more generalizing first with
  | nil => rfl
  | cons next more ih => exact congrArg (_ :: ·) (ih next.2)

theorem last_of_forall {property : Term → Prop} {first : Term} {more : List (Bond × Term)}
    (start : property first) (all : ∀ next ∈ more, property next.2) : property (last first more) := by
  induction more generalizing first with
  | nil => exact start
  | cons next more ih =>
    obtain ⟨here, later⟩ := forall_mem_cons.mp all
    exact ih here later

theorem adjacent_concat (first : Term) (more : List (Bond × Term)) (next : Bond × Term) :
    adjacent first (more ++ [next]) = adjacent first more ++ [⟨next.1, last first more, next.2⟩] := by
  induction more generalizing first with
  | nil => rfl
  | cons entry more ih => exact congrArg (_ :: ·) (ih entry.2)

end Chain

namespace Run

variable {scope : Scope} {moment : Moment}

/-- A chain goes on after its first relations only if they hold, with the last of their terms. -/
theorem linked_append {term : Run} {index : Nat} {value : Value}
    (found : term scope (.part moment index) = .ok value) (more after : List (Relation × Run)) :
    linked (index + 1) value (more ++ after) scope moment = (do
      let holds ← linked (index + 1) value more scope moment
      if holds then
        let left ← Chain.last term more scope (.part moment (index + more.length))
        linked (index + more.length + 1) left after scope moment
      else .ok false) := by
  induction more generalizing term index value with
  | nil =>
    simp only [nil_append, linked, Chain.last, foldl_nil, length_nil, Nat.add_zero, found]
    rfl
  | cons next more ih =>
    obtain ⟨relation, next⟩ := next
    rw [cons_append, linked, linked]
    cases met : next scope (.part moment (index + 1)) with
    | error fault => rfl
    | ok right =>
      simp only [bind, Except.bind]
      cases Value.relates relation value right with
      | error fault => rfl
      | ok holds =>
        cases holds with
        | false => rfl
        | true =>
          have shifted : index + (more.length + 1) = index + 1 + more.length := by omega
          rw [length_cons, shifted]
          exact ih met

theorem chained_append (first : Run) (more after : List (Relation × Run)) :
    chained first (more ++ after) scope moment = (do
      let held ← chained first more scope moment
      if held.truth then
        let left ← Chain.last first more scope (.part moment more.length)
        let holds ← linked (more.length + 1) left after scope moment
        .ok (.bool holds)
      else .ok (.bool false)) := by
  unfold chained
  cases found : first scope (.part moment 0) with
  | error fault => rfl
  | ok value =>
    have rest := linked_append found more after
    rw [Nat.zero_add, Nat.zero_add] at rest
    simp only [bind, Except.bind]
    rw [rest]
    cases linked 1 value more scope moment with
    | error fault => rfl
    | ok holds =>
      cases holds with
      | false => rfl
      | true =>
        cases Chain.last first more scope (.part moment more.length) <;> rfl

/-- Relations that do not all hold, or that fail, decide about the whole chain. -/
theorem chained_of_stopped {first : Run} {more : List (Relation × Run)}
    (stops : chained first more scope moment ≠ .ok (.bool true)) (after : List (Relation × Run)) :
    chained first (more ++ after) scope moment = chained first more scope moment := by
  rw [chained_append]
  unfold chained at stops ⊢
  cases found : first scope (.part moment 0) with
  | error fault => rfl
  | ok value =>
    rw [found] at stops
    simp only [bind, Except.bind] at stops ⊢
    cases held : linked 1 value more scope moment with
    | error fault => rfl
    | ok holds =>
      rw [held] at stops
      cases holds with
      | false => rfl
      | true => exact absurd rfl stops

theorem linked_single (index : Nat) (value : Value) (next : Relation × Run) :
    linked index value [next] scope moment = (do
      let right ← next.2 scope (.part moment index)
      Value.relates next.1 value right) := by
  obtain ⟨relation, next⟩ := next
  simp only [linked]
  cases next scope (.part moment index) with
  | error fault => rfl
  | ok right =>
    cases met : Value.relates relation value right with
    | error fault => simp only [bind, Except.bind, met]
    | ok holds => cases holds <;> simp [bind, Except.bind, met]

theorem chained_single (first : Run) (next : Relation × Run) :
    chained first [next] = related ⟨next.1, first, next.2⟩ := by
  funext scope moment
  simp only [chained, linked_single, related]
  cases first scope (.part moment 0) with
  | error fault => rfl
  | ok value => cases next.2 scope (.part moment 1) <;> rfl

/-! ## Conjunctions of comparisons -/

/-- The conjunction of the comparisons of neighbours. -/
def conjoined (first : Run) (more : List (Relation × Run)) : Run :=
  folded both ((Chain.adjacent first more).map related)

theorem conjoined_concat (first : Run) {more : List (Relation × Run)} (some : more ≠ [])
    (next : Relation × Run) :
    conjoined first (more ++ [next])
      = both (conjoined first more) (related ⟨next.1, Chain.last first more, next.2⟩) := by
  obtain ⟨head, more, rfl⟩ := exists_cons_of_ne_nil some
  rw [conjoined, Chain.adjacent_concat, map_append]
  exact foldl_concat ..

/-- The conjunction of the comparisons of neighbours has the outcome of their chain. -/
theorem conjoined_eq_chained {first : Run} (start : Portable scope moment first)
    {more : List (Relation × Run)} (all : ∀ next ∈ more, Portable scope moment next.2)
    (some : more ≠ []) {place : Moment} (inside : place = moment ∨ moment.Inside place) :
    conjoined first more scope place = chained first more scope moment := by
  -- from the end of the chain, since the conjunction adds its last comparison outermost
  induction more using reverseRecOn generalizing place with
  | nil => exact absurd rfl some
  | append_singleton more next ih =>
    obtain ⟨earlier, here⟩ := forall_mem_append.mp all
    have left : Portable scope moment (Chain.last first more) :=
      Chain.last_of_forall start earlier
    have right : Portable scope moment next.2 := here next (.head _)
    by_cases single : more = []
    · subst single
      rw [nil_append, chained_single]
      exact related_inside left right inside
    · have part : ∀ index, moment.Inside (.part place index) := by
        intro index
        rcases inside with rfl | ⟨first, after⟩
        · exact ⟨index, .here⟩
        · exact ⟨first, .part index after⟩
      rw [conjoined_concat first single, both, ih earlier single (.inr (part 0)), chained_append,
        related_inside left right (.inr (part 1)), related_elsewhere left right (.inl rfl) more.length]
      refine bind_congr fun held => ?_
      simp only [linked_single]
      cases Chain.last first more scope (.part moment more.length) with
      | error fault => rfl
      | ok a =>
        cases next.2 scope (.part moment (more.length + 1)) with
        | error fault => rfl
        | ok b =>
          simp only [bind, Except.bind]
          cases Value.relates next.1 a b <;> simp only [Value.truth_bool]

end Run

/-- What a program gives can be placed anywhere, in a scope that was made before. -/
theorem Program.Expr.portable_run {helpers scope : Scope} {moment : Moment}
    (helped : helpers.MadeBefore moment) (made : scope.MadeBefore moment) (depth : Nat) (e : Expr) :
    (e.run (applyAt depth) helpers).Portable scope moment :=
  fun _ injective fixed _ carries => e.eval_moved injective carries
    (fun birth member => fixed birth (helped birth member))
    (fun birth member => fixed birth (made birth member)) depth

/-! ## Texts -/

namespace Program

/-- A further term of a chain, with the relation before it. -/
abbrev Next := Relation × Derivation .sum

/-- The tokens of a chain of comparisons. -/
def rowOfChain (first : Derivation .sum) (more : List Next) : List Token :=
  first.tokens ++ more.flatMap fun next => .mark (.relation next.1) :: next.2.tokens

/-- The tokens of a comparison of two terms in parentheses. -/
def rowOfLink (link : Link (Derivation .sum) Relation) : List Token :=
  .mark .opening :: rowOfChain link.left [(link.head, link.right)] ++ [.mark .closing]

/-- The tokens of the conjunction of the comparisons of neighbours. -/
def rowOfConjunction (first : Derivation .sum) (more : List Next) : List Token :=
  [.keyword .and].intercalate ((Chain.adjacent first more).map rowOfLink)

/-- A chain of comparisons as an expression. -/
def Expr.chain (first : Derivation .sum) (more : List Next) : Expr :=
  .compare first.expr (more.map Prod.fst) (more.map (·.2.expr))

/-- A comparison as a whole program. -/
def Derivation.whole (comparison : Derivation .comparison) : Derivation .or :=
  .inward (by decide) <| .inward (by decide) <| .inward (by decide) comparison

/-- A comparison in parentheses. -/
def Derivation.grouped (comparison : Derivation .comparison) : Derivation .not :=
  .inward (by decide) <| .inward (by decide) <| .inward (by decide) <| .inward (by decide) <|
    .inward (by decide) <| .inward (by decide) <| .inward (by decide) <| .group comparison.whole

/-- A chain as a derivation. -/
def Derivation.chained (first : Derivation .sum) (next : Next) (more : List Next) :
    Derivation .comparison :=
  .chain first (.mk next.1 next.2) (more.map fun next => .mk next.1 next.2)

/-- A conjunction with one more phrase. -/
def Derivation.and (left : Derivation .and) (right : Derivation .not) : Derivation .and :=
  .extended left (.joined .and right)

/-- The conjunction of phrases as a derivation. -/
def Derivation.conjoined (first : Derivation .not) (more : List (Derivation .not)) :
    Derivation .and :=
  more.foldl .and (.inward (by decide) first)

/-- The comparison of two terms in parentheses as a derivation. -/
def Derivation.linked (link : Link (Derivation .sum) Relation) : Derivation .not :=
  (chained link.left (link.head, link.right) []).grouped

section Rows

variable (first : Derivation .sum) (next : Next) (more : List Next)

theorem chainTokens_map :
    chainTokens (more.map fun next => .mk next.1 next.2)
      = more.flatMap fun next => .mark (.relation next.1) :: next.2.tokens := by
  induction more with
  | nil => rw [map_nil, chainTokens, flatMap_nil]
  | cons next more ih => rw [map_cons, chainTokens, ih, Compared.tokens, flatMap_cons]

theorem Derivation.tokens_chained :
    (Derivation.chained first next more).tokens = rowOfChain first (next :: more) := by
  rw [Derivation.chained, tokens, chainTokens_map, Compared.tokens, rowOfChain, flatMap_cons]

theorem Derivation.expr_chained :
    (Derivation.chained first next more).expr = .chain first (next :: more) := by
  simp only [Derivation.chained, expr, Expr.chain, Compared.relation, Compared.expr, chainExprs_eq,
    map_map, map_cons]
  rfl

end Rows

theorem Derivation.tokens_linked (link : Link (Derivation .sum) Relation) :
    (linked link).tokens = rowOfLink link := by
  exact congrArg (.mark .opening :: · ++ [.mark .closing]) (tokens_chained ..)

theorem intercalate_cons (separator : Token) (first : List Token) (more : List (List Token)) :
    [separator].intercalate (first :: more) = first ++ more.flatMap (separator :: ·) := by
  induction more generalizing first with
  | nil => simp
  | cons second more ih => simp [intercalate_cons_cons, ih second]

theorem Derivation.tokens_conjoined (first : Derivation .not) (more : List (Derivation .not)) :
    (conjoined first more).tokens = [.keyword .and].intercalate ((first :: more).map tokens) := by
  have further : ∀ left : Derivation .and, (more.foldl .and left).tokens
      = left.tokens ++ (more.map tokens).flatMap (.keyword .and :: ·) := by
    induction more with
    | nil => simp
    | cons next more ih =>
      intro left
      have joined : (left.and next).tokens = left.tokens ++ .keyword .and :: next.tokens := by
        rfl
      rw [foldl_cons, ih, joined]
      simp
  rw [map_cons, intercalate_cons]
  refine (further _).trans ?_
  rfl

variable (call : Apply) (helpers : Scope)

theorem Expr.run_chain (first : Derivation .sum) (more : List Next) :
    (Expr.chain first more).run call helpers
      = .chained (first.expr.run call helpers)
        (more.map fun next => (next.1, next.2.expr.run call helpers)) := by
  rw [chain, run_chained, map_map, zip_map']
  rfl

theorem Derivation.run_expr_linked (link : Link (Derivation .sum) Relation) :
    (linked link).expr.run call helpers
      = .related ⟨link.head, link.left.expr.run call helpers, link.right.expr.run call helpers⟩ := by
  have same : (linked link).expr = .chain link.left [(link.head, link.right)] := by
    exact expr_chained ..
  rw [same, Expr.run_chain, map_singleton, Run.chained_single]

theorem Derivation.run_expr_conjoined (first : Derivation .not) (more : List (Derivation .not)) :
    (conjoined first more).expr.run call helpers
      = .folded .both ((first :: more).map (·.expr.run call helpers)) := by
  have further : ∀ left : Derivation .and, (more.foldl .and left).expr.run call helpers
      = (more.map (·.expr.run call helpers)).foldl .both (left.expr.run call helpers) := by
    induction more with
    | nil => exact fun _ => rfl
    | cons next more ih =>
      intro left
      have joined : (left.and next).expr = .and left.expr next.expr := by
        rfl
      rw [foldl_cons, ih, joined, Expr.run_and]
      rfl
  refine (further _).trans ?_
  rfl

/-- A text that spells a derivation is parsed to its expression. -/
theorem parse_of_tokens {text : String} {row : List Token} (found : tokens text = .ok row)
    (derivation : Derivation .or) (spelled : derivation.tokens = row) :
    parse text = .ok derivation.expr := by
  have parsed : parseTokens row = .ok derivation.expr := by
    rw [← spelled]
    exact parseTokens_phrase derivation.phrase
  have full : (Text.trim text.toList).isEmpty ≠ true := by
    intro empty
    rw [List.isEmpty_iff, Text.trim, Text.dropBlanksRight, List.reverse_eq_nil_iff,
      dropWhile_eq_nil_iff] at empty
    have blank : Text.dropBlanks text.toList = [] := by
      by_contra left
      have visible := head_dropWhile_not Text.isBlank left
      have gone := empty _ (mem_reverse.mpr (head_mem left))
      exact Bool.false_ne_true (visible.symm.trans gone)
    have none : Text.dropBlanksRight text.toList = [] := by
      rw [Text.dropBlanksRight, reverse_eq_nil_iff, dropWhile_eq_nil_iff]
      exact fun c member => dropWhile_eq_nil_iff.mp blank c (mem_reverse.mp member)
    rw [tokens, none] at found
    cases found
    cases parsed
  rw [parse, if_neg full, found]
  exact parsed

theorem parse_chain {text : String} {first : Derivation .sum} {next : Next} {more : List Next}
    (found : tokens text = .ok (rowOfChain first (next :: more))) :
    parse text = .ok (.chain first (next :: more)) := by
  rw [← Derivation.expr_chained]
  refine parse_of_tokens found (Derivation.chained first next more).whole ?_
  exact Derivation.tokens_chained first next more

/-- The conjunction is parsed to a program that takes one comparison after the other. -/
theorem parse_conjunction {text : String} {first : Derivation .sum} {next : Next} {more : List Next}
    (found : tokens text = .ok (rowOfConjunction first (next :: more))) :
    ∃ conjunction, parse text = .ok conjunction ∧ ∀ call helpers, conjunction.run call helpers
      = .conjoined (first.expr.run call helpers)
        ((next :: more).map fun next => (next.1, next.2.expr.run call helpers)) := by
  let links := (Chain.adjacent next.2 more).map Derivation.linked
  let conjunction := Derivation.conjoined (.linked ⟨next.1, first, next.2⟩) links
  have spelled : conjunction.tokens = rowOfConjunction first (next :: more) := by
    rw [Derivation.tokens_conjoined, ← map_cons, map_map]
    exact congrArg _ (map_congr_left fun link _ => Derivation.tokens_linked link)
  refine ⟨_, parse_of_tokens found (.inward (by decide) conjunction) ?_, ?_⟩
  · simp only [Derivation.tokens]
    exact spelled
  · intro call helpers
    refine (Derivation.run_expr_conjoined call helpers _ _).trans ?_
    rw [Run.conjoined, Chain.adjacent_map fun term : Derivation .sum => term.expr.run call helpers,
      ← map_cons, map_map, map_map]
    exact congrArg _ (map_congr_left fun link _ => Derivation.run_expr_linked call helpers link)

/-- A chain of comparisons and the conjunction of the comparisons of its neighbours are programs with
the same outcome in every scope that was made before, be it a value or a failure. Relations at the
front of the chain that do not all hold decide about both: no outcome depends on what comes after
them. -/
theorem eval_chain_eq_conjunction {text written : String} {first : Derivation .sum}
    {more : List Next} (some : more ≠ []) (chains : tokens text = .ok (rowOfChain first more))
    (conjoins : tokens written = .ok (rowOfConjunction first more)) :
    ∃ chain conjunction, parse text = .ok chain ∧ parse written = .ok conjunction ∧
      ∀ (depth : Nat) (helpers scope : Scope) (moment : Moment), helpers.MadeBefore moment →
        scope.MadeBefore moment →
        conjunction.eval (applyAt depth) helpers scope moment
          = chain.eval (applyAt depth) helpers scope moment ∧
        ∀ before after, more = before ++ after →
          (Expr.chain first before).eval (applyAt depth) helpers scope moment ≠ .ok (.bool true) →
          chain.eval (applyAt depth) helpers scope moment
            = (Expr.chain first before).eval (applyAt depth) helpers scope moment := by
  obtain ⟨next, more, rfl⟩ := exists_cons_of_ne_nil some
  obtain ⟨conjunction, parsed, runs⟩ := parse_conjunction conjoins
  refine ⟨.chain first (next :: more), conjunction, parse_chain chains, parsed, ?_⟩
  intro depth helpers scope moment helped made
  have portable := Expr.portable_run helped made depth
  constructor
  · change conjunction.run (applyAt depth) helpers scope moment
      = (Expr.chain first (next :: more)).run (applyAt depth) helpers scope moment
    rw [runs, Expr.run_chain]
    refine Run.conjoined_eq_chained (portable first.expr) ?_ (by simp) (.inl rfl)
    intro entry member
    obtain ⟨next, -, rfl⟩ := mem_map.mp member
    exact portable next.2.expr
  · intro before after split stops
    change (Expr.chain first before).run (applyAt depth) helpers scope moment ≠ _ at stops
    change (Expr.chain first (next :: more)).run (applyAt depth) helpers scope moment
      = (Expr.chain first before).run (applyAt depth) helpers scope moment
    rw [Expr.run_chain] at stops
    rw [split, Expr.run_chain, Expr.run_chain, map_append]
    exact Run.chained_of_stopped stops _

/-- Since `a` is not less than `b`, it does not matter that `c` is undefined. -/
theorem eval_chain_eq_conjunction_undefined :
    ∃ chain conjunction, parse "a < b < c" = .ok chain ∧
      parse "(a < b) and (b < c)" = .ok conjunction ∧
      chain.eval apply [] [("a", .int 2), ("b", .int 1)] .start = .ok (.bool false) ∧
      conjunction.eval apply [] [("a", .int 2), ("b", .int 1)] .start = .ok (.bool false) := by
  let term (word : String) : Derivation .sum :=
    .inward (by decide) <| .inward (by decide) <| .inward (by decide) <| .inward (by decide) <|
      .inward (by decide) <| .name word
  obtain ⟨chain, conjunction, parsed, parsed', all⟩ := @eval_chain_eq_conjunction "a < b < c"
    "(a < b) and (b < c)" (term "a") [(.less, term "b"), (.less, term "c")] (by simp) rfl rfl
  have made : ∀ birth ∈ Scope.births [("a", .int 2), ("b", .int 1)],
      ¬ start.Inside birth := by
    intro birth member
    cases member
  obtain ⟨same, stops⟩ := all depthLimit [] _ .start (fun birth member => by cases member) made
  have decided := stops [(.less, term "b")] [(.less, term "c")] rfl
    (fun holds => by cases holds)
  exact ⟨chain, conjunction, parsed, parsed', decided, same.trans decided⟩

end Program

end Grapher
