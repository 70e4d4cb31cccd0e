import Grapher.Boundary
import Grapher.Proofs.Program.Writing
import Grapher.Proofs.Tree.Nesting
import Mathlib.Data.List.Basic

/-!
# Edges come from neighbours

The edges of a condition are those of the pairs of neighbouring terms that it compares, in order. A
pair has at most one edge, and it does not matter on which side of the pair the axis stands: two
sides cannot both be the axis, since the other side must not depend on it. So the mirrored chain, in
which the terms stand in the opposite order and each relation points the other way, has the same
edges in the opposite order. Connectives put the edges of their parts one after another, and wrappers
add nothing, wherever they stand among connectives and wrappers (`ofNode_of_neighbours`).
-/

set_option autoImplicit false

namespace Grapher

open List Node

variable {args : List Node} {other : Node} {relation : Relation}

/-! ## Mirrored chains -/

/-- The relation read from right to left. -/
def Relation.flipped : Relation → Relation
  | .equal => .equal
  | .notEqual => .notEqual
  | .less => .greater
  | .lessEqual => .greaterEqual
  | .greater => .less
  | .greaterEqual => .lessEqual

@[simp] theorem Relation.isInclusive_flipped (relation : Relation) :
    relation.flipped.isInclusive = relation.isInclusive := by
  cases relation <;> rfl

/-- A link read from right to left. -/
def Link.mirrored {Term : Type} (link : Link Term Relation) : Link Term Relation :=
  ⟨link.head.flipped, link.right, link.left⟩

namespace Chain

variable {Term Bond : Type}

/-- A chain read from right to left. -/
def mirrored (chain : Chain Term Relation) : Chain Term Relation :=
  ⟨chain.terms.reverse, (chain.heads.map Relation.flipped).reverse⟩

/-- A chain is cut at one of its terms, which ends the first part and starts the second. -/
theorem linksOf_append {heads : List Bond} {terms : List Term} (fits : terms.length = heads.length)
    (more : List Bond) (joint : Term) (others : List Term) :
    linksOf (heads ++ more) (terms ++ joint :: others)
      = linksOf heads (terms ++ [joint]) ++ linksOf more (joint :: others) := by
  induction heads generalizing terms with
  | nil =>
    obtain rfl := length_eq_zero_iff.mp fits
    simp [linksOf]
  | cons head heads ih =>
    obtain ⟨left, terms, rfl⟩ := exists_cons_of_length_eq_add_one fits
    have rest := ih (Nat.succ.inj fits)
    cases terms with
    | nil | cons right terms => simpa [linksOf] using rest

/-- The links of a mirrored chain are the mirrored links in the opposite order. -/
theorem links_mirrored {chain : Chain Term Relation}
    (fits : chain.terms.length = chain.heads.length + 1) :
    chain.mirrored.links = (chain.links.map Link.mirrored).reverse := by
  obtain ⟨terms, heads⟩ := chain
  simp only [links, mirrored] at fits ⊢
  induction heads generalizing terms with
  | nil => simp [linksOf]
  | cons head heads ih =>
    obtain ⟨left, terms, rfl⟩ := exists_cons_of_length_eq_add_one fits
    obtain ⟨right, terms, rfl⟩ := exists_cons_of_length_eq_add_one (Nat.succ.inj fits)
    have rest := ih (right :: terms) (Nat.succ.inj fits)
    have inner : terms.reverse.length = (heads.map Relation.flipped).reverse.length := by
      simpa using fits
    rw [reverse_cons] at rest
    rw [map_cons, reverse_cons, reverse_cons, reverse_cons, append_assoc,
      singleton_append, linksOf_append inner, rest]
    simp [linksOf, Link.mirrored]

end Chain

namespace Node

mutual

/-- A comparison of two or more terms read from right to left, together with the comparisons among
its arguments. Anything else is a term and stays as it is. -/
def mirrored : Node → Node
  | .of (.relation relation) args =>
    match args with
    | _ :: _ :: _ => .of (.relation relation.flipped) (mirroredArgs args)
    | _ => .of (.relation relation) args
  | node => node

/-- Mirrored arguments in the opposite order. -/
def mirroredArgs : List Node → List Node
  | [] => []
  | node :: nodes => mirroredArgs nodes ++ [node.mirrored]

end

theorem mirroredArgs_eq (nodes : List Node) : mirroredArgs nodes = (nodes.map mirrored).reverse := by
  induction nodes with
  | nil => rfl
  | cons node nodes ih => rw [mirroredArgs, ih, map_cons, reverse_cons]

theorem mirrored_term {node : Node} (single : node.isChain = false) : node.mirrored = node := by
  unfold mirrored
  split
  · next relation args =>
    rcases args with _ | ⟨first, _ | ⟨second, more⟩⟩
    · rfl
    · rfl
    · cases single
  · rfl

theorem mirrored_comparison (several : 2 ≤ args.length) :
    (of (.relation relation) args).mirrored
      = .of (.relation relation.flipped) (mirroredArgs args) := by
  rcases args with _ | ⟨first, _ | ⟨second, more⟩⟩
  · cases several
  · exact absurd several (by simp)
  · rw [mirrored]

/-- One argument more at the end of an argument list. -/
theorem flattened_concat {Bond : Type} (bond : Relation → Bond) (outer : Bond) {nodes : List Node}
    (some : nodes ≠ []) (last : Node) :
    flattened bond outer (nodes ++ [last])
      = ⟨(flattened bond outer nodes).terms ++ (spliced bond last).terms,
        (flattened bond outer nodes).heads ++ outer :: (spliced bond last).heads⟩ := by
  induction nodes with
  | nil => exact absurd rfl some
  | cons first nodes ih =>
    cases nodes with
    | nil => simp [flattened]
    | cons second nodes =>
      have rest := ih (cons_ne_nil _ _)
      rw [cons_append] at rest
      rw [cons_append, cons_append, flattened_cons, rest, flattened_cons]
      simp

/-- The chain of mirrored arguments is the mirrored chain of the arguments. -/
theorem flattened_mirroredArgs (relation : Relation) (args : List Node) :
    flattened id relation.flipped (mirroredArgs args) = (flattened id relation args).mirrored := by
  refine flattened_induction id (motive := fun outer nodes chain =>
    flattened id outer.flipped (mirroredArgs nodes) = chain.mirrored) rfl ?_ ?_ ?_ relation args
  · intro outer node single
    rw [mirroredArgs, mirrored_term single, mirroredArgs, nil_append, flattened,
      spliced_term id single]
    rfl
  · intro outer relation args inner several same
    have turned : 2 ≤ (mirroredArgs args).length := by
      rw [mirroredArgs_eq]
      simpa using several
    rw [mirroredArgs, mirrored_comparison several, mirroredArgs, nil_append, flattened,
      spliced_comparison id turned]
    exact same
  · intro outer first second rest here later same others
    have some : mirroredArgs (second :: rest) ≠ [] := by
      rw [mirroredArgs]
      simp
    rw [mirroredArgs, mirroredArgs, nil_append, flattened] at same
    rw [mirroredArgs, flattened_concat id _ some, others, same]
    simp [Chain.mirrored]

/-- A comparison read from right to left flattens to the chain read from right to left. -/
theorem comparisonChain_mirrored (relation : Relation) (args : List Node) :
    comparisonChain relation.flipped (mirroredArgs args) = (comparisonChain relation args).mirrored :=
  flattened_mirroredArgs relation args

/-- No term of a chain is a chain itself. -/
theorem isChain_of_mem_flattened {Bond : Type} (bond : Relation → Bond) {outer : Bond} {term : Node} :
    ∀ {args : List Node}, term ∈ (flattened bond outer args).terms → term.isChain = false := by
  refine @flattened_induction _ bond (fun _ _ chain => term ∈ chain.terms → term.isChain = false)
    ?_ ?_ ?_ ?_ outer
  · exact fun member => absurd member not_mem_nil
  · exact fun single member => mem_singleton.mp member ▸ single
  · exact fun _ each => each
  · exact fun each others member => (mem_append.mp member).elim each others

end Node

/-! ## Edges of a pair -/

namespace Boundary

variable {here : String}

/-- The symbol of an axis depends on the axis. -/
theorem isolating?_eq_none {axis : Axis} (isAxis : other.isSymbolNamed axis.name = true)
    (style : EdgeStyle) (side : Node) : isolating? here style axis side other = none := by
  have excluded : axis.excluded.any (other.isFree ·) = true := by
    unfold isSymbolNamed at isAxis
    split at isAxis
    · obtain rfl := beq_iff_eq.mp isAxis
      cases axis <;> rfl
    · cases isAxis
  rw [isolating?, excluded]
  simp

/-- An edge that isolates an axis does so on one side of the pair only. -/
theorem isolating?_or_comm (style : EdgeStyle) (axis : Axis) (left right : Node) :
    (isolating? here style axis left right).or (isolating? here style axis right left)
      = (isolating? here style axis right left).or (isolating? here style axis left right) := by
  cases isAxis : right.isSymbolNamed axis.name with
  | true => rw [isolating?_eq_none isAxis style left, Option.none_or, Option.or_none]
  | false =>
    have none : isolating? here style axis right left = none := by
      rw [isolating?, isAxis]
      rfl
    rw [none, Option.none_or, Option.or_none]

/-- A link has the same edge from both sides. -/
theorem ofLink?_mirrored (link : Link Node Relation) :
    ofLink? here link.mirrored = ofLink? here link := by
  have style : styleOf link.head.flipped = styleOf link.head := by
    rw [styleOf, Relation.isInclusive_flipped, styleOf]
  simp only [ofLink?, Link.mirrored, style, isolating?_or_comm _ _ link.right link.left]

theorem style_of_isolating? {style : EdgeStyle} {axis : Axis} {side : Node} {edge : Boundary}
    (found : isolating? here style axis side other = some edge) : edge.style = style := by
  unfold isolating? at found
  split at found
  · obtain ⟨text, -, rfl⟩ := Option.map_eq_some_iff.mp found
    rfl
  · cases found

/-- The edge of a link has the style of its relation. -/
theorem style_of_ofLink? {link : Link Node Relation} {edge : Boundary}
    (found : ofLink? here link = some edge) : edge.style = styleOf link.head := by
  obtain ⟨axis, -, isolated⟩ := exists_of_findSome?_eq_some found
  rcases Option.or_eq_some_iff.mp isolated with first | ⟨-, second⟩
  · exact style_of_isolating? first
  · exact style_of_isolating? second

theorem styleOf_eq_solid_iff :
    styleOf relation = .solid ↔ relation ∈ [Relation.equal, .lessEqual, .greaterEqual] := by
  cases relation <;> decide

/-! ## Edges of a condition -/

theorem ofNodes_eq_flatMap (nodes : List Node) : ofNodes here nodes = nodes.flatMap (ofNode here) := by
  induction nodes with
  | nil => rfl
  | cons node nodes ih => rw [ofNodes, ih, flatMap_cons]

theorem ofNode_relation (relation : Relation) (args : List Node) :
    ofNode here (.of (.relation relation) args)
      = (comparisonChain relation args).links.filterMap (ofLink? here) := by
  rw [ofNode]

/-- What is passed through has the edges of its arguments, one after another. -/
theorem ofNode_passed {operator : Operator} (passed : isPassedThrough operator = true)
    (args : List Node) : ofNode here (.of operator args) = args.flatMap (ofNode here) := by
  rw [← ofNodes_eq_flatMap]
  cases operator with
  | and | or | not | delimiter | hold | block => rfl
  | _ => cases passed

/-- A place in a condition that is reached through connectives and wrappers. -/
inductive Site where
  | whole
  | within (operator : Operator) (passed : isPassedThrough operator = true) (before : List Node)
      (inner : Site) (after : List Node)

/-- The condition with something at the place. -/
def Site.fill : Site → Node → Node
  | .whole, node => node
  | .within operator _ before inner after, node => .of operator (before ++ inner.fill node :: after)

/-- What has the same edges can stand in the same places. -/
theorem Site.ofNode_fill {node : Node} (same : ofNode here node = ofNode here other) (site : Site) :
    ofNode here (site.fill node) = ofNode here (site.fill other) := by
  induction site with
  | whole => exact same
  | within operator passed before inner after ih =>
    simp only [fill, ofNode_passed passed, flatMap_append, flatMap_cons, ih]

/-- The two terms of a link as a comparison of their own. -/
def pair (link : Link Node Relation) : Node := .of (.relation link.head) [link.left, link.right]

/-- A link as a comparison of its own has the edge of the link and no other. -/
theorem ofNode_pair {link : Link Node Relation}
    (member : link ∈ (comparisonChain relation args).links) :
    ofNode here (pair link) = (ofLink? here link).toList := by
  obtain ⟨left, right⟩ := Program.mem_linksOf member
  have first := spliced_term id (isChain_of_mem_flattened id left)
  have second := spliced_term id (isChain_of_mem_flattened id right)
  have chain : comparisonChain link.head [link.left, link.right]
      = ⟨[link.left, link.right], [link.head]⟩ := by
    simp only [comparisonChain, flattened, first, second]
    rfl
  rw [pair, ofNode_relation, chain]
  cases found : ofLink? here link <;> simp [Chain.links, Chain.linksOf, found]

/-- The wrappers of one condition. -/
def wrappers : List Operator := [.not, .delimiter, .hold, .block]

/-- Edges depend only on which neighbours are compared. Every tree whose chain is a given one read
from right to left, such as the mirrored tree, has the edges of that chain in the opposite order. A
wrapper around any condition that is reached through connectives and wrappers changes nothing, and
connectives put the edges of their parts one after another. The edges of a comparison are those of
its pairs of neighbours, each taken by itself: a pair has at most one, and it is solid exactly if
equal terms satisfy the relation. -/
theorem ofNode_of_neighbours (here : String) :
    (∀ relation args, Node.comparisonChain relation.flipped (Node.mirroredArgs args)
      = (Node.comparisonChain relation args).mirrored) ∧
    (∀ relation args relation' args',
      Node.comparisonChain relation' args' = (Node.comparisonChain relation args).mirrored →
      ofNode here (.of (.relation relation') args')
        = (ofNode here (.of (.relation relation) args)).reverse) ∧
    (∀ (site : Site) (wrapper : Operator) (node : Node), wrapper ∈ wrappers →
      ofNode here (site.fill (.of wrapper [node])) = ofNode here (site.fill node)) ∧
    (∀ conditions, ofNode here (.of .and conditions) = conditions.flatMap (ofNode here) ∧
      ofNode here (.of .or conditions) = conditions.flatMap (ofNode here)) ∧
    ∀ relation args, ofNode here (.of (.relation relation) args)
        = (Node.comparisonChain relation args).links.flatMap (fun link => ofNode here (pair link)) ∧
      ∀ link ∈ (Node.comparisonChain relation args).links,
        (ofNode here (pair link)).length ≤ 1 ∧
        ∀ edge ∈ ofNode here (pair link),
          edge.style = .solid ↔ link.head ∈ [Relation.equal, .lessEqual, .greaterEqual] := by
  refine ⟨comparisonChain_mirrored, ?_, ?_, ?_, ?_⟩
  · intro relation args relation' args' turned
    rw [ofNode_relation, ofNode_relation, turned]
    cases args with
    | nil => rfl
    | cons first more =>
      have fits := length_flattened id relation (first :: more) (cons_ne_nil _ _)
      have same : ofLink? here ∘ Link.mirrored = ofLink? here := funext ofLink?_mirrored
      rw [comparisonChain, Chain.links_mirrored fits, filterMap_reverse, filterMap_map, same]
  · intro site wrapper node member
    have passed : isPassedThrough wrapper = true :=
      (by decide : ∀ wrapper ∈ wrappers, isPassedThrough wrapper = true) wrapper member
    refine site.ofNode_fill ?_
    rw [ofNode_passed passed, flatMap_singleton]
  · exact fun conditions => ⟨ofNode_passed rfl conditions, ofNode_passed rfl conditions⟩
  · intro relation args
    refine ⟨?_, fun link member => ?_⟩
    · rw [ofNode_relation, filterMap_eq_flatMap_toList]
      exact flatMap_congr fun link member => (ofNode_pair member).symm
    · rw [ofNode_pair member]
      refine ⟨Option.length_toList_le, fun edge drawn => ?_⟩
      rw [style_of_ofLink? (Option.mem_toList.mp drawn), styleOf_eq_solid_iff]

/-- The chain a < y ≤ b nested to the left, and b ≥ y > a nested to the right: the dotted edge and
the solid edge of y change places. -/
theorem ofNode_of_neighbours_interval :
    let chain := of (.relation .lessEqual)
      [.of (.relation .less) [.symbol "a", .symbol "y"], .symbol "b"]
    let turned := of (.relation .greaterEqual)
      [.symbol "b", .of (.relation .greater) [.symbol "y", .symbol "a"]]
    let lower : Boundary := ⟨.vertical, "a", .dotted, .symbol "a"⟩
    let upper : Boundary := ⟨.vertical, "b", .solid, .symbol "b"⟩
    ofNode "x" chain = [lower, upper] ∧ ofNode "x" turned = [upper, lower] ∧
      ofNode "x" (.of .or [.of .not [chain], .symbol "c"]) = [lower, upper] := by
  intro chain turned lower upper
  have edges : ofNode "x" chain = [lower, upper] := rfl
  obtain ⟨mirrored, reversed, wrapped, -, -⟩ := ofNode_of_neighbours "x"
  refine ⟨edges, ?_, ?_⟩
  · have opposite := reversed .lessEqual
      [.of (.relation .less) [.symbol "a", .symbol "y"], .symbol "b"] _ _ (mirrored _ _)
    exact opposite.trans (congrArg reverse edges)
  · have bare := wrapped (.within .or rfl [] .whole [.symbol "c"]) .not chain (by decide)
    exact bare.trans edges

end Boundary

end Grapher
