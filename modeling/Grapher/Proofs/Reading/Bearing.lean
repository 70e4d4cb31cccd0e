import Grapher.Markup.Parser
import Grapher.Proofs.Program.Insertion
import Grapher.Proofs.Reading.Rules
import Mathlib.Data.List.Induction

/-!
# Trees that bear a primed name

The trees that a formula makes of different names at one place form a family. A family bears the
name if the name stands primed in front of a group, somewhere in a tree that does not depend on it
otherwise (`Bears`). Such trees are read in the same way for all names: if one of them has a
reading, then all have, each with the derivative of its name called on the readings of the group at
the same place (`Bears.behaves`).

Families whose trees have no reading for any name bear it as well, as long as the reading fails for
what stands at the name; they say nothing about programs, but they come up on the way.
-/

set_option autoImplicit false

namespace Grapher

variable {nodes : String → List Node} {operator : Operator}

namespace Markup

/-- The prime of a name. -/
def primedTree (name : String) : Node := .of .prime [nameTree name]

/-- The operators that read all of their operands. -/
def readsOperands : Operator → Bool
  | .or | .and | .not | .negate | .add | .subtract | .multiply | .divide | .power | .relation _
  | .elementary _ | .invisible => true
  | _ => false

/-- Families of trees, one for each name, that bear the name, primed and in front of a group. -/
inductive Bears (isGroup : List Node → Prop) : (String → Node) → Prop where
  | applied (left right : List Node) {items : List Node} (group : isGroup items) :
    Bears isGroup fun z => .of .invisible (left ++ primedTree z :: groupTree items :: right)
  /-- What stands behind the name is no group and has no reading. -/
  | unread (left right : List Node) {node : Node} (noGroup : node.items? = none)
    (unread : ∀ here, Reading.read here node = none) :
    Bears isGroup fun z => .of .invisible (left ++ primedTree z :: node :: right)
  /-- The prime marks an operation, which has no reading. -/
  | misplaced {part : String → Node} (operation : ∀ z, ∃ head args, part z = .op head args) :
    Bears isGroup fun z => .of .prime [part z]
  | operand {operator : Operator} (reads : readsOperands operator = true) (left right : List Node)
    {part : String → Node} (inner : Bears isGroup part) :
    Bears isGroup fun z => .of operator (left ++ part z :: right)
  | item {part : String → Node} (inner : Bears isGroup part) :
    Bears isGroup fun z => .of .delimiter [part z]
  | items (left right : List Node) {part : String → Node} (inner : Bears isGroup part) :
    Bears isGroup fun z => .of .delimiter [.of .sequence (left ++ part z :: right)]
  | body (name : String) (lower upper : Node) {part : String → Node}
    (inner : Bears isGroup part) : Bears isGroup fun z => integralTree (part z) name lower upper
  | lower (name : String) (body upper : Node) {part : String → Node}
    (inner : Bears isGroup part) : Bears isGroup fun z => integralTree body name (part z) upper
  | upper (name : String) (body lower : Node) {part : String → Node}
    (inner : Bears isGroup part) : Bears isGroup fun z => integralTree body name lower (part z)

theorem Bears.operation {isGroup : List Node → Prop} {tree : String → Node}
    (bears : Bears isGroup tree) (z : String) : ∃ head args, tree z = .op head args := by
  cases bears <;> exact ⟨_, _, rfl⟩

end Markup

namespace Reading

open Annotated Markup Program List Node

variable (here : String) (isGroup : List Node → Prop)

/-- A group with its readings. -/
structure Group where
  items : List Node
  args : List Term
  isGroup : isGroup items
  read : ReadAll here items args

/-- The name of a program that a primed name of a formula stands for. -/
def programName? (z : String) : Option String := primedName? (primedTree z)

/-- The places in a list of terms: those in one of them. -/
def PlacesAmong (wrap : Term → List Term) : Prop :=
  ∃ left inner right, Places here inner ∧ wrap = fun term => left ++ inner term :: right

/-- If there is a reading for one name, then the readings call the derivative of each name on one
group, at one place. A name that is none in programs has no reading. -/
def FollowsAt {α : Type} (placed : (Term → α) → Prop) (reading : String → Option α) : Prop :=
  ∀ z found, reading z = some found → ∃ (group : Group here isGroup) (wrap : Term → α),
    placed wrap ∧
      ∀ z, reading z = (programName? z).map fun name => wrap (.derivative name group.args)

/-- The readings follow the names. -/
abbrev Follows (reading : String → Option Term) : Prop :=
  FollowsAt here isGroup (Places here) reading

/-- The same, for one reading in a list. -/
abbrev FollowsAmong (readings : String → Option (List Term)) : Prop :=
  FollowsAt here isGroup (PlacesAmong here) readings

variable {here isGroup}

section Families

variable {α β : Type} {placed : (Term → α) → Prop} {outer : (Term → β) → Prop}
  {reading : String → Option Term} {readings : String → Option (List Term)}
  {families : String → Option α}

theorem follows_none (none : ∀ z, families z = none) : FollowsAt here isGroup placed families := by
  intro z term found
  rw [none z] at found
  cases found

theorem FollowsAt.congr {other : String → Option α} (follows : FollowsAt here isGroup placed other)
    (same : ∀ z, families z = other z) : FollowsAt here isGroup placed families :=
  funext same ▸ follows

variable (placed outer) in
/-- Readings that are made of other ones, if they are made at all. -/
def Wraps (build : Option α → Option β) : Prop :=
  (∀ found, build found = none) ∨ ∃ wrap : α → β,
    (∀ inner, placed inner → outer fun term => wrap (inner term)) ∧
      ∀ found, build found = found.map wrap

theorem FollowsAt.through (build : Option α → Option β) (made : Wraps placed outer build)
    (follows : FollowsAt here isGroup placed families) :
    FollowsAt here isGroup outer fun z => build (families z) := by
  rcases made with none | ⟨wrap, places, same⟩
  · exact follows_none fun z => none _
  intro z found made
  obtain ⟨part, read, -⟩ := Option.map_eq_some_iff.mp ((same _).symm.trans made)
  obtain ⟨group, inner, inside, all⟩ := follows z part read
  refine ⟨group, _, places inner inside, fun z => ?_⟩
  simp only [same, all z, Option.map_map, Function.comp_def]

theorem Follows.map {build : Term → Term} (places : Places here build)
    (follows : Follows here isGroup reading) :
    Follows here isGroup fun z => (reading z).map build :=
  follows.through _ (.inr ⟨build, fun _ => places.comp, fun _ => rfl⟩)

theorem FollowsAmong.map {build : List Term → Term}
    (places : ∀ left right, Places here fun term => build (left ++ term :: right))
    (follows : FollowsAmong here isGroup readings) :
    Follows here isGroup fun z => (readings z).map build := by
  refine follows.through _ (.inr ⟨build, ?_, fun _ => rfl⟩)
  rintro _ ⟨left, inner, right, inside, rfl⟩
  exact (places left right).comp inside

/-- The reading that follows the names comes first in the list. -/
theorem Follows.cons (follows : Follows here isGroup reading) (rest : Option (List Term)) :
    FollowsAmong here isGroup fun z =>
      reading z >>= fun term => rest >>= fun terms => some (term :: terms) := by
  refine follows.through (· >>= fun term => rest >>= fun terms => some (term :: terms)) ?_
  cases rest with
  | none => exact .inl fun found => by cases found <;> rfl
  | some terms =>
    exact .inr ⟨(· :: terms), fun inner inside => ⟨[], inner, terms, inside, rfl⟩,
      fun found => by cases found <;> rfl⟩

/-- The reading that follows the names comes later in the list. -/
theorem FollowsAmong.cons (first : Option Term) (follows : FollowsAmong here isGroup readings) :
    FollowsAmong here isGroup fun z =>
      first >>= fun term => readings z >>= fun terms => some (term :: terms) := by
  refine follows.through (fun found => first >>= fun term => found >>= fun terms =>
    some (term :: terms)) ?_
  cases first with
  | none => exact .inl fun _ => rfl
  | some term =>
    refine .inr ⟨(term :: ·), ?_, fun found => by cases found <;> rfl⟩
    rintro _ ⟨left, inner, right, inside, rfl⟩
    exact ⟨term :: left, inner, right, inside, rfl⟩

end Families

/-! ## Lists of readings -/

section Lists

variable {part : String → Node}

theorem followsAmong_terms (follows : Follows here isGroup fun z => read here (part z))
    (left right : List Node) :
    FollowsAmong here isGroup fun z =>
      terms? ((left ++ part z :: right).map (annotate here)) := by
  induction left with
  | nil => exact follows.cons _
  | cons first left ih => exact ih.cons (read here first)

theorem someTerms?_append_cons (left right : List Node) (node : Node) :
    someTerms? ((left ++ node :: right).map (annotate here))
      = terms? ((left ++ node :: right).map (annotate here)) := by
  cases left <;> rfl

theorem follows_pair {build : Term → Term → Term}
    (first : ∀ second, Places here fun term => build term second)
    (second : ∀ first, Places here fun term => build first term)
    (follows : Follows here isGroup fun z => read here (part z)) (left right : List Node) :
    Follows here isGroup fun z =>
      (pair? ((left ++ part z :: right).map (annotate here))).map fun (a, b) => build a b := by
  -- with anything but one operand beside it there is no pair
  rcases left with _ | ⟨a, _ | ⟨b, left⟩⟩
  · rcases right with _ | ⟨b, _ | ⟨c, right⟩⟩
    · exact follows_none fun z => rfl
    · refine follows.through
        (fun found => (do some (← found, ← read here b)).map fun (a, b) => build a b) ?_
      cases read here b with
      | none => exact .inl fun found => by cases found <;> rfl
      | some term => exact .inr ⟨_, fun _ => (first term).comp, fun found => by cases found <;> rfl⟩
    · exact follows_none fun z => rfl
  · cases right with
    | nil =>
      refine follows.through
        (fun found => (do some (← read here a, ← found)).map fun (a, b) => build a b) ?_
      cases read here a with
      | none => exact .inl fun found => rfl
      | some term => exact .inr ⟨_, fun _ => (second term).comp, fun found => by cases found <;> rfl⟩
    | cons c right => exact follows_none fun z => rfl
  · refine follows_none fun z => ?_
    cases left <;> rfl

theorem follows_single (follows : Follows here isGroup fun z => read here (part z))
    (left right : List Node) :
    Follows here isGroup fun z => single? ((left ++ part z :: right).map (annotate here)) := by
  rcases left with _ | ⟨a, left⟩
  · cases right with
    | nil => exact follows
    | cons b right => exact follows_none fun z => rfl
  · refine follows_none fun z => ?_
    cases left <;> rfl

end Lists

/-! ## Factors -/

section Factors

theorem factors?_plain {item next : Node} {rest : List Node}
    (alone : application? item = none ∨ next.items? = none) :
    factors? ((item :: next :: rest).map (annotate here))
      = read here item >>= fun term =>
        factors? ((next :: rest).map (annotate here)) >>= fun factors =>
          some (term :: factors) := by
  simp only [map_cons, factors?, groupItems?_annotate, node_annotate, term_annotate]
  rcases alone with none | none
  · rw [none]
    cases next.items? <;> rfl
  · rw [none]
    rfl

theorem factors?_applied {item next : Node} {items rest : List Node} {apply : List Term → Term}
    (group : next.items? = some items) (head : application? item = some apply) :
    factors? ((item :: next :: rest).map (annotate here))
      = (terms? (items.map (annotate here))).map apply >>= fun term =>
        factors? (rest.map (annotate here)) >>= fun factors => some (term :: factors) := by
  simp only [map_cons, factors?, groupItems?_annotate, node_annotate, group, head, Option.map_some]
  cases terms? (items.map (annotate here)) <;> rfl

theorem places_application {item : Node} {apply : List Term → Term}
    (head : application? item = some apply) (left right : List Term) :
    Places here fun term => apply (left ++ term :: right) := by
  unfold application? at head
  split at head
  · cases head
    exact .derivative _ left right
  · obtain ⟨name, -, rfl⟩ := Option.map_eq_some_iff.mp head
    exact .call name left right

/-- Whether a tree takes a group as its arguments is known from its reading. -/
theorem application?_of_unread {item : Node} (unread : read here item = none) :
    application? item = none := by
  cases item with
  | number value => rfl
  | symbol name =>
    have constant : readSymbol name = none := unread
    unfold readSymbol at constant
    split at constant
    · cases constant
    · next unnamed =>
      simp only [Bool.or_eq_true, not_or, Bool.not_eq_true] at unnamed
      simp [application?, primedName?, calleeName?, unnamed.2]
  | op head nodes =>
    have primed : primedName? (.op head nodes) = none := by
      unfold primedName?
      split
      · next name same =>
        cases same
        split
        · next named =>
          rw [read_op] at unread
          simp [readOperation, readOperator, primedName?, named] at unread
        · rfl
      · rfl
    simp [application?, primed, calleeName?]

/-- Factors in front do not matter, up to the last one, which may take what comes next. -/
theorem followsAmong_factors {tail : String → List Node}
    (start : FollowsAmong here isGroup fun z => factors? ((tail z).map (annotate here)))
    (taken : ∀ item, FollowsAmong here isGroup fun z =>
      factors? ((item :: tail z).map (annotate here))) :
    ∀ left : List Node, FollowsAmong here isGroup fun z =>
      factors? ((left ++ tail z).map (annotate here)) := by
  intro left
  -- A factor may take the next one as its arguments, so the induction takes one or two at a time.
  induction left using twoStepInduction with
  | nil => exact start
  | singleton item => exact taken item
  | cons_cons item next left afterTwo afterOne =>
    cases head : application? item with
    | none =>
      exact ((afterOne next).cons (read here item)).congr fun z => factors?_plain (.inl head)
    | some apply =>
      cases group : next.items? with
      | none =>
        exact ((afterOne next).cons (read here item)).congr fun z => factors?_plain (.inr group)
      | some items =>
        refine (afterTwo.cons ((terms? (items.map (annotate here))).map apply)).congr fun z => ?_
        exact factors?_applied group head

/-- The reading of a juxtaposition with given factors. -/
def juxtaposition : List Term → Option Term
  | [] => none
  | [only] => some only
  | factors => some (.product factors)

theorem read_invisible (nodes : List Node) :
    read here (.of .invisible nodes)
      = (factors? (nodes.map (annotate here))).bind juxtaposition := by
  rw [read_op]
  rfl

theorem FollowsAmong.juxtaposition {readings : String → Option (List Term)}
    (follows : FollowsAmong here isGroup readings) :
    Follows here isGroup fun z => (readings z).bind juxtaposition := by
  intro z term found
  obtain ⟨inner, read, -⟩ := Option.bind_eq_some_iff.mp found
  obtain ⟨group, _, ⟨left, wrap, right, inside, rfl⟩, all⟩ := follows z inner read
  by_cases alone : left = [] ∧ right = []
  · obtain ⟨rfl, rfl⟩ := alone
    refine ⟨group, wrap, inside, fun z => ?_⟩
    simp only [all z]
    cases programName? z <;> rfl
  · refine ⟨group, _, (Places.product left right).comp inside, fun z => ?_⟩
    have several : ∀ term, Reading.juxtaposition (left ++ term :: right)
        = some (.product (left ++ term :: right)) := by
      intro term
      rcases left with _ | ⟨first, _ | ⟨second, left⟩⟩
      · rcases right with _ | ⟨next, right⟩
        · exact absurd ⟨rfl, rfl⟩ alone
        · rfl
      · rfl
      · rfl
    simp only [all z, Option.bind_map, Function.comp_def, several]
    exact Option.map_eq_bind.symm

end Factors

/-! ## What is read of a family -/

variable (here isGroup) in
/-- Lists of trees of which one follows the names. -/
def FollowsIn (nodes : String → List Node) : Prop :=
  ∃ (left right : List Node) (part : String → Node),
    (∀ z, nodes z = left ++ part z :: right) ∧ Follows here isGroup fun z => read here (part z)

theorem Follows.among {part : String → Node}
    (follows : Follows here isGroup fun z => read here (part z)) (left right : List Node) :
    FollowsIn here isGroup fun z => left ++ part z :: right :=
  ⟨left, right, part, fun _ => rfl, follows⟩

theorem FollowsIn.terms (follows : FollowsIn here isGroup nodes) :
    FollowsAmong here isGroup fun z => terms? ((nodes z).map (annotate here)) := by
  obtain ⟨left, right, part, same, inner⟩ := follows
  exact (followsAmong_terms inner left right).congr fun z => by rw [same z]

theorem FollowsIn.append (follows : FollowsIn here isGroup nodes) (before behind : List Node) :
    FollowsIn here isGroup fun z => before ++ nodes z ++ behind := by
  obtain ⟨left, right, part, same, inner⟩ := follows
  exact ⟨before ++ left, right ++ behind, part, fun z => by simp [same z], inner⟩

variable (here isGroup) in
/-- Everything that the rules of reading look at in the trees of a family follows the names: the
readings, the items of a group, the terms of a chain. -/
structure Behaves (tree : String → Node) : Prop where
  reading : Follows here isGroup fun z => read here (tree z)
  items : (∀ z, (tree z).items? = none) ∨
    ∃ nodes, (∀ z, (tree z).items? = some (nodes z)) ∧ FollowsIn here isGroup nodes
  terms : ∃ nodes heads, (∀ z, Node.spliced id (tree z) = ⟨nodes z, heads⟩) ∧
    FollowsIn here isGroup nodes
  application : ∀ z, application? (tree z) = none
  sequence : ∀ z, (tree z).isOperation .sequence = false

/-- Operations other than groups and comparisons are looked at through their readings only. -/
theorem FollowsAt.behaves {args : String → List Node} (noGroup : operator ≠ .delimiter)
    (noSequence : operator ≠ .sequence) (noPrime : operator ≠ .prime)
    (noChain : ∀ relation, operator ≠ .relation relation)
    (reading : Follows here isGroup fun z => read here (.of operator (args z))) :
    Behaves here isGroup fun z => .of operator (args z) where
  reading := reading
  items := by
    refine .inl fun z => ?_
    cases operator with
    | delimiter => exact absurd rfl noGroup
    | _ => rfl
  terms := by
    refine ⟨_, [], fun z => ?_, reading.among [] []⟩
    cases operator with
    | relation relation => exact absurd rfl (noChain relation)
    | _ => simp [Node.spliced]
  application := by
    intro z
    cases operator with
    | prime => exact absurd rfl noPrime
    | _ => rfl
  sequence := fun z => beq_eq_false_iff_ne.mpr noSequence

section Operands

variable {part : String → Node}

/-! ### Juxtaposition -/

theorem Behaves.factors (behaves : Behaves here isGroup part) (left right : List Node) :
    FollowsAmong here isGroup fun z =>
      factors? ((left ++ part z :: right).map (annotate here)) := by
  have start : FollowsAmong here isGroup fun z =>
      factors? ((part z :: right).map (annotate here)) := by
    cases right with
    | nil => exact behaves.reading.cons (some [])
    | cons next right =>
      exact (behaves.reading.cons _).congr fun z => factors?_plain (.inl (behaves.application z))
  refine followsAmong_factors start (fun item => ?_) left
  have alone (plain : ∀ z, application? item = none ∨ (part z).items? = none) :
      FollowsAmong here isGroup fun z =>
        factors? ((item :: part z :: right).map (annotate here)) :=
    (start.cons (read here item)).congr fun z => factors?_plain (plain z)
  rcases behaves.items with none | ⟨nodes, shape, follows⟩
  · exact alone fun z => .inr (none z)
  · cases head : application? item with
    | none => exact alone fun z => .inl head
    | some apply =>
      have args := follows.terms.map (places_application head)
      exact (args.cons _).congr fun z => factors?_applied (shape z) head

theorem application?_primedTree {z name : String} (named : programName? z = some name) :
    application? (primedTree z) = some (.derivative name) := by
  rw [application?, ← programName?, named]

/-- A prime is read only if it marks a name of a program. -/
theorem read_primedTree {z : String} (unnamed : programName? z = none) :
    read here (primedTree z) = none := by
  have marked : primedName? (.of .prime [nameTree z]) = none := unnamed
  rw [primedTree, read_op]
  simp [readOperation, readOperator, marked]

/-- A name that is primed in front of a group is called on the items of the group. -/
theorem followsAmong_applied {items : List Node} (group : isGroup items)
    (grouped : (groupTree items).items? = some items) (left right : List Node) :
    FollowsAmong here isGroup fun z =>
      factors? ((left ++ primedTree z :: groupTree items :: right).map (annotate here)) := by
  have start : FollowsAmong here isGroup fun z =>
      factors? ((primedTree z :: groupTree items :: right).map (annotate here)) := by
    have named {z name : String} (named : programName? z = some name) :=
      @factors?_applied here _ _ _ right _ grouped (application?_primedTree named)
    have unnamed {z : String} (unnamed : programName? z = none) :
        factors? ((primedTree z :: groupTree items :: right).map (annotate here)) = none := by
      have unread := @read_primedTree here z unnamed
      rw [factors?_plain (.inl (application?_of_unread unread)), unread]
      rfl
    intro z terms found
    cases stands : programName? z with
    | none => cases (unnamed stands).symm.trans found
    | some name =>
      have applied := (named stands).symm.trans found
      simp only [Option.bind_eq_bind, Option.bind_eq_some_iff, Option.map_eq_some_iff] at applied
      obtain ⟨-, ⟨args, read, -⟩, factors, later, -⟩ := applied
      refine ⟨⟨items, args, group, readAll_of_terms? read⟩, _, ⟨[], _, factors, .whole, rfl⟩,
        fun z => ?_⟩
      cases stands : programName? z with
      | none => exact unnamed stands
      | some name => exact (named stands).trans (by rw [read, later]; rfl)
  refine followsAmong_factors start (fun item => ?_) left
  exact (start.cons (read here item)).congr fun z => factors?_plain (.inr rfl)

theorem followsAmong_unread {node : Node} (noGroup : node.items? = none)
    (unread : read here node = none) (left right : List Node) :
    FollowsAmong here isGroup fun z =>
      factors? ((left ++ primedTree z :: node :: right).map (annotate here)) := by
  have rest : factors? ((node :: right).map (annotate here)) = none := by
    cases right with
    | nil => simp [factors?, unread]
    | cons next right =>
      rw [factors?_plain (.inl (application?_of_unread unread)), unread]
      rfl
  have start : FollowsAmong here isGroup fun z =>
      factors? ((primedTree z :: node :: right).map (annotate here)) := by
    intro z terms found
    simp only [factors?_plain (.inr noGroup), rest] at found
    simp at found
  refine followsAmong_factors start (fun item => ?_) left
  exact (start.cons (read here item)).congr fun z => factors?_plain (.inr rfl)

/-! ### Chains -/

/-- The terms of a chain of comparisons, one of which follows the names. -/
theorem Behaves.flattened (behaves : Behaves here isGroup part) (outer : Relation)
    (left right : List Node) :
    ∃ nodes heads,
      (∀ z, flattened id outer (left ++ part z :: right) = ⟨nodes z, heads⟩) ∧
      FollowsIn here isGroup nodes := by
  induction left with
  | nil =>
    obtain ⟨nodes, heads, shape, follows⟩ := behaves.terms
    cases right with
    | nil => exact ⟨nodes, heads, fun z => by simp [Node.flattened, shape z], follows⟩
    | cons next right =>
      refine ⟨_, heads ++ outer :: (Node.flattened id outer (next :: right)).heads, fun z => ?_,
        follows.append [] (Node.flattened id outer (next :: right)).terms⟩
      rw [nil_append, Node.flattened_cons, shape z, nil_append]
  | cons first left ih =>
    obtain ⟨nodes, heads, shape, follows⟩ := ih
    refine ⟨_, (spliced id first).heads ++ outer :: heads, fun z => ?_,
      follows.append (spliced id first).terms []⟩
    obtain ⟨second, more, same⟩ := exists_cons_of_ne_nil
      (append_ne_nil_of_right_ne_nil left (cons_ne_nil (part z) right))
    rw [cons_append, same, Node.flattened_cons, ← same, shape z, append_nil]

/-- The reading of a comparison is the chain of the readings of its terms. -/
theorem read_relation (relation : Relation) (nodes : List Node) :
    read here (.of (.relation relation) nodes)
      = if (flattened id relation nodes).heads = [] then none
        else (terms? ((flattened id relation nodes).terms.map (annotate here))).map
          (.chain · (flattened id relation nodes).heads) := by
  have terms : ∀ nodes : List Node,
      (nodes.map (read here)).mapM id = terms? (nodes.map (annotate here)) := by
    intro nodes
    induction nodes with
    | nil => rfl
    | cons node nodes ih => simp only [map_cons, mapM_cons, ih, terms?]; rfl
  rw [read_op, readOperation, readOperator, ← annotateArgs_eq_map, flattened_annotate, chain?]
  split
  · next none => rw [if_pos none]
  · next some =>
    rw [if_neg some, terms]
    exact Option.map_eq_bind.symm

theorem Behaves.chain (behaves : Behaves here isGroup part) (relation : Relation)
    (left right : List Node) :
    Follows here isGroup fun z =>
      read here (.of (.relation relation) (left ++ part z :: right)) := by
  obtain ⟨nodes, heads, shape, follows⟩ := behaves.flattened relation left right
  simp only [read_relation, shape]
  by_cases compares : heads = []
  · exact follows_none fun z => if_pos compares
  simp only [if_neg compares]
  intro z term found
  obtain ⟨terms, read, -⟩ := Option.map_eq_some_iff.mp found
  obtain ⟨group, _, ⟨before, wrap, behind, inside, rfl⟩, all⟩ := follows.terms z terms read
  obtain ⟨name, -, rfl⟩ := Option.map_eq_some_iff.mp ((all z).symm.trans read)
  have count : before.length + behind.length = heads.length := by
    have terms := (readAll_of_terms? read).length_eq
    have links := length_flattened id relation (left ++ part z :: right) (by simp)
    rw [shape] at links
    simp only [length_append, length_cons] at terms links
    omega
  refine ⟨group, _, (Places.chain compares count).comp inside, fun z => ?_⟩
  simp only [all z, Option.map_map, Function.comp_def]

/-! ### Integrals -/

/-- The reading of an integral over a variable, from the readings of its parts. -/
def integralReading (name : String) (body lower upper : Option Term) : Option Term :=
  if isName name then do some (.integral name (← body) (← lower) (← upper)) else none

theorem read_integralTree (body lower upper : Node) (name : String) :
    read here (integralTree body name lower upper)
      = integralReading (if name == "" then here else name) (read here body) (read here lower)
        (read here upper) := by
  rw [integralTree, read_op]
  simp only [readOperation, readOperator, map_cons, map_nil, integral?,
    integrand?_annotate, limits?_annotate]
  rfl

/-- Each part of an integral is at a place of its own, if the other two parts have readings. -/
theorem wraps_integralReading (name : String) (first second : Option Term) :
    Wraps (Places here) (Places here) (integralReading name · first second) ∧
      Wraps (Places here) (Places here) (integralReading name first · second) ∧
      Wraps (Places here) (Places here) (integralReading name first second ·) := by
  unfold integralReading
  cases isName name with
  | false => exact ⟨.inl fun _ => rfl, .inl fun _ => rfl, .inl fun _ => rfl⟩
  | true =>
    rcases first with _ | first
    · exact ⟨.inl fun found => by cases found <;> rfl, .inl fun _ => rfl, .inl fun _ => rfl⟩
    rcases second with _ | second
    · exact ⟨.inl fun found => by cases found <;> rfl, .inl fun found => by cases found <;> rfl,
        .inl fun _ => rfl⟩
    exact ⟨.inr ⟨_, fun _ => (Places.body name first second).comp, fun found => by cases found <;> rfl⟩,
      .inr ⟨_, fun _ => (Places.lower name first second).comp, fun found => by cases found <;> rfl⟩,
      .inr ⟨_, fun _ => (Places.upper name first second).comp, fun found => by cases found <;> rfl⟩⟩

/-! ### Operations -/

/-- An operation that reads its operands follows the names as one of them does. -/
theorem Behaves.operand (reads : readsOperands operator = true) (left right : List Node)
    (behaves : Behaves here isGroup part) :
    Follows here isGroup fun z => read here (.of operator (left ++ part z :: right)) := by
  refine FollowsAt.congr ?_ fun z => read_op _ _
  have terms := (behaves.reading.among left right).terms
  have some : FollowsAmong here isGroup fun z =>
      someTerms? ((left ++ part z :: right).map (annotate here)) :=
    terms.congr fun z => someTerms?_append_cons left right _
  cases operator with
  | relation relation => exact (behaves.chain relation left right).congr fun z => (read_op _ _).symm
  | invisible => exact (behaves.factors left right).juxtaposition
  | add => exact some.map (.joined .add)
  | subtract => exact some.map (.joined .subtract)
  | multiply => exact some.map (.joined .multiply)
  | and => exact some.map (.connective .and)
  | or => exact some.map (.connective .or)
  | divide => exact follows_pair .numerator .denominator behaves.reading left right
  | power => exact follows_pair .base .exponent behaves.reading left right
  | negate => exact (follows_single behaves.reading left right).map .negate
  | not => exact (follows_single behaves.reading left right).map .not
  | elementary function =>
    simp only [readOperation, readOperator, length_map, length_append, length_cons]
    split
    · exact terms.map (.elementary function)
    · exact follows_none fun z => rfl
  | _ => cases reads

end Operands

/-- The family of an operation with an operand that behaves. -/
theorem Behaves.operation (reads : readsOperands operator = true) (left right : List Node)
    {part : String → Node} (behaves : Behaves here isGroup part) :
    Behaves here isGroup fun z => .of operator (left ++ part z :: right) := by
  have reading := behaves.operand reads left right
  by_cases compares : ∃ relation, operator = .relation relation
  · obtain ⟨relation, rfl⟩ := compares
    refine ⟨reading, .inl fun z => rfl, ?_, fun z => rfl, fun z => rfl⟩
    by_cases alone : left = [] ∧ right = []
    · -- a comparison of a single term is no chain
      obtain ⟨rfl, rfl⟩ := alone
      exact ⟨_, [], fun z => by simp [Node.spliced], reading.among [] []⟩
    · obtain ⟨nodes, heads, shape, follows⟩ := behaves.flattened relation left right
      refine ⟨nodes, heads, fun z => ?_, follows⟩
      rw [← shape z]
      rcases left with _ | ⟨first, _ | ⟨second, left⟩⟩
      · rcases right with _ | ⟨next, right⟩
        · exact absurd ⟨rfl, rfl⟩ alone
        · simp [Node.spliced]
      · simp [Node.spliced]
      · simp [Node.spliced]
  · refine reading.behaves ?_ ?_ ?_ fun relation same => compares ⟨relation, same⟩
    all_goals
      rintro rfl
      cases reads

theorem items?_item {node : Node} (single : node.isOperation .sequence = false) :
    items? (.of .delimiter [node]) = some [node] := by
  cases node with
  | number value | symbol name => rfl
  | op head args =>
    cases head with
    | call name unknown => rfl
    | operator operator =>
      cases operator with
      | sequence => cases single
      | _ => rfl

/-- A group is looked at through its items. -/
theorem Behaves.item {part : String → Node} (behaves : Behaves here isGroup part) :
    Behaves here isGroup fun z => .of .delimiter [part z] := by
  have same : ∀ z, read here (.of .delimiter [part z]) = read here (part z) := by
    intro z
    rw [read_op]
    simp [readOperation, readOperator, behaves.sequence z]
  have reading : Follows here isGroup fun z => read here (.of .delimiter [part z]) :=
    behaves.reading.congr same
  exact ⟨reading,
    .inr ⟨_, fun z => items?_item (behaves.sequence z), behaves.reading.among [] []⟩,
    ⟨_, [], fun z => by simp [Node.spliced], reading.among [] []⟩, fun z => rfl, fun z => rfl⟩

theorem Behaves.itemList {part : String → Node} (behaves : Behaves here isGroup part)
    (left right : List Node) :
    Behaves here isGroup fun z => .of .delimiter [.of .sequence (left ++ part z :: right)] := by
  have reading : Follows here isGroup fun z =>
      read here (.of .delimiter [.of .sequence (left ++ part z :: right)]) :=
    follows_none fun z => rfl
  exact ⟨reading, .inr ⟨_, fun z => rfl, behaves.reading.among left right⟩,
    ⟨_, [], fun z => by simp [Node.spliced], reading.among [] []⟩, fun z => rfl, fun z => rfl⟩

/-- A prime that marks an operation has no reading. -/
theorem behaves_misplaced {part : String → Node}
    (operation : ∀ z, ∃ head args, part z = .op head args) :
    Behaves here isGroup fun z => .of .prime [part z] := by
  have unnamed : ∀ z, primedName? (.of .prime [part z]) = none := by
    intro z
    obtain ⟨head, args, same⟩ := operation z
    rw [same]
    rfl
  have reading : Follows here isGroup fun z => read here (.of .prime [part z]) := by
    refine follows_none fun z => ?_
    rw [read_op]
    simp [readOperation, readOperator, unnamed z]
  exact ⟨reading, .inl fun z => rfl, ⟨_, [], fun z => by simp [Node.spliced], reading.among [] []⟩,
    fun z => by simp [application?, unnamed z, calleeName?], fun z => rfl⟩

theorem FollowsAmong.behaves
    (factors : FollowsAmong here isGroup fun z => factors? ((nodes z).map (annotate here))) :
    Behaves here isGroup fun z => .of .invisible (nodes z) :=
  (factors.juxtaposition.congr fun _ => read_invisible _).behaves Operator.noConfusion
    Operator.noConfusion Operator.noConfusion fun _ => Operator.noConfusion

/-- An integral follows the names as one of its parts does. -/
theorem Behaves.integral {part body lower upper : String → Node} {name : String}
    {build : Option Term → Option Term} (behaves : Behaves here isGroup part)
    (made : Wraps (Places here) (Places here) build)
    (same : ∀ z, integralReading (if name == "" then here else name) (read here (body z))
      (read here (lower z)) (read here (upper z)) = build (read here (part z))) :
    Behaves here isGroup fun z => integralTree (body z) name (lower z) (upper z) := by
  have reading := (behaves.reading.through build made).congr fun z =>
    (read_integralTree (body z) (lower z) (upper z) name).trans (same z)
  exact reading.behaves Operator.noConfusion Operator.noConfusion Operator.noConfusion
    fun _ => Operator.noConfusion

end Reading

/-! ## Families that bear the names -/

namespace Markup

open Reading

variable {here : String} {isGroup : List Node → Prop}

theorem Bears.behaves (grouped : ∀ items, isGroup items → (groupTree items).items? = some items)
    {tree : String → Node} (bears : Bears isGroup tree) : Behaves here isGroup tree := by
  induction bears with
  | applied left right group =>
    exact (followsAmong_applied group (grouped _ group) left right).behaves
  | unread left right noGroup unread =>
    exact (followsAmong_unread noGroup (unread here) left right).behaves
  | misplaced operation => exact behaves_misplaced operation
  | operand reads left right _ inner => exact inner.operation reads left right
  | item _ inner => exact inner.item
  | items left right _ inner => exact inner.itemList left right
  | body name lower upper _ inner => exact inner.integral (wraps_integralReading _ _ _).1 fun _ => rfl
  | lower name body upper _ inner =>
    exact inner.integral (wraps_integralReading _ _ _).2.1 fun _ => rfl
  | upper name body lower _ inner =>
    exact inner.integral (wraps_integralReading _ _ _).2.2 fun _ => rfl

end Markup

end Grapher
