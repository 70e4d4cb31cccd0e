import Grapher.Proofs.Markup.Exponent
import Grapher.Proofs.Markup.Shape
import Grapher.Proofs.Program.Product

/-!
# Operands from left to right

A written sum is a run of operands with plus and minus between them, a written product one with
times and division. The tree of a run collects neighbours that are added or multiplied into one
operation and nests the others, the tree becomes a text, and the text a program. The value of that
program is still the fold of the values of the operands, in the order in which they are written
(`eval_run`). A quotient that is multiplied by is the exception, since it is not kept together
(`product_regroups_quotient`).
-/

set_option autoImplicit false

namespace Grapher

open Reading Program List Node

variable {more : List (Bool × Node)} {later : Rest}

/-- Operands from left to right, with two operations: each further operand comes with whether it is
joined by the first of them. -/
def Run.inTurn (joining other : Arithmetic) (first : Run) (more : List (Bool × Run)) : Run :=
  more.foldl (fun left entry => .binary (if entry.1 then joining else other) left entry.2) first

/-! ## Texts -/

section Texts

variable {here : String}

/-- A tree that has a program text. -/
abbrev HasText (here : String) (node : Node) : Prop := (textOf? here node).isSome = true

theorem hasText_iff {node : Node} : HasText here node ↔ ∃ term, read here node = some term := by
  rw [HasText, textOf?, Option.isSome_map, Option.isSome_iff_exists]

theorem isSome_terms? (nodes : List Node) :
    (Annotated.terms? (nodes.map (annotate here))).isSome = true ↔
      ∀ node ∈ nodes, HasText here node := by
  induction nodes with
  | nil => simp [Annotated.terms?]
  | cons node nodes ih =>
    rw [forall_mem_cons, ← ih, hasText_iff, map_cons, Annotated.terms?]
    cases first : read here node <;>
      cases Annotated.terms? (nodes.map (annotate here)) <;> simp [first]

theorem isSome_someTerms? {nodes : List Node} (some : nodes ≠ []) :
    (Annotated.someTerms? (nodes.map (annotate here))).isSome = true ↔
      ∀ node ∈ nodes, HasText here node := by
  cases nodes with
  | nil => exact absurd rfl some
  | cons node nodes => exact isSome_terms? (node :: nodes)

theorem hasText_joiner (joiner : Joiner) {nodes : List Node} (some : nodes ≠ []) :
    HasText here (.of joiner.operator nodes) ↔ ∀ node ∈ nodes, HasText here node := by
  rw [← isSome_someTerms? some, HasText, textOf?, Option.isSome_map, read_op]
  cases joiner <;> exact iff_of_eq (congrArg (· = true) Option.isSome_map)

theorem hasText_divide (a b : Node) :
    HasText here (.of .divide [a, b]) ↔ HasText here a ∧ HasText here b := by
  rw [hasText_iff, hasText_iff, hasText_iff, read_op]
  cases left : read here a <;> cases right : read here b <;>
    simp [readOperation, readOperator, pair?, left, right]

end Texts

/-! ## Folds of runs -/

/-- Two operators of one level and what they do to values. The first collects operands, of which
those behind the first one must be admitted. -/
structure Joins (collecting binary : Operator) (joining other : Arithmetic)
    (admitted : Node → Prop) : Prop where
  collects : ∀ here nodes, nodes ≠ [] →
    (HasText here (.of collecting nodes) ↔ ∀ node ∈ nodes, HasText here node)
  pairs : ∀ here a b, HasText here (.of binary [a, b]) ↔ HasText here a ∧ HasText here b
  single : ∀ call helpers here node, (Node.of collecting [node]).evaluate call helpers here
    = node.evaluate call helpers here
  grows : ∀ call helpers here nodes last, nodes ≠ [] → admitted last →
    (Node.of collecting (nodes ++ [last])).evaluate call helpers here
      = .binary joining ((Node.of collecting nodes).evaluate call helpers here)
        (last.evaluate call helpers here)
  parts : ∀ call helpers here a b, (Node.of binary [a, b]).evaluate call helpers here
    = .binary other (a.evaluate call helpers here) (b.evaluate call helpers here)

namespace Joins

open Markup

variable {collecting binary : Operator} {joining other : Arithmetic} {admitted : Node → Prop}
  {left right : Node} {run : List Node}

/-- The operands that one more joined operand makes of those collected so far. -/
def extended (left : Node) (run : List Node) (right : Node) : List Node :=
  if run.isEmpty then [left, right] else run ++ [right]

section

variable (joins : Joins collecting binary joining other admitted)

include joins

/-- With the operands collected so far, the tree on the left stands for them or for itself. -/
theorem hasText_extended (here : String) (collected : run = [] ∨ left = .of collecting run) :
    HasText here (.of collecting (extended left run right)) ↔
      HasText here left ∧ HasText here right := by
  cases run with
  | nil =>
    rw [extended, isEmpty_nil, if_pos rfl, joins.collects here _ (cons_ne_nil _ _)]
    simp
  | cons first rest =>
    obtain rfl := collected.resolve_left (cons_ne_nil _ _)
    rw [extended, isEmpty_cons, if_neg Bool.false_ne_true,
      joins.collects here (first :: rest) (cons_ne_nil _ _),
      joins.collects here (first :: rest ++ [right]) (cons_ne_nil _ _),
      forall_mem_append, forall_mem_singleton]

theorem evaluate_extended (collected : run = [] ∨ left = .of collecting run)
    (allowed : admitted right) (call : Apply) (helpers : Scope) (here : String) :
    (Node.of collecting (extended left run right)).evaluate call helpers here
      = .binary joining (left.evaluate call helpers here) (right.evaluate call helpers here) := by
  cases run with
  | nil =>
    rw [extended, isEmpty_nil, if_pos rfl, ← joins.single call helpers here left]
    exact joins.grows call helpers here [left] right (cons_ne_nil _ _) allowed
  | cons first rest =>
    obtain rfl := collected.resolve_left (cons_ne_nil _ _)
    rw [extended, isEmpty_cons, if_neg Bool.false_ne_true]
    exact joins.grows call helpers here (first :: rest) right (cons_ne_nil _ _) allowed

/-- The tree of a run has a text if all its operands have. -/
theorem hasText_foldRun (here : String)
    (collected : run = [] ∨ left = .of collecting run) (more : List (Bool × Node)) :
    HasText here (foldRun collecting binary left run more) ↔
      ∀ operand ∈ left :: more.map (·.2), HasText here operand := by
  induction more generalizing left run with
  | nil => simp [foldRun]
  | cons entry more ih =>
    obtain ⟨joined, right⟩ := entry
    cases joined with
    | false =>
      rw [foldRun, ih (.inl rfl), forall_mem_cons, joins.pairs]
      simp [and_assoc]
    | true =>
      rw [foldRun, ih (.inr rfl), forall_mem_cons]
      change HasText here (.of collecting (extended left run right)) ∧ _ ↔ _
      rw [joins.hasText_extended here collected]
      simp [and_assoc]

/-- The value of the tree of a run is the fold of the values of its operands: so far it is the value
of the tree on the left. -/
theorem evaluate_foldRun (collected : run = [] ∨ left = .of collecting run)
    (allowed : ∀ entry ∈ more, entry.1 = true → admitted entry.2) (call : Apply) (helpers : Scope)
    (here : String) :
    (foldRun collecting binary left run more).evaluate call helpers here
      = .inTurn joining other (left.evaluate call helpers here)
        (more.map fun entry => (entry.1, entry.2.evaluate call helpers here)) := by
  induction more generalizing left run with
  | nil => rfl
  | cons entry more ih =>
    obtain ⟨joined, right⟩ := entry
    have later : ∀ entry ∈ more, entry.1 = true → admitted entry.2 :=
      fun entry member => allowed entry (.tail _ member)
    cases joined with
    | false =>
      rw [foldRun, ih (.inl rfl) later, joins.parts]
      rfl
    | true =>
      rw [foldRun, ih (.inr rfl) later]
      change Run.inTurn _ _ ((of collecting (extended left run right)).evaluate _ _ _) _ = _
      rw [joins.evaluate_extended collected (allowed (true, right) (.head _) rfl)]
      rfl

end

end Joins

/-! ## Sums and products -/

theorem joins_sum : Joins .add .subtract .add .subtract fun _ => True where
  collects here nodes some := hasText_joiner .add some
  pairs here a b := by
    refine (hasText_joiner .subtract (cons_ne_nil a [b])).trans ?_
    simp
  single call helpers here node := by
    rw [evaluate]
    rfl
  grows call helpers here nodes last some _ := by
    rw [evaluate, evaluate]
    cases nodes with
    | nil => exact absurd rfl some
    | cons first rest => simp [Run.folded]
  parts call helpers here a b := by
    rw [evaluate]
    rfl

/-- At the start of a product a tree stands for itself. -/
theorem first_evaluateFactor (call : Apply) (helpers : Scope) (here : String) (node : Node) :
    (node.evaluateFactor call helpers here).first = node.evaluate call helpers here := by
  cases bare : node.bareQuotient? with
  | none => rw [evaluateFactor_none _ _ _ bare, Run.Factor.first]
  | some sides =>
    rw [evaluateFactor_some _ _ _ bare, Run.Factor.first]
    fun_induction bareQuotient? node with
    | case1 | case2 =>
      cases bare
      rw [evaluate]
    | case3 inner ih | case4 inner ih | case5 inner ih | case7 inner ih | case8 inner ih =>
      rw [evaluate]
      exact ih bare
    | case6 inner ih =>
      rw [evaluate_invisible]
      change _ = (inner.evaluateFactor call helpers here).first
      rw [evaluateFactor_some _ _ _ bare, Run.Factor.first]
    | case9 => cases bare

theorem joins_product :
    Joins .multiply .divide .multiply .divide fun node => node.bareQuotient? = none where
  collects here nodes some := hasText_joiner .multiply some
  pairs here a b := hasText_divide a b
  single call helpers here node := by
    rw [evaluate]
    exact first_evaluateFactor call helpers here node
  grows call helpers here nodes last some bare := by
    rw [evaluate, evaluate]
    cases nodes with
    | nil => exact absurd rfl some
    | cons first rest => simp [Run.product, evaluateFactor_none _ _ _ bare, Run.Factor.after]
  parts call helpers here a b := by
    rw [evaluate]

/-- Whether a tree is a quotient, bare or inside of groups. -/
def Node.isGroupedQuotient : Node → Bool
  | .of .divide _ => true
  | .of .delimiter [inner] => inner.isGroupedQuotient
  | _ => false

/-- Formulas write no other quotients than those of two operands, and no other groups around them
than brackets. -/
theorem bareQuotient?_of_formed {kinds : Markup.Kinds} {node : Node}
    (formed : Markup.Formed kinds node) (other : node.isGroupedQuotient = false) :
    node.bareQuotient? = none := by
  induction formed with
  | number | symbol | function | noItem | items | integral => rfl
  | @many operator args takes count all ih =>
    rcases args with _ | ⟨first, _ | ⟨second, more⟩⟩
    · simp at count
    · simp at count
    · cases operator with
      | or | and | add | multiply | invisible | relation => rfl
      | _ => cases takes
  | @two operator a b takes =>
    cases operator with
    | subtract | power => rfl
    | divide => cases other
    | _ => cases takes
  | @one operator a takes =>
    cases operator with
    | not | negate | prime => rfl
    | _ => cases takes
  | item only ih => exact ih other

/-! ## Programs of runs -/

/-- The tree of a run of operands says what the operands say one after the other. It has a program
text if all of them have; each text has a program; and the program of the tree gives the fold of
what the programs of the operands give, or fails as that fold does. -/
structure EvaluatesInTurn (here : String) (joining other : Arithmetic) (node first : Node)
    (more : List (Bool × Node)) : Prop where
  text : HasText here node ↔ ∀ operand ∈ first :: more.map (·.2), HasText here operand
  program : ∀ part ∈ node :: first :: more.map (·.2), ∀ text, textOf? here part = some text →
    Program.parse text = .ok (part.compiled here)
  value : HasText here node → ∀ call helpers scope moment,
    (node.compiled here).eval call helpers scope moment
      = Run.inTurn joining other (Expr.run call helpers (first.compiled here))
        (more.map fun entry => (entry.1, Expr.run call helpers (entry.2.compiled here)))
        scope moment

theorem Joins.evaluatesInTurn {collecting binary : Operator} {joining other : Arithmetic}
    {admitted : Node → Prop} (joins : Joins collecting binary joining other admitted)
    {here : String} (default : IsWord here) {first : Node}
    (spellable : ∀ part ∈ Markup.foldRun collecting binary first [] more :: first :: more.map (·.2),
      part.Spellable) (allowed : ∀ entry ∈ more, entry.1 = true → admitted entry.2) :
    EvaluatesInTurn here joining other (Markup.foldRun collecting binary first [] more) first
      more := by
  have collected : ([] : List Node) = [] ∨ first = .of collecting [] := .inl rfl
  have texts := joins.hasText_foldRun here collected more
  refine ⟨texts, fun part member text written => parse_text default (spellable part member) written,
    fun written call helpers scope moment => ?_⟩
  obtain ⟨term, found⟩ := hasText_iff.mp written
  have operand : ∀ node ∈ first :: more.map (·.2),
      node.evaluate call helpers here = Expr.run call helpers (node.compiled here) := by
    intro node member
    obtain ⟨term, found⟩ := hasText_iff.mp (texts.mp written node member)
    exact (run_compiled default found (spellable node (.tail _ member))).symm
  have later : (more.map fun entry => (entry.1, entry.2.evaluate call helpers here))
      = more.map fun entry => (entry.1, Expr.run call helpers (entry.2.compiled here)) := by
    refine map_congr_left fun entry member => ?_
    rw [operand entry.2 (.tail _ (mem_map_of_mem member))]
  have whole := joins.evaluate_foldRun collected allowed call helpers here
  rw [← run_compiled default found (spellable _ (.head _)), operand first (.head _), later] at whole
  exact congrFun (congrFun whole scope) moment

namespace Markup

/-! ## Written runs -/

/-- The further operands of a run as they are written: each of them behind one of two signs, up to
something else. -/
inductive Continues (operand : Rest → Node → Rest → Prop) (joining other : Sign) :
    Rest → List (Bool × Node) → Rest → Prop where
  | nil {rest : Rest}
      (ends : ∀ located ∈ rest.head?, located.token ≠ .sign joining ∧ located.token ≠ .sign other) :
      Continues operand joining other rest [] rest
  | joined {position : Nat} {rest middle later : Rest} {node : Node} {more : List (Bool × Node)}
      (next : operand rest node middle)
      (others : Continues operand joining other middle more later) :
      Continues operand joining other (⟨.sign joining, position⟩ :: rest) ((true, node) :: more) later
  | parted {position : Nat} {rest middle later : Rest} {node : Node} {more : List (Bool × Node)}
      (next : operand rest node middle)
      (others : Continues operand joining other middle more later) :
      Continues operand joining other (⟨.sign other, position⟩ :: rest) ((false, node) :: more) later

/-- A product stands in front of some tokens, as an operand of a sum. -/
def ProductAt (mode : Mode) (rest : Rest) (node : Node) (later : Rest) : Prop :=
  ∃ budget, parseProduct budget mode rest = .ok (node, later)

/-- A signed operand stands in front of some tokens, as an operand of a product. -/
def SignedAt (mode : Mode) (rest : Rest) (node : Node) (later : Rest) : Prop :=
  ∃ budget, parseSigned budget mode rest = .ok (node, later)

/-- What is read first and what is read after it, when both are combined. -/
theorem exists_of_pair {α β : Type} (combine : Node → α → β)
    {first : Except ParseError (Parsed Node)} {tail : Rest → Except ParseError (Parsed α)}
    {found : β} (same : (do
      let (a, rest) ← first
      let (b, rest) ← tail rest
      .ok (combine a b, rest)) = Except.ok (found, later)) :
    ∃ a middle b, first = .ok (a, middle) ∧ tail middle = .ok (b, later) ∧ found = combine a b := by
  obtain ⟨⟨a, middle⟩, start, same⟩ := ok_of_bind same
  obtain ⟨⟨b, last⟩, others, same⟩ := ok_of_bind same
  cases same
  exact ⟨a, middle, b, start, others, rfl⟩

/-- The tail of a run with two signs is read as it is written. -/
theorem IsTail.continues {joining other : Sign}
    {operand : Nat → Mode → Rest → Except ParseError (Parsed Node)}
    {tail : Nat → Mode → Rest → Except ParseError (Parsed (List (Bool × Node)))}
    (isTail : IsTail (pairEntry joining other) Prod.mk operand tail) {budget : Nat} {mode : Mode}
    {rest : Rest} (found : tail budget mode rest = .ok (more, later)) :
    Continues (fun rest node later => ∃ budget, operand budget mode rest = .ok (node, later))
      joining other rest more later := by
  induction budget generalizing rest more with
  | zero => cases (isTail.zero mode rest).symm.trans found
  | succ budget ih =>
    rcases rest with _ | ⟨⟨token, position⟩, rest⟩
    · cases (isTail.nil budget mode).symm.trans found
      exact .nil (by simp)
    · rw [isTail.cons] at found
      cases token with
      | sign sign =>
        dsimp only [Token.bySign, pairEntry] at found
        split_ifs at found with joins parts
        · subst joins
          obtain ⟨next, middle, others, first, tail, rfl⟩ :=
            exists_of_pair (fun next others => (true, next) :: others) found
          exact .joined ⟨budget, first⟩ (ih tail)
        · subst parts
          obtain ⟨next, middle, others, first, tail, rfl⟩ :=
            exists_of_pair (fun next others => (false, next) :: others) found
          exact .parted ⟨budget, first⟩ (ih tail)
        · cases found
          exact .nil (by simp [joins, parts])
      | _ =>
        cases found
        exact .nil (by simp)

/-- The tree of a run and its operands are spelled in program characters. -/
theorem spellable_of_run {whole first : Node} (formed : Formed scannedKinds whole)
    (start : Formed scannedKinds first) (others : ∀ entry ∈ more, Formed scannedKinds entry.2) :
    ∀ part ∈ whole :: first :: more.map (·.2), part.Spellable := by
  intro part member
  refine spellable_of_formed ?_
  rcases mem_cons.mp member with rfl | member
  · exact formed
  · rcases mem_cons.mp member with rfl | member
    · exact start
    · obtain ⟨entry, among, rfl⟩ := mem_map.mp member
      exact others entry among

/-- The value of a written run. Wherever a formula has a sum, it consists of products with plus and
minus between them, and wherever it has a product, of signed operands with times and division
between them. The program of the sum or of the product computes with the values of these operands
from left to right, in every scope, and fails as this computation fails. For a product this needs
that no operand that is multiplied by is a quotient, bare or inside of groups. -/
theorem eval_run {text here : String} {located rest : List Located}
    (scanned : scan 0 0 (prepared text.toList) = .ok located) (inside : rest <:+ located)
    (default : isName here = true) (defaultAscii : Program.isAscii here = true) {budget : Nat}
    {mode : Mode} {node : Node} {later : Rest} :
    (parseSum budget mode rest = .ok (node, later) →
      ∃ first middle more, ProductAt mode rest first middle ∧
        Continues (ProductAt mode) .plus .minus middle more later ∧ node = sumTree first more ∧
        EvaluatesInTurn here .add .subtract node first more) ∧
    (parseProduct budget mode rest = .ok (node, later) →
      ∃ first middle more, SignedAt mode rest first middle ∧
        Continues (SignedAt mode) .times .divide middle more later ∧
        node = productTree first more ∧
        ((∀ entry ∈ more, entry.1 = true → entry.2.isGroupedQuotient = false) →
          EvaluatesInTurn here .multiply .divide node first more)) := by
  have word : IsWord here := ⟨default, defaultAscii⟩
  have admitted : Admitted scannedKinds rest :=
    fun entry member => admitted_scan scanned entry (inside.subset member)
  constructor
  · intro found
    have formed := ((takes_parse budget .sum mode rest).formed supplied_scannedKinds admitted found).1
    cases budget with
    | zero => cases found
    | succ budget =>
      have finds := takes_parse budget
      unfold parseSum at found
      obtain ⟨first, middle, more, start, tail, rfl⟩ := exists_of_pair sumTree found
      obtain ⟨isFormed, remaining⟩ :=
        (finds .product mode rest).formed supplied_scannedKinds admitted start
      have others := ((finds .sumTail mode middle).formed supplied_scannedKinds remaining tail).1
      exact ⟨first, middle, more, ⟨budget, start⟩, isTail_sum.continues tail, rfl,
        joins_sum.evaluatesInTurn word (spellable_of_run formed isFormed others) fun _ _ _ => trivial⟩
  · intro found
    have formed :=
      ((takes_parse budget .product mode rest).formed supplied_scannedKinds admitted found).1
    cases budget with
    | zero => cases found
    | succ budget =>
      have finds := takes_parse budget
      unfold parseProduct at found
      obtain ⟨first, middle, more, start, tail, rfl⟩ := exists_of_pair productTree found
      obtain ⟨isFormed, remaining⟩ :=
        (finds .signed mode rest).formed supplied_scannedKinds admitted start
      obtain ⟨row, split, taken⟩ := finds .productTail mode middle _ _ tail
      rw [split] at remaining
      have others := forall_mem_map.mp (formed_of_takes supplied_scannedKinds taken remaining.left)
      refine ⟨first, middle, more, ⟨budget, start⟩, isTail_product.continues tail, rfl,
        fun plain => joins_product.evaluatesInTurn word (spellable_of_run formed isFormed others) ?_⟩
      exact fun entry member joined =>
        bareQuotient?_of_formed (others entry member) (plain entry member joined)

/-- A difference and a sum, with a quotient at the start of a product between them. -/
theorem eval_run_difference :
    let located : List Located := [⟨.name "x", 0⟩, ⟨.sign .minus, 1⟩, ⟨.name "y", 2⟩,
      ⟨.sign .divide, 3⟩, ⟨.name "z", 4⟩, ⟨.sign .times, 5⟩, ⟨.name "w", 6⟩, ⟨.sign .plus, 7⟩,
      ⟨.name "x", 8⟩]
    let product := of .multiply [.of .divide [.symbol "y", .symbol "z"], .symbol "w"]
    let node := of .add [.of .subtract [.symbol "x", product], .symbol "x"]
    scan 0 0 (prepared "x-y/z*w+x".toList) = .ok located ∧
    parseSum (budgetFor 9) .plain located = .ok (node, []) ∧
    parseProduct (budgetFor 9) .plain (located.drop 2) = .ok (product, located.drop 7) ∧
    (∃ first middle more, ProductAt .plain located first middle ∧
      Continues (ProductAt .plain) .plus .minus middle more [] ∧ node = sumTree first more ∧
      EvaluatesInTurn "x" .add .subtract node first more) ∧
    ∃ first middle more, SignedAt .plain (located.drop 2) first middle ∧
      Continues (SignedAt .plain) .times .divide middle more (located.drop 7) ∧
      product = productTree first more ∧
      ((∀ entry ∈ more, entry.1 = true → entry.2.isGroupedQuotient = false) →
        EvaluatesInTurn "x" .multiply .divide product first more) := by
  intro located product node
  have scanned : scan 0 0 (prepared "x-y/z*w+x".toList) = .ok located := rfl
  have sum : parseSum (budgetFor 9) .plain located = .ok (node, []) := rfl
  have inner : parseProduct (budgetFor 9) .plain (located.drop 2)
      = .ok (product, located.drop 7) := rfl
  exact ⟨scanned, sum, inner,
    (eval_run scanned suffix_rfl (by decide) (by decide)).1 sum,
    (eval_run scanned (drop_suffix 2 located) (by decide) (by decide)).2 inner⟩

end Markup

end Grapher
