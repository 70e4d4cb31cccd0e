import Grapher.Proofs.Reading.Bearing

/-!
# Trees around a tree that bears a name

The parser builds trees out of the trees and rows of trees that it finds. If one of them bears the
name at some place, then so does the whole, unless it is dropped: a script of a function word that
a later one replaces, or a base that its word does not take. A family is grown if it bears the names
or does not depend on them, and whatever is built of a grown part and fixed ones is grown.
-/

set_option autoImplicit false

namespace Grapher.Markup

open List

variable {binary collecting : Operator} {part tree : String → Node}

variable {isGroup : List Node → Prop}

/-! ## Grown families -/

variable (isGroup) in
/-- Trees that bear the names, or do not depend on them. -/
def Grown (tree : String → Node) : Prop :=
  Bears isGroup tree ∨ ∃ node, ∀ z, tree z = node

/-- Rows in which one entry bears the names, or that do not depend on them. -/
def GrownRow {γ : Type} (bears : (String → γ) → Prop) (row : String → List γ) : Prop :=
  (∃ left right entry, (∀ z, row z = left ++ entry z :: right) ∧ bears entry) ∨
    ∃ entries, ∀ z, row z = entries

variable (isGroup) in
/-- Entries with a fixed tag and a tree that bears the names. -/
def BearsTagged {τ : Type} (entry : String → τ × Node) : Prop :=
  ∃ tag part, (∀ z, entry z = (tag, part z)) ∧ Bears isGroup part

theorem bearsTagged {τ : Type} (tag : τ) {part : String → Node} (inner : Bears isGroup part) :
    BearsTagged isGroup fun z => (tag, part z) :=
  ⟨tag, part, fun _ => rfl, inner⟩

theorem Grown.map (build : Node → Node)
    (bears : ∀ {tree}, Bears isGroup tree → Bears isGroup fun z => build (tree z))
    (grown : Grown isGroup tree) : Grown isGroup fun z => build (tree z) := by
  rcases grown with inner | ⟨node, same⟩
  · exact .inl (bears inner)
  · exact .inr ⟨build node, fun z => congrArg build (same z)⟩

theorem GrownRow.map {γ : Type} {bears : (String → γ) → Prop} (build : List γ → Node)
    (inside : ∀ left right {entry}, bears entry →
      Bears isGroup fun z => build (left ++ entry z :: right))
    {row : String → List γ} (grown : GrownRow bears row) :
    Grown isGroup fun z => build (row z) := by
  rcases grown with ⟨left, right, entry, same, inner⟩ | ⟨entries, same⟩
  · exact .inl (by simpa only [same] using inside left right inner)
  · exact .inr ⟨build entries, fun z => congrArg build (same z)⟩

theorem Grown.row {γ : Type} {bears : (String → γ) → Prop} (make : Node → γ)
    (entry : ∀ {tree}, Bears isGroup tree → bears fun z => make (tree z))
    (grown : Grown isGroup tree) (more : List γ) :
    GrownRow bears fun z => make (tree z) :: more := by
  rcases grown with inner | ⟨node, same⟩
  · exact .inl ⟨[], more, _, fun _ => rfl, entry inner⟩
  · exact .inr ⟨make node :: more, fun z => congrArg (make · :: more) (same z)⟩

theorem GrownRow.cons {γ : Type} {bears : (String → γ) → Prop} (first : γ)
    {row : String → List γ} (grown : GrownRow bears row) :
    GrownRow bears fun z => first :: row z := by
  rcases grown with ⟨left, right, entry, same, inner⟩ | ⟨entries, same⟩
  · exact .inl ⟨first :: left, right, entry, fun z => congrArg (first :: ·) (same z), inner⟩
  · exact .inr ⟨first :: entries, fun z => congrArg (first :: ·) (same z)⟩

/-! ## Rows of operands -/

/-- Trees that are built of a first operand and a row of further ones bear what either bears. -/
structure Builds {γ : Type} (isGroup : List Node → Prop) (bears : (String → γ) → Prop)
    (build : Node → List γ → Node) : Prop where
  first : ∀ more {tree}, Bears isGroup tree → Bears isGroup fun z => build (tree z) more
  entry : ∀ first left right {entry}, bears entry →
    Bears isGroup fun z => build first (left ++ entry z :: right)

theorem builds_joined {operator : Operator} (reads : readsOperands operator = true) :
    Builds isGroup (Bears isGroup) (joined operator) where
  first := by
    intro more tree inner
    cases more with
    | nil => exact inner
    | cons next more => exact .operand reads [] (next :: more) inner
  entry := by
    intro first left right entry inner
    have same : ∀ z, joined operator first (left ++ entry z :: right)
        = .of operator (first :: left ++ entry z :: right) := by
      intro z
      cases left <;> rfl
    simp only [same]
    exact .operand reads (first :: left) right inner

theorem bears_nestRight_first (more : List (Relation × Node)) (inner : Bears isGroup tree) :
    Bears isGroup fun z => nestRight (tree z) more := by
  cases more with
  | nil => exact inner
  | cons entry more => exact .operand rfl [] [nestRight entry.2 more] inner

theorem bears_nestRight_entry (first : Node) (left right : List (Relation × Node))
    (relation : Relation) (inner : Bears isGroup part) :
    Bears isGroup fun z => nestRight first (left ++ (relation, part z) :: right) := by
  induction left generalizing first with
  | nil => exact .operand rfl [first] [] (bears_nestRight_first right inner)
  | cons entry left ih => exact .operand rfl [first] [] (ih entry.2)

/-- Whether relations are all equal is known from the relations alone. -/
theorem relationTree_eq {more : List (Relation × Node)} {relation : Relation}
    {relations : List Relation} (tags : more.map Prod.fst = relation :: relations) (first : Node) :
    relationTree first more
      = if (relation :: relations).all (· == relation) then
          .of (.relation relation) (first :: more.map Prod.snd)
        else nestRight first more := by
  cases more with
  | nil => cases tags
  | cons entry more =>
    obtain ⟨rfl, rfl⟩ := cons.inj tags
    simp only [relationTree, all_cons, all_map]
    rfl

theorem builds_relationTree :
    Builds isGroup (BearsTagged isGroup) relationTree where
  first := by
    intro more tree inner
    cases more with
    | nil => exact inner
    | cons entry more =>
      simp only [relationTree_eq (map_cons)]
      split
      · exact .operand rfl [] _ inner
      · exact bears_nestRight_first _ inner
  entry := by
    rintro first left right entry ⟨tag, part, same, inner⟩
    obtain ⟨relation, relations, tags⟩ : ∃ relation relations,
        left.map Prod.fst ++ tag :: right.map Prod.fst = relation :: relations :=
      exists_cons_of_ne_nil (by simp)
    have all : ∀ z, (left ++ (tag, part z) :: right).map Prod.fst = relation :: relations := by
      intro z
      rw [← tags, map_append, map_cons]
    simp only [same, relationTree_eq (all _)]
    split
    · simp only [map_append, map_cons]
      exact .operand rfl (first :: left.map Prod.snd) _ inner
    · exact bears_nestRight_entry first left right tag inner

section

variable (collects : readsOperands collecting = true) (pairs : readsOperands binary = true)

include collects pairs

/-- A fold whose left side bears the names goes on to bear them; so do the operands that it
collects, if there are any. -/
theorem bears_foldRun_left (more : List (Bool × Node)) {left : String → Node}
    {run : String → List Node} (inner : Bears isGroup left)
    (collected : (∀ z, run z = []) ∨ ∃ before behind part,
      (∀ z, run z = before ++ part z :: behind) ∧ Bears isGroup part) :
    Bears isGroup fun z => foldRun collecting binary (left z) (run z) more := by
  induction more generalizing left run with
  | nil => exact inner
  | cons entry more ih =>
    obtain ⟨isCollected, right⟩ := entry
    cases isCollected with
    | false => exact ih (.operand pairs [] [right] inner) (.inl fun _ => rfl)
    | true =>
      simp only [foldRun]
      rcases collected with none | ⟨before, behind, part, same, among⟩
      · simp only [none, isEmpty_nil, if_true]
        exact ih (.operand collects [] [right] inner)
          (.inr ⟨[], [right], left, fun _ => rfl, inner⟩)
      · have longer : ∀ z, (if (run z).isEmpty = true then [left z, right] else run z ++ [right])
            = before ++ part z :: (behind ++ [right]) := by
          intro z
          simp [same z]
        simp only [longer]
        exact ih (.operand collects before _ among)
          (.inr ⟨before, behind ++ [right], part, fun _ => rfl, among⟩)

theorem bears_foldRun_entry (left : Node) (run : List Node) (before behind : List (Bool × Node))
    (isCollected : Bool) (inner : Bears isGroup part) :
    Bears isGroup fun z =>
      foldRun collecting binary left run (before ++ (isCollected, part z) :: behind) := by
  induction before generalizing left run with
  | nil =>
    cases isCollected with
    | false =>
      exact bears_foldRun_left collects pairs behind (.operand pairs [left] [] inner)
        (.inl fun _ => rfl)
    | true =>
      cases run with
      | nil =>
        exact bears_foldRun_left collects pairs behind (.operand collects [left] [] inner)
          (.inr ⟨[left], [], part, fun _ => rfl, inner⟩)
      | cons first run =>
        exact bears_foldRun_left collects pairs behind (.operand collects (first :: run) [] inner)
          (.inr ⟨first :: run, [], part, fun _ => rfl, inner⟩)
  | cons entry before ih =>
    obtain ⟨flag, right⟩ := entry
    cases flag with
    | false => exact ih (.of binary [left, right]) []
    | true => exact ih _ _

theorem builds_foldRun :
    Builds isGroup (BearsTagged isGroup) (foldRun collecting binary · []) where
  first more _ inner := bears_foldRun_left collects pairs more inner (.inl fun _ => rfl)
  entry := by
    rintro first left right entry ⟨tag, part, same, inner⟩
    simp only [same]
    exact bears_foldRun_entry collects pairs first [] left right tag inner

end

/-! ## Groups and primes -/

theorem bears_groupTree (left right : List Node) {part : String → Node}
    (inner : Bears isGroup part) :
    Bears isGroup fun z => groupTree (left ++ part z :: right) := by
  by_cases alone : left = [] ∧ right = []
  · obtain ⟨rfl, rfl⟩ := alone
    exact .item inner
  · have several : ∀ z, groupTree (left ++ part z :: right)
        = .of .delimiter [.of .sequence (left ++ part z :: right)] := by
      intro z
      rcases left with _ | ⟨first, _ | ⟨second, left⟩⟩
      · rcases right with _ | ⟨next, right⟩
        · exact absurd ⟨rfl, rfl⟩ alone
        · rfl
      · rfl
      · rfl
    simp only [several]
    exact .items left right inner

theorem bears_primed (count : Nat) (inner : Bears isGroup tree) :
    Bears isGroup fun z => primed count (tree z) := by
  induction count generalizing tree with
  | zero => exact inner
  | succ count ih => exact ih (.misplaced inner.operation)

theorem primed_add (count more : Nat) (node : Node) :
    primed (count + more) node = primed more (primed count node) := by
  induction count generalizing node with
  | zero => rw [Nat.zero_add, primed]
  | succ count ih => rw [Nat.add_right_comm, primed, ih, primed]

/-! ## Function words -/

/-- A tree that bears names is not the negative of one. -/
theorem Bears.isMinusOne {tree : String → Node} (bears : Bears isGroup tree) (z : String) :
    isMinusOne (tree z) = false := by
  cases bears with
  | @operand operator reads left right part inner =>
    obtain ⟨head, args, same⟩ := inner.operation z
    unfold Markup.isMinusOne
    split
    · next value shape =>
      injection shape with _ operands
      rw [same] at operands
      cases left <;> simp at operands
    · rfl
  | _ => rfl

/-- An exponent that bears names is written as a power. -/
theorem inverted_bears (function : Elementary) (inner : Bears isGroup part) (z : String) :
    inverted function (some (part z)) = (function, some (part z)) := by
  cases found : inverse? function with
  | none => simp [inverted, found]
  | some inverse => simp [inverted, found, inner.isMinusOne z]

/-- Only a logarithm takes a base. -/
theorem wordTree_base {function : Elementary} (other : function ≠ .log)
    (index base base' : Option Node) (args : List Node) :
    wordTree function index base args = wordTree function index base' args := by
  cases function with
  | log => exact absurd rfl other
  | sqrt => cases index <;> rfl
  | _ => rfl

/-- Only a root takes an index. -/
theorem wordTree_index {function : Elementary} (other : function ≠ .sqrt)
    (index index' base : Option Node) (args : List Node) :
    wordTree function index base args = wordTree function index' base args := by
  cases function with
  | sqrt => exact absurd rfl other
  | log => cases base <;> rfl
  | _ => rfl

theorem grown_wordTree_base (function : Elementary) (index : Option Node) (args : List Node)
    (inner : Bears isGroup part) :
    Grown isGroup fun z => wordTree function index (some (part z)) args := by
  by_cases log : function = .log
  · subst log
    exact .inl (.operand rfl args [] inner)
  · exact .inr ⟨_, fun z => wordTree_base log index _ none args⟩

theorem grown_wordTree_index (function : Elementary) (base : Option Node) (args : List Node)
    (inner : Bears isGroup part) :
    Grown isGroup fun z => wordTree function (some (part z)) base args := by
  by_cases sqrt : function = .sqrt
  · subst sqrt
    exact .inl (.operand rfl args [] inner)
  · exact .inr ⟨_, fun z => wordTree_index sqrt _ none base args⟩

theorem bears_wordTree_args (function : Elementary) (index base : Option Node)
    (left right : List Node) (inner : Bears isGroup part) :
    Bears isGroup fun z => wordTree function index base (left ++ part z :: right) := by
  simp only [wordTree]
  split
  · simp only [append_assoc, cons_append]
    exact .operand rfl left _ inner
  · simp only [append_assoc, cons_append]
    exact .operand rfl left _ inner
  · exact .operand rfl left right inner

/-- A tree with an exponent, if there is one. -/
def withExponent (power : Option Node) (node : Node) : Node :=
  match power with
  | some power => .of .power [node, power]
  | none => node

theorem functionTree_eq (function : Elementary) (scripts : Scripts) (index : Option Node)
    (args : List Node) :
    functionTree function scripts index args
      = withExponent (inverted function scripts.power).2
        (wordTree (inverted function scripts.power).1 index scripts.base args) := rfl

theorem bears_withExponent (power : Option Node) (inner : Bears isGroup tree) :
    Bears isGroup fun z => withExponent power (tree z) := by
  cases power with
  | none => exact inner
  | some power => exact .operand rfl [] [power] inner

variable (isGroup) in
/-- Two parts that may be missing, of which one bears the names, or that do not depend on them. -/
inductive GrownPair {α : Type} (make : Option Node → Option Node → α) : (String → α) → Prop where
  | first (second : Option Node) {part : String → Node} (inner : Bears isGroup part) :
    GrownPair make fun z => make (some (part z)) second
  | second (first : Option Node) {part : String → Node} (inner : Bears isGroup part) :
    GrownPair make fun z => make first (some (part z))
  | fixed (pair : α) : GrownPair make fun _ => pair

section Pairs

variable {α : Type} {make : Option Node → Option Node → α} {pair : String → α} {new : Option Node}

/-- A later part replaces an earlier one of its kind. -/
theorem GrownPair.withFirst (change : α → α)
    (changes : ∀ first second, change (make first second) = make new second)
    (grown : GrownPair isGroup make pair) : GrownPair isGroup make fun z => change (pair z) := by
  cases grown with
  | first second inner =>
    simp only [changes]
    exact .fixed _
  | second first inner =>
    simp only [changes]
    exact .second new inner
  | fixed pair => exact .fixed _

theorem GrownPair.withSecond (change : α → α)
    (changes : ∀ first second, change (make first second) = make first new)
    (grown : GrownPair isGroup make pair) : GrownPair isGroup make fun z => change (pair z) := by
  cases grown with
  | first second inner =>
    simp only [changes]
    exact .first new inner
  | second first inner =>
    simp only [changes]
    exact .fixed _
  | fixed pair => exact .fixed _

theorem Grown.first (grown : Grown isGroup tree) (second : Option Node) :
    GrownPair isGroup make fun z => make (some (tree z)) second := by
  rcases grown with inner | ⟨node, same⟩
  · exact .first second inner
  · simp only [same]
    exact .fixed _

theorem Grown.second (grown : Grown isGroup tree) (first : Option Node) :
    GrownPair isGroup make fun z => make first (some (tree z)) := by
  rcases grown with inner | ⟨node, same⟩
  · exact .second first inner
  · simp only [same]
    exact .fixed _

end Pairs

variable (isGroup) in
/-- Scripts of which one bears the names, or that do not depend on them. -/
abbrev GrownScripts : (String → Scripts) → Prop := GrownPair isGroup Scripts.mk

variable (isGroup) in
/-- Limits of which one bears the names, or that do not depend on them. -/
abbrev GrownLimits : (String → Limits) → Prop := GrownPair isGroup Limits.mk

theorem GrownPair.functionTree (function : Elementary) (index : Option Node) (args : List Node)
    {scripts : String → Scripts} (grown : GrownScripts isGroup scripts) :
    Grown isGroup fun z => functionTree function (scripts z) index args := by
  cases grown with
  | first power inner =>
    simp only [functionTree_eq]
    exact (grown_wordTree_base _ index args inner).map _ (bears_withExponent _)
  | second base inner =>
    simp only [functionTree_eq, inverted_bears function inner]
    exact .inl (.operand rfl [_] [] inner)
  | fixed scripts => exact .inr ⟨_, fun _ => rfl⟩

theorem grown_functionTree_index (function : Elementary) (scripts : Scripts) (args : List Node)
    (inner : Bears isGroup part) :
    Grown isGroup fun z => functionTree function scripts (some (part z)) args := by
  exact (grown_wordTree_index _ scripts.base args inner).map _ (bears_withExponent _)

theorem GrownRow.functionTree (function : Elementary) (scripts : Scripts) (index : Option Node)
    {args : String → List Node} (grown : GrownRow (Bears isGroup) args) :
    Grown isGroup fun z => functionTree function scripts index (args z) := by
  refine grown.map (Markup.functionTree function scripts index) fun left right entry inner => ?_
  exact bears_withExponent _ (bears_wordTree_args _ index scripts.base left right inner)

theorem functionTree_operation (function : Elementary) (scripts : Scripts) (index : Option Node)
    (args : List Node) :
    ∃ head nodes, functionTree function scripts index args = .op head nodes := by
  rw [functionTree_eq]
  cases (inverted function scripts.power).2 with
  | some power => exact ⟨_, _, rfl⟩
  | none =>
    simp only [withExponent, wordTree]
    split <;> exact ⟨_, _, rfl⟩

variable (isGroup) in
/-- An index that bears the names, or does not depend on them. -/
inductive GrownIndex : (String → Option Node) → Prop where
  | index {part : String → Node} (inner : Bears isGroup part) : GrownIndex fun z => some (part z)
  | fixed (index : Option Node) : GrownIndex fun _ => index

theorem Grown.index (grown : Grown isGroup tree) : GrownIndex isGroup fun z => some (tree z) := by
  rcases grown with inner | ⟨node, same⟩
  · exact .index inner
  · simp only [same]
    exact .fixed (some node)

end Grapher.Markup
