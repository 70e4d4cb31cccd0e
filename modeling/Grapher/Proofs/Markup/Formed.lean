import Grapher.Proofs.Markup.Grammar

/-!
# The shape of parsed trees

The parser builds trees of few shapes: rows of two or more operands, operations of two operands and
of one, function words with arguments, groups, and integrals that name their variable at both
places. `Formed` describes them, over any choice of numbers and names; `formed_of_parseTokens` says
that all trees of the parser are among them.

What a row takes is formed if its tokens are of the given kinds (`formed_of_takes`), constituent by
constituent.
-/

set_option autoImplicit false

namespace Grapher.Markup

open List

variable {function : Elementary} {first node : Node}

/-! ## Trees of the markup -/

/-- The operators that take two or more operands. -/
def takesMany : Operator → Bool
  | .or | .and | .add | .multiply | .invisible | .relation _ => true
  | _ => false

/-- The operators that take two operands. -/
def takesTwo : Operator → Bool
  | .subtract | .divide | .power => true
  | _ => false

/-- The operators that take one operand. -/
def takesOne : Operator → Bool
  | .not | .negate | .prime => true
  | _ => false

/-- Kinds of numbers and of names. -/
structure Kinds where
  literal : Float → Prop
  word : String → Prop

/-- The trees that formula markup can say, with numbers and names of given kinds. -/
inductive Formed (kinds : Kinds) : Node → Prop where
  | number {value : Float} (literal : kinds.literal value) : Formed kinds (.number value)
  | symbol {name : String} (word : kinds.word name) : Formed kinds (.symbol name)
  | many {operator : Operator} {args : List Node} (takes : takesMany operator = true)
      (count : 2 ≤ args.length) (all : ∀ arg ∈ args, Formed kinds arg) :
      Formed kinds (.of operator args)
  | two {operator : Operator} {a b : Node} (takes : takesTwo operator = true)
      (first : Formed kinds a) (second : Formed kinds b) :
      Formed kinds (.of operator [a, b])
  | one {operator : Operator} {a : Node} (takes : takesOne operator = true)
      (only : Formed kinds a) : Formed kinds (.of operator [a])
  | function {function : Elementary} {args : List Node} (root : function = .root → args ≠ [])
      (all : ∀ arg ∈ args, Formed kinds arg) :
      Formed kinds (.of (.elementary function) args)
  | noItem : Formed kinds (.of .delimiter [])
  | item {a : Node} (only : Formed kinds a) : Formed kinds (.of .delimiter [a])
  | items {args : List Node} (count : 2 ≤ args.length)
      (all : ∀ arg ∈ args, Formed kinds arg) :
      Formed kinds (.of .delimiter [.of .sequence args])
  | integral {body lower upper : Node} {name : String} (word : kinds.word name)
      (inside : Formed kinds body) (low : Formed kinds lower)
      (high : Formed kinds upper) :
      Formed kinds (integralTree body name lower upper)

variable {kinds : Kinds}

/-! ## Building trees -/

section Building

variable (kinds) in
/-- All trees of a list are formed. -/
abbrev AllFormed (nodes : List Node) : Prop := ∀ node ∈ nodes, Formed kinds node

theorem forall_mem_pair {α : Type} {property : α → Prop} {a b : α} (first : property a)
    (second : property b) : ∀ item ∈ [a, b], property item :=
  forall_mem_cons.mpr ⟨first, forall_mem_singleton.mpr second⟩

theorem AllFormed.concat {nodes : List Node} (all : AllFormed kinds nodes)
    (last : Formed kinds node) : AllFormed kinds (nodes ++ [node]) := by
  intro other member
  rcases mem_append.mp member with earlier | final
  · exact all other earlier
  · exact mem_singleton.mp final ▸ last

theorem formed_joined {operator : Operator} (takes : takesMany operator = true) {more : List Node}
    (start : Formed kinds first) (all : AllFormed kinds more) :
    Formed kinds (joined operator first more) := by
  cases more with
  | nil => exact start
  | cons second rest => exact .many takes (by simp) (forall_mem_cons.mpr ⟨start, all⟩)

theorem formed_nestRight {more : List (Relation × Node)} (start : Formed kinds first)
    (all : ∀ entry ∈ more, Formed kinds entry.2) : Formed kinds (nestRight first more) := by
  induction more generalizing first with
  | nil => exact start
  | cons entry more ih =>
    have rest := ih (all entry (.head _)) fun other member => all other (.tail _ member)
    exact .many rfl (by simp) (forall_mem_pair start rest)

theorem formed_relationTree {more : List (Relation × Node)} (start : Formed kinds first)
    (all : ∀ entry ∈ more, Formed kinds entry.2) : Formed kinds (relationTree first more) := by
  unfold relationTree
  split
  · exact start
  · split
    · refine .many rfl (by simp) (forall_mem_cons.mpr ⟨start, ?_⟩)
      intro node member
      obtain ⟨entry, inside, rfl⟩ := mem_map.mp member
      exact all entry inside
    · exact formed_nestRight start all

/-- A fold of a run is formed at every step; the operands that are collected are formed too. -/
theorem formed_foldRun {collecting binary : Operator} (many : takesMany collecting = true)
    (two : takesTwo binary = true) {left : Node} {run : List Node} {more : List (Bool × Node)}
    (start : Formed kinds left) (collected : AllFormed kinds run)
    (all : ∀ entry ∈ more, Formed kinds entry.2) :
    Formed kinds (foldRun collecting binary left run more) := by
  induction more generalizing left run with
  | nil => exact start
  | cons entry more ih =>
    obtain ⟨isCollected, right⟩ := entry
    have next : Formed kinds right := all _ (.head _)
    have later : ∀ entry ∈ more, Formed kinds entry.2 :=
      fun other member => all other (.tail _ member)
    cases isCollected with
    | false => exact ih (.two two start next) (forall_mem_nil _) later
    | true =>
      cases run with
      | nil =>
        have pair := forall_mem_pair start next
        exact ih (.many many (by simp) pair) pair later
      | cons first rest =>
        have longer := collected.concat next
        exact ih (.many many (by simp) longer) longer later

theorem formed_primed (count : Nat) (start : Formed kinds node) :
    Formed kinds (primed count node) := by
  induction count generalizing node with
  | zero => exact start
  | succ count ih => exact ih (.one rfl start)

theorem formed_groupTree {items : List Node} (all : AllFormed kinds items) :
    Formed kinds (groupTree items) := by
  match items with
  | [] => exact .noItem
  | [item] => exact .item (all item (.head _))
  | first :: second :: more => exact .items (by simp) all

/-- Both scripts of a function word are formed, as far as they are there. -/
structure Scripts.AreFormed (kinds : Kinds) (scripts : Scripts) :
    Prop where
  base : ∀ node, scripts.base = some node → Formed kinds node
  power : ∀ node, scripts.power = some node → Formed kinds node

theorem inverted_ne_root (notRoot : function ≠ .root) (power : Option Node) :
    (inverted function power).1 ≠ .root := by
  unfold inverted
  split
  · next found =>
    split
    · cases function <;> cases found <;> exact Elementary.noConfusion
    · exact notRoot
  · exact notRoot

theorem inverted_power {power : Option Node} {exponent : Node}
    (found : (inverted function power).2 = some exponent) : power = some exponent := by
  unfold inverted at found
  split at found
  · split at found
    · cases found
    · exact found
  · exact found

theorem formed_wordTree (notRoot : function ≠ .root) {index base : Option Node}
    (indexed : ∀ node, index = some node → Formed kinds node)
    (based : ∀ node, base = some node → Formed kinds node) {args : List Node}
    (all : AllFormed kinds args) : Formed kinds (wordTree function index base args) := by
  unfold wordTree
  split
  · exact .function (fun _ => by simp) (all.concat (indexed _ rfl))
  · exact .function (fun same => by cases same) (all.concat (based _ rfl))
  · exact .function (fun same => absurd same notRoot) all

theorem formed_functionTree (notRoot : function ≠ .root) {scripts : Scripts}
    (attached : scripts.AreFormed kinds) {index : Option Node}
    (indexed : ∀ node, index = some node → Formed kinds node) {args : List Node}
    (all : AllFormed kinds args) : Formed kinds (functionTree function scripts index args) := by
  have word := formed_wordTree (inverted_ne_root notRoot scripts.power) indexed attached.base all
  unfold functionTree
  cases found : (inverted function scripts.power).2 with
  | none => simpa only [found] using word
  | some exponent =>
    have raised := attached.power _ (inverted_power found)
    simpa only [found] using Formed.two rfl word raised

end Building

/-! ## What rows of tokens take -/

/-- Tokens whose numbers and names are of the given kinds. -/
def Token.IsOf (kinds : Kinds) : Token → Prop
  | .number value => kinds.literal value
  | .name text => kinds.word text
  | .function _ word => word ≠ .root
  | _ => True

variable (kinds) in
/-- All tokens of a row are of the given kinds. -/
abbrev Admitted (row : List Located) : Prop := ∀ located ∈ row, located.token.IsOf kinds

namespace Admitted

variable {row row' : List Located}

theorem left (admitted : Admitted kinds (row ++ row')) : Admitted kinds row :=
  (forall_mem_append.mp admitted).1

theorem right (admitted : Admitted kinds (row ++ row')) : Admitted kinds row' :=
  (forall_mem_append.mp admitted).2

theorem tail {located : Located} (admitted : Admitted kinds (located :: row)) :
    Admitted kinds row :=
  (forall_mem_cons.mp admitted).2

end Admitted

variable (kinds) in
/-- The kinds have the number, the names and the base that the parser supplies by itself. -/
structure Supplied : Prop where
  one : kinds.literal 1.0
  letter : kinds.word "x"
  base : kinds.word naturalBase

theorem formed_nameTree (supplied : Supplied kinds) {name : String} (word : kinds.word name) :
    Formed kinds (nameTree name) := by
  unfold nameTree
  split
  · exact .symbol supplied.base
  · exact .symbol word

variable (kinds) in
/-- What is found in a constituent is formed. -/
def Constituent.IsFormed : (part : Constituent) → part.Found → Prop
  | .tree | .power | .script | .operand => Formed kinds
  | .trees | .factors | .group | .arguments => AllFormed kinds
  | .terms => fun more => ∀ entry ∈ more, Formed kinds entry.2
  | .scripts before => fun found => before.AreFormed kinds → found.AreFormed kinds
  | .index _ => fun slot => ∀ node, slot = some node → Formed kinds node
  | .limits => fun (lower, upper) => Formed kinds lower ∧ Formed kinds upper
  | .integrand => fun (body, name) => Formed kinds body ∧ kinds.word name

/-- What a row takes is formed, of the kinds of numbers and names that its tokens have. -/
theorem formed_of_takes (supplied : Supplied kinds) {part : Constituent} {row : List Located}
    {found : part.Found} (taken : Takes part row found) (admitted : Admitted kinds row) :
    part.IsFormed kinds found := by
  have single {node : Node} (formed : Formed kinds node) : AllFormed kinds [node] :=
    forall_mem_singleton.mpr formed
  induction taken with
  | connected connects _ _ start others =>
    refine formed_joined ?_ (start admitted.left) (others admitted.right)
    rcases connects with rfl | rfl <;> rfl
  | related _ _ start others =>
    exact formed_relationTree (start admitted.left) (forall_mem_map.mp (others admitted.right))
  | sum _ _ start others =>
    exact formed_foldRun rfl rfl (start admitted.left) (forall_mem_nil _) (others admitted.right)
  | product _ _ start others =>
    exact formed_foldRun rfl rfl (start admitted.left) (forall_mem_nil _)
      (forall_mem_map.mp (others admitted.right))
  | juxtaposed _ _ start others =>
    exact formed_joined rfl (start admitted.left) (others admitted.right)
  | bare _ _ start others =>
    exact single (formed_joined rfl (start admitted.left) (others admitted.right))
  | next _ _ start others | factor _ _ start others =>
    exact forall_mem_cons.mpr ⟨start admitted.left, others admitted.right⟩
  | added _ _ start others | subtracted _ _ start others =>
    exact forall_mem_cons.mpr ⟨start admitted.tail.left, others admitted.tail.right⟩
  | denied _ inside | negated _ inside | negative _ inside => exact .one rfl (inside admitted.tail)
  | plus _ inside => exact inside admitted.tail
  | separator _ _ others => exact others admitted.tail
  | noTree | noFactor => exact forall_mem_nil _
  | noTerm => exact fun _ member => nomatch member
  | unraised _ inside | plain _ inside | listed _ inside => exact inside admitted
  | primed _ inside | raisedPrime _ inside | bracedPrime _ inside =>
    exact formed_primed _ (inside admitted.left)
  | raised _ _ inside script => exact .two rfl (inside admitted.left) (script admitted.right.tail)
  | number => exact .number (admitted _ (.head _))
  | name => exact formed_nameTree supplied (admitted _ (.head _))
  | bracketed _ inside => exact formed_groupTree (inside admitted)
  | braced _ _ inside | group _ _ inside => exact inside admitted.tail.left
  | barred _ _ inside =>
    exact .function (fun same => nomatch same) (single (inside admitted.tail.left))
  | function _ _ _ scripts index arguments =>
    have notRoot := admitted _ (.head _)
    have more := admitted.tail.right
    exact formed_functionTree notRoot (scripts admitted.tail.left ⟨nofun, nofun⟩) (index more.left)
      (arguments more.right)
  | fraction _ _ numerator denominator =>
    exact .two rfl (numerator admitted.tail.left) (denominator admitted.tail.right)
  | integral _ _ limits integrand =>
    obtain ⟨low, high⟩ := limits admitted.tail.left
    obtain ⟨inside, word⟩ := integrand admitted.tail.right
    exact .integral word inside low high
  | single _ operand => exact single (operand admitted)
  | noScript => exact id
  | subscript _ _ script others =>
    refine fun before => others admitted.tail.right ⟨fun _ same => ?_, before.power⟩
    cases same
    exact script admitted.tail.left
  | superscript _ _ script others =>
    refine fun before => others admitted.tail.right ⟨before.base, fun _ same => ?_⟩
    cases same
    exact script admitted.tail.left
  | noIndex => exact fun _ same => nomatch same
  | root _ inside =>
    rintro _ ⟨⟩
    exact inside admitted.tail.left
  | lowerFirst _ _ first second => exact ⟨first admitted.left.tail, second admitted.right.tail⟩
  | upperFirst _ _ first second => exact ⟨second admitted.right.tail, first admitted.left.tail⟩
  | whole _ inside => exact ⟨inside admitted, supplied.letter⟩
  | ended _ inside => exact ⟨inside admitted.left, admitted.right _ (.tail _ (.head _))⟩
  | alone => exact ⟨.number supplied.one, admitted _ (.tail _ (.head _))⟩

/-- What is found in tokens of the given kinds is formed, and the tokens that remain are of these
kinds. -/
theorem Consumes.formed (supplied : Supplied kinds) {part : Constituent} {rest later : Rest}
    {outcome : Except ParseError (Parsed part.Found)} (consumes : Consumes (Takes part) rest outcome)
    (admitted : Admitted kinds rest) {found : part.Found} (same : outcome = .ok (found, later)) :
    part.IsFormed kinds found ∧ Admitted kinds later := by
  obtain ⟨row, rfl, taken⟩ := consumes found later same
  exact ⟨formed_of_takes supplied taken admitted.left, admitted.right⟩

/-! ## Whole formulas -/

/-- Every tree of the parser is formed, of the kinds of numbers and names that its tokens have. -/
theorem formed_of_parseTokens (supplied : Supplied kinds) {located : List Located}
    (admitted : Admitted kinds located) (parsed : parseTokens located = .ok node) :
    Formed kinds node :=
  ((takes_parse (budgetFor located.length) .or .plain located).formed supplied admitted
    (parseTokens_eq_ok_iff.mp parsed).2).1

end Grapher.Markup
