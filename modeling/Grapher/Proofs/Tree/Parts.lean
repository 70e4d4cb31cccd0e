import Grapher.Tree.Chain

/-!
# The parts of a tree

Which trees stand where in another one: its arguments, the items of a group, the integrand and the
limits of an integral, the terms of a chain of comparisons. All of them are inside of the tree
(`Within`), and so smaller, and where no integral lies between the two, the tree reaches its part
(`Reaches`). A test on a tree and on everything inside it is `all`.
-/

set_option autoImplicit false

namespace Grapher

open List

namespace Node

variable {head : Head} {items : List Node} {a b c group limits lower node upper whole : Node}
  {bound : Option String}

/-- The arguments of a tree. -/
def args : Node → List Node
  | .op _ args => args
  | _ => []

/-- The items of a group in brackets. -/
def items? : Node → Option (List Node)
  | .of .delimiter [.of .sequence items] => some items
  | .of .delimiter items => some items
  | _ => none

/-- The tree inside holds and blocks. -/
def unheld : Node → Node
  | .of .hold [inner] => inner.unheld
  | .of .block [inner] => inner.unheld
  | node => node

/-- The name of the first parameter of a function, empty if it is no symbol. -/
def parameterName : List Node → String
  | .symbol name :: _ => name
  | _ => ""

/-- The parameter and the body of an integrand. -/
def integrand? (argument : Node) : Option (String × Node) :=
  match argument.unheld with
  | .of .function (body :: parameters) => some (parameterName parameters, body)
  | .of .lambda (body :: parameters) => some (parameterName parameters, body)
  | .of .function [] => none
  | .of .lambda [] => none
  | body => some ("", body)

/-- The variable that limits name, if they name one, and the two limits. -/
def limits? (limits : Node) : Option (Option String × Node × Node) :=
  if [Operator.limits, .triple, .tuple].any limits.isOperation then
    match limits.args with
    | [bound, lower, upper] =>
      match bound.unwrap (· == .hold) with
      | .symbol name => some (some name, lower, upper)
      | _ => none
    | [lower, upper] => some (none, lower, upper)
    | _ => none
  else none

/-- The arguments after the head of a tuple; a single group stands for its items. -/
def tupleArguments : List Node → List Node
  | [only] => only.items?.getD [only]
  | args => args

/-- The variable of an integral: the one that its limits name, else the parameter of its integrand,
else the default variable. -/
def integralName (here parameter : String) (bound : Option String) : String :=
  if bound.getD parameter == "" then here else bound.getD parameter

theorem flattened_cons {Bond : Type} (bond : Relation → Bond) (outer : Bond)
    (first second : Node) (rest : List Node) :
    flattened bond outer (first :: second :: rest)
      = ⟨(spliced bond first).terms ++ (flattened bond outer (second :: rest)).terms,
        (spliced bond first).heads ++ outer :: (flattened bond outer (second :: rest)).heads⟩ := by
  rw [flattened]

/-! ## Inside of a tree -/

/-- A tree inside another one, at any depth. -/
inductive Within : Node → Node → Prop where
  | arg {head : Head} {args : List Node} {node : Node} (member : node ∈ args) :
      Within node (.op head args)
  | deep {head : Head} {args : List Node} {node outer : Node} (member : outer ∈ args)
      (inside : Within node outer) : Within node (.op head args)

/-- A tree itself or one inside it. -/
def Sub (node whole : Node) : Prop :=
  node = whole ∨ Within node whole

theorem Sub.within {args : List Node} {outer : Node} (sub : Sub node outer) (member : outer ∈ args) :
    Within node (.op head args) := by
  rcases sub with rfl | inside
  · exact .arg member
  · exact .deep member inside

theorem Within.trans (inner : Within a b) (outer : Within b c) : Within a c := by
  induction outer with
  | arg member => exact .deep member inner
  | deep member _ ih => exact .deep member (ih inner)

theorem Within.of_sub (inner : Within a b) (outer : Sub b c) : Within a c := by
  rcases outer with rfl | outer
  · exact inner
  · exact inner.trans outer

theorem Within.sizeOf_lt (inside : Within node whole) : sizeOf node < sizeOf whole := by
  induction inside with
  | arg member | deep member _ ih =>
    have smaller := sizeOf_lt_of_mem member
    rw [op.sizeOf_spec]
    omega

theorem within_items (found : group.items? = some items) (member : node ∈ items) :
    Within node group := by
  unfold items? at found
  split at found <;> cases found
  · exact .deep (.head _) (.arg member)
  · exact .arg member

theorem within_tupleArguments {first : Node} {nodes : List Node}
    (member : node ∈ tupleArguments nodes) : Within node (.op head (first :: nodes)) := by
  unfold tupleArguments at member
  split at member
  · next only =>
    cases found : only.items? with
    | none =>
      rw [found] at member
      exact .arg (.tail _ member)
    | some items =>
      rw [found] at member
      exact .deep (.tail _ (.head _)) (within_items found member)
  · exact .arg (.tail _ member)

theorem within_args (member : node ∈ whole.args) : Within node whole := by
  cases whole with
  | number value | symbol name => cases member
  | op head nodes => exact .arg member

theorem mem_args_of_limits (found : limits.limits? = some (bound, lower, upper)) :
    lower ∈ limits.args ∧ upper ∈ limits.args := by
  unfold limits? at found
  split at found
  · split at found
    · next shape =>
      split at found <;> cases found
      simp [shape]
    · next shape =>
      cases found
      simp [shape]
    · cases found
  · cases found

theorem within_limits (found : limits.limits? = some (bound, lower, upper)) :
    Within lower limits ∧ Within upper limits :=
  (mem_args_of_limits found).imp within_args within_args

theorem Sub.refl (node : Node) : Sub node node := .inl rfl

theorem Sub.trans (inner : Sub a b) (outer : Sub b c) : Sub a c := by
  rcases inner with rfl | inner
  · exact outer
  · exact .inr (inner.of_sub outer)

/-! ## Reached parts -/

/-- A part of a tree with no integral between the two. -/
inductive Reaches : Node → Node → Prop where
  | self (node : Node) : Reaches node node
  | arg {head : Head} {args : List Node} {part outer : Node}
      (unbound : head ≠ .operator .integrate) (member : outer ∈ args) (inside : Reaches part outer) :
      Reaches part (.op head args)

namespace Reaches

variable {part node : Node}

theorem sub (reaches : Reaches part node) : Sub part node := by
  induction reaches with
  | self node => exact .refl node
  | arg _ member _ ih => exact .inr (ih.within member)

theorem trans (inner : Reaches part node) (outer : Reaches node whole) : Reaches part whole := by
  induction outer with
  | self => exact inner
  | arg unbound member _ ih => exact .arg unbound member (ih inner)

end Reaches

theorem reaches_arg {operator : Operator} (unbound : operator ≠ .integrate) {args : List Node}
    {part : Node} (member : part ∈ args) : Reaches part (.of operator args) :=
  .arg (fun same => unbound (Head.operator.inj same)) member (.self part)

theorem reaches_items (found : group.items? = some items) (member : node ∈ items) :
    Reaches node group := by
  unfold items? at found
  split at found <;> cases found
  · exact .arg (by decide) (.head _) (reaches_arg (by decide) member)
  · exact reaches_arg (by decide) member

theorem reaches_tupleArguments {first : Node} {nodes : List Node}
    (member : node ∈ tupleArguments nodes) : Reaches node (.of .tuple (first :: nodes)) := by
  unfold tupleArguments at member
  split at member
  · next only =>
    cases found : only.items? with
    | none =>
      rw [found] at member
      exact reaches_arg (by decide) (.tail _ member)
    | some items =>
      rw [found] at member
      exact .arg (by decide) (.tail _ (.head _)) (reaches_items found member)
  · exact reaches_arg (by decide) (.tail _ member)

theorem reaches_unheld (node : Node) : Reaches node.unheld node := by
  fun_induction unheld node with
  | case1 inner ih | case2 inner ih => exact .arg (by decide) (.head _) ih
  | case3 node => exact .self node

theorem reaches_integrand {argument body : Node} {parameter : String}
    (found : argument.integrand? = some (parameter, body)) : Reaches body argument := by
  have unheld := reaches_unheld argument
  unfold integrand? at found
  split at found <;> cases found
  · next shape =>
    rw [shape] at unheld
    exact .trans (reaches_arg (by decide) (.head _)) unheld
  · next shape =>
    rw [shape] at unheld
    exact .trans (reaches_arg (by decide) (.head _)) unheld
  · exact unheld

theorem reaches_limits (found : limits.limits? = some (bound, lower, upper)) :
    Reaches lower limits ∧ Reaches upper limits := by
  obtain ⟨low, high⟩ := mem_args_of_limits found
  cases limits with
  | number value | symbol name => cases low
  | op head nodes =>
    have unbound : head ≠ .operator .integrate := by
      rintro rfl
      cases found
    exact ⟨.arg unbound low (.self lower), .arg unbound high (.self upper)⟩

/-! ## The terms of a chain -/

/-- Whether a tree is a comparison of two or more terms. -/
def isChain : Node → Bool
  | .of (.relation _) (_ :: _ :: _) => true
  | _ => false

/-- A chain is a comparison of two or more terms. -/
theorem isChain_iff {head : Head} {args : List Node} :
    (op head args).isChain = true ↔
      ∃ relation, head = .operator (.relation relation) ∧ 2 ≤ args.length := by
  constructor
  · intro chain
    unfold isChain at chain
    split at chain
    · next relation first second more shape =>
      cases shape
      exact ⟨relation, rfl, Nat.le_add_left 2 more.length⟩
    · cases chain
  · rintro ⟨relation, rfl, several⟩
    rcases args with _ | ⟨first, _ | ⟨second, more⟩⟩
    · cases several
    · exact absurd several (by simp)
    · rfl

section Flattening

variable {Bond : Type} (bond : Relation → Bond)

/-- A tree is spliced as a chain of its own, or stands as a single term. -/
theorem spliced_cases (node : Node) :
    (∃ relation args, node = .of (.relation relation) args ∧ 2 ≤ args.length ∧
      spliced bond node = flattened bond (bond relation) args) ∨
    node.isChain = false ∧ spliced bond node = ⟨[node], []⟩ := by
  unfold isChain
  split
  · next relation first second more =>
    exact .inl ⟨relation, _, rfl, Nat.le_add_left 2 more.length, by rw [spliced]⟩
  · next other =>
    refine .inr ⟨rfl, ?_⟩
    unfold spliced
    split
    · next relation args =>
      rcases args with _ | ⟨first, _ | ⟨second, more⟩⟩
      · rfl
      · rfl
      · exact absurd rfl (other relation first second more)
    · rfl

theorem spliced_term {node : Node} (single : node.isChain = false) :
    node.spliced bond = ⟨[node], []⟩ := by
  rcases spliced_cases bond node with ⟨relation, args, rfl, several, -⟩ | ⟨-, term⟩
  · rcases args with _ | ⟨first, _ | ⟨second, more⟩⟩
    · cases several
    · exact absurd several (by simp)
    · cases single
  · exact term

theorem spliced_comparison {relation : Relation} {args : List Node} (several : 2 ≤ args.length) :
    (Node.of (.relation relation) args).spliced bond
      = flattened bond (bond relation) args := by
  rcases args with _ | ⟨first, _ | ⟨second, more⟩⟩
  · cases several
  · exact absurd several (by simp)
  · rw [spliced]

/-- Induction over the chain of an argument list: a single argument is a comparison with a chain of
its own or a term, and the chains of further arguments stand behind the outer head. -/
theorem flattened_induction {motive : Bond → List Node → Chain Node Bond → Prop}
    (nil : ∀ {outer}, motive outer [] ⟨[], []⟩)
    (term : ∀ {outer node}, node.isChain = false → motive outer [node] ⟨[node], []⟩)
    (chain : ∀ {outer relation args inner}, 2 ≤ args.length → motive (bond relation) args inner →
      motive outer [.of (.relation relation) args] inner)
    (cons : ∀ {outer first second rest here later}, motive outer [first] here →
      motive outer (second :: rest) later → motive outer (first :: second :: rest)
        ⟨here.terms ++ later.terms, here.heads ++ outer :: later.heads⟩)
    (outer : Bond) (nodes : List Node) : motive outer nodes (flattened bond outer nodes) := by
  rcases nodes with _ | ⟨first, nodes⟩
  · exact nil
  have here : motive outer [first] (spliced bond first) := by
    rcases spliced_cases bond first with ⟨relation, args, rfl, several, inner⟩ | ⟨alone, single⟩
    · rw [inner]
      exact chain several (flattened_induction nil term chain cons (bond relation) args)
    · rw [single]
      exact term alone
  rcases nodes with _ | ⟨second, rest⟩
  · rw [flattened]
    exact here
  · rw [flattened_cons]
    exact cons here (flattened_induction nil term chain cons outer (second :: rest))
termination_by sizeOf nodes

variable (outer : Bond) (nodes : List Node)

/-- The terms of a chain of comparisons are reached from their arguments. -/
theorem reaches_flattened {node : Node} (member : node ∈ (flattened bond outer nodes).terms) :
    ∃ whole ∈ nodes, Reaches node whole := by
  refine flattened_induction bond (motive := fun _ nodes chain =>
    node ∈ chain.terms → ∃ whole ∈ nodes, Reaches node whole) ?_ ?_ ?_ ?_ outer nodes member
  · exact fun member => absurd member not_mem_nil
  · intro outer term _ member
    exact ⟨term, .head _, mem_singleton.mp member ▸ .self term⟩
  · intro outer relation args inner _ reached member
    obtain ⟨arg, among, reaches⟩ := reached member
    exact ⟨_, .head _, .arg (by simp) among reaches⟩
  · intro outer first second rest here later reached others member
    rcases mem_append.mp member with inside | behind
    · obtain ⟨whole, among, reaches⟩ := reached inside
      exact ⟨whole, mem_append_left (second :: rest) among, reaches⟩
    · obtain ⟨whole, among, reaches⟩ := others behind
      exact ⟨whole, .tail _ among, reaches⟩

/-- A chain has one term more than it has heads. -/
theorem length_flattened : nodes ≠ [] →
    (flattened bond outer nodes).terms.length = (flattened bond outer nodes).heads.length + 1 := by
  refine flattened_induction bond (motive := fun _ nodes chain => nodes ≠ [] →
    chain.terms.length = chain.heads.length + 1) (absurd rfl) (fun _ _ => rfl) ?_ ?_ outer nodes
  · intro outer relation args inner several fits _
    exact fits (ne_nil_of_length_pos (by omega))
  · intro outer first second rest here later fits others _
    simp only [length_append, length_cons, fits (cons_ne_nil _ _), others (cons_ne_nil _ _)]
    omega

end Flattening

theorem sub_unwrap (wrapper : Operator → Bool) (node : Node) : Sub (node.unwrap wrapper) node := by
  fun_induction unwrap wrapper node with
  | case1 operator inner _ ih => exact .inr (ih.within (.head _))
  | case2 | case3 => exact .inl rfl

/-! ## Everywhere in a tree -/

/-- A property of a tree and of all trees inside it. -/
def Throughout (property : Node → Prop) (node : Node) : Prop :=
  ∀ part, Sub part node → property part

namespace Throughout

variable {property : Node → Prop} {part node : Node}

theorem here (throughout : node.Throughout property) : property node :=
  throughout node (.refl node)

theorem sub (throughout : node.Throughout property) (inside : Sub part node) :
    part.Throughout property :=
  fun other deeper => throughout other (deeper.trans inside)

theorem within (throughout : node.Throughout property) (inside : Within part node) :
    part.Throughout property :=
  throughout.sub (.inr inside)

theorem number {value : Float} (here : property (.number value)) :
    (Node.number value).Throughout property := by
  rintro part (rfl | inside)
  · exact here
  · cases inside

theorem symbol {name : String} (here : property (.symbol name)) :
    (Node.symbol name).Throughout property := by
  rintro part (rfl | inside)
  · exact here
  · cases inside

theorem op {args : List Node} (here : property (.op head args))
    (inside : ∀ arg ∈ args, arg.Throughout property) : (Node.op head args).Throughout property := by
  rintro part (rfl | deeper)
  · exact here
  · cases deeper with
    | arg member => exact (inside _ member).here
    | deep member deeper => exact inside _ member part (.inr deeper)

end Throughout

mutual

/-- Whether a test succeeds on a tree and on all trees inside it. -/
def all (test : Node → Bool) : Node → Bool
  | .number value => test (.number value)
  | .symbol name => test (.symbol name)
  | .op head args => test (.op head args) && allArgs test args

/-- The same of all trees of a list. -/
def allArgs (test : Node → Bool) : List Node → Bool
  | [] => true
  | node :: nodes => all test node && allArgs test nodes

end

theorem allArgs_eq (test : Node → Bool) (nodes : List Node) :
    allArgs test nodes = nodes.all (all test) := by
  induction nodes with
  | nil => rfl
  | cons node nodes ih => rw [allArgs, ih, all_cons]

theorem all_arg {test : Node → Bool} {args : List Node} (tested : all test (.op head args) = true)
    {arg : Node} (member : arg ∈ args) : arg.all test = true := by
  rw [all, allArgs_eq, Bool.and_eq_true, all_eq_true] at tested
  exact tested.2 arg member

theorem throughout_of_all {test : Node → Bool} (tested : node.all test = true) :
    node.Throughout fun part => test part = true := by
  have here : ∀ part : Node, part.all test = true → test part = true := by
    intro part succeeds
    cases part with
    | number value | symbol name => exact succeeds
    | op head args =>
      rw [all, Bool.and_eq_true] at succeeds
      exact succeeds.1
  intro part sub
  refine here part ?_
  rcases sub with rfl | inside
  · exact tested
  · induction inside with
    | arg member => exact all_arg tested member
    | deep member _ ih => exact ih (all_arg tested member)

theorem all_op (test : Node → Bool) (head : Head) (args : List Node) :
    all test (.op head args) = (test (.op head args) && args.all (all test)) := by
  rw [all, allArgs_eq]

section Marks

variable {test : Node → Bool}

/-- A test that the marks of a group pass is a test on the items of the group. -/
theorem all_items
    (marks : ∀ operator ∈ [Operator.delimiter, .sequence], ∀ args, test (.of operator args) = true)
    (found : group.items? = some items) : group.all test = items.all (all test) := by
  unfold items? at found
  split at found <;> cases found
  · rw [all_op, all_cons, all_op, all_nil, Bool.and_true, marks .delimiter (.head _),
      marks .sequence (.tail _ (.head _)), Bool.true_and, Bool.true_and]
  · rw [all_op, marks .delimiter (.head _), Bool.true_and]

theorem all_tupleArguments
    (marks : ∀ operator ∈ [Operator.delimiter, .sequence], ∀ args, test (.of operator args) = true)
    (nodes : List Node) : (tupleArguments nodes).all (all test) = nodes.all (all test) := by
  unfold tupleArguments
  split
  · next only =>
    cases found : only.items? with
    | none => rfl
    | some items =>
      rw [all_cons, all_nil, Bool.and_true, all_items marks found]
      rfl
  · rfl

/-- A test that comparisons pass is a test on the terms of a chain. -/
theorem all_flattened (marks : ∀ relation args, test (.of (.relation relation) args) = true)
    {Bond : Type} (bond : Relation → Bond) (outer : Bond) (nodes : List Node) :
    (flattened bond outer nodes).terms.all (all test) = nodes.all (all test) := by
  refine flattened_induction bond (motive := fun _ nodes chain =>
    chain.terms.all (all test) = nodes.all (all test)) rfl (fun _ => rfl) ?_ ?_ outer nodes
  · intro outer relation args inner _ same
    rw [same, all_cons, all_nil, Bool.and_true, all_op, marks, Bool.true_and]
  · intro outer first second rest here later same others
    rw [all_append, same, others, ← all_append]
    rfl

end Marks

/-- The word at the root of a tree: the name of a symbol, or the name of a head. -/
def word? : Node → Option String
  | .number _ => none
  | .symbol name => some name
  | .op head _ => some head.name

end Node

end Grapher
