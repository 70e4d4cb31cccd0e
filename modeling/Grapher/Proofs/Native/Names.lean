import Grapher.Native.OfTree
import Grapher.Proofs.Evaluation.Dependence
import Grapher.Proofs.Reading.Rules
import Grapher.Proofs.Tree.Occurrences

/-!
# The names in native code

Native code refers to the symbols of a tree and to the heads of its calls, and to builtin names
where these stand for constants. There is no binder in it, so every name in it is one that the tree
mentions, whatever the default variable is.
-/

set_option autoImplicit false

namespace Grapher.Native

open Reading Node

variable {here : String} {node : Node} {term : Term} {terms : List Term}

/-- The native code of a reading, if there is any, has names only that a tree mentions. -/
def Refers (here : String) (node : Node) (term : Term) : Prop :=
  ∀ code, ofTerm? term = some code → ∀ word ∈ code.names, node.Mentioned here [] word

/-- The same of several readings. -/
def RefersArgs (here : String) (node : Node) (terms : List Term) : Prop :=
  ∀ codes, ofTerms? terms = some codes → ∀ word ∈ Code.namesArgs codes, node.Mentioned here [] word

theorem Refers.of_reaches {part : Node} (refers : Refers here part term)
    (reaches : part.Reaches node) : Refers here node term :=
  fun code found word member => (refers code found word member).of_reaches reaches

theorem RefersArgs.nil : RefersArgs here node [] := by
  intro codes found
  cases found
  exact fun _ member => nomatch member

theorem RefersArgs.cons (first : Refers here node term) (rest : RefersArgs here node terms) :
    RefersArgs here node (term :: terms) := by
  intro codes found
  obtain ⟨code, here, codes, later, rfl⟩ := some_of_bind found
  rw [Code.namesArgs, List.forall_mem_append]
  exact ⟨first code here, rest codes later⟩

theorem refersArgs_of_forall₂ {nodes : List Node} (all : List.Forall₂ (Refers here) nodes terms)
    (inside : ∀ part ∈ nodes, part.Reaches node) : RefersArgs here node terms := by
  induction all with
  | nil => exact .nil
  | cons first _ ih =>
    rw [List.forall_mem_cons] at inside
    exact .cons (first.of_reaches inside.1) (ih inside.2)

/-- A reference is to the name itself, or to the constant that it stands for. -/
theorem name_reference? {name : String} {target : Reference} (found : reference? name = some target)
    (mentioned : node.Mentioned here [] name) : node.Mentioned here [] target.name := by
  have same : target.name = resolveConstant name := by
    unfold reference? at found
    dsimp only at found
    split at found <;> cases found
    split <;> rfl
  rw [same]
  rcases resolveConstant_cases name with ⟨-, itself⟩ | ⟨-, member⟩
  · rw [itself]
    exact mentioned
  · have words : ∀ word ∈ constantNames.map (·.2), isBuiltinName word = true := by decide
    exact .builtin (words _ member)

/-- Code that is made of the codes of its arguments. -/
theorem refers_map {make : List Code → Code} (made : ofTerm? term = (ofTerms? terms).map make)
    (names : ∀ codes, (make codes).names = Code.namesArgs codes) (all : RefersArgs here node terms) :
    Refers here node term := by
  intro code found
  rw [made, Option.map_eq_some_iff] at found
  obtain ⟨codes, inside, rfl⟩ := found
  rw [names]
  exact all codes inside

theorem refers_call {name : String} {args : List Term} (mentioned : node.Mentioned here [] name)
    (all : RefersArgs here node args) : Refers here node (.call name args) := by
  intro code found
  obtain ⟨target, reference, codes, inside, rfl⟩ := some_of_bind found
  rw [Code.names, List.forall_mem_cons]
  exact ⟨name_reference? reference mentioned, all codes inside⟩

theorem refers_application {head : Node} {args : List Term} (made : Application head args term)
    (reaches : head.Reaches node) (all : RefersArgs here node args) : Refers here node term := by
  cases made with
  | derivative =>
    intro code found
    cases found
  | @call name callee =>
    unfold calleeName? at callee
    split at callee
    · split at callee <;> cases callee
      refine refers_call (.free (reaches.freeOccurrences ?_)) all
      simp [freeOccurrences]
    · cases callee

theorem refersArgs_of_factors {nodes : List Node} (factors : Factors (Refers here) nodes terms)
    (among : ∀ part ∈ nodes, part.Reaches node) : RefersArgs here node terms := by
  induction factors with
  | nil => exact .nil
  | plain _ first _ ih =>
    rw [List.forall_mem_cons] at among
    exact .cons (first.of_reaches among.1) (ih among.2)
  | applied found all made _ ih =>
    rw [List.forall_mem_cons, List.forall_mem_cons] at among
    obtain ⟨head, group, rest⟩ := among
    have items := refersArgs_of_forall₂ all fun part member =>
      (reaches_items found member).trans group
    exact .cons (refers_application made head items) (ih rest)

/-- The code of two sides. -/
theorem refers_sides {helper : Helper} {s t : Term}
    (made : ofTerm? term = do some (.helper helper [← ofTerm? s, ← ofTerm? t]))
    (first : Refers here node s) (second : Refers here node t) : Refers here node term := by
  refine @refers_map here node term [s, t] (.helper helper) ?_ (fun _ => rfl)
    (.cons first (.cons second .nil))
  rw [made]
  simp only [ofTerms?]
  cases ofTerm? s <;> cases ofTerm? t <;> rfl

/-- A rule keeps the names of native code among those that the tree mentions. -/
theorem refers_of_rule {default : String} (rule : Rule default (Refers here) node term) :
    Refers here node term := by
  cases rule with
  | number value =>
    intro code found
    cases found
    exact List.forall_mem_nil _
  | @symbol name named =>
    intro code found
    obtain ⟨target, reference, rfl⟩ := Option.map_eq_some_iff.mp found
    rw [Code.names, List.forall_mem_singleton]
    exact name_reference? reference (.free (by simp [freeOccurrences]))
  | joined joiner some all =>
    have other : joiner.operator ≠ .integrate := by cases joiner <;> decide
    exact refers_map rfl (fun _ => rfl) (refersArgs_of_forall₂ all fun _ => reaches_arg other)
  | @quotient operator divides _ _ _ _ first second =>
    have other : operator ≠ .integrate := by rcases divides with rfl | rfl <;> decide
    exact refers_sides rfl (first.of_reaches (reaches_arg other (.head _)))
      (second.of_reaches (reaches_arg other (.tail _ (.head _))))
  | power first second =>
    exact refers_sides rfl (first.of_reaches (reaches_arg (by decide) (.head _)))
      (second.of_reaches (reaches_arg (by decide) (.tail _ (.head _))))
  | negate only | not only =>
    intro code found
    obtain ⟨inner, inside, rfl⟩ := Option.map_eq_some_iff.mp found
    exact only.of_reaches (reaches_arg (by decide) (.head _)) inner inside
  | @elementary function nodes terms takes all =>
    intro code found
    obtain ⟨helper, -, codes, inside, rfl⟩ := some_of_bind found
    exact refersArgs_of_forall₂ all (fun _ => @reaches_arg (.elementary function) (by simp) _ _)
      codes inside
  | @chain relation nodes terms compares all =>
    refine refers_map rfl (fun _ => rfl) (refersArgs_of_forall₂ all fun part member => ?_)
    obtain ⟨whole, among, reaches⟩ := reaches_flattened id relation nodes member
    exact .arg (by simp) among reaches
  | connective connective some all =>
    have other : connective.operator ≠ .integrate := by cases connective <;> decide
    exact refers_map rfl (fun _ => rfl) (refersArgs_of_forall₂ all fun _ => reaches_arg other)
  | derivativeHere named | integral =>
    intro code found
    cases found
  | @wrapped operator wraps _ _ only =>
    have other : operator ≠ .integrate := by
      rintro rfl
      exact absurd wraps (by decide)
    exact only.of_reaches (reaches_arg other (.head _))
  | single factors =>
    intro code found
    have all := refersArgs_of_factors factors fun _ => @reaches_arg .invisible (by decide) _ _
    have names := all [code] (by simp [ofTerms?, found])
    simpa [Code.namesArgs] using names
  | product factors =>
    exact refers_map rfl (fun _ => rfl)
      (refersArgs_of_factors factors fun _ => reaches_arg (by decide))
  | tuple all made =>
    exact refers_application made (reaches_arg (by decide) (.head _))
      (refersArgs_of_forall₂ all fun _ => reaches_tupleArguments)
  | call named all =>
    exact refers_call (.head (.refl _))
      (refersArgs_of_forall₂ all fun part member => .arg (by simp) member (.self part))

/-- The names of native code are mentioned by its tree. -/
theorem mentions_of_ofNode? {code : Code} (native : ofNode? node = some code) :
    ∀ word ∈ code.names, node.mentions here word = true := by
  obtain ⟨term, found, made⟩ := Option.bind_eq_some_iff.mp native
  have refers : Refers here node term :=
    read_of_rules (H := fun _ => True) (fun _ => id) (fun _ => refers_of_rule) found trivial
  exact fun word member => (refers code made word member).mentions

end Grapher.Native
