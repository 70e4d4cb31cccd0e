import Grapher.Proofs.Program.Writing
import Grapher.Proofs.Reading.Rules

/-!
# Readings of trees with ASCII names

A tree whose names and heads are of ASCII characters, as far as they can be names of a program, has
a reading that can be written: the names in it are words of a program, every row of operands has as
many entries as it should, and a chain has one term more than it has relations.
-/

set_option autoImplicit false

namespace Grapher

open Reading (isName)

namespace Node

/-- Whether all names and heads of a tree are of ASCII characters. -/
def isAscii (node : Node) : Bool :=
  node.all fun part => part.word?.all Program.isAscii

/-- Every word of a tree that can be a name of a program is of ASCII characters. -/
abbrev Spellable (node : Node) : Prop :=
  node.Throughout fun part => ∀ word, part.word? = some word → isName word = true →
    Program.isAscii word = true

theorem spellable_of_isAscii {node : Node} (ascii : node.isAscii = true) : node.Spellable := by
  intro part sub word found _
  have tested := throughout_of_all ascii part sub
  simpa [found] using tested

theorem ascii_parameterName {parameters : List Node}
    (spellable : ∀ node ∈ parameters, node.Spellable)
    (named : isName (Node.parameterName parameters) = true) :
    Program.isAscii (Node.parameterName parameters) = true := by
  match parameters with
  | [] => rfl
  | .number value :: _ => rfl
  | .symbol name :: _ => exact (spellable _ (.head _)).here name rfl named
  | .op head args :: _ => rfl

theorem ascii_integrand {argument body : Node} {parameter : String}
    (found : argument.integrand? = some (parameter, body)) (spellable : argument.Spellable)
    (named : isName parameter = true) : Program.isAscii parameter = true := by
  have inner := spellable.sub (reaches_unheld argument).sub
  unfold integrand? at found
  split at found <;> cases found
  · next shape =>
    rw [shape] at inner
    exact ascii_parameterName (fun node member => inner.within (.arg (.tail _ member))) named
  · next shape =>
    rw [shape] at inner
    exact ascii_parameterName (fun node member => inner.within (.arg (.tail _ member))) named
  · rfl

theorem ascii_limits {limits lower upper : Node} {name : String}
    (found : limits.limits? = some (some name, lower, upper)) (spellable : limits.Spellable)
    (named : isName name = true) : Program.isAscii name = true := by
  unfold limits? at found
  split at found
  · split at found
    · next bound _ _ args =>
      split at found <;> cases found
      rename_i symbol
      have inside := spellable.within (within_args (by rw [args]; exact .head _))
      have inner := inside.sub (sub_unwrap (· == .hold) bound)
      rw [symbol] at inner
      exact inner.here name rfl named
    · cases found
    · cases found
  · cases found

end Node

namespace Program

open Reading

theorem isWord_resolveConstant {name : String} (named : (isConstantName name || isName name) = true)
    (ascii : isName name = true → isAscii name = true) : IsWord (resolveConstant name) := by
  rcases resolveConstant_cases name with ⟨other, same⟩ | ⟨-, member⟩
  · rw [other, Bool.false_or] at named
    rw [same]
    exact ⟨named, ascii named⟩
  · have words : ∀ word ∈ constantNames.map (·.2), isName word = true ∧ isAscii word = true := by
      decide
    exact ⟨(words _ member).1, (words _ member).2⟩

section Lists

variable {nodes : List Node} {terms : List Term}

theorem writableArgs_of_forall₂ (all : List.Forall₂ (fun _ term => Writable term) nodes terms) :
    WritableArgs terms := by
  induction all with
  | nil => simp [WritableArgs]
  | cons first _ ih => exact ⟨first, ih⟩

theorem ne_nil_of_forall₂ {R : Node → Term → Prop} (all : List.Forall₂ R nodes terms)
    (some : nodes ≠ []) : terms ≠ [] := by
  cases all with
  | nil => exact absurd rfl some
  | cons => exact List.cons_ne_nil _ _

end Lists

theorem isWord_of_primed {head : Node} {name : String} (primed : primedName? head = some name)
    (spellable : head.Spellable) : IsWord name := by
  unfold primedName? at primed
  split at primed
  · split at primed <;> cases primed
    rename_i named
    exact ⟨named, (spellable.within (.arg (.head _))).here _ rfl named⟩
  · cases primed

theorem isWord_of_callee {head : Node} {name : String} (callee : calleeName? head = some name)
    (spellable : head.Spellable) : IsWord name := by
  unfold calleeName? at callee
  split at callee
  · split at callee <;> cases callee
    rename_i named
    simp only [Bool.and_eq_true] at named
    exact ⟨named.2, spellable.here _ rfl named.2⟩
  · cases callee

theorem writable_of_application {head : Node} {args : List Term} {term : Term}
    (made : Application head args term) (spellable : head.Spellable) (all : WritableArgs args) :
    Writable term := by
  cases made with
  | derivative primed => exact ⟨isWord_of_primed primed spellable, all⟩
  | call callee => exact ⟨isWord_of_callee callee spellable, all⟩

theorem writableArgs_of_factors {nodes : List Node} {terms : List Term}
    (factors : Factors (fun _ term => Writable term) nodes terms)
    (spellable : ∀ node ∈ nodes, node.Spellable) : WritableArgs terms := by
  induction factors with
  | nil => simp [WritableArgs]
  | plain _ first _ ih => exact ⟨first, ih fun node member => spellable node (.tail _ member)⟩
  | applied _ all made _ ih =>
    exact ⟨writable_of_application made (spellable _ (.head _)) (writableArgs_of_forall₂ all),
      ih fun node member => spellable node (.tail _ (.tail _ member))⟩

/-- A rule makes writable readings of writable readings. -/
theorem writable_of_rule {here : String} (default : IsWord here) {node : Node} {term : Term}
    (spellable : node.Spellable) (rule : Rule here (fun _ term => Writable term) node term) :
    Writable term := by
  cases rule with
  | number value => rw [Writable]; trivial
  | symbol named => rw [Writable]; exact isWord_resolveConstant named (spellable.here _ rfl)
  | joined joiner some all | connective connective some all =>
    exact ⟨ne_nil_of_forall₂ all some, writableArgs_of_forall₂ all⟩
  | quotient _ first second | power first second => rw [Writable]; exact ⟨first, second⟩
  | negate only | not only => rw [Writable]; exact only
  | elementary takes all =>
    rw [all.length_eq] at takes
    exact ⟨takes, writableArgs_of_forall₂ all⟩
  | @chain relation nodes terms compares all =>
    have some : nodes ≠ [] := by
      rintro rfl
      exact compares rfl
    rw [Writable, ← all.length_eq]
    exact ⟨compares, Node.length_flattened id relation nodes some, writableArgs_of_forall₂ all⟩
  | derivativeHere named => exact ⟨named, (spellable.within (.arg (.head _))).here _ rfl named⟩
  | wrapped _ only => exact only
  | single factors =>
    have all := writableArgs_of_factors factors fun node member => spellable.within (.arg member)
    exact all.1
  | product factors =>
    exact ⟨List.cons_ne_nil _ _,
      writableArgs_of_factors factors fun node member => spellable.within (.arg member)⟩
  | tuple all made =>
    exact writable_of_application made (spellable.within (.arg (.head _)))
      (writableArgs_of_forall₂ all)
  | @call name unknown _ _ named all =>
    exact ⟨⟨named, spellable.here _ rfl named⟩, writableArgs_of_forall₂ all⟩
  | @integral argument limits _ _ _ parameter bound _ _ _ integrand limited named inside low high =>
    have nameAscii : isAscii (Node.integralName here parameter bound) = true := by
      unfold Node.integralName at named ⊢
      split at named
      · next unnamed => rw [if_pos unnamed]; exact default.ascii
      · next unnamed =>
        rw [if_neg unnamed]
        cases bound with
        | none => exact Node.ascii_integrand integrand (spellable.within (.arg (.head _))) named
        | some name => exact Node.ascii_limits limited (spellable.within (.arg (.tail _ (.head _)))) named
    exact ⟨⟨named, nameAscii⟩, inside, low, high⟩

/-- The reading of a tree with ASCII names can be written. -/
theorem writable_of_read {here : String} (default : IsWord here) {node : Node} {term : Term}
    (found : read here node = some term) (spellable : node.Spellable) : Writable term :=
  read_of_rules (fun inside spellable => spellable.within inside) (writable_of_rule default) found
    spellable

end Program

end Grapher
