import Grapher.Program.Writer
import Grapher.Proofs.Tree.Parts
import Grapher.Tree.Free
import Grapher.Value.Builtin

/-!
# The names that a tree mentions

A tree mentions its free symbols and the heads of its operations; a primed symbol stands for the
name of its derivative. Beside these its program can only use the builtin names, the name of the
integral and the default variable.

Only an integral binds a name, so the free occurrences in a part of a tree are free in the tree as
long as no integral lies between the two (`Reaches`). The variable of an integral is bound by it
both in the program and among the free symbols; where the program takes the default variable, the
symbols have no variable at all.
-/

set_option autoImplicit false

namespace Grapher.Node

open List

variable {node part : Node} {word : String}

/-! ## Free occurrences -/

theorem mem_freeOccurrencesArgs {bound : List String} {nodes : List Node} :
    word ∈ freeOccurrencesArgs bound nodes ↔ ∃ node ∈ nodes, word ∈ freeOccurrences bound node := by
  induction nodes with
  | nil => simp [freeOccurrencesArgs]
  | cons node nodes ih => simp [freeOccurrencesArgs, ih]

theorem mem_freeSymbols : word ∈ node.freeSymbols ↔ word ∈ node.freeOccurrences [] := by
  unfold freeSymbols
  rw [mem_mergeSort, mem_eraseDups]

theorem contains_freeSymbols (node : Node) (word : String) :
    node.freeSymbols.contains word = node.isFree word := by
  unfold isFree
  rw [Bool.eq_iff_iff, contains_iff_mem, contains_iff_mem]
  exact mem_freeSymbols

theorem freeOccurrences_op {head : Head} (unbound : head ≠ .operator .integrate)
    (bound : List String) (args : List Node) :
    freeOccurrences bound (.op head args) = freeOccurrencesArgs bound args := by
  have other : (head == .operator .integrate) = false := beq_eq_false_iff_ne.mpr unbound
  cases args <;> simp [freeOccurrences, other]

theorem freeOccurrences_integrate (bound : List String) (argument limits : Node) :
    freeOccurrences bound (.of .integrate [argument, limits])
      = freeOccurrences (boundWith (integrationVariable [argument, limits]) bound) argument
        ++ freeOccurrences bound limits := by
  simp [freeOccurrences, freeOccurrencesArgs]

mutual

/-- Fewer names are free where more are bound. -/
theorem freeOccurrences_mono {bound more : List String} (subset : bound ⊆ more) {word : String} :
    ∀ {node : Node}, word ∈ freeOccurrences more node → word ∈ freeOccurrences bound node
  | .number _, occurs => by simp [freeOccurrences] at occurs
  | .symbol name, occurs => by
    by_cases inside : name ∈ more
    · simp [freeOccurrences, inside] at occurs
    · have outside : name ∉ bound := fun member => inside (subset member)
      simpa [freeOccurrences, inside, outside] using occurs
  | .op head [], occurs => by
    by_cases integral : head = .operator .integrate
    · simp [freeOccurrences, integral] at occurs
    · rw [freeOccurrences_op integral] at occurs
      cases occurs
  | .op head (first :: rest), occurs => by
    by_cases integral : head = .operator .integrate
    · subst integral
      have wider : boundWith (integrationVariable (first :: rest)) bound
          ⊆ boundWith (integrationVariable (first :: rest)) more := by
        unfold boundWith
        split
        · exact subset
        · exact cons_subset_cons _ subset
      simp only [freeOccurrences, beq_self_eq_true, if_true, mem_append] at occurs ⊢
      exact occurs.imp (freeOccurrences_mono wider) (freeOccurrencesArgs_mono subset)
    · rw [freeOccurrences_op integral] at occurs ⊢
      exact freeOccurrencesArgs_mono subset occurs

theorem freeOccurrencesArgs_mono {bound more : List String} (subset : bound ⊆ more) {word : String} :
    ∀ {nodes : List Node}, word ∈ freeOccurrencesArgs more nodes →
      word ∈ freeOccurrencesArgs bound nodes
  | [], occurs => by cases occurs
  | node :: nodes, occurs => by
    rw [freeOccurrencesArgs, mem_append] at occurs ⊢
    exact occurs.imp (freeOccurrences_mono subset) (freeOccurrencesArgs_mono subset)

end

/-- What is free in a reached part is free in the tree. -/
theorem Reaches.freeOccurrences {bound : List String} (reaches : Reaches part node)
    (occurs : word ∈ part.freeOccurrences bound) : word ∈ node.freeOccurrences bound := by
  induction reaches with
  | self => exact occurs
  | @arg head args _ outer unbound member _ ih =>
    rw [freeOccurrences_op unbound, mem_freeOccurrencesArgs]
    exact ⟨outer, member, ih occurs⟩

/-! ## The variable of an integral -/

theorem integralName_cases (here parameter : String) (bound : Option String) :
    bound.getD parameter = "" ∨ integralName here parameter bound = bound.getD parameter := by
  by_cases unnamed : bound.getD parameter = ""
  · exact .inl unnamed
  · exact .inr (if_neg (by simpa using unnamed))

theorem parameter_of_function {argument body limits : Node} {parameter name : String}
    (integrand : argument.integrand? = some (parameter, body))
    (found : parameter? [argument, limits] = some name) : name = parameter := by
  unfold parameter? at found
  split at found
  · next shape =>
    cases shape
    cases found
    cases integrand
    rfl
  · next shape =>
    cases shape
    cases found
    cases integrand
    rfl
  · cases found

/-- The symbols bind the variable that the program does, or none. -/
theorem integrationVariable_cases {here parameter : String} {bound : Option String}
    {argument limits body lower upper : Node}
    (integrand : argument.integrand? = some (parameter, body))
    (limited : limits.limits? = some (bound, lower, upper)) :
    integrationVariable [argument, limits] = "" ∨
      integrationVariable [argument, limits] = integralName here parameter bound := by
  have same : integrationVariable [argument, limits] = "" ∨
      integrationVariable [argument, limits] = bound.getD parameter := by
    cases limits with
    | number value | symbol name => cases limited
    | op head nodes =>
      unfold limits? at limited
      split at limited
      · split at limited
        · next first lower' upper' shape =>
          cases shape
          split at limited <;> cases limited
          rename_i symbol _
          exact .inr (by simp [integrationVariable, limitsVariable?, heldName?, symbol])
        · next shape =>
          cases shape
          cases limited
          have unnamed : limitsVariable? [argument, .op head [lower, upper]] = none := rfl
          unfold integrationVariable
          rw [unnamed, Option.none_or]
          cases found : parameter? [argument, .op head [lower, upper]] with
          | none => exact .inl rfl
          | some name => exact .inr (parameter_of_function integrand found)
        · cases limited
      · cases limited
  rcases same with none | same
  · exact .inl none
  · rw [same]
    exact (integralName_cases here parameter bound).imp id Eq.symm

/-- What is free in an integrand, the variable of the integral aside, is free in the integral. -/
theorem mem_freeOccurrences_integrand {here parameter : String} {bound : Option String}
    {outside : List String} {argument limits body lower upper : Node}
    (integrand : argument.integrand? = some (parameter, body))
    (limited : limits.limits? = some (bound, lower, upper))
    (occurs : word ∈ body.freeOccurrences (integralName here parameter bound :: outside)) :
    word ∈ freeOccurrences outside (.of .integrate [argument, limits]) := by
  have subset : boundWith (integrationVariable [argument, limits]) outside
      ⊆ integralName here parameter bound :: outside := by
    unfold boundWith
    split
    · exact subset_cons_self _ _
    · next named =>
      rcases @integrationVariable_cases here _ _ _ _ _ _ _ integrand limited with none | same
      · rw [none] at named
        exact absurd rfl named
      · rw [same]
        exact Subset.refl _
  rw [freeOccurrences_integrate, mem_append]
  exact .inl (freeOccurrences_mono subset ((reaches_integrand integrand).freeOccurrences occurs))

/-! ## Mentioned names -/

mutual

/-- A tree and all trees inside it. -/
def parts : Node → List Node
  | .number value => [.number value]
  | .symbol name => [.symbol name]
  | .op head args => .op head args :: partsArgs args

/-- The parts of several trees. -/
def partsArgs : List Node → List Node
  | [] => []
  | node :: nodes => parts node ++ partsArgs nodes

end

/-- The word of the head of an operation. -/
def headName? : Node → Option String
  | .op head _ => some head.name
  | _ => none

/-- The symbol that a tree primes. -/
def primedSymbol? : Node → Option String
  | .of .prime [.symbol name] => some name
  | _ => none

/-- Whether a name is one that the value of a tree may depend on: a builtin name, that of the
integral, the default variable, a free symbol of the tree, the head of one of its operations, or the
derivative of one of its primed symbols. -/
def mentions (here : String) (node : Node) (word : String) : Bool :=
  isBuiltinName word || word == Program.integralName || word == here
    || node.freeSymbols.contains word
    || node.parts.any fun part =>
      part.headName? == some word || part.primedSymbol?.map Program.derivativeName == some word

theorem mem_partsArgs {nodes : List Node} :
    part ∈ partsArgs nodes ↔ ∃ node ∈ nodes, part ∈ node.parts := by
  induction nodes with
  | nil => simp [partsArgs]
  | cons node nodes ih => simp [partsArgs, ih]

theorem self_mem_parts (node : Node) : node ∈ node.parts := by
  cases node <;> simp [parts]

theorem mem_parts (sub : Sub part node) : part ∈ node.parts := by
  rcases sub with rfl | inside
  · exact self_mem_parts part
  · induction inside with
    | @arg head args part member =>
      rw [parts, mem_cons, mem_partsArgs]
      exact .inr ⟨part, member, self_mem_parts part⟩
    | @deep head args part outer member _ ih =>
      rw [parts, mem_cons, mem_partsArgs]
      exact .inr ⟨outer, member, ih⟩

/-- The names that the program of a tree may look up inside of binders of the given names. -/
inductive Mentioned (here : String) (node : Node) (bound : List String) : String → Prop where
  | builtin {word : String} (known : isBuiltinName word = true) : Mentioned here node bound word
  | integral : Mentioned here node bound Program.integralName
  | here : Mentioned here node bound here
  | free {word : String} (occurs : word ∈ node.freeOccurrences bound) :
      Mentioned here node bound word
  | head {head : Head} {args : List Node} (part : Sub (.op head args) node) :
      Mentioned here node bound head.name
  | derivative {name : String} (part : Sub (.of .prime [.symbol name]) node) :
      Mentioned here node bound (Program.derivativeName name)

namespace Mentioned

variable {here word : String} {part node : Node} {bound : List String}

/-- What a part mentions is mentioned by the tree if what is free in the part is. -/
theorem of_sub (mentioned : Mentioned here part bound word) (sub : Sub part node)
    {outside : List String}
    (free : word ∈ part.freeOccurrences bound → word ∈ node.freeOccurrences outside) :
    Mentioned here node outside word := by
  cases mentioned with
  | builtin known => exact .builtin known
  | integral => exact .integral
  | here => exact .here
  | free occurs => exact .free (free occurs)
  | head inner => exact .head (inner.trans sub)
  | derivative inner => exact .derivative (inner.trans sub)

theorem of_reaches (mentioned : Mentioned here part bound word) (reaches : Reaches part node) :
    Mentioned here node bound word :=
  mentioned.of_sub reaches.sub reaches.freeOccurrences

theorem mentions (mentioned : Mentioned here node [] word) : node.mentions here word = true := by
  unfold Node.mentions
  simp only [Bool.or_eq_true, beq_iff_eq, contains_iff_mem, any_eq_true]
  cases mentioned with
  | builtin known => exact .inl (.inl (.inl (.inl known)))
  | integral => exact .inl (.inl (.inl (.inr rfl)))
  | here => exact .inl (.inl (.inr rfl))
  | free occurs => exact .inl (.inr (mem_freeSymbols.mpr occurs))
  | head part => exact .inr ⟨_, mem_parts part, .inl rfl⟩
  | derivative part => exact .inr ⟨_, mem_parts part, .inr rfl⟩

end Mentioned

end Grapher.Node
