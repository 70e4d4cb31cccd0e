import Grapher.Proofs.Markup.WellShaped
import Grapher.Proofs.Tree.Occurrences
import Grapher.Proofs.Tree.Places

/-!
# Integration variables of parsed trees

The free symbols of a tree are meant to leave out the variables of its integrals. The variable of a
parsed integral stands at two places besides the integrand, and the second of them, the first entry
of the limits, lies outside of what the integral binds. So every symbol of a parsed tree is counted
as free, the bound ones too: under the outermost integral over a name, the limits show the name
where nothing binds it. What is counted are the free symbols and, beside them, the variables of all
integrals (`mem_freeSymbols_of_parse`).
-/

set_option autoImplicit false

namespace Grapher.Markup

open Node List

/-! ## Symbols -/

theorem hasSymbol_of {operator : Operator} {name : String} {args : List Node} :
    (of operator args).HasSymbol name ↔ ∃ arg ∈ args, arg.HasSymbol name :=
  hasSymbol_op

/-- An integral has the symbols of its integrand and of its limits, and its variable. -/
theorem hasSymbol_integralTree {word name : String} {body lower upper : Node} :
    (integralTree body name lower upper).HasSymbol word
      ↔ word = name ∨ body.HasSymbol word ∨ lower.HasSymbol word ∨ upper.HasSymbol word := by
  simp only [integralTree, hasSymbol_of, mem_cons, not_mem_nil, or_false,
    exists_eq_or_imp, exists_eq_left, hasSymbol_symbol]
  constructor
  · rintro ((inside | named) | named | limit)
    · exact .inr (.inl inside)
    · exact .inl named
    · exact .inl named
    · exact .inr (.inr limit)
  · rintro (named | inside | limit)
    · exact .inl (.inr named)
    · exact .inl (.inl inside)
    · exact .inr (.inr limit)

/-! ## What is counted as free -/

section Counting

variable {kinds : Kinds}

theorem integrationVariable_integralTree (body lower upper : Node) (name : String) :
    integrationVariable
        [.of .function [body, .symbol name], .of .limits [.symbol name, lower, upper]] = name :=
  rfl

theorem freeOccurrences_integralTree {name : String} (some : name ≠ "") (bound : List String)
    (body lower upper : Node) :
    freeOccurrences bound (integralTree body name lower upper)
      = freeOccurrences (name :: bound) body ++ freeOccurrences bound (.symbol name)
        ++ freeOccurrences bound lower ++ freeOccurrences bound upper := by
  have unbound : ∀ operator : Operator, operator ≠ .integrate → Head.operator operator
      ≠ .operator .integrate := fun _ other same => other (Head.operator.inj same)
  have binds : boundWith name bound = name :: bound := if_neg (by simpa using some)
  have parameter : freeOccurrences (name :: bound) (.symbol name) = [] := by
    simp [freeOccurrences]
  rw [integralTree, freeOccurrences_integrate, integrationVariable_integralTree, binds,
    freeOccurrences_op (unbound .function (by decide)),
    freeOccurrences_op (unbound .limits (by decide))]
  simp only [freeOccurrencesArgs, parameter, append_nil, append_assoc]

/-- All symbols of a parsed tree that are not bound around it are counted as free. -/
theorem mem_freeOccurrences_of_formed (some : ∀ name, kinds.word name → name ≠ "") {node : Node}
    (formed : Formed kinds node) (bound : List String) (word : String) :
    word ∈ freeOccurrences bound node ↔ word ∉ bound ∧ node.HasSymbol word := by
  have operation : ∀ {operator : Operator} {args : List Node} (bound : List String),
      operator ≠ .integrate →
      (∀ arg ∈ args, ∀ bound, word ∈ freeOccurrences bound arg ↔ word ∉ bound ∧ arg.HasSymbol word) →
      (word ∈ freeOccurrences bound (.of operator args)
        ↔ word ∉ bound ∧ (of operator args).HasSymbol word) := by
    intro operator args bound unbound ih
    rw [freeOccurrences_op (fun same => unbound (Head.operator.inj same)),
      mem_freeOccurrencesArgs, hasSymbol_of]
    constructor
    · rintro ⟨arg, member, occurs⟩
      obtain ⟨outside, has⟩ := (ih arg member bound).mp occurs
      exact ⟨outside, arg, member, has⟩
    · rintro ⟨outside, arg, member, has⟩
      exact ⟨arg, member, (ih arg member bound).mpr ⟨outside, has⟩⟩
  induction formed generalizing bound with
  | number literal => simp [freeOccurrences, not_hasSymbol_number]
  | @symbol name _ =>
    rw [hasSymbol_symbol]
    by_cases inside : name ∈ bound
    · simp only [freeOccurrences, contains_eq_mem, inside, decide_true, if_true,
        not_mem_nil, false_iff]
      rintro ⟨outside, rfl⟩
      exact outside inside
    · simp only [freeOccurrences, contains_eq_mem, inside, decide_false, Bool.false_eq_true,
        if_false, mem_singleton]
      exact ⟨fun same => ⟨same ▸ inside, same⟩, And.right⟩
  | many takes _ _ ih => exact operation bound (by rintro rfl; cases takes) ih
  | two takes _ _ first second =>
    exact operation bound (by rintro rfl; cases takes)
      (forall_mem_pair first second)
  | one takes _ only =>
    exact operation bound (by rintro rfl; cases takes) (forall_mem_singleton.mpr only)
  | function _ _ ih => exact operation bound Operator.noConfusion ih
  | noItem => exact operation bound (by decide) (by simp)
  | item _ only => exact operation bound (by decide) (forall_mem_singleton.mpr only)
  | items _ _ ih =>
    exact operation bound (by decide)
      (forall_mem_singleton.mpr fun bound => operation bound (by decide) ih)
  | @integral body lower upper name named _ _ _ inside low high =>
    rw [freeOccurrences_integralTree (some name named), hasSymbol_integralTree]
    simp only [mem_append, inside, low, high, mem_cons, not_or]
    -- The variable is counted by the limits, so the integrand may leave it out.
    by_cases same : word = name
    · subst same
      by_cases outer : word ∈ bound <;> simp [freeOccurrences, outer]
    · have other : word ∉ freeOccurrences bound (.symbol name) := by
        by_cases outer : name ∈ bound <;> simp [freeOccurrences, outer, same]
      tauto

end Counting

/-! ## Integrals of parsed trees -/

/-- The arguments of an integral of a parsed tree name the variable of the integral. -/
theorem integral_of_placesArgs {args : List Node} (placed : placesArgs .integrate args = true) :
    ∃ body lower upper name, integrationVariable args = name ∧
      args = [.of .function [body, .symbol name], .of .limits [.symbol name, lower, upper]] := by
  unfold placesArgs at placed
  split at placed
  · next shape => cases shape
  · next body named bound lower upper _ =>
    obtain rfl := eq_of_beq placed
    exact ⟨body, lower, upper, named, rfl, rfl⟩
  · cases placed
  · contradiction

section Integrals

variable {node : Node} (formed : Formed scannedKinds node) {name : String} {place : List Nat}

include formed

theorem integralTree_of_integralAt (integral : node.IntegralAt name place) :
    ∃ body lower upper, node.at? place = some (integralTree body name lower upper) := by
  obtain ⟨args, found, rfl⟩ := integral
  have shaped := Bool.and_eq_true_iff.mp ((stands_of_formed formed).shaped _ (sub_of_at? found))
  obtain ⟨body, lower, upper, name, same, rfl⟩ := integral_of_placesArgs shaped.2
  exact ⟨body, lower, upper, found⟩

/-- What stands where an integral names its variable is that variable. -/
theorem integralAt_of_namedAt (occurs : node.at? place = some (.symbol name))
    (named : node.NamedAt place) : ∃ outer, node.IntegralAt name outer := by
  obtain ⟨other, outer, integral, shape⟩ := named
  obtain ⟨body, lower, upper, found⟩ := integralTree_of_integralAt formed integral
  have same : name = other := by
    rcases shape with rfl | rfl
    · rw [at?_append, found] at occurs
      cases occurs
      rfl
    · rw [at?_append, found] at occurs
      cases occurs
      rfl
  exact ⟨outer, same ▸ integral⟩

/-- Every symbol of a parsed tree occurs freely or is the variable of an integral. -/
theorem hasSymbol_iff :
    node.HasSymbol name
      ↔ (∃ place, node.FreeAt name place) ∨ ∃ place, node.IntegralAt name place := by
  constructor
  · rintro ⟨place, occurs⟩
    by_cases bound : node.BoundAt name place
    · obtain ⟨outer, -, -, integral⟩ := bound
      exact .inr ⟨outer, integral⟩
    by_cases named : node.NamedAt place
    · exact .inr (integralAt_of_namedAt formed occurs named)
    · exact .inl ⟨place, occurs, bound, named⟩
  · rintro (⟨place, free⟩ | ⟨outer, integral⟩)
    · exact ⟨place, free.occurs⟩
    · obtain ⟨body, lower, upper, found⟩ := integralTree_of_integralAt formed integral
      exact ⟨outer ++ [1, 0], by rw [at?_append, found]; rfl⟩

end Integrals

/-- A variable that its integral's limits do not mention has no free occurrence in the integral. -/
theorem not_freeAt_integralTree {body lower upper : Node} {name : String} {place : List Nat}
    (low : ¬ lower.HasSymbol name) (high : ¬ upper.HasSymbol name) :
    ¬ (integralTree body name lower upper).FreeAt name place := by
  rintro ⟨occurs, unbound, unnamed⟩
  have here : (integralTree body name lower upper).IntegralAt name [] :=
    ⟨_, rfl, integrationVariable_integralTree body lower upper name⟩
  have alone : ∀ inner, (symbol name).at? inner = some (.symbol name) → inner = [] := by
    rintro (_ | ⟨index, inner⟩) found
    · rfl
    · cases found
  rcases place with _ | ⟨_ | _ | _, _ | ⟨_ | _ | _ | _, inner⟩⟩
  -- Places without a symbol are gone by computation; what is left are the five trees of an integral.
  all_goals try cases occurs
  · exact unbound ⟨[], inner, rfl, here⟩
  · exact unnamed ⟨name, [], here, .inl (by rw [alone inner occurs]; rfl)⟩
  · exact unnamed ⟨name, [], here, .inr (by rw [alone inner occurs]; rfl)⟩
  · exact low ⟨inner, occurs⟩
  · exact high ⟨inner, occurs⟩

/-- The symbols that are counted as free in a parsed tree are those with a free occurrence and the
variables of its integrals. -/
theorem mem_freeSymbols_of_parse {text : String} {node : Node} (parsed : parse text = .ok node)
    (name : String) :
    name ∈ node.freeSymbols
      ↔ (∃ place, node.FreeAt name place) ∨ ∃ place, node.IntegralAt name place := by
  have formed := formed_of_parse parsed
  have counted := @mem_freeOccurrences_of_formed scannedKinds (fun _ word => word.1) _ formed [] name
  rw [mem_freeSymbols, counted, hasSymbol_iff formed]
  simp

/-! ## An integral over `t` from zero to `a` -/

def rampText : String :=
  "\\int_\x7b0\x7d^\x7b\\mathrm\x7ba\x7d\x7d\x7b\\mathrm\x7bt\x7d\x7d\\mathrm\x7bd\x7d\\mathrm\x7bt\x7d"

def rampTree : Node :=
  integralTree (.symbol "t") "t" (.number (Decimal.toDouble false ⟨0, 0⟩)) (.symbol "a")

theorem parse_rampText : parse rampText = .ok rampTree := by
  have plain : IsPlainName "t" := by constructor <;> decide
  have other : IsPlainName "a" := by constructor <;> decide
  have zero : Numeral ['0'] ⟨0, 0⟩ := @Numeral.whole ['0'] (by decide) (by decide)
  exact parse_of_writes (Writes.integral (@Spelling.command .integral "int" rfl) (.number zero)
    (.symbol other) (.symbol plain) plain)

/-- Both names of the integral are counted. -/
theorem mem_freeSymbols_of_parse_ramp :
    parse rampText = .ok rampTree ∧ ∀ name, name ∈ rampTree.freeSymbols
      ↔ (∃ place, rampTree.FreeAt name place) ∨ ∃ place, rampTree.IntegralAt name place :=
  ⟨parse_rampText, mem_freeSymbols_of_parse parse_rampText⟩

/-- The variable of the integral is counted as free although it occurs nowhere freely. -/
theorem ramp_variable_counted :
    parse rampText = .ok rampTree ∧ "t" ∈ rampTree.freeSymbols
      ∧ ¬ ∃ place, rampTree.FreeAt "t" place := by
  refine ⟨parse_rampText, mem_freeSymbols.mpr (by decide +kernel), ?_⟩
  rintro ⟨place, free⟩
  exact not_freeAt_integralTree (not_hasSymbol_number _ _) (by simp [hasSymbol_symbol]) free

end Grapher.Markup
