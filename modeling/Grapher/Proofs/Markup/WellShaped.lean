import Grapher.Proofs.Markup.Completeness
import Grapher.Proofs.Markup.Shape

/-!
# The shape of every place in a parsed tree

Whether a tree is well-shaped can be checked place by place: each place looks at its own operator,
at how many arguments it has, and at what kind of trees these are. Three kinds of trees are parts of
a larger form and stand nowhere else: the sequence of the items of a group, and the function and the
limits of an integral. `wellShaped_of_parse` says that every place of every parsed tree passes the
check.
-/

set_option autoImplicit false

namespace Grapher.Markup

/-- Whether a tree is a form of its own, not the part of a group or of an integral. -/
def standsAlone : Node → Bool
  | .of .sequence _ | .of .function _ | .of .limits _ => false
  | _ => true

/-- Whether the arguments of an operator are of the kinds that it takes: a group can hold a sequence
and nothing else, an integral holds a function and limits that name the same variable, and all other
arguments are forms of their own. -/
def placesArgs : Operator → List Node → Bool
  | .delimiter, [.of .sequence _] => true
  | .integrate, [.of .function [_, .symbol named], .of .limits [.symbol bound, _, _]] =>
    named == bound
  | .integrate, _ => false
  | _, args => args.all standsAlone

/-- Whether one place of a tree is as in a parsed tree. -/
def isWellShaped : Node → Bool
  | .number value => decide (0 ≤ value) && !value.isNaN
  | .symbol name => name != ""
  | .of operator args => takes operator args.length && placesArgs operator args
  | .op (.call _ _) _ => false

/-! ## Forms of their own -/

/-- An operator that takes no parts of a larger form. -/
theorem placesArgs_of_standsAlone {operator : Operator} (noIntegral : operator ≠ .integrate)
    {args : List Node} (alone : ∀ arg ∈ args, standsAlone arg = true) :
    placesArgs operator args = true := by
  unfold placesArgs
  split
  · rfl
  · exact absurd rfl noIntegral
  · exact absurd rfl noIntegral
  · exact List.all_eq_true.mpr alone

/-- A tree that is well-shaped at every place and can stand anywhere. -/
structure Stands (node : Node) : Prop where
  alone : standsAlone node = true
  shaped : node.Throughout (isWellShaped · = true)

/-- An operation on forms of their own is well-shaped, even if it is the part of a larger form. -/
theorem shaped_operation {operator : Operator} {args : List Node}
    (noIntegral : operator ≠ .integrate) (count : takes operator args.length = true)
    (all : ∀ arg ∈ args, Stands arg) :
    (Node.of operator args).Throughout (isWellShaped · = true) := by
  have places := placesArgs_of_standsAlone noIntegral fun arg member => (all arg member).alone
  refine .op ?_ fun arg member => (all arg member).shaped
  exact Bool.and_eq_true_iff.mpr ⟨count, places⟩

/-- No operator with a written form of its own is an integral or the part of a larger form. -/
theorem stands_operation {operator : Operator} {args : List Node}
    (written : (takesMany operator || takesTwo operator || takesOne operator) = true)
    (count : takes operator args.length = true) (all : ∀ arg ∈ args, Stands arg) :
    Stands (.of operator args) := by
  have noIntegral : operator ≠ .integrate := by rintro rfl; cases written
  refine ⟨?_, shaped_operation noIntegral count all⟩
  cases operator with
  | sequence | function | limits => cases written
  | _ => rfl

theorem stands_literal {value : Float} (literal : scannedKinds.literal value) :
    Stands (.number value) := by
  obtain ⟨decimal, rfl⟩ := literal
  have defined := Decimal.isNaN_toDouble false decimal
  have positive := Double.zero_le_of_isNegative defined (Decimal.isNegative_toDouble false decimal)
  refine ⟨rfl, .number ?_⟩
  rw [isWellShaped, defined, decide_eq_true positive]
  rfl

theorem stands_word {name : String} (word : scannedKinds.word name) : Stands (.symbol name) :=
  ⟨rfl, .symbol (bne_iff_ne.mpr word.1)⟩

/-- The items of a group stand side by side in its only argument. -/
theorem stands_items {items : List Node} (count : 2 ≤ items.length)
    (all : ∀ item ∈ items, Stands item) : Stands (.of .delimiter [.of .sequence items]) := by
  have sequence := shaped_operation (by decide : Operator.sequence ≠ .integrate)
    (decide_eq_true count) all
  exact ⟨rfl, .op rfl (List.forall_mem_singleton.mpr sequence)⟩

/-- The two places where an integral names its variable agree. -/
theorem stands_integral {body lower upper : Node} {name : String} (named : Stands (.symbol name))
    (inside : Stands body) (low : Stands lower) (high : Stands upper) :
    Stands (integralTree body name lower upper) := by
  have function := shaped_operation (by decide : Operator.function ≠ .integrate) rfl
    (forall_mem_pair inside named)
  have limits := shaped_operation (by decide : Operator.limits ≠ .integrate) rfl
    (List.forall_mem_cons.mpr ⟨named, forall_mem_pair low high⟩)
  refine ⟨rfl, .op ?_ (forall_mem_pair function limits)⟩
  simp [isWellShaped, takes, placesArgs]

/-! ## Parsed trees -/

theorem stands_of_formed {node : Node} (formed : Formed scannedKinds node) : Stands node := by
  induction formed with
  | number literal => exact stands_literal literal
  | symbol word => exact stands_word word
  | many shaped count _ ih =>
    exact stands_operation (by rw [shaped]; rfl) (takes_of_takesMany shaped count) ih
  | two shaped _ _ first second =>
    exact stands_operation (by simp [shaped]) (takes_two shaped) (forall_mem_pair first second)
  | one shaped _ only =>
    exact stands_operation (by simp [shaped]) (takes_one shaped) (List.forall_mem_singleton.mpr only)
  | function root _ ih => exact ⟨rfl, shaped_operation nofun (takes_elementary root) ih⟩
  | noItem => exact ⟨rfl, shaped_operation (by decide) rfl nofun⟩
  | item _ only =>
    exact ⟨rfl, shaped_operation (by decide) rfl (List.forall_mem_singleton.mpr only)⟩
  | items count _ ih => exact stands_items count ih
  | integral word _ _ _ inside low high => exact stands_integral (stands_word word) inside low high

/-- Every parsed tree is a form of its own and is well-shaped at every place. -/
theorem wellShaped_of_parse {text : String} {node : Node} (parsed : parse text = .ok node) :
    standsAlone node = true ∧ node.Throughout (isWellShaped · = true) := by
  have stands := stands_of_formed (formed_of_parse parsed)
  exact ⟨stands.alone, stands.shaped⟩

/-- An integral over a group of two items. -/
theorem wellShaped_of_parse_integral :
    parse ("\\int_\x7b0\x7d^\x7b.5\x7d\x7b(\x7b\\mathrm\x7bx\x7d\x7d,\x7b0\x7d)\x7d" ++
        "\\mathrm\x7bd\x7d\\mathrm\x7bx\x7d")
      = .ok (integralTree (.of .delimiter [.of .sequence [.symbol "x",
          .number (Decimal.toDouble false ⟨0, 0⟩)]]) "x" (.number (Decimal.toDouble false ⟨0, 0⟩))
          (.number (Decimal.toDouble false ⟨5, -1⟩))) ∧
    (integralTree (.of .delimiter [.of .sequence [.symbol "x",
      .number (Decimal.toDouble false ⟨0, 0⟩)]]) "x" (.number (Decimal.toDouble false ⟨0, 0⟩))
      (.number (Decimal.toDouble false ⟨5, -1⟩))).Throughout (isWellShaped · = true) := by
  have plain : IsPlainName "x" := by constructor <;> decide
  have low : Numeral ['0'] ⟨0, 0⟩ := @Numeral.whole ['0'] (by decide) (by decide)
  have high : Numeral ['.', '5'] ⟨5, -1⟩ := @Numeral.point [] ['5'] (by decide) (by decide)
  have group := @Writes.group [(_, _), (_, _)]
    (forall_mem_pair (.symbol plain) (.number low))
  have writes := Writes.integral (@Spelling.command .integral "int" rfl) (.number low)
    (.number high) group plain
  have parsed := @parse_of_writes _
    ("\\int_\x7b0\x7d^\x7b.5\x7d\x7b(\x7b\\mathrm\x7bx\x7d\x7d,\x7b0\x7d)\x7d" ++
      "\\mathrm\x7bd\x7d\\mathrm\x7bx\x7d") writes
  exact ⟨parsed, (wellShaped_of_parse parsed).2⟩

end Grapher.Markup
