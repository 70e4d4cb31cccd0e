import Grapher.Proofs.Native.Alike
import Grapher.Proofs.Program.Meaning

/-!
# Builtin names on both paths

A direct function of native code and the builtin function of a program give alike results, except
on an absent base of a logarithm. A name that native code refers to has the value that a program
finds for it, unless it is the name of the integration function, which only programs know.
-/

set_option autoImplicit false

namespace Grapher

open Double Program

variable {value : Value} {name : String} {args : List Value} {function : Elementary}

/-! ## Builtin functions -/

namespace Primitive

theorem isPlain_unary {function : Number → Except Fault Number}
    (found : unary function args = .ok value) : value.IsPlain := by
  unfold unary at found
  split at found
  · obtain ⟨number, -, result⟩ := ok_of_bind found
    cases result
    exact .inl ⟨number, rfl⟩
  · cases found

theorem isPlain_logarithm (found : logarithm args = .ok value) : value.IsPlain := by
  unfold logarithm at found
  split at found
  · exact isPlain_unary found
  · obtain ⟨number, -, result⟩ := ok_of_bind found
    cases result
    exact .inl ⟨number, rfl⟩
  · obtain ⟨number, -, result⟩ := ok_of_bind found
    cases result
  · exact isPlain_unary found

end Primitive

namespace Value

theorem isPlain_nthRoot {radicand degree : Value} (found : nthRoot radicand degree = .ok value) :
    value.IsPlain := by
  unfold nthRoot at found
  split at found
  · cases found
    exact .inl ⟨_, rfl⟩
  · obtain ⟨negative, -, found⟩ := ok_of_bind found
    dsimp only at found
    split at found
    all_goals
      obtain ⟨odd, -, found⟩ := ok_of_bind found
      split at found
      · obtain ⟨positive, -, found⟩ := ok_of_bind found
        obtain ⟨exponent, -, found⟩ := ok_of_bind found
        obtain ⟨root, -, found⟩ := ok_of_bind found
        exact isPlain_negate found
      · obtain ⟨exponent, -, found⟩ := ok_of_bind found
        exact isPlain_onNumbers found

/-- The extreme of some values is one of them. -/
theorem mem_extremeOf {relation : Relation} {best : Value} {rest : List Value}
    (found : extremeOf relation best rest = .ok value) : value ∈ best :: rest := by
  induction rest generalizing best with
  | nil =>
    cases found
    exact .head _
  | cons next rest ih =>
    obtain ⟨holds, -, found⟩ := ok_of_bind found
    split at found
    · exact .tail _ (ih found)
    · rcases List.mem_cons.mp (ih found) with rfl | later
      · exact .head _
      · exact .tail _ (.tail _ later)

/-- The extreme of the arguments is one of them, or a text. -/
theorem extreme_cases {relation : Relation} (found : extreme relation args = .ok value) :
    value.IsPlain ∨ value ∈ args := by
  unfold extreme at found
  split at found
  · cases found
  · next s =>
    split at found
    · cases found
    · next first rest chars =>
      have member := mem_extremeOf found
      rw [← chars] at member
      obtain ⟨c, -, rfl⟩ := List.mem_map.mp member
      exact .inl (.inr ⟨_, rfl⟩)
  · cases found
  · exact .inr (mem_extremeOf found)

end Value

/-- What a builtin function gives is a number, a text or one of its arguments. -/
theorem Primitive.apply_cases {primitive : Primitive} (found : primitive.apply args = .ok value) :
    value.IsPlain ∨ value ∈ args := by
  cases primitive with
  | log => exact .inl (isPlain_logarithm found)
  | nthRoot =>
    simp only [apply] at found
    split at found
    · exact .inl (Value.isPlain_nthRoot found)
    · cases found
  | min | max => exact Value.extreme_cases found
  | _ => exact .inl (isPlain_unary found)

/-! ## Names -/

/-- A scope in which the builtin names mean what they always do; the two constants that are plain
letters may differ. -/
def KeepsBuiltins (scope : Scope) : Prop :=
  ∀ name value, scope.lookup name = some value → isBuiltinName name = true →
    name = "pi" ∨ name = "e"

section Names

variable {scope : Scope} (intervals : Nat)

theorem lookup_engineHelpers (other : name ≠ integralName) :
    (engineHelpers intervals).lookup name = none := by
  rw [engineHelpers, ← integralName, List.lookup_cons, beq_eq_false_iff_ne.mpr other,
    List.lookup_nil]

/-- A scope that has a builtin name with its own value only. -/
def Unchanged (scope : Scope) (name : String) : Prop :=
  ∀ value, scope.lookup name = some value → builtin? name = some value

theorem named_unchanged (other : name ≠ integralName) (unchanged : Unchanged scope name)
    (known : builtin? name = some value) (moment : Moment) :
    Run.named (engineHelpers intervals) name scope moment = .ok value := by
  cases bound : scope.lookup name with
  | none =>
    have helpers := lookup_engineHelpers intervals other
    simp only [Run.named, resolve, bound, helpers, known]
  | some own =>
    cases (unchanged own bound).symm.trans known
    simp only [Run.named, resolve, bound]

theorem KeepsBuiltins.unchanged (keeps : KeepsBuiltins scope) (known : isBuiltinName name = true)
    (pi : name ≠ "pi") (e : name ≠ "e") : Unchanged scope name :=
  fun value found => absurd (keeps name value found known) (by simp [pi, e])

theorem builtin?_name (primitive : Primitive) :
    builtin? primitive.name = some (.function (.primitive primitive)) := by
  cases primitive <;> rfl

theorem KeepsBuiltins.elementary (keeps : KeepsBuiltins scope) {count : Nat}
    (found : function.programName? count = some name) : Unchanged scope name := by
  have known : isBuiltinName name = true ∧ name ≠ "pi" ∧ name ≠ "e" := by
    unfold Elementary.programName? at found
    split at found <;> cases found <;> decide
  exact keeps.unchanged known.1 known.2.1 known.2.2

theorem named_primitive {primitive : Primitive} (unchanged : Unchanged scope primitive.name)
    (moment : Moment) :
    Run.named (engineHelpers intervals) primitive.name scope moment
      = .ok (.function (.primitive primitive)) :=
  named_unchanged intervals (by cases primitive <;> decide) unchanged (builtin?_name primitive)
    moment

/-- A number is its own value, unless the scope changes the name that it is written by. The negative
zero is written as zero. -/
theorem literal_eq {value : Float} (undefined : value.isNaN = true → Unchanged scope "NaN")
    (infinite : isInfinite value = true → Unchanged scope "Infinity")
    (zero : value == 0 → isNegative value = false) (moment : Moment) :
    Run.literal (engineHelpers intervals) value scope moment = .ok (.float value) := by
  unfold Run.literal
  split
  · next isUndefined =>
    rw [eq_nan isUndefined]
    exact named_unchanged intervals (by decide) (undefined isUndefined) rfl moment
  · split
    · next isInfinite =>
      have bits : magnitudeBits value = infinityBits := beq_iff_eq.mp isInfinite
      have found := named_unchanged intervals (by decide) (infinite isInfinite) rfl moment
      split
      · next negative =>
        have sign := ((lt_zero_iff value).mp negative).1
        have same : -infinity = value :=
          eq_of_bits (Eq.trans (by decide) sign.symm) (Eq.trans (by decide) bits.symm)
        rw [Run.negated, found, ← same]
        rfl
      · next notLess =>
        have sign : isNegative value = false := by
          refine Bool.eq_false_iff.mpr fun negative => notLess ?_
          rw [lt_zero_iff, bits]
          exact ⟨negative, by decide, Nat.le_refl _⟩
        have same : infinity = value :=
          eq_of_bits (Eq.trans (by decide) sign.symm) (Eq.trans (by decide) bits.symm)
        rw [← same]
        exact found
    · split
      · next isZero =>
        have bits := (beq_zero_iff value).mp isZero
        have same : value = 0 :=
          eq_of_bits ((zero isZero).trans (by decide)) (bits.trans (by decide))
        rw [same]
        rfl
      · rfl

end Names

/-! ## References -/

namespace Native

theorem builtin?_eq_none (other : isBuiltinName name = false) : builtin? name = none := by
  simp only [isBuiltinName, Bool.or_eq_false_iff, Option.isSome_eq_false_iff,
    Option.isNone_iff_eq_none] at other
  simp only [builtin?, other.1, other.2, Option.map_none]

/-- A reference has the value that a program finds for the name, if the scope and the builtins have
only values of the class. -/
theorem alike_reference {good : Value → Prop} {scope : Scope} (intervals : Nat)
    (held : ∀ name value, scope.lookup name = some value → good value)
    (known : ∀ name value, builtin? name = some value → good value) {target : Reference}
    (found : reference? name = some target) (bound : resolveConstant name = integralName →
      scope.lookup integralName ≠ none) :
    Run.Alike good scope target.run
      (.named (engineHelpers intervals) (resolveConstant name)) := by
  intro moment
  unfold reference? at found
  generalize resolveConstant name = word at found bound
  dsimp only at found
  split at found <;> cases found
  cases own : scope.lookup word with
  | some value =>
    split
    · simpa only [Reference.run, Run.named, resolve, own] using
        Alike.ok (held word value own)
    · simpa only [Reference.run, Run.named, resolve, own] using
        Alike.ok (held word value own)
  | none =>
    have helpers : (engineHelpers intervals).lookup word = none := by
      refine lookup_engineHelpers intervals fun same => bound same ?_
      rw [← same, own]
    split
    · simp only [Reference.run, Run.named, resolve, own, helpers, List.lookup_nil]
      refine .same fun value result => ?_
      split at result
      · next builtin => cases result; exact known word _ builtin
      · cases result
    · next foreign =>
      have unknown := builtin?_eq_none (Bool.eq_false_iff.mpr foreign)
      simp only [Reference.run, Run.named, resolve, own, helpers, unknown]
      exact .error _ _

/-! ## Direct functions -/

/-- Arguments of which a second and last one is not absent. -/
def HasBase (values : List Value) : Prop :=
  ∀ a base, values = [a, base] → base ≠ .absent

/-- A logarithm to a base that is no number fails in both ways, unless the base is absent. -/
theorem alike_logBase (a : Value) {base : Value} (present : base ≠ .absent) :
    Alike (fun _ => True) (Value.onNumbers Number.logBase a base)
      (Primitive.logarithm [a, base]) := by
  have fails : ∀ number : Number, Alike (fun _ : Value => True) (.error .wrongKind)
      (number.naturalLog >>= fun _ => .error .wrongKind) := by
    intro number
    cases number.naturalLog <;> exact .error _ _
  match a, base with
  | .number _, .number _ => exact .refl _
  | .number number, .text _ | .number number, .function _ => exact fails number
  | _, .absent => exact absurd rfl present
  | .text _, .number _ | .text _, .text _ | .text _, .function _
  | .absent, .number _ | .absent, .text _ | .absent, .function _
  | .function _, .number _ | .function _, .text _ | .function _, .function _ => exact .error _ _

theorem alike_log {values : List Value} (based : HasBase values) :
    Alike (fun _ => True) (Helper.log.apply values) (Primitive.log.apply values) := by
  match values, based with
  | [], _ => exact .refl _
  | [a], _ => exact .refl _
  | [a, base], based => exact alike_logBase a (based a base rfl)
  | a :: b :: c :: more, _ => exact .refl _

theorem eq_log_of_helper {helper : Helper} (found : helper? function 2 = some helper) :
    function = .log := by
  cases function with
  | log => rfl
  | _ => cases found

/-- A direct function is the one that a program calls by its name. -/
theorem alike_helper {count : Nat} {helper : Helper} (found : helper? function count = some helper) :
    ∃ primitive : Primitive, function.programName? count = some primitive.name ∧
      helper.run = .applied helper.apply ∧
      ∀ values : List Value, HasBase values →
        Alike (fun _ => True) (helper.apply values) (primitive.apply values) := by
  unfold helper? at found
  split at found
  all_goals cases found
  · exact ⟨.sqrt, rfl, rfl, fun _ _ => .refl _⟩
  · exact ⟨.sin, rfl, rfl, fun _ _ => .refl _⟩
  · exact ⟨.cos, rfl, rfl, fun _ _ => .refl _⟩
  · exact ⟨.tan, rfl, rfl, fun _ _ => .refl _⟩
  · exact ⟨.abs, rfl, rfl, fun _ _ => .refl _⟩
  · exact ⟨.exp, rfl, rfl, fun _ _ => .refl _⟩
  · exact ⟨.log, rfl, rfl, fun _ => alike_log⟩
  · exact ⟨.log10, rfl, rfl, fun _ _ => .refl _⟩
  · exact ⟨.log, rfl, rfl, fun _ => alike_log⟩

end Native

end Grapher
