import Grapher.Proofs.Native.Builtins
import Mathlib.Logic.Equiv.Defs

/-!
# Values that differ in what nobody looks at

A closure keeps the whole scope in which its binder was evaluated, but its body looks up only the
names that stand in it outside of its own binders. Two values are alike if they are equal, or if
they are closures of one binder over scopes that hold like values, or both none, under these names.

What an evaluation needs of such a relation is collected in `Likeness`. It leaves room for closures
whose binders differ by a permutation of names, as long as the names that are looked up are permuted
in the scopes too, and for closures that were born at other moments. Every operation on values gives
related values for related values, or fails alike on both sides: arithmetic and comparison do not
look into a function, and equality of closures goes by their birth (`Value.Twin`).
-/

set_option autoImplicit false

namespace Grapher

open List

open Program (Arithmetic Expr)

/-! ## Names of an expression -/

namespace Program.Expr

mutual

/-- The names of an expression that are neither given as bound nor bound by a binder around them,
in order of occurrence. -/
def namesOutside (bound : List String) : Expr → List String
  | .number _ => []
  | .name word => if word ∈ bound then [] else [word]
  | .negate operand | .not operand => namesOutside bound operand
  | .arithmetic _ left right | .and left right | .or left right =>
    namesOutside bound left ++ namesOutside bound right
  | .compare first _ others => namesOutside bound first ++ namesOutsideArgs bound others
  | .call callee args => namesOutside bound callee ++ namesOutsideArgs bound args
  | .binder parameter body => namesOutside (parameter :: bound) body

/-- The names of several expressions. -/
def namesOutsideArgs (bound : List String) : List Expr → List String
  | [] => []
  | e :: es => namesOutside bound e ++ namesOutsideArgs bound es

end

mutual

theorem mem_namesOutside {word : String} {bound : List String} :
    ∀ {e : Expr}, word ∈ namesOutside bound e ↔ word ∉ bound ∧ word ∈ namesOutside [] e
  | .number _ => by simp [namesOutside]
  | .name other => by
    by_cases same : word = other
    · subst same; simp [namesOutside]
    · simp [namesOutside, same]
  | .negate operand | .not operand => by
    rw [namesOutside, namesOutside]
    exact mem_namesOutside
  | .arithmetic _ left right | .and left right | .or left right => by
    rw [namesOutside, namesOutside, mem_append, mem_append, mem_namesOutside,
      @mem_namesOutside word bound right, and_or_left]
  | .compare first _ others | .call callee args => by
    rw [namesOutside, namesOutside, mem_append, mem_append, mem_namesOutside,
      mem_namesOutsideArgs, and_or_left]
  | .binder parameter body => by
    rw [namesOutside, namesOutside, mem_namesOutside, @mem_namesOutside word [parameter] body]
    simp only [mem_cons, not_or, not_mem_nil, not_false_eq_true, and_true]
    exact ⟨fun ⟨⟨other, outside⟩, member⟩ => ⟨outside, other, member⟩,
      fun ⟨outside, other, member⟩ => ⟨⟨other, outside⟩, member⟩⟩

theorem mem_namesOutsideArgs {word : String} {bound : List String} :
    ∀ {es : List Expr}, word ∈ namesOutsideArgs bound es ↔ word ∉ bound ∧ word ∈ namesOutsideArgs [] es
  | [] => by simp [namesOutsideArgs]
  | e :: es => by
    rw [namesOutsideArgs, namesOutsideArgs, mem_append, mem_append, mem_namesOutside,
      mem_namesOutsideArgs, and_or_left]

end

mutual

/-- The expression with its names permuted, those of its binders included. -/
def rename (π : Equiv.Perm String) : Expr → Expr
  | .number value => .number value
  | .name word => .name (π word)
  | .negate operand => .negate (operand.rename π)
  | .not operand => .not (operand.rename π)
  | .arithmetic operation left right => .arithmetic operation (left.rename π) (right.rename π)
  | .and left right => .and (left.rename π) (right.rename π)
  | .or left right => .or (left.rename π) (right.rename π)
  | .compare first relations others => .compare (first.rename π) relations (renameArgs π others)
  | .call callee args => .call (callee.rename π) (renameArgs π args)
  | .binder parameter body => .binder (π parameter) (body.rename π)

/-- Several expressions with their names permuted. -/
def renameArgs (π : Equiv.Perm String) : List Expr → List Expr
  | [] => []
  | e :: es => e.rename π :: renameArgs π es

end

theorem renameArgs_eq_map (π : Equiv.Perm String) (es : List Expr) :
    renameArgs π es = es.map (rename π) := by
  induction es with
  | nil => rfl
  | cons e es ih => rw [renameArgs, ih, map_cons]

mutual

@[simp] theorem rename_refl : ∀ e : Expr, e.rename (Equiv.refl String) = e
  | .number _ | .name _ => rfl
  | .negate operand | .not operand => by rw [rename, rename_refl]
  | .arithmetic _ left right | .and left right | .or left right => by
    rw [rename, rename_refl, rename_refl]
  | .compare first _ others | .call callee args => by rw [rename, rename_refl, renameArgs_refl]
  | .binder parameter body => by rw [rename, rename_refl, Equiv.refl_apply]

@[simp] theorem renameArgs_refl : ∀ es : List Expr, renameArgs (Equiv.refl String) es = es
  | [] => rfl
  | e :: es => by rw [renameArgs, rename_refl, renameArgs_refl]

end

end Program.Expr

/-! ## Outcomes -/

/-- Two outcomes with related values, or the same failure. -/
inductive Paired {α : Type} (R : α → α → Prop) : Except Fault α → Except Fault α → Prop where
  | ok {first second : α} (related : R first second) : Paired R (.ok first) (.ok second)
  | error (fault : Fault) : Paired R (.error fault) (.error fault)

namespace Paired

variable {α β : Type} {R : α → α → Prop} {S : β → β → Prop}

theorem refl (reflexive : ∀ value, R value value) (outcome : Except Fault α) :
    Paired R outcome outcome := by
  cases outcome with
  | ok value => exact .ok (reflexive value)
  | error fault => exact .error fault

theorem eq {first second : Except Fault α} (paired : Paired Eq first second) : first = second := by
  cases paired with
  | ok same => rw [same]
  | error => rfl

theorem bind {first second : Except Fault α} (paired : Paired R first second)
    {next other : α → Except Fault β}
    (more : ∀ a b, R a b → Paired S (next a) (other b)) :
    Paired S (first >>= next) (second >>= other) := by
  cases paired with
  | ok related => exact more _ _ related
  | error fault => exact .error fault

end Paired

/-! ## Like values -/

/-- Values that no evaluation tells apart: equal ones, and closures of one binder whose scopes hold
like values under the names that the body looks up. -/
inductive Value.Like : Value → Value → Prop where
  | refl (value : Value) : Like value value
  | closure {birth : Moment} {parameter : String} {body : Expr} {helpers scope scope' : Scope}
      (agree : ∀ name ∈ body.namesOutside [parameter],
        Option.Rel Like (scope.lookup name) (scope'.lookup name)) :
      Like (.function (.closure birth parameter body helpers scope))
        (.function (.closure birth parameter body helpers scope'))

namespace Scope

/-- Scopes with like values under the given names, and the same of these names. -/
def Agree (names : String → Prop) (scope scope' : Scope) : Prop :=
  ∀ name, names name → Option.Rel Value.Like (scope.lookup name) (scope'.lookup name)

/-- Scopes with related values under the given names, which are permuted in the second one. A name
that the scopes do not hold stays as it is, since it is looked up elsewhere. -/
def Matches (R : Value → Value → Prop) (π : Equiv.Perm String) (names : String → Prop)
    (scope scope' : Scope) : Prop :=
  ∀ name, names name → Option.Rel R (scope.lookup name) (scope'.lookup (π name)) ∧
    (scope.lookup name = none → π name = name)

/-- A scope whose values are related to themselves. -/
def Stands (R : Value → Value → Prop) (scope : Scope) : Prop :=
  scope.Matches R (Equiv.refl String) (fun _ => True) scope

end Scope

/-- Values that hold no other values. -/
def Value.isBasic : Value → Bool
  | .function (.closure ..) | .function (.formula ..) | .function (.derivative ..) => false
  | _ => true

/-- Values that the language itself makes. -/
def Value.isBuiltin : Value → Bool
  | .function (.primitive _) => true
  | .function _ => false
  | _ => true

theorem Value.isBasic_of_isBuiltin {value : Value} (isBuiltin : value.isBuiltin = true) :
    value.isBasic = true := by
  cases value with
  | function g =>
    cases g with
    | primitive => rfl
    | _ => cases isBuiltin
  | _ => rfl

/-- Whether a relation takes the integrals with a given interval count. -/
def Counts (R : Value → Value → Prop) (intervals : Nat) : Prop :=
  R (.function (.integral intervals)) (.function (.integral intervals))

/-- A permutation of names that makes related closures: of a binder and of the permuted one, over
scopes that match on what the body looks up. The map takes the birth of the first closure to that of
the second one. -/
def Closes (f : Moment → Moment) (R : Value → Value → Prop) (π : Equiv.Perm String) : Prop :=
  ∀ {birth : Moment} {parameter : String} {body : Expr} {helpers scope scope' : Scope},
    helpers.Stands R → scope.Matches R π (· ∈ body.namesOutside [parameter]) scope' →
    R (.function (.closure birth parameter body helpers scope))
      (.function (.closure (f birth) (π parameter) (body.rename π) helpers scope'))

/-- How two values can be related. -/
inductive Likeness.Case (f : Moment → Moment) (R : Value → Value → Prop) : Value → Value → Prop where
  | basic {value : Value} (isBasic : value.isBasic = true) : Case f R value value
  | closure {π : Equiv.Perm String} (closes : Closes f R π) {birth : Moment} {parameter : String}
      {body : Expr} {helpers scope scope' : Scope} (helped : helpers.Stands R)
      (agree : scope.Matches R π (· ∈ body.namesOutside [parameter]) scope') :
      Case f R (.function (.closure birth parameter body helpers scope))
        (.function (.closure (f birth) (π parameter) (body.rename π) helpers scope'))
  | formula {routine : Option Routine} {intervals : Nat} {time time' : Value}
      (counted : Counts R intervals) (like : R time time') :
      Case f R (.function (.formula routine intervals time))
        (.function (.formula routine intervals time'))
  | derivative {function function' : Function} {step : Number}
      (like : R (.function function) (.function function')) :
      Case f R (.function (.derivative function step)) (.function (.derivative function' step))

/-- Relations between values that evaluations keep, where the births of closures are mapped. -/
class Likeness (f : outParam (Moment → Moment)) (R : Value → Value → Prop) : Prop where
  injective : Function.Injective f
  basic : ∀ {value : Value}, value.isBuiltin = true → R value value
  closes : Closes f R (Equiv.refl String)
  inversion : ∀ {a b : Value}, R a b → Likeness.Case f R a b

namespace Scope

variable {R : Value → Value → Prop} {π : Equiv.Perm String} {names : String → Prop}
  {scope scope' : Scope}

theorem matches_refl (reflexive : ∀ value, R value value) (scope : Scope) :
    scope.Matches R (Equiv.refl String) names scope := by
  intro name _
  refine ⟨?_, fun _ => rfl⟩
  rw [Equiv.refl_apply]
  cases scope.lookup name with
  | none => exact .none
  | some value => exact .some (reflexive value)

theorem Matches.mono {fewer : String → Prop} (weaker : ∀ name, fewer name → names name)
    (agree : scope.Matches R π names scope') : scope.Matches R π fewer scope' :=
  fun name named => agree name (weaker name named)

/-- Related values under one more name, which may hide what the scopes hold. -/
theorem Matches.cons {word : String} {value value' : Value} (like : R value value')
    (agree : scope.Matches R π (fun name => names name ∧ name ≠ word) scope') :
    Matches R π names ((word, value) :: scope) ((π word, value') :: scope') := by
  intro name named
  by_cases same : name = word
  · subst same
    simpa using Option.Rel.some like
  · have other : (name == word) = false := by simpa using same
    have apart : (π name == π word) = false := by simpa using same
    rw [lookup_cons, lookup_cons, other, apart]
    exact agree name ⟨named, same⟩

theorem matches_nil : Matches R (Equiv.refl String) names [] [] := fun _ _ => ⟨.none, fun _ => rfl⟩

/-- Scopes with the same names in the same places, and related values under them. -/
theorem matches_of_forall₂
    (all : Forall₂ (fun entry entry' => entry.1 = entry'.1 ∧ R entry.2 entry'.2) scope scope') :
    scope.Matches R (Equiv.refl String) names scope' := by
  induction all generalizing names with
  | nil => exact matches_nil
  | @cons entry entry' _ _ both _ ih =>
    obtain ⟨word', value'⟩ := entry'
    obtain ⟨same, like⟩ := both
    subst same
    exact .cons like ih

theorem agree_of_lookup_eq (same : ∀ name, names name → scope.lookup name = scope'.lookup name) :
    scope.Agree names scope' := by
  intro name named
  rw [same name named]
  cases scope'.lookup name with
  | none => exact .none
  | some value => exact .some (.refl value)

theorem Agree.matches (agree : scope.Agree names scope') :
    scope.Matches Value.Like (Equiv.refl String) names scope' :=
  fun name named => ⟨agree name named, fun _ => rfl⟩

end Scope

/-- Every value is related to itself by a reflexive relation that makes related closures. -/
theorem Likeness.Case.refl {R : Value → Value → Prop} (reflexive : ∀ value, R value value)
    (closes : Closes id R (Equiv.refl String)) (value : Value) : Case id R value value := by
  cases value with
  | function function =>
    cases function with
    | closure birth parameter body helpers scope =>
      have case := @closure id R _ closes birth parameter body helpers scope scope
        (Scope.matches_refl reflexive helpers) (Scope.matches_refl reflexive scope)
      rwa [Expr.rename_refl] at case
    | formula routine intervals time => exact .formula (reflexive _) (reflexive time)
    | derivative function step => exact .derivative (reflexive _)
    | _ => exact .basic rfl
  | _ => exact .basic rfl

theorem Value.closes_like : Closes id Value.Like (Equiv.refl String) := by
  intro birth parameter body helpers scope scope' _ agree
  rw [Expr.rename_refl]
  exact .closure fun name member => (agree name member).1

/-- Likeness is such a relation; it permutes no names and moves no births. -/
instance Value.likeness_like : Likeness id Value.Like where
  injective := Function.injective_id
  basic _ := .refl _
  closes := Value.closes_like
  inversion like := by
    cases like with
    | refl => exact .refl .refl Value.closes_like _
    | @closure birth parameter body helpers scope scope' agree =>
      have case := @Likeness.Case.closure _ _ _ closes_like birth parameter body helpers scope scope'
        (Scope.matches_refl .refl helpers) fun name member => ⟨agree name member, fun _ => rfl⟩
      rwa [Expr.rename_refl] at case

/-! ## Operations on values -/

/-- What functions are told apart by. -/
inductive Function.Kind where
  | primitive (primitive : Primitive)
  | lambda (label : String)
  | closure (birth : Moment)
  | quadrature | integral | formula | derivative

/-- The kind of a function, where births are mapped. -/
def Function.kind (f : Moment → Moment) : Function → Function.Kind
  | .primitive p => .primitive p
  | .lambda label _ _ => .lambda label
  | .closure birth _ _ _ _ => .closure (f birth)
  | .quadrature => .quadrature
  | .integral _ => .integral
  | .formula _ _ _ => .formula
  | .derivative _ _ => .derivative

theorem Function.same_iff {f : Moment → Moment} (injective : Function.Injective f) (g h : Function) :
    g.same h = true ↔ g.kind f = h.kind f := by
  cases g <;> cases h <;> simp [same, kind, injective.eq_iff]

/-- Values that operations do not tell apart: equal ones, and functions of one kind. -/
inductive Value.Twin (f : Moment → Moment) : Value → Value → Prop where
  | number (a : Number) : Twin f (.number a) (.number a)
  | text (s : String) : Twin f (.text s) (.text s)
  | absent : Twin f .absent .absent
  | function {g h : Function} (kinds : g.kind f = h.kind id) : Twin f (.function g) (.function h)

namespace Value

variable {f : Moment → Moment} {a a' b b' : Value}

theorem Twin.truth (like : a.Twin f a') : a.truth = a'.truth := by
  cases like <;> rfl

theorem Twin.double (like : a.Twin f a') : a.double = a'.double := by
  cases like <;> rfl

theorem Twin.negate (like : a.Twin f a') : a.negate = a'.negate := by
  cases like <;> rfl

theorem Twin.onNumbers (operation : Number → Number → Except Fault Number) (first : a.Twin f a')
    (second : b.Twin f b') : Value.onNumbers operation a b = Value.onNumbers operation a' b' := by
  cases first <;> cases second <;> rfl

theorem Twin.arithmetic (operation : Arithmetic) (first : a.Twin f a') (second : b.Twin f b') :
    operation.apply a b = operation.apply a' b' := by
  cases operation <;> cases first <;> cases second <;> rfl

/-- Different moments stay different, so the same closures are told apart. -/
theorem Twin.equal (injective : Function.Injective f) (first : a.Twin f a') (second : b.Twin f b') :
    a.equal b = a'.equal b' := by
  cases first with
  | function kinds =>
    cases second with
    | function kinds' =>
      refine Bool.eq_iff_iff.mpr ((Function.same_iff injective _ _).trans ?_)
      rw [kinds, kinds']
      exact (Function.same_iff Function.injective_id _ _).symm
    | _ => rfl
  | _ => cases second <;> rfl

theorem Twin.relates (injective : Function.Injective f) (relation : Relation) (first : a.Twin f a')
    (second : b.Twin f b') : Value.relates relation a b = Value.relates relation a' b' := by
  cases relation with
  | equal => exact congrArg Except.ok (first.equal injective second)
  | notEqual => exact congrArg (fun same => Except.ok !same) (first.equal injective second)
  | _ => cases first <;> cases second <;> rfl

theorem Twin.nthRoot (first : a.Twin f a') (second : b.Twin f b') :
    Value.nthRoot a b = Value.nthRoot a' b' := by
  cases first <;> cases second <;> rfl

end Value

namespace Likeness

variable {f : Moment → Moment} {R : Value → Value → Prop} [likeness : Likeness f R]
  {a a' b b' : Value}

include likeness

theorem twin (like : R a b) : a.Twin f b := by
  cases inversion like with
  | basic isBasic =>
    cases a with
    | function g =>
      cases g with
      | closure | formula | derivative => cases isBasic
      | _ => exact .function rfl
    | number | text | absent => constructor
  | closure | formula | derivative => exact .function rfl

/-- Equal outcomes are paired if they are numbers or texts. -/
theorem paired {first second : Except Fault Value} (same : first = second)
    (plain : ∀ value, second = .ok value → value.IsPlain) : Paired R first second := by
  subst same
  cases first with
  | error fault => exact .error fault
  | ok value => rcases plain value rfl with ⟨_, rfl⟩ | ⟨_, rfl⟩ <;> exact .ok (basic rfl)

theorem onNumbers (operation : Number → Number → Except Fault Number) (first : R a a')
    (second : R b b') :
    Paired R (Value.onNumbers operation a b) (Value.onNumbers operation a' b') :=
  paired ((twin first).onNumbers operation (twin second)) fun _ => Value.isPlain_onNumbers

theorem arithmetic (operation : Arithmetic) (first : R a a') (second : R b b') :
    Paired R (operation.apply a b) (operation.apply a' b') :=
  paired ((twin first).arithmetic operation (twin second)) fun _ => Value.isPlain_arithmetic

theorem relates (relation : Relation) (first : R a a') (second : R b b') :
    Value.relates relation a b = Value.relates relation a' b' :=
  (twin first).relates (injective R) relation (twin second)

theorem truth (like : R a a') : a.truth = a'.truth := (twin like).truth

theorem bool (holds : Bool) : Paired R (.ok (.bool holds)) (.ok (.bool holds)) := .ok (basic rfl)

theorem extremeOf (relation : Relation) {rest rest' : List Value} (all : Forall₂ R rest rest')
    (like : R a a') :
    Paired R (Value.extremeOf relation a rest) (Value.extremeOf relation a' rest') := by
  induction all generalizing a a' with
  | nil => exact .ok like
  | cons first _ ih =>
    unfold Value.extremeOf
    rw [relates relation first like]
    refine (Paired.refl (fun _ => rfl) _).bind fun holds holds' same => ?_
    subst same
    cases holds with
    | true => exact ih first
    | false => exact ih like

theorem extreme (relation : Relation) {args args' : List Value} (all : Forall₂ R args args') :
    Paired R (Value.extreme relation args) (Value.extreme relation args') := by
  cases all with
  | nil => exact .error _
  | cons first more =>
    cases more with
    | nil =>
      cases twin first with
      | text s =>
        simp only [Value.extreme]
        cases s.toList with
        | nil => exact .error _
        | cons c chars =>
          refine extremeOf relation (forall₂_same.mpr fun value member => ?_) (basic rfl)
          obtain ⟨c, -, rfl⟩ := mem_map.mp member
          exact basic rfl
      | _ => exact .error _
    | cons second more =>
      simp only [Value.extreme]
      exact extremeOf relation (.cons second more) first

end Likeness

namespace Primitive

variable {f : Moment → Moment} {args args' : List Value}

theorem unary_congr (function : Number → Except Fault Number)
    (all : Forall₂ (Value.Twin f) args args') : unary function args = unary function args' := by
  cases all with
  | nil => rfl
  | cons first more =>
    cases more with
    | nil => cases first <;> rfl
    | cons => simp only [unary]

theorem logarithm_congr (all : Forall₂ (Value.Twin f) args args') :
    logarithm args = logarithm args' := by
  match all with
  | .nil => rfl
  | .cons first .nil => cases first <;> rfl
  | .cons first (.cons second .nil) => cases first <;> cases second <;> rfl
  | .cons _ (.cons _ (.cons _ _)) => simp only [logarithm, unary]

/-- A builtin function of related arguments. -/
theorem paired_apply {R : Value → Value → Prop} [Likeness f R] (p : Primitive)
    (all : Forall₂ R args args') : Paired R (p.apply args) (p.apply args') := by
  have twins : Forall₂ (Value.Twin f) args args' := all.imp fun _ _ => Likeness.twin
  cases p with
  | log => exact Likeness.paired (logarithm_congr twins) fun _ => isPlain_logarithm
  | min => exact Likeness.extreme .less all
  | max => exact Likeness.extreme .greater all
  | nthRoot =>
    match twins with
    | .nil => exact .error _
    | .cons _ .nil => exact .error _
    | .cons first (.cons second .nil) =>
      exact Likeness.paired (first.nthRoot second) fun _ => Value.isPlain_nthRoot
    | .cons _ (.cons _ (.cons _ _)) => exact .error _
  | _ => exact Likeness.paired (unary_congr _ twins) fun _ => isPlain_unary

end Primitive

end Grapher
