import Grapher.Formula.Mask
import Mathlib.Data.List.Basic

/-!
# Masks and conditions

A mask asks its formulas directly, a condition takes the result of a formula first. The two agree
on every number and on every failure. They differ on an answer that is no number: a result is then
undefined, and so no condition, while the native code of a formula may answer a mask with a text or
a function, which counts as true. `mask_iff_condition` says which cells are set, and that these are
the cells where the conditions hold, wherever no formula answers in that way.
-/

set_option autoImplicit false

namespace Grapher.Formula

open List

variable {settings : Settings} {scope : Scope}

/-- Whether the native code of a formula answers with a text or a function that counts as true. -/
def affirmsOtherwise (scope : Scope) (formula : Formula) : Bool :=
  match formula.native? with
  | some code =>
    match code.run apply scope .start with
    | .number _ => false
    | value => value.truth
  | none => false

/-! ## One formula -/

/-- The answer of a formula is satisfied in the mask when its condition holds, and when its native
code affirms otherwise. -/
theorem isSatisfied_answer {formula : Formula} {routine : Routine}
    (runs : formula.routine? = some routine) :
    isSatisfied (answer settings scope routine)
      = (formula.condition settings scope || formula.affirmsOtherwise scope) := by
  simp only [condition, affirmsOtherwise, evaluateNative, native?, runs, Option.bind_some, answer,
    Routine.evaluateNative]
  cases routine.native with
  | none => rw [isSatisfied, Bool.or_false]
  | some code =>
    simp only
    cases code.run apply scope .start with
    | number a => rw [isSatisfied, resultOf, Bool.or_false]
    -- The result of anything else is undefined, so that only the second disjunct is left.
    | text s | absent | function f => rfl

/-! ## One cell -/

theorem mem_liveGroups_iff {groups : List (List Formula)} {routines : List Routine} :
    routines ∈ liveGroups groups ↔ ∃ group ∈ groups,
      (∃ formula ∈ group, formula.isValid = true) ∧ group.filterMap routine? = routines := by
  simp only [liveGroups, mem_filter, mem_map, Bool.not_eq_true', isEmpty_eq_false_iff]
  constructor
  · rintro ⟨⟨group, member, rfl⟩, some⟩
    obtain ⟨routine, found⟩ := exists_mem_of_ne_nil _ some
    obtain ⟨formula, inside, runs⟩ := mem_filterMap.mp found
    exact ⟨group, member, ⟨formula, inside, Option.isSome_of_eq_some runs⟩, rfl⟩
  · rintro ⟨group, member, ⟨formula, inside, valid⟩, rfl⟩
    obtain ⟨routine, runs⟩ := Option.isSome_iff_exists.mp valid
    exact ⟨⟨group, member, rfl⟩,
      ne_nil_of_mem (mem_filterMap.mpr ⟨formula, inside, runs⟩)⟩

/-- A cell is set when some group has a valid formula, and each valid formula of it holds there or
affirms otherwise. -/
theorem cell_iff {groups : List (List Formula)} {x y : Float} :
    cell settings (liveGroups groups) scope x y = true ↔ ∃ group ∈ groups,
      (∃ formula ∈ group, formula.isValid = true) ∧ ∀ formula ∈ group, formula.isValid = true →
        formula.condition settings (cellScope scope x y) = true ∨
          formula.affirmsOtherwise (cellScope scope x y) = true := by
  have holds : ∀ group : List Formula,
      (group.filterMap routine?).all
          (fun routine => isSatisfied (answer settings (cellScope scope x y) routine)) = true ↔
        ∀ formula ∈ group, formula.isValid = true →
          formula.condition settings (cellScope scope x y) = true ∨
            formula.affirmsOtherwise (cellScope scope x y) = true := by
    intro group
    simp only [all_eq_true, mem_filterMap]
    constructor
    · intro all formula inside valid
      obtain ⟨routine, runs⟩ := Option.isSome_iff_exists.mp valid
      have satisfied := all routine ⟨formula, inside, runs⟩
      rwa [isSatisfied_answer runs, Bool.or_eq_true] at satisfied
    · rintro all routine ⟨formula, inside, runs⟩
      rw [isSatisfied_answer runs, Bool.or_eq_true]
      exact all formula inside (Option.isSome_of_eq_some runs)
  simp only [cell, any_eq_true, mem_liveGroups_iff]
  constructor
  · rintro ⟨_, ⟨group, member, valid, rfl⟩, all⟩
    exact ⟨group, member, valid, (holds group).mp all⟩
  · rintro ⟨group, member, valid, all⟩
    exact ⟨_, ⟨group, member, valid, rfl⟩, (holds group).mpr all⟩

/-! ## The whole mask -/

theorem mapM_coordinate_float (xs : List Float) : (xs.map Value.float).mapM coordinate = .ok xs := by
  induction xs with
  | nil => rfl
  | cons x xs ih => rw [map_cons, mapM_cons, ih]; rfl

/-- On a grid of doubles there always is a mask, with a row for each height and a cell for each
place. -/
theorem mask_float (groups : List (List Formula)) (xs ys : List Float) :
    mask settings groups (xs.map .float) (ys.map .float) scope
      = .ok (ys.map fun y => xs.map fun x => cell settings (liveGroups groups) scope x y) := by
  rw [mask, mapM_coordinate_float, mapM_coordinate_float]
  rfl

/-- The mask of a grid of doubles. A cell is set exactly when some group has a valid formula and
each valid formula of it holds there as a condition, or affirms otherwise. Where no formula affirms
otherwise, it is set exactly when the conditions of some group with a valid formula hold. -/
theorem mask_iff_condition (settings : Settings) (groups : List (List Formula))
    (xs ys : List Float) (scope : Scope) :
    ∃ rows, mask settings groups (xs.map .float) (ys.map .float) scope = .ok rows ∧
      rows.length = ys.length ∧ (∀ row ∈ rows, row.length = xs.length) ∧
      ∀ (r c : Nat) (x y : Float), ys[r]? = some y → xs[c]? = some x →
        (rows[r]?.bind (·[c]?) = some true ↔ ∃ group ∈ groups,
          (∃ formula ∈ group, formula.isValid = true) ∧
            ∀ formula ∈ group, formula.isValid = true →
              formula.condition settings (cellScope scope x y) = true ∨
                formula.affirmsOtherwise (cellScope scope x y) = true) ∧
        ((∀ group ∈ groups, ∀ formula ∈ group,
            formula.affirmsOtherwise (cellScope scope x y) = false) →
          (rows[r]?.bind (·[c]?) = some true ↔ ∃ group ∈ groups,
            (∃ formula ∈ group, formula.isValid = true) ∧
              ∀ formula ∈ group, formula.isValid = true →
                formula.condition settings (cellScope scope x y) = true)) := by
  refine ⟨_, mask_float groups xs ys, by rw [length_map], ?_, ?_⟩
  · intro row member
    obtain ⟨y, _, rfl⟩ := mem_map.mp member
    rw [length_map]
  · intro r c x y height place
    rw [getElem?_map, height, Option.map_some, Option.bind_some, getElem?_map, place,
      Option.map_some, Option.some_inj, cell_iff]
    refine ⟨Iff.rfl, fun numeric => ?_⟩
    constructor
    · rintro ⟨group, member, valid, all⟩
      refine ⟨group, member, valid, fun formula inside runs => ?_⟩
      refine (all formula inside runs).resolve_right ?_
      rw [numeric group member formula inside]
      exact Bool.false_ne_true
    · rintro ⟨group, member, valid, all⟩
      exact ⟨group, member, valid, fun formula inside runs => .inl (all formula inside runs)⟩

/-- A grid of four cells with a group of two conditions, one of which divides by zero on the left,
and a group that has no valid formula. -/
theorem mask_of_two_groups :
    let above := ofText .standard "y > x"
    let right := ofText .standard "\\frac{1}{x} > 0"
    let broken := ofText .standard "x +"
    let groups := [[broken], [above, broken, right]]
    let scope := cellScope [] 1 2
    (∀ group ∈ groups, ∀ formula ∈ group, formula.affirmsOtherwise scope = false) ∧
    ∃ rows, mask .standard groups ([0, 1].map .float) ([0, 2].map .float) [] = .ok rows ∧
      rows[1]?.bind (·[1]?) = some true ∧ above.condition .standard scope = true ∧
      right.condition .standard scope = true := by
  intro above right broken groups scope
  have numeric : ∀ group ∈ groups, ∀ formula ∈ group, formula.affirmsOtherwise scope = false := by
    decide +kernel
  have first : above.condition .standard scope = true := by decide +kernel
  have second : right.condition .standard scope = true := by decide +kernel
  have invalid : broken.isValid = false := by decide +kernel
  obtain ⟨rows, made, _, _, cells⟩ := mask_iff_condition .standard groups [0, 1] [0, 2] []
  refine ⟨numeric, rows, made, ((cells 1 1 1 2 rfl rfl).2 numeric).mpr ?_, first, second⟩
  refine ⟨[above, broken, right], .tail _ (.head _), ⟨above, .head _, by decide +kernel⟩, ?_⟩
  simp only [forall_mem_cons, not_mem_nil, false_implies, implies_true, and_true]
  refine ⟨fun _ => first, fun valid => ?_, fun _ => second⟩
  rw [invalid] at valid
  cases valid

/-- The name of a builtin function as a formula sets its cell, although it is no condition. -/
theorem mask_of_builtin :
    let formula := ofText .standard "\\mathrm{min}"
    mask .standard [[formula]] [.float 0] [.float 0] [] = .ok [[true]] ∧
      formula.isValid = true ∧ formula.condition .standard (cellScope [] 0 0) = false := by
  decide +kernel

end Grapher.Formula
