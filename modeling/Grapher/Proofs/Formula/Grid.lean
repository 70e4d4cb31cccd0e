import Grapher.Proofs.Evaluation.Dependence
import Grapher.Proofs.Formula.Region

/-!
# Masks cell by cell

A cell of a mask is asked in a scope that holds its two coordinates before anything else, and no
evaluation tells scopes apart that hold the same values. So a cell depends on its own coordinates,
on the groups, and on the scope outside of `x` and `y`. One scope may be written over from cell to
cell, in whichever order the cells are visited (`sweep_congr`).

The groups count as a set of sets of valid formulas: `Rearranged` collects what leaves these alone.
-/

set_option autoImplicit false

namespace Grapher.Formula

open List

variable {settings : Settings} {scope scope' : Scope} {groups groups' : List (List Formula)}

/-! ## The scope of a cell -/

/-- A condition is answered alike in scopes that hold the same values. -/
theorem isSatisfied_congr (same : ∀ name, scope.lookup name = scope'.lookup name)
    (routine : Routine) :
    isSatisfied (answer settings scope routine) = isSatisfied (answer settings scope' routine) := by
  have agree : scope.Agree (fun _ => True) scope' := Scope.agree_of_lookup_eq fun name _ => same name
  unfold answer
  cases routine.native with
  | none =>
    simp only
    rw [Routine.evaluate_congr stable_apply agree (fun _ _ => trivial)]
  | some code =>
    have paired := @Native.Code.matches_eval _ _ _ _ _ _ stable_apply code (fun _ _ => trivial) _ _
      agree.matches _ (Moment.carries_id .start)
    simp only [Native.Code.run, id_eq] at paired ⊢
    generalize code.eval apply scope .start = first, code.eval apply scope' .start = second at paired
    cases paired with
    | ok like => cases Likeness.twin like <;> rfl
    | error => rfl

/-- Scopes that hold the same values outside of the two coordinates. -/
def SameElsewhere (scope scope' : Scope) : Prop :=
  ∀ name, name ≠ "x" → name ≠ "y" → scope.lookup name = scope'.lookup name

theorem lookup_cellScope (elsewhere : SameElsewhere scope scope') (x y : Float) (name : String) :
    (cellScope scope x y).lookup name = (cellScope scope' x y).lookup name := by
  simp only [cellScope, lookup_cons]
  split
  · rfl
  · next first =>
    split
    · rfl
    · next second => exact elsewhere name (by simpa using first) (by simpa using second)

theorem cell_congr (elsewhere : SameElsewhere scope scope') (live : List (List Routine))
    (x y : Float) : cell settings live scope x y = cell settings live scope' x y := by
  simp only [cell, isSatisfied_congr (lookup_cellScope elsewhere x y)]

/-! ## Visits -/

/-- The cells at places that are visited one after another, where each visit writes its coordinates
into the scope that the visit before has left. -/
def sweep (settings : Settings) (live : List (List Routine)) (scope : Scope) :
    List (Float × Float) → List Bool
  | [] => []
  | place :: places =>
    cell settings live scope place.1 place.2 ::
      sweep settings live (cellScope scope place.1 place.2) places

theorem sweep_congr (live : List (List Routine)) (places : List (Float × Float))
    (elsewhere : SameElsewhere scope scope') :
    sweep settings live scope places
      = places.map fun place => cell settings live scope' place.1 place.2 := by
  induction places generalizing scope with
  | nil => rfl
  | cons place places ih =>
    rw [sweep, map_cons, cell_congr elsewhere, ih]
    intro name first second
    have skipped : (name == "x") = false ∧ (name == "y") = false := by simp [first, second]
    simp only [cellScope, lookup_cons, skipped, elsewhere name first second]

/-! ## Rearranged groups -/

/-- Groups that differ in order and repetition, in the order and repetition of the formulas of a
group, in formulas that cannot be run, and in groups of nothing else. -/
inductive Rearranged : List (List Formula) → List (List Formula) → Prop where
  | groups {groups groups' : List (List Formula)} (same : ∀ group, group ∈ groups ↔ group ∈ groups') :
      Rearranged groups groups'
  | formulas (before after : List (List Formula)) {group group' : List Formula}
      (same : ∀ formula, formula ∈ group ↔ formula ∈ group') :
      Rearranged (before ++ group :: after) (before ++ group' :: after)
  | invalid (before after : List (List Formula)) (left right : List Formula) {formula : Formula}
      (invalid : formula.isValid = false) :
      Rearranged (before ++ (left ++ right) :: after) (before ++ (left ++ formula :: right) :: after)
  | empty (before after : List (List Formula)) {group : List Formula}
      (invalid : ∀ formula ∈ group, formula.isValid = false) :
      Rearranged (before ++ after) (before ++ group :: after)
  | symm {groups groups' : List (List Formula)} :
      Rearranged groups groups' → Rearranged groups' groups
  | trans {first second third : List (List Formula)} :
      Rearranged first second → Rearranged second third → Rearranged first third

/-- A group with a valid formula, all valid formulas of which have a property. -/
def Holds (property : Formula → Prop) (group : List Formula) : Prop :=
  (∃ formula ∈ group, formula.isValid = true) ∧
    ∀ formula ∈ group, formula.isValid = true → property formula

theorem holds_congr {property : Formula → Prop} {group group' : List Formula}
    (same : ∀ formula, formula.isValid = true → (formula ∈ group ↔ formula ∈ group')) :
    Holds property group ↔ Holds property group' := by
  refine and_congr (exists_congr fun formula => ?_) (forall_congr' fun formula => ?_)
  · exact and_congr_left (same formula)
  · exact ⟨fun all member valid => all ((same formula valid).mpr member) valid,
      fun all member valid => all ((same formula valid).mp member) valid⟩

theorem exists_holds_of_rearranged (rearranged : Rearranged groups groups')
    (property : Formula → Prop) :
    (∃ group ∈ groups, Holds property group) ↔ ∃ group ∈ groups', Holds property group := by
  have split : ∀ (before after : List (List Formula)) (group : List Formula),
      (∃ other ∈ before ++ group :: after, Holds property other) ↔
        (∃ other ∈ before, Holds property other) ∨ Holds property group ∨
          ∃ other ∈ after, Holds property other := by
    intro before after group
    simp only [mem_append, mem_cons, or_and_right, exists_or, exists_eq_left]
  induction rearranged with
  | groups same => simp only [same]
  | formulas before after same => rw [split, split, holds_congr fun formula _ => same formula]
  | @invalid before after left right unused invalid =>
    have same : ∀ formula : Formula, formula.isValid = true →
        (formula ∈ left ++ right ↔ formula ∈ left ++ unused :: right) := by
      intro formula valid
      have other : formula ≠ unused := by
        rintro rfl
        rw [invalid] at valid
        cases valid
      simp [other]
    rw [split, split, holds_congr same]
  | @empty before after group invalid =>
    have never : ¬Holds property group := by
      rintro ⟨⟨formula, member, valid⟩, -⟩
      rw [invalid formula member] at valid
      cases valid
    rw [split]
    simp only [mem_append, or_and_right, exists_or, never, false_or]
  | symm _ ih => exact ih.symm
  | trans _ _ first second => exact first.trans second

theorem cell_of_rearranged (rearranged : Rearranged groups groups') (x y : Float) :
    cell settings (liveGroups groups) scope x y = cell settings (liveGroups groups') scope x y :=
  Bool.eq_iff_iff.mpr
    (cell_iff.trans ((exists_holds_of_rearranged rearranged _).trans cell_iff.symm))

/-! ## Grids -/

/-- The items at the given indices, in their order; an index beyond the end has no item. -/
def select {α : Type} (indices : List Nat) (items : List α) : List α :=
  indices.filterMap (items[·]?)

theorem select_map {α β : Type} (f : α → β) (indices : List Nat) (items : List α) :
    select indices (items.map f) = (select indices items).map f := by
  simp only [select, getElem?_map, map_filterMap]

section Coordinates

variable {xs : List Value} {places : List Float} (converted : xs.mapM coordinate = .ok places)

include converted

theorem coordinate_getElem? (index : Nat) :
    Option.Rel (fun x place => coordinate x = .ok place) xs[index]? places[index]? := by
  induction xs generalizing places index with
  | nil =>
    cases converted
    exact .none
  | cons x xs ih =>
    rw [mapM_cons] at converted
    obtain ⟨place, first, converted⟩ := ok_of_bind converted
    obtain ⟨more, others, converted⟩ := ok_of_bind converted
    cases converted
    cases index with
    | zero => exact .some first
    | succ index => simpa using ih others index

theorem mapM_select (indices : List Nat) :
    (select indices xs).mapM coordinate = .ok (select indices places) := by
  induction indices with
  | nil => rfl
  | cons index indices ih =>
    have here := coordinate_getElem? converted index
    rw [select, select, filterMap_cons, filterMap_cons]
    generalize xs[index]? = x, places[index]? = place at here
    cases here with
    | none => exact ih
    | some first =>
      rw [mapM_cons, first, ← select, ih]
      rfl

end Coordinates

theorem mask_eq_ok_iff {xs ys : List Value} {rows : List (List Bool)} :
    mask settings groups xs ys scope = .ok rows ↔ ∃ places heights,
      xs.mapM coordinate = .ok places ∧ ys.mapM coordinate = .ok heights ∧
      rows = heights.map fun y => places.map fun x => cell settings (liveGroups groups) scope x y := by
  unfold mask
  constructor
  · intro made
    obtain ⟨places, first, made⟩ := ok_of_bind made
    obtain ⟨heights, second, made⟩ := ok_of_bind made
    exact ⟨places, heights, first, second, (Except.ok.inj made).symm⟩
  · rintro ⟨places, heights, first, second, rfl⟩
    rw [first, second]
    rfl

/-- The cell of a mask is that of its coordinates. -/
theorem cell_of_mask {xs ys : List Value} {rows : List (List Bool)}
    (made : mask settings groups xs ys scope = .ok rows) (r c : Nat) :
    rows[r]?.bind (·[c]?) = ys[r]?.bind fun y => (coordinate y).toOption.bind fun height =>
      xs[c]?.bind fun x => (coordinate x).toOption.map fun place =>
        cell settings (liveGroups groups) scope place height := by
  obtain ⟨places, heights, first, second, rfl⟩ := mask_eq_ok_iff.mp made
  have across := coordinate_getElem? first c
  have along := coordinate_getElem? second r
  rw [getElem?_map]
  generalize ys[r]? = y, heights[r]? = height at along
  cases along with
  | none => rfl
  | some found =>
    rw [Option.map_some, Option.bind_some, Option.bind_some, found, getElem?_map]
    generalize xs[c]? = x, places[c]? = place at across
    cases across with
    | none => rfl
    | some found => simp [found, Except.toOption]

/-- A mask is made cell by cell. A cell is the same in any two masks of the same groups in which it
has the same coordinates, if the scopes hold the same values outside of `x` and `y`. Rearranged groups
have the same mask. Of some of the places and heights, in any order, the mask is that part of the
grid. And cells may be visited in any order with one scope that each visit writes over. -/
theorem mask_cellwise (settings : Settings) (groups : List (List Formula)) (scope : Scope) :
    (∀ {scope' : Scope} {xs ys xs' ys' : List Value} {rows rows' : List (List Bool)}
      {r c r' c' : Nat}, SameElsewhere scope scope' →
      mask settings groups xs ys scope = .ok rows →
      mask settings groups xs' ys' scope' = .ok rows' →
      xs[c]? = xs'[c']? → ys[r]? = ys'[r']? →
      rows[r]?.bind (·[c]?) = rows'[r']?.bind (·[c']?)) ∧
    (∀ {groups' : List (List Formula)}, Rearranged groups groups' → ∀ xs ys : List Value,
      mask settings groups xs ys scope = mask settings groups' xs ys scope) ∧
    (∀ {xs ys : List Value} {rows : List (List Bool)},
      mask settings groups xs ys scope = .ok rows → ∀ columns lines : List Nat,
      mask settings groups (select columns xs) (select lines ys) scope
        = .ok (select lines (rows.map (select columns)))) ∧
    ∀ visits : List (Float × Float), sweep settings (liveGroups groups) scope visits
      = visits.map fun place => cell settings (liveGroups groups) scope place.1 place.2 := by
  refine ⟨?_, ?_, ?_, fun visits => sweep_congr _ visits fun _ _ _ => rfl⟩
  · intro scope' xs ys xs' ys' rows rows' r c r' c' elsewhere made made' across along
    simp only [cell_of_mask made, cell_of_mask made', across, along, cell_congr elsewhere]
  · intro groups' rearranged xs ys
    simp only [mask, cell_of_rearranged rearranged]
  · intro xs ys rows made columns lines
    obtain ⟨places, heights, first, second, rfl⟩ := mask_eq_ok_iff.mp made
    refine mask_eq_ok_iff.mpr ⟨_, _, mapM_select first columns, mapM_select second lines, ?_⟩
    simp only [select_map, map_map, Function.comp_def]

/-- Two arrangements of one condition, two grids that share a point, and one column of a grid. -/
theorem mask_cellwise_point :
    let above := ofText .standard "y > x"
    let broken := ofText .standard "x +"
    let left : List Value := [.float 0, .float 1]
    (∀ xs ys, mask .standard [[above]] xs ys []
      = mask .standard [[broken], [above, broken, above]] xs ys []) ∧
    ∃ rows rows', mask .standard [[above]] left [.float 2] [] = .ok rows ∧
      mask .standard [[above]] [.float 1] [.float 3, .float 2] [("x", .absent)] = .ok rows' ∧
      rows[0]?.bind (·[1]?) = rows'[1]?.bind (·[0]?) ∧
      mask .standard [[above]] [.float 1] [.float 2] [] = .ok [select [1] (rows[0]?.getD [])] := by
  intro above broken left
  obtain ⟨cells, groups, part, -⟩ := mask_cellwise .standard [[above]] []
  have invalid : broken.isValid = false := by decide +kernel
  have arranged : Rearranged [[above]] [[broken], [above, broken, above]] := by
    have empty := @Rearranged.empty [] [[above]] [broken] (by simpa using invalid)
    have twice := @Rearranged.formulas [[broken]] [] [above] [above, above] (by simp)
    exact .trans empty (.trans twice (.invalid [[broken]] [] [above] [above] invalid))
  have elsewhere : SameElsewhere [] [("x", .absent)] := by
    intro name first _
    rw [lookup_cons, beq_eq_false_iff_ne.mpr first]
  have first := @mask_float .standard [] [[above]] [0, 1] [2]
  have second := @mask_float .standard [("x", .absent)] [[above]] [1] [3, 2]
  exact ⟨groups arranged, _, _, first, second, cells elsewhere first second rfl rfl, part first [1] [0]⟩

end Grapher.Formula
