import Grapher.Proofs.Tree.Parts
import Grapher.Tree.Free

/-!
# Places in a tree

A place is the way from a tree to one of its parts: the numbers of the arguments to go into, from the
outside in. The same symbol can stand at many places, and what an integral over a name makes of an
occurrence depends on its place alone: the places inside of the integrand are bound, and at two more
places, the parameter of the function and the first entry of the limits, the integral names its
variable. All other occurrences are free (`FreeAt`).
-/

set_option autoImplicit false

namespace Grapher.Node

/-- The part of a tree at a place. -/
def at? (node : Node) : List Nat → Option Node
  | [] => some node
  | index :: place => node.args[index]?.bind fun arg => arg.at? place

/-- The way to a part of a part. -/
theorem at?_append (node : Node) (outer inner : List Nat) :
    node.at? (outer ++ inner) = (node.at? outer).bind fun part => part.at? inner := by
  induction outer generalizing node with
  | nil => rfl
  | cons index outer ih =>
    rw [List.cons_append, at?, at?]
    cases node.args[index]? with
    | none => rfl
    | some arg => exact ih arg

theorem at?_cons_eq_some {node part : Node} {index : Nat} {place : List Nat} :
    node.at? (index :: place) = some part
      ↔ ∃ arg, node.args[index]? = some arg ∧ arg.at? place = some part := by
  rw [at?, Option.bind_eq_some_iff]

theorem sub_of_at? {node part : Node} {place : List Nat} (found : node.at? place = some part) :
    Sub part node := by
  induction place generalizing node with
  | nil =>
    cases found
    exact .refl part
  | cons index place ih =>
    obtain ⟨arg, within, deeper⟩ := at?_cons_eq_some.mp found
    exact (ih deeper).trans (.inr (within_args (List.mem_of_getElem? within)))

/-! ## Occurrences -/

/-- A symbol that occurs in a tree, at whatever place. -/
def HasSymbol (name : String) (node : Node) : Prop :=
  ∃ place, node.at? place = some (.symbol name)

theorem not_hasSymbol_number (name : String) (value : Float) : ¬ (number value).HasSymbol name := by
  rintro ⟨_ | ⟨index, place⟩, found⟩
  · cases found
  · cases found

theorem hasSymbol_symbol {name other : String} : (symbol other).HasSymbol name ↔ name = other := by
  constructor
  · rintro ⟨_ | ⟨index, place⟩, found⟩
    · cases found
      rfl
    · cases found
  · rintro rfl
    exact ⟨[], rfl⟩

theorem hasSymbol_op {name : String} {head : Head} {args : List Node} :
    (op head args).HasSymbol name ↔ ∃ arg ∈ args, arg.HasSymbol name := by
  constructor
  · rintro ⟨_ | ⟨index, place⟩, found⟩
    · cases found
    · obtain ⟨arg, within, deeper⟩ := at?_cons_eq_some.mp found
      exact ⟨arg, List.mem_of_getElem? within, place, deeper⟩
  · rintro ⟨arg, member, place, found⟩
    obtain ⟨index, within⟩ := List.getElem?_of_mem member
    exact ⟨index :: place, at?_cons_eq_some.mpr ⟨arg, within, found⟩⟩

/-! ## What integrals bind -/

/-- The place of an integral over a variable. -/
def IntegralAt (name : String) (node : Node) (place : List Nat) : Prop :=
  ∃ args, node.at? place = some (.of .integrate args) ∧ integrationVariable args = name

/-- A place inside of the integrand of an integral over a variable: the integrand is the body of the
function that the integral has for its first argument. -/
def BoundAt (name : String) (node : Node) (place : List Nat) : Prop :=
  ∃ outer inner, place = outer ++ 0 :: 0 :: inner ∧ node.IntegralAt name outer

/-- A place where an integral names its variable: the parameter of its function, or the first entry
of its limits. -/
def NamedAt (node : Node) (place : List Nat) : Prop :=
  ∃ name outer, node.IntegralAt name outer ∧ (place = outer ++ [0, 1] ∨ place = outer ++ [1, 0])

/-- A place where a symbol occurs freely: neither inside of the integrand of an integral over it nor
where an integral names its variable. -/
structure FreeAt (name : String) (node : Node) (place : List Nat) : Prop where
  occurs : node.at? place = some (.symbol name)
  unbound : ¬ node.BoundAt name place
  unnamed : ¬ node.NamedAt place

end Grapher.Node
