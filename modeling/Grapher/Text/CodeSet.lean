/-!
# Sets of code points

A set of code points is given by the points where membership changes, in ascending order: the
first is the least member, the second the next point outside, and so on. Tables list the distances
between these points. The character classes of the formula language are such sets together with a
plain rule for the first 128 code points, so that statements about ASCII text never look into a
table.
-/

set_option autoImplicit false

namespace Grapher.Text

/-- A set of code points, as the ascending list of the points where membership changes. -/
structure CodeSet where
  /-- The least member, the next point outside, the next member, and so on. -/
  changes : List Nat

namespace CodeSet

/-- The points at the given distances, each from the one before it. -/
def pointsFrom (point : Nat) : List Nat → List Nat
  | [] => []
  | distance :: distances => (point + distance) :: pointsFrom (point + distance) distances

/-- The set whose changes lie at the given distances, the first one from zero. -/
def ofDistances (distances : List Nat) : CodeSet := ⟨pointsFrom 0 distances⟩

/-- A point belongs to the set when an odd number of changes lie at or below it. -/
def contains (set : CodeSet) (point : Nat) : Bool :=
  (set.changes.takeWhile (· ≤ point)).length % 2 == 1

/-- A point below every change is outside. -/
theorem contains_of_lt_head {point first : Nat} {rest : List Nat} (below : point < first) :
    contains ⟨first :: rest⟩ point = false := by
  simp [contains, Nat.not_le.mpr below]

end CodeSet

/-- A class of characters that follows a rule on ASCII and a table beyond it. -/
def inClass (ascii : Char → Bool) (beyond : CodeSet) (c : Char) : Bool :=
  if c.toNat < 128 then ascii c else beyond.contains c.toNat

/-- On ASCII the class is its rule. -/
theorem inClass_ascii {ascii : Char → Bool} {beyond : CodeSet} {c : Char} (small : c.toNat < 128) :
    inClass ascii beyond c = ascii c := by
  simp [inClass, small]

end Grapher.Text
