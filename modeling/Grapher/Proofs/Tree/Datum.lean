import Grapher.Proofs.Decimal.Written
import Grapher.Proofs.Double.Nearest
import Grapher.Proofs.Tree.Parts
import Grapher.Tree.Datum
import Mathlib.Data.List.Forall2

/-!
# Trees read back from their data

A whole double is given out as an integer, and the double nearest to that integer is the double
itself, but for the sign of a zero. So the datum of a tree is taken for a tree again, the one with
every negative zero replaced by zero, and the two trees have the same datum. Without undefined
numbers the two are equal (`ofDatum_toDatum`).
-/

set_option autoImplicit false

namespace Grapher

namespace Double

open Float.Model (UnpackedFloat)

variable {x : Float}

/-- A number without the sign of a zero. -/
def plainZero (x : Float) : Float := if x == 0 then 0 else x

theorem plainZero_of_zero (zero : magnitudeBits x = 0) : plainZero x = 0 :=
  if_pos ((beq_zero_iff x).mpr zero)

theorem plainZero_of_ne (nonzero : magnitudeBits x ≠ 0) : plainZero x = x :=
  if_neg fun zero => nonzero ((beq_zero_iff x).mp zero)

/-- A defined number is equal to itself without the sign of a zero. -/
theorem plainZero_beq (defined : x.isNaN = false) : (plainZero x == x) = true := by
  have bound : ¬infinityBits < magnitudeBits x := fun large => by
    rw [(isNaN_iff x).mpr large] at defined
    cases defined
  have positive : 0 < infinityBits := by decide
  rw [beq_iff_compare]
  obtain ⟨size, -⟩ | ⟨size, shape⟩ | ⟨zero, shape⟩ | ⟨nonzero, -, m, e, _, shape⟩ :=
    unpack_cases x
  · exact absurd size bound
  · rw [plainZero_of_ne (by omega), shape]
    cases modelSign x <;> rfl
  · rw [plainZero_of_zero zero, shape, unpack_zero]
    rfl
  · rw [plainZero_of_ne (by omega), shape]
    have same : (compare e e).then (compare m m) = .eq := by
      rw [Std.compare_self, Std.compare_self]
      rfl
    cases modelSign x with
    | negative => exact congrArg (fun order => some order.swap) same
    | positive => exact congrArg some same

/-- The units of a whole double, as ones and by its magnitude. -/
theorem units_of_toInt? {whole : Int} (found : toInt? x = some whole) :
    isFinite x = true ∧ whole * unitsPerOne =
      if isNegative x then -(unitsOfBits (magnitudeBits x) : Int)
      else unitsOfBits (magnitudeBits x) := by
  obtain ⟨size, units, divides, rfl⟩ := Decimal.whole_of_divides found
  rw [Int.ediv_mul_cancel divides]
  unfold units? at units
  split at units
  · next finite => exact ⟨finite, (Option.some.inj units).symm⟩
  · cases units

/-- The double nearest to the integer of a whole double. -/
theorem ofInt_of_toInt? {whole : Int} (found : toInt? x = some whole) :
    ofInt whole = plainZero x := by
  obtain ⟨finite, units⟩ := units_of_toInt? found
  have bound : magnitudeBits x < infinityBits := by simpa [isFinite] using finite
  have magnitude : magnitudeBits (ofInt whole) = magnitudeBits x := by
    have size : whole.natAbs * unitsPerOne = unitsOfBits (magnitudeBits x) := by
      rw [← Int.natAbs_natCast unitsPerOne, ← Int.natAbs_mul, units]
      split <;> simp
    rw [magnitudeBits_ofInt, size, nearestBits_unitsOfBits bound]
  have sign : isNegative (ofInt whole) = decide (whole * unitsPerOne < 0) := by
    have iff : ∀ one : Int, 0 < one → (whole * one < 0 ↔ whole < 0) := by
      intro one positive
      simpa using Int.mul_lt_mul_right (b := whole) (c := 0) positive
    rw [decide_eq_decide.mpr (iff unitsPerOne (by decide +kernel))]
    exact isNegative_ofMagnitudeBits _ (Nat.min_le_right _ _)
  rw [units] at sign
  by_cases zero : magnitudeBits x = 0
  · rw [plainZero_of_zero zero]
    have nothing : unitsOfBits 0 = 0 := rfl
    rw [zero, nothing, Int.natCast_zero, Int.neg_zero, ite_self] at sign
    exact eq_of_bits sign (magnitude.trans zero)
  · rw [plainZero_of_ne zero]
    refine eq_of_bits (sign.trans ?_) magnitude
    have positive := Decimal.unitsOfBits_pos (Nat.pos_of_ne_zero zero)
    cases isNegative x with
    | true =>
      rw [if_pos rfl]
      exact decide_eq_true (by omega)
    | false =>
      rw [if_neg Bool.false_ne_true]
      exact decide_eq_false (by omega)

/-- A whole double is taken back from its integer. -/
theorem doubleOfInt_of_toInt? {whole : Int} (found : toInt? x = some whole) :
    Decimal.doubleOfInt whole = .ok (plainZero x) := by
  have same := ofInt_of_toInt? found
  have finite : isFinite (plainZero x) = true := by
    unfold plainZero
    split
    · decide
    · exact (units_of_toInt? found).1
  rw [Decimal.doubleOfInt, same, if_pos finite]

/-- Both zeros are the whole number zero. -/
theorem toInt?_of_zero (zero : magnitudeBits x = 0) : toInt? x = some 0 := by
  have finite : isFinite x = true := by
    rw [isFinite, zero]
    decide
  have nothing : unitsOfBits 0 = 0 := rfl
  have units : units? x = some 0 := by
    rw [units?, if_pos finite, zero, nothing]
    simp
  rw [toInt?, units, Option.bind_eq_bind, Option.bind_some, if_pos (Int.zero_emod _), Int.zero_ediv]

theorem toInt?_plainZero (x : Float) : toInt? (plainZero x) = toInt? x := by
  by_cases zero : magnitudeBits x = 0
  · rw [plainZero_of_zero zero, toInt?_of_zero zero]
    exact toInt?_of_zero ((beq_zero_iff 0).mp (by decide))
  · rw [plainZero_of_ne zero]

theorem plainZero_of_fraction (fraction : toInt? x = none) : plainZero x = x :=
  plainZero_of_ne fun zero => by
    rw [toInt?_of_zero zero] at fraction
    cases fraction

end Double

namespace Node

/-- Equal trees: the same shape, with the same names and equal numbers. An undefined number equals
no number, and the two zeros equal each other. -/
inductive Equal : Node → Node → Prop where
  | number {x y : Float} (equal : (x == y) = true) : Equal (.number x) (.number y)
  | symbol (name : String) : Equal (.symbol name) (.symbol name)
  | op (head : Head) {args others : List Node} (each : List.Forall₂ Equal args others) :
    Equal (.op head args) (.op head others)

/-- Whether a tree is not an undefined number. -/
def isDefined : Node → Bool
  | .number x => !x.isNaN
  | _ => true

mutual

/-- A tree without the signs of its zeros. -/
def plainZeros : Node → Node
  | .number x => .number (Double.plainZero x)
  | .symbol name => .symbol name
  | .op head args => .op head (plainZerosArgs args)

/-- Argument trees without the signs of their zeros. -/
def plainZerosArgs : List Node → List Node
  | [] => []
  | node :: nodes => plainZeros node :: plainZerosArgs nodes

end

theorem ofInt_of_doubleOfInt {n : Int} {x : Float} (taken : Decimal.doubleOfInt n = .ok x) :
    ofInt n = .ok (.number x) := by
  -- Unfolded with its argument, the conversion would be run on it.
  have shape : ofInt = fun n => ((Decimal.doubleOfInt n).map number).mapError .number := by
    delta ofInt
    funext n
    cases Decimal.doubleOfInt n <;> rfl
  rw [shape]
  beta_reduce
  rw [taken]
  rfl

mutual

/-- The datum of a tree is taken for the tree without the signs of its zeros. -/
theorem ofDatum_toDatum : ∀ node : Node, ofDatum node.toDatum = .ok node.plainZeros
  | .number x => by
    rw [toDatum, plainZeros]
    split
    · next whole found =>
      rw [ofDatum, ofInt_of_doubleOfInt (Double.doubleOfInt_of_toInt? found)]
    · next fraction => rw [ofDatum, Double.plainZero_of_fraction fraction]
  | .symbol name => rfl
  | .op head args => by
    rw [toDatum, ofDatum, ofData_toData args, Head.ofName_name, plainZeros]
    rfl

theorem ofData_toData : ∀ nodes : List Node, ofData (toData nodes) = .ok (plainZerosArgs nodes)
  | [] => rfl
  | node :: nodes => by
    rw [toData, ofData, ofDatum_toDatum node, ofData_toData nodes, plainZerosArgs]
    rfl

end

mutual

/-- The sign of a zero is not given out. -/
theorem toDatum_plainZeros : ∀ node : Node, node.plainZeros.toDatum = node.toDatum
  | .number x => by
    rw [plainZeros, toDatum, toDatum, Double.toInt?_plainZero]
    split
    · rfl
    · next fraction => rw [Double.plainZero_of_fraction fraction]
  | .symbol name => rfl
  | .op head args => by rw [plainZeros, toDatum, toDatum, toData_plainZerosArgs args]

theorem toData_plainZerosArgs : ∀ nodes : List Node, toData (plainZerosArgs nodes) = toData nodes
  | [] => rfl
  | node :: nodes => by
    rw [plainZerosArgs, toData, toData, toDatum_plainZeros node, toData_plainZerosArgs nodes]

end

mutual

theorem plainZeros_equal : ∀ {node : Node}, node.all isDefined = true → Equal node.plainZeros node
  | .number x, defined => by
    exact .number (Double.plainZero_beq (by simpa [all, isDefined] using defined))
  | .symbol name, _ => .symbol name
  | .op head args, defined => by exact .op head (plainZerosArgs_equal fun _ => all_arg defined)

theorem plainZerosArgs_equal : ∀ {nodes : List Node}, (∀ node ∈ nodes, node.all isDefined = true) →
    List.Forall₂ Equal (plainZerosArgs nodes) nodes
  | [], _ => .nil
  | node :: nodes, defined => by
    exact .cons (plainZeros_equal (defined node (.head _)))
      (plainZerosArgs_equal fun other member => defined other (.tail _ member))

end

end Node

end Grapher
