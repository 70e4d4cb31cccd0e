import Grapher.Decimal.Shortest
import Grapher.Proofs.Double.Bits

/-!
# Which double a decimal stands for

Rounding looks at the value of a quotient only, so a decimal may be written with more or fewer
zeros at its end without changing the double it stands for. The units of a finite double round to
the double itself. Hence the decimal chosen for a double, the shortest or the exact one, stands for
that double.
-/

set_option autoImplicit false

namespace Grapher

open Double

namespace Double

/-! ## Rounding a quotient -/

/-- Only the value of the quotient matters for rounding to a whole number. -/
theorem roundHalfEven_mul_right {numerator denominator factor : Nat} (positive : 0 < factor) :
    roundHalfEven (numerator * factor) (denominator * factor)
      = roundHalfEven numerator denominator := by
  unfold roundHalfEven
  rw [Nat.mul_div_mul_right _ _ positive, Nat.mul_mod_mul_right]
  have above : denominator * factor < 2 * (numerator % denominator * factor)
      ↔ denominator < 2 * (numerator % denominator) := by
    rw [← Nat.mul_assoc, Nat.mul_lt_mul_right positive]
  have tie : 2 * (numerator % denominator * factor) = denominator * factor
      ↔ 2 * (numerator % denominator) = denominator := by
    rw [← Nat.mul_assoc]
    exact ⟨Nat.eq_of_mul_eq_mul_right positive, fun equal => by rw [equal]⟩
  simp only [Bool.or_eq_true, decide_eq_true_eq, Bool.and_eq_true, beq_iff_eq, above, tie]

/-- A whole quotient rounds to itself. -/
theorem roundHalfEven_mul_self {whole denominator : Nat} (positive : 0 < denominator) :
    roundHalfEven (whole * denominator) denominator = whole := by
  unfold roundHalfEven
  rw [Nat.mul_div_cancel _ positive, Nat.mul_mod_left]
  have notAbove : ¬ denominator < 2 * 0 := by omega
  have noTie : ¬ 2 * 0 = denominator := by omega
  simp only [Bool.or_eq_true, decide_eq_true_eq, Bool.and_eq_true, beq_iff_eq, notAbove, noTie,
    false_and, or_self, if_false]

/-- Only the value of the quotient matters for the nearest double. -/
theorem nearestBits_mul_right {numerator denominator factor : Nat} (positive : 0 < factor) :
    nearestBits (numerator * factor) (denominator * factor)
      = nearestBits numerator denominator := by
  unfold nearestBits
  simp only
  rw [Nat.mul_div_mul_right _ _ positive, Nat.mul_right_comm denominator factor,
    roundHalfEven_mul_right positive]

/-! ## The units of a double round to it -/

theorem log2_of_bounds {n k : Nat} (lower : 2 ^ k ≤ n) (upper : n < 2 ^ (k + 1)) :
    n.log2 = k := by
  have positive : n ≠ 0 := by
    omega
  exact (Nat.log2_eq_iff positive).mpr ⟨lower, upper⟩

/-- Below 2^53 magnitude bits are the units. -/
theorem unitsOfBits_of_lt {bits : Nat} (small : bits < 2 ^ 53) : unitsOfBits bits = bits := by
  have scale : scaleOfBits bits = 0 := by
    unfold scaleOfBits
    omega
  unfold unitsOfBits
  rw [scale]
  simp

/-- From 2^53 on the units have 53 leading bits and zeros after them. -/
theorem unitsOfBits_of_le {bits : Nat} (large : 2 ^ 53 ≤ bits) :
    unitsOfBits bits = (2 ^ 52 + bits % 2 ^ 52) * 2 ^ (bits / 2 ^ 52 - 1) := by
  have scale : scaleOfBits bits = bits / 2 ^ 52 - 1 := rfl
  have leading : bits - (bits / 2 ^ 52 - 1) * 2 ^ 52 = 2 ^ 52 + bits % 2 ^ 52 := by
    rw [Nat.sub_mul]
    omega
  unfold unitsOfBits
  rw [scale, leading]

theorem nearestBits_unitsOfBits {bits : Nat} (finite : bits < infinityBits) :
    nearestBits (unitsOfBits bits) 1 = bits := by
  unfold nearestBits
  simp only [Nat.div_one, Nat.one_mul]
  by_cases small : bits < 2 ^ 53
  · rw [unitsOfBits_of_lt small]
    have scale : bits.log2 - 52 = 0 := by
      by_cases zero : bits = 0
      · subst zero
        rfl
      · have := (Nat.log2_lt zero).mpr small
        omega
    have whole := @roundHalfEven_mul_self bits 1 Nat.one_pos
    rw [Nat.mul_one] at whole
    rw [scale, Nat.pow_zero, whole]
    omega
  · have large : 2 ^ 53 ≤ bits := by omega
    rw [unitsOfBits_of_le large]
    generalize exponent : bits / 2 ^ 52 - 1 = k
    have power := Nat.two_pow_pos k
    have log : ((2 ^ 52 + bits % 2 ^ 52) * 2 ^ k).log2 = 52 + k := by
      apply log2_of_bounds
      · rw [Nat.pow_add]
        exact Nat.mul_le_mul_right _ (Nat.le_add_right _ _)
      · rw [show 52 + k + 1 = 53 + k by omega, Nat.pow_add 2 53]
        exact (Nat.mul_lt_mul_right power).mpr (by omega)
    rw [log, Nat.add_sub_cancel_left, roundHalfEven_mul_self power]
    omega

end Double

namespace Decimal

/-! ## Counting digits -/

theorem digitCount_le_iff {n k : Nat} (positive : 0 < k) : digitCount n ≤ k ↔ n < 10 ^ k :=
  Nat.length_toDigits_le_iff (by decide) positive

theorem toDigits_mul_ten {n : Nat} (positive : 0 < n) :
    Nat.toDigits 10 (n * 10) = Nat.toDigits 10 n ++ ['0'] := by
  have joined := @Nat.toDigits_append_toDigits 10 n 0 (by decide) positive (by decide)
  rw [Nat.toDigits_zero, Nat.add_zero, Nat.mul_comm] at joined
  exact joined.symm

/-- Multiplying by a power of ten appends zeros. -/
theorem toDigits_mul_pow {n : Nat} (positive : 0 < n) (k : Nat) :
    Nat.toDigits 10 (n * 10 ^ k) = Nat.toDigits 10 n ++ List.replicate k '0' := by
  induction k with
  | zero => simp
  | succ k ih =>
    have power : 0 < n * 10 ^ k := Nat.mul_pos positive (Nat.pow_pos (by decide))
    rw [Nat.pow_succ, ← Nat.mul_assoc, toDigits_mul_ten power, ih, List.append_assoc,
      ← List.replicate_succ']

theorem digitCount_mul_pow {n : Nat} (positive : 0 < n) (k : Nat) :
    digitCount (n * 10 ^ k) = digitCount n + k := by
  unfold digitCount
  rw [toDigits_mul_pow positive, List.length_append, List.length_replicate]

/-! ## Zeros at the end of a decimal -/

/-- The two cases of a power of ten in one formula: of the two powers at least one is one. -/
theorem bits_eq (coefficient : Nat) (exponent : Int) :
    bits ⟨coefficient, exponent⟩ =
      if coefficient = 0 ∨ exponent + digitCount coefficient < -outOfRange then 0
      else if outOfRange < exponent + digitCount coefficient then infinityBits
      else nearestBits (coefficient * 10 ^ exponent.toNat * unitsPerOne)
        (10 ^ (-exponent).toNat) := by
  unfold bits
  simp only [Bool.or_eq_true, decide_eq_true_eq]
  split
  · rfl
  · split
    · rfl
    · split
      · next nonneg =>
        have none : (-exponent).toNat = 0 := by omega
        rw [none, Nat.pow_zero]
      · next negative =>
        have none : exponent.toNat = 0 := by omega
        rw [none, Nat.pow_zero, Nat.mul_one]

/-- Zeros at the end of the coefficient can be moved into the power of ten. -/
theorem bits_mul_pow (coefficient k : Nat) (exponent : Int) :
    bits ⟨coefficient * 10 ^ k, exponent⟩ = bits ⟨coefficient, exponent + k⟩ := by
  rw [bits_eq, bits_eq]
  by_cases zero : coefficient = 0
  · simp [zero]
  · have power : 0 < 10 ^ k := Nat.pow_pos (by decide)
    have shifted : ¬ coefficient * 10 ^ k = 0 := by
      rw [Nat.mul_eq_zero]
      omega
    have count := digitCount_mul_pow (Nat.pos_of_ne_zero zero) k
    have size : exponent + (digitCount (coefficient * 10 ^ k) : Int)
        = exponent + k + digitCount coefficient := by
      omega
    simp only [zero, shifted, false_or, size]
    -- both sides are one quotient, up to the common factor `10 ^ common`
    generalize common : (-exponent).toNat - (-(exponent + k)).toNat = extra
    have denominator : (-exponent).toNat = (-(exponent + k)).toNat + extra := by omega
    have numerator : k + exponent.toNat = (exponent + k).toNat + extra := by omega
    have factor : 0 < 10 ^ extra := Nat.pow_pos (by decide)
    have above : coefficient * 10 ^ k * 10 ^ exponent.toNat * unitsPerOne
        = coefficient * 10 ^ (exponent + k).toNat * unitsPerOne * 10 ^ extra := by
      rw [Nat.mul_assoc coefficient, ← Nat.pow_add, numerator, Nat.pow_add, ← Nat.mul_assoc,
        Nat.mul_right_comm]
    rw [above, denominator, Nat.pow_add, nearestBits_mul_right factor]

/-! ## The decimal of a double -/

theorem bits_zero (exponent : Int) : bits ⟨0, exponent⟩ = 0 := by
  rw [bits_eq, if_pos (.inl rfl)]

theorem unitsOfBits_pos {bits : Nat} (positive : 0 < bits) : 0 < unitsOfBits bits := by
  by_cases small : bits < 2 ^ 53
  · rw [unitsOfBits_of_lt small]
    exact positive
  · rw [unitsOfBits_of_le (by omega)]
    exact Nat.mul_pos (by omega) (Nat.two_pow_pos _)

/-- A finite double has less than 2^2098 units. -/
theorem unitsOfBits_lt {bits : Nat} (finite : bits < infinityBits) :
    unitsOfBits bits < 2 ^ 53 * 2 ^ 2045 := by
  have bound : infinityBits = 2047 * 2 ^ 52 := rfl
  by_cases small : bits < 2 ^ 53
  · rw [unitsOfBits_of_lt small]
    exact Nat.lt_of_lt_of_le small (Nat.le_mul_of_pos_right _ (Nat.two_pow_pos _))
  · rw [unitsOfBits_of_le (by omega)]
    have leading : 2 ^ 52 + bits % 2 ^ 52 < 2 ^ 53 := by omega
    have scale : bits / 2 ^ 52 - 1 ≤ 2045 := by omega
    exact Nat.mul_lt_mul_of_lt_of_le leading (Nat.pow_le_pow_right (by decide) scale)
      (Nat.two_pow_pos _)

theorem least_exact : 10 ^ 673 ≤ 5 ^ 1074 := by decide +kernel

theorem greatest_exact : 2 ^ 53 * 2 ^ 2045 * 5 ^ 1074 ≤ 10 ^ 1474 := by decide +kernel

theorem greatest_whole : 2 ^ 53 * 2 ^ 2045 ≤ 10 ^ 400 * unitsPerOne := by decide +kernel

/-- The digits of all units together: five for each two that make one. -/
theorem exact_scaled (units : Nat) :
    units * 5 ^ 1074 * unitsPerOne = units * 10 ^ 1074 := by
  rw [unitsPerOne, Nat.mul_assoc, ← Nat.mul_pow]

/-- The decimal with all digits of a double stands for it. -/
theorem bits_exact {bits : Nat} (positive : 0 < bits) (finite : bits < infinityBits) :
    (exact (unitsOfBits bits)).bits = bits := by
  have some := unitsOfBits_pos positive
  have bound := unitsOfBits_lt finite
  have nearest := nearestBits_unitsOfBits finite
  generalize unitsOfBits bits = units at *
  have five : 0 < 5 ^ 1074 := Nat.pow_pos (by decide)
  have least : 10 ^ 673 ≤ units * 5 ^ 1074 :=
    Nat.le_trans least_exact (Nat.le_mul_of_pos_left _ some)
  have greatest : units * 5 ^ 1074 < 10 ^ 1474 :=
    Nat.lt_of_lt_of_le ((Nat.mul_lt_mul_right five).mpr bound) greatest_exact
  have scaled := exact_scaled units
  unfold exact
  have long : ¬ digitCount (units * 5 ^ 1074) ≤ 673 := by
    rw [digitCount_le_iff (by decide)]
    exact Nat.not_lt.mpr least
  have short : digitCount (units * 5 ^ 1074) ≤ 1474 :=
    (digitCount_le_iff (by decide)).mpr greatest
  generalize units * 5 ^ 1074 = coefficient at *
  have limit : outOfRange = 400 := rfl
  have up : (-1074 : Int).toNat = 0 := rfl
  have down : (- -1074 : Int).toNat = 1074 := rfl
  have same := @nearestBits_mul_right units 1 (10 ^ 1074) (Nat.pow_pos (by decide))
  rw [Nat.one_mul] at same
  rw [bits_eq, if_neg (by omega), if_neg (by omega), up, down, Nat.pow_zero, Nat.mul_one, scaled,
    same, nearest]

/-- Of two candidates one that stands for the double is chosen. -/
theorem bits_of_chosen? {bits : Nat} {below above d : Decimal} {nearer : Bool}
    (found : chosen? bits below above nearer = some d) : d.bits = bits := by
  unfold chosen? at found
  split at found
  · next first second =>
    cases nearer with
    | true => exact Option.some.inj found ▸ beq_iff_eq.mp first
    | false => exact Option.some.inj found ▸ beq_iff_eq.mp second
  · next first _ => exact Option.some.inj found ▸ beq_iff_eq.mp first
  · next _ second => exact Option.some.inj found ▸ beq_iff_eq.mp second
  · cases found

theorem bits_of_withDigits? {bits count : Nat} {d : Decimal}
    (found : withDigits? bits count = some d) : d.bits = bits :=
  bits_of_chosen? found

/-- The shortest decimal of a positive finite double stands for it. -/
theorem bits_shortest {bits : Nat} (positive : 0 < bits) (finite : bits < infinityBits) :
    (shortest bits).bits = bits := by
  unfold shortest
  cases search : ((List.range 17).map (· + 1)).findSome? (withDigits? bits) with
  | none => exact bits_exact positive finite
  | some d =>
    obtain ⟨count, _, found⟩ := List.exists_of_findSome?_eq_some search
    exact bits_of_withDigits? found

/-- A whole number that is a finite double stands for it. -/
theorem bits_whole {whole bits : Nat} (finite : bits < infinityBits)
    (units : unitsOfBits bits = whole * unitsPerOne) :
    Decimal.bits ⟨whole, 0⟩ = bits := by
  have nearest := nearestBits_unitsOfBits finite
  by_cases zero : whole = 0
  · rw [zero, bits_zero]
    rw [units, zero, Nat.zero_mul] at nearest
    rw [← nearest]
    decide
  · have bound := unitsOfBits_lt finite
    have small : whole < 10 ^ 400 := by
      rw [units] at bound
      have scaled : whole * unitsPerOne < 10 ^ 400 * unitsPerOne :=
        Nat.lt_of_lt_of_le bound greatest_whole
      exact Nat.lt_of_mul_lt_mul_right scaled
    have short : digitCount whole ≤ 400 := (digitCount_le_iff (by decide)).mpr small
    have limit : outOfRange = 400 := rfl
    rw [bits_eq, if_neg (by omega), if_neg (by omega)]
    show nearestBits (whole * 1 * unitsPerOne) 1 = bits
    rw [Nat.mul_one, ← units, nearest]

/-! ## The sign of a double from a decimal -/

theorem bits_le (decimal : Decimal) : decimal.bits ≤ infinityBits := by
  unfold bits
  dsimp only
  split
  · exact Nat.zero_le _
  · split
    · exact Nat.le_refl _
    · split <;> exact Nat.min_le_right _ _

theorem isNaN_toDouble (negative : Bool) (decimal : Decimal) :
    (decimal.toDouble negative).isNaN = false := by
  rw [← Bool.not_eq_true, isNaN_iff, toDouble,
    magnitudeBits_ofMagnitudeBits negative decimal.bits_le]
  exact Nat.not_lt_of_le decimal.bits_le

theorem isNegative_toDouble (negative : Bool) (decimal : Decimal) :
    isNegative (decimal.toDouble negative) = negative :=
  isNegative_ofMagnitudeBits negative decimal.bits_le

end Decimal

end Grapher
