import Grapher.Proofs.Decimal.Rounding
import Grapher.Proofs.Double.Bits

/-!
# Integers as doubles

Rounding a quotient to the nearest whole number, a tie going to the even one, is also rounding to
the nearest double: the doubles around a number of units are the multiples of one power of two, and
below the first of these the doubles only come closer to each other, not to the number. So the double
made of an integer is nearest to it (`isNearest_ofInt`), as long as that is finite. It is finite up
to half a step beyond the last finite double (`isFinite_ofInt`): the tie there goes to the infinity.
-/

set_option autoImplicit false

namespace Grapher.Double

/-! ## Rounding quotients -/

theorem roundHalfEven_cases {n d : Nat} :
    (roundHalfEven n d = n / d ∧ 2 * (n % d) ≤ d ∧ (2 * (n % d) = d → n / d % 2 = 0)) ∨
      (roundHalfEven n d = n / d + 1 ∧ d ≤ 2 * (n % d) ∧ (2 * (n % d) = d → n / d % 2 = 1)) := by
  unfold roundHalfEven
  simp only [Bool.or_eq_true, decide_eq_true_eq, Bool.and_eq_true, beq_iff_eq]
  split
  · exact .inr (by omega)
  · exact .inl (by omega)

/-- No multiple is nearer than that of the rounded quotient, and if another one is as near, the
rounded quotient is even. -/
theorem roundHalfEven_nearest {n d : Nat} (positive : 0 < d) (w : Nat) :
    ((roundHalfEven n d * d : Nat) - (n : Int)).natAbs ≤ ((w * d : Nat) - (n : Int)).natAbs ∧
      (((roundHalfEven n d * d : Nat) - (n : Int)).natAbs = ((w * d : Nat) - (n : Int)).natAbs →
        w ≠ roundHalfEven n d → roundHalfEven n d % 2 = 0) := by
  have division := Nat.div_add_mod n d
  have rest := Nat.mod_lt n positive
  rw [Nat.mul_comm] at division
  -- Where the other multiple stands: at or below the quotient, one above it, or further up.
  have below : w < n / d → (w + 1) * d ≤ n / d * d := Nat.mul_le_mul_right d
  have here : w = n / d → w * d = n / d * d := congrArg (· * d)
  have next : w = n / d + 1 → w * d = (n / d + 1) * d := congrArg (· * d)
  have above : n / d + 1 < w → (n / d + 1 + 1) * d ≤ w * d := Nat.mul_le_mul_right d
  simp only [Nat.add_mul, Nat.one_mul] at below next above
  rcases @roundHalfEven_cases n d with ⟨same, half, even⟩ | ⟨same, half, odd⟩
  · rw [same]
    omega
  · rw [same, Nat.add_mul, Nat.one_mul]
    omega

/-- A rounded quotient is below an even bound up to, and without, half a step below it. -/
theorem roundHalfEven_lt_iff {n d bound : Nat} (positive : 0 < d) (even : bound % 2 = 0) :
    roundHalfEven n d < bound ↔ 2 * n + d < 2 * bound * d := by
  have division := Nat.div_add_mod n d
  have rest := Nat.mod_lt n positive
  rw [Nat.mul_comm] at division
  have below : n / d + 1 < bound → (n / d + 1 + 1) * d ≤ bound * d := Nat.mul_le_mul_right d
  have last : n / d + 1 = bound → (n / d + 1) * d = bound * d := congrArg (· * d)
  have above : bound ≤ n / d → bound * d ≤ n / d * d := Nat.mul_le_mul_right d
  simp only [Nat.add_mul, Nat.one_mul] at below last above
  rw [Nat.mul_assoc]
  rcases @roundHalfEven_cases n d with ⟨same, half, tie⟩ | ⟨same, half, tie⟩
  · rw [same]
    omega
  · rw [same]
    omega

/-! ## The grid of the doubles -/

/-- Magnitude bits on the grid of a power of two. A full carry lands on the next grid. -/
theorem unitsOfBits_grid {scale size : Nat} (normal : scale = 0 ∨ 2 ^ 52 ≤ size)
    (bound : size ≤ 2 ^ 53) : unitsOfBits (scale * 2 ^ 52 + size) = size * 2 ^ scale := by
  rcases Nat.lt_or_ge size (2 ^ 52) with small | large
  · obtain rfl : scale = 0 := by omega
    rw [Nat.zero_mul, Nat.zero_add, unitsOfBits_of_lt (by omega)]
    simp
  · rcases Nat.lt_or_eq_of_le bound with within | rfl
    · have step : scaleOfBits (scale * 2 ^ 52 + size) = scale := by
        unfold scaleOfBits
        omega
      unfold unitsOfBits
      rw [step, Nat.add_sub_cancel_left]
    · have step : scaleOfBits (scale * 2 ^ 52 + 2 ^ 53) = scale + 1 := by
        unfold scaleOfBits
        omega
      have carried : scale * 2 ^ 52 + 2 ^ 53 - (scale + 1) * 2 ^ 52 = 2 ^ 52 := by omega
      unfold unitsOfBits
      rw [step, carried, Nat.pow_succ 2 scale]
      omega

/-- What fewer steps than a scale can reach lies below the grid of the scale. -/
theorem unitsOfBits_below {bits scale : Nat} (fewer : scaleOfBits bits < scale) :
    unitsOfBits bits < 2 ^ 52 * 2 ^ scale := by
  have size : bits - scaleOfBits bits * 2 ^ 52 < 2 ^ 53 := by
    unfold scaleOfBits
    omega
  have power : 2 * 2 ^ scaleOfBits bits ≤ 2 ^ scale := by
    rw [← Nat.pow_succ']
    exact Nat.pow_le_pow_right (by decide) fewer
  calc unitsOfBits bits
      < 2 ^ 53 * 2 ^ scaleOfBits bits := Nat.mul_lt_mul_of_pos_right size (Nat.two_pow_pos _)
    _ = 2 ^ 52 * (2 * 2 ^ scaleOfBits bits) := by rw [← Nat.mul_assoc, ← Nat.pow_succ]
    _ ≤ 2 ^ 52 * 2 ^ scale := Nat.mul_le_mul_left _ power

/-- What at least as many steps as a scale reach is on the grid of the scale. -/
theorem exists_unitsOfBits {bits scale : Nat} (more : scale ≤ scaleOfBits bits) :
    ∃ size, unitsOfBits bits = size * 2 ^ scale := by
  refine ⟨(bits - scaleOfBits bits * 2 ^ 52) * 2 ^ (scaleOfBits bits - scale), ?_⟩
  rw [Nat.mul_assoc, ← Nat.pow_add, Nat.sub_add_cancel more]
  rfl

/-! ## The nearest double -/

/-- The grid around a number of units leaves 53 digits before the point. -/
theorem div_grid (units : Nat) :
    units / 2 ^ (units.log2 - 52) < 2 ^ 53 ∧
      (units.log2 - 52 = 0 ∨ 2 ^ 52 ≤ units / 2 ^ (units.log2 - 52)) := by
  constructor
  · rw [Nat.div_lt_iff_lt_mul (Nat.two_pow_pos _), ← Nat.pow_add]
    exact Nat.lt_of_lt_of_le Nat.lt_log2_self (Nat.pow_le_pow_right (by decide) (by omega))
  · rcases Nat.eq_zero_or_pos (units.log2 - 52) with none | some
    · exact .inl none
    · right
      have positive : units ≠ 0 := by
        rintro rfl
        exact absurd some (by decide)
      rw [Nat.le_div_iff_mul_le (Nat.two_pow_pos _), ← Nat.pow_add, Nat.add_sub_of_le (by omega)]
      exact Nat.log2_self_le positive

theorem nearestBits_one (units : Nat) :
    nearestBits units 1
      = min ((units.log2 - 52) * 2 ^ 52 + roundHalfEven units (2 ^ (units.log2 - 52)))
          infinityBits := by
  unfold nearestBits
  simp only [Nat.div_one, Nat.one_mul]

/-- The magnitude bits for a number of units are nearest to it among all magnitude bits, and even
where others are as near. -/
theorem nearestBits_nearest {units : Nat} (finite : nearestBits units 1 < infinityBits)
    (bits : Nat) :
    (unitsOfBits (nearestBits units 1) - (units : Int)).natAbs
        ≤ (unitsOfBits bits - (units : Int)).natAbs ∧
      ((unitsOfBits (nearestBits units 1) - (units : Int)).natAbs
          = (unitsOfBits bits - (units : Int)).natAbs →
        unitsOfBits bits ≠ unitsOfBits (nearestBits units 1) → nearestBits units 1 % 2 = 0) := by
  rw [nearestBits_one] at finite ⊢
  rw [Nat.min_eq_left (by omega)]
  obtain ⟨bound, normal⟩ := div_grid units
  have power : 0 < 2 ^ (units.log2 - 52) := Nat.two_pow_pos _
  have nearest := @roundHalfEven_nearest units _ power
  have size := @roundHalfEven_cases units (2 ^ (units.log2 - 52))
  generalize units.log2 - 52 = scale at *
  have grid : unitsOfBits (scale * 2 ^ 52 + roundHalfEven units (2 ^ scale))
      = roundHalfEven units (2 ^ scale) * 2 ^ scale := unitsOfBits_grid (by omega) (by omega)
  rw [grid]
  rcases Nat.lt_or_ge (scaleOfBits bits) scale with fewer | more
  · -- The first number of the grid lies between these bits and the units.
    have below := unitsOfBits_below fewer
    have first : 2 ^ 52 * 2 ^ scale ≤ units :=
      (Nat.le_div_iff_mul_le power).mp (normal.resolve_left (by omega))
    have nearer := (nearest (2 ^ 52)).1
    omega
  · obtain ⟨other, same⟩ := exists_unitsOfBits more
    obtain ⟨nearer, even⟩ := nearest other
    rw [same]
    refine ⟨nearer, fun tie differ => ?_⟩
    have parity := even tie fun same => differ (by rw [same])
    omega

theorem log2_mul_two_pow {n : Nat} (positive : n ≠ 0) (k : Nat) :
    (n * 2 ^ k).log2 = n.log2 + k := by
  have lower := Nat.mul_le_mul_right (2 ^ k) (Nat.log2_self_le positive)
  have upper := Nat.mul_lt_mul_of_pos_right (@Nat.lt_log2_self n) (Nat.two_pow_pos k)
  rw [← Nat.pow_add] at lower
  rw [← Nat.pow_add, Nat.add_right_comm] at upper
  exact log2_of_bounds lower upper

/-- The magnitude bits for a whole number are finite up to half a step beyond the last finite
double. -/
theorem nearestBits_whole_lt_iff (n : Nat) :
    nearestBits (n * unitsPerOne) 1 < infinityBits ↔ n < 2 ^ 1024 - 2 ^ 970 := by
  rcases Nat.eq_zero_or_pos n with rfl | positive
  · decide +kernel
  have nonzero : n ≠ 0 := Nat.pos_iff_ne_zero.mp positive
  have bound := div_grid (n * unitsPerOne)
  have size := @roundHalfEven_cases (n * unitsPerOne) (2 ^ ((n * unitsPerOne).log2 - 52))
  have half := @roundHalfEven_lt_iff (n * unitsPerOne) (2 ^ ((n * unitsPerOne).log2 - 52)) (2 ^ 53)
    (Nat.two_pow_pos _) (by decide)
  have last : infinityBits = 2047 * 2 ^ 52 := rfl
  rw [nearestBits_one, last]
  rw [unitsPerOne, log2_mul_two_pow nonzero] at *
  generalize roundHalfEven (n * 2 ^ 1074) (2 ^ (n.log2 + 1074 - 52)) = rounded at *
  rcases Nat.lt_trichotomy n.log2 1023 with less | same | more
  · have small := (Nat.log2_lt nonzero).mp less
    omega
  · rw [same] at half ⊢
    omega
  · have large := (Nat.le_log2 nonzero).mp more
    omega

/-! ## Doubles made of integers -/

/-- How many units lie between an integer and a double of so many units. -/
def unitsFrom (n size : Int) : Nat := (size - n * unitsPerOne).natAbs

/-- A finite double that an integer is rounded to: it has the sign of the integer, no finite double is
nearer to the integer, and where another one is as near it is even. -/
structure IsNearest (n : Int) (x : Float) : Prop where
  sign : isNegative x = decide (n < 0)
  nearest : ∃ size, units? x = some size ∧ ∀ y other, units? y = some other →
    unitsFrom n size ≤ unitsFrom n other ∧
      (unitsFrom n size = unitsFrom n other → other ≠ size → magnitudeBits x % 2 = 0)

theorem magnitudeBits_ofInt (n : Int) :
    magnitudeBits (ofInt n) = nearestBits (n.natAbs * unitsPerOne) 1 :=
  magnitudeBits_ofMagnitudeBits _ (Nat.min_le_right _ _)

/-- The first whole number that is nearer to the infinity than to the last finite double, counting
the infinity as the next power of two: the tie between the two. -/
def firstBeyond : Nat := 2 ^ 1024 - 2 ^ 970

theorem isFinite_ofInt (n : Int) : isFinite (ofInt n) = true ↔ n.natAbs < firstBeyond := by
  rw [isFinite, decide_eq_true_eq, magnitudeBits_ofInt]
  exact nearestBits_whole_lt_iff n.natAbs

theorem mul_unitsPerOne (n : Int) :
    n * unitsPerOne = if n < 0 then -((n.natAbs * unitsPerOne : Nat) : Int)
      else (n.natAbs * unitsPerOne : Nat) := by
  split
  · next negative =>
    rw [Int.natCast_mul, Int.ofNat_natAbs_of_nonpos (Int.le_of_lt negative), Int.neg_mul,
      Int.neg_neg]
  · next positive =>
    rw [Int.natCast_mul, Int.natAbs_of_nonneg (Int.not_lt.mp positive)]

theorem isNearest_ofInt {n : Int} (finite : isFinite (ofInt n) = true) : IsNearest n (ofInt n) := by
  have sign : isNegative (ofInt n) = decide (n < 0) :=
    isNegative_ofMagnitudeBits _ (Nat.min_le_right _ _)
  have bits := magnitudeBits_ofInt n
  refine ⟨sign, _, by rw [units?, if_pos finite], ?_⟩
  rw [isFinite, decide_eq_true_eq, bits] at finite
  intro y other units
  unfold units? at units
  split at units <;> cases units
  rw [sign, bits, unitsFrom, unitsFrom, mul_unitsPerOne]
  have nearest := nearestBits_nearest finite
  -- On the other side of zero every double is at least as far away as zero is.
  have zero := (nearest 0).1
  have here := nearest (magnitudeBits y)
  have none : unitsOfBits 0 = 0 := rfl
  generalize n.natAbs * unitsPerOne = whole at *
  generalize unitsOfBits (nearestBits whole 1) = size at *
  generalize unitsOfBits (magnitudeBits y) = other at *
  by_cases negative : n < 0
  · rw [decide_eq_true negative, if_pos negative, if_pos rfl]
    cases isNegative y with
    | true =>
      rw [if_pos rfl]
      omega
    | false =>
      rw [if_neg Bool.false_ne_true]
      omega
  · rw [decide_eq_false negative, if_neg negative, if_neg Bool.false_ne_true]
    cases isNegative y with
    | true =>
      rw [if_pos rfl]
      omega
    | false =>
      rw [if_neg Bool.false_ne_true]
      omega

end Grapher.Double
