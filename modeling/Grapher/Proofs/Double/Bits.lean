import Grapher.Double.Units

/-!
# Doubles and their bits

A double is determined by its sign bit and its magnitude bits, and every magnitude up to the
infinity belongs to a double. The sign tests, the test for the undefined number and negation are
described by these two alone, so that statements about doubles become statements about natural
numbers.
-/

set_option autoImplicit false

namespace Grapher.Double

open Float.Model (Format UnpackedFloat)
open Float.Model.UnpackedFloat (Sign unpackMantissa unpackExponent unpackSign packComponents)

variable {x : Float} {bits : Nat}

/-! ## The three parts of a bit pattern -/

theorem toNat_unpackMantissa (b : BitVec 64) :
    (@unpackMantissa Format.binary64 b).toNat = b.toNat % 2 ^ 52 := by
  simp [unpackMantissa]

theorem toNat_unpackExponent (b : BitVec 64) :
    (@unpackExponent Format.binary64 b).toNat = b.toNat / 2 ^ 52 % 2 ^ 11 := by
  simp [unpackExponent, Nat.shiftRight_eq_div_pow]

theorem toNat_unpackSign (b : BitVec 64) :
    (@unpackSign Format.binary64 b).toNat = b.toNat / 2 ^ 63 := by
  have high : b.toNat / 2 ^ 63 < 2 := by omega
  delta unpackSign
  simpa [Nat.shiftRight_eq_div_pow] using high

theorem toNat_packComponents (s : Sign) (e : BitVec 11) (m : BitVec 52) :
    (packComponents Format.binary64 s e m).toNat
      = s.toBitVec.toNat * 2 ^ 63 + e.toNat * 2 ^ 52 + m.toNat := by
  have joined : (packComponents Format.binary64 s e m).toNat
      = (s.toBitVec.toNat <<< 11 ||| e.toNat) <<< 52 ||| m.toNat := by
    rw [packComponents, BitVec.toNat_append, BitVec.toNat_append]
  rw [joined, ← Nat.shiftLeft_add_eq_or_of_lt e.isLt, ← Nat.shiftLeft_add_eq_or_of_lt m.isLt]
  omega

/-- The leading one of a normal double counts 2^52. -/
theorem toNat_leadingOne (m : BitVec 52) : (1#1 ++ m).toNat = 2 ^ 52 + m.toNat := by
  rw [BitVec.toNat_append, ← Nat.shiftLeft_add_eq_or_of_lt m.isLt]
  rfl

theorem toBitVec_ofBitVec (b : BitVec 1) : (Sign.ofBitVec b).toBitVec = b := by
  revert b
  decide

/-- The parts of a bit pattern make it up. -/
theorem packComponents_parts (b : BitVec 64) :
    packComponents Format.binary64 (Sign.ofBitVec (@unpackSign Format.binary64 b))
      (@unpackExponent Format.binary64 b) (@unpackMantissa Format.binary64 b) = b := by
  apply BitVec.eq_of_toNat_eq
  rw [toNat_packComponents, toBitVec_ofBitVec, toNat_unpackSign, toNat_unpackExponent,
    toNat_unpackMantissa]
  omega

/-! ## Packing undoes unpacking -/

theorem pack_subnormal (s : Sign) (m : BitVec 52) (positive : 0 < m.toNat) :
    UnpackedFloat.pack Format.binary64 (.finite s m.toNat (-1074) positive)
      = packComponents Format.binary64 s 0#11 m := by
  have small : m.toNat.log2 < 52 := (Nat.log2_lt (Nat.ne_of_gt positive)).mpr m.isLt
  have short : ¬ m.toNat.log2 + 1 = Format.binary64.mantissaBits := by
    have width : Format.binary64.mantissaBits = 53 := rfl
    omega
  unfold UnpackedFloat.pack
  rw [if_neg (by decide), if_neg short, BitVec.ofNat_toNat, BitVec.setWidth_eq]

theorem pack_normal (s : Sign) (e : BitVec 11) (m : BitVec 52) (finite : e ≠ -1#11)
    (positive : 0 < (1#1 ++ m).toNat) :
    UnpackedFloat.pack Format.binary64
        (.finite s (1#1 ++ m).toNat ((e.toNat : Int) - 1075) positive)
      = packComponents Format.binary64 s e m := by
  have log : (1#1 ++ m).toNat.log2 = 52 := by
    rw [toNat_leadingOne, Nat.log2_eq_iff (by omega)]
    omega
  have unbiased : (e.toNat : Int) - 1075 + Format.binary64.exponentBias + (52 : Nat)
      = e.toNat := by
    have bias : Format.binary64.exponentBias = 1023 := rfl
    omega
  have below : ¬ 2 ^ 11 ≤ e.toNat + 1 := by
    have other : e.toNat ≠ 2047 := fun same => finite (BitVec.eq_of_toNat_eq same)
    omega
  unfold UnpackedFloat.pack
  simp only [unbiased, Int.toNat_natCast]
  rw [if_neg below, if_pos (by rw [log]; rfl), toNat_leadingOne, BitVec.ofNat_toNat,
    BitVec.setWidth_eq]
  congr 1
  apply BitVec.eq_of_toNat_eq
  rw [BitVec.toNat_ofNat]
  omega

/-- The five ways to unpack a bit pattern, by its exponent and its mantissa. -/
theorem unpack_kinds (b : BitVec 64) :
    let sign := Sign.ofBitVec (@unpackSign Format.binary64 b)
    let exponent := @unpackExponent Format.binary64 b
    let mantissa := @unpackMantissa Format.binary64 b
    let whole := UnpackedFloat.unpack Format.binary64 b
    (exponent = -1#11 ∧ mantissa = 0#52 ∧ whole = .infinity sign) ∨
    (exponent = -1#11 ∧ mantissa ≠ 0#52 ∧ whole = .notANumber) ∨
    (exponent = 0#11 ∧ mantissa = 0#52 ∧ whole = .zero sign) ∨
    (exponent = 0#11 ∧ mantissa ≠ 0#52 ∧
      ∃ positive, whole = .finite sign mantissa.toNat (-1074) positive) ∨
    (exponent ≠ -1#11 ∧ exponent ≠ 0#11 ∧ ∃ positive,
      whole = .finite sign (1#1 ++ mantissa).toNat ((exponent.toNat : Int) - 1075) positive) := by
  intro sign exponent mantissa whole
  have unpacked : whole = UnpackedFloat.unpack Format.binary64 b := rfl
  unfold UnpackedFloat.unpack at unpacked
  by_cases full : exponent = -1#11
  · rw [if_pos full] at unpacked
    by_cases empty : mantissa = 0#52
    · rw [if_pos empty] at unpacked
      exact .inl ⟨full, empty, unpacked⟩
    · rw [if_neg empty] at unpacked
      exact .inr (.inl ⟨full, empty, unpacked⟩)
  · rw [if_neg full] at unpacked
    by_cases low : exponent = 0#11
    · rw [if_pos low] at unpacked
      by_cases empty : mantissa = 0#52
      · rw [dif_pos empty] at unpacked
        exact .inr (.inr (.inl ⟨low, empty, unpacked⟩))
      · rw [dif_neg empty, show @unpackExponent Format.binary64 b = 0#11 from low] at unpacked
        exact .inr (.inr (.inr (.inl ⟨low, empty, _, unpacked⟩)))
    · rw [if_neg low] at unpacked
      exact .inr (.inr (.inr (.inr ⟨full, low, _, unpacked⟩)))

theorem pack_unpack (b : BitVec 64) (valid : Format.binary64.Valid b) :
    UnpackedFloat.pack Format.binary64 (UnpackedFloat.unpack Format.binary64 b) = b := by
  have parts := packComponents_parts b
  obtain ⟨full, empty, shape⟩ | ⟨full, some, shape⟩ | ⟨low, empty, shape⟩ | ⟨low, -, _, shape⟩
    | ⟨notFull, -, _, shape⟩ := unpack_kinds b
  · rw [full, empty] at parts
    rw [shape]
    exact parts
  · rw [shape]
    exact (valid.eq_packedNaN full some).symm
  · rw [low, empty] at parts
    rw [shape]
    exact parts
  · rw [low] at parts
    rw [shape]
    exact (pack_subnormal _ _ _).trans parts
  · rw [shape]
    exact (pack_normal _ _ _ notFull _).trans parts

/-! ## Sign and magnitude determine a double -/

theorem ext_bits {y : Float} (same : x.toBits = y.toBits) : x = y := by
  obtain ⟨⟨b, valid⟩⟩ := x
  obtain ⟨⟨c, valid'⟩⟩ := y
  have equal : b = c := same
  subst equal
  rfl

theorem ofBits_toBits (x : Float) : Float.ofBits x.toBits = x := by
  apply ext_bits
  show UInt64.ofBitVec (UnpackedFloat.pack Format.binary64
    (UnpackedFloat.unpack Format.binary64 x.toModel.toBits.toBitVec)) = x.toModel.toBits
  rw [pack_unpack _ x.toModel.valid]

/-- The sign bit counts 2^63. -/
theorem toNat_toBits (x : Float) :
    x.toBits.toNat = magnitudeBits x + if isNegative x then 2 ^ 63 else 0 := by
  have bound := x.toBits.toNat_lt
  simp only [magnitudeBits, isNegative, decide_eq_true_eq]
  split <;> omega

/-- Two doubles with the same sign and magnitude are the same. -/
theorem eq_of_bits {y : Float} (sign : isNegative x = isNegative y)
    (magnitude : magnitudeBits x = magnitudeBits y) : x = y := by
  apply ext_bits
  apply UInt64.toNat_inj.mp
  rw [toNat_toBits, toNat_toBits, sign, magnitude]

theorem magnitudeBits_lt (x : Float) : magnitudeBits x < 2 ^ 63 :=
  Nat.mod_lt _ (by decide)

/-- Magnitude bits up to the infinity, with any sign, are the bits of a double. -/
theorem toNat_toBits_ofMagnitudeBits (negative : Bool) (bound : bits ≤ infinityBits) :
    (ofMagnitudeBits negative bits).toBits.toNat = bits + if negative then 2 ^ 63 else 0 := by
  have size : bits + (if negative then 2 ^ 63 else 0) < 2 ^ 64 := by
    simp only [infinityBits] at bound
    split <;> omega
  have whole : (UInt64.ofNat (bits + if negative then 2 ^ 63 else 0)).toBitVec.toNat
      = bits + if negative then 2 ^ 63 else 0 :=
    UInt64.toNat_ofNat_of_lt size
  have valid : Format.binary64.Valid
      (UInt64.ofNat (bits + if negative then 2 ^ 63 else 0)).toBitVec := by
    refine ⟨fun full some => absurd ?_ some⟩
    apply BitVec.eq_of_toNat_eq
    have exponent := congrArg BitVec.toNat full
    rw [toNat_unpackExponent, whole] at exponent
    rw [toNat_unpackMantissa, whole]
    have allOnes : (-1#11).toNat = 2047 := rfl
    have none : (0#52).toNat = 0 := rfl
    simp only [infinityBits] at bound
    rw [allOnes] at exponent
    rw [none]
    split at exponent <;> split <;> omega
  show (UInt64.ofBitVec (UnpackedFloat.pack Format.binary64 (UnpackedFloat.unpack Format.binary64
    (UInt64.ofNat (bits + if negative then 2 ^ 63 else 0)).toBitVec))).toNat = _
  rw [pack_unpack _ valid]
  exact whole

theorem magnitudeBits_ofMagnitudeBits (negative : Bool) (bound : bits ≤ infinityBits) :
    magnitudeBits (ofMagnitudeBits negative bits) = bits := by
  unfold magnitudeBits
  rw [toNat_toBits_ofMagnitudeBits negative bound]
  simp only [infinityBits] at bound
  split <;> omega

theorem isNegative_ofMagnitudeBits (negative : Bool) (bound : bits ≤ infinityBits) :
    isNegative (ofMagnitudeBits negative bits) = negative := by
  unfold isNegative
  rw [toNat_toBits_ofMagnitudeBits negative bound]
  simp only [infinityBits] at bound
  cases negative <;> simp <;> omega

theorem ofMagnitudeBits_self (x : Float) :
    ofMagnitudeBits (isNegative x) (magnitudeBits x) = x := by
  unfold ofMagnitudeBits
  rw [← toNat_toBits, UInt64.ofNat_toNat, ofBits_toBits]

/-! ## What the tests see -/

/-- The sign of a double as its model has it. -/
def modelSign (x : Float) : Sign := if isNegative x then .negative else .positive

theorem modelSign_of_negative (negative : isNegative x = true) : modelSign x = .negative :=
  if_pos negative

theorem modelSign_of_positive (positive : isNegative x = false) : modelSign x = .positive :=
  if_neg (Bool.eq_false_iff.mp positive)

/-- The four kinds of doubles, by their magnitude bits. -/
theorem unpack_cases (x : Float) :
    (infinityBits < magnitudeBits x ∧ x.toModel.unpack = .notANumber) ∨
    (magnitudeBits x = infinityBits ∧ x.toModel.unpack = .infinity (modelSign x)) ∨
    (magnitudeBits x = 0 ∧ x.toModel.unpack = .zero (modelSign x)) ∨
    (0 < magnitudeBits x ∧ magnitudeBits x < infinityBits ∧
      ∃ m e positive, x.toModel.unpack = .finite (modelSign x) m e positive) := by
  have sign : Sign.ofBitVec (@unpackSign Format.binary64 x.toModel.toBits.toBitVec)
      = modelSign x := by
    have bit := toNat_unpackSign x.toModel.toBits.toBitVec
    have whole := toNat_toBits x
    have bound := magnitudeBits_lt x
    have same : x.toModel.toBits.toBitVec.toNat = x.toBits.toNat := rfl
    rw [same, whole] at bit
    unfold Sign.ofBitVec modelSign
    cases negative : isNegative x with
    | true =>
      rw [negative, if_pos rfl] at bit
      rw [if_neg, if_pos rfl]
      intro zero
      rw [zero] at bit
      simp only [BitVec.toNat_ofNat] at bit
      omega
    | false =>
      rw [negative, if_neg (by decide)] at bit
      rw [if_pos, if_neg (by decide)]
      apply BitVec.eq_of_toNat_eq
      simp only [BitVec.toNat_ofNat]
      omega
  have whole : x.toModel.toBits.toBitVec.toNat % 2 ^ 63 = magnitudeBits x := rfl
  have exponent := toNat_unpackExponent x.toModel.toBits.toBitVec
  have mantissa := toNat_unpackMantissa x.toModel.toBits.toBitVec
  have size : infinityBits = 2047 * 2 ^ 52 := rfl
  have kinds := unpack_kinds x.toModel.toBits.toBitVec
  rw [sign] at kinds
  obtain ⟨full, empty, shape⟩ | ⟨full, some, shape⟩ | ⟨low, empty, shape⟩ | ⟨low, some, _, shape⟩
    | ⟨notFull, notLow, _, shape⟩ := kinds
  · rw [full, show (-1#11).toNat = 2047 from rfl] at exponent
    rw [empty, show (0#52).toNat = 0 from rfl] at mantissa
    exact .inr (.inl ⟨by omega, shape⟩)
  · rw [full, show (-1#11).toNat = 2047 from rfl] at exponent
    have rest : x.toModel.toBits.toBitVec.toNat % 2 ^ 52 ≠ 0 := fun zero =>
      some (BitVec.eq_of_toNat_eq (mantissa.trans zero))
    exact .inl ⟨by omega, shape⟩
  · rw [low, show (0#11).toNat = 0 from rfl] at exponent
    rw [empty, show (0#52).toNat = 0 from rfl] at mantissa
    exact .inr (.inr (.inl ⟨by omega, shape⟩))
  · rw [low, show (0#11).toNat = 0 from rfl] at exponent
    exact .inr (.inr (.inr ⟨by omega, by omega, _, _, _, shape⟩))
  · have below : x.toModel.toBits.toBitVec.toNat / 2 ^ 52 % 2 ^ 11 ≠ 2047 := fun all =>
      notFull (BitVec.eq_of_toNat_eq (exponent.trans all))
    have above : x.toModel.toBits.toBitVec.toNat / 2 ^ 52 % 2 ^ 11 ≠ 0 := fun zero =>
      notLow (BitVec.eq_of_toNat_eq (exponent.trans zero))
    exact .inr (.inr (.inr ⟨by omega, by omega, _, _, _, shape⟩))

theorem isNaN_iff (x : Float) : x.isNaN = true ↔ infinityBits < magnitudeBits x := by
  show x.toModel.unpack.isNaN = true ↔ _
  obtain ⟨size, shape⟩ | ⟨size, shape⟩ | ⟨size, shape⟩ | ⟨_, size, m, e, h, shape⟩ := unpack_cases x
  · rw [shape]
    exact iff_of_true rfl size
  · rw [shape, size]
    exact iff_of_false Bool.false_ne_true (Nat.lt_irrefl _)
  · rw [shape, size]
    exact iff_of_false Bool.false_ne_true (Nat.not_lt_zero _)
  · rw [shape]
    exact iff_of_false Bool.false_ne_true (Nat.lt_asymm size)

/-- There is one undefined double. -/
theorem eq_nan (undefined : x.isNaN = true) : x = nan := by
  have unique : ∀ {y : Float}, y.isNaN = true →
      y.toModel.toBits.toBitVec = UnpackedFloat.pack Format.binary64 .notANumber := by
    intro y undefined
    obtain ⟨-, shape⟩ | ⟨size, -⟩ | ⟨size, -⟩ | ⟨-, size, -⟩ := unpack_cases y
    · rw [← shape]
      exact (pack_unpack _ y.toModel.valid).symm
    all_goals
      have large := (isNaN_iff y).mp undefined
      omega
  apply ext_bits
  exact congrArg UInt64.ofBitVec ((unique undefined).trans (@unique nan (by decide)).symm)

theorem unpack_zero : (0 : Float).toModel.unpack = .zero .positive := rfl

theorem lt_iff_compare (x y : Float) :
    x < y ↔ x.toModel.unpack.compare y.toModel.unpack = some .lt := by
  show decide ((x.toModel.unpack.compare y.toModel.unpack == some .lt) = true) = true ↔ _
  simp

theorem beq_iff_compare (x y : Float) :
    (x == y) = true ↔ x.toModel.unpack.compare y.toModel.unpack = some .eq := by
  show (x.toModel.unpack.compare y.toModel.unpack == some .eq) = true ↔ _
  simp

/-- The three ways to compare with zero. -/
theorem compare_zero_cases (x : Float) :
    (infinityBits < magnitudeBits x ∧ x.toModel.unpack.compare (.zero .positive) = none) ∨
    (magnitudeBits x = 0 ∧ x.toModel.unpack.compare (.zero .positive) = some .eq) ∨
    (0 < magnitudeBits x ∧ magnitudeBits x ≤ infinityBits ∧
      x.toModel.unpack.compare (.zero .positive)
        = some (if isNegative x then .lt else .gt)) := by
  have positive : 0 < infinityBits := by decide
  obtain ⟨size, shape⟩ | ⟨size, shape⟩ | ⟨size, shape⟩ | ⟨nonzero, size, m, e, h, shape⟩ :=
    unpack_cases x
  · rw [shape]
    exact .inl ⟨size, rfl⟩
  · refine .inr (.inr ⟨by omega, by omega, ?_⟩)
    cases sign : isNegative x with
    | true => rw [shape, modelSign_of_negative sign]; rfl
    | false => rw [shape, modelSign_of_positive sign]; rfl
  · rw [shape]
    exact .inr (.inl ⟨size, rfl⟩)
  · refine .inr (.inr ⟨nonzero, Nat.le_of_lt size, ?_⟩)
    cases sign : isNegative x with
    | true => rw [shape, modelSign_of_negative sign]; rfl
    | false => rw [shape, modelSign_of_positive sign]; rfl

/-- A double is below zero when its sign bit is set, unless it is a zero or undefined. -/
theorem lt_zero_iff (x : Float) :
    x < 0 ↔ isNegative x = true ∧ 0 < magnitudeBits x ∧ magnitudeBits x ≤ infinityBits := by
  rw [lt_iff_compare, unpack_zero]
  obtain ⟨size, compared⟩ | ⟨size, compared⟩ | ⟨nonzero, size, compared⟩ := compare_zero_cases x
  · rw [compared]
    exact iff_of_false (by rintro ⟨⟩) fun bounds => Nat.not_le_of_lt size bounds.2.2
  · rw [compared]
    exact iff_of_false (by rintro ⟨⟩) fun bounds => Nat.ne_of_gt bounds.2.1 size
  · rw [compared]
    cases isNegative x <;> simp [nonzero, size]

/-- A double equals zero when it is one of the two zeros. -/
theorem beq_zero_iff (x : Float) : (x == 0) = true ↔ magnitudeBits x = 0 := by
  rw [beq_iff_compare, unpack_zero]
  obtain ⟨size, compared⟩ | ⟨size, compared⟩ | ⟨nonzero, size, compared⟩ := compare_zero_cases x
  · rw [compared]
    exact iff_of_false (by rintro ⟨⟩) (by omega)
  · rw [compared]
    exact iff_of_true rfl size
  · rw [compared]
    refine iff_of_false ?_ (Nat.ne_of_gt nonzero)
    cases isNegative x <;> rintro ⟨⟩

/-- A defined double without the sign bit is not below zero. -/
theorem zero_le_of_isNegative (defined : x.isNaN = false) (positive : isNegative x = false) :
    0 ≤ x := by
  have ordered : (0 : Float).toModel.unpack.le x.toModel.unpack = true := by
    rw [unpack_zero]
    obtain ⟨size, shape⟩ | ⟨size, shape⟩ | ⟨size, shape⟩ | ⟨some, size, m, e, h, shape⟩ :=
      unpack_cases x
    · rw [(isNaN_iff x).mpr size] at defined
      cases defined
    all_goals
      rw [shape, modelSign_of_positive positive]
      rfl
  exact decide_eq_true ordered

/-! ## Negation -/

/-- Packing a value of a given size puts its sign in front of bits that do not depend on it. -/
theorem pack_sign {build : Sign → UnpackedFloat} (shape :
    build = UnpackedFloat.infinity ∨ build = UnpackedFloat.zero ∨
      ∃ m e positive, build = fun s => .finite s m e positive) :
    ∃ low, low < 2 ^ 63 ∧ ∀ s, (UnpackedFloat.pack Format.binary64 (build s)).toNat
      = s.toBitVec.toNat * 2 ^ 63 + low := by
  have packed : ∃ (e : BitVec 11) (m : BitVec 52), ∀ s,
      UnpackedFloat.pack Format.binary64 (build s) = packComponents Format.binary64 s e m := by
    obtain rfl | rfl | ⟨m, e, positive, rfl⟩ := shape
    · exact ⟨_, _, fun s => rfl⟩
    · exact ⟨_, _, fun s => rfl⟩
    · unfold UnpackedFloat.pack
      dsimp only
      split
      · exact ⟨_, _, fun s => rfl⟩
      · split
        · exact ⟨_, _, fun s => rfl⟩
        · exact ⟨_, _, fun s => rfl⟩
  obtain ⟨e, m, equal⟩ := packed
  refine ⟨e.toNat * 2 ^ 52 + m.toNat, ?_, fun s => ?_⟩
  · omega
  · rw [equal, toNat_packComponents]
    omega

/-- Negation turns the sign of a double and keeps its magnitude, unless it is undefined. -/
theorem bits_neg (defined : magnitudeBits x ≤ infinityBits) :
    magnitudeBits (-x) = magnitudeBits x ∧ isNegative (-x) = !isNegative x := by
  obtain ⟨build, shape, unpacked⟩ : ∃ build : Sign → UnpackedFloat,
      (build = UnpackedFloat.infinity ∨ build = UnpackedFloat.zero ∨
        ∃ m e positive, build = fun s => .finite s m e positive) ∧
      x.toModel.unpack = build (modelSign x) := by
    obtain ⟨size, _⟩ | ⟨_, equal⟩ | ⟨_, equal⟩ | ⟨_, _, m, e, h, equal⟩ := unpack_cases x
    · omega
    · exact ⟨_, .inl rfl, equal⟩
    · exact ⟨_, .inr (.inl rfl), equal⟩
    · exact ⟨_, .inr (.inr ⟨m, e, h, rfl⟩), equal⟩
  have turned : x.toModel.unpack.neg = build (-modelSign x) := by
    rw [unpacked]
    obtain rfl | rfl | ⟨m, e, positive, rfl⟩ := shape <;> rfl
  obtain ⟨low, bound, packed⟩ := pack_sign shape
  have before : x.toBits.toNat = (modelSign x).toBitVec.toNat * 2 ^ 63 + low := by
    rw [← packed, ← unpacked]
    show _ = (UnpackedFloat.pack Format.binary64
      (UnpackedFloat.unpack Format.binary64 x.toModel.toBits.toBitVec)).toNat
    rw [pack_unpack _ x.toModel.valid]
    rfl
  have after : (-x).toBits.toNat = (-modelSign x).toBitVec.toNat * 2 ^ 63 + low := by
    rw [← packed, ← turned]
    rfl
  unfold magnitudeBits isNegative
  rw [before, after]
  have minus : Sign.negative.toBitVec.toNat = 1 := rfl
  have plus : Sign.positive.toBitVec.toNat = 0 := rfl
  cases sign : modelSign x with
  | negative =>
    rw [show -Sign.negative = Sign.positive from rfl, minus, plus]
    exact ⟨by omega, by simp only [← decide_not, decide_eq_decide]; omega⟩
  | positive =>
    rw [show -Sign.positive = Sign.negative from rfl, minus, plus]
    exact ⟨by omega, by simp only [← decide_not, decide_eq_decide]; omega⟩

theorem neg_neg_of_defined (defined : magnitudeBits x ≤ infinityBits) : - -x = x := by
  obtain ⟨magnitude, sign⟩ := bits_neg defined
  obtain ⟨magnitude', sign'⟩ := bits_neg (Nat.le_trans (Nat.le_of_eq magnitude) defined)
  apply eq_of_bits
  · rw [sign', sign, Bool.not_not]
  · rw [magnitude', magnitude]

end Grapher.Double
