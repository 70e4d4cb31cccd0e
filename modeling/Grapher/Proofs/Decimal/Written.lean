import Grapher.Decimal.Conversion
import Grapher.Proofs.Decimal.Extent
import Grapher.Proofs.Decimal.Rounding
import Grapher.Proofs.Double.Bits
import Grapher.Tree.Basic

/-!
# Written numbers read back

Scanning the text of a nonnegative finite double, with anything after it that cannot continue a
numeral, takes exactly that text and gives a decimal that stands for the double. The text may be
the digits of a whole number, digits around a point, or digits with a power of ten; the decimal
read from it is the one that was written, up to zeros at its end.
-/

set_option autoImplicit false

namespace Grapher.Decimal

open List Double Text

variable {c : Char} {d : Decimal} {value : Float} {rest run : List Char}

/-! ## Digits and their value -/

theorem decimalValue?_digitChar {d : Nat} (small : d < 10) :
    decimalValue? (Nat.digitChar d) = some d := by
  have all : ∀ d < 10, decimalValue? (Nat.digitChar d) = some d := by decide
  exact all d small

theorem isDecimal_of_isDigit (digit : c.isDigit = true) : isDecimal c = true := by
  unfold isDecimal decimalValue?
  rw [if_pos digit]
  rfl

theorem isDecimal_of_mem_digits {n : Nat} (member : c ∈ digits n) : isDecimal c = true :=
  isDecimal_of_isDigit (Nat.isDigit_of_mem_toDigits (by decide) (by decide) member)

theorem foldl_value (start : Nat) (text : List Char) :
    text.foldl (fun value c => 10 * value + (decimalValue? c).getD 0) start
      = start * 10 ^ text.length + valueOf text := by
  induction text generalizing start with
  | nil => simp [valueOf]
  | cons c text ih =>
    unfold valueOf
    rw [foldl_cons, foldl_cons, ih, ih (10 * 0 + _), length_cons, Nat.pow_succ,
      Nat.add_mul, Nat.mul_zero, Nat.zero_add, Nat.mul_comm 10 start, Nat.mul_assoc,
      Nat.mul_comm 10, Nat.add_assoc]

theorem valueOf_append (first second : List Char) :
    valueOf (first ++ second) = valueOf first * 10 ^ second.length + valueOf second := by
  unfold valueOf
  rw [foldl_append, foldl_value]
  rfl

theorem valueOf_digitChar {d : Nat} (small : d < 10) : valueOf [Nat.digitChar d] = d := by
  simp [valueOf, decimalValue?_digitChar small]

theorem valueOf_zeros (count : Nat) : valueOf (replicate count '0') = 0 := by
  induction count with
  | zero => rfl
  | succ count ih =>
    rw [replicate_succ', valueOf_append, ih]
    decide

/-- The digits of a number have its value. -/
theorem valueOf_digits (n : Nat) : valueOf (digits n) = n := by
  induction n using Nat.strongRecOn with
  | ind n ih =>
    unfold digits at ih ⊢
    by_cases small : n < 10
    · rw [Nat.toDigits_of_lt_base small, valueOf_digitChar small]
    · rw [Nat.toDigits_of_base_le (by decide) (by omega), valueOf_append, ih (n / 10) (by omega),
        valueOf_digitChar (by omega)]
      simp only [length_singleton, Nat.pow_one]
      omega

/-! ## Scanning digits, points and powers -/

/-- A text that cannot continue a numeral: no digit, point or mark of a power starts it. -/
structure EndsNumeral (rest : List Char) : Prop where
  noDigit : Free isDecimal rest
  noPoint : rest.head? ≠ some '.'
  noPower : rest.head? ≠ some 'e' ∧ rest.head? ≠ some 'E'

theorem scanPower?_of_ends (ends : EndsNumeral rest) : scanPower? rest = none := by
  cases rest with
  | nil => rfl
  | cons c rest =>
    have lower : c ≠ 'e' := fun same => ends.noPower.1 (by rw [same]; rfl)
    have upper : c ≠ 'E' := fun same => ends.noPower.2 (by rw [same]; rfl)
    simp [scanPower?, lower, upper]

/-! ## Numerals -/

/-- The signs in front of a power of ten, and whether they make it negative. -/
def powerSigns : List (List Char × Bool) := [([], false), (['+'], false), (['-'], true)]

/-- A numeral and the decimal that it shows. A power of ten may stand behind the digits. -/
inductive Numeral : List Char → Decimal → Prop where
  | plain {text : List Char} {d : Decimal} (shows : Plain text d) : Numeral text d
  | scaled {text run : List Char} {d : Decimal} {mark : Char} {sign : List Char × Bool}
    (shows : Plain text d) (letter : mark ∈ ['e', 'E']) (signed : sign ∈ powerSigns)
    (some : run ≠ []) (all : ∀ c ∈ run, isDecimal c = true) :
    Numeral (text ++ mark :: (sign.1 ++ run))
      ⟨d.coefficient, d.exponent + if sign.2 then -(valueOf run : Int) else valueOf run⟩

theorem scanPower?_signed {mark : Char} {sign : List Char × Bool} (letter : mark ∈ ['e', 'E'])
    (signed : sign ∈ powerSigns) (some : run ≠ []) (all : ∀ c ∈ run, isDecimal c = true)
    (ends : Free isDecimal rest) :
    scanPower? (mark :: (sign.1 ++ run) ++ rest)
      = .some (if sign.2 then -(valueOf run : Int) else valueOf run, rest) := by
  have scanned := scanDigits_append all ends
  obtain ⟨c, more, rfl⟩ := exists_cons_of_ne_nil some
  have other : c ≠ '-' ∧ c ≠ '+' := by
    constructor <;> rintro rfl <;> exact absurd (all _ (.head _)) (by decide)
  have marked : (mark == 'e' || mark == 'E') = true := by
    simpa using letter
  simp only [powerSigns, mem_cons, not_mem_nil, or_false] at signed
  rw [cons_append] at scanned
  rcases signed with rfl | rfl | rfl <;> simp [scanPower?, marked, other, scanned]

/-- A numeral is read whole in front of what cannot continue it. -/
theorem scanScaled?_numeral (numeral : Numeral run d) (ends : EndsNumeral rest) :
    scanScaled? (run ++ rest) = some (d, rest) := by
  cases numeral with
  | plain shows =>
    simp only [scanScaled?, scanPlain?_plain shows ends.noDigit (absurd · ends.noPoint),
      scanPower?_of_ends ends, Option.bind_eq_bind, Option.bind_some]
  | @scaled text digits d mark sign shows letter signed some all =>
    have apart : isDecimal mark = false ∧ mark ≠ '.' := by
      revert letter mark
      decide
    have plain := scanPlain?_plain shows (@Free.cons isDecimal mark apart.1 (sign.1 ++ digits ++ rest))
      fun point => absurd (Option.some.inj point) apart.2
    have power := scanPower?_signed letter signed some all ends.noDigit
    rw [append_assoc]
    simp only [scanScaled?, cons_append, plain, Option.bind_eq_bind, Option.bind_some] at power ⊢
    rw [power]

/-! ## Numerals as whole texts -/

theorem scanScaled?_of_numeral (numeral : Numeral run d) : scanScaled? run = some (d, []) := by
  have ends : EndsNumeral [] := ⟨by rintro c ⟨⟩, by rintro ⟨⟩, by rintro ⟨⟩, by rintro ⟨⟩⟩
  have scanned := scanScaled?_numeral numeral ends
  rwa [append_nil] at scanned

theorem chars_of_numeral (numeral : Numeral run d) : run ≠ [] ∧ ∀ c ∈ run, IsNumeric c := by
  obtain ⟨taken, some, shape, all⟩ := takes_of_scanScaled? (scanScaled?_of_numeral numeral)
  rw [append_nil] at shape
  exact shape ▸ ⟨some, all⟩

/-- A numeral starts with a digit or with its point. -/
theorem startsNumeral_of_numeral (numeral : Numeral run d) :
    ∃ c more, run = c :: more ∧ (isDecimal c = true ∨ c = '.') := by
  have starts : ∀ {text : List Char} {d : Decimal}, Plain text d →
      ∃ c more, text = c :: more ∧ (isDecimal c = true ∨ c = '.') := by
    intro text d shows
    cases shows with
    | whole some all =>
      obtain ⟨c, more, rfl⟩ := exists_cons_of_ne_nil some
      exact ⟨c, more, rfl, .inl (all c (.head _))⟩
    | @point whole fraction some all =>
      cases whole with
      | nil => exact ⟨'.', fraction, rfl, .inr rfl⟩
      | cons c whole => exact ⟨c, _, rfl, .inl (all c (.head _))⟩
  cases numeral with
  | plain shows => exact starts shows
  | scaled shows letter signed some all =>
    obtain ⟨c, more, rfl, first⟩ := starts shows
    exact ⟨c, _, rfl, first⟩

/-- The characters of numerals are visible. -/
theorem isBlank_of_isNumeric (numeric : IsNumeric c) : isBlank c = false := by
  rcases numeric with digit | mark
  · exact isBlank_of_isDecimal digit
  · revert c
    decide

theorem dropUnderscores?_of_none (none : '_' ∉ run) (afterDigit : Bool) :
    dropUnderscores? afterDigit run = some run := by
  induction run generalizing afterDigit with
  | nil => rfl
  | cons c run ih =>
    rw [mem_cons, not_or] at none
    have other : (c == '_') = false := beq_eq_false_iff_ne.mpr (Ne.symm none.1)
    rw [dropUnderscores?, if_neg (by rw [other]; exact Bool.false_ne_true), ih none.2]
    · rfl
    · rintro next rest rfl
      exact absurd rfl none.1

/-- No word for a number starts as a numeral does. -/
theorem namedDouble?_of_starts (first : isDecimal c = true ∨ c = '.') (negative : Bool) :
    namedDouble? negative (c :: run) = none := by
  have other : c.toLower ≠ 'i' ∧ c.toLower ≠ 'n' := by
    rcases first with digit | rfl
    · by_cases small : c.toNat < 128
      · exact @forall_ascii (fun c => isDecimal c = true → c.toLower ≠ 'i' ∧ c.toLower ≠ 'n')
          (by decide +kernel) c small digit
      · have same : c.toLower = c := by
          delta Char.toLower
          refine dif_neg fun upper => small ?_
          exact Nat.lt_of_le_of_lt (UInt32.le_iff_toNat_le.mp upper.2) (by decide)
        rw [same]
        constructor <;> rintro rfl <;> exact small (by decide)
    · decide
  have unlike : ∀ {d : Char} {word : List Char}, c.toLower ≠ d →
      String.ofList ((c :: run).map Char.toLower) ≠ String.ofList (d :: word) := by
    intro d word apart same
    have chars := String.ofList_injective same
    exact apart (cons.inj chars).1
  unfold namedDouble?
  split
  · next same => exact absurd same (unlike other.1)
  · next same => exact absurd same (unlike other.1)
  · next same => exact absurd same (unlike other.2)
  · rfl

/-- A numeral taken as a double is the double of the decimal that it shows. -/
theorem doubleOfText_numeral (numeral : Numeral run d) :
    doubleOfText (String.ofList run) = .ok (d.toDouble false) := by
  obtain ⟨-, chars⟩ := chars_of_numeral numeral
  have stays : ∀ text : List Char, (∀ c ∈ text, IsNumeric c) →
      text.dropWhile isNumberBlank = text := by
    intro text all
    cases text with
    | nil => rfl
    | cons c text =>
      refine dropWhile_cons_of_neg ?_
      rw [isNumberBlank, isBlank_of_isNumeric (all c (.head _))]
      exact Bool.false_ne_true
  have trimmed : trimNumber run = run := by
    rw [trimNumber, stays run chars, stays _ fun c member => chars c (mem_reverse.mp member),
      reverse_reverse]
  have joined := dropUnderscores?_of_none
    (fun member => absurd (chars '_' member) (by unfold IsNumeric; decide)) false
  obtain ⟨c, more, rfl, first⟩ := startsNumeral_of_numeral numeral
  have unsigned : splitSign (c :: more) = (false, c :: more) := by
    unfold splitSign
    split
    · next same => cases same; exact absurd first (by decide)
    · next same => cases same; exact absurd first (by decide)
    · rfl
  have read : readDouble? (String.ofList (c :: more)) = some (d.toDouble false) := by
    unfold readDouble?
    simp only [String.toList_ofList, trimmed, joined, Option.bind_eq_bind, Option.bind_some, unsigned,
      namedDouble?_of_starts first, scanScaled?_of_numeral numeral]
  rw [doubleOfText, read]

/-! ## The text of a decimal -/

theorem all_zeros (count : Nat) :
    ∀ c ∈ replicate count '0', isDecimal c = true := by
  intro c member
  rw [eq_of_mem_replicate member]
  decide

theorem all_append {first second : List Char} (all : ∀ c ∈ first, isDecimal c = true)
    (all' : ∀ c ∈ second, isDecimal c = true) :
    ∀ c ∈ first ++ second, isDecimal c = true :=
  forall_mem_append.mpr ⟨all, all'⟩

/-- Digits in place show the decimal that they stand for. -/
theorem numeral_positional (point : Int) (some : run ≠ [])
    (all : ∀ c ∈ run, isDecimal c = true) :
    ∃ read, Numeral (positional run point) read ∧
      read.bits = Decimal.bits ⟨valueOf run, point - run.length⟩ := by
  have zero : ∀ c ∈ ['0'], isDecimal c = true := all_zeros 1
  have nothing : valueOf ['0'] = 0 := valueOf_zeros 1
  unfold positional
  by_cases below : point ≤ 0
  · -- a zero, the point, and zeros before the digits
    generalize fill : replicate (-point).toNat '0' = zeros
    have length : zeros.length = (-point).toNat := by rw [← fill, length_replicate]
    have value : valueOf (['0'] ++ (zeros ++ run)) = valueOf run := by
      rw [valueOf_append, valueOf_append, ← fill, valueOf_zeros, nothing]
      simp
    have power : -((zeros ++ run).length : Int) = point - run.length := by
      rw [length_append, length]
      omega
    have shown := @Plain.point ['0'] (zeros ++ run) (by simp)
      (all_append zero (all_append (fill ▸ all_zeros _) all))
    rw [value, power] at shown
    rw [if_pos below]
    exact ⟨_, .plain shown, rfl⟩
  · rw [if_neg below]
    simp only
    by_cases long : run.length ≤ point.toNat
    · -- the digits, zeros up to the point, and one zero after it
      generalize fill : replicate (point.toNat - run.length) '0' = zeros
      have length : zeros.length = point.toNat - run.length := by
        rw [← fill, length_replicate]
      have value : valueOf (run ++ zeros ++ ['0']) = valueOf run * 10 ^ (zeros.length + 1) := by
        rw [valueOf_append, valueOf_append, nothing, ← fill, valueOf_zeros]
        simp [Nat.pow_succ, Nat.mul_assoc]
      have shown := @Plain.point (run ++ zeros) ['0'] (by simp)
        (all_append (all_append all (fill ▸ all_zeros _)) zero)
      rw [value] at shown
      rw [if_pos long]
      refine ⟨_, .plain shown, ?_⟩
      rw [bits_mul_pow]
      congr 2
      simp only [length_singleton]
      omega
    · -- the point stands among the digits
      have shown := @Plain.point (run.take point.toNat) (run.drop point.toNat)
        (by rw [take_append_drop]; exact some) (by rw [take_append_drop]; exact all)
      rw [take_append_drop] at shown
      rw [if_neg long]
      refine ⟨_, .plain shown, ?_⟩
      congr 2
      rw [length_drop]
      omega

/-- Digits with a power of ten show the decimal that they stand for. -/
theorem numeral_scientific (leading : Int) (some : run ≠ [])
    (all : ∀ c ∈ run, isDecimal c = true) :
    Numeral (scientific run leading) ⟨valueOf run, leading - (run.length - 1)⟩ := by
  generalize size : digits leading.natAbs = shown
  have nonempty : shown ≠ [] := size ▸ Nat.toDigits_ne_nil
  have value : valueOf (replicate (2 - shown.length) '0' ++ shown) = leading.natAbs := by
    rw [valueOf_append, valueOf_zeros, Nat.zero_mul, Nat.zero_add, ← size, valueOf_digits]
  -- the power of ten has a sign and at least two digits
  have scaled : ∀ {text : List Char} {d : Decimal}, Plain text d →
      Numeral (text ++ exponentSuffix leading) ⟨d.coefficient, d.exponent + leading⟩ := by
    intro text d shows
    have power := @Numeral.scaled text (replicate (2 - shown.length) '0' ++ shown) d 'e'
      (if leading < 0 then (['-'], true) else (['+'], false)) shows (by decide)
      (by split <;> decide) (append_ne_nil_of_right_ne_nil _ nonempty)
      (all_append (all_zeros _) fun c member => isDecimal_of_mem_digits (size ▸ member))
    rw [value] at power
    unfold exponentSuffix
    rw [size]
    split at power
    · next negative =>
      have signed : -(leading.natAbs : Int) = leading := by omega
      rw [if_pos rfl, signed] at power
      rwa [if_pos negative]
    · next positive =>
      have signed : (leading.natAbs : Int) = leading := by omega
      rw [if_neg Bool.false_ne_true, signed] at power
      rwa [if_neg positive]
  obtain ⟨first, more, rfl⟩ := exists_cons_of_ne_nil some
  cases more with
  | nil =>
    have whole := scaled (.whole some all)
    simpa [scientific] using whole
  | cons second more =>
    have point := scaled (@Plain.point [first] (second :: more) some all)
    have power : -((second :: more).length : Int) + leading
        = leading - ((first :: second :: more).length - 1) := by
      simp only [length_cons]
      omega
    rw [power] at point
    simpa only [scientific, cons_append, nil_append, append_assoc] using point

theorem numeral_layout (d : Decimal) : ∃ read, Numeral (layout d) read ∧ read.bits = d.bits := by
  have some : digits d.coefficient ≠ [] := Nat.toDigits_ne_nil
  have all : ∀ c ∈ digits d.coefficient, isDecimal c = true :=
    fun c member => isDecimal_of_mem_digits member
  unfold layout
  simp only
  split
  · obtain ⟨read, numeral, same⟩ :=
      numeral_positional (d.exponent + (digits d.coefficient).length - 1 + 1) some all
    refine ⟨read, numeral, same.trans ?_⟩
    rw [valueOf_digits]
    congr 2
    omega
  · refine ⟨_, numeral_scientific _ some all, ?_⟩
    rw [valueOf_digits]
    congr 2
    omega

/-- The text of the magnitude of a finite double shows that magnitude. -/
theorem numeral_magnitudeText {bits : Nat} (finite : bits < infinityBits) :
    ∃ read, Numeral (magnitudeText bits) read ∧ read.bits = bits := by
  unfold magnitudeText
  split
  · next zero =>
    have shown := @Plain.point ['0'] ['0'] (by decide) (all_zeros 2)
    have value : valueOf (['0'] ++ ['0']) = 0 := valueOf_zeros 2
    rw [value] at shown
    exact ⟨_, .plain shown, by rw [zero, bits_zero]⟩
  · next nonzero =>
    obtain ⟨read, numeral, same⟩ := numeral_layout (shortest bits)
    exact ⟨read, numeral, same.trans (bits_shortest (by omega) finite)⟩

/-! ## The first character -/

/-- A text that an ASCII digit starts. -/
def StartsDigit (text : List Char) : Prop :=
  ∃ c more, text = c :: more ∧ c.isDigit = true

theorem startsDigit_digits (n : Nat) : StartsDigit (digits n) := by
  cases shown : digits n with
  | nil => exact absurd shown Nat.toDigits_ne_nil
  | cons c more =>
    have member : c ∈ Nat.toDigits 10 n := by
      change Nat.toDigits 10 n = c :: more at shown
      rw [shown]
      exact .head _
    exact ⟨c, more, rfl, Nat.isDigit_of_mem_toDigits (by decide) (by decide) member⟩

theorem startsDigit_layout (d : Decimal) : StartsDigit (layout d) := by
  obtain ⟨c, more, shown, digit⟩ := startsDigit_digits d.coefficient
  have zero : '0'.isDigit = true := rfl
  unfold layout
  simp only [shown]
  split
  · unfold positional
    simp only
    split
    · exact ⟨'0', _, rfl, zero⟩
    · split
      · exact ⟨c, _, rfl, digit⟩
      · next below _ =>
        generalize d.exponent + ((c :: more).length : Int) - 1 + 1 = point at below
        obtain ⟨count, counted⟩ : ∃ count, point.toNat = count + 1 :=
          ⟨point.toNat - 1, by omega⟩
        rw [counted]
        exact ⟨c, _, rfl, digit⟩
  · unfold scientific
    split
    · next empty => cases empty
    · next equal => cases equal; exact ⟨c, _, rfl, digit⟩
    · next equal => cases equal; exact ⟨c, _, rfl, digit⟩

/-! ## The text of a number -/

/-- A whole double has a whole number of ones. -/
theorem whole_of_divides {size : Option Int} {one : Nat} {whole : Int}
    (found : (do
      let size ← size
      if size % one = 0 then some (size / one) else none) = some whole) :
    ∃ count, size = some count ∧ (one : Int) ∣ count ∧ whole = count / one := by
  cases size with
  | none => cases found
  | some count =>
    simp only [Option.bind_eq_bind, Option.bind_some] at found
    split at found <;> cases found
    rename_i divides
    exact ⟨count, rfl, Int.dvd_of_emod_eq_zero divides, rfl⟩

/-- The units of a nonnegative finite double. -/
theorem units_of_units? {size : Int} (sign : isNegative value = false)
    (found : units? value = some size) :
    size = unitsOfBits (magnitudeBits value) := by
  unfold units? at found
  split at found
  · rw [sign] at found
    exact (Option.some.inj found).symm
  · cases found

/-- A nonnegative whole double is that many ones. -/
theorem unitsOfBits_of_toInt? {whole : Int} (sign : isNegative value = false)
    (found : toInt? value = some whole) :
    ∃ count : Nat, whole = count ∧
      unitsOfBits (magnitudeBits value) = count * unitsPerOne := by
  obtain ⟨size, units, divides, rfl⟩ := whole_of_divides found
  rw [units_of_units? sign units] at divides ⊢
  generalize unitsPerOne = one at divides ⊢
  generalize unitsOfBits (magnitudeBits value) = count at divides ⊢
  exact ⟨count / one, rfl, (Nat.div_mul_cancel (Int.natCast_dvd_natCast.mp divides)).symm⟩

theorem toList_intText (count : Nat) : (intText count).toList = digits count := by
  simp [intText, show ¬ (count : Int) < 0 by omega]

theorem toList_doubleText (sign : isNegative value = false)
    (finite : isFinite value = true) :
    (doubleText value).toList = magnitudeText (magnitudeBits value) := by
  have bound : magnitudeBits value < infinityBits := by
    simpa [isFinite] using finite
  simp [doubleText, sign, show ¬ infinityBits < magnitudeBits value by omega,
    show ¬ magnitudeBits value = infinityBits by omega]

/-- The text of a nonnegative finite number shows that number. -/
theorem numeral_numberText (sign : isNegative value = false) (finite : isFinite value = true) :
    ∃ read, Numeral (Node.numberText value).toList read ∧ read.toDouble false = value := by
  have bound : magnitudeBits value < infinityBits := by
    simpa [isFinite] using finite
  have read_eq : ∀ read : Decimal, read.bits = magnitudeBits value →
      read.toDouble false = value := by
    intro read same
    unfold toDouble
    rw [same, ← sign]
    exact ofMagnitudeBits_self value
  unfold Node.numberText
  split
  · next whole found =>
    obtain ⟨count, rfl, units⟩ := unitsOfBits_of_toInt? sign found
    have shown := @Plain.whole (digits count) Nat.toDigits_ne_nil fun c => isDecimal_of_mem_digits
    rw [valueOf_digits] at shown
    rw [toList_intText]
    exact ⟨_, .plain shown, read_eq _ (bits_whole bound units)⟩
  · obtain ⟨read, numeral, same⟩ := numeral_magnitudeText bound
    rw [toList_doubleText sign finite]
    exact ⟨read, numeral, read_eq _ same⟩

theorem startsDigit_magnitudeText (bits : Nat) : StartsDigit (magnitudeText bits) := by
  unfold magnitudeText
  split
  · exact ⟨'0', _, rfl, rfl⟩
  · exact startsDigit_layout _

end Grapher.Decimal
