import DanWs.CompactDecimals
import DanWs.NearestValues

namespace DanWs.ShortDecimals

open DanWs.BinaryFloat
open DanWs.CompactDecimals
open DanWs.CompactForms
open DanWs.CompactParts
open DanWs.DecimalDigits
open DanWs.DecimalRendering
open DanWs.NearestValues
open DanWs.ScalarBytes
open DanWs.VarFloats

/-- A decimal with its last digit behind the point, not so small that it is printed
with an exponent. -/
structure ShortDecimal (mantissa scale : ℕ) : Prop where
  pos : 0 < mantissa
  lt : mantissa < 10 ^ 15
  trimmed : ¬ 10 ∣ mantissa
  scale_pos : 0 < scale
  least : (10 : ℚ) ^ (-4 : ℤ) ≤ mantissa / 10 ^ scale

/-- The number that a finite double stands for. -/
def number (value : UInt64) : ℚ := signed value.toNat (magnitude value.toNat)

structure IsNearest (value : UInt64) (x : ℚ) : Prop where
  finite : binary64.isFinite value.toNat = true
  nearest : ∀ other : UInt64, binary64.isFinite other.toNat = true →
    |number value - x| ≤ |number other - x|

def negated (value : UInt64) : UInt64 :=
  UInt64.ofNat (binary64.withSign (!binary64.signBit value.toNat) value.toNat)

/-- A double and its opposite are sent as the digits of the decimal and its scale,
with 64 on top of the scale for the sign. -/
structure SentCompact (mantissa scale : ℕ) (value : UInt64) : Prop where
  positive : serializeVarDouble value =
    .ok (UInt8.ofNat scale :: encodeVarInt (UInt64.ofNat mantissa))
  negative : serializeVarDouble (negated value) =
    .ok (UInt8.ofNat (scale + 64) :: encodeVarInt (UInt64.ofNat mantissa))

/-- The number is off by at most half a unit of its 17th digit. -/
def WithinHalfUnit (x number : ℚ) : Prop :=
  |number - x| ≤ (10 : ℚ) ^ (Int.log 10 number - 16) / 2

section Decimals

variable {mantissa scale : ℕ}

theorem decimal_unique {other places : ℕ} (h : ¬ 10 ∣ mantissa) (hother : ¬ 10 ∣ other)
    (hvalue : (mantissa / 10 ^ scale : ℚ) = other / 10 ^ places) :
    mantissa = other ∧ scale = places := by
  rw [div_eq_div_iff (by positivity) (by positivity)] at hvalue
  have hproduct : mantissa * 10 ^ places = other * 10 ^ scale := by exact_mod_cast hvalue
  have hpower : ∀ {count : ℕ}, 0 < 10 ^ count := Nat.pow_pos (by decide)
  rcases lt_trichotomy scale places with hless | rfl | hmore
  · obtain ⟨more, rfl⟩ := Nat.exists_eq_add_of_lt hless
    exfalso
    apply hother
    rw [Nat.add_assoc, Nat.pow_add, Nat.mul_left_comm, Nat.mul_comm other] at hproduct
    rw [← Nat.mul_left_cancel hpower hproduct, Nat.pow_succ]
    exact ⟨mantissa * 10 ^ more, by ring⟩
  · exact ⟨Nat.mul_right_cancel hpower hproduct, rfl⟩
  · obtain ⟨more, rfl⟩ := Nat.exists_eq_add_of_lt hmore
    exfalso
    apply h
    rw [Nat.add_assoc, Nat.pow_add, Nat.mul_left_comm, Nat.mul_comm mantissa] at hproduct
    rw [Nat.mul_left_cancel hpower hproduct, Nat.pow_succ]
    exact ⟨other * 10 ^ more, by ring⟩

theorem ShortDecimal.scale_lt (h : ShortDecimal mantissa scale) : scale < 19 := by
  have hleast := h.least
  have hlt : (mantissa : ℚ) < 10 ^ 15 := by exact_mod_cast h.lt
  rw [le_div_iff₀ (by positivity)] at hleast
  have hpower : (10 : ℚ) ^ scale < 10 ^ 19 := by
    rw [zpow_neg, inv_mul_le_iff₀ (by positivity)] at hleast
    norm_num at hleast ⊢
    linarith
  exact (pow_lt_pow_iff_right₀ (by norm_num)).mp hpower

theorem ShortDecimal.value_lt (h : ShortDecimal mantissa scale) :
    (mantissa / 10 ^ scale : ℚ) < (10 : ℚ) ^ (15 - scale : ℤ) := by
  have hlt : (mantissa : ℚ) < 10 ^ 15 := by exact_mod_cast h.lt
  rw [zpow_sub₀ (by norm_num), zpow_natCast]
  exact div_lt_div_of_pos_right hlt (by positivity)

theorem ShortDecimal.value_pos (h : ShortDecimal mantissa scale) :
    (0 : ℚ) < mantissa / 10 ^ scale := lt_of_lt_of_le (by norm_num) h.least

/-- A number that is no further than half a unit of its 17th digit from the decimal
has the decimal's last digit before its 17th. -/
theorem ShortDecimal.log_add_scale_le (h : ShortDecimal mantissa scale) {x : ℚ} (hx : 0 < x)
    (hwithin : WithinHalfUnit (mantissa / 10 ^ scale) x) : Int.log 10 x + scale ≤ 15 := by
  have hlow := (log_bounds hx).1
  have hvalue := h.value_lt
  rw [WithinHalfUnit] at hwithin
  generalize (mantissa / 10 ^ scale : ℚ) = decimal at hvalue hwithin
  generalize Int.log 10 x = F at hlow hwithin ⊢
  by_contra hgt
  have hbelow : decimal < (10 : ℚ) ^ (F - 1) :=
    hvalue.trans_le (zpow_le_zpow_right₀ (by norm_num) (by omega))
  have hunit : (10 : ℚ) ^ (F - 16) ≤ (10 : ℚ) ^ (F - 1) :=
    zpow_le_zpow_right₀ (by norm_num) (by omega)
  have hten : (10 : ℚ) ^ F = 10 * (10 : ℚ) ^ (F - 1) := by
    rw [← zpow_one_add₀ (by norm_num)]
    congr 1
    ring
  have hpos : (0 : ℚ) < (10 : ℚ) ^ (F - 1) := zpow_pos (by norm_num) _
  have habove := (abs_le.mp hwithin).2
  linarith

end Decimals

section Rendering

variable {mantissa scale bits : ℕ}

theorem magnitude_pos (hzero : binary64.isZero bits = false) : 0 < magnitude bits := by
  have hnumerator := numerator_pos hzero
  have hdenominator := magnitude_denominator_pos bits
  rw [magnitude]
  positivity

theorem withinHalfUnit_rendered (hzero : binary64.isZero bits = false) :
    WithinHalfUnit (rendered bits) (magnitude bits) := by
  obtain ⟨whole, fraction, exponent, significand, hrounding, hlayout⟩ :=
    generalText_layout (show 0 < 17 by decide) (numerator_pos hzero)
      (magnitude_denominator_pos bits)
  rw [rendered, hlayout.textValue_eq]
  exact hrounding.close

/-- The decimal has an even number of units of the 17th digit, so a tie is decided for
it too. -/
theorem rendered_eq (h : ShortDecimal mantissa scale) (hzero : binary64.isZero bits = false)
    (hwithin : WithinHalfUnit (mantissa / 10 ^ scale) (magnitude bits)) :
    rendered bits = mantissa / 10 ^ scale := by
  have hplaces := h.log_add_scale_le (magnitude_pos hzero) hwithin
  obtain ⟨whole, fraction, hlayout⟩ := layout_generalText (show 0 < 17 by decide)
    (numerator_pos hzero) (magnitude_denominator_pos bits)
  rw [rendered, hlayout.textValue_eq]
  rw [WithinHalfUnit, magnitude] at hwithin
  rw [magnitude] at hplaces
  obtain ⟨count, hcount⟩ : ∃ count : ℕ, (count : ℤ) = 15 -
      Int.log 10 ((binary64.magnitude bits).1 / (binary64.magnitude bits).2 : ℚ) - scale :=
    ⟨_, Int.toNat_of_nonneg (by omega)⟩
  have hunits : (mantissa / 10 ^ scale : ℚ) = (mantissa * 10 ^ (count + 1) : ℕ) * (10 : ℚ) ^
      (Int.log 10 ((binary64.magnitude bits).1 / (binary64.magnitude bits).2 : ℚ) -
        ((17 : ℕ) - 1)) := by
    push_cast
    rw [mul_assoc, ← zpow_natCast (10 : ℚ) (count + 1), ← zpow_add₀ (by norm_num), div_eq_mul_inv,
      ← zpow_natCast, ← zpow_neg]
    congr 2
    push_cast
    omega
  rw [hunits] at hwithin ⊢
  refine decimalDigits_eq (by decide) (numerator_pos hzero) (magnitude_denominator_pos bits) ?_
    hwithin
  rw [Nat.pow_succ]
  exact ⟨mantissa * 10 ^ count * 5, by ring⟩

/-- A short decimal is printed without an exponent. -/
theorem ShortDecimal.exponent_bounds (h : ShortDecimal mantissa scale) {x : ℚ} {exponent : ℤ}
    {significand : ℕ} (hrounding : IsRounding 17 x exponent significand)
    (hvalue : significand * (10 : ℚ) ^ (exponent - ((17 : ℕ) - 1)) = mantissa / 10 ^ scale) :
    -4 ≤ exponent ∧ exponent < 17 := by
  have hunit : (0 : ℚ) < (10 : ℚ) ^ (exponent - ((17 : ℕ) - 1)) := zpow_pos (by norm_num) _
  have hhigh : (significand : ℚ) < 10 ^ 17 := by exact_mod_cast hrounding.high
  have hlow : (10 ^ 16 : ℚ) ≤ significand := by exact_mod_cast hrounding.low
  have habove : (10 : ℚ) ^ (-4 : ℤ) < (10 : ℚ) ^ (exponent + 1) := by
    calc
      (10 : ℚ) ^ (-4 : ℤ) ≤ significand * (10 : ℚ) ^ (exponent - ((17 : ℕ) - 1)) :=
        hvalue ▸ h.least
      _ < 10 ^ 17 * (10 : ℚ) ^ (exponent - ((17 : ℕ) - 1)) := mul_lt_mul_of_pos_right hhigh hunit
      _ = (10 : ℚ) ^ (exponent + 1) := by
          rw [← zpow_natCast, ← zpow_add₀ (by norm_num)]
          congr 1
          push_cast
          ring
  have hbelow : (10 : ℚ) ^ exponent < (10 : ℚ) ^ (15 - scale : ℤ) := by
    calc
      (10 : ℚ) ^ exponent = 10 ^ 16 * (10 : ℚ) ^ (exponent - ((17 : ℕ) - 1)) := by
          rw [← zpow_natCast, ← zpow_add₀ (by norm_num)]
          congr 1
          push_cast
          ring
      _ ≤ significand * (10 : ℚ) ^ (exponent - ((17 : ℕ) - 1)) :=
        mul_le_mul_of_nonneg_right hlow hunit.le
      _ < (10 : ℚ) ^ (15 - scale : ℤ) := hvalue ▸ h.value_lt
  rw [zpow_lt_zpow_iff_right₀ (by norm_num)] at habove hbelow
  omega

theorem compactParts_eq (h : ShortDecimal mantissa scale) (hzero : binary64.isZero bits = false)
    (hrendered : rendered bits = mantissa / 10 ^ scale) (truncated : UInt64) :
    compactParts (generalText 17 (binary64.magnitude bits).1 (binary64.magnitude bits).2)
      truncated = some (scale, UInt64.ofNat mantissa) := by
  obtain ⟨whole, fraction, exponent, significand, hrounding, hlayout⟩ :=
    generalText_layout (show 0 < 17 by decide) (numerator_pos hzero)
      (magnitude_denominator_pos bits)
  rw [rendered, hlayout.textValue_eq] at hrendered
  obtain ⟨hleast, hmost⟩ := h.exponent_bounds hrounding hrendered
  obtain ⟨htext, hplaces⟩ := hlayout.fixed (by push_cast; omega)
  have hvalue : (significand / 10 ^ fraction.length : ℚ) = mantissa / 10 ^ scale := by
    rw [← hrendered, div_eq_mul_inv, ← zpow_natCast, hplaces, ← zpow_neg]
    congr 2
    ring
  have hhigh := hrounding.high
  rw [htext]
  rcases compactParts_fixed hlayout.written (by omega) (by omega) truncated with
    ⟨⟨rounded, rfl⟩, -⟩ | ⟨places, sent, -, hparts, hsent, htrimmed⟩
  · exfalso
    have hinteger : (rounded : ℚ) = mantissa / 10 ^ scale := by
      rw [← hvalue]
      push_cast
      field_simp
    rw [eq_div_iff (by positivity)] at hinteger
    have hmantissa : rounded * 10 ^ scale = mantissa := by exact_mod_cast hinteger
    apply h.trimmed
    rw [← hmantissa]
    exact Dvd.dvd.mul_left (dvd_pow_self 10 h.scale_pos.ne') rounded
  · obtain ⟨rfl, rfl⟩ := decimal_unique h.trimmed htrimmed (hvalue.symm.trans hsent.symm)
    rw [hparts, UInt64.ofNat_toNat]

end Rendering

section Signs

variable {value : UInt64}

theorem toNat_negated (value : UInt64) : (negated value).toNat =
    value.toNat % 9223372036854775808 +
      if binary64.signBit value.toNat then 0 else 9223372036854775808 := by
  rw [negated, Format.withSign, Format.absBits, UInt64.toNat_ofNat']
  change (_ % 9223372036854775808 + if _ then 9223372036854775808 else 0) %
    18446744073709551616 = _
  cases binary64.signBit value.toNat <;> simp <;> omega

theorem exponentField_negated :
    binary64.exponentField (negated value).toNat = binary64.exponentField value.toNat := by
  rw [toNat_negated]
  change _ / 4503599627370496 % 2048 = _ / 4503599627370496 % 2048
  split <;> omega

theorem fractionField_negated :
    binary64.fractionField (negated value).toNat = binary64.fractionField value.toNat := by
  rw [toNat_negated]
  change _ % 4503599627370496 = _ % 4503599627370496
  split <;> omega

theorem signBit_negated :
    binary64.signBit (negated value).toNat = !binary64.signBit value.toNat := by
  have hsign : ∀ bits, binary64.signBit bits = (bits / 9223372036854775808 % 2 == 1) :=
    fun _ => rfl
  rw [hsign, toNat_negated]
  cases binary64.signBit value.toNat with
  | true => simp
  | false => simp

theorem magnitude_negated :
    binary64.magnitude (negated value).toNat = binary64.magnitude value.toNat := by
  rw [Format.magnitude, Format.magnitude, exponentField_negated, fractionField_negated]

theorem isFinite_negated :
    binary64.isFinite (negated value).toNat = binary64.isFinite value.toNat := by
  rw [Format.isFinite, Format.isFinite, exponentField_negated]

theorem isZero_negated :
    binary64.isZero (negated value).toNat = binary64.isZero value.toNat := by
  rw [Format.isZero, Format.isZero, exponentField_negated, fractionField_negated]

end Signs

section Nearest

variable {mantissa scale : ℕ} {value : UInt64}

theorem number_pos (h : ShortDecimal mantissa scale)
    (hnearest : IsNearest value (mantissa / 10 ^ scale)) : 0 < number value := by
  have hnear := hnearest.nearest 0x3F00000000000000 (by decide +kernel)
  have hother : number 0x3F00000000000000 = 1 / 32768 := by decide +kernel
  have hleast := h.least
  norm_num at hleast
  rw [hother] at hnear
  have hcloser : |(1 / 32768 : ℚ) - mantissa / 10 ^ scale| < mantissa / 10 ^ scale := by
    rw [abs_lt]
    constructor <;> linarith
  have hbelow := (abs_lt.mp (hnear.trans_lt hcloser)).1
  linarith

theorem signBit_of_number_pos (h : 0 < number value) : binary64.signBit value.toNat = false := by
  rw [← Bool.not_eq_true]
  intro hsign
  rw [number, signed, if_pos hsign, magnitude] at h
  have hmagnitude : (0 : ℚ) ≤ (binary64.magnitude value.toNat).1 /
      (binary64.magnitude value.toNat).2 := by positivity
  linarith

theorem number_eq_magnitude (h : 0 < number value) : number value = magnitude value.toNat := by
  rw [number, signed, signBit_of_number_pos h]
  rfl

theorem isZero_of_number_pos (h : 0 < number value) : binary64.isZero value.toNat = false := by
  rw [← Bool.not_eq_true]
  intro hzero
  rw [number_eq_magnitude h, magnitude, (magnitude_eq_zero_iff value.toNat).mpr hzero] at h
  simp at h

theorem isNearest_ofFraction {numerator denominator : ℕ} (hnumerator : 0 < numerator)
    (hdenominator : 0 < denominator)
    (hfinite : binary64.ofFraction numerator denominator < binary64.infinity) :
    IsNearest (UInt64.ofNat (binary64.ofFraction numerator denominator))
      (numerator / denominator) := by
  have hnearest := abs_sub_value_ofFraction_le hnumerator hdenominator hfinite
  generalize binary64.ofFraction numerator denominator = bits at hfinite hnearest ⊢
  change bits < 9218868437227405312 at hfinite
  have hbits : (UInt64.ofNat bits).toNat = bits :=
    UInt64.toNat_ofNat_of_lt' (show bits < 18446744073709551616 by omega)
  have hsign : binary64.signBit bits = false := by
    change (bits / 9223372036854775808 % 2 == 1) = false
    rw [Nat.div_eq_of_lt (by omega)]
    rfl
  have hnumber : number (UInt64.ofNat bits) = value binary64 bits := by
    rw [number, hbits, signed, hsign]
    rfl
  refine ⟨?_, fun other _ => ?_⟩
  · have hexponent : bits / 4503599627370496 < 2047 := by omega
    rw [hbits, Format.isFinite, bne_iff_ne]
    change bits / 4503599627370496 % 2048 ≠ 2047
    omega
  · rw [hnumber, abs_sub_comm, abs_sub_comm (number other)]
    refine (hnearest other.toNat).trans ?_
    change |_ - magnitude other.toNat| ≤ _
    rw [number, signed]
    split
    · have hx : (0 : ℚ) < numerator / denominator := by positivity
      have hmagnitude : 0 ≤ magnitude other.toNat := by
        rw [magnitude]
        positivity
      rw [sub_neg_eq_add, abs_of_nonneg (add_nonneg hx.le hmagnitude), abs_le]
      constructor <;> linarith
    · exact le_rfl

end Nearest

section Sent

variable {mantissa scale : ℕ} {value : UInt64}

theorem ShortDecimal.toNat_mantissa (h : ShortDecimal mantissa scale) :
    (UInt64.ofNat mantissa).toNat = mantissa := by
  have hlt := h.lt
  exact UInt64.toNat_ofNat_of_lt' (show mantissa < 18446744073709551616 by omega)

theorem ShortDecimal.compactForm (h : ShortDecimal mantissa scale) :
    CompactForm (UInt8.ofNat scale :: encodeVarInt (UInt64.ofNat mantissa))
      (mantissa / 10 ^ scale) := by
  have hscale := h.scale_lt
  obtain ⟨hbyte, hsign, hread⟩ := firstByte_read (show scale ≤ 63 by omega) false
  have hplain : ¬ 0x40 ≤ UInt8.ofNat scale := fun hmarked => Bool.false_ne_true (hsign.mp hmarked)
  refine ⟨_, _, rfl, hbyte, ?_⟩
  change (UInt8.ofNat scale).toNat % 64 = scale at hread
  rw [if_neg hplain, one_mul, h.toNat_mantissa, hread]

theorem serializeVarDouble_of_rendered (h : ShortDecimal mantissa scale)
    (hfinite : binary64.isFinite value.toNat = true)
    (hzero : binary64.isZero value.toNat = false) (hrange : magnitude value.toNat < 2 ^ 64)
    (hrendered : rendered value.toNat = mantissa / 10 ^ scale) :
    serializeVarDouble value = .ok ((if binary64.signBit value.toNat then UInt8.ofNat (scale + 64)
      else UInt8.ofNat scale) :: encodeVarInt (UInt64.ofNat mantissa)) := by
  have hsafe : ¬ maxSafeInt < UInt64.ofNat mantissa := by
    have hlt := h.lt
    rw [UInt64.lt_iff_toNat_lt, h.toNat_mantissa]
    change ¬ 9007199254740991 < mantissa
    omega
  rw [serializeVarDouble_eq hfinite (by simp [hzero]), compactDouble_of_lt hrange,
    compactParts_eq h hzero hrendered, hzero, compactBytes]
  dsimp only
  rw [if_neg hsafe, Bool.not_false, Bool.and_true]
  rfl

theorem magnitude_lt (h : ShortDecimal mantissa scale) (hpos : 0 < number value)
    (hwithin : WithinHalfUnit (mantissa / 10 ^ scale) (magnitude value.toNat)) :
    magnitude value.toNat < 2 ^ 64 := by
  have hplaces := h.log_add_scale_le (magnitude_pos (isZero_of_number_pos hpos)) hwithin
  have hscale := h.scale_pos
  calc
    magnitude value.toNat < (10 : ℚ) ^ (Int.log 10 (magnitude value.toNat) + 1) :=
      (log_bounds (magnitude_pos (isZero_of_number_pos hpos))).2
    _ ≤ (10 : ℚ) ^ (15 : ℤ) := zpow_le_zpow_right₀ (by norm_num) (by omega)
    _ < 2 ^ 64 := by norm_num

theorem sentCompact_of_withinHalfUnit (h : ShortDecimal mantissa scale)
    (hfinite : binary64.isFinite value.toNat = true) (hpos : 0 < number value)
    (hwithin : WithinHalfUnit (mantissa / 10 ^ scale) (magnitude value.toNat)) :
    SentCompact mantissa scale value := by
  have hzero := isZero_of_number_pos hpos
  have hsign := signBit_of_number_pos hpos
  have hrange := magnitude_lt h hpos hwithin
  have hrendered := rendered_eq h hzero hwithin
  constructor
  · have hsent := serializeVarDouble_of_rendered h hfinite hzero hrange hrendered
    rw [hsign] at hsent
    exact hsent
  · have hsent := @serializeVarDouble_of_rendered mantissa scale (negated value) h
      (isFinite_negated.trans hfinite) (isZero_negated.trans hzero)
      (by rwa [magnitude, magnitude_negated]) (by rwa [rendered, magnitude_negated])
    rw [signBit_negated, hsign] at hsent
    exact hsent

theorem rendered_of_serializeVarDouble (h : ShortDecimal mantissa scale)
    (hfinite : binary64.isFinite value.toNat = true) (hpos : 0 < number value)
    (hsent : serializeVarDouble value =
      .ok (UInt8.ofNat scale :: encodeVarInt (UInt64.ofNat mantissa))) :
    rendered value.toNat = mantissa / 10 ^ scale := by
  have hform := h.compactForm
  have hzero := isZero_of_number_pos hpos
  rw [serializeVarDouble_eq hfinite (by simp [hzero])] at hsent
  have hrange : magnitude value.toNat < 2 ^ 64 := by
    by_contra hrange
    rw [compactDouble_eq_error hrange] at hsent
    cases hsent
  have hdigit : ¬ IsDigitBelow 5 (rendered value.toNat) := by
    intro hdigit
    obtain ⟨bytes, hbytes, hzeroForm⟩ := compactDouble_of_isDigitBelow hdigit
    rw [hbytes] at hsent
    obtain rfl := Except.ok.inj hsent
    exact h.value_pos.ne' (compactForm_unique hform hzeroForm)
  obtain ⟨compact, hcompact, hsound⟩ := compactDouble_sound hrange hdigit
  rw [hcompact] at hsent
  cases compact with
  | none =>
      rw [← Except.ok.inj hsent] at hform
      exact absurd hform (not_compactForm_fallback _ _)
  | some bytes =>
      obtain rfl := Except.ok.inj hsent
      have hnumber := hsound _ rfl
      rw [signed, signBit_of_number_pos hpos] at hnumber
      exact compactForm_unique hnumber hform

/-- A short decimal is sent as its digits exactly if the nearest double differs from it
by at most half a unit of the 17th digit. -/
theorem sentCompact_iff (h : ShortDecimal mantissa scale)
    (hnearest : IsNearest value (mantissa / 10 ^ scale)) :
    SentCompact mantissa scale value ↔
      WithinHalfUnit (mantissa / 10 ^ scale) (number value) := by
  have hpos := number_pos h hnearest
  rw [number_eq_magnitude hpos]
  constructor
  · intro hsent
    rw [← rendered_of_serializeVarDouble h hnearest.finite hpos hsent.positive]
    exact withinHalfUnit_rendered (isZero_of_number_pos hpos)
  · exact sentCompact_of_withinHalfUnit h hnearest.finite hpos

/-- `7.5` is a double. -/
theorem sentCompact_seven_and_a_half : SentCompact 75 1 0x401E000000000000 := by
  have hnumber : number 0x401E000000000000 = (75 : ℕ) / 10 ^ 1 := by decide +kernel
  have hleast : (10 : ℚ) ^ (-4 : ℤ) ≤ (75 : ℕ) / 10 ^ 1 := by norm_num
  have hnearest : IsNearest 0x401E000000000000 ((75 : ℕ) / 10 ^ 1) := by
    refine ⟨by decide +kernel, fun other _ => ?_⟩
    rw [hnumber, sub_self, abs_zero]
    exact abs_nonneg _
  refine (sentCompact_iff ⟨by decide, by decide, by decide, by decide, hleast⟩ hnearest).mpr ?_
  rw [WithinHalfUnit, hnumber, sub_self, abs_zero]
  exact div_nonneg (zpow_nonneg (by norm_num) _) (by norm_num)

/-- The double nearest to `3.14` is printed as `3.1400000000000001`, which has too many
digits. -/
theorem not_sentCompact : ¬ ∀ (mantissa scale : ℕ) (value : UInt64),
    ShortDecimal mantissa scale → IsNearest value (mantissa / 10 ^ scale) →
      SentCompact mantissa scale value := by
  intro hall
  have hleast : (10 : ℚ) ^ (-4 : ℤ) ≤ (314 : ℕ) / 10 ^ 2 := by norm_num
  have hdecimal : ShortDecimal 314 2 := ⟨by decide, by decide, by decide, by decide, hleast⟩
  have hbits : (0x40091EB851EB851F : UInt64) = UInt64.ofNat (binary64.ofFraction 314 100) := by
    decide +kernel
  have hnearest : IsNearest 0x40091EB851EB851F ((314 : ℕ) / 10 ^ 2) := by
    have hfraction := @isNearest_ofFraction 314 100 (by decide) (by decide) (by decide +kernel)
    rw [hbits]
    norm_num at hfraction ⊢
    exact hfraction
  have hrendered := rendered_of_serializeVarDouble hdecimal hnearest.finite
    (number_pos hdecimal hnearest) (hall 314 2 _ hdecimal hnearest).positive
  have hprinted : rendered (0x40091EB851EB851F : UInt64).toNat =
      31400000000000001 / 10000000000000000 := by decide +kernel
  rw [hprinted] at hrendered
  norm_num at hrendered

end Sent

end DanWs.ShortDecimals
