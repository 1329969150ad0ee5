import DanWs.CompactReadback

namespace DanWs.NumberReadback

open DanWs.BinaryFloat
open DanWs.CompactDecimals
open DanWs.CompactForms
open DanWs.CompactReadback
open DanWs.DecimalRendering
open DanWs.NearestValues
open DanWs.ScalarBytes
open DanWs.ValueSpacing
open DanWs.VarFloats

section Doubles

variable {value : UInt64} {bytes : List UInt8}

/-- A compact form that is not that of a small number of one digit is read as the
double. -/
theorem deserializeCompact_eq
    (hzero : ¬ (binary64.isZero value.toNat = true ∧ binary64.signBit value.toNat = true))
    (hfinite : binary64.isFinite value.toNat = true) (hrange : magnitude value.toNat < 2 ^ 64)
    (hdigit : ¬ IsDigitBelow 5 (rendered value.toNat))
    (hbytes : compactDouble value.toNat = .ok (some bytes)) :
    bytes.length ≠ 0 ∧ byteAt bytes 0 ≠ 0x80 ∧ deserializeCompact bytes = value := by
  have hdenote := partsDenote_rendered hrange hdigit
  rw [compactDouble_of_lt hrange, Except.ok.injEq] at hbytes
  generalize hparts : compactParts (generalText 17 (binary64.magnitude value.toNat).1
    (binary64.magnitude value.toNat).2) (UInt64.ofNat ((binary64.magnitude value.toNat).1 /
      (binary64.magnitude value.toNat).2)) = parts at hdenote hbytes
  cases parts with
  | none => cases hbytes
  | some pair =>
      obtain ⟨scale, mantissa⟩ := pair
      have hscale := compactParts_scale (magnitude_denominator_pos value.toNat) hparts
      have hsafe : mantissa ≤ maxSafeInt := by
        by_contra hlarge
        rw [compactBytes] at hbytes
        dsimp only at hbytes
        rw [if_pos (UInt64.not_le.mp hlarge)] at hbytes
        cases hbytes
      obtain ⟨hlength, hmarker, hread⟩ := deserializeCompact_compactBytes (by omega) hbytes
      obtain ⟨-, hnumber⟩ := hdenote scale mantissa rfl hsafe
      refine ⟨hlength, hmarker, hread.trans ?_⟩
      cases hbits : binary64.isZero value.toNat with
      | true =>
          have hmantissa : mantissa = 0 := by
            rw [rendered_eq_zero hbits, div_eq_zero_iff, or_iff_left (by positivity)] at hnumber
            exact UInt64.toNat_inj.mp (by exact_mod_cast hnumber)
          have hsign : binary64.signBit value.toNat = false := by
            rw [← Bool.not_eq_true]
            exact fun hsign => hzero ⟨hbits, hsign⟩
          have hvalue := withSign_absBits value
          rw [hsign, absBits_eq_zero hbits] at hvalue
          rw [hmantissa, scaledDouble_zero, hsign, Bool.false_and, hvalue]
      | false =>
          have hmantissa : 0 < mantissa.toNat := by
            have hpos := rendered_pos hbits
            rw [← hnumber] at hpos
            by_contra hnone
            rw [Nat.eq_zero_of_not_pos hnone, Nat.cast_zero, zero_div] at hpos
            exact lt_irrefl 0 hpos
          rw [scaledDouble_eq hmantissa hsafe (by omega) (absBits_lt hfinite)
            (hnumber ▸ closeTo_rendered hbits), Bool.not_false, Bool.and_true, withSign_absBits]

theorem deserializeCompact_of_isDigitBelow (hdigit : IsDigitBelow 5 (rendered value.toNat))
    (hbytes : compactDouble value.toNat = .ok (some bytes)) :
    bytes.length ≠ 0 ∧ byteAt bytes 0 ≠ 0x80 ∧ deserializeCompact bytes =
      UInt64.ofNat (binary64.withSign (binary64.signBit value.toNat) 0) := by
  obtain ⟨hinteger, hparts⟩ := compactParts_of_isDigitBelow hdigit
  have hrange : magnitude value.toNat < 2 ^ 64 := by
    rw [magnitude_lt_iff, hinteger]
    decide
  rw [compactDouble_of_lt hrange, hinteger, Except.ok.injEq] at hbytes
  change compactBytes _ (compactParts _ 0) = _ at hbytes
  rw [hparts] at hbytes
  obtain ⟨hlength, hmarker, hread⟩ := deserializeCompact_compactBytes (by omega) hbytes
  refine ⟨hlength, hmarker, hread.trans ?_⟩
  rw [scaledDouble_zero, not_isZero_of_isDigitBelow hdigit, Bool.not_false, Bool.and_true]

end Doubles

section Conversions

variable {f : UInt32}

theorem toNat_floatToDouble (hfinite : binary32.isFinite f.toNat = true) :
    (floatToDouble f).toNat =
      binary64.ofFraction (binary32.magnitude f.toNat).1 (binary32.magnitude f.toNat).2 +
        if binary32.signBit f.toNat then 9223372036854775808 else 0 := by
  have hle := ofFraction_le binary64 (binary32.magnitude f.toNat).1 (binary32.magnitude f.toNat).2
  have hinfinity : binary64.infinity = 9218868437227405312 := rfl
  rw [floatToDouble, convert]
  dsimp only
  rw [if_pos hfinite, Format.withSign, Format.absBits, UInt64.toNat_ofNat']
  change (_ % 9223372036854775808 + if _ then 9223372036854775808 else 0) %
    18446744073709551616 = _
  split <;> omega

theorem absBits32_lt (hfinite : binary32.isFinite f.toNat = true) :
    binary32.absBits f.toNat < binary32.infinity := by
  rw [Format.isFinite, bne_iff_ne] at hfinite
  change f.toNat / 8388608 % 256 ≠ 255 at hfinite
  change f.toNat % 2147483648 < 2139095040
  omega

theorem magnitude_absBits32 (bits : ℕ) :
    binary32.magnitude (binary32.absBits bits) = binary32.magnitude bits := by
  have hexponent :
      binary32.exponentField (binary32.absBits bits) = binary32.exponentField bits := by
    change bits % 2147483648 / 8388608 % 256 = bits / 8388608 % 256
    omega
  have hfraction :
      binary32.fractionField (binary32.absBits bits) = binary32.fractionField bits := by
    change bits % 2147483648 % 8388608 = bits % 8388608
    omega
  rw [Format.magnitude, Format.magnitude, hexponent, hfraction]

theorem magnitude_ofFraction_float (hfinite : binary32.isFinite f.toNat = true) :
    binary64.ofFraction (binary32.magnitude f.toNat).1 (binary32.magnitude f.toNat).2 <
        binary64.infinity ∧
      magnitude (binary64.ofFraction (binary32.magnitude f.toNat).1
        (binary32.magnitude f.toNat).2) = value binary32 f.toNat := by
  have hdenominator : 0 < (binary32.magnitude f.toNat).2 := Nat.two_pow_pos _
  rcases Nat.eq_zero_or_pos (binary32.magnitude f.toNat).1 with hnone | hnumerator
  · rw [value, hnone, Format.ofFraction, if_pos rfl, Nat.cast_zero, zero_div]
    exact ⟨by decide, by decide +kernel⟩
  · have hle : value binary32 f.toNat ≤ (2 : ℚ) ^ (binary64.bias : ℤ) := by
      have hgreatest := value_le_greatest (by decide) (absBits32_lt hfinite)
      rw [value, magnitude_absBits32] at hgreatest
      refine hgreatest.trans ?_
      change ((2 ^ 24 - 1 : ℕ) : ℚ) * (2 : ℚ) ^ ((127 : ℕ) - (23 : ℕ) : ℤ) ≤ (2 : ℚ) ^ (1023 : ℤ)
      refine le_trans (?_ : _ ≤ (2 : ℚ) ^ (24 : ℤ) * (2 : ℚ) ^ (104 : ℤ)) ?_
      · refine mul_le_mul_of_nonneg_right (by norm_num) (zpow_nonneg (by norm_num) _)
      · rw [← zpow_add₀ (by norm_num)]
        exact zpow_le_zpow_right₀ (by norm_num) (by decide)
    have hrange := ofFraction_lt_infinity (by decide) hnumerator hdenominator (le_greatest hle)
    refine ⟨hrange, ?_⟩
    have hsignificand := significand_lt binary32 f.toNat
    refine value_ofFraction hnumerator hdenominator hrange (value_eq binary32 f.toNat)
      (hsignificand.trans (by decide)) ?_
    rw [unitExponent]
    change 1 - ((1023 : ℕ) + (52 : ℕ) : ℤ) ≤ (max _ 1 : ℕ) - ((127 : ℕ) + (23 : ℕ) : ℤ)
    omega

theorem fields_floatToDouble (hfinite : binary32.isFinite f.toNat = true) :
    binary64.absBits (floatToDouble f).toNat =
        binary64.ofFraction (binary32.magnitude f.toNat).1 (binary32.magnitude f.toNat).2 ∧
      binary64.signBit (floatToDouble f).toNat = binary32.signBit f.toNat ∧
      binary64.isFinite (floatToDouble f).toNat = true := by
  have hrange := (magnitude_ofFraction_float hfinite).1
  have hdouble := toNat_floatToDouble hfinite
  generalize
    binary64.ofFraction (binary32.magnitude f.toNat).1 (binary32.magnitude f.toNat).2 = bits
    at hrange hdouble ⊢
  change bits < 9218868437227405312 at hrange
  rw [hdouble]
  refine ⟨?_, ?_, ?_⟩
  · change (_ + if _ then 9223372036854775808 else 0) % 9223372036854775808 = bits
    split <;> omega
  · change ((_ + if _ then 9223372036854775808 else 0) / 9223372036854775808 % 2 == 1) = _
    rw [Bool.eq_iff_iff, beq_iff_eq]
    split
    · next hnegative =>
        rw [iff_true_right hnegative]
        omega
    · next hpositive =>
        rw [iff_false_right hpositive]
        omega
  · rw [Format.isFinite, bne_iff_ne]
    change (_ + if _ then 9223372036854775808 else 0) / 4503599627370496 % 2048 ≠ 2047
    split <;> omega

theorem isFinite_floatToDouble_of_finite (hfinite : binary32.isFinite f.toNat = true) :
    binary64.isFinite (floatToDouble f).toNat = true := (fields_floatToDouble hfinite).2.2

theorem magnitude_floatToDouble (hfinite : binary32.isFinite f.toNat = true) :
    magnitude (floatToDouble f).toNat = value binary32 f.toNat := by
  rw [← magnitude_absBits, (fields_floatToDouble hfinite).1, (magnitude_ofFraction_float hfinite).2]

theorem isZero_floatToDouble (hfinite : binary32.isFinite f.toNat = true) :
    binary64.isZero (floatToDouble f).toNat = binary32.isZero f.toNat := by
  rw [Bool.eq_iff_iff, ← value_eq_zero_iff, ← value_eq_zero_iff, value_binary64,
    magnitude_floatToDouble hfinite]

theorem doubleToFloat_floatToDouble (hfinite : binary32.isFinite f.toNat = true) :
    doubleToFloat (floatToDouble f) = f := by
  obtain ⟨-, hsign, hfinite64⟩ := fields_floatToDouble hfinite
  have hmagnitude := magnitude_floatToDouble hfinite
  have hfloat : binary32.ofFraction (binary64.magnitude (floatToDouble f).toNat).1
      (binary64.magnitude (floatToDouble f).toNat).2 = binary32.absBits f.toNat := by
    have hbits := absBits32_lt hfinite
    have hself : value binary32 (binary32.absBits f.toNat) = value binary32 f.toNat := by
      rw [value, value, magnitude_absBits32]
    rw [magnitude] at hmagnitude
    rcases Nat.eq_zero_or_pos (binary64.magnitude (floatToDouble f).toNat).1 with hnone | hnumerator
    · rw [hnone, Nat.cast_zero, zero_div] at hmagnitude
      rw [hnone, Format.ofFraction, if_pos rfl]
      refine value_injective (by decide) hbits ?_
      rw [hself, ← hmagnitude]
      decide +kernel
    · exact ofFraction_eq_of_value (by decide) hnumerator (magnitude_denominator_pos _) hbits
        (hmagnitude.trans hself.symm)
  have hlt := f.toNat_lt
  rw [← UInt32.toNat_inj, toNat_doubleToFloat hfinite64, hsign, hfloat]
  change (f.toNat % 2147483648 + if (f.toNat / 2147483648 % 2 == 1) = true then 2147483648
    else 0) = f.toNat
  split
  · next hnegative =>
      rw [beq_iff_eq] at hnegative
      omega
  · next hpositive =>
      rw [beq_iff_eq] at hpositive
      omega

/-- The fraction of a NaN is made quiet on either way, that of an infinity stays zero. -/
def quiet (fraction : ℕ) : ℕ := if fraction = 0 then 0 else fraction ||| 4194304

theorem quiet_lt {fraction : ℕ} (h : fraction < 8388608) : quiet fraction < 8388608 := by
  rw [quiet]
  split
  · decide
  · exact Nat.or_lt_two_pow (n := 23) h (by decide)

theorem quiet_quiet (fraction : ℕ) : quiet (quiet fraction) = quiet fraction := by
  rw [quiet, quiet]
  split
  · rfl
  · rw [if_neg (by simp), Nat.or_assoc, Nat.or_self]

theorem toNat_floatToDouble_of_not_finite (h : binary32.isFinite f.toNat = false) :
    (floatToDouble f).toNat = 9218868437227405312 +
      quiet (binary32.fractionField f.toNat) * 536870912 +
        if binary32.signBit f.toNat then 9223372036854775808 else 0 := by
  have hfraction : binary32.fractionField f.toNat < 8388608 := Nat.mod_lt _ (by decide)
  have hquiet := quiet_lt hfraction
  have hmagnitude : (if binary32.fractionField f.toNat = 0 then binary64.infinity
      else convertNaN binary32 binary64 f.toNat) =
        9218868437227405312 + quiet (binary32.fractionField f.toNat) * 536870912 := by
    rw [quiet]
    split
    · rfl
    · have hshifted := Nat.shiftLeft_or_distrib (a := binary32.fractionField f.toNat)
        (b := 4194304) (i := 29)
      rw [Nat.shiftLeft_eq, Nat.shiftLeft_eq, Nat.shiftLeft_eq] at hshifted
      change 9218868437227405312 + (binary32.fractionField f.toNat * 2 ^ 52 / 2 ^ 23 ||| 2 ^ 51) = _
      rw [show binary32.fractionField f.toNat * 2 ^ 52 / 2 ^ 23 =
        binary32.fractionField f.toNat * 2 ^ 29 by omega]
      exact congrArg (9218868437227405312 + ·) hshifted.symm
  rw [floatToDouble, convert]
  dsimp only
  rw [if_neg (by simp [h]), hmagnitude, Format.withSign, Format.absBits, UInt64.toNat_ofNat']
  change (_ % 9223372036854775808 + if _ then 9223372036854775808 else 0) %
    18446744073709551616 = _
  split <;> omega

theorem toNat_doubleToFloat_of_not_finite {value : UInt64} {fraction : ℕ} {negative : Bool}
    (hfraction : fraction < 8388608) (h : value.toNat = 9218868437227405312 +
      fraction * 536870912 + if negative then 9223372036854775808 else 0) :
    (doubleToFloat value).toNat = 2139095040 + quiet fraction +
      if negative then 2147483648 else 0 := by
  have hquiet := quiet_lt hfraction
  have hfield : binary64.fractionField value.toNat = fraction * 536870912 := by
    rw [h]
    change (_ + if _ then 9223372036854775808 else 0) % 4503599627370496 = _
    split <;> omega
  have hnot : binary64.isFinite value.toNat = false := by
    rw [h, Format.isFinite, bne_eq_false_iff_eq]
    change (_ + if _ then 9223372036854775808 else 0) / 4503599627370496 % 2048 = 2047
    split <;> omega
  have hsign : binary64.signBit value.toNat = negative := by
    rw [h, Bool.eq_iff_iff, Format.signBit, beq_iff_eq]
    change (_ + if _ then 9223372036854775808 else 0) / 9223372036854775808 % 2 = 1 ↔ _
    split
    · next hnegative =>
        rw [iff_true_right hnegative]
        omega
    · next hpositive =>
        rw [iff_false_right hpositive]
        omega
  have hmagnitude : (if binary64.fractionField value.toNat = 0 then binary32.infinity
      else convertNaN binary64 binary32 value.toNat) = 2139095040 + quiet fraction := by
    rw [convertNaN, hfield, quiet]
    by_cases hzero : fraction = 0
    · rw [if_pos (by omega), if_pos hzero]
      rfl
    · rw [if_neg (by omega), if_neg hzero]
      change 2139095040 + (fraction * 536870912 * 8388608 / 4503599627370496 ||| 4194304) = _
      rw [show fraction * 536870912 * 8388608 / 4503599627370496 = fraction by omega]
  rw [doubleToFloat, convert]
  dsimp only
  rw [if_neg (by simp [hnot]), hmagnitude, hsign, Format.withSign, Format.absBits,
    UInt32.toNat_ofNat']
  change (_ % 2147483648 + if _ then 2147483648 else 0) % 4294967296 = _
  split <;> omega

/-- The double of a float is not changed by another way through the float. -/
theorem floatToDouble_doubleToFloat (f : UInt32) :
    floatToDouble (doubleToFloat (floatToDouble f)) = floatToDouble f := by
  cases hfinite : binary32.isFinite f.toNat with
  | true => rw [doubleToFloat_floatToDouble hfinite]
  | false =>
      have hfraction : binary32.fractionField f.toNat < 8388608 := Nat.mod_lt _ (by decide)
      have hquiet := quiet_lt hfraction
      have hdouble := toNat_floatToDouble_of_not_finite hfinite
      have hfloat := toNat_doubleToFloat_of_not_finite hquiet hdouble
      rw [quiet_quiet] at hfloat
      generalize doubleToFloat (floatToDouble f) = sent at hfloat ⊢
      have hfield : binary32.fractionField sent.toNat =
          quiet (binary32.fractionField f.toNat) := by
        rw [hfloat]
        change (_ + if _ then 2147483648 else 0) % 8388608 = _
        split <;> omega
      have hnot : binary32.isFinite sent.toNat = false := by
        rw [hfloat, Format.isFinite, bne_eq_false_iff_eq]
        change (_ + if _ then 2147483648 else 0) / 8388608 % 256 = 255
        split <;> omega
      have hsign : binary32.signBit sent.toNat = binary32.signBit f.toNat := by
        rw [hfloat, Bool.eq_iff_iff, Format.signBit, beq_iff_eq]
        change (_ + if _ then 2147483648 else 0) / 2147483648 % 2 = 1 ↔ _
        split
        · next hnegative =>
            rw [iff_true_right hnegative]
            omega
        · next hpositive =>
            rw [iff_false_right hpositive]
            omega
      rw [← UInt64.toNat_inj, toNat_floatToDouble_of_not_finite hnot, hfield, quiet_quiet, hsign,
        hdouble]

end Conversions

end DanWs.NumberReadback
