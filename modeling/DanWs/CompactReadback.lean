import DanWs.ShortDecimals
import DanWs.ValueSpacing

namespace DanWs.CompactReadback

open DanWs.BinaryFloat
open DanWs.CompactForms
open DanWs.CompactParts
open DanWs.DecimalDigits
open DanWs.DecimalRendering
open DanWs.NearestValues
open DanWs.ScalarBytes
open DanWs.ShortDecimals
open DanWs.ValueSpacing
open DanWs.VarFloats

section Quotients

variable {mantissa : UInt64} {scale bits : ℕ}

theorem value_binary64 (bits : ℕ) : value binary64 bits = magnitude bits := rfl

/-- A natural number with a short odd part is a double. -/
theorem magnitude_ofFraction_one {odd twos : ℕ} (hpos : 0 < odd) (hodd : odd < 2 ^ 53)
    (htwos : twos ≤ 900) : magnitude (binary64.ofFraction (odd * 2 ^ twos) 1) = odd * 2 ^ twos := by
  have hnumerator : 0 < odd * 2 ^ twos := Nat.mul_pos hpos (Nat.two_pow_pos _)
  have hx : ((odd * 2 ^ twos : ℕ) / (1 : ℕ) : ℚ) = odd * (2 : ℚ) ^ (twos : ℤ) := by
    rw [zpow_natCast]
    push_cast
    rw [div_one]
  have hle : ((odd * 2 ^ twos : ℕ) / (1 : ℕ) : ℚ) ≤ (2 : ℚ) ^ (binary64.bias : ℤ) := by
    have hodd' : (odd : ℚ) < 2 ^ 53 := by exact_mod_cast hodd
    calc
      ((odd * 2 ^ twos : ℕ) / (1 : ℕ) : ℚ) = odd * (2 : ℚ) ^ (twos : ℤ) := hx
      _ ≤ 2 ^ 53 * (2 : ℚ) ^ (twos : ℤ) :=
        mul_le_mul_of_nonneg_right hodd'.le (zpow_nonneg (by norm_num) _)
      _ = (2 : ℚ) ^ (53 + twos : ℤ) := by
        rw [zpow_add₀ (by norm_num)]
        rfl
      _ ≤ (2 : ℚ) ^ (binary64.bias : ℤ) := by
        refine zpow_le_zpow_right₀ (by norm_num) ?_
        change (53 + twos : ℤ) ≤ (1023 : ℕ)
        omega
  have hexact := value_ofFraction hnumerator Nat.one_pos
    (ofFraction_lt_infinity (by decide) hnumerator Nat.one_pos (le_greatest hle)) hx hodd
    (by change 1 - ((1023 : ℕ) + (52 : ℕ) : ℤ) ≤ twos; omega)
  rw [← value_binary64, hexact, hx, zpow_natCast]

theorem magnitude_power (h : scale ≤ 22) :
    magnitude (binary64.ofFraction (10 ^ scale) 1) = 10 ^ scale := by
  have hfive : 5 ^ scale < 2 ^ 53 :=
    (Nat.pow_le_pow_right (by decide) h).trans_lt (by decide)
  have hten : 10 ^ scale = 5 ^ scale * 2 ^ scale := by rw [← Nat.mul_pow]
  rw [hten, magnitude_ofFraction_one (Nat.pow_pos (by decide)) hfive (by omega)]
  push_cast
  rw [← mul_pow]
  norm_num

theorem magnitude_mantissa (hpos : 0 < mantissa.toNat) (hsafe : mantissa ≤ maxSafeInt) :
    magnitude (binary64.ofFraction mantissa.toNat 1) = mantissa.toNat := by
  have hlt : mantissa.toNat < 2 ^ 53 := by
    rw [UInt64.le_iff_toNat_le] at hsafe
    exact Nat.lt_of_le_of_lt hsafe (by decide)
  have hexact := magnitude_ofFraction_one hpos hlt (Nat.zero_le 900)
  rw [pow_zero, Nat.mul_one, pow_zero, mul_one] at hexact
  exact hexact

/-- A double that is close to the decimal is what the decimal is read as. -/
theorem scaledDouble_eq (hpos : 0 < mantissa.toNat) (hsafe : mantissa ≤ maxSafeInt)
    (hscale : scale ≤ 22) (hbits : bits < binary64.infinity)
    (hclose : CloseTo binary64 (mantissa.toNat / 10 ^ scale) bits) (negative : Bool) :
    scaledDouble negative mantissa scale = UInt64.ofNat (binary64.withSign negative bits) := by
  have hnumerator := magnitude_mantissa hpos hsafe
  have hdenominator := magnitude_power hscale
  have hunit := magnitude_denominator_pos (binary64.ofFraction mantissa.toNat 1)
  have hunit' := magnitude_denominator_pos (binary64.ofFraction (10 ^ scale) 1)
  rw [scaledDouble]
  rw [magnitude] at hnumerator hdenominator
  generalize binary64.magnitude (binary64.ofFraction mantissa.toNat 1) = dividend
    at hnumerator hunit ⊢
  generalize binary64.magnitude (binary64.ofFraction (10 ^ scale) 1) = divisor
    at hdenominator hunit' ⊢
  obtain ⟨numerator, numeratorUnit⟩ := dividend
  obtain ⟨denominator, denominatorUnit⟩ := divisor
  dsimp only at hnumerator hdenominator hunit hunit' ⊢
  have hupper : 0 < numerator := by
    rcases Nat.eq_zero_or_pos numerator with rfl | hpositive
    · rw [Nat.cast_zero, zero_div] at hnumerator
      exact absurd (Nat.cast_injective hnumerator).symm hpos.ne'
    · exact hpositive
  have hlower : 0 < denominator := by
    rcases Nat.eq_zero_or_pos denominator with rfl | hpositive
    · rw [Nat.cast_zero, zero_div] at hdenominator
      exact absurd hdenominator.symm (by positivity)
    · exact hpositive
  have hquotient : ((numerator * denominatorUnit : ℕ) / (numeratorUnit * denominator : ℕ) : ℚ) =
      mantissa.toNat / 10 ^ scale := by
    rw [← hnumerator, ← hdenominator]
    push_cast
    rw [div_div_div_eq]
  have hrange : ((numerator * denominatorUnit : ℕ) / (numeratorUnit * denominator : ℕ) : ℚ) ≤
      (2 : ℚ) ^ (binary64.bias : ℤ) := by
    have hle : mantissa.toNat ≤ 9007199254740991 := UInt64.le_iff_toNat_le.mp hsafe
    have hle' : (mantissa.toNat : ℚ) ≤ 9007199254740991 := by exact_mod_cast hle
    rw [hquotient]
    calc
      (mantissa.toNat / 10 ^ scale : ℚ) ≤ mantissa.toNat :=
        div_le_self (Nat.cast_nonneg _) (one_le_pow₀ (by norm_num))
      _ ≤ (2 : ℚ) ^ (53 : ℤ) := by
        norm_num
        linarith
      _ ≤ (2 : ℚ) ^ (binary64.bias : ℤ) := zpow_le_zpow_right₀ (by norm_num) (by decide)
  have hleft := Nat.mul_pos hupper hunit'
  have hright := Nat.mul_pos hunit hlower
  rw [ofFraction_eq_of_closeTo hleft hright
    (ofFraction_lt_infinity (by decide) hleft hright (le_greatest hrange)) hbits
    (hquotient ▸ hclose)]

theorem scaledDouble_zero (negative : Bool) (scale : ℕ) :
    scaledDouble negative 0 scale = UInt64.ofNat (binary64.withSign negative 0) := by
  have hzero : (binary64.magnitude (binary64.ofFraction (0 : UInt64).toNat 1)).1 = 0 := by decide
  rw [scaledDouble]
  dsimp only
  rw [hzero, Nat.zero_mul, Format.ofFraction, if_pos rfl]

end Quotients

section Parts

variable {value : UInt64}

theorem absBits_lt (hfinite : binary64.isFinite value.toNat = true) :
    binary64.absBits value.toNat < binary64.infinity := by
  rw [Format.isFinite, bne_iff_ne] at hfinite
  change value.toNat / 4503599627370496 % 2048 ≠ 2047 at hfinite
  change value.toNat % 9223372036854775808 < 9218868437227405312
  omega

theorem magnitude_absBits (bits : ℕ) : magnitude (binary64.absBits bits) = magnitude bits := by
  have hexponent :
      binary64.exponentField (binary64.absBits bits) = binary64.exponentField bits := by
    change bits % 9223372036854775808 / 4503599627370496 % 2048 = bits / 4503599627370496 % 2048
    omega
  have hfraction :
      binary64.fractionField (binary64.absBits bits) = binary64.fractionField bits := by
    change bits % 9223372036854775808 % 4503599627370496 = bits % 4503599627370496
    omega
  rw [magnitude, magnitude, Format.magnitude, Format.magnitude, hexponent, hfraction]

theorem absBits_eq_zero {bits : ℕ} (h : binary64.isZero bits = true) :
    binary64.absBits bits = 0 := by
  rw [Format.isZero, Bool.and_eq_true, beq_iff_eq, beq_iff_eq] at h
  obtain ⟨hexponent, hfraction⟩ := h
  change bits / 4503599627370496 % 2048 = 0 at hexponent
  change bits % 4503599627370496 = 0 at hfraction
  change bits % 9223372036854775808 = 0
  omega

theorem withSign_absBits (value : UInt64) :
    UInt64.ofNat (binary64.withSign (binary64.signBit value.toNat)
      (binary64.absBits value.toNat)) = value := by
  rw [← UInt64.toNat_inj, UInt64.toNat_ofNat']
  have hlt := value.toNat_lt
  change (value.toNat % 9223372036854775808 % 9223372036854775808 +
    if (value.toNat / 9223372036854775808 % 2 == 1) = true then 9223372036854775808 else 0) %
      18446744073709551616 = value.toNat
  split
  · next hsign =>
      rw [beq_iff_eq] at hsign
      omega
  · next hsign =>
      rw [beq_iff_eq] at hsign
      omega

/-- Seventeen digits are closer to a double than the doubles next to it are. -/
theorem closeTo_rendered (hzero : binary64.isZero value.toNat = false) :
    CloseTo binary64 (rendered value.toNat) (binary64.absBits value.toNat) := by
  have hwithin := withinHalfUnit_rendered hzero
  have hpos := magnitude_pos hzero
  obtain ⟨hlow, -⟩ := log_bounds hpos
  rw [WithinHalfUnit, abs_sub_comm, zpow_sub₀ (by norm_num)] at hwithin
  rw [CloseTo, value_binary64, magnitude_absBits]
  change 2 * 2 ^ (52 + 1) * _ < _
  norm_num at hwithin ⊢
  linarith

/-- A number that is sent in parts has at most 20 places behind its point. -/
theorem compactParts_scale {numerator denominator scale : ℕ} {truncated mantissa : UInt64}
    (hdenominator : 0 < denominator)
    (h : compactParts (generalText 17 numerator denominator) truncated = some (scale, mantissa)) :
    scale ≤ 20 := by
  rcases Nat.eq_zero_or_pos numerator with rfl | hpos
  · have hzeros : compactParts (generalText 17 0 denominator) truncated = some (0, truncated) := rfl
    rw [hzeros, Option.some.injEq, Prod.mk.injEq] at h
    omega
  · obtain ⟨whole, fraction, exponent, significand, hrounding, hlayout⟩ :=
      generalText_layout (show 0 < 17 by decide) hpos hdenominator
    by_cases hscientific : exponent < -4 ∨ (17 : ℤ) ≤ exponent
    · obtain ⟨htext, -⟩ := hlayout.scientific hscientific
      rw [htext, compactParts_scientific hlayout.written] at h
      split at h
      · rw [Option.some.injEq, Prod.mk.injEq] at h
        omega
      · cases h
    · obtain ⟨htext, hplaces⟩ := hlayout.fixed hscientific
      have hhigh := hrounding.high
      rw [htext] at h
      rcases compactParts_fixed hlayout.written (by omega) (by omega) truncated with
        ⟨-, hwhole⟩ | ⟨places, sent, hle, hparts, -⟩
      · rw [hwhole, Option.some.injEq, Prod.mk.injEq] at h
        omega
      · rw [hparts, Option.some.injEq, Prod.mk.injEq] at h
        omega

theorem decodeVarInt_cons (first : UInt8) (data : List UInt8) :
    (decodeVarInt (first :: data) 1).1 = (decodeVarInt data 0).1 := by
  rw [decodeVarInt, decodeVarInt, List.drop_succ_cons, decodeVarIntLoop_eq, decodeVarIntLoop_eq]

/-- The first byte and the mantissa of a compact form are read back. -/
theorem deserializeCompact_compactBytes {negative : Bool} {scale : ℕ} {mantissa : UInt64}
    {bytes : List UInt8} (hscale : scale ≤ 63)
    (h : compactBytes negative (some (scale, mantissa)) = some bytes) :
    bytes.length ≠ 0 ∧ byteAt bytes 0 ≠ 0x80 ∧
      deserializeCompact bytes = scaledDouble negative mantissa scale := by
  rw [compactBytes] at h
  dsimp only at h
  split at h
  · cases h
  · obtain rfl := Option.some.inj h
    obtain ⟨hbyte, hsign, hread⟩ := firstByte_read hscale negative
    rw [UInt8.le_iff_toNat_le] at hsign
    rw [deserializeCompact, byteAt, List.getD_cons_zero, decodeVarInt_cons,
      ← List.append_nil (encodeVarInt mantissa), decodeVarInt_encodeVarInt]
    generalize (if negative then UInt8.ofNat (scale + 64) else UInt8.ofNat scale) = first
      at hbyte hsign hread ⊢
    rw [UInt8.lt_iff_toNat_lt] at hbyte
    change first.toNat < 128 at hbyte
    change 64 ≤ first.toNat ↔ _ at hsign
    refine ⟨Nat.succ_ne_zero _, ?_, ?_⟩
    · rintro rfl
      exact absurd hbyte (by decide)
    · have hscaled : (if decide (64 ≤ first.toNat) = true then first.toNat - 64
          else first.toNat) = scale := by
        simp only [decide_eq_true_eq]
        split <;> omega
      dsimp only
      rw [hscaled, show decide (64 ≤ first.toNat) = negative by simp [hsign]]

end Parts

end DanWs.CompactReadback
