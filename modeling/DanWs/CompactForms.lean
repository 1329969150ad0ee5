import DanWs.CompactParts

namespace DanWs.CompactForms

open DanWs.BinaryFloat
open DanWs.CompactParts
open DanWs.DecimalDigits
open DanWs.DecimalRendering
open DanWs.ScalarBytes
open DanWs.VarFloats

section Magnitudes

variable (bits : ℕ)

def magnitude : ℚ := (binary64.magnitude bits).1 / (binary64.magnitude bits).2

def rendered : ℚ :=
  textValue (generalText 17 (binary64.magnitude bits).1 (binary64.magnitude bits).2)

def signed (x : ℚ) : ℚ := if binary64.signBit bits then -x else x

theorem magnitude_denominator_pos : 0 < (binary64.magnitude bits).2 :=
  Nat.pow_pos (by decide)

/-- Doubles have fewer binary digits than 17 decimal digits can tell apart. -/
theorem magnitude_grid : (binary64.magnitude bits).2 = 1 ∨
    (binary64.magnitude bits).1 < 2 * 10 ^ (17 - 1) := by
  have hfraction : binary64.fractionField bits < 2 ^ 52 := Nat.mod_lt _ (by decide)
  have hsignificand : (if binary64.exponentField bits = 0 then binary64.fractionField bits
      else 2 ^ binary64.fractionBits + binary64.fractionField bits) < 2 ^ 53 := by
    split
    · omega
    · change 2 ^ 52 + _ < 2 ^ 53
      omega
  rw [Format.magnitude]
  dsimp only
  generalize (if binary64.exponentField bits = 0 then binary64.fractionField bits
    else 2 ^ binary64.fractionBits + binary64.fractionField bits) = significand at hsignificand ⊢
  generalize (((max (binary64.exponentField bits) 1 : ℕ) : ℤ) -
    (binary64.bias + binary64.fractionBits)) = unit
  rcases le_or_gt 0 unit with hnonneg | hneg
  · rw [show (-unit).toNat = 0 by omega]
    exact Or.inl rfl
  · rw [show unit.toNat = 0 by omega, pow_zero, Nat.mul_one]
    exact Or.inr (hsignificand.trans (by decide))

theorem magnitude_eq_zero_iff :
    (binary64.magnitude bits).1 = 0 ↔ binary64.isZero bits = true := by
  rw [Format.magnitude, Format.isZero, Bool.and_eq_true, beq_iff_eq, beq_iff_eq]
  dsimp only
  rw [Nat.mul_eq_zero, or_iff_left (Nat.pow_pos (by decide)).ne']
  split
  · next hzero => simp [hzero]
  · next hne =>
      have hpos : 0 < 2 ^ binary64.fractionBits := Nat.pow_pos (by decide)
      simp only [hne, false_and, iff_false]
      omega

theorem numerator_pos {bits : ℕ} (h : binary64.isZero bits = false) :
    0 < (binary64.magnitude bits).1 := by
  rw [Nat.pos_iff_ne_zero, ne_eq, magnitude_eq_zero_iff, h]
  decide

theorem rendered_eq_zero {bits : ℕ} (h : binary64.isZero bits = true) : rendered bits = 0 := by
  rw [rendered, (magnitude_eq_zero_iff bits).mpr h, textValue_zero]

theorem not_isZero_of_isDigitBelow {bits least : ℕ} (h : IsDigitBelow least (rendered bits)) :
    binary64.isZero bits = false := by
  rw [← Bool.not_eq_true]
  intro hzero
  have hpos := h.pos
  rw [rendered_eq_zero hzero] at hpos
  exact lt_irrefl 0 hpos

theorem magnitude_lt_iff :
    magnitude bits < 2 ^ 64 ↔
      (binary64.magnitude bits).1 / (binary64.magnitude bits).2 < 2 ^ 64 := by
  have hpos := magnitude_denominator_pos bits
  have hpos' : (0 : ℚ) < (binary64.magnitude bits).2 := by exact_mod_cast hpos
  rw [magnitude, div_lt_iff₀ hpos', Nat.div_lt_iff_lt_mul hpos]
  exact_mod_cast Iff.rfl

end Magnitudes

section Forms

variable {bits : ℕ}

/-- What the parts of a compact form say is the number, if they are sent at all. -/
def PartsDenote (parts : Option (ℕ × UInt64)) (number : ℚ) : Prop :=
  ∀ scale mantissa, parts = some (scale, mantissa) → mantissa ≤ maxSafeInt →
    scale ≤ 63 ∧ (mantissa.toNat / 10 ^ scale : ℚ) = number

theorem partsDenote_fixed {numerator denominator significand : ℕ} {whole fraction text : List Char}
    {exponent : ℤ} (hnumerator : 0 < numerator) (hdenominator : 0 < denominator)
    (hgrid : denominator = 1 ∨ numerator < 2 * 10 ^ (17 - 1))
    (hrounding : IsRounding 17 (numerator / denominator) exponent significand)
    (hlayout : Layout 17 text whole fraction exponent significand)
    (hfixed : ¬ (exponent < -4 ∨ (17 : ℤ) ≤ exponent)) :
    PartsDenote (compactParts text (UInt64.ofNat (numerator / denominator)))
      (textValue text) := by
  obtain ⟨htext, hplaces⟩ := hlayout.fixed hfixed
  have hlt := hrounding.high
  have hvalue : textValue text = significand / 10 ^ fraction.length := by
    rw [hlayout.textValue_eq, div_eq_mul_inv, ← zpow_natCast, hplaces, ← zpow_neg]
    congr 2
    ring
  intro scale mantissa hparts hsafe
  rw [htext] at hparts
  rcases compactParts_fixed hlayout.written (by omega) (by omega)
    (UInt64.ofNat (numerator / denominator)) with
      ⟨hdvd, hwhole⟩ | ⟨count, held, hcount, hpoint, heq, -⟩
  · obtain ⟨rounded, rfl⟩ := hdvd
    have hinteger : textValue text = rounded := by
      rw [hvalue]
      push_cast
      field_simp
    have hle : rounded ≤ 10 ^ fraction.length * rounded :=
      Nat.le_mul_of_pos_left _ (Nat.pow_pos (by decide))
    have hexact := hrounding.eq_of_integer (by decide) hnumerator hdenominator (by omega) hgrid
      (hlayout.textValue_eq.symm.trans hinteger)
    rw [hexact, Nat.mul_div_cancel _ hdenominator] at hwhole
    rw [hexact, Nat.mul_div_cancel _ hdenominator, hwhole, Option.some.injEq,
      Prod.mk.injEq] at hparts
    obtain ⟨rfl, rfl⟩ := hparts
    refine ⟨by omega, ?_⟩
    rw [UInt64.toNat_ofNat_of_lt' (show rounded < 2 ^ 64 by omega), hinteger, pow_zero, div_one]
  · rw [hpoint, Option.some.injEq, Prod.mk.injEq] at hparts
    obtain ⟨rfl, rfl⟩ := hparts
    exact ⟨by omega, heq.trans hvalue.symm⟩

theorem partsDenote_scientific {numerator denominator significand : ℕ}
    {whole fraction text : List Char} {exponent : ℤ} (hnumerator : 0 < numerator)
    (hdenominator : 0 < denominator) (hrange : numerator / denominator < 2 ^ 64)
    (hrounding : IsRounding 17 (numerator / denominator) exponent significand)
    (hlayout : Layout 17 text whole fraction exponent significand)
    (hscientific : exponent < -4 ∨ (17 : ℤ) ≤ exponent)
    (hdigit : ¬ IsDigitBelow 5 (textValue text)) :
    PartsDenote (compactParts text (UInt64.ofNat (numerator / denominator)))
      (textValue text) := by
  obtain ⟨htext, hplaces⟩ := hlayout.scientific hscientific
  have hfraction : fraction.length = 17 - 1 := by omega
  rw [hlayout.textValue_eq, isDigitBelow_iff hrounding (by decide)] at hdigit
  intro scale mantissa hparts hsafe
  rw [htext, compactParts_scientific hlayout.written, hfraction] at hparts
  split at hparts
  · next hdvd =>
      -- one digit that is not small: the integer part is out of range
      exfalso
      have hlarge : (17 : ℤ) ≤ exponent := by
        by_contra hsmall
        exact hdigit ⟨by omega, hdvd⟩
      have hd : (0 : ℚ) < denominator := by exact_mod_cast hdenominator
      have hx : (0 : ℚ) < numerator / denominator := by positivity
      have hbig : (10 : ℚ) ^ (16 : ℤ) ≤ numerator / denominator := by
        have hlog := hrounding.le_log
        exact (zpow_le_zpow_right₀ (by norm_num) (by omega)).trans (log_bounds hx).1
      rw [le_div_iff₀ hd] at hbig
      have hmantissa : 10 ^ 16 ≤ numerator / denominator := by
        rw [Nat.le_div_iff_mul_le hdenominator]
        exact_mod_cast hbig
      obtain ⟨-, rfl⟩ := Prod.mk.inj (Option.some.inj hparts)
      rw [UInt64.le_iff_toNat_le, UInt64.toNat_ofNat_of_lt' hrange] at hsafe
      have hmax : maxSafeInt.toNat = 9007199254740991 := rfl
      omega
  · cases hparts

theorem partsDenote_rendered (hrange : magnitude bits < 2 ^ 64)
    (hdigit : ¬ IsDigitBelow 5 (rendered bits)) :
    PartsDenote (compactParts (generalText 17 (binary64.magnitude bits).1
      (binary64.magnitude bits).2) (UInt64.ofNat ((binary64.magnitude bits).1 /
        (binary64.magnitude bits).2))) (rendered bits) := by
  have hdenominator := magnitude_denominator_pos bits
  have hgrid := magnitude_grid bits
  rw [magnitude_lt_iff] at hrange
  rw [rendered] at hdigit ⊢
  generalize (binary64.magnitude bits).2 = denominator at hdenominator hgrid hrange hdigit ⊢
  rcases Nat.eq_zero_or_pos (binary64.magnitude bits).1 with hzero | hpos
  · rw [hzero, textValue_zero, Nat.zero_div]
    intro scale mantissa hparts hsafe
    have hzeros : compactParts (generalText 17 0 denominator) (UInt64.ofNat 0) = some (0, 0) := rfl
    rw [hzeros, Option.some.injEq, Prod.mk.injEq] at hparts
    obtain ⟨rfl, rfl⟩ := hparts
    exact ⟨by omega, by simp⟩
  · generalize (binary64.magnitude bits).1 = numerator at hpos hgrid hrange hdigit ⊢
    obtain ⟨whole, fraction, exponent, significand, hrounding, hlayout⟩ :=
      generalText_layout (show 0 < 17 by decide) hpos hdenominator
    by_cases hscientific : exponent < -4 ∨ (17 : ℤ) ≤ exponent
    · exact partsDenote_scientific hpos hdenominator hrange hrounding hlayout hscientific hdigit
    · exact partsDenote_fixed hpos hdenominator hgrid hrounding hlayout hscientific

theorem compactParts_of_isDigitBelow (hdigit : IsDigitBelow 5 (rendered bits)) :
    (binary64.magnitude bits).1 / (binary64.magnitude bits).2 = 0 ∧
      compactParts (generalText 17 (binary64.magnitude bits).1 (binary64.magnitude bits).2) 0 =
        some (0, 0) := by
  have hdenominator := magnitude_denominator_pos bits
  have hnumerator := numerator_pos (not_isZero_of_isDigitBelow hdigit)
  rw [rendered] at hdigit
  generalize (binary64.magnitude bits).2 = denominator at hdenominator hdigit ⊢
  generalize (binary64.magnitude bits).1 = numerator at hnumerator hdigit ⊢
  obtain ⟨whole, fraction, exponent, significand, hrounding, hlayout⟩ :=
    generalText_layout (show 0 < 17 by decide) hnumerator hdenominator
  rw [hlayout.textValue_eq, isDigitBelow_iff hrounding (by decide)] at hdigit
  obtain ⟨hsmall, hdvd⟩ := hdigit
  obtain ⟨htext, hplaces⟩ := hlayout.scientific (by omega)
  have hfraction : fraction.length = 17 - 1 := by omega
  constructor
  · have hd : (0 : ℚ) < denominator := by exact_mod_cast hdenominator
    have hx : (0 : ℚ) < numerator / denominator := by positivity
    have hless : (numerator / denominator : ℚ) < 1 := by
      have hlog := hrounding.log_le
      refine (log_bounds hx).2.trans_le ?_
      rw [← zpow_zero (10 : ℚ)]
      exact zpow_le_zpow_right₀ (by norm_num) (by omega)
    rw [div_lt_one hd] at hless
    exact Nat.div_eq_of_lt (by exact_mod_cast hless)
  · rw [htext, compactParts_scientific hlayout.written, hfraction, if_pos hdvd]

def CompactForm (bytes : List UInt8) (number : ℚ) : Prop :=
  ∃ (first : UInt8) (mantissa : UInt64), bytes = first :: encodeVarInt mantissa ∧ first < 0x80 ∧
    (if 0x40 ≤ first then -1 else 1 : ℚ) * mantissa.toNat / 10 ^ (first.toNat % 64) = number

theorem firstByte_read {scale : ℕ} (h : scale ≤ 63) (negative : Bool) :
    (if negative then UInt8.ofNat (scale + 64) else UInt8.ofNat scale) < 0x80 ∧
      (0x40 ≤ (if negative then UInt8.ofNat (scale + 64) else UInt8.ofNat scale) ↔
        negative = true) ∧
      (if negative then UInt8.ofNat (scale + 64) else UInt8.ofNat scale).toNat % 64 = scale := by
  have hplain : (UInt8.ofNat scale).toNat = scale := by
    rw [UInt8.toNat_ofNat']
    omega
  have hmarked : (UInt8.ofNat (scale + 64)).toNat = scale + 64 := by
    rw [UInt8.toNat_ofNat']
    omega
  rw [UInt8.lt_iff_toNat_lt, UInt8.le_iff_toNat_le]
  cases negative with
  | true =>
      simp only [if_true, hmarked, UInt8.reduceToNat, iff_true]
      omega
  | false =>
      simp only [Bool.false_eq_true, if_false, hplain, UInt8.reduceToNat, iff_false]
      omega

theorem compactForm_compactBytes {negative : Bool} {parts : Option (ℕ × UInt64)} {number : ℚ}
    {bytes : List UInt8} (h : PartsDenote parts number)
    (hbytes : compactBytes negative parts = some bytes) :
    CompactForm bytes ((if negative then -1 else 1) * number) := by
  cases parts with
  | none => cases hbytes
  | some pair =>
      obtain ⟨scale, mantissa⟩ := pair
      rw [compactBytes] at hbytes
      split at hbytes
      · cases hbytes
      · next hsafe =>
          obtain ⟨hscale, hnumber⟩ := h scale mantissa rfl (UInt64.not_lt.mp hsafe)
          obtain ⟨hbyte, hsign, hread⟩ := firstByte_read hscale negative
          refine ⟨_, mantissa, (Option.some.inj hbytes).symm, hbyte, ?_⟩
          rw [hread, ← hnumber, mul_div_assoc]
          congr 1
          exact if_congr hsign rfl rfl

theorem compactDouble_eq_error (h : ¬ magnitude bits < 2 ^ 64) :
    compactDouble bits = .error .undefinedBehaviour := by
  rw [magnitude_lt_iff] at h
  rw [compactDouble]
  dsimp only
  rw [truncateToUInt64, if_neg h]
  rfl

theorem compactDouble_of_lt (h : magnitude bits < 2 ^ 64) :
    compactDouble bits = .ok (compactBytes (binary64.signBit bits && !binary64.isZero bits)
      (compactParts (generalText 17 (binary64.magnitude bits).1 (binary64.magnitude bits).2)
        (UInt64.ofNat ((binary64.magnitude bits).1 / (binary64.magnitude bits).2)))) := by
  rw [magnitude_lt_iff] at h
  rw [compactDouble]
  dsimp only
  rw [truncateToUInt64, if_pos h]
  rfl

/-- Where the form is compact, it is that of the rendered number. -/
theorem compactDouble_sound (hrange : magnitude bits < 2 ^ 64)
    (hdigit : ¬ IsDigitBelow 5 (rendered bits)) :
    ∃ compact, compactDouble bits = .ok compact ∧
      ∀ bytes, compact = some bytes → CompactForm bytes (signed bits (rendered bits)) := by
  refine ⟨_, compactDouble_of_lt hrange, fun bytes hbytes => ?_⟩
  have hform := compactForm_compactBytes (partsDenote_rendered hrange hdigit) hbytes
  have hnumber : (if (binary64.signBit bits && !binary64.isZero bits) = true then -1 else 1 : ℚ) *
      rendered bits = signed bits (rendered bits) := by
    rw [signed]
    cases hzero : binary64.isZero bits with
    | true =>
        rw [rendered_eq_zero hzero]
        simp
    | false => cases binary64.signBit bits <;> simp
  rwa [hnumber] at hform

theorem compactDouble_of_isDigitBelow (hdigit : IsDigitBelow 5 (rendered bits)) :
    ∃ bytes, compactDouble bits = .ok (some bytes) ∧ CompactForm bytes 0 := by
  obtain ⟨hinteger, hparts⟩ := compactParts_of_isDigitBelow hdigit
  have hrange : magnitude bits < 2 ^ 64 := by
    rw [magnitude_lt_iff, hinteger]
    decide
  have hdouble := compactDouble_of_lt hrange
  rw [hinteger] at hdouble
  change compactDouble bits = .ok (compactBytes _ (compactParts _ 0)) at hdouble
  rw [hparts] at hdouble
  refine ⟨_, hdouble, ?_⟩
  have hdenote : PartsDenote (some (0, 0)) 0 := by
    intro scale mantissa hparts hsafe
    obtain ⟨rfl, rfl⟩ := Prod.mk.inj (Option.some.inj hparts)
    exact ⟨by omega, by simp⟩
  have hform := @compactForm_compactBytes (binary64.signBit bits && !binary64.isZero bits) _ _ _
    hdenote rfl
  rwa [mul_zero] at hform

end Forms

end DanWs.CompactForms
