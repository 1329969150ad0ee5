import DanWs.CompactForms

namespace DanWs.CompactDecimals

open DanWs.BinaryFloat
open DanWs.CompactForms
open DanWs.CompactParts
open DanWs.DecimalDigits
open DanWs.DecimalRendering
open DanWs.ScalarBytes
open DanWs.VarFloats

section Doubles

theorem compactForm_unique {bytes : List UInt8} {number other : ℚ} (h : CompactForm bytes number)
    (hother : CompactForm bytes other) : number = other := by
  obtain ⟨first, mantissa, rfl, -, rfl⟩ := h
  obtain ⟨first', mantissa', hbytes, -, rfl⟩ := hother
  obtain ⟨rfl, hvarint⟩ := List.cons.inj hbytes
  have hdecoded := congrArg (fun data => (decodeVarInt (data ++ []) 0).1) hvarint
  simp only [decodeVarInt_encodeVarInt] at hdecoded
  rw [hdecoded]

theorem not_compactForm_fallback (rest : List UInt8) (number : ℚ) :
    ¬ CompactForm (0x80 :: rest) number := by
  rintro ⟨first, mantissa, hbytes, hfirst, -⟩
  rw [← (List.cons.inj hbytes).1] at hfirst
  exact absurd hfirst (by decide)

/-- The bytes are the fallback form, or stand for the number. They stand for zero
only if the number is zero. -/
structure SentAs (bytes fallback : List UInt8) (fallbackIsZero : Bool) (number : ℚ) : Prop where
  form : bytes = fallback ∨ CompactForm bytes number
  nonzero : number ≠ 0 → ¬ CompactForm bytes 0 ∧ (bytes = fallback → fallbackIsZero = false)

/-- What is sent for a double is its fallback form or the number rendered. -/
def Denotes (value : UInt64) : Prop :=
  ∃ bytes, serializeVarDouble value = .ok bytes ∧
    SentAs bytes (fallbackFloat64 value) (binary64.isZero value.toNat)
      (signed value.toNat (rendered value.toNat))

/-- What is sent for a double as a float is the fallback form of the float or the
number rendered for the double. -/
def DenotesFloat (value : UInt64) : Prop :=
  ∃ bytes, serializeVarFloat value = .ok bytes ∧
    SentAs bytes (fallbackFloat32 (doubleToFloat value))
      (binary32.isZero (doubleToFloat value).toNat) (signed value.toNat (rendered value.toNat))

theorem rendered_pos {bits : ℕ} (h : binary64.isZero bits = false) : 0 < rendered bits := by
  have hnumerator := numerator_pos h
  obtain ⟨whole, fraction, exponent, significand, hrounding, hlayout⟩ :=
    generalText_layout (show 0 < 17 by decide) hnumerator (magnitude_denominator_pos bits)
  have hsignificand : (0 : ℚ) < significand := by
    have hlow := hrounding.low
    exact_mod_cast lt_of_lt_of_le (by decide) hlow
  rw [rendered, hlayout.textValue_eq]
  exact mul_pos hsignificand (zpow_pos (by norm_num) _)

theorem signed_ne_zero_iff (bits : ℕ) :
    signed bits (rendered bits) ≠ 0 ↔ binary64.isZero bits = false := by
  have hsigned : signed bits (rendered bits) = 0 ↔ rendered bits = 0 := by
    rw [signed]
    split
    · exact neg_eq_zero
    · exact Iff.rfl
  rw [ne_eq, hsigned]
  cases hzero : binary64.isZero bits with
  | false => exact iff_of_true (rendered_pos hzero).ne' rfl
  | true => simp [rendered_eq_zero hzero]

/-- Behind the checks for the fallback form, the number is sent as it is rendered
if the integer part is a `uint64_t` and the text has a point in it where it has an
exponent. -/
theorem sent_iff {bits : ℕ} {rest : List UInt8} {fallbackIsZero : Bool}
    (hfallback : binary64.isZero bits = false → fallbackIsZero = false) :
    (∃ bytes, (compactDouble bits).map (fun compact => compact.getD (0x80 :: rest)) = .ok bytes ∧
      SentAs bytes (0x80 :: rest) fallbackIsZero (signed bits (rendered bits))) ↔
      magnitude bits < 2 ^ 64 ∧ ¬ IsDigitBelow 5 (rendered bits) := by
  constructor
  · rintro ⟨bytes, hbytes, hsent⟩
    refine ⟨?_, fun hdigit => ?_⟩
    · by_contra hrange
      rw [compactDouble_eq_error hrange] at hbytes
      cases hbytes
    · obtain ⟨sent, hsentBytes, hform⟩ := compactDouble_of_isDigitBelow hdigit
      rw [hsentBytes] at hbytes
      obtain rfl := Except.ok.inj hbytes
      have hnonzero := (signed_ne_zero_iff bits).mpr (not_isZero_of_isDigitBelow hdigit)
      exact (hsent.nonzero hnonzero).1 hform
  · rintro ⟨hrange, hdigit⟩
    obtain ⟨compact, hcompact, hform⟩ := compactDouble_sound hrange hdigit
    rw [hcompact]
    cases compact with
    | none =>
        refine ⟨_, rfl, Or.inl rfl, fun hne => ⟨not_compactForm_fallback rest 0, fun _ => ?_⟩⟩
        exact hfallback ((signed_ne_zero_iff bits).mp hne)
    | some bytes =>
        have hnumber := hform bytes rfl
        refine ⟨bytes, rfl, Or.inr hnumber, fun hne => ⟨fun hzero => ?_, ?_⟩⟩
        · exact hne (compactForm_unique hnumber hzero)
        · rintro rfl
          exact absurd hnumber (not_compactForm_fallback rest _)

variable {value : UInt64}

theorem serializeVarDouble_eq (hfinite : binary64.isFinite value.toNat = true)
    (hzero : ¬ (binary64.isZero value.toNat = true ∧ binary64.signBit value.toNat = true)) :
    serializeVarDouble value = (compactDouble value.toNat).map
      fun compact => compact.getD (fallbackFloat64 value) := by
  rw [serializeVarDouble, if_neg (by simpa [hfinite] using hzero)]
  cases compactDouble value.toNat <;> rfl

theorem denotes_double_iff (hfinite : binary64.isFinite value.toNat = true)
    (hzero : ¬ (binary64.isZero value.toNat = true ∧ binary64.signBit value.toNat = true)) :
    Denotes value ↔
      magnitude value.toNat < 2 ^ 64 ∧ ¬ IsDigitBelow 5 (rendered value.toNat) := by
  rw [Denotes, serializeVarDouble_eq hfinite hzero]
  exact sent_iff id

theorem ofFraction_le (format : Format) (numerator denominator : ℕ) :
    format.ofFraction numerator denominator ≤ format.infinity := by
  rw [Format.ofFraction]
  split
  · exact Nat.zero_le _
  · exact min_le_right _ _

theorem toNat_doubleToFloat (hfinite : binary64.isFinite value.toNat = true) :
    (doubleToFloat value).toNat =
      binary32.ofFraction (binary64.magnitude value.toNat).1 (binary64.magnitude value.toNat).2 +
        if binary64.signBit value.toNat then 2147483648 else 0 := by
  have hle := ofFraction_le binary32 (binary64.magnitude value.toNat).1
    (binary64.magnitude value.toNat).2
  have hinfinity : binary32.infinity = 2139095040 := rfl
  rw [doubleToFloat, convert]
  dsimp only
  rw [if_pos hfinite, Format.withSign, Format.absBits, UInt32.toNat_ofNat']
  change (_ % 2147483648 + if _ then 2147483648 else 0) % 4294967296 = _
  split <;> omega

/-- Only numbers far below the ones that are printed without an exponent become
zero as floats. -/
theorem magnitude_lt_of_float_zero (hfinite : binary64.isFinite value.toNat = true)
    (hzero : binary64.isZero value.toNat = false)
    (hfloat : binary32.isZero (doubleToFloat value).toNat = true) :
    magnitude value.toNat < (10 : ℚ) ^ (-5 : ℤ) := by
  have hnumerator := numerator_pos hzero
  have hfraction : binary32.ofFraction (binary64.magnitude value.toNat).1
      (binary64.magnitude value.toNat).2 = 0 := by
    have hle := ofFraction_le binary32 (binary64.magnitude value.toNat).1
      (binary64.magnitude value.toNat).2
    have hinfinity : binary32.infinity = 2139095040 := rfl
    rw [toNat_doubleToFloat hfinite, Format.isZero, Bool.and_eq_true, beq_iff_eq,
      beq_iff_eq] at hfloat
    obtain ⟨hexponent, hfraction⟩ := hfloat
    change _ / 8388608 % 256 = 0 at hexponent
    change _ % 8388608 = 0 at hfraction
    by_cases hsign : binary64.signBit value.toNat = true
    · rw [if_pos hsign] at hexponent hfraction
      omega
    · rw [if_neg hsign] at hexponent hfraction
      omega
  have hle := le_of_ofFraction_eq_zero (by decide) hnumerator
    (magnitude_denominator_pos value.toNat) hfraction
  refine hle.trans_lt ?_
  change (2 : ℚ) ^ (-149 : ℤ) / 2 < (10 : ℚ) ^ (-5 : ℤ)
  norm_num

theorem compactDouble_of_small {bits : ℕ} (hzero : binary64.isZero bits = false)
    (hsmall : magnitude bits < (10 : ℚ) ^ (-5 : ℤ)) (hdigit : ¬ IsDigitBelow 5 (rendered bits)) :
    compactDouble bits = .ok none := by
  have hnumerator := numerator_pos hzero
  have hdenominator := magnitude_denominator_pos bits
  have hrange : magnitude bits < 2 ^ 64 := hsmall.trans (by norm_num)
  obtain ⟨whole, fraction, exponent, significand, hrounding, hlayout⟩ :=
    generalText_layout (show 0 < 17 by decide) hnumerator hdenominator
  have hexponent : exponent ≤ -5 := by
    have hx : 0 < magnitude bits := by
      rw [magnitude]
      positivity
    have hlog := (zpow_lt_zpow_iff_right₀ (show (1 : ℚ) < 10 by norm_num)).mp
      ((log_bounds hx).1.trans_lt hsmall)
    have hle := hrounding.le_log
    rw [magnitude] at hlog
    omega
  obtain ⟨htext, hplaces⟩ := hlayout.scientific (by omega)
  have hfraction : fraction.length = 17 - 1 := by omega
  have hdvd : ¬ 10 ^ fraction.length ∣ significand := by
    intro hdvd
    rw [rendered, hlayout.textValue_eq, isDigitBelow_iff hrounding (by decide)] at hdigit
    exact hdigit ⟨by omega, hfraction ▸ hdvd⟩
  rw [compactDouble_of_lt hrange, htext, compactParts_scientific hlayout.written, if_neg hdvd]
  rfl

theorem serializeVarFloat_eq_fallback
    (h : binary32.isFinite (doubleToFloat value).toNat = false ∨
      (binary32.isZero (doubleToFloat value).toNat = true ∧
        binary32.signBit (doubleToFloat value).toNat = true)) :
    serializeVarFloat value = .ok (fallbackFloat32 (doubleToFloat value)) := by
  rw [serializeVarFloat, if_pos (by simpa using h)]

theorem serializeVarFloat_eq (hfinite : binary32.isFinite (doubleToFloat value).toNat = true)
    (hzero : ¬ (binary32.isZero (doubleToFloat value).toNat = true ∧
      binary32.signBit (doubleToFloat value).toNat = true)) :
    serializeVarFloat value = (compactDouble value.toNat).map
      fun compact => compact.getD (fallbackFloat32 (doubleToFloat value)) := by
  rw [serializeVarFloat, if_neg (by simpa [hfinite] using hzero)]
  cases compactDouble value.toNat <;> rfl

/-- A number that is zero as a float is sent as zero in either form. -/
theorem not_denotesFloat_of_zero (hfinite : binary64.isFinite value.toNat = true)
    (hzero : binary64.isZero value.toNat = false)
    (hfloat : binary32.isZero (doubleToFloat value).toNat = true) : ¬ DenotesFloat value := by
  rintro ⟨bytes, hbytes, hsent⟩
  obtain ⟨hcompact, hfallback⟩ := hsent.nonzero ((signed_ne_zero_iff value.toNat).mpr hzero)
  rw [hfloat] at hfallback
  have hne : bytes ≠ fallbackFloat32 (doubleToFloat value) := fun h => by cases hfallback h
  by_cases hchecks : binary32.isFinite (doubleToFloat value).toNat = false ∨
      (binary32.isZero (doubleToFloat value).toNat = true ∧
        binary32.signBit (doubleToFloat value).toNat = true)
  · rw [serializeVarFloat_eq_fallback hchecks] at hbytes
    exact hne (Except.ok.inj hbytes).symm
  · rw [not_or, Bool.not_eq_false] at hchecks
    rw [serializeVarFloat_eq hchecks.1 hchecks.2] at hbytes
    by_cases hdigit : IsDigitBelow 5 (rendered value.toNat)
    · obtain ⟨sent, hsentBytes, hform⟩ := compactDouble_of_isDigitBelow hdigit
      rw [hsentBytes] at hbytes
      obtain rfl := Except.ok.inj hbytes
      exact hcompact hform
    · rw [compactDouble_of_small hzero (magnitude_lt_of_float_zero hfinite hzero hfloat)
        hdigit] at hbytes
      exact hne (Except.ok.inj hbytes).symm

theorem denotes_float_iff (hfinite : binary64.isFinite value.toNat = true)
    (hzero : ¬ (binary64.isZero value.toNat = true ∧ binary64.signBit value.toNat = true)) :
    DenotesFloat value ↔ binary64.isZero value.toNat = true ∨
      (binary32.isZero (doubleToFloat value).toNat = false ∧
        (binary32.isFinite (doubleToFloat value).toNat = false ∨
          (magnitude value.toNat < 2 ^ 64 ∧ ¬ IsDigitBelow 5 (rendered value.toNat)))) := by
  cases hvalue : binary64.isZero value.toNat with
  | true =>
      have hnumerator := (magnitude_eq_zero_iff value.toNat).mpr hvalue
      have hsign : binary64.signBit value.toNat = false := by
        rw [← Bool.not_eq_true]
        exact fun hsign => hzero ⟨hvalue, hsign⟩
      have hfloat : (doubleToFloat value).toNat = 0 := by
        rw [toNat_doubleToFloat hfinite, hsign, hnumerator, Format.ofFraction, if_pos rfl]
        rfl
      have hmagnitude : magnitude value.toNat < 2 ^ 64 := by
        rw [magnitude, hnumerator]
        norm_num
      refine iff_of_true ?_ (Or.inl rfl)
      rw [DenotesFloat, serializeVarFloat_eq (by rw [hfloat]; decide) (by rw [hfloat]; decide)]
      have hdigit : ¬ IsDigitBelow 5 (rendered value.toNat) := by
        intro hdigit
        rw [not_isZero_of_isDigitBelow hdigit] at hvalue
        cases hvalue
      exact (sent_iff fun h => by rw [hvalue] at h; cases h).mpr ⟨hmagnitude, hdigit⟩
  | false =>
      rw [or_iff_right (by decide)]
      cases hfloat : binary32.isZero (doubleToFloat value).toNat with
      | true =>
          exact iff_of_false (not_denotesFloat_of_zero hfinite hvalue hfloat) fun h => by cases h.1
      | false =>
          rw [and_iff_right rfl]
          cases hrange : binary32.isFinite (doubleToFloat value).toNat with
          | false =>
              refine iff_of_true ?_ (Or.inl rfl)
              refine ⟨_, serializeVarFloat_eq_fallback (Or.inl hrange), Or.inl rfl, fun _ => ?_⟩
              exact ⟨not_compactForm_fallback _ 0, fun _ => hfloat⟩
          | true =>
              rw [or_iff_right (by decide), DenotesFloat,
                serializeVarFloat_eq hrange (by rw [hfloat]; exact fun h => by cases h.1)]
              exact sent_iff fun _ => hfloat

/-- What is sent denotes the number, and a number other than zero is not sent as
zero, exactly if the integer part is a `uint64_t` and the number is not printed as
a single digit with a negative exponent. A float must also not become zero, and may
be infinite. -/
theorem denotes_iff (value : UInt64) (hfinite : binary64.isFinite value.toNat = true)
    (hzero : ¬ (binary64.isZero value.toNat = true ∧ binary64.signBit value.toNat = true)) :
    (Denotes value ↔
      magnitude value.toNat < 2 ^ 64 ∧ ¬ IsDigitBelow 5 (rendered value.toNat)) ∧
    (DenotesFloat value ↔ binary64.isZero value.toNat = true ∨
      (binary32.isZero (doubleToFloat value).toNat = false ∧
        (binary32.isFinite (doubleToFloat value).toNat = false ∨
          (magnitude value.toNat < 2 ^ 64 ∧ ¬ IsDigitBelow 5 (rendered value.toNat))))) :=
  ⟨denotes_double_iff hfinite hzero, denotes_float_iff hfinite hzero⟩

theorem denotes_three_halves : Denotes 0x3FF8000000000000 ∧ DenotesFloat 0x3FF8000000000000 := by
  have hrendered : rendered (0x3FF8000000000000 : UInt64).toNat = 3 / 2 := by decide +kernel
  have hdigit : ¬ IsDigitBelow 5 (rendered (0x3FF8000000000000 : UInt64).toNat) := by
    rintro ⟨digit, places, -, hten, hplaces, hvalue⟩
    have hlt : (digit : ℚ) < 10 := by exact_mod_cast hten
    have hle : (10 : ℚ) ^ 5 ≤ 10 ^ places := pow_le_pow_right₀ (by norm_num) hplaces
    rw [hrendered, eq_div_iff (by positivity)] at hvalue
    linarith
  have hrange : magnitude (0x3FF8000000000000 : UInt64).toNat < 2 ^ 64 := by decide +kernel
  obtain ⟨hdouble, hfloat⟩ := denotes_iff 0x3FF8000000000000 (by decide +kernel) (by decide +kernel)
  exact ⟨hdouble.mpr ⟨hrange, hdigit⟩,
    hfloat.mpr (Or.inr ⟨by decide +kernel, Or.inr ⟨hrange, hdigit⟩⟩)⟩

/-- The double nearest to `1e-10` is printed without a point and sent as zero. -/
theorem not_denotes :
    ¬ ∀ value : UInt64, binary64.isFinite value.toNat = true →
      ¬ (binary64.isZero value.toNat = true ∧ binary64.signBit value.toNat = true) →
      Denotes value := by
  intro h
  have hfinite : binary64.isFinite (0x3DDB7CDFD9D7BDBB : UInt64).toNat = true := by decide +kernel
  have hzero : ¬ (binary64.isZero (0x3DDB7CDFD9D7BDBB : UInt64).toNat = true ∧
      binary64.signBit (0x3DDB7CDFD9D7BDBB : UInt64).toNat = true) := by decide +kernel
  refine ((denotes_double_iff hfinite hzero).mp (h _ hfinite hzero)).2 ⟨1, 10, ?_⟩
  decide +kernel

end Doubles

end DanWs.CompactDecimals
