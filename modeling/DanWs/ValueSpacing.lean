import DanWs.NearestValues

namespace DanWs.ValueSpacing

open DanWs.BinaryFloat
open DanWs.DecimalDigits
open DanWs.NearestValues

section Order

variable {format : Format} {bits other : ℕ}

theorem exponentField_of_lt (h : bits < format.infinity) :
    format.exponentField bits = bits / 2 ^ format.fractionBits := by
  have hexponent : bits / 2 ^ format.fractionBits < 2 ^ format.exponentBits - 1 :=
    (Nat.div_lt_iff_lt_mul (Nat.two_pow_pos _)).mpr h
  exact Nat.mod_eq_of_lt (hexponent.trans_le (Nat.sub_le _ _))

theorem le_significand (h : 0 < format.exponentField bits) :
    2 ^ format.fractionBits ≤ significand format bits := by
  rw [significand, if_neg h.ne']
  exact Nat.le_add_right _ _

theorem value_eq_zero_iff : value format bits = 0 ↔ format.isZero bits = true := by
  have hunit : (2 : ℚ) ^ unitExponent format bits ≠ 0 := (zpow_pos (by norm_num) _).ne'
  rw [value_eq, mul_eq_zero, or_iff_left hunit, Nat.cast_eq_zero, significand, Format.isZero,
    Bool.and_eq_true, beq_iff_eq, beq_iff_eq]
  split
  · next hexponent => rw [hexponent, eq_self, true_and]
  · next hexponent =>
      have hpower : 0 < 2 ^ format.fractionBits := Nat.two_pow_pos _
      rw [iff_false_right (fun hboth => hexponent hboth.1)]
      omega

theorem zpow_le_value (h : 0 < format.exponentField bits) :
    (2 : ℚ) ^ (unitExponent format bits + format.fractionBits) ≤ value format bits := by
  rw [value_eq, zpow_add₀ (by norm_num), mul_comm, zpow_natCast]
  refine mul_le_mul_of_nonneg_right ?_ (zpow_nonneg (by norm_num) _)
  exact_mod_cast le_significand h

theorem value_lt_value (h : bits < other) (hother : other < format.infinity) :
    value format bits < value format other := by
  have hbits := exponentField_of_lt (h.trans hother)
  have hexponents := exponentField_of_lt hother
  have hle : format.exponentField bits ≤ format.exponentField other := by
    rw [hbits, hexponents]
    exact Nat.div_le_div_right h.le
  by_cases hunit : unitExponent format bits = unitExponent format other
  · rw [value_eq, value_eq, hunit]
    refine mul_lt_mul_of_pos_right ?_ (zpow_pos (by norm_num) _)
    have hfraction : format.fractionField bits < 2 ^ format.fractionBits :=
      Nat.mod_lt _ (Nat.two_pow_pos _)
    have hsplit := Nat.div_add_mod bits (2 ^ format.fractionBits)
    have hsplit' := Nat.div_add_mod other (2 ^ format.fractionBits)
    rw [← hbits] at hsplit
    rw [← hexponents] at hsplit'
    rw [unitExponent, unitExponent] at hunit
    rw [Nat.cast_lt, significand, significand]
    split
    · split
      · next hzero hzero' =>
          rw [hzero] at hsplit
          rw [hzero'] at hsplit'
          rw [Format.fractionField, Format.fractionField]
          omega
      · omega
    · next hne =>
        obtain heq : format.exponentField bits = format.exponentField other := by omega
        rw [if_neg (by omega)]
        rw [heq] at hsplit
        rw [Format.fractionField, Format.fractionField]
        omega
  · rw [unitExponent, unitExponent] at hunit
    have hless : unitExponent format bits < unitExponent format other := by
      rw [unitExponent, unitExponent]
      omega
    refine (value_lt_of_unitExponent_lt (?_ : _ < unitExponent format other +
      format.fractionBits - format.fractionBits)).trans_le (zpow_le_value (by omega))
    omega

theorem value_injective (hbits : bits < format.infinity) (hother : other < format.infinity)
    (h : value format bits = value format other) : bits = other := by
  rcases lt_trichotomy bits other with hlt | heq | hgt
  · exact absurd h (value_lt_value hlt hother).ne
  · exact heq
  · exact absurd h (value_lt_value hgt hbits).ne'

end Order

section Spacing

variable {format : Format} {bits other : ℕ}

/-- The gap from a value to the next one on either side, against the value. Below a
power of two the gap is half a unit. -/
theorem value_le_gap (h : value format other ≠ value format bits) :
    value format bits ≤
      2 ^ (format.fractionBits + 1) * |value format other - value format bits| := by
  have hsignificand : (significand format bits : ℚ) ≤ 2 ^ (format.fractionBits + 1) := by
    exact_mod_cast (significand_lt format bits).le
  rcases le_or_gt (unitExponent format bits) (unitExponent format other) with hcoarse | hfine
  · obtain ⟨count, hcount⟩ := exists_value_eq_mul hcoarse
    rw [value_eq format bits, hcount] at h ⊢
    have hunit : (0 : ℚ) < (2 : ℚ) ^ unitExponent format bits := zpow_pos (by norm_num) _
    have hapart : (1 : ℚ) ≤ |(count : ℚ) - significand format bits| := by
      have hne : (count : ℤ) - significand format bits ≠ 0 := by
        intro heq
        apply h
        rw [show count = significand format bits by omega]
      exact_mod_cast Int.one_le_abs hne
    rw [← sub_mul, abs_mul, abs_of_pos hunit, ← mul_assoc]
    refine mul_le_mul_of_nonneg_right (hsignificand.trans ?_) hunit.le
    exact le_mul_of_one_le_right (by positivity) hapart
  · have hnormal : 0 < format.exponentField bits := by
      rw [unitExponent, unitExponent] at hfine
      omega
    have hleast : (2 ^ (format.fractionBits + 1) : ℚ) ≤ 2 * significand format bits := by
      rw [pow_succ']
      exact_mod_cast Nat.mul_le_mul_left 2 (le_significand hnormal)
    obtain ⟨half, hhalf⟩ : ∃ half : ℚ, (2 : ℚ) ^ (unitExponent format bits - 1) = half := ⟨_, rfl⟩
    have hpos : 0 < half := hhalf ▸ zpow_pos (by norm_num) _
    have hbits : value format bits = 2 * significand format bits * half := by
      rw [value_eq, ← hhalf, zpow_sub_one₀ (by norm_num)]
      ring
    have hother : value format other ≤ (2 ^ (format.fractionBits + 1) - 1) * half := by
      have hlt : (significand format other : ℚ) ≤ 2 ^ (format.fractionBits + 1) - 1 := by
        have hle : significand format other + 1 ≤ 2 ^ (format.fractionBits + 1) :=
          significand_lt format other
        have hcast : (significand format other + 1 : ℚ) ≤ 2 ^ (format.fractionBits + 1) := by
          exact_mod_cast hle
        linarith
      have hnonneg : (0 : ℚ) ≤ significand format other := Nat.cast_nonneg _
      rw [value_eq, ← hhalf]
      exact mul_le_mul hlt (zpow_le_zpow_right₀ (by norm_num) (by omega))
        (zpow_nonneg (by norm_num) _) (hnonneg.trans hlt)
    have hpower : (1 : ℚ) ≤ 2 ^ (format.fractionBits + 1) := one_le_pow₀ (by norm_num)
    generalize (2 : ℚ) ^ (format.fractionBits + 1) = power at hleast hother hpower ⊢
    generalize (2 * significand format bits : ℚ) = twice at hleast hbits
    calc
      value format bits = twice * half := hbits
      _ ≤ power * ((twice - (power - 1)) * half) := by
          rw [← mul_assoc]
          refine mul_le_mul_of_nonneg_right ?_ hpos.le
          nlinarith
      _ ≤ power * |value format other - value format bits| := by
          refine mul_le_mul_of_nonneg_left ?_ (by linarith)
          rw [abs_sub_comm]
          refine le_trans ?_ (le_abs_self _)
          rw [hbits, sub_mul]
          linarith

/-- A number that is much closer to a value than the value's neighbours are. -/
def CloseTo (format : Format) (x : ℚ) (bits : ℕ) : Prop :=
  2 * 2 ^ (format.fractionBits + 1) * |x - value format bits| < value format bits

end Spacing

section Rounding

variable {format : Format} {bits numerator denominator : ℕ}

theorem bias_eq (h : 1 < format.exponentBits) :
    2 * (format.bias + 1) = 2 ^ format.exponentBits ∧ 0 < format.bias := by
  obtain ⟨more, hmore⟩ := Nat.exists_eq_add_of_lt h
  have hpower : 0 < 2 ^ more := Nat.two_pow_pos _
  rw [Format.bias, hmore, Nat.add_sub_cancel, Nat.pow_succ, Nat.pow_add, Nat.pow_one]
  omega

def greatest (format : Format) : ℚ :=
  (2 ^ (format.fractionBits + 1) - 1 : ℕ) * (2 : ℚ) ^ (format.bias - format.fractionBits : ℤ)

theorem value_le_greatest (hformat : 1 < format.exponentBits) (h : bits < format.infinity) :
    value format bits ≤ greatest format := by
  obtain ⟨hbias, hpositive⟩ := bias_eq hformat
  have hsignificand := significand_lt format bits
  have hexponent : format.exponentField bits < 2 ^ format.exponentBits - 1 := by
    rw [exponentField_of_lt h]
    exact (Nat.div_lt_iff_lt_mul (Nat.two_pow_pos _)).mpr h
  rw [value_eq, greatest]
  refine mul_le_mul ?_ (zpow_le_zpow_right₀ (by norm_num) ?_) (zpow_nonneg (by norm_num) _)
    (Nat.cast_nonneg _)
  · exact_mod_cast Nat.le_sub_one_of_lt hsignificand
  · rw [unitExponent]
    omega

theorem le_greatest {x : ℚ} (h : x ≤ (2 : ℚ) ^ (format.bias : ℤ)) : x ≤ greatest format := by
  have hpower : 2 ^ format.fractionBits ≤ 2 ^ (format.fractionBits + 1) - 1 := by
    have hpos : 0 < 2 ^ format.fractionBits := Nat.two_pow_pos _
    rw [Nat.pow_succ]
    omega
  calc
    x ≤ (2 : ℚ) ^ (format.bias : ℤ) := h
    _ = (2 ^ format.fractionBits : ℕ) * (2 : ℚ) ^ (format.bias - format.fractionBits : ℤ) := by
      push_cast
      rw [← zpow_natCast, ← zpow_add₀ (by norm_num)]
      congr 1
      omega
    _ ≤ greatest format := by
      rw [greatest]
      refine mul_le_mul_of_nonneg_right ?_ (zpow_nonneg (by norm_num) _)
      exact_mod_cast hpower

theorem ofFraction_lt_infinity (hformat : 1 < format.exponentBits) (hnumerator : 0 < numerator)
    (hdenominator : 0 < denominator) (h : (numerator / denominator : ℚ) ≤ greatest format) :
    format.ofFraction numerator denominator < format.infinity := by
  have hx : (0 : ℚ) < numerator / denominator := by positivity
  have hlog := floorLog_eq 2 hnumerator hdenominator
  have hlow : ((2 : ℕ) : ℚ) ^ floorLog 2 numerator denominator ≤ numerator / denominator := by
    rw [hlog]
    exact Int.zpow_log_le_self (by decide) hx
  have hhigh : (numerator / denominator : ℚ) <
      ((2 : ℕ) : ℚ) ^ (floorLog 2 numerator denominator + 1) := by
    rw [hlog]
    exact Int.lt_zpow_succ_log_self (by decide) _
  rw [Format.ofFraction, if_neg hnumerator.ne']
  dsimp only
  generalize floorLog 2 numerator denominator = F at hlow hhigh ⊢
  obtain ⟨exponent, hexponent⟩ : ∃ exponent, max F (1 - format.bias) = exponent := ⟨_, rfl⟩
  rw [hexponent]
  have hclose := abs_sub_roundScaled_le (by decide : 0 < 2) numerator hdenominator
    (exponent - format.fractionBits)
  push_cast at hclose hlow hhigh
  generalize roundScaled 2 numerator denominator (exponent - format.fractionBits) = rounded
    at hclose ⊢
  obtain ⟨hbias, hpositive⟩ := bias_eq hformat
  have hpower : 0 < 2 ^ (format.fractionBits + 1) := Nat.two_pow_pos _
  have hmost : rounded ≤ 2 ^ (format.fractionBits + 1) := by
    refine le_bound_of_close (zpow_pos (by norm_num) _) hclose (hhigh.le.trans ?_)
    refine (zpow_le_zpow_right₀ (by norm_num) (by omega :
      F + 1 ≤ (format.fractionBits + 1 : ℕ) + (exponent - format.fractionBits))).trans_eq ?_
    rw [zpow_add₀ (by norm_num), zpow_natCast]
    push_cast
    rfl
  have hbelow : F < format.bias + 1 := by
    have hgreatest : greatest format < (2 : ℚ) ^ (format.bias + 1 : ℤ) := by
      calc
        greatest format < (2 ^ (format.fractionBits + 1) : ℕ) *
            (2 : ℚ) ^ (format.bias - format.fractionBits : ℤ) := by
          rw [greatest]
          refine mul_lt_mul_of_pos_right ?_ (zpow_pos (by norm_num) _)
          exact_mod_cast Nat.sub_lt hpower Nat.one_pos
        _ = (2 : ℚ) ^ (format.bias + 1 : ℤ) := by
          push_cast
          rw [← zpow_natCast, ← zpow_add₀ (by norm_num)]
          congr 1
          push_cast
          ring
    have hpowers := (hlow.trans h).trans_lt hgreatest
    rwa [zpow_lt_zpow_iff_right₀ (by norm_num)] at hpowers
  have hinfinity : format.infinity = (2 * format.bias + 1) * 2 ^ format.fractionBits := by
    rw [Format.infinity]
    congr 1
    omega
  refine (min_le_left _ _).trans_lt ?_
  rw [hinfinity]
  rcases Int.lt_add_one_iff.mp hbelow |>.lt_or_eq with hless | heq
  · have hbiased : (exponent + format.bias).toNat - 1 + 2 < 2 * format.bias + 1 := by omega
    calc
      ((exponent + format.bias).toNat - 1) * 2 ^ format.fractionBits + rounded ≤
          ((exponent + format.bias).toNat - 1 + 2) * 2 ^ format.fractionBits := by
        rw [Nat.add_mul, ← Nat.pow_succ']
        exact Nat.add_le_add_left hmost _
      _ < (2 * format.bias + 1) * 2 ^ format.fractionBits :=
        Nat.mul_lt_mul_of_pos_right hbiased (Nat.two_pow_pos _)
  · -- the greatest value does not round up
    obtain rfl : exponent = format.bias := by omega
    have hfits : rounded ≤ 2 ^ (format.fractionBits + 1) - 1 :=
      le_bound_of_close (zpow_pos (by norm_num) _) hclose h
    have hbiased : ((format.bias + format.bias : ℤ)).toNat - 1 + 2 = 2 * format.bias + 1 := by
      omega
    rw [← hbiased, Nat.add_mul, ← Nat.pow_succ']
    exact Nat.add_lt_add_left (by omega) _

/-- A fraction whose digits fit into a significand is rounded without an error. -/
theorem value_ofFraction {count : ℕ} {exponent : ℤ} (hnumerator : 0 < numerator)
    (hdenominator : 0 < denominator)
    (hfinite : format.ofFraction numerator denominator < format.infinity)
    (hx : (numerator / denominator : ℚ) = count * (2 : ℚ) ^ exponent)
    (hcount : count < 2 ^ (format.fractionBits + 1))
    (hleast : 1 - (format.bias + format.fractionBits) ≤ exponent) :
    value format (format.ofFraction numerator denominator) = numerator / denominator := by
  obtain ⟨last, rounded, hrounded⟩ := isRounded_ofFraction hnumerator hdenominator hfinite
  have hunit : (0 : ℚ) < (2 : ℚ) ^ (last - format.fractionBits) := zpow_pos (by norm_num) _
  have hcoarse : last - format.fractionBits ≤ exponent := by
    by_contra hfine
    have hlow := hrounded.low (by omega)
    have hhigh : (numerator / denominator : ℚ) < (2 : ℚ) ^ last := by
      calc
        (numerator / denominator : ℚ) = count * (2 : ℚ) ^ exponent := hx
        _ < 2 ^ (format.fractionBits + 1) * (2 : ℚ) ^ exponent :=
          mul_lt_mul_of_pos_right (by exact_mod_cast hcount) (zpow_pos (by norm_num) _)
        _ = (2 : ℚ) ^ (format.fractionBits + 1 + exponent) := by
          rw [← zpow_natCast, ← zpow_add₀ (by norm_num)]
          push_cast
          rfl
        _ ≤ (2 : ℚ) ^ last := zpow_le_zpow_right₀ (by norm_num) (by omega)
    exact absurd hlow hhigh.not_ge
  have hmultiple : (numerator / denominator : ℚ) =
      (count * 2 ^ (exponent - (last - format.fractionBits)).toNat : ℕ) *
        (2 : ℚ) ^ (last - format.fractionBits) := by
    rw [hx]
    push_cast
    rw [mul_assoc, ← zpow_natCast, ← zpow_add₀ (by norm_num)]
    congr 2
    omega
  have hnearest := abs_sub_le_of_close hunit hrounded.close
    (count * 2 ^ (exponent - (last - format.fractionBits)).toNat)
  rw [← hmultiple, sub_self, abs_zero, ← hrounded.value_eq] at hnearest
  exact (sub_eq_zero.mp (abs_nonpos_iff.mp hnearest)).symm

/-- A fraction close to a value is rounded to it. -/
theorem ofFraction_eq_of_closeTo (hnumerator : 0 < numerator) (hdenominator : 0 < denominator)
    (hfinite : format.ofFraction numerator denominator < format.infinity)
    (hbits : bits < format.infinity) (hclose : CloseTo format (numerator / denominator) bits) :
    format.ofFraction numerator denominator = bits := by
  refine value_injective hfinite hbits ?_
  by_contra hne
  have hgap := value_le_gap hne
  have hnearest := abs_sub_value_ofFraction_le hnumerator hdenominator hfinite bits
  have htriangle : |value format (format.ofFraction numerator denominator) - value format bits| ≤
      2 * |(numerator / denominator : ℚ) - value format bits| := by
    refine (abs_sub_le _ (numerator / denominator : ℚ) _).trans ?_
    rw [abs_sub_comm (value format _)]
    linarith
  have hscaled := mul_le_mul_of_nonneg_left htriangle
    (by positivity : (0 : ℚ) ≤ 2 ^ (format.fractionBits + 1))
  rw [CloseTo] at hclose
  linarith

theorem ofFraction_eq_of_value (hformat : 1 < format.exponentBits) (hnumerator : 0 < numerator)
    (hdenominator : 0 < denominator) (hbits : bits < format.infinity)
    (h : (numerator / denominator : ℚ) = value format bits) :
    format.ofFraction numerator denominator = bits := by
  have hx : (0 : ℚ) < numerator / denominator := by positivity
  refine ofFraction_eq_of_closeTo hnumerator hdenominator
    (ofFraction_lt_infinity hformat hnumerator hdenominator (h ▸ value_le_greatest hformat hbits))
    hbits ?_
  rwa [CloseTo, h, sub_self, abs_zero, mul_zero, ← h]

end Rounding

end DanWs.ValueSpacing
