import DanWs.DecimalRendering

namespace DanWs.NearestValues

open DanWs.BinaryFloat
open DanWs.DecimalDigits

section Values

variable (format : Format)

def value (bits : ℕ) : ℚ := (format.magnitude bits).1 / (format.magnitude bits).2

def significand (bits : ℕ) : ℕ :=
  if format.exponentField bits = 0 then format.fractionField bits
  else 2 ^ format.fractionBits + format.fractionField bits

def unitExponent (bits : ℕ) : ℤ :=
  (max (format.exponentField bits) 1 : ℕ) - (format.bias + format.fractionBits)

theorem value_eq (bits : ℕ) :
    value format bits = significand format bits * (2 : ℚ) ^ unitExponent format bits := by
  have hmagnitude : format.magnitude bits =
      (significand format bits * 2 ^ (unitExponent format bits).toNat,
        2 ^ (-unitExponent format bits).toNat) := rfl
  rw [value, hmagnitude]
  push_cast
  rw [mul_div_assoc, ← zpow_natCast, ← zpow_natCast, ← zpow_sub₀ (by norm_num)]
  congr 2
  omega

theorem significand_lt (bits : ℕ) : significand format bits < 2 ^ (format.fractionBits + 1) := by
  have hfraction : format.fractionField bits < 2 ^ format.fractionBits :=
    Nat.mod_lt _ (Nat.pow_pos (by decide))
  rw [significand, Nat.pow_succ]
  split <;> omega

variable {format}

theorem fields_eq {exponent fraction : ℕ} (hexponent : exponent < 2 ^ format.exponentBits)
    (hfraction : fraction < 2 ^ format.fractionBits) :
    format.exponentField (exponent * 2 ^ format.fractionBits + fraction) = exponent ∧
      format.fractionField (exponent * 2 ^ format.fractionBits + fraction) = fraction := by
  have hpos : 0 < 2 ^ format.fractionBits := Nat.pow_pos (by decide)
  constructor
  · rw [Format.exponentField, Nat.add_comm, Nat.add_mul_div_right _ _ hpos,
      Nat.div_eq_of_lt hfraction, Nat.zero_add, Nat.mod_eq_of_lt hexponent]
  · rw [Format.fractionField, Nat.add_comm, Nat.add_mul_mod_self_right,
      Nat.mod_eq_of_lt hfraction]

theorem value_subnormal {fraction : ℕ} (hfraction : fraction < 2 ^ format.fractionBits) :
    value format fraction = fraction * (2 : ℚ) ^ (1 - (format.bias + format.fractionBits) : ℤ) := by
  have hfields := @fields_eq format 0 fraction (Nat.pow_pos (by decide)) hfraction
  rw [Nat.zero_mul, Nat.zero_add] at hfields
  rw [value_eq, significand, unitExponent, hfields.1, hfields.2, if_pos rfl]
  rfl

theorem value_normal {exponent fraction : ℕ} (hpos : 0 < exponent)
    (hexponent : exponent < 2 ^ format.exponentBits)
    (hfraction : fraction < 2 ^ format.fractionBits) :
    value format (exponent * 2 ^ format.fractionBits + fraction) =
      (2 ^ format.fractionBits + fraction : ℕ) *
        (2 : ℚ) ^ (exponent - (format.bias + format.fractionBits) : ℤ) := by
  obtain ⟨hfirst, hsecond⟩ := fields_eq hexponent hfraction
  rw [value_eq, significand, unitExponent, hfirst, hsecond, if_neg hpos.ne',
    Nat.max_eq_left hpos]

/-- A significand that is one power of two too large has carried into the exponent. -/
theorem value_assembled {exponent rounded : ℕ} (hpos : 0 < exponent)
    (hle : rounded ≤ 2 ^ (format.fractionBits + 1))
    (hnormal : 1 < exponent → 2 ^ format.fractionBits ≤ rounded)
    (hfinite : (exponent - 1) * 2 ^ format.fractionBits + rounded < format.infinity) :
    value format ((exponent - 1) * 2 ^ format.fractionBits + rounded) =
      rounded * (2 : ℚ) ^ (exponent - (format.bias + format.fractionBits) : ℤ) := by
  have hunit : 0 < 2 ^ format.fractionBits := Nat.pow_pos (by decide)
  rw [Nat.pow_succ] at hle
  obtain ⟨below, rfl⟩ : ∃ below, exponent = below + 1 := ⟨exponent - 1, by omega⟩
  rw [Nat.add_sub_cancel] at hfinite ⊢
  rw [Format.infinity] at hfinite
  by_cases hsubnormal : rounded < 2 ^ format.fractionBits
  · obtain rfl : below = 0 := by
      by_contra hne
      have hge := hnormal (by omega)
      omega
    rw [Nat.zero_mul, Nat.zero_add, value_subnormal hsubnormal]
    rfl
  · obtain ⟨fraction, rfl⟩ := Nat.exists_eq_add_of_le (not_lt.mp hsubnormal)
    have hsplit : below * 2 ^ format.fractionBits + (2 ^ format.fractionBits + fraction) =
        (below + 1) * 2 ^ format.fractionBits + fraction := by
      rw [Nat.succ_mul, Nat.add_assoc]
    rw [hsplit] at hfinite ⊢
    have hbelow : below + 1 < 2 ^ format.exponentBits - 1 :=
      Nat.lt_of_mul_lt_mul_right (lt_of_le_of_lt (Nat.le_add_right _ _) hfinite)
    by_cases hcarry : fraction < 2 ^ format.fractionBits
    · rw [value_normal (Nat.succ_pos _) (by omega) hcarry]
    · obtain rfl : fraction = 2 ^ format.fractionBits := by omega
      have hnext : (below + 1) * 2 ^ format.fractionBits + 2 ^ format.fractionBits =
          (below + 2) * 2 ^ format.fractionBits + 0 :=
        (Nat.succ_mul (below + 1) _).symm
      rw [hnext, value_normal (Nat.succ_pos _) (by omega) hunit, Nat.add_zero]
      push_cast
      rw [add_sub_right_comm ((below : ℤ) + 1) 1, zpow_add₀ (by norm_num), zpow_one]
      ring

end Values

section Nearest

variable {format : Format} {numerator denominator : ℕ}

theorem abs_sub_le_of_close {x unit : ℚ} {rounded : ℕ} (hunit : 0 < unit)
    (hclose : |x - rounded * unit| ≤ unit / 2) (other : ℕ) :
    |x - rounded * unit| ≤ |x - other * unit| := by
  rcases eq_or_ne rounded other with rfl | hne
  · exact le_rfl
  · have hapart : (1 : ℚ) ≤ |(rounded : ℚ) - other| := by
      have hint : 1 ≤ |(rounded : ℤ) - other| := Int.one_le_abs (by omega)
      exact_mod_cast hint
    have hdistance : unit ≤ |(x - other * unit) - (x - rounded * unit)| := by
      rw [show (x - other * unit) - (x - rounded * unit) = (rounded - other) * unit by ring,
        abs_mul, abs_of_pos hunit]
      exact le_mul_of_one_le_left hunit.le hapart
    have htriangle := abs_sub (x - other * unit) (x - rounded * unit)
    linarith

/-- A value with a finer unit lies below the power of two that a significand begins with. -/
theorem value_lt_of_unitExponent_lt {other : ℕ} {exponent : ℤ}
    (h : unitExponent format other < exponent - format.fractionBits) :
    value format other < (2 : ℚ) ^ exponent := by
  have hsignificand : (significand format other : ℚ) < 2 ^ (format.fractionBits + 1) := by
    exact_mod_cast significand_lt format other
  calc
    value format other = significand format other * (2 : ℚ) ^ unitExponent format other :=
      value_eq format other
    _ < 2 ^ (format.fractionBits + 1) * (2 : ℚ) ^ unitExponent format other :=
      mul_lt_mul_of_pos_right hsignificand (zpow_pos (by norm_num) _)
    _ = (2 : ℚ) ^ (format.fractionBits + 1 + unitExponent format other) := by
      rw [← zpow_natCast, ← zpow_add₀ (by norm_num)]
      push_cast
      rfl
    _ ≤ (2 : ℚ) ^ exponent := zpow_le_zpow_right₀ (by norm_num) (by omega)

theorem exists_value_eq_mul {other : ℕ} {exponent : ℤ}
    (h : exponent ≤ unitExponent format other) :
    ∃ count : ℕ, value format other = count * (2 : ℚ) ^ exponent := by
  refine ⟨significand format other * 2 ^ (unitExponent format other - exponent).toNat, ?_⟩
  rw [value_eq]
  push_cast
  rw [mul_assoc, ← zpow_natCast, ← zpow_add₀ (by norm_num)]
  congr 2
  omega

/-- What a fraction is rounded to, in units of the last place that it keeps. -/
structure IsRounded (format : Format) (x : ℚ) (bits : ℕ) (exponent : ℤ) (rounded : ℕ) : Prop where
  value_eq : value format bits = rounded * (2 : ℚ) ^ (exponent - format.fractionBits)
  close : |x - rounded * (2 : ℚ) ^ (exponent - format.fractionBits)| ≤
    (2 : ℚ) ^ (exponent - format.fractionBits) / 2
  least_le : 1 - format.bias ≤ exponent
  low : 1 - format.bias < exponent → (2 : ℚ) ^ exponent ≤ x

theorem isRounded_ofFraction (hnumerator : 0 < numerator) (hdenominator : 0 < denominator)
    (hfinite : format.ofFraction numerator denominator < format.infinity) :
    ∃ exponent rounded, IsRounded format (numerator / denominator)
      (format.ofFraction numerator denominator) exponent rounded := by
  have hx : (0 : ℚ) < numerator / denominator := by positivity
  have hlog := floorLog_eq 2 hnumerator hdenominator
  have hlow : ((2 : ℕ) : ℚ) ^ floorLog 2 numerator denominator ≤ numerator / denominator := by
    rw [hlog]
    exact Int.zpow_log_le_self (by decide) hx
  have hhigh : (numerator / denominator : ℚ) <
      ((2 : ℕ) : ℚ) ^ (floorLog 2 numerator denominator + 1) := by
    rw [hlog]
    exact Int.lt_zpow_succ_log_self (by decide) _
  rw [Format.ofFraction, if_neg hnumerator.ne'] at hfinite ⊢
  dsimp only at hfinite ⊢
  generalize floorLog 2 numerator denominator = F at hlow hhigh hfinite ⊢
  obtain ⟨exponent, hexponent⟩ : ∃ exponent, max F (1 - format.bias) = exponent := ⟨_, rfl⟩
  rw [hexponent] at hfinite ⊢
  have hleast : 1 - format.bias ≤ exponent := hexponent ▸ le_max_right _ _
  have hF : F ≤ exponent := hexponent ▸ le_max_left _ _
  have hnormal : 1 - format.bias < exponent → F = exponent := by
    intro hlt
    omega
  have hclose := abs_sub_roundScaled_le (by decide : 0 < 2) numerator hdenominator
    (exponent - format.fractionBits)
  push_cast at hclose hlow hhigh
  generalize roundScaled 2 numerator denominator (exponent - format.fractionBits) = rounded
    at hclose hfinite ⊢
  have hassembled := min_lt_iff.mp hfinite
  rw [or_iff_left (lt_irrefl _)] at hassembled
  rw [min_eq_left hassembled.le]
  -- all in units of the last place
  obtain ⟨unit, hunit⟩ : ∃ unit : ℚ, (2 : ℚ) ^ (exponent - format.fractionBits) = unit := ⟨_, rfl⟩
  have hpos : 0 < unit := hunit ▸ zpow_pos (by norm_num) _
  have hfirst : (2 : ℚ) ^ exponent = 2 ^ format.fractionBits * unit := by
    rw [← hunit, ← zpow_natCast, ← zpow_add₀ (by norm_num)]
    congr 1
    omega
  have hmost : rounded ≤ 2 ^ (format.fractionBits + 1) := by
    refine le_bound_of_close hpos (hunit ▸ hclose) (hhigh.le.trans ?_)
    refine (zpow_le_zpow_right₀ (by norm_num) (by omega)).trans_eq
      (?_ : (2 : ℚ) ^ (exponent + 1) = _)
    rw [zpow_add₀ (by norm_num), hfirst]
    push_cast
    ring
  have hfull : 1 - format.bias < exponent → 2 ^ format.fractionBits ≤ rounded := by
    intro hlt
    rw [hnormal hlt, hfirst] at hlow
    refine bound_le_of_close hpos (hunit ▸ hclose) ?_
    exact_mod_cast hlow
  refine ⟨exponent, rounded, ?_, hclose, hleast, fun hlt => hnormal hlt ▸ hlow⟩
  rw [value_assembled (by omega) hmost (fun hlt => hfull (by omega)) hassembled]
  congr 2
  omega

/-- No finite value is nearer to a fraction than the one it is rounded to. -/
theorem abs_sub_value_ofFraction_le (hnumerator : 0 < numerator) (hdenominator : 0 < denominator)
    (hfinite : format.ofFraction numerator denominator < format.infinity) (other : ℕ) :
    |(numerator / denominator : ℚ) - value format (format.ofFraction numerator denominator)| ≤
      |(numerator / denominator : ℚ) - value format other| := by
  obtain ⟨exponent, rounded, hrounded⟩ := isRounded_ofFraction hnumerator hdenominator hfinite
  have hunit : (0 : ℚ) < (2 : ℚ) ^ (exponent - format.fractionBits) := zpow_pos (by norm_num) _
  have hmultiple := abs_sub_le_of_close hunit hrounded.close
  rw [hrounded.value_eq]
  by_cases hfiner : unitExponent format other < exponent - format.fractionBits
  · -- the power of two between them is a multiple of the unit
    have hother := value_lt_of_unitExponent_lt hfiner
    have hlow := hrounded.low (by
      have hleast : 1 - (format.bias + format.fractionBits) ≤ unitExponent format other := by
        rw [unitExponent]
        omega
      omega)
    have hpower : ((2 ^ format.fractionBits : ℕ) : ℚ) * (2 : ℚ) ^ (exponent - format.fractionBits) =
        (2 : ℚ) ^ exponent := by
      push_cast
      rw [← zpow_natCast, ← zpow_add₀ (by norm_num)]
      congr 1
      omega
    refine (hmultiple (2 ^ format.fractionBits)).trans ?_
    rw [hpower, abs_of_nonneg (by linarith), abs_of_nonneg (by linarith)]
    linarith
  · obtain ⟨count, hcount⟩ := exists_value_eq_mul (not_lt.mp hfiner)
    rw [hcount]
    exact hmultiple count

end Nearest

end DanWs.NearestValues
