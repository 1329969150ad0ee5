import DanWs.BinaryFloat
import Mathlib.Algebra.Order.Floor.Semifield
import Mathlib.Data.Int.Log
import Mathlib.Data.List.TakeWhile
import Mathlib.Data.Rat.Floor
import Mathlib.Tactic.FieldSimp
import Mathlib.Tactic.Linarith
import Mathlib.Tactic.Positivity
import Mathlib.Tactic.Ring

namespace DanWs.DecimalDigits

open DanWs.BinaryFloat

section Rounding

variable {numerator denominator : ℕ}

theorem roundHalfEven_bounds (numerator : ℕ) (h : 0 < denominator) :
    2 * numerator ≤ 2 * (denominator * roundHalfEven numerator denominator) + denominator ∧
      2 * (denominator * roundHalfEven numerator denominator) ≤ 2 * numerator + denominator := by
  have hsplit := Nat.div_add_mod numerator denominator
  have hlt := Nat.mod_lt numerator h
  have hround : roundHalfEven numerator denominator = numerator / denominator ∧
      2 * (numerator % denominator) ≤ denominator ∨
      roundHalfEven numerator denominator = numerator / denominator + 1 ∧
        denominator ≤ 2 * (numerator % denominator) := by
    rw [roundHalfEven]
    split
    · exact Or.inl ⟨rfl, by omega⟩
    · split
      · exact Or.inr ⟨rfl, by omega⟩
      · rcases Nat.mod_two_eq_zero_or_one (numerator / denominator) with heven | hodd
        · exact Or.inl ⟨by rw [heven, Nat.add_zero], by omega⟩
        · exact Or.inr ⟨by rw [hodd], by omega⟩
  rcases hround with ⟨hround, hrest⟩ | ⟨hround, hrest⟩
  · rw [hround]
    omega
  · rw [hround, Nat.mul_add, Nat.mul_one]
    omega

theorem abs_sub_roundHalfEven_le (numerator : ℕ) (h : 0 < denominator) :
    |(numerator / denominator : ℚ) - roundHalfEven numerator denominator| ≤ 1 / 2 := by
  obtain ⟨hlow, hhigh⟩ := roundHalfEven_bounds numerator h
  have hpos : (0 : ℚ) < denominator := by exact_mod_cast h
  have hlow' : (2 * numerator : ℚ) ≤
      2 * (denominator * roundHalfEven numerator denominator) + denominator := by
    exact_mod_cast hlow
  have hhigh' : (2 * (denominator * roundHalfEven numerator denominator) : ℚ) ≤
      2 * numerator + denominator := by
    exact_mod_cast hhigh
  rw [abs_le, le_sub_iff_add_le, sub_le_iff_le_add, le_div_iff₀ hpos, div_le_iff₀ hpos]
  constructor <;> linarith

theorem ceil_div_eq (hnumerator : 0 < numerator) :
    ⌈(denominator / numerator : ℚ)⌉₊ = (denominator + numerator - 1) / numerator := by
  have hpos : (0 : ℚ) < numerator := by exact_mod_cast hnumerator
  apply eq_of_forall_ge_iff
  intro bound
  rw [Nat.ceil_le, div_le_iff₀ hpos, ← Nat.lt_succ_iff, Nat.div_lt_iff_lt_mul hnumerator]
  have hcast : (denominator : ℚ) ≤ bound * numerator ↔ denominator ≤ bound * numerator := by
    exact_mod_cast Iff.rfl
  rw [hcast, Nat.succ_mul]
  omega

theorem floorLog_eq (base : ℕ) (hnumerator : 0 < numerator) (hdenominator : 0 < denominator) :
    floorLog base numerator denominator = Int.log base (numerator / denominator : ℚ) := by
  have hpos : (0 : ℚ) < denominator := by exact_mod_cast hdenominator
  rw [floorLog]
  split
  · next hle =>
      have hone : (1 : ℚ) ≤ numerator / denominator := by
        rw [le_div_iff₀ hpos, one_mul]
        exact_mod_cast hle
      rw [Int.log_of_one_le_right base hone, Nat.floor_div_eq_div]
  · next hlt =>
      have hone : (numerator / denominator : ℚ) ≤ 1 := by
        rw [div_le_one hpos]
        exact_mod_cast (Nat.lt_of_not_le hlt).le
      rw [Int.log_of_right_le_one base hone, inv_div, ceil_div_eq hnumerator]

/-- An even integer no further than one half away is the one rounded to. -/
theorem roundHalfEven_eq {rounded : ℕ} (h : 0 < denominator) (heven : 2 ∣ rounded)
    (hclose : |(numerator / denominator : ℚ) - rounded| ≤ 1 / 2) :
    roundHalfEven numerator denominator = rounded := by
  have hpos : (0 : ℚ) < denominator := by exact_mod_cast h
  rw [abs_le, le_sub_iff_add_le, sub_le_iff_le_add, le_div_iff₀ hpos, div_le_iff₀ hpos] at hclose
  have hlow : 2 * (denominator * rounded) ≤ 2 * numerator + denominator := by
    have hlow : (2 * (denominator * rounded) : ℚ) ≤ 2 * numerator + denominator := by linarith
    exact_mod_cast hlow
  have hhigh : 2 * numerator ≤ 2 * (denominator * rounded) + denominator := by
    have hhigh : (2 * numerator : ℚ) ≤ 2 * (denominator * rounded) + denominator := by linarith
    exact_mod_cast hhigh
  have hsplit := Nat.div_add_mod numerator denominator
  have hlt := Nat.mod_lt numerator h
  rw [roundHalfEven]
  generalize numerator / denominator = quotient at hsplit ⊢
  have hcases : rounded = quotient ∧ 2 * (numerator % denominator) ≤ denominator ∨
      rounded = quotient + 1 ∧ denominator ≤ 2 * (numerator % denominator) := by
    rcases lt_trichotomy rounded quotient with hless | hequal | hmore
    · have hstep := Nat.mul_le_mul_left denominator (Nat.succ_le_of_lt hless)
      rw [Nat.mul_succ] at hstep
      omega
    · subst hequal
      omega
    · rcases Nat.eq_or_lt_of_le (Nat.succ_le_of_lt hmore) with rfl | hbeyond
      · rw [Nat.mul_succ] at hlow hhigh
        omega
      · have hstep := Nat.mul_le_mul_left denominator (Nat.succ_le_of_lt hbeyond)
        rw [Nat.mul_succ, Nat.mul_succ] at hstep
        omega
  split
  · omega
  · split
    · omega
    · omega

theorem scaled_mul_zpow {base : ℕ} (hbase : 0 < base) (numerator : ℕ)
    (hdenominator : 0 < denominator) (exponent : ℤ) :
    ((numerator * base ^ (-exponent).toNat : ℕ) / (denominator * base ^ exponent.toNat : ℕ) : ℚ) *
      (base : ℚ) ^ exponent = numerator / denominator := by
  have hb : (base : ℚ) ≠ 0 := by exact_mod_cast hbase.ne'
  have hd : (denominator : ℚ) ≠ 0 := by exact_mod_cast hdenominator.ne'
  have hpower : (base : ℚ) ^ exponent * (base : ℚ) ^ (-exponent).toNat =
      (base : ℚ) ^ exponent.toNat := by
    rw [← zpow_natCast, ← zpow_natCast, ← zpow_add₀ hb]
    congr 1
    omega
  push_cast
  rw [div_mul_eq_mul_div, div_eq_div_iff (by positivity) hd, ← hpower]
  ring

theorem abs_sub_roundScaled_le {base : ℕ} (hbase : 0 < base) (numerator : ℕ)
    (hdenominator : 0 < denominator) (exponent : ℤ) :
    |(numerator / denominator : ℚ) - roundScaled base numerator denominator exponent *
        (base : ℚ) ^ exponent| ≤ (base : ℚ) ^ exponent / 2 := by
  have hunit : (0 : ℚ) < (base : ℚ) ^ exponent := zpow_pos (by exact_mod_cast hbase) exponent
  have hround := abs_sub_roundHalfEven_le (numerator * base ^ (-exponent).toNat)
    (Nat.mul_pos hdenominator (Nat.pow_pos hbase) : 0 < denominator * base ^ exponent.toNat)
  calc
    |(numerator / denominator : ℚ) - roundScaled base numerator denominator exponent *
        (base : ℚ) ^ exponent| = _ * (base : ℚ) ^ exponent := by
          rw [← scaled_mul_zpow hbase numerator hdenominator exponent, ← sub_mul, abs_mul,
            abs_of_pos hunit, roundScaled]
    _ ≤ 1 / 2 * (base : ℚ) ^ exponent := mul_le_mul_of_nonneg_right hround hunit.le
    _ = (base : ℚ) ^ exponent / 2 := by ring

theorem roundScaled_eq {base rounded : ℕ} (hbase : 0 < base) (hdenominator : 0 < denominator)
    {exponent : ℤ} (heven : 2 ∣ rounded)
    (hclose : |(numerator / denominator : ℚ) - rounded * (base : ℚ) ^ exponent| ≤
      (base : ℚ) ^ exponent / 2) :
    roundScaled base numerator denominator exponent = rounded := by
  have hunit : (0 : ℚ) < (base : ℚ) ^ exponent := zpow_pos (by exact_mod_cast hbase) exponent
  refine roundHalfEven_eq (Nat.mul_pos hdenominator (Nat.pow_pos hbase)) heven ?_
  rw [← scaled_mul_zpow hbase numerator hdenominator exponent, ← sub_mul, abs_mul,
    abs_of_pos hunit] at hclose
  exact le_of_mul_le_mul_right (by linarith) hunit

/-- Half a unit does not lead below a whole number of units. -/
theorem bound_le_of_close {x unit : ℚ} {rounded bound : ℕ} (hunit : 0 < unit)
    (hclose : |x - rounded * unit| ≤ unit / 2) (hlow : bound * unit ≤ x) : bound ≤ rounded := by
  by_contra hlt
  have hle : ((rounded + 1 : ℕ) : ℚ) ≤ bound := by exact_mod_cast Nat.lt_of_not_le hlt
  have hmul := mul_le_mul_of_nonneg_right hle hunit.le
  push_cast at hmul
  have habove := (abs_le.mp hclose).2
  linarith

theorem le_bound_of_close {x unit : ℚ} {rounded bound : ℕ} (hunit : 0 < unit)
    (hclose : |x - rounded * unit| ≤ unit / 2) (hhigh : x ≤ bound * unit) : rounded ≤ bound := by
  by_contra hlt
  have hle : ((bound + 1 : ℕ) : ℚ) ≤ rounded := by exact_mod_cast Nat.lt_of_not_le hlt
  have hmul := mul_le_mul_of_nonneg_right hle hunit.le
  push_cast at hmul
  have hbelow := (abs_le.mp hclose).1
  linarith

/-- A fraction that is rounded to zero is at most half the least positive value of
the format. -/
theorem le_of_ofFraction_eq_zero {format : Format} (hinfinity : 0 < format.infinity)
    (hnumerator : 0 < numerator) (hdenominator : 0 < denominator)
    (h : format.ofFraction numerator denominator = 0) :
    (numerator / denominator : ℚ) ≤ (2 : ℚ) ^ (1 - format.bias - format.fractionBits : ℤ) / 2 := by
  have hx : (0 : ℚ) < numerator / denominator := by positivity
  have hlog : ((2 : ℕ) : ℚ) ^ floorLog 2 numerator denominator ≤ numerator / denominator := by
    rw [floorLog_eq 2 hnumerator hdenominator]
    exact Int.zpow_log_le_self (by decide) hx
  have hrounded := abs_sub_roundScaled_le (by decide : 0 < 2) numerator hdenominator
    (max (floorLog 2 numerator denominator) (1 - format.bias) - format.fractionBits)
  rw [Format.ofFraction, if_neg hnumerator.ne'] at h
  dsimp only at h
  have hsignificand : roundScaled 2 numerator denominator
      (max (floorLog 2 numerator denominator) (1 - format.bias) - format.fractionBits) = 0 := by
    omega
  rw [hsignificand, Nat.cast_zero, zero_mul, sub_zero, abs_of_pos hx] at hrounded
  push_cast at hlog hrounded
  have hless : floorLog 2 numerator denominator < 1 - format.bias := by
    by_contra hge
    rw [max_eq_left (by omega)] at hrounded
    have hpos : (0 : ℚ) < (2 : ℚ) ^ floorLog 2 numerator denominator := zpow_pos (by norm_num) _
    have hunit : (2 : ℚ) ^ (floorLog 2 numerator denominator - format.fractionBits) ≤
        (2 : ℚ) ^ floorLog 2 numerator denominator :=
      zpow_le_zpow_right₀ (by norm_num) (by omega)
    linarith
  rwa [max_eq_right hless.le] at hrounded

end Rounding

section Digits

/-- The number is rounded to so many significant digits, the first of which
stands for the power of ten with the exponent. -/
structure IsRounding (digits : ℕ) (x : ℚ) (exponent : ℤ) (significand : ℕ) : Prop where
  low : 10 ^ (digits - 1) ≤ significand
  high : significand < 10 ^ digits
  close : |x - significand * (10 : ℚ) ^ (exponent - (digits - 1))| ≤
    (10 : ℚ) ^ (Int.log 10 x - (digits - 1)) / 2
  log_le : Int.log 10 x ≤ exponent
  le_log : exponent ≤ Int.log 10 x + 1

theorem log_bounds {x : ℚ} (h : 0 < x) :
    (10 : ℚ) ^ Int.log 10 x ≤ x ∧ x < (10 : ℚ) ^ (Int.log 10 x + 1) := by
  have hlow : ((10 : ℕ) : ℚ) ^ Int.log 10 x ≤ x := Int.zpow_log_le_self (by decide) h
  have hhigh : x < ((10 : ℕ) : ℚ) ^ (Int.log 10 x + 1) := Int.lt_zpow_succ_log_self (by decide) x
  exact ⟨by exact_mod_cast hlow, by exact_mod_cast hhigh⟩

theorem isRounding_decimalDigits {digits numerator denominator : ℕ} (hdigits : 0 < digits)
    (hnumerator : 0 < numerator) (hdenominator : 0 < denominator) :
    IsRounding digits (numerator / denominator)
      (decimalDigits digits numerator denominator).1
      (decimalDigits digits numerator denominator).2 := by
  have hx : (0 : ℚ) < numerator / denominator := by positivity
  obtain ⟨hlow, hhigh⟩ := log_bounds hx
  have hlog := floorLog_eq 10 hnumerator hdenominator
  rw [decimalDigits, hlog]
  generalize hF : Int.log 10 (numerator / denominator : ℚ) = F at hlow hhigh ⊢
  have hclose := abs_sub_roundScaled_le (by decide : 0 < 10) numerator hdenominator
    (F - (digits - 1))
  push_cast at hclose
  generalize roundScaled 10 numerator denominator (F - (digits - 1)) = rounded at hclose ⊢
  -- all in units of the last digit
  obtain ⟨unit, hunit⟩ : ∃ unit : ℚ, (10 : ℚ) ^ (F - (digits - 1)) = unit := ⟨_, rfl⟩
  have hpos : 0 < unit := hunit ▸ zpow_pos (by norm_num) _
  have hfirst : (10 : ℚ) ^ F = 10 ^ (digits - 1) * unit := by
    rw [← hunit, ← zpow_natCast, ← zpow_add₀ (by norm_num)]
    congr 1
    omega
  have hnext : (10 : ℚ) ^ (F + 1) = 10 ^ digits * unit := by
    rw [← hunit, ← zpow_natCast, ← zpow_add₀ (by norm_num)]
    congr 1
    omega
  rw [hfirst] at hlow
  rw [hnext] at hhigh
  rw [hunit] at hclose
  have hleast : 10 ^ (digits - 1) ≤ rounded := by
    refine bound_le_of_close hpos hclose ?_
    exact_mod_cast hlow
  have hmost : rounded ≤ 10 ^ digits := by
    refine le_bound_of_close hpos hclose ?_
    exact_mod_cast hhigh.le
  have hpower : 10 ^ digits = 10 * 10 ^ (digits - 1) := by
    rw [← Nat.pow_succ']
    congr 1
    omega
  split
  · next hcarry =>
      have hvalue : ((10 ^ (digits - 1) : ℕ) : ℚ) * (10 : ℚ) ^ (F + 1 - (digits - 1)) =
          rounded * unit := by
        rw [show F + 1 - ((digits : ℤ) - 1) = 1 + (F - (digits - 1)) by ring,
          zpow_add₀ (by norm_num), hunit, hcarry, hpower]
        push_cast
        ring
      have hten : 0 < 10 ^ (digits - 1) := Nat.pow_pos (by decide)
      refine ⟨le_rfl, by omega, ?_, by omega, by omega⟩
      rw [hF, hunit, hvalue]
      exact hclose
  · next hfits =>
      refine ⟨hleast, lt_of_le_of_ne hmost hfits, ?_, by omega, by omega⟩
      rw [hF, hunit]
      exact hclose

/-- An even number of units of the last digit, no further than half a unit away, is
what the digits denote. -/
theorem decimalDigits_eq {digits numerator denominator rounded : ℕ} (hdigits : 0 < digits)
    (hnumerator : 0 < numerator) (hdenominator : 0 < denominator) (heven : 2 ∣ rounded)
    (hclose : |(numerator / denominator : ℚ) -
        rounded * (10 : ℚ) ^ (Int.log 10 (numerator / denominator : ℚ) - (digits - 1))| ≤
      (10 : ℚ) ^ (Int.log 10 (numerator / denominator : ℚ) - (digits - 1)) / 2) :
    (decimalDigits digits numerator denominator).2 *
        (10 : ℚ) ^ ((decimalDigits digits numerator denominator).1 - (digits - 1)) =
      rounded * (10 : ℚ) ^ (Int.log 10 (numerator / denominator : ℚ) - (digits - 1)) := by
  have hlog := floorLog_eq 10 hnumerator hdenominator
  rw [decimalDigits, hlog]
  generalize Int.log 10 (numerator / denominator : ℚ) = F at hclose ⊢
  have hrounded : roundScaled 10 numerator denominator (F - (digits - 1)) = rounded := by
    refine roundScaled_eq (by decide) hdenominator heven ?_
    exact_mod_cast hclose
  rw [hrounded]
  split
  · next hcarry =>
      rw [hcarry]
      push_cast
      rw [← zpow_natCast, ← zpow_natCast, ← zpow_add₀ (by norm_num), ← zpow_add₀ (by norm_num)]
      congr 1
      omega
  · rfl

/-- A number that is no finer than its digits is the integer it is rounded to. -/
theorem IsRounding.eq_of_integer {digits numerator denominator rounded significand : ℕ}
    {exponent : ℤ} (h : IsRounding digits (numerator / denominator) exponent significand)
    (hdigits : 0 < digits) (hnumerator : 0 < numerator) (hdenominator : 0 < denominator)
    (hexponent : exponent < digits)
    (hgrid : denominator = 1 ∨ numerator < 2 * 10 ^ (digits - 1))
    (hrounded : (significand : ℚ) * (10 : ℚ) ^ (exponent - (digits - 1)) = rounded) :
    numerator = rounded * denominator := by
  have hd : (0 : ℚ) < denominator := by exact_mod_cast hdenominator
  have hx : (0 : ℚ) < numerator / denominator := by positivity
  have hclose := h.close
  rw [hrounded] at hclose
  obtain ⟨hlow, -⟩ := log_bounds hx
  have hlog := h.log_le
  generalize Int.log 10 (numerator / denominator : ℚ) = F at hclose hlow hlog
  have hdistance : |(numerator : ℚ) - rounded * denominator| =
      denominator * |(numerator / denominator : ℚ) - rounded| := by
    rw [← abs_of_pos hd, ← abs_mul, abs_of_pos hd, mul_sub, mul_div_cancel₀ _ hd.ne', mul_comm]
  have hless : |(numerator : ℚ) - rounded * denominator| < 1 := by
    rw [hdistance]
    rcases hgrid with rfl | hsmall
    · have hunit : (10 : ℚ) ^ (F - (digits - 1)) ≤ 1 := by
        rw [← zpow_zero (10 : ℚ)]
        exact zpow_le_zpow_right₀ (by norm_num) (by omega)
      rw [Nat.cast_one, one_mul] at *
      linarith
    · have hten : (0 : ℚ) < 10 ^ (digits - 1) := by positivity
      have hunit : (10 : ℚ) ^ (F - (digits - 1)) * 10 ^ (digits - 1) ≤ numerator / denominator := by
        refine le_trans (le_of_eq ?_) hlow
        rw [← zpow_natCast, ← zpow_add₀ (by norm_num)]
        congr 1
        omega
      have hsmall' : (numerator : ℚ) < 2 * 10 ^ (digits - 1) := by exact_mod_cast hsmall
      rw [le_div_iff₀ hd] at hunit
      have hstep : (10 : ℚ) ^ (F - (digits - 1)) * denominator < 2 := by
        by_contra hge
        have hmul := mul_le_mul_of_nonneg_right (not_lt.mp hge) hten.le
        linarith
      calc
        denominator * |(numerator / denominator : ℚ) - rounded| ≤
            denominator * ((10 : ℚ) ^ (F - (digits - 1)) / 2) :=
          mul_le_mul_of_nonneg_left hclose hd.le
        _ < 1 := by linarith
  have hint : |(numerator : ℤ) - rounded * denominator| < 1 := by exact_mod_cast hless
  rw [Int.abs_lt_one_iff] at hint
  have hequal : (numerator : ℤ) = (rounded * denominator : ℕ) := by
    push_cast
    omega
  exact_mod_cast hequal

end Digits

end DanWs.DecimalDigits
