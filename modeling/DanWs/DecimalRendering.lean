import Mathlib.Algebra.Order.Floor.Semifield
import Mathlib.Data.Int.Log
import Mathlib.Data.List.TakeWhile
import Mathlib.Data.Rat.Floor
import Mathlib.Tactic.FieldSimp
import Mathlib.Tactic.Linarith
import Mathlib.Tactic.Positivity
import Mathlib.Tactic.Ring
import DanWs.DecimalDigits

namespace DanWs.DecimalRendering

open DanWs.BinaryFloat
open DanWs.DecimalDigits

section Texts

/-- The number that a decimal fraction denotes. -/
def fixedValue (text : List Char) : ℚ :=
  let whole := text.takeWhile (· ≠ '.')
  let fraction := (text.dropWhile (· ≠ '.')).drop 1
  Nat.ofDigitChars 10 (whole ++ fraction) 0 / 10 ^ fraction.length

def exponentValue (text : List Char) : ℤ :=
  match text with
  | '-' :: digits => -Nat.ofDigitChars 10 digits 0
  | '+' :: digits => Nat.ofDigitChars 10 digits 0
  | digits => Nat.ofDigitChars 10 digits 0

/-- The number that a decimal fraction with or without an exponent denotes. -/
def textValue (text : List Char) : ℚ :=
  fixedValue (text.takeWhile (· ≠ 'e')) *
    10 ^ exponentValue ((text.dropWhile (· ≠ 'e')).drop 1)

variable {whole fraction : List Char}

theorem trimFraction_cases (whole fraction : List Char) :
    (∃ zeros, fraction = List.replicate zeros '0' ∧ trimFraction whole fraction = whole) ∨
      ∃ trimmed last zeros, last ≠ '0' ∧
        fraction = trimmed ++ [last] ++ List.replicate zeros '0' ∧
        trimFraction whole fraction = whole ++ '.' :: (trimmed ++ [last]) := by
  induction fraction using List.reverseRecOn with
  | nil => exact Or.inl ⟨0, rfl, rfl⟩
  | append_singleton fraction c ih =>
      by_cases hzero : c = '0'
      · subst hzero
        have htrim : trimFraction whole (fraction ++ ['0']) = trimFraction whole fraction := by
          simp [trimFraction]
        rcases ih with ⟨zeros, rfl, hwhole⟩ | ⟨trimmed, last, zeros, hlast, rfl, hpoint⟩
        · exact Or.inl ⟨zeros + 1, List.replicate_succ'.symm, htrim.trans hwhole⟩
        · refine Or.inr ⟨trimmed, last, zeros + 1, hlast, ?_, htrim.trans hpoint⟩
          rw [List.replicate_succ', ← List.append_assoc]
      · refine Or.inr ⟨fraction, c, 0, hzero, by simp, ?_⟩
        simp [trimFraction, hzero]

theorem forall_ne_of_notMem {c : Char} {before : List Char} (h : c ∉ before) :
    ∀ other ∈ before, decide (other ≠ c) = true := by
  intro other hother
  rw [decide_eq_true_eq]
  rintro rfl
  exact h hother

theorem takeWhile_ne_append {c : Char} {before : List Char} (h : c ∉ before)
    (after : List Char) : (before ++ c :: after).takeWhile (· ≠ c) = before := by
  rw [List.takeWhile_append_of_pos (forall_ne_of_notMem h)]
  simp

theorem dropWhile_ne_append {c : Char} {before : List Char} (h : c ∉ before)
    (after : List Char) : (before ++ c :: after).dropWhile (· ≠ c) = c :: after := by
  rw [List.dropWhile_append_of_pos (forall_ne_of_notMem h)]
  simp

theorem takeWhile_ne_self {c : Char} {text : List Char} (h : c ∉ text) :
    text.takeWhile (· ≠ c) = text :=
  List.takeWhile_eq_self_iff.mpr (forall_ne_of_notMem h)

theorem dropWhile_ne_self {c : Char} {text : List Char} (h : c ∉ text) :
    text.dropWhile (· ≠ c) = [] :=
  List.dropWhile_eq_nil_iff.mpr (forall_ne_of_notMem h)

theorem fixedValue_point (h : '.' ∉ whole) (fraction : List Char) :
    fixedValue (whole ++ '.' :: fraction) =
      Nat.ofDigitChars 10 (whole ++ fraction) 0 / 10 ^ fraction.length := by
  rw [fixedValue, takeWhile_ne_append h, dropWhile_ne_append h]
  rfl

theorem fixedValue_whole (h : '.' ∉ whole) : fixedValue whole = Nat.ofDigitChars 10 whole 0 := by
  rw [fixedValue, takeWhile_ne_self h, dropWhile_ne_self h]
  simp

theorem ofDigitChars_zeros (text : List Char) (places zeros : ℕ) :
    (Nat.ofDigitChars 10 (text ++ List.replicate zeros '0') 0 / 10 ^ (places + zeros) : ℚ) =
      Nat.ofDigitChars 10 text 0 / 10 ^ places := by
  rw [Nat.ofDigitChars_append, Nat.ofDigitChars_replicate_zero, pow_add]
  push_cast
  field_simp

theorem fixedValue_trimFraction (h : '.' ∉ whole) (fraction : List Char) :
    fixedValue (trimFraction whole fraction) =
      Nat.ofDigitChars 10 (whole ++ fraction) 0 / 10 ^ fraction.length := by
  rcases trimFraction_cases whole fraction with
    ⟨zeros, rfl, hwhole⟩ | ⟨trimmed, last, zeros, -, rfl, hpoint⟩
  · have hzeros := ofDigitChars_zeros whole 0 zeros
    rw [Nat.zero_add, pow_zero, div_one] at hzeros
    rw [hwhole, fixedValue_whole h, List.length_replicate, hzeros]
  · have hlength : (trimmed ++ [last] ++ List.replicate zeros '0').length =
        (trimmed ++ [last]).length + zeros := by
      rw [List.length_append, List.length_replicate]
    have htext : whole ++ (trimmed ++ [last] ++ List.replicate zeros '0') =
        whole ++ (trimmed ++ [last]) ++ List.replicate zeros '0' :=
      (List.append_assoc _ _ _).symm
    rw [hpoint, fixedValue_point h, hlength, htext, ofDigitChars_zeros]

theorem exponentValue_exponentText (exponent : ℤ) :
    exponentValue ((exponentText exponent).drop 1) = exponent := by
  have hdigits : Nat.ofDigitChars 10 (if (Nat.toDigits 10 exponent.natAbs).length < 2 then
      '0' :: Nat.toDigits 10 exponent.natAbs else Nat.toDigits 10 exponent.natAbs) 0 =
        exponent.natAbs := by
    split
    · exact Nat.ofDigitChars_ten_toDigits
    · exact Nat.ofDigitChars_ten_toDigits
  rw [exponentText, List.drop_one, List.tail_cons]
  by_cases hneg : exponent < 0
  · rw [if_pos hneg, exponentValue, hdigits]
    omega
  · rw [if_neg hneg, exponentValue, hdigits]
    omega

theorem textValue_fixed {text : List Char} (h : 'e' ∉ text) : textValue text = fixedValue text := by
  rw [textValue, takeWhile_ne_self h, dropWhile_ne_self h]
  simp [exponentValue]

theorem textValue_scientific {text : List Char} (h : 'e' ∉ text) (exponent : ℤ) :
    textValue (text ++ exponentText exponent) = fixedValue text * 10 ^ exponent := by
  have hvalue := exponentValue_exponentText exponent
  rw [exponentText] at hvalue ⊢
  rw [textValue, takeWhile_ne_append h, dropWhile_ne_append h, hvalue]

/-- The digits on both sides of the point. -/
structure Digits (whole fraction : List Char) (significand : ℕ) : Prop where
  isDigit : ∀ c ∈ whole ++ fraction, c.isDigit
  value : Nat.ofDigitChars 10 (whole ++ fraction) 0 = significand

theorem length_toDigits {digits significand : ℕ} (hdigits : 0 < digits)
    (hlow : 10 ^ (digits - 1) ≤ significand) (hhigh : significand < 10 ^ digits) :
    (Nat.toDigits 10 significand).length = digits := by
  have hle := (Nat.length_toDigits_le_iff (by decide : 1 < 10) hdigits).mpr hhigh
  refine le_antisymm hle ?_
  by_contra hlt
  rcases Nat.eq_zero_or_pos (digits - 1) with hone | hmore
  · have hpos : 0 < (Nat.toDigits 10 significand).length := Nat.length_toDigits_pos
    omega
  · have hshort := (Nat.length_toDigits_le_iff (by decide : 1 < 10) hmore).mp
      (show (Nat.toDigits 10 significand).length ≤ digits - 1 by omega)
    omega

theorem digits_split (significand count : ℕ) :
    Digits ((Nat.toDigits 10 significand).take count) ((Nat.toDigits 10 significand).drop count)
      significand := by
  constructor
  · rw [List.take_append_drop]
    intro c hc
    exact Nat.isDigit_of_mem_toDigits (by decide) (by decide) hc
  · rw [List.take_append_drop]
    exact Nat.ofDigitChars_ten_toDigits

theorem digits_zeros (significand zeros : ℕ) :
    Digits ['0'] (List.replicate zeros '0' ++ Nat.toDigits 10 significand) significand := by
  have htext : ['0'] ++ (List.replicate zeros '0' ++ Nat.toDigits 10 significand) =
      List.replicate (zeros + 1) '0' ++ Nat.toDigits 10 significand := by
    rw [List.replicate_succ]
    rfl
  constructor
  · rw [htext]
    intro c hc
    rcases List.mem_append.mp hc with hzero | hdigit
    · rw [List.eq_of_mem_replicate hzero]
      decide
    · exact Nat.isDigit_of_mem_toDigits (by decide) (by decide) hdigit
  · rw [htext, Nat.ofDigitChars_append, Nat.ofDigitChars_replicate_zero, Nat.mul_zero]
    exact Nat.ofDigitChars_ten_toDigits

/-- How a rounded number is laid out, with an exponent if it is very small or has
digits missing in front of the point, and without one otherwise. -/
structure Layout (digits : ℕ) (text whole fraction : List Char) (exponent : ℤ)
    (significand : ℕ) : Prop where
  written : Digits whole fraction significand
  scientific : exponent < -4 ∨ (digits : ℤ) ≤ exponent →
    text = trimFraction whole fraction ++ exponentText exponent ∧ fraction.length + 1 = digits
  fixed : ¬ (exponent < -4 ∨ (digits : ℤ) ≤ exponent) →
    text = trimFraction whole fraction ∧ (fraction.length : ℤ) = digits - 1 - exponent

theorem layout_generalText {digits numerator denominator : ℕ} (hdigits : 0 < digits)
    (hnumerator : 0 < numerator) (hdenominator : 0 < denominator) :
    ∃ whole fraction, Layout digits (generalText digits numerator denominator) whole fraction
      (decimalDigits digits numerator denominator).1
      (decimalDigits digits numerator denominator).2 := by
  have hrounding := isRounding_decimalDigits hdigits hnumerator hdenominator
  rw [generalText, if_neg hnumerator.ne']
  generalize decimalDigits digits numerator denominator = rounded at hrounding ⊢
  obtain ⟨exponent, significand⟩ := rounded
  have hlength := length_toDigits hdigits hrounding.low hrounding.high
  dsimp only at hlength ⊢
  split
  · next hscientific =>
      refine ⟨_, _, digits_split significand 1,
        fun _ => ⟨rfl, ?_⟩, fun hfixed => absurd hscientific hfixed⟩
      rw [List.length_drop, hlength]
      omega
  · next hfixed =>
      split
      · next hneg =>
          refine ⟨_, _, digits_zeros significand (exponent.natAbs - 1),
            fun hscientific => absurd hscientific hfixed, fun _ => ⟨rfl, ?_⟩⟩
          rw [List.length_append, List.length_replicate, hlength]
          omega
      · next hnonneg =>
          refine ⟨_, _, digits_split significand (exponent.toNat + 1),
            fun hscientific => absurd hscientific hfixed, fun _ => ⟨rfl, ?_⟩⟩
          rw [List.length_drop, hlength]
          omega

theorem generalText_layout {digits numerator denominator : ℕ} (hdigits : 0 < digits)
    (hnumerator : 0 < numerator) (hdenominator : 0 < denominator) :
    ∃ whole fraction exponent significand,
      IsRounding digits (numerator / denominator) exponent significand ∧
      Layout digits (generalText digits numerator denominator) whole fraction exponent
        significand := by
  obtain ⟨whole, fraction, hlayout⟩ := layout_generalText hdigits hnumerator hdenominator
  exact ⟨whole, fraction, _, _, isRounding_decimalDigits hdigits hnumerator hdenominator, hlayout⟩

theorem Digits.notMem {significand : ℕ} (h : Digits whole fraction significand) {c : Char}
    (hc : c.isDigit = false) : c ∉ whole ++ fraction := by
  intro hmem
  rw [h.isDigit c hmem] at hc
  cases hc

theorem notMem_trimFraction {c : Char} (h : c ∉ whole ++ fraction) (hpoint : c ≠ '.') :
    c ∉ trimFraction whole fraction := by
  rw [List.mem_append, not_or] at h
  rcases trimFraction_cases whole fraction with
    ⟨zeros, -, hwhole⟩ | ⟨trimmed, last, zeros, -, rfl, htext⟩
  · rw [hwhole]
    exact h.1
  · rw [htext]
    simp only [List.mem_append, List.mem_cons, not_or] at h ⊢
    exact ⟨h.1, hpoint, h.2.1⟩

theorem digit_bounds {c : Char} (h : c.isDigit) (hne : c ≠ '0') :
    0 < c.toNat - '0'.toNat ∧ c.toNat - '0'.toNat < 10 := by
  rw [Char.isDigit, Bool.and_eq_true, decide_eq_true_eq, decide_eq_true_eq] at h
  obtain ⟨hlow, hhigh⟩ := h
  have hlow : 48 ≤ c.toNat := hlow
  have hhigh : c.toNat ≤ 57 := hhigh
  have hzero : '0'.toNat = 48 := rfl
  have hneq : c.toNat ≠ 48 := by
    intro heq
    exact hne (Char.toNat_inj.mp heq)
  omega

/-- There is nothing but zeros behind the point exactly if the last digit in front
of the point is the last one that counts. -/
theorem Digits.zeros_iff {significand : ℕ} (h : Digits whole fraction significand) :
    (∃ zeros, fraction = List.replicate zeros '0') ↔ 10 ^ fraction.length ∣ significand := by
  constructor
  · rintro ⟨zeros, rfl⟩
    rw [← h.value, Nat.ofDigitChars_append, Nat.ofDigitChars_replicate_zero, List.length_replicate]
    exact Nat.dvd_mul_right _ _
  · intro hdvd
    rcases trimFraction_cases whole fraction with
      ⟨zeros, hzeros, -⟩ | ⟨trimmed, last, zeros, hlast, hfraction, -⟩
    · exact ⟨zeros, hzeros⟩
    · exfalso
      have hdigit := digit_bounds (h.isDigit last (by simp [hfraction])) hlast
      have hvalue : significand =
          10 ^ zeros * (10 * Nat.ofDigitChars 10 (whole ++ trimmed) 0 +
            (last.toNat - '0'.toNat)) := by
        have htext : whole ++ fraction =
            whole ++ trimmed ++ [last] ++ List.replicate zeros '0' := by
          simp [hfraction]
        rw [← h.value, htext, Nat.ofDigitChars_append, Nat.ofDigitChars_replicate_zero,
          Nat.ofDigitChars_append, Nat.ofDigitChars_cons, Nat.ofDigitChars_nil]
      have hpower : 10 ^ (zeros + 1) ∣ 10 ^ fraction.length := by
        apply Nat.pow_dvd_pow
        rw [hfraction, List.length_append, List.length_append, List.length_replicate]
        simp only [List.length_singleton]
        omega
      have hten : 10 ∣ 10 * Nat.ofDigitChars 10 (whole ++ trimmed) 0 +
          (last.toNat - '0'.toNat) := by
        have hmul := hpower.trans hdvd
        rw [hvalue, Nat.pow_succ] at hmul
        exact Nat.dvd_of_mul_dvd_mul_left (Nat.pow_pos (by decide)) hmul
      omega

/-- A decimal of a single digit, with at least so many places. -/
def IsDigitBelow (least : ℕ) (x : ℚ) : Prop :=
  ∃ digit places : ℕ, 0 < digit ∧ digit < 10 ∧ least ≤ places ∧ x = digit / 10 ^ places

theorem IsDigitBelow.pos {least : ℕ} {x : ℚ} (h : IsDigitBelow least x) : 0 < x := by
  obtain ⟨digit, places, hdigit, -, -, rfl⟩ := h
  positivity

theorem isDigitBelow_iff {digits : ℕ} {x : ℚ} {exponent : ℤ} {significand : ℕ}
    (h : IsRounding digits x exponent significand) (hdigits : 0 < digits) (least : ℕ) :
    IsDigitBelow least (significand * (10 : ℚ) ^ (exponent - (digits - 1))) ↔
      exponent ≤ -least ∧ 10 ^ (digits - 1) ∣ significand := by
  have hunit : (0 : ℚ) < (10 : ℚ) ^ (exponent - (digits - 1)) := zpow_pos (by norm_num) _
  have hlow : ((10 ^ (digits - 1) : ℕ) : ℚ) ≤ significand := by exact_mod_cast h.low
  have hhigh : (significand : ℚ) < ((10 ^ digits : ℕ) : ℚ) := by exact_mod_cast h.high
  have hfirst : ((10 ^ (digits - 1) : ℕ) : ℚ) * (10 : ℚ) ^ (exponent - (digits - 1)) =
      (10 : ℚ) ^ exponent := by
    push_cast
    rw [← zpow_natCast, ← zpow_add₀ (by norm_num)]
    congr 1
    omega
  have hnext : ((10 ^ digits : ℕ) : ℚ) * (10 : ℚ) ^ (exponent - (digits - 1)) =
      (10 : ℚ) ^ (exponent + 1) := by
    push_cast
    rw [← zpow_natCast, ← zpow_add₀ (by norm_num)]
    congr 1
    omega
  constructor
  · rintro ⟨digit, places, hpos, hten, hplaces, hvalue⟩
    have hdigit : (1 : ℚ) ≤ digit ∧ (digit : ℚ) < 10 :=
      ⟨by exact_mod_cast hpos, by exact_mod_cast hten⟩
    have hplace : (0 : ℚ) < (10 : ℚ) ^ (-places : ℤ) := zpow_pos (by norm_num) _
    rw [div_eq_mul_inv, ← zpow_natCast, ← zpow_neg] at hvalue
    have hbelow : (10 : ℚ) ^ exponent < (10 : ℚ) ^ (1 - places : ℤ) := by
      calc
        (10 : ℚ) ^ exponent ≤ significand * (10 : ℚ) ^ (exponent - (digits - 1)) :=
          hfirst ▸ mul_le_mul_of_nonneg_right hlow hunit.le
        _ = digit * (10 : ℚ) ^ (-places : ℤ) := hvalue
        _ < 10 * (10 : ℚ) ^ (-places : ℤ) := mul_lt_mul_of_pos_right hdigit.2 hplace
        _ = (10 : ℚ) ^ (1 - places : ℤ) := by
            rw [sub_eq_add_neg, zpow_add₀ (by norm_num), zpow_one]
    have habove : (10 : ℚ) ^ (-places : ℤ) < (10 : ℚ) ^ (exponent + 1) := by
      calc
        (10 : ℚ) ^ (-places : ℤ) ≤ digit * (10 : ℚ) ^ (-places : ℤ) :=
          le_mul_of_one_le_left hplace.le hdigit.1
        _ = significand * (10 : ℚ) ^ (exponent - (digits - 1)) := hvalue.symm
        _ < (10 : ℚ) ^ (exponent + 1) := hnext ▸ mul_lt_mul_of_pos_right hhigh hunit
    rw [zpow_lt_zpow_iff_right₀ (by norm_num)] at hbelow habove
    have hexponent : (-places : ℤ) = exponent := by omega
    refine ⟨by omega, digit, ?_⟩
    have hequal : (significand : ℚ) * (10 : ℚ) ^ (exponent - (digits - 1)) =
        ((10 ^ (digits - 1) * digit : ℕ) : ℚ) * (10 : ℚ) ^ (exponent - (digits - 1)) := by
      rw [hvalue, hexponent, ← hfirst, Nat.cast_mul]
      ring
    exact_mod_cast mul_right_cancel₀ hunit.ne' hequal
  · rintro ⟨hexponent, digit, rfl⟩
    have hpos : 0 < digit := by
      rcases Nat.eq_zero_or_pos digit with rfl | hpos
      · have hten : 0 < 10 ^ (digits - 1) := Nat.pow_pos (by decide)
        have hlow := h.low
        omega
      · exact hpos
    have hten : digit < 10 := by
      have hlt := h.high
      rw [show digits = digits - 1 + 1 by omega, Nat.pow_succ, Nat.add_sub_cancel] at hlt
      exact Nat.lt_of_mul_lt_mul_left hlt
    refine ⟨digit, exponent.natAbs, hpos, hten, by omega, ?_⟩
    have hplaces : (10 : ℚ) ^ exponent = ((10 : ℚ) ^ exponent.natAbs)⁻¹ := by
      rw [← zpow_natCast, ← zpow_neg]
      congr 1
      omega
    rw [Nat.mul_comm, Nat.cast_mul, mul_assoc, hfirst, hplaces, div_eq_mul_inv]

/-- The rendered text denotes the rounded number. -/
theorem Layout.textValue_eq {digits significand : ℕ} {text : List Char} {exponent : ℤ}
    (h : Layout digits text whole fraction exponent significand) :
    textValue text = significand * (10 : ℚ) ^ (exponent - (digits - 1)) := by
  have hpoint : '.' ∉ whole :=
    fun hmem => h.written.notMem (by decide) (List.mem_append_left _ hmem)
  have hexponent : 'e' ∉ trimFraction whole fraction :=
    notMem_trimFraction (h.written.notMem (by decide)) (by decide)
  by_cases hscientific : exponent < -4 ∨ (digits : ℤ) ≤ exponent
  · obtain ⟨htext, hplaces⟩ := h.scientific hscientific
    rw [htext, textValue_scientific hexponent, fixedValue_trimFraction hpoint, h.written.value,
      ← zpow_natCast, div_mul_eq_mul_div, mul_div_assoc, ← zpow_sub₀ (by norm_num)]
    congr 3
    omega
  · obtain ⟨htext, hplaces⟩ := h.fixed hscientific
    rw [htext, textValue_fixed hexponent, fixedValue_trimFraction hpoint, h.written.value,
      ← zpow_natCast, hplaces, div_eq_mul_inv, ← zpow_neg]
    congr 2
    ring

theorem textValue_zero (digits denominator : ℕ) :
    textValue (generalText digits 0 denominator) = 0 := by
  have htext : generalText digits 0 denominator = ['0'] := by rw [generalText, if_pos rfl]
  rw [htext, textValue_fixed (by decide), fixedValue_whole (by decide)]
  rfl

end Texts

end DanWs.DecimalRendering
