import DanWs.DecimalRendering
import DanWs.VarFloats

namespace DanWs.CompactParts

open DanWs.BinaryFloat
open DanWs.DecimalRendering
open DanWs.VarFloats

section Parts

variable {whole fraction : List Char} {significand : ℕ}

theorem findIdx_append {c : Char} {before : List Char} (h : c ∉ before) (after : List Char) :
    (before ++ c :: after).findIdx? (· = c) = some before.length := by
  induction before with
  | nil => simp [List.findIdx?_cons]
  | cons other before ih =>
      rw [List.mem_cons, not_or] at h
      rw [List.cons_append, List.findIdx?_cons, ih h.2]
      simp [Ne.symm h.1]

theorem findIdx_eq_none {c : Char} {text : List Char} (h : c ∉ text) :
    text.findIdx? (· = c) = none :=
  List.findIdx?_eq_none_iff.mpr fun _ hother =>
    decide_eq_false (of_decide_eq_true (forall_ne_of_notMem h _ hother))

theorem stoull_digits {text : List Char} (hdigits : ∀ c ∈ text, c.isDigit) (hne : text ≠ [])
    (hlt : Nat.ofDigitChars 10 text 0 < 2 ^ 64) :
    stoull text = some (UInt64.ofNat (Nat.ofDigitChars 10 text 0)) := by
  have htake : text.takeWhile Char.isDigit = text := List.takeWhile_eq_self_iff.mpr hdigits
  rw [stoull, htake, if_neg (by simp only [hne, false_or]; omega)]

theorem findLastNonZero_append (before : List Char) {last : Char} (h : last ≠ '0') :
    findLastNonZero (before ++ [last]) = some before.length := by
  rw [findLastNonZero, List.reverse_append]
  simp [List.findIdx?_cons, h]

/-- Digits with a point among them are sent as they are, if the last one counts. -/
theorem compactParts_point {trimmed : List Char} {last : Char} (hlast : last ≠ '0')
    (hdigits : ∀ c ∈ whole ++ (trimmed ++ [last]), c.isDigit)
    (hplaces : (trimmed ++ [last]).length ≤ 63)
    (hlt : Nat.ofDigitChars 10 (whole ++ (trimmed ++ [last])) 0 < 2 ^ 64) (truncated : UInt64) :
    compactParts (whole ++ '.' :: (trimmed ++ [last])) truncated =
      some ((trimmed ++ [last]).length,
        UInt64.ofNat (Nat.ofDigitChars 10 (whole ++ (trimmed ++ [last])) 0)) := by
  have hother : ∀ c : Char, c.isDigit = false → c ∉ whole ++ (trimmed ++ [last]) := by
    intro c hc hmem
    rw [hdigits c hmem] at hc
    cases hc
  have hpoint : '.' ∉ whole := fun hmem => hother '.' (by decide) (List.mem_append_left _ hmem)
  have hletter : ∀ c : Char, c.isDigit = false → c ≠ '.' →
      c ∉ whole ++ '.' :: (trimmed ++ [last]) := by
    intro c hc hne
    have hnot := hother c hc
    simp only [List.mem_append, List.mem_cons, not_or] at hnot ⊢
    exact ⟨hnot.1, hne, hnot.2⟩
  have hsmall := hletter 'e' (by decide) (by decide)
  have hlarge := hletter 'E' (by decide) (by decide)
  have hfound : findLastNonZero (whole ++ '.' :: (trimmed ++ [last])) =
      some (whole.length + trimmed.length + 1) := by
    have hsplit : whole ++ '.' :: (trimmed ++ [last]) = whole ++ '.' :: trimmed ++ [last] := by
      simp
    rw [hsplit, findLastNonZero_append _ hlast]
    simp
    omega
  have htake : (whole ++ '.' :: (trimmed ++ [last])).take
      (whole.length + trimmed.length + 1 + 1) = whole ++ '.' :: (trimmed ++ [last]) := by
    apply List.take_of_length_le
    simp
    omega
  have hscale : (whole ++ '.' :: (trimmed ++ [last])).length - whole.length - 1 =
      (trimmed ++ [last]).length := by
    rw [List.length_append, List.length_cons]
    omega
  have hdrop : (whole ++ '.' :: (trimmed ++ [last])).drop (whole.length + 1) =
      trimmed ++ [last] := by
    rw [← List.drop_drop, List.drop_left]
    rfl
  have hbehind : whole.length < whole.length + trimmed.length + 1 := by omega
  rw [compactParts, findIdx_append hpoint]
  dsimp only
  rw [if_neg (by simp only [hsmall, hlarge, or_self, not_false_eq_true]), hfound]
  dsimp only
  simp only [hbehind, if_true, htake, findIdx_append hpoint, hscale]
  rw [if_neg (by omega), List.take_left, hdrop, stoull_digits hdigits (by simp) hlt,
    Option.map_some]

/-- A fraction without an exponent is sent as it is printed, without its trailing
zeros. Of an integer the truncated number is sent. -/
theorem compactParts_fixed (h : Digits whole fraction significand) (hlt : significand < 2 ^ 64)
    (hplaces : fraction.length ≤ 63) (truncated : UInt64) :
    (10 ^ fraction.length ∣ significand ∧
      compactParts (trimFraction whole fraction) truncated = some (0, truncated)) ∨
    ∃ scale mantissa, scale ≤ fraction.length ∧
      compactParts (trimFraction whole fraction) truncated = some (scale, mantissa) ∧
      (mantissa.toNat / 10 ^ scale : ℚ) = significand / 10 ^ fraction.length ∧
      ¬ 10 ∣ mantissa.toNat := by
  rcases trimFraction_cases whole fraction with
    ⟨zeros, hzeros, htext⟩ | ⟨trimmed, last, zeros, hlast, hfraction, htext⟩
  · have hpoint : '.' ∉ whole :=
      fun hmem => h.notMem (by decide) (List.mem_append_left _ hmem)
    refine Or.inl ⟨h.zeros_iff.mp ⟨zeros, hzeros⟩, ?_⟩
    rw [htext, compactParts, findIdx_eq_none hpoint]
  · have hlengths : fraction.length = (trimmed ++ [last]).length + zeros := by
      rw [hfraction, List.length_append, List.length_replicate]
    have hcut : whole ++ fraction = whole ++ (trimmed ++ [last]) ++ List.replicate zeros '0' := by
      rw [hfraction]
      simp
    have hdigits : ∀ c ∈ whole ++ (trimmed ++ [last]), c.isDigit := by
      intro c hc
      refine h.isDigit c ?_
      rw [hcut]
      exact List.mem_append_left _ hc
    have hvalue := h.value
    rw [hcut, Nat.ofDigitChars_append, Nat.ofDigitChars_replicate_zero] at hvalue
    have hmantissa : Nat.ofDigitChars 10 (whole ++ (trimmed ++ [last])) 0 < 2 ^ 64 := by
      have hone : 0 < 10 ^ zeros := Nat.pow_pos (by decide)
      exact lt_of_le_of_lt (Nat.le_mul_of_pos_left _ hone) (hvalue ▸ hlt)
    refine Or.inr ⟨_, _, (by omega : (trimmed ++ [last]).length ≤ _),
      htext ▸ compactParts_point hlast hdigits (by omega) hmantissa truncated, ?_, ?_⟩
    · rw [UInt64.toNat_ofNat_of_lt' hmantissa, hlengths, ← hvalue, pow_add]
      push_cast
      field_simp
    · have hdigit := digit_bounds (h.isDigit last (by simp [hfraction])) hlast
      rw [UInt64.toNat_ofNat_of_lt' hmantissa, ← List.append_assoc, Nat.ofDigitChars_append,
        Nat.ofDigitChars_cons, Nat.ofDigitChars_nil]
      omega

theorem point_notMem_exponentText (exponent : ℤ) : '.' ∉ exponentText exponent := by
  have hdigits : '.' ∉ Nat.toDigits 10 exponent.natAbs := by
    intro hmem
    exact absurd (Nat.isDigit_of_mem_toDigits (by decide) (by decide) hmem) (by decide)
  rw [exponentText]
  split <;> split <;> simp [hdigits]

/-- A number with an exponent is sent in full if there is a point in it, and as
the truncated number otherwise. -/
theorem compactParts_scientific (h : Digits whole fraction significand) (exponent : ℤ)
    (truncated : UInt64) :
    compactParts (trimFraction whole fraction ++ exponentText exponent) truncated =
      if 10 ^ fraction.length ∣ significand then some (0, truncated) else none := by
  have hpoint : '.' ∉ whole := fun hmem => h.notMem (by decide) (List.mem_append_left _ hmem)
  rcases trimFraction_cases whole fraction with
    ⟨zeros, hzeros, htext⟩ | ⟨trimmed, last, zeros, hlast, hfraction, htext⟩
  · have hnone : '.' ∉ whole ++ exponentText exponent := by
      rw [List.mem_append, not_or]
      exact ⟨hpoint, point_notMem_exponentText exponent⟩
    rw [if_pos (h.zeros_iff.mp ⟨zeros, hzeros⟩), htext, compactParts, findIdx_eq_none hnone]
  · have hexponent : 'e' ∈ whole ++ '.' :: (trimmed ++ [last]) ++ exponentText exponent := by
      rw [exponentText]
      simp
    have hfind : (whole ++ '.' :: (trimmed ++ [last]) ++ exponentText exponent).findIdx?
        (· = '.') = some whole.length := by
      rw [List.append_assoc, List.cons_append]
      exact findIdx_append hpoint _
    have hnot : ¬ 10 ^ fraction.length ∣ significand := by
      rw [← h.zeros_iff]
      rintro ⟨count, hcount⟩
      refine hlast (List.eq_of_mem_replicate (show last ∈ List.replicate count '0' from ?_))
      rw [← hcount, hfraction]
      simp
    rw [if_neg hnot, htext, compactParts, hfind]
    dsimp only
    rw [if_pos (Or.inl hexponent)]

end Parts

end DanWs.CompactParts
