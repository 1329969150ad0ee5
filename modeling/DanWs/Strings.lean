import Mathlib.Algebra.Group.Nat.Defs
import Mathlib.Data.List.Infix

namespace DanWs.Strings

section Search

variable {α : Type*} [DecidableEq α]

/-- The position of the first occurrence of a pattern. -/
def find (needle : List α) : List α → Option Nat
  | [] => if needle = [] then some 0 else none
  | a :: rest => if needle <+: a :: rest then some 0 else (find needle rest).map (· + 1)

/-- The position of the last occurrence of a pattern. -/
def rfind (needle : List α) : List α → Option Nat
  | [] => if needle = [] then some 0 else none
  | a :: rest =>
      match rfind needle rest with
      | some position => some (position + 1)
      | none => if needle <+: a :: rest then some 0 else none

theorem find_eq_zero_iff {needle hay : List α} : find needle hay = some 0 ↔ needle <+: hay := by
  cases hay with
  | nil => simp [find]
  | cons a rest =>
      rw [find]
      split
      · next h => simp [h]
      · next h => simp [h]

theorem eq_of_find {needle : List α} {position : Nat} :
    ∀ {hay : List α}, find needle hay = some position →
      hay = hay.take position ++ needle ++ hay.drop (position + needle.length) := by
  intro hay
  induction hay generalizing position with
  | nil =>
      intro h
      rw [find] at h
      split at h
      · next hneedle => simp [hneedle]
      · cases h
  | cons a rest ih =>
      intro h
      rw [find] at h
      split at h
      · next hstart =>
          obtain rfl : 0 = position := Option.some.inj h
          obtain ⟨after, hafter⟩ := hstart
          rw [← hafter]
          simp
      · obtain ⟨previous, hprevious, rfl⟩ := Option.map_eq_some_iff.mp h
        rw [List.take_succ_cons, Nat.add_right_comm, List.drop_succ_cons, List.cons_append,
          List.cons_append, ← ih hprevious]

theorem find_append_of_not_mem {c : α} {before : List α} (h : c ∉ before)
    (needle rest : List α) :
    find (c :: needle) (before ++ rest) =
      (find (c :: needle) rest).map (· + before.length) := by
  induction before with
  | nil => cases hfind : find (c :: needle) rest <;> simp [hfind]
  | cons a before ih =>
      rw [List.mem_cons, not_or] at h
      have hstart : ¬ c :: needle <+: a :: (before ++ rest) := by
        rw [List.cons_prefix_cons]
        exact fun hp => h.1 hp.1
      rw [List.cons_append, find, if_neg hstart, ih h.2, Option.map_map]
      rfl

theorem find_singleton_append {c : α} {before : List α} (h : c ∉ before) (after : List α) :
    find [c] (before ++ c :: after) = some before.length := by
  have hstart : find [c] (c :: after) = some 0 :=
    find_eq_zero_iff.mpr (List.prefix_append [c] after)
  rw [find_append_of_not_mem h [] (c :: after), hstart]
  simp

/-- The first occurrence of a character splits the string. -/
theorem exists_of_find_singleton {c : α} {position : Nat} {hay : List α}
    (h : find [c] hay = some position) :
    ∃ before after, hay = before ++ c :: after ∧ c ∉ before ∧ before.length = position := by
  induction hay generalizing position with
  | nil => simp [find] at h
  | cons a rest ih =>
      rw [find] at h
      split at h
      · next hstart =>
          obtain rfl := Option.some.inj h
          obtain ⟨after, hafter⟩ := hstart
          exact ⟨[], after, hafter.symm, List.not_mem_nil, rfl⟩
      · next hstart =>
          obtain ⟨previous, hprevious, rfl⟩ := Option.map_eq_some_iff.mp h
          obtain ⟨before, after, rfl, hbefore, rfl⟩ := ih hprevious
          refine ⟨a :: before, after, rfl, ?_, rfl⟩
          rw [List.mem_cons, not_or]
          refine ⟨?_, hbefore⟩
          rintro rfl
          exact hstart (List.prefix_append [c] _)

theorem length_le_of_rfind {needle : List α} {position : Nat} :
    ∀ {hay : List α}, rfind needle hay = some position →
      position + needle.length ≤ hay.length ∧ needle <+: hay.drop position := by
  intro hay
  induction hay generalizing position with
  | nil =>
      intro h
      rw [rfind] at h
      split at h
      · next hneedle =>
          obtain rfl : 0 = position := Option.some.inj h
          simp [hneedle]
      · cases h
  | cons a rest ih =>
      intro h
      rw [rfind] at h
      split at h
      · next last hlast =>
          obtain rfl := Option.some.inj h
          obtain ⟨hlength, hstart⟩ := ih hlast
          refine ⟨?_, hstart⟩
          rw [List.length_cons]
          omega
      · split at h
        · next hstart =>
            obtain rfl : 0 = position := Option.some.inj h
            exact ⟨by simpa using hstart.length_le, hstart⟩
        · cases h

theorem rfind_append_self (needle : List α) (before : List α) (hneedle : needle ≠ []) :
    rfind needle (before ++ needle) = some before.length := by
  have hshort : ∀ hay : List α, hay.length < needle.length → rfind needle hay = none := by
    intro hay hlength
    cases hfind : rfind needle hay with
    | none => rfl
    | some position =>
        have := (length_le_of_rfind hfind).1
        omega
  induction before with
  | nil =>
      obtain ⟨c, tail, rfl⟩ := List.exists_cons_of_ne_nil hneedle
      rw [List.nil_append, rfind, hshort tail (by simp)]
      simp
  | cons a before ih =>
      rw [List.cons_append, rfind, ih]
      rfl

/-- The last occurrence stands at the end exactly for the strings that end with
the pattern. -/
theorem rfind_eq_end_iff {needle hay : List α} (hneedle : needle ≠ [])
    (hlength : needle.length ≤ hay.length) :
    rfind needle hay = some (hay.length - needle.length) ↔ needle <:+ hay := by
  constructor
  · intro h
    obtain ⟨_, hstart⟩ := length_le_of_rfind h
    have hdrop : needle = hay.drop (hay.length - needle.length) := by
      apply hstart.eq_of_length
      rw [List.length_drop]
      omega
    rw [hdrop]
    exact List.drop_suffix _ _
  · rintro ⟨before, rfl⟩
    rw [rfind_append_self needle before hneedle]
    simp

end Search

section Decimal

def isDigit (b : UInt8) : Bool := 0x30 ≤ b && b ≤ 0x39

def decimal (n : Nat) : List UInt8 := (Nat.toDigits 10 n).map fun c => c.toNat.toUInt8

def ofDigits (digits : List UInt8) : Nat :=
  digits.foldl (fun n b => 10 * n + (b.toNat - 0x30)) 0

theorem toNat_of_isDigit {c : Char} (h : c.isDigit) :
    c.toNat.toUInt8.toNat = c.toNat ∧ 0x30 ≤ c.toNat ∧ c.toNat ≤ 0x39 := by
  rw [Char.isDigit, Bool.and_eq_true, decide_eq_true_eq, decide_eq_true_eq] at h
  obtain ⟨hlow, hhigh⟩ := h
  have hlow : 48 ≤ c.toNat := hlow
  have hhigh : c.toNat ≤ 57 := hhigh
  refine ⟨?_, hlow, hhigh⟩
  rw [Nat.toUInt8, UInt8.toNat_ofNat']
  omega

theorem isDigit_of_mem_decimal {n : Nat} {b : UInt8} (h : b ∈ decimal n) : isDigit b := by
  obtain ⟨c, hc, rfl⟩ := List.mem_map.mp h
  obtain ⟨hbyte, hlow, hhigh⟩ :=
    toNat_of_isDigit (Nat.isDigit_of_mem_toDigits (by decide) (by decide) hc)
  rw [isDigit, Bool.and_eq_true, decide_eq_true_eq, decide_eq_true_eq, UInt8.le_iff_toNat_le,
    UInt8.le_iff_toNat_le, hbyte]
  exact ⟨hlow, hhigh⟩

theorem decimal_ne_nil (n : Nat) : decimal n ≠ [] := by
  rw [decimal, ne_eq, List.map_eq_nil_iff]
  exact Nat.toDigits_ne_nil

theorem length_decimal_le {n k : Nat} (hk : 0 < k) (h : n < 10 ^ k) : (decimal n).length ≤ k := by
  rw [decimal, List.length_map]
  exact (Nat.length_toDigits_le_iff (by decide) hk).mpr h

theorem ofDigits_decimal (n : Nat) : ofDigits (decimal n) = n := by
  have hfold : ∀ (digits : List Char) (start : Nat), (∀ c ∈ digits, c.isDigit) →
      (digits.map fun c => c.toNat.toUInt8).foldl (fun n b => 10 * n + (b.toNat - 0x30)) start =
        Nat.ofDigitChars 10 digits start := by
    intro digits
    induction digits with
    | nil => intro start _; simp
    | cons c digits ih =>
        intro start h
        rw [List.map_cons, List.foldl_cons, ih _ fun d hd => h d (by simp [hd]),
          Nat.ofDigitChars_cons, (toNat_of_isDigit (h c (by simp))).1]
        rfl
  rw [ofDigits, decimal,
    hfold _ 0 fun c hc => Nat.isDigit_of_mem_toDigits (by decide) (by decide) hc]
  exact Nat.ofDigitChars_ten_toDigits

theorem decimal_injective : Function.Injective decimal := by
  intro n m h
  rw [← ofDigits_decimal n, h, ofDigits_decimal m]

theorem takeWhile_isDigit_decimal_append (n : Nat) (rest : List UInt8)
    (h : ∀ b ∈ rest.head?, ¬ isDigit b) : (decimal n ++ rest).takeWhile isDigit = decimal n := by
  rw [List.takeWhile_append_of_pos fun b hb => isDigit_of_mem_decimal hb]
  cases rest with
  | nil => simp
  | cons b rest =>
      rw [List.takeWhile_cons_of_neg (h b rfl), List.append_nil]

end Decimal

end DanWs.Strings
