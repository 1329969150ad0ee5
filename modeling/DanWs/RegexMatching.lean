import Mathlib.Computability.RegularExpressions

namespace DanWs.RegexMatching

open RegularExpression

variable {α : Type*}

def oneOf (chars : List α) : RegularExpression α :=
  chars.foldr (fun c others => char c + others) 0

def oneOrMore (p : RegularExpression α) : RegularExpression α := p * p.star

def separated (separator : α) (p : RegularExpression α) : RegularExpression α :=
  p * (char separator * p).star

theorem mem_oneOf {chars word : List α} :
    word ∈ (oneOf chars).matches' ↔ ∃ c ∈ chars, word = [c] := by
  induction chars with
  | nil =>
      rw [oneOf, List.foldr_nil, matches'_zero]
      simp
  | cons c chars ih =>
      rw [oneOf] at ih
      rw [oneOf, List.foldr_cons, matches'_add, Language.mem_add, matches'_char, ih]
      simp only [List.mem_cons, exists_eq_or_imp]
      exact Iff.rfl

theorem mem_oneOrMore {chars word : List α} :
    word ∈ (oneOrMore (oneOf chars)).matches' ↔ word ≠ [] ∧ ∀ c ∈ word, c ∈ chars := by
  rw [oneOrMore, matches'_mul, matches'_star, Language.mem_mul]
  constructor
  · rintro ⟨first, hfirst, rest, hrest, rfl⟩
    obtain ⟨c, hc, rfl⟩ := mem_oneOf.mp hfirst
    obtain ⟨words, rfl, hwords⟩ := Language.mem_kstar.mp hrest
    refine ⟨List.cons_ne_nil _ _, fun other hother => ?_⟩
    rcases List.mem_cons.mp hother with rfl | hother
    · exact hc
    · obtain ⟨word, hword, hother⟩ := List.mem_flatten.mp hother
      obtain ⟨d, hd, rfl⟩ := mem_oneOf.mp (hwords word hword)
      rw [List.mem_singleton.mp hother]
      exact hd
  · rintro ⟨hne, hchars⟩
    obtain ⟨c, rest, rfl⟩ := List.exists_cons_of_ne_nil hne
    refine ⟨[c], mem_oneOf.mpr ⟨c, hchars c List.mem_cons_self, rfl⟩, rest, ?_, rfl⟩
    refine Language.mem_kstar.mpr ⟨rest.map fun d => [d], ?_, fun word hword => ?_⟩
    · rw [← List.flatMap_def, List.flatMap_singleton']
    · obtain ⟨d, hd, rfl⟩ := List.mem_map.mp hword
      exact mem_oneOf.mpr ⟨d, hchars d (List.mem_cons_of_mem c hd), rfl⟩

/-- The words behind the first one, each with the separator in front of it. -/
theorem intercalate_cons (separator : α) (word : List α) (words : List (List α)) :
    [separator].intercalate (word :: words) =
      word ++ (words.map fun other => separator :: other).flatten := by
  induction words generalizing word with
  | nil => simp
  | cons other words ih =>
      rw [List.intercalate_cons_cons, ih other]
      simp

/-- Pieces that each start with the separator are words behind separators. -/
theorem exists_words {separator : α} {p : RegularExpression α} {pieces : List (List α)}
    (h : ∀ piece ∈ pieces, piece ∈ ({[separator]} : Language α) * p.matches') :
    ∃ words : List (List α), (∀ word ∈ words, word ∈ p.matches') ∧
      pieces = words.map fun word => separator :: word := by
  induction pieces with
  | nil => exact ⟨[], by simp, rfl⟩
  | cons piece pieces ih =>
      obtain ⟨hpiece, hpieces⟩ := List.forall_mem_cons.mp h
      obtain ⟨first, hfirst, word, hword, rfl⟩ := Language.mem_mul.mp hpiece
      obtain ⟨words, hwords, rfl⟩ := ih hpieces
      obtain rfl : first = [separator] := hfirst
      exact ⟨word :: words, List.forall_mem_cons.mpr ⟨hword, hwords⟩, rfl⟩

theorem mem_separated {separator : α} {p : RegularExpression α} {text : List α} :
    text ∈ (separated separator p).matches' ↔
      ∃ words, words ≠ [] ∧ (∀ word ∈ words, word ∈ p.matches') ∧
        text = [separator].intercalate words := by
  rw [separated, matches'_mul, matches'_star, matches'_mul, matches'_char, Language.mem_mul]
  constructor
  · rintro ⟨word, hword, rest, hrest, rfl⟩
    obtain ⟨pieces, rfl, hpieces⟩ := Language.mem_kstar.mp hrest
    obtain ⟨words, hwords, rfl⟩ := exists_words hpieces
    exact ⟨word :: words, List.cons_ne_nil _ _, List.forall_mem_cons.mpr ⟨hword, hwords⟩,
      (intercalate_cons separator word words).symm⟩
  · rintro ⟨words, hne, hwords, rfl⟩
    obtain ⟨word, words, rfl⟩ := List.exists_cons_of_ne_nil hne
    refine ⟨word, hwords word List.mem_cons_self, _, ?_,
      (intercalate_cons separator word words).symm⟩
    refine Language.join_mem_kstar fun piece hpiece => ?_
    obtain ⟨other, hother, rfl⟩ := List.mem_map.mp hpiece
    exact Language.mem_mul.mpr
      ⟨[separator], rfl, other, hwords other (List.mem_cons_of_mem _ hother), rfl⟩

end DanWs.RegexMatching
