import DanWs.KeyPaths
import DanWs.RegexMatching
import DanWs.StepRuns

namespace DanWs.PathValidation

open DanWs.KeyPaths
open DanWs.RegexMatching
open DanWs.StepRuns
open DanWs.WireTypes

section Grammar

def charRange (first last : UInt8) : List UInt8 :=
  ((List.range (last.toNat + 1)).drop first.toNat).map UInt8.ofNat

/-- The class `[a-zA-Z0-9_]`. -/
def keyChars : List UInt8 :=
  charRange 0x61 0x7A ++ charRange 0x41 0x5A ++ charRange 0x30 0x39 ++ [0x5F]

/-- `KEY_PATH_REGEX`. -/
def keyPathRegex : RegularExpression UInt8 := separated 0x2E (oneOrMore (oneOf keyChars))

def IsSegment (segment : StdString) : Prop := segment ≠ [] ∧ ∀ b ∈ segment, isKeyChar b

/-- One or more segments with single dots between them. -/
def IsKeyPath (path : StdString) : Prop :=
  ∃ segments, segments ≠ [] ∧ (∀ segment ∈ segments, IsSegment segment) ∧
    path = [0x2E].intercalate segments

theorem mem_charRange {first last b : UInt8} :
    b ∈ charRange first last ↔ first ≤ b ∧ b ≤ last := by
  have hlast := last.toNat_lt
  rw [charRange, List.mem_map, UInt8.le_iff_toNat_le, UInt8.le_iff_toNat_le]
  constructor
  · rintro ⟨n, hn, rfl⟩
    obtain ⟨i, hi, rfl⟩ := List.mem_iff_getElem.mp hn
    rw [List.length_drop, List.length_range] at hi
    have hbyte : first.toNat + i < UInt8.size := by
      rw [UInt8.size]
      omega
    rw [List.getElem_drop, List.getElem_range, UInt8.toNat_ofNat_of_lt' hbyte]
    omega
  · rintro ⟨hfirst, hle⟩
    refine ⟨b.toNat, List.mem_iff_getElem.mpr ⟨b.toNat - first.toNat, ?_, ?_⟩, UInt8.ofNat_toNat⟩
    · rw [List.length_drop, List.length_range]
      omega
    · rw [List.getElem_drop, List.getElem_range]
      omega

theorem mem_keyChars_iff (b : UInt8) : b ∈ keyChars ↔ isKeyChar b := by
  simp only [keyChars, isKeyChar, List.mem_append, mem_charRange, List.mem_singleton,
    Bool.or_eq_true, Bool.and_eq_true, decide_eq_true_eq, beq_iff_eq]

theorem matches_iff (path : StdString) : path ∈ keyPathRegex.matches' ↔ IsKeyPath path := by
  simp only [keyPathRegex, mem_separated, mem_oneOrMore, mem_keyChars_iff]
  exact Iff.rfl

/-- Behind the start of a segment, a path that matches is the rest of it and further
segments. -/
theorem exists_segments {inSegment : Bool} {path : StdString} (h : matchSegments inSegment path) :
    ∃ segment segments, (inSegment = true ∨ segment ≠ []) ∧ (∀ b ∈ segment, isKeyChar b) ∧
      (∀ other ∈ segments, IsSegment other) ∧
      path = [0x2E].intercalate (segment :: segments) := by
  simp only [intercalate_cons]
  induction path generalizing inSegment with
  | nil => exact ⟨[], [], Or.inl h, by simp, by simp, rfl⟩
  | cons b path ih =>
      rw [matchSegments] at h
      split at h
      · next hb =>
          obtain ⟨segment, segments, -, hsegment, hsegments, rfl⟩ := ih h
          exact ⟨b :: segment, segments, Or.inr (List.cons_ne_nil _ _),
            List.forall_mem_cons.mpr ⟨hb, hsegment⟩, hsegments, rfl⟩
      · split at h
        · next hsplit =>
            obtain ⟨rfl, hin⟩ := hsplit
            obtain ⟨segment, segments, hstarted, hsegment, hsegments, rfl⟩ := ih h
            have hne : segment ≠ [] := hstarted.resolve_left Bool.false_ne_true
            exact ⟨[], segment :: segments, Or.inl hin, by simp,
              List.forall_mem_cons.mpr ⟨⟨hne, hsegment⟩, hsegments⟩, rfl⟩
        · cases h

theorem matchSegments_segments {inSegment : Bool} {segment : StdString}
    {segments : List StdString} (hstarted : inSegment = true ∨ segment ≠ [])
    (hsegment : ∀ b ∈ segment, isKeyChar b) (hsegments : ∀ other ∈ segments, IsSegment other) :
    matchSegments inSegment ([0x2E].intercalate (segment :: segments)) := by
  have hdot : isKeyChar 0x2E = false := by decide
  simp only [intercalate_cons]
  induction segments generalizing inSegment segment with
  | nil =>
      rw [List.map_nil, List.flatten_nil, List.append_nil]
      cases segment with
      | nil => exact hstarted.resolve_right (not_not_intro rfl)
      | cons b segment =>
          have happend := matchSegments_append (List.cons_ne_nil b segment) hsegment inSegment []
          rw [List.append_nil] at happend
          rw [happend]
          rfl
  | cons other segments ih =>
      obtain ⟨⟨hne, hother⟩, hrest⟩ := List.forall_mem_cons.mp hsegments
      have hseparator : matchSegments true (0x2E :: (other ++
          (segments.map fun found => 0x2E :: found).flatten)) = true := by
        rw [matchSegments, hdot, if_neg Bool.false_ne_true, if_pos ⟨rfl, rfl⟩]
        exact ih (Or.inr hne) hother hrest
      rw [List.map_cons, List.flatten_cons, List.cons_append]
      cases segment with
      | nil =>
          have hin : inSegment = true := hstarted.resolve_right (not_not_intro rfl)
          rw [hin]
          exact hseparator
      | cons b segment =>
          rw [matchSegments_append (List.cons_ne_nil b segment) hsegment]
          exact hseparator

theorem isKeyPath_iff (path : StdString) : IsKeyPath path ↔ matchSegments false path := by
  constructor
  · rintro ⟨segments, hne, hsegments, rfl⟩
    obtain ⟨segment, segments, rfl⟩ := List.exists_cons_of_ne_nil hne
    obtain ⟨⟨hsegment, hchars⟩, hrest⟩ := List.forall_mem_cons.mp hsegments
    exact matchSegments_segments (Or.inr hsegment) hchars hrest
  · intro hmatch
    obtain ⟨segment, segments, hstarted, hchars, hrest, rfl⟩ := exists_segments hmatch
    have hsegment : IsSegment segment := ⟨hstarted.resolve_left Bool.false_ne_true, hchars⟩
    exact ⟨segment :: segments, List.cons_ne_nil _ _,
      List.forall_mem_cons.mpr ⟨hsegment, hrest⟩, rfl⟩

end Grammar

theorem checkKeyPath_eq_ok_iff (path : StdString) :
    checkKeyPath path = .ok () ↔ path.length ≤ 200 ∧ IsKeyPath path := by
  rw [isKeyPath_iff, checkKeyPath]
  split
  · next hempty =>
      subst hempty
      exact iff_of_false (fun h => by cases h) fun h => Bool.false_ne_true h.2
  · split
    · next hmatch => exact iff_of_false (fun h => by cases h) fun h => hmatch h.2
    · next hmatch =>
        have hmatch : matchSegments false path := by simpa using hmatch
        split
        · next hlong => exact iff_of_false (fun h => by cases h) fun h => absurd hlong h.1.not_gt
        · next hlong => exact iff_of_true rfl ⟨Nat.not_lt.mp hlong, hmatch⟩

def validated (validatedPaths : Finset StdString) (path : StdString) : Finset StdString :=
  match validateKeyPath validatedPaths path with
  | .ok cache => cache
  | .error _ => validatedPaths

theorem soundCache_validated {validatedPaths : Finset StdString} (h : SoundCache validatedPaths)
    (path : StdString) : SoundCache (validated validatedPaths path) := by
  have hsound := (validateKeyPath_of_sound h path).2
  rw [validated]
  cases hresult : validateKeyPath validatedPaths path with
  | error e => exact h
  | ok cache => exact hsound cache hresult

theorem soundCache_run (history : List StdString) : SoundCache (run validated ∅ history) := by
  have hempty : SoundCache ∅ := fun path hpath => absurd hpath (Finset.notMem_empty path)
  have hstep : ∀ cache path, SoundCache cache → True → SoundCache (validated cache path) :=
    fun _ path hcache _ => soundCache_validated hcache path
  exact invariant_run hstep hempty (stepsMeet_of_forall fun _ _ => trivial)

/-- Whatever calls went before, a path is accepted if and only if it is a key path
of at most 200 bytes, which is what the regular expression says of it. -/
theorem validateKeyPath_iff (history : List StdString) (path : StdString) :
    (matchSegments false path ↔ path ∈ keyPathRegex.matches') ∧
      ((validateKeyPath (run validated ∅ history) path).map fun _ => ()) = checkKeyPath path ∧
      ((∃ cache, validateKeyPath (run validated ∅ history) path = .ok cache) ↔
        path.length ≤ 200 ∧ IsKeyPath path) := by
  have hcheck := (validateKeyPath_of_sound (soundCache_run history) path).1
  refine ⟨by rw [matches_iff, isKeyPath_iff], hcheck, ?_⟩
  rw [← checkKeyPath_eq_ok_iff, ← hcheck]
  cases hresult : validateKeyPath (run validated ∅ history) path with
  | error e => exact iff_of_false (fun ⟨_, h⟩ => by cases h) fun h => by cases h
  | ok cache => exact iff_of_true ⟨cache, rfl⟩ rfl

end DanWs.PathValidation
