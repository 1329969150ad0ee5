import DanWs.PathValidation
import DanWs.TopicPaths

namespace DanWs.TopicIndexTexts

open DanWs.FiniteMaps
open DanWs.KeyPaths
open DanWs.PathValidation
open DanWs.Strings
open DanWs.TopicParsing
open DanWs.TopicPaths
open DanWs.WireTypes

/-- The number at the start of the text. -/
def indexOf (idxStr : StdString) : ℕ := ofDigits (idxStr.takeWhile isDigit)

/-- The text starts with a number that is an `int`. -/
def IndexText (idxStr : StdString) : Prop :=
  idxStr.takeWhile isDigit ≠ [] ∧ indexOf idxStr < 2 ^ 31

instance (idxStr : StdString) : Decidable (IndexText idxStr) := inferInstanceAs (Decidable (_ ∧ _))

section Text

variable {path idxStr : StdString}

theorem unsigned_of_matchSegments {inSegment : Bool} (h : matchSegments inSegment path) :
    ∀ b ∈ path, isSpace b = false ∧ b ≠ 0x2D ∧ b ≠ 0x2B := by
  intro b hb
  obtain hc | rfl := isKeyChar_of_matchSegments h b hb
  · exact unsigned_of_isKeyChar hc
  · decide

theorem mem_of_nameIndex (h : nameIndex path = some idxStr) {b : UInt8} (hb : b ∈ idxStr) :
    b ∈ path := by
  rw [nameIndex] at h
  split at h
  · split at h
    · split at h
      · cases h
        exact List.mem_of_mem_drop (List.mem_of_mem_take hb)
      · cases h
    · cases h
  · cases h

theorem stoi_nameIndex (hvalid : checkKeyPath path = .ok ()) (h : nameIndex path = some idxStr)
    (index : Int) : stoi idxStr = .ok index ↔ IndexText idxStr ∧ index = indexOf idxStr := by
  have hmatch := (isKeyPath_iff path).mp ((checkKeyPath_eq_ok_iff path).mp hvalid).2
  rw [stoi_of_unsigned fun b hb => unsigned_of_matchSegments hmatch b (mem_of_nameIndex h hb),
    IndexText, indexOf]
  split
  · next hempty => exact iff_of_false (fun h => by cases h) fun h => h.1.1 hempty
  · next hdigits =>
      split
      · next hlarge => exact iff_of_false (fun h => by cases h) fun h => hlarge.not_gt h.1.2
      · next hsmall =>
          rw [Except.ok.injEq, eq_comm]
          exact (and_iff_right ⟨hdigits, not_le.mp hsmall⟩).symm

end Text

section Parse

variable (registry : KeyRegistry) (clientValues : FiniteMap UInt32 Payload)

variable {registry clientValues} in
theorem mem_keys_of_namesTopic {path idxStr topicName : StdString}
    (h : NamesTopic registry clientValues path idxStr topicName) :
    path ∈ registry.pathToId.keys := by
  obtain ⟨entry, hentry, -⟩ := h
  obtain ⟨keyId, hkeyId, -⟩ := Option.bind_eq_some_iff.mp hentry
  exact mem_keys_iff_lookup.mpr ⟨keyId, hkeyId⟩

/-- The last of the listed paths that name the topic. -/
def NamedLast (paths : List StdString) (topicName idxStr : StdString) : Prop :=
  ∃ before path after, paths = before ++ path :: after ∧
    NamesTopic registry clientValues path idxStr topicName ∧
    ∀ later ∈ after, ∀ other, ¬ NamesTopic registry clientValues later other topicName

/-- What the parse loop knows behind the listed paths. -/
structure Reads (paths : List StdString) (parse : TopicParse) : Prop where
  indexed : ∀ idxStr topicName, parse.indexToName.lookup idxStr = some topicName →
    topicName ∈ parse.newTopics.keys
  named : ∀ topicName, topicName ∈ parse.newTopics.keys ↔
    ∃ path ∈ paths, ∃ idxStr, NamesTopic registry clientValues path idxStr topicName
  numbered : ∀ topicName index, parse.nameToIndex.lookup topicName = some index ↔
    ∃ idxStr, NamedLast registry clientValues paths topicName idxStr ∧ stoi idxStr = .ok index

variable {registry clientValues} {paths : List StdString} {path idxStr topicName : StdString}
  {parse : TopicParse}

theorem namedLast_concat :
    NamedLast registry clientValues (paths ++ [path]) topicName idxStr ↔
      NamesTopic registry clientValues path idxStr topicName ∨
        (∀ other, ¬ NamesTopic registry clientValues path other topicName) ∧
          NamedLast registry clientValues paths topicName idxStr := by
  constructor
  · rintro ⟨before, named, after, hpaths, hname, hlast⟩
    rcases List.eq_nil_or_concat after with rfl | ⟨after, last, rfl⟩
    · obtain ⟨-, hpath⟩ := List.append_inj' hpaths rfl
      obtain rfl := List.singleton_injective hpath
      exact Or.inl hname
    · rw [List.concat_eq_append, ← List.cons_append, ← List.append_assoc] at hpaths
      obtain ⟨hfront, hpath⟩ := List.append_inj' hpaths rfl
      obtain rfl := List.singleton_injective hpath
      refine Or.inr ⟨hlast path (by simp), before, named, after, hfront, hname, ?_⟩
      exact fun later hlater => hlast later (by simp [hlater])
  · rintro (hname | ⟨hother, before, named, after, rfl, hname, hlast⟩)
    · exact ⟨paths, path, [], rfl, hname, fun later hlater => absurd hlater List.not_mem_nil⟩
    · refine ⟨before, named, after ++ [path], by simp, hname, fun later hlater => ?_⟩
      rcases List.mem_append.mp hlater with hlater | hlater
      · exact hlast later hlater
      · obtain rfl := List.mem_singleton.mp hlater
        exact hother

theorem NamedLast.named (h : NamedLast registry clientValues paths topicName idxStr) :
    ∃ path ∈ paths, NamesTopic registry clientValues path idxStr topicName := by
  obtain ⟨before, path, after, rfl, hname, -⟩ := h
  exact ⟨path, by simp, hname⟩

theorem exists_namedLast (hpath : path ∈ paths)
    (hname : NamesTopic registry clientValues path idxStr topicName) :
    ∃ other, NamedLast registry clientValues paths topicName other := by
  induction paths using List.reverseRecOn with
  | nil => exact absurd hpath List.not_mem_nil
  | append_singleton paths last ih =>
      simp only [namedLast_concat]
      by_cases hlast : ∃ other, NamesTopic registry clientValues last other topicName
      · exact hlast.imp fun _ => Or.inl
      · rw [not_exists] at hlast
        rcases List.mem_append.mp hpath with hpath | hpath
        · exact (ih hpath).imp fun _ hfound => Or.inr ⟨hlast, hfound⟩
        · obtain rfl := List.mem_singleton.mp hpath
          exact absurd hname (hlast idxStr)

theorem reads_nil : Reads registry clientValues [] TopicParse.empty where
  indexed := by simp [TopicParse.empty]
  named := by simp [TopicParse.empty]
  numbered topicName index := by
    refine iff_of_false (by simp [TopicParse.empty]) ?_
    rintro ⟨idxStr, hlast, -⟩
    obtain ⟨path, hpath, -⟩ := hlast.named
    exact absurd hpath List.not_mem_nil

theorem keys_addName (parse : TopicParse) (idxStr topicName : StdString) (index : Int) :
    (parse.addName idxStr topicName index).newTopics.keys =
      insert topicName parse.newTopics.keys := by
  rw [TopicParse.addName]
  split
  · exact keys_insert _ _ _
  · next hheld =>
      rw [← ne_eq, Option.ne_none_iff_exists'] at hheld
      exact (Finset.insert_eq_self.mpr (mem_keys_iff_lookup.mpr hheld)).symm

theorem reads_addName (h : Reads registry clientValues paths parse)
    (hname : NamesTopic registry clientValues path idxStr topicName) {index : Int}
    (hindex : stoi idxStr = .ok index) :
    Reads registry clientValues (paths ++ [path]) (parse.addName idxStr topicName index) := by
  refine ⟨fun idxStr' topicName' hlookup => ?_, fun topicName' => ?_, fun topicName' index' => ?_⟩
  · rw [keys_addName, Finset.mem_insert]
    obtain ⟨-, hname⟩ | ⟨-, hlookup⟩ := lookup_of_lookup_insert hlookup
    · exact Or.inl hname
    · exact Or.inr (h.indexed idxStr' topicName' hlookup)
  · rw [keys_addName, Finset.mem_insert, h.named]
    simp only [List.mem_append, List.mem_singleton, or_and_right, exists_or, exists_eq_left]
    constructor
    · rintro (rfl | hmem)
      · exact Or.inr ⟨idxStr, hname⟩
      · exact Or.inl hmem
    · rintro (hmem | ⟨other, hother⟩)
      · exact Or.inr hmem
      · exact Or.inl (hother.unique hname).2
  · simp only [namedLast_concat]
    rw [TopicParse.addName, lookup_insert_eq_ite]
    split
    · next heq =>
        subst heq
        constructor
        · rintro ⟨⟩
          exact ⟨idxStr, Or.inl hname, hindex⟩
        · rintro ⟨other, hother | ⟨hnone, -⟩, hindex'⟩
          · rw [(hother.unique hname).1, hindex] at hindex'
            rw [Except.ok.inj hindex']
          · exact absurd hname (hnone idxStr)
    · next hne =>
        have hnone : ∀ other, ¬ NamesTopic registry clientValues path other topicName' :=
          fun other hother => hne (hother.unique hname).2
        rw [h.numbered]
        refine exists_congr fun other => and_congr_left fun _ => ?_
        exact ⟨fun hlast => Or.inr ⟨hnone, hlast⟩, fun hlast =>
          hlast.elim (fun hother => absurd hother (hnone other)) And.right⟩

theorem reads_skip (h : Reads registry clientValues paths parse)
    (hname : ∀ other topicName, ¬ NamesTopic registry clientValues path other topicName) :
    Reads registry clientValues (paths ++ [path]) parse := by
  refine ⟨h.indexed, fun topicName' => ?_, fun topicName' index' => ?_⟩
  · simp only [h.named, List.mem_append, List.mem_singleton, or_and_right, exists_or,
      exists_eq_left, hname, exists_false, or_false]
  · simp only [h.numbered, namedLast_concat, hname, false_or, not_false_eq_true, implies_true,
      true_and]

theorem reads_addParam (h : Reads registry clientValues paths parse)
    (hlookup : parse.indexToName.lookup idxStr = some topicName) (paramKey : StdString)
    (value : Payload) :
    Reads registry clientValues paths (parse.addParam topicName paramKey value) := by
  have hkeys : (parse.addParam topicName paramKey value).newTopics.keys = parse.newTopics.keys := by
    rw [TopicParse.addParam, keys_insert, Finset.insert_eq_self.mpr (h.indexed _ _ hlookup)]
  exact ⟨by rw [hkeys]; exact h.indexed, by rw [hkeys]; exact h.named, h.numbered⟩

theorem reads_parseTopics (h : parseTopics registry clientValues paths = .ok parse) :
    Reads registry clientValues paths parse := by
  induction paths using List.reverseRecOn generalizing parse with
  | nil =>
      cases h
      exact reads_nil
  | append_singleton paths path ih =>
      obtain ⟨before, hbefore, hnext⟩ := (parseTopics_concat_eq_ok_iff _ _).mp h
      obtain ⟨idxStr, topicName, index, hname, hindex, rfl⟩ |
        ⟨idxStr, paramKey, value, topicName, hparam, hlookup, rfl⟩ | ⟨hname, -, rfl⟩ :=
        parsePath_cases hnext
      · exact reads_addName (ih hbefore) hname hindex
      · exact reads_skip (reads_addParam (ih hbefore) hlookup paramKey value)
          fun _ _ hname => hname.not_givesParam hparam
      · exact reads_skip (ih hbefore) hname

/-- The parse loop throws at the first path whose index is no `int`. -/
theorem exists_parseTopics_iff :
    (∃ parse, parseTopics registry clientValues paths = .ok parse) ↔
      ∀ path ∈ paths, ∀ idxStr topicName, NamesTopic registry clientValues path idxStr topicName →
        ∃ index, stoi idxStr = .ok index := by
  induction paths using List.reverseRecOn with
  | nil => exact iff_of_true ⟨_, rfl⟩ fun path hpath => absurd hpath List.not_mem_nil
  | append_singleton paths path ih =>
      simp only [parseTopics_concat_eq_ok_iff, List.forall_mem_append, List.forall_mem_singleton]
      rw [← ih]
      constructor
      · rintro ⟨parse, before, hbefore, hparse⟩
        refine ⟨⟨before, hbefore⟩, fun idxStr topicName hname => ?_⟩
        rw [parsePath_of_namesTopic hname] at hparse
        cases hindex : stoi idxStr with
        | error e =>
            rw [hindex] at hparse
            cases hparse
        | ok index => exact ⟨index, rfl⟩
      · rintro ⟨⟨before, hbefore⟩, hreadable⟩
        obtain ⟨idxStr, topicName, hname⟩ | ⟨idxStr, paramKey, value, hparam⟩ | ⟨hname, hparam⟩ :=
          role_cases registry clientValues path
        · obtain ⟨index, hindex⟩ := hreadable idxStr topicName hname
          refine ⟨before.addName idxStr topicName index, before, hbefore, ?_⟩
          rw [parsePath_of_namesTopic hname, hindex]
          rfl
        · exact ⟨_, before, hbefore, parsePath_of_givesParam hparam before⟩
        · exact ⟨before, before, hbefore, parsePath_of_none hname hparam before⟩

end Parse

end DanWs.TopicIndexTexts
