import DanWs.KeyPaths
import DanWs.Strings

namespace DanWs.TopicParsing

open DanWs.FiniteMaps
open DanWs.KeyPaths
open DanWs.Strings
open DanWs.WireTypes

/-- `isspace` in the C locale. -/
def isSpace (b : UInt8) : Bool := b == 0x20 || (0x09 ≤ b && b ≤ 0x0D)

/-- `std::stoi`. -/
def stoi (s : StdString) : Result Int :=
  let text := s.dropWhile isSpace
  let (negative, digits) := match text with
    | 0x2D :: rest => (true, rest.takeWhile isDigit)
    | 0x2B :: rest => (false, rest.takeWhile isDigit)
    | _ => (false, text.takeWhile isDigit)
  let value : Int := if negative then -(ofDigits digits : Int) else ofDigits digits
  if digits = [] then .error .invalidArgument
  else if value < -2 ^ 31 ∨ 2 ^ 31 ≤ value then .error .outOfRange
  else .ok value

/-- Subtraction in `size_t`, of operands that fit. -/
def sizeSub (a b : Nat) : Nat := if b ≤ a then a - b else a + 2 ^ 64 - b

/-- `substr(position, count)` for a position inside the string. -/
def substr (s : StdString) (position count : Nat) : StdString := (s.drop position).take count

/-- The `idxStr` of a path that is read as `topic.<idx>.name`. -/
def nameIndex (path : StdString) : Option StdString :=
  if find (str "topic.") path = some 0 ∧ 6 < path.length then
    match rfind (str ".name") path with
    | some namePos =>
        if namePos = path.length - 5 then some (substr path 6 (sizeSub namePos 6)) else none
    | none => none
  else none

/-- The `idxStr` and `paramKey` of a path that is read as
`topic.<idx>.param.<key>`. -/
def paramIndex (path : StdString) : Option (StdString × StdString) :=
  if find (str "topic.") path = some 0 then
    match find (str ".param.") path with
    | some paramPos => some (substr path 6 (sizeSub paramPos 6), path.drop (paramPos + 7))
    | none => none
  else none

/-- The tables of an `InternalSession` that the client fills. -/
structure ClientTables where
  clientRegistry : Option KeyRegistry
  clientValues : FiniteMap UInt32 Payload

namespace ClientTables

def empty : ClientTables := ⟨none, ∅⟩

/-- `handleClientTopicFrame` up to the call of `processTopicSync`. An exception
of `registerOne` goes through to the parser, which drops it. -/
def receive (tables : ClientTables) (frame : Frame) : ClientTables :=
  match frame.frameType with
  | .clientReset => ⟨some KeyRegistry.empty, ∅⟩
  | .clientKeyRegistration =>
      let registry := tables.clientRegistry.getD KeyRegistry.empty
      match frame.payload with
      | .string path =>
          match registry.registerOne frame.keyId path frame.dataType with
          | .ok registered => { tables with clientRegistry := some registered }
          | .error _ => { tables with clientRegistry := some registry }
      | _ => { tables with clientRegistry := some registry }
  | .clientValue =>
      { tables with clientValues := tables.clientValues.insert frame.keyId frame.payload }
  | _ => tables

end ClientTables

abbrev TopicMap := FiniteMap StdString (FiniteMap StdString Payload)

/-- The local variables of the parse loop. -/
structure TopicParse where
  newTopics : TopicMap
  nameToIndex : FiniteMap StdString Int
  indexToName : FiniteMap StdString StdString

namespace TopicParse

def empty : TopicParse := ⟨∅, ∅, ∅⟩

def addName (parse : TopicParse) (idxStr topicName : StdString) (index : Int) : TopicParse where
  newTopics :=
    if parse.newTopics.lookup topicName = none then parse.newTopics.insert topicName ∅
    else parse.newTopics
  nameToIndex := parse.nameToIndex.insert topicName index
  indexToName := parse.indexToName.insert idxStr topicName

def addParam (parse : TopicParse) (topicName paramKey : StdString) (value : Payload) :
    TopicParse :=
  { parse with
    newTopics := parse.newTopics.insert topicName
      (((parse.newTopics.lookup topicName).getD ∅).insert paramKey value) }

end TopicParse

section Parse

variable (registry : KeyRegistry) (clientValues : FiniteMap UInt32 Payload)

def parsePath (parse : TopicParse) (path : StdString) : Result TopicParse :=
  match registry.getByPath path with
  | none => .ok parse
  | some entry =>
      match nameIndex path with
      | some idxStr =>
          match clientValues.lookup entry.keyId with
          | some (.string topicName) =>
              if topicName = [] then .ok parse
              else (stoi idxStr).map (parse.addName idxStr topicName)
          | _ => .ok parse
      | none =>
          match paramIndex path with
          | none => .ok parse
          | some (idxStr, paramKey) =>
              match parse.indexToName.lookup idxStr with
              | none => .ok parse
              | some topicName =>
                  match clientValues.lookup entry.keyId with
                  | none => .ok parse
                  | some value => .ok (parse.addParam topicName paramKey value)

/-- The parse loop over the paths in the order in which `paths()` lists them. -/
def parseTopics (paths : List StdString) : Result TopicParse :=
  paths.foldlM (parsePath registry clientValues) TopicParse.empty

/-- The topics that `processTopicSync` reads out of the tables. -/
def ClientTables.parse [HashOrder StdString] (tables : ClientTables) : Result TopicParse :=
  match tables.clientRegistry with
  | none => .ok TopicParse.empty
  | some registry => parseTopics registry tables.clientValues registry.paths

theorem parseTopics_concat (paths : List StdString) (path : StdString) :
    parseTopics registry clientValues (paths ++ [path]) =
      (parseTopics registry clientValues paths).bind
        fun parse => parsePath registry clientValues parse path := by
  rw [parseTopics, List.foldlM_append]
  refine congrArg (Except.bind _) (funext fun parse => ?_)
  cases h : parsePath registry clientValues parse path <;>
    simp [h, List.foldlM, bind, Except.bind, pure, Except.pure]

theorem parseTopics_concat_eq_ok_iff {paths : List StdString} {path : StdString}
    {parse : TopicParse} :
    parseTopics registry clientValues (paths ++ [path]) = .ok parse ↔
      ∃ before, parseTopics registry clientValues paths = .ok before ∧
        parsePath registry clientValues before path = .ok parse := by
  rw [parseTopics_concat]
  cases parseTopics registry clientValues paths with
  | error e => simp [Except.bind]
  | ok before => simp [Except.bind]

/-- The path names a topic: it is read as `topic.<idx>.name` and its value is a
non-empty string. -/
def NamesTopic (path idxStr topicName : StdString) : Prop :=
  ∃ entry, registry.getByPath path = some entry ∧ nameIndex path = some idxStr ∧
    clientValues.lookup entry.keyId = some (.string topicName) ∧ topicName ≠ []

/-- The path gives a parameter: it is read as `topic.<idx>.param.<key>`, not as
a name path, and has a value. -/
def GivesParam (path idxStr paramKey : StdString) (value : Payload) : Prop :=
  ∃ entry, registry.getByPath path = some entry ∧ nameIndex path = none ∧
    paramIndex path = some (idxStr, paramKey) ∧ clientValues.lookup entry.keyId = some value

variable {registry clientValues}

theorem NamesTopic.unique {path idxStr idxStr' topicName topicName' : StdString}
    (h : NamesTopic registry clientValues path idxStr topicName)
    (h' : NamesTopic registry clientValues path idxStr' topicName') :
    idxStr = idxStr' ∧ topicName = topicName' := by
  obtain ⟨entry, hentry, hindex, hvalue, _⟩ := h
  obtain ⟨entry', hentry', hindex', hvalue', _⟩ := h'
  rw [hentry] at hentry'
  obtain rfl := Option.some.inj hentry'
  rw [hindex] at hindex'
  rw [hvalue] at hvalue'
  exact ⟨Option.some.inj hindex', Payload.string.inj (Option.some.inj hvalue')⟩

theorem GivesParam.unique {path idxStr idxStr' paramKey paramKey' : StdString}
    {value value' : Payload} (h : GivesParam registry clientValues path idxStr paramKey value)
    (h' : GivesParam registry clientValues path idxStr' paramKey' value') :
    idxStr = idxStr' ∧ paramKey = paramKey' ∧ value = value' := by
  obtain ⟨entry, hentry, _, hindex, hvalue⟩ := h
  obtain ⟨entry', hentry', _, hindex', hvalue'⟩ := h'
  rw [hentry] at hentry'
  obtain rfl := Option.some.inj hentry'
  rw [hindex] at hindex'
  rw [hvalue] at hvalue'
  obtain ⟨hidx, hkey⟩ := Prod.mk.inj (Option.some.inj hindex')
  exact ⟨hidx, hkey, Option.some.inj hvalue'⟩

theorem NamesTopic.not_givesParam {path idxStr idxStr' topicName paramKey : StdString}
    {value : Payload} (h : NamesTopic registry clientValues path idxStr topicName) :
    ¬ GivesParam registry clientValues path idxStr' paramKey value := by
  rintro ⟨_, _, hnone, _⟩
  obtain ⟨_, _, hindex, _⟩ := h
  rw [hindex] at hnone
  cases hnone

/-- The pieces of a parameter path with a number in front determine it. Only the
path `topic.param.<key>`, whose offsets wrap around, does not fall apart this
way, and its `idxStr` is no number. -/
theorem eq_of_paramIndex {path idxStr paramKey : StdString} {index : Int}
    (h : paramIndex path = some (idxStr, paramKey)) (hindex : stoi idxStr = .ok index) :
    path = str "topic." ++ idxStr ++ str ".param." ++ paramKey := by
  rw [paramIndex] at h
  split at h
  case isFalse => cases h
  case isTrue htopic =>
    split at h
    case h_2 => cases h
    case h_1 paramPos hparam =>
      obtain ⟨rest, rfl⟩ := find_eq_zero_iff.mp htopic
      obtain ⟨hidx, hkey⟩ := Prod.mk.inj (Option.some.inj h)
      have hpos := find_append_of_not_mem (show 0x2E ∉ str "topic" by decide) (str "param.")
        (str "." ++ rest)
      rw [← List.append_assoc] at hpos
      change find (str ".param.") (str "topic." ++ rest) = _ at hpos
      rw [hparam] at hpos
      obtain ⟨position, hposition, hsum⟩ := Option.map_eq_some_iff.mp hpos.symm
      have hlength : (str "topic").length = 5 := rfl
      have hsplit := eq_of_find hparam
      have hparamLength : (str ".param.").length = 7 := rfl
      rw [hparamLength, hkey] at hsplit
      cases position with
      | zero =>
          have hpos5 : paramPos = 5 := by omega
          subst hpos5
          have hdrop : (str "topic." ++ rest).drop 6 = str "param." ++ paramKey := by
            rw [hsplit]
            rfl
          rw [substr, hdrop] at hidx
          rw [← hidx] at hindex
          cases hindex
      | succ position =>
          have hle : 6 ≤ paramPos := by omega
          rw [substr, sizeSub, if_pos hle] at hidx
          calc
            str "topic." ++ rest
                = (str "topic." ++ rest).take paramPos ++ str ".param." ++ paramKey := hsplit
            _ = (str "topic." ++ rest).take (6 + (paramPos - 6)) ++ str ".param." ++ paramKey := by
                rw [Nat.add_sub_cancel' hle]
            _ = str "topic." ++ idxStr ++ str ".param." ++ paramKey := by
                rw [List.take_add, hidx]
                rfl

theorem GivesParam.path_unique {path path' idxStr paramKey : StdString} {value value' : Payload}
    {index : Int} (h : GivesParam registry clientValues path idxStr paramKey value)
    (h' : GivesParam registry clientValues path' idxStr paramKey value')
    (hindex : stoi idxStr = .ok index) : path = path' := by
  obtain ⟨_, _, _, hpieces, _⟩ := h
  obtain ⟨_, _, _, hpieces', _⟩ := h'
  rw [eq_of_paramIndex hpieces hindex, eq_of_paramIndex hpieces' hindex]

theorem parsePath_of_namesTopic {path idxStr topicName : StdString}
    (h : NamesTopic registry clientValues path idxStr topicName) (parse : TopicParse) :
    parsePath registry clientValues parse path =
      (stoi idxStr).map (parse.addName idxStr topicName) := by
  obtain ⟨entry, hentry, hindex, hvalue, hname⟩ := h
  simp only [parsePath, hentry, hindex, hvalue, hname, if_false]

theorem parsePath_of_givesParam {path idxStr paramKey : StdString} {value : Payload}
    (h : GivesParam registry clientValues path idxStr paramKey value) (parse : TopicParse) :
    parsePath registry clientValues parse path =
      .ok (match parse.indexToName.lookup idxStr with
        | none => parse
        | some topicName => parse.addParam topicName paramKey value) := by
  obtain ⟨entry, hentry, hname, hindex, hvalue⟩ := h
  simp only [parsePath, hentry, hname, hindex, hvalue]
  cases parse.indexToName.lookup idxStr <;> rfl

theorem parsePath_of_none {path : StdString}
    (hname : ∀ idxStr topicName, ¬ NamesTopic registry clientValues path idxStr topicName)
    (hparam : ∀ idxStr paramKey value,
      ¬ GivesParam registry clientValues path idxStr paramKey value) (parse : TopicParse) :
    parsePath registry clientValues parse path = .ok parse := by
  rw [parsePath]
  split
  · rfl
  · next entry hentry =>
      split
      · next idxStr hindex =>
          split
          · next topicName hvalue =>
              split
              · rfl
              · next hnonempty =>
                  exact absurd ⟨entry, hentry, hindex, hvalue, hnonempty⟩ (hname idxStr topicName)
          · rfl
      · next hindex =>
          split
          · rfl
          · next idxStr paramKey hpieces =>
              split
              · rfl
              · split
                · rfl
                · next value hvalue =>
                    exact absurd ⟨entry, hentry, hindex, hpieces, hvalue⟩
                      (hparam idxStr paramKey value)

variable (registry clientValues) in
theorem role_cases (path : StdString) :
    (∃ idxStr topicName, NamesTopic registry clientValues path idxStr topicName) ∨
      (∃ idxStr paramKey value, GivesParam registry clientValues path idxStr paramKey value) ∨
      ((∀ idxStr topicName, ¬ NamesTopic registry clientValues path idxStr topicName) ∧
        ∀ idxStr paramKey value,
          ¬ GivesParam registry clientValues path idxStr paramKey value) := by
  rcases Classical.em (∃ idxStr topicName,
      NamesTopic registry clientValues path idxStr topicName) with hname | hname
  · exact .inl hname
  · rcases Classical.em (∃ idxStr paramKey value,
        GivesParam registry clientValues path idxStr paramKey value) with hparam | hparam
    · exact .inr (.inl hparam)
    · simp only [not_exists] at hname hparam
      exact .inr (.inr ⟨hname, hparam⟩)

theorem parsePath_cases {path : StdString} {parse next : TopicParse}
    (h : parsePath registry clientValues parse path = .ok next) :
    (∃ idxStr topicName index, NamesTopic registry clientValues path idxStr topicName ∧
      stoi idxStr = .ok index ∧ next = parse.addName idxStr topicName index) ∨
    (∃ idxStr paramKey value topicName,
      GivesParam registry clientValues path idxStr paramKey value ∧
        parse.indexToName.lookup idxStr = some topicName ∧
        next = parse.addParam topicName paramKey value) ∨
    ((∀ idxStr topicName, ¬ NamesTopic registry clientValues path idxStr topicName) ∧
      (∀ idxStr paramKey value, GivesParam registry clientValues path idxStr paramKey value →
        parse.indexToName.lookup idxStr = none) ∧ next = parse) := by
  obtain ⟨idxStr, topicName, hname⟩ | ⟨idxStr, paramKey, value, hparam⟩ | ⟨hname, hparam⟩ :=
    role_cases registry clientValues path
  · rw [parsePath_of_namesTopic hname] at h
    cases hindex : stoi idxStr with
    | error e =>
        rw [hindex] at h
        cases h
    | ok index =>
        rw [hindex] at h
        cases h
        exact .inl ⟨idxStr, topicName, index, hname, hindex, rfl⟩
  · rw [parsePath_of_givesParam hparam] at h
    cases hlookup : parse.indexToName.lookup idxStr with
    | none =>
        rw [hlookup] at h
        cases h
        refine .inr (.inr ⟨fun _ _ hname => hname.not_givesParam hparam, ?_, rfl⟩)
        intro idxStr' _ _ hparam'
        rw [(hparam'.unique hparam).1, hlookup]
    | some topicName =>
        rw [hlookup] at h
        cases h
        exact .inr (.inl ⟨idxStr, paramKey, value, topicName, hparam, hlookup, rfl⟩)
  · rw [parsePath_of_none hname hparam] at h
    cases h
    exact .inr (.inr ⟨hname, fun _ _ _ hgives => absurd hgives (hparam _ _ _), rfl⟩)

end Parse

end DanWs.TopicParsing
