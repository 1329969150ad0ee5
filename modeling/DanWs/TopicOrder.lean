import DanWs.TopicParsing

/-!
What the parse loop of `processTopicSync` computes from an enumeration of the
registered paths, and how far the enumeration matters: a parameter is kept only
where its path is listed behind the path that names its topic.
-/

namespace DanWs.TopicOrder

open DanWs.FiniteMaps
open DanWs.KeyPaths
open DanWs.TopicParsing
open DanWs.WireTypes

/-- The list is one of the orders in which `paths()` can list the registry. -/
def ListsPaths (registry : KeyRegistry) (paths : List StdString) : Prop :=
  paths.Nodup ∧ ∀ path, path ∈ paths ↔ path ∈ registry.pathToId.keys

theorem listsPaths_paths [HashOrder StdString] (registry : KeyRegistry) :
    ListsPaths registry registry.paths :=
  ⟨HashOrder.order.nodup _, fun path => HashOrder.order.mem_enumerate _ path⟩

theorem ListsPaths.mem_of_getByPath {registry : KeyRegistry} {paths : List StdString}
    (h : ListsPaths registry paths) {path : StdString} {entry : KeyEntry}
    (hentry : registry.getByPath path = some entry) : path ∈ paths := by
  obtain ⟨keyId, hkeyId, _⟩ := Option.bind_eq_some_iff.mp hentry
  exact (h.2 path).mpr (mem_keys_iff_lookup.mpr ⟨keyId, hkeyId⟩)

theorem ListsPaths.mem_of_namesTopic {registry : KeyRegistry}
    {clientValues : FiniteMap UInt32 Payload} {paths : List StdString}
    (h : ListsPaths registry paths) {path idxStr topicName : StdString}
    (hname : NamesTopic registry clientValues path idxStr topicName) : path ∈ paths := by
  obtain ⟨entry, hentry, _⟩ := hname
  exact h.mem_of_getByPath hentry

theorem ListsPaths.mem_of_givesParam {registry : KeyRegistry}
    {clientValues : FiniteMap UInt32 Payload} {paths : List StdString}
    (h : ListsPaths registry paths) {path idxStr paramKey : StdString} {value : Payload}
    (hparam : GivesParam registry clientValues path idxStr paramKey value) : path ∈ paths := by
  obtain ⟨entry, hentry, _⟩ := hparam
  exact h.mem_of_getByPath hentry

theorem topicMap_ext {topics topics' : TopicMap} (hkeys : topics.keys = topics'.keys)
    (hvalue : ∀ topicName paramKey, (topics.lookup topicName).bind (·.lookup paramKey) =
      (topics'.lookup topicName).bind (·.lookup paramKey)) : topics = topics' := by
  apply Finmap.ext_lookup
  intro topicName
  rcases Decidable.em (topicName ∈ topics.keys) with hmem | hmem
  · obtain ⟨params, hparams⟩ := mem_keys_iff_lookup.mp hmem
    obtain ⟨params', hparams'⟩ := mem_keys_iff_lookup.mp (hkeys ▸ hmem)
    have hparam := hvalue topicName
    simp only [hparams, hparams', Option.bind_some] at hparam
    rw [hparams, hparams', Finmap.ext_lookup hparam]
  · have hmem' : topicName ∉ topics'.keys := hkeys ▸ hmem
    rw [Finmap.mem_keys] at hmem hmem'
    rw [Finmap.lookup_eq_none.mpr hmem, Finmap.lookup_eq_none.mpr hmem']

theorem pair_sublist_concat {α : Type*} {first second last : α} {list : List α} :
    [first, second].Sublist (list ++ [last]) ↔
      [first, second].Sublist list ∨ first ∈ list ∧ second = last := by
  constructor
  · intro h
    obtain ⟨left, right, heq, hleft, hright⟩ := List.sublist_append_iff.mp h
    match left, heq with
    | [], heq =>
        rw [List.nil_append] at heq
        rw [← heq] at hright
        have := hright.length_le
        simp at this
    | [a], heq =>
        obtain ⟨rfl, rfl⟩ : first = a ∧ [second] = right := by simpa using heq
        exact Or.inr ⟨hleft.subset (by simp), by simpa using hright⟩
    | a :: b :: left, heq =>
        obtain ⟨rfl, rfl, hrest⟩ : first = a ∧ second = b ∧ [] = left ++ right := by
          simpa using heq
        obtain ⟨rfl, rfl⟩ := List.append_eq_nil_iff.mp hrest.symm
        exact Or.inl hleft
  · rintro (h | ⟨hfirst, rfl⟩)
    · exact h.trans (List.sublist_append_left _ _)
    · exact (List.singleton_sublist.mpr hfirst).append (List.Sublist.refl [second])

section Parse

variable {registry : KeyRegistry} {clientValues : FiniteMap UInt32 Payload}

variable (registry clientValues) in
/-- No two name paths carry the same topic name or parse to the same index. -/
def NamesApart : Prop :=
  ∀ path path' idxStr idxStr' topicName topicName',
    NamesTopic registry clientValues path idxStr topicName →
    NamesTopic registry clientValues path' idxStr' topicName' →
    topicName = topicName' ∨ stoi idxStr = stoi idxStr' → path = path'

def paramValue (parse : TopicParse) (topicName paramKey : StdString) : Option Payload :=
  (parse.newTopics.lookup topicName).bind (·.lookup paramKey)

variable (registry clientValues) in
structure Parsed (paths : List StdString) (parse : TopicParse) : Prop where
  indexed : ∀ idxStr topicName, parse.indexToName.lookup idxStr = some topicName ↔
    ∃ path ∈ paths, NamesTopic registry clientValues path idxStr topicName
  numbered : ∀ idxStr topicName, parse.indexToName.lookup idxStr = some topicName →
    ∃ index, stoi idxStr = .ok index
  named : ∀ topicName, topicName ∈ parse.newTopics.keys ↔
    ∃ path ∈ paths, ∃ idxStr, NamesTopic registry clientValues path idxStr topicName
  indexOf : ∀ path ∈ paths, ∀ idxStr topicName index,
    NamesTopic registry clientValues path idxStr topicName → stoi idxStr = .ok index →
    parse.nameToIndex.lookup topicName = some index
  given : ∀ topicName paramKey value, paramValue parse topicName paramKey = some value ↔
    ∃ path param idxStr, [path, param].Sublist paths ∧
      NamesTopic registry clientValues path idxStr topicName ∧
      GivesParam registry clientValues param idxStr paramKey value

variable {paths : List StdString} {parse : TopicParse} {path idxStr topicName : StdString}

theorem parsed_empty : Parsed registry clientValues [] TopicParse.empty := by
  constructor <;> simp [TopicParse.empty, paramValue]

theorem NamesApart.other (hapart : NamesApart registry clientValues) (hpath : path ∉ paths)
    (hname : NamesTopic registry clientValues path idxStr topicName)
    {path' idxStr' topicName' : StdString} (hmem : path' ∈ paths)
    (hname' : NamesTopic registry clientValues path' idxStr' topicName') :
    topicName' ≠ topicName ∧ idxStr' ≠ idxStr := by
  have hne : path' ≠ path := fun heq => hpath (heq ▸ hmem)
  constructor
  · exact fun heq => hne (hapart _ _ _ _ _ _ hname' hname (Or.inl heq))
  · exact fun heq => hne (hapart _ _ _ _ _ _ hname' hname (Or.inr (by rw [heq])))

/-- The path of a name gives no parameter to the topics before it. -/
theorem pairs_concat_name (hname : NamesTopic registry clientValues path idxStr topicName)
    (topicName' paramKey : StdString) (value : Payload) :
    (∃ path' param idxStr', [path', param].Sublist (paths ++ [path]) ∧
        NamesTopic registry clientValues path' idxStr' topicName' ∧
        GivesParam registry clientValues param idxStr' paramKey value) ↔
      ∃ path' param idxStr', [path', param].Sublist paths ∧
        NamesTopic registry clientValues path' idxStr' topicName' ∧
        GivesParam registry clientValues param idxStr' paramKey value := by
  simp only [pair_sublist_concat]
  constructor
  · rintro ⟨path', param, idxStr', hmem | ⟨_, rfl⟩, hname', hparam⟩
    · exact ⟨path', param, idxStr', hmem, hname', hparam⟩
    · exact absurd hparam hname.not_givesParam
  · rintro ⟨path', param, idxStr', hmem, hrest⟩
    exact ⟨path', param, idxStr', Or.inl hmem, hrest⟩

theorem parsed_addName (hapart : NamesApart registry clientValues)
    (h : Parsed registry clientValues paths parse) (hpath : path ∉ paths)
    (hname : NamesTopic registry clientValues path idxStr topicName) {index : Int}
    (hindex : stoi idxStr = .ok index) :
    Parsed registry clientValues (paths ++ [path]) (parse.addName idxStr topicName index) := by
  have hother : ∀ path' idxStr' topicName', path' ∈ paths →
      NamesTopic registry clientValues path' idxStr' topicName' →
      topicName' ≠ topicName ∧ idxStr' ≠ idxStr :=
    fun _ _ _ => hapart.other hpath hname
  have hnew : parse.newTopics.lookup topicName = none := by
    rw [Finmap.lookup_eq_none, ← Finmap.mem_keys, h.named]
    rintro ⟨path', hmem, idxStr', hname'⟩
    exact (hother path' idxStr' topicName hmem hname').1 rfl
  have hadd : parse.addName idxStr topicName index =
      { newTopics := parse.newTopics.insert topicName ∅
        nameToIndex := parse.nameToIndex.insert topicName index
        indexToName := parse.indexToName.insert idxStr topicName } := by
    rw [TopicParse.addName, if_pos hnew]
  rw [hadd]
  constructor
  case indexed =>
    intro idxStr' topicName'
    dsimp only
    rw [lookup_insert_eq_ite]
    simp only [List.mem_append, List.mem_singleton, or_and_right, exists_or, exists_eq_left]
    split
    · next heq =>
        subst heq
        constructor
        · rintro ⟨⟩
          exact Or.inr hname
        · rintro (⟨path', hmem, hname'⟩ | hname')
          · exact absurd rfl (hother _ _ _ hmem hname').2
          · rw [(hname.unique hname').2]
    · next hne =>
        rw [h.indexed]
        constructor
        · exact Or.inl
        · rintro (hmem | hname')
          · exact hmem
          · exact absurd (hname'.unique hname).1 hne
  case numbered =>
    intro idxStr' topicName'
    dsimp only
    rw [lookup_insert_eq_ite]
    split
    · next heq => exact fun _ => ⟨index, heq ▸ hindex⟩
    · exact h.numbered idxStr' topicName'
  case named =>
    intro topicName'
    dsimp only
    rw [keys_insert, Finset.mem_insert, h.named]
    simp only [List.mem_append, List.mem_singleton, or_and_right, exists_or, exists_eq_left]
    constructor
    · rintro (rfl | hmem)
      · exact Or.inr ⟨idxStr, hname⟩
      · exact Or.inl hmem
    · rintro (hmem | ⟨idxStr', hname'⟩)
      · exact Or.inr hmem
      · exact Or.inl (hname'.unique hname).2
  case indexOf =>
    intro path' hmem idxStr' topicName' index' hname' hindex'
    dsimp only
    rw [lookup_insert_eq_ite]
    rcases List.mem_append.mp hmem with hmem | hmem
    · rw [if_neg (hother _ _ _ hmem hname').1]
      exact h.indexOf path' hmem idxStr' topicName' index' hname' hindex'
    · obtain rfl := List.mem_singleton.mp hmem
      obtain ⟨rfl, rfl⟩ := hname'.unique hname
      rw [if_pos rfl, Except.ok.inj (hindex.symm.trans hindex')]
  case given =>
    intro topicName' paramKey value
    rw [pairs_concat_name hname, ← h.given, paramValue, paramValue]
    dsimp only
    rw [lookup_insert_eq_ite]
    split
    · next heq =>
        subst heq
        simp [hnew]
    · rfl

theorem parsed_addParam (hapart : NamesApart registry clientValues)
    (h : Parsed registry clientValues paths parse) (hpath : path ∉ paths)
    {paramKey : StdString} {value : Payload}
    (hparam : GivesParam registry clientValues path idxStr paramKey value)
    (hlookup : parse.indexToName.lookup idxStr = some topicName) :
    Parsed registry clientValues (paths ++ [path])
      (parse.addParam topicName paramKey value) := by
  obtain ⟨namePath, hnameMem, hname⟩ := (h.indexed idxStr topicName).mp hlookup
  obtain ⟨index, hindex⟩ := h.numbered idxStr topicName hlookup
  have hskip : ∀ idxStr' topicName', ¬ NamesTopic registry clientValues path idxStr' topicName' :=
    fun _ _ hname' => hname'.not_givesParam hparam
  have hheld : topicName ∈ parse.newTopics.keys :=
    (h.named topicName).mpr ⟨namePath, hnameMem, idxStr, hname⟩
  obtain ⟨params, hparams⟩ := mem_keys_iff_lookup.mp hheld
  constructor
  case indexed =>
    intro idxStr' topicName'
    simp only [List.mem_append, List.mem_singleton, or_and_right, exists_or, exists_eq_left,
      hskip, or_false]
    exact h.indexed idxStr' topicName'
  case numbered => exact h.numbered
  case named =>
    intro topicName'
    simp only [List.mem_append, List.mem_singleton, or_and_right, exists_or, exists_eq_left,
      hskip, exists_false, or_false]
    rw [TopicParse.addParam, keys_insert, Finset.insert_eq_self.mpr hheld]
    exact h.named topicName'
  case indexOf =>
    intro path' hmem idxStr' topicName' index' hname' hindex'
    rcases List.mem_append.mp hmem with hmem | hmem
    · exact h.indexOf path' hmem idxStr' topicName' index' hname' hindex'
    · obtain rfl := List.mem_singleton.mp hmem
      exact absurd hname' (hskip idxStr' topicName')
  case given =>
    intro topicName' paramKey' value'
    have hvalue : paramValue (parse.addParam topicName paramKey value) topicName' paramKey' =
        if topicName' = topicName ∧ paramKey' = paramKey then some value
        else paramValue parse topicName' paramKey' := by
      simp only [paramValue, TopicParse.addParam, lookup_insert_eq_ite, hparams, Option.getD_some]
      rcases eq_or_ne topicName' topicName with rfl | htopic
      · simp only [if_true, Option.bind_some, true_and, hparams, lookup_insert_eq_ite]
      · simp only [htopic, if_false, false_and]
    rw [hvalue]
    simp only [pair_sublist_concat]
    split
    · next heq =>
        obtain ⟨rfl, rfl⟩ := heq
        constructor
        · rintro ⟨⟩
          exact ⟨namePath, path, idxStr, Or.inr ⟨hnameMem, rfl⟩, hname, hparam⟩
        · rintro ⟨path', param, idxStr', hpair, hname', hparam'⟩
          obtain rfl := hapart _ _ _ _ _ _ hname' hname (Or.inl rfl)
          obtain ⟨rfl, _⟩ := hname'.unique hname
          obtain rfl := hparam'.path_unique hparam hindex
          rw [(hparam'.unique hparam).2.2]
    · next hne =>
        rw [h.given]
        constructor
        · rintro ⟨path', param, idxStr', hpair, hrest⟩
          exact ⟨path', param, idxStr', Or.inl hpair, hrest⟩
        · rintro ⟨path', param, idxStr', hpair | ⟨hmem, rfl⟩, hname', hparam'⟩
          · exact ⟨path', param, idxStr', hpair, hname', hparam'⟩
          · obtain ⟨rfl, rfl, _⟩ := hparam'.unique hparam
            have htopic := (h.indexed _ _).mpr ⟨path', hmem, hname'⟩
            rw [hlookup] at htopic
            exact absurd ⟨(Option.some.inj htopic).symm, rfl⟩ hne

theorem parsed_skip (h : Parsed registry clientValues paths parse)
    (hname : ∀ idxStr topicName, ¬ NamesTopic registry clientValues path idxStr topicName)
    (hparam : ∀ idxStr paramKey value, GivesParam registry clientValues path idxStr paramKey value →
      parse.indexToName.lookup idxStr = none) :
    Parsed registry clientValues (paths ++ [path]) parse := by
  constructor
  case indexed =>
    intro idxStr' topicName'
    simp only [List.mem_append, List.mem_singleton, or_and_right, exists_or, exists_eq_left,
      hname, or_false]
    exact h.indexed idxStr' topicName'
  case numbered => exact h.numbered
  case named =>
    intro topicName'
    simp only [List.mem_append, List.mem_singleton, or_and_right, exists_or, exists_eq_left,
      hname, exists_false, or_false]
    exact h.named topicName'
  case indexOf =>
    intro path' hmem idxStr' topicName' index' hname' hindex'
    rcases List.mem_append.mp hmem with hmem | hmem
    · exact h.indexOf path' hmem idxStr' topicName' index' hname' hindex'
    · obtain rfl := List.mem_singleton.mp hmem
      exact absurd hname' (hname idxStr' topicName')
  case given =>
    intro topicName' paramKey' value'
    rw [h.given]
    simp only [pair_sublist_concat]
    constructor
    · rintro ⟨path', param, idxStr', hpair, hrest⟩
      exact ⟨path', param, idxStr', Or.inl hpair, hrest⟩
    · rintro ⟨path', param, idxStr', hpair | ⟨hmem, rfl⟩, hname', hparam'⟩
      · exact ⟨path', param, idxStr', hpair, hname', hparam'⟩
      · have hnone := hparam _ _ _ hparam'
        rw [(h.indexed _ _).mpr ⟨path', hmem, hname'⟩] at hnone
        cases hnone

theorem parsed_parsePath (hapart : NamesApart registry clientValues)
    (h : Parsed registry clientValues paths parse) (hpath : path ∉ paths) {next : TopicParse}
    (hnext : parsePath registry clientValues parse path = .ok next) :
    Parsed registry clientValues (paths ++ [path]) next := by
  obtain ⟨idxStr, topicName, index, hname, hindex, rfl⟩ |
    ⟨idxStr, paramKey, value, topicName, hparam, hlookup, rfl⟩ | ⟨hname, hparam, rfl⟩ :=
    parsePath_cases hnext
  · exact parsed_addName hapart h hpath hname hindex
  · exact parsed_addParam hapart h hpath hparam hlookup
  · exact parsed_skip h hname hparam

theorem parsed_parseTopics (hapart : NamesApart registry clientValues) (hnodup : paths.Nodup)
    (h : parseTopics registry clientValues paths = .ok parse) :
    Parsed registry clientValues paths parse := by
  induction paths using List.reverseRecOn generalizing parse with
  | nil =>
      cases h
      exact parsed_empty
  | append_singleton paths path ih =>
      obtain ⟨before, hbefore, hnext⟩ := (parseTopics_concat_eq_ok_iff _ _).mp h
      have hpath : path ∉ paths := fun hmem =>
        (List.nodup_append.mp hnodup).2.2 path hmem path (by simp) rfl
      exact parsed_parsePath hapart (ih (List.nodup_append.mp hnodup).1 hbefore) hpath hnext

theorem Parsed.paramValue_iff (hapart : NamesApart registry clientValues)
    (h : Parsed registry clientValues paths parse) {param paramKey : StdString} {value : Payload}
    (hlist : path ∈ paths) (hname : NamesTopic registry clientValues path idxStr topicName)
    (hparam : GivesParam registry clientValues param idxStr paramKey value) :
    paramValue parse topicName paramKey = some value ↔ [path, param].Sublist paths := by
  rw [h.given]
  constructor
  · rintro ⟨path', param', idxStr', hpair, hname', hparam'⟩
    obtain rfl := hapart _ _ _ _ _ _ hname' hname (Or.inl rfl)
    obtain ⟨rfl, _⟩ := hname'.unique hname
    obtain ⟨index, hindex⟩ := h.numbered _ _ ((h.indexed _ _).mpr ⟨path', hlist, hname⟩)
    obtain rfl := hparam'.path_unique hparam hindex
    exact hpair
  · exact fun hpair => ⟨path, param, idxStr, hpair, hname, hparam⟩

/-- Two enumerations of the same registry give the same topics if and only if
they agree, for every topic name and every parameter of its index, on which of
the two paths comes first. -/
theorem newTopics_eq_iff {first second : List StdString} {parsed parsed' : TopicParse}
    (hfirst : ListsPaths registry first) (hsecond : ListsPaths registry second)
    (hparsed : parseTopics registry clientValues first = .ok parsed)
    (hparsed' : parseTopics registry clientValues second = .ok parsed')
    (hapart : NamesApart registry clientValues) :
    parsed.newTopics = parsed'.newTopics ↔
      ∀ path param idxStr topicName paramKey value,
        NamesTopic registry clientValues path idxStr topicName →
        GivesParam registry clientValues param idxStr paramKey value →
        ([path, param].Sublist first ↔ [path, param].Sublist second) := by
  have h := parsed_parseTopics hapart hfirst.1 hparsed
  have h' := parsed_parseTopics hapart hsecond.1 hparsed'
  constructor
  · intro heq path param idxStr topicName paramKey value hname hparam
    rw [← h.paramValue_iff hapart (hfirst.mem_of_namesTopic hname) hname hparam,
      ← h'.paramValue_iff hapart (hsecond.mem_of_namesTopic hname) hname hparam, paramValue,
      paramValue, heq]
  · intro horder
    have hvalue : ∀ topicName paramKey,
        paramValue parsed topicName paramKey = paramValue parsed' topicName paramKey := by
      intro topicName paramKey
      apply Option.ext
      intro value
      rw [h.given, h'.given]
      refine exists_congr fun path => exists_congr fun param => exists_congr fun idxStr => ?_
      refine and_congr_left fun hroles => ?_
      exact horder path param idxStr topicName paramKey value hroles.1 hroles.2
    have hkeys : parsed.newTopics.keys = parsed'.newTopics.keys := by
      ext topicName
      rw [h.named, h'.named]
      refine exists_congr fun path => and_congr_left fun hname => ?_
      obtain ⟨idxStr, hname⟩ := hname
      exact iff_of_true (hfirst.mem_of_namesTopic hname) (hsecond.mem_of_namesTopic hname)
    exact topicMap_ext hkeys hvalue

theorem namesApart_of_single (only : StdString)
    (h : ∀ path ∈ registry.pathToId.keys, path = only ∨ nameIndex path = none) :
    NamesApart registry clientValues := by
  have hsingle : ∀ {path idxStr topicName : StdString},
      NamesTopic registry clientValues path idxStr topicName → path = only := by
    rintro path idxStr topicName ⟨entry, hentry, hindex, _⟩
    obtain ⟨keyId, hkeyId, _⟩ := Option.bind_eq_some_iff.mp hentry
    refine (h path (mem_keys_iff_lookup.mpr ⟨keyId, hkeyId⟩)).resolve_right ?_
    rw [hindex]
    exact Option.some_ne_none idxStr
  intro path path' idxStr idxStr' topicName topicName' hname hname' _
  rw [hsingle hname, hsingle hname']

end Parse

def oneParam : KeyRegistry :=
  { KeyRegistry.empty with
    byId := (Finmap.singleton 1 ⟨str "topic.0.name", .string, 1⟩).insert 2
      ⟨str "topic.0.param.x", .varInteger, 2⟩
    pathToId := (Finmap.singleton (str "topic.0.name") 1).insert (str "topic.0.param.x") 2
    nextId := 3 }

def oneParamValues : FiniteMap UInt32 Payload :=
  (Finmap.singleton 1 (.string (str "t"))).insert 2 (.int32 1)

theorem listsPaths_oneParam {paths : List StdString} (hnodup : paths.Nodup)
    (h : ∀ path, path ∈ paths ↔ path = str "topic.0.name" ∨ path = str "topic.0.param.x") :
    ListsPaths oneParam paths := by
  have hkeys : oneParam.pathToId.keys = {str "topic.0.name", str "topic.0.param.x"} := by decide
  refine ⟨hnodup, fun path => ?_⟩
  rw [h, hkeys, Finset.mem_insert, Finset.mem_singleton]

theorem namesApart_oneParam : NamesApart oneParam oneParamValues :=
  namesApart_of_single (str "topic.0.name") (by decide)

theorem newTopics_eq_iff_oneParam :
    ∃ parsed parsed',
      parseTopics oneParam oneParamValues [str "topic.0.name", str "topic.0.param.x"] =
          .ok parsed ∧
        parseTopics oneParam oneParamValues [str "topic.0.param.x", str "topic.0.name"] =
          .ok parsed' ∧
        (parsed.newTopics = parsed'.newTopics ↔
          ∀ path param idxStr topicName paramKey value,
            NamesTopic oneParam oneParamValues path idxStr topicName →
            GivesParam oneParam oneParamValues param idxStr paramKey value →
            ([path, param].Sublist [str "topic.0.name", str "topic.0.param.x"] ↔
              [path, param].Sublist [str "topic.0.param.x", str "topic.0.name"])) := by
  refine ⟨(TopicParse.empty.addName (str "0") (str "t") 0).addParam (str "t") (str "x") (.int32 1),
    TopicParse.empty.addName (str "0") (str "t") 0, rfl, rfl, ?_⟩
  apply newTopics_eq_iff
  · exact listsPaths_oneParam (by decide) (by simp)
  · exact listsPaths_oneParam (by decide) (by simp [or_comm])
  · rfl
  · rfl
  · exact namesApart_oneParam

/-- With the parameter listed first, it is lost. -/
theorem not_newTopics_eq_of_listsPaths :
    ¬ ∀ (registry : KeyRegistry) (clientValues : FiniteMap UInt32 Payload)
        (first second : List StdString) (parsed parsed' : TopicParse),
      ListsPaths registry first → ListsPaths registry second →
      parseTopics registry clientValues first = .ok parsed →
      parseTopics registry clientValues second = .ok parsed' →
      NamesApart registry clientValues → parsed.newTopics = parsed'.newTopics := by
  intro h
  have heq := h oneParam oneParamValues [str "topic.0.name", str "topic.0.param.x"]
    [str "topic.0.param.x", str "topic.0.name"]
    ((TopicParse.empty.addName (str "0") (str "t") 0).addParam (str "t") (str "x") (.int32 1))
    (TopicParse.empty.addName (str "0") (str "t") 0)
    (listsPaths_oneParam (by decide) (by simp))
    (listsPaths_oneParam (by decide) (by simp [or_comm])) rfl rfl namesApart_oneParam
  have hx := congrArg (fun topics : TopicMap => (topics.lookup (str "t")).bind (·.lookup (str "x")))
    heq
  revert hx
  decide

end DanWs.TopicOrder
