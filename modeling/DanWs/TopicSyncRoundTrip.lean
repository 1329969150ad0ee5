import DanWs.TopicOrder
import DanWs.TopicTables

namespace DanWs.TopicSyncRoundTrip

open DanWs.ClientTopics
open DanWs.FiniteMaps
open DanWs.KeyPaths
open DanWs.Strings
open DanWs.TopicOrder
open DanWs.TopicParsing
open DanWs.TopicPaths
open DanWs.TopicTables
open DanWs.WireTypes

section Numbering

variable {subscriptions : TopicMap} {topicName topicName' : StdString}
  {params params' : FiniteMap StdString Payload} {index index' : Nat}

theorem lookup_of_mem_numberedTopics
    (h : ((topicName, params), index) ∈ numberedTopics subscriptions) :
    subscriptions.lookup topicName = some params :=
  IterationOrder.mem_items _ |>.mp (List.fst_mem_of_mem_zipIdx h)

theorem exists_mem_numberedTopics (h : subscriptions.lookup topicName = some params) :
    ∃ index, ((topicName, params), index) ∈ numberedTopics subscriptions := by
  obtain ⟨index, hindex⟩ := List.mem_iff_getElem?.mp
    ((IterationOrder.mem_items (IterationOrder.sorted StdString)).mpr h)
  refine ⟨index, ?_⟩
  rw [numberedTopics, List.mk_mem_zipIdx_iff_le_and_getElem?_sub]
  exact ⟨by omega, hindex⟩

theorem numberedTopics_name_unique
    (h : ((topicName, params), index) ∈ numberedTopics subscriptions)
    (h' : ((topicName', params'), index) ∈ numberedTopics subscriptions) :
    topicName = topicName' := by
  rw [numberedTopics, List.mk_mem_zipIdx_iff_le_and_getElem?_sub] at h h'
  exact (Prod.mk.inj (Option.some.inj (h.2.symm.trans h'.2))).1

theorem numberedTopics_index_unique
    (h : ((topicName, params), index) ∈ numberedTopics subscriptions)
    (h' : ((topicName, params'), index') ∈ numberedTopics subscriptions) : index = index' := by
  have hnodup := (IterationOrder.sorted StdString).nodup_items_keys subscriptions
  rw [numberedTopics, List.mk_mem_zipIdx_iff_le_and_getElem?_sub] at h h'
  have hkey : ∀ {j : Nat} {q : FiniteMap StdString Payload},
      ((IterationOrder.sorted StdString).items subscriptions)[j]? = some (topicName, q) →
      (((IterationOrder.sorted StdString).items subscriptions).map Prod.fst)[j]? =
        some topicName := by
    intro j q hj
    rw [List.getElem?_map, hj]
    rfl
  have hlt := (List.getElem?_eq_some_iff.mp (hkey h.2)).1
  exact (List.getElem?_inj hlt hnodup).mp ((hkey h.2).trans (hkey h'.2).symm)

theorem length_le_length_flatMap {α β : Type*} {f : α → List β} (h : ∀ a, 0 < (f a).length)
    (list : List α) : list.length ≤ (list.flatMap f).length := by
  induction list with
  | nil => simp
  | cons a list ih =>
      have := h a
      rw [List.flatMap_cons, List.length_append, List.length_cons]
      omega

theorem index_lt_length_topicEntries
    (h : ((topicName, params), index) ∈ numberedTopics subscriptions) :
    index < (topicEntries subscriptions).length := by
  have hindex : index < (numberedTopics subscriptions).length := by
    have := List.snd_lt_add_of_mem_zipIdx h
    rw [numberedTopics, List.length_zipIdx]
    omega
  exact hindex.trans_le (length_le_length_flatMap (fun _ => by simp [entriesOf]) _)

theorem mem_topicEntries {path : StdString} {value : Payload} :
    (path, value) ∈ topicEntries subscriptions ↔
      ∃ topicName params index, ((topicName, params), index) ∈ numberedTopics subscriptions ∧
        (path = namePath index ∧ value = .string topicName ∨
          ∃ paramKey, params.lookup paramKey = some value ∧ path = paramPath index paramKey) := by
  simp only [topicEntries, List.mem_flatMap, Prod.exists, entriesOf, List.mem_cons, Prod.mk.injEq,
    List.mem_map, IterationOrder.mem_items]
  refine exists_congr fun topicName => exists_congr fun params => exists_congr fun index => ?_
  refine and_congr_right fun _ => or_congr Iff.rfl ?_
  constructor
  · rintro ⟨paramKey, _, hlookup, rfl, rfl⟩
    exact ⟨paramKey, hlookup, rfl⟩
  · rintro ⟨paramKey, hlookup, rfl⟩
    exact ⟨paramKey, value, hlookup, rfl, rfl⟩

theorem ofDigits_namePath (index : Nat) :
    ofDigits (((namePath index).drop 6).takeWhile isDigit) = index :=
  ofDigits_topicPath index (str "name")

theorem ofDigits_paramPath (index : Nat) (paramKey : StdString) :
    ofDigits (((paramPath index paramKey).drop 6).takeWhile isDigit) = index := by
  have h := ofDigits_topicPath index (str "param." ++ paramKey)
  rw [paramPath, List.append_assoc]
  exact h

theorem paramPath_injective (index : Nat) : Function.Injective (paramPath index) :=
  fun _ _ h => List.append_cancel_left h

theorem namePath_ne_paramPath (index index' : Nat) (paramKey : StdString) :
    namePath index ≠ paramPath index' paramKey := by
  intro h
  have hindex := ofDigits_namePath index
  rw [h, ofDigits_paramPath] at hindex
  subst hindex
  have htail : str ".name" = str ".param." ++ paramKey := by
    rw [namePath, paramPath, List.append_assoc, List.append_assoc, List.append_assoc] at h
    exact List.append_cancel_left (List.append_cancel_left h)
  have hbyte := congrArg (fun s : StdString => s[1]?) htail
  change some (0x6E : UInt8) = some 0x70 at hbyte
  cases hbyte

theorem nodup_topicEntries (subscriptions : TopicMap) :
    ((topicEntries subscriptions).map Prod.fst).Nodup := by
  rw [topicEntries, List.map_flatMap, List.nodup_flatMap]
  constructor
  · rintro ⟨⟨topicName, params⟩, index⟩ _
    simp only [entriesOf, List.map_cons, List.map_map, List.nodup_cons]
    constructor
    · intro h
      obtain ⟨⟨paramKey, _⟩, _, hpath⟩ := List.mem_map.mp h
      exact namePath_ne_paramPath index index paramKey hpath.symm
    · have hkeys := (IterationOrder.sorted StdString).nodup_items_keys params
      have hmap := hkeys.map (paramPath_injective index)
      rw [List.map_map] at hmap
      exact hmap
  · have hindices : (numberedTopics subscriptions).Pairwise fun a b => a.2 ≠ b.2 := by
      rw [← List.pairwise_map (f := Prod.snd) (R := (· ≠ ·)), numberedTopics, List.zipIdx_map_snd]
      exact List.nodup_range'
    apply hindices.imp
    intro a b hne
    rw [Function.onFun, List.disjoint_iff_ne]
    have hindex : ∀ (item : (StdString × FiniteMap StdString Payload) × Nat),
        ∀ path ∈ (entriesOf item.2 item.1.1 item.1.2).map Prod.fst,
          ofDigits ((path.drop 6).takeWhile isDigit) = item.2 := by
      rintro ⟨⟨topicName, params⟩, index⟩ path hpath
      simp only [entriesOf, List.map_cons, List.map_map, List.mem_cons, List.mem_map] at hpath
      obtain rfl | ⟨⟨paramKey, _⟩, _, rfl⟩ := hpath
      · exact ofDigits_namePath index
      · exact ofDigits_paramPath index paramKey
    rintro path hpath path' hpath' rfl
    exact hne ((hindex a path hpath).symm.trans (hindex b path hpath'))

end Numbering

section Roles

variable {subscriptions : TopicMap}

/-- No parameter could be read as the name of a topic: one whose key looks like
a name has no non-empty string as its value. -/
def NoForgedName (subscriptions : TopicMap) : Prop :=
  ∀ topicName params paramKey forged, subscriptions.lookup topicName = some params →
    params.lookup paramKey = some (.string forged) → LooksLikeName paramKey → forged = []

theorem namesTopic_iff (hlength : (topicEntries subscriptions).length ≤ 10000)
    (hforged : NoForgedName subscriptions) {path idxStr topicName : StdString} :
    NamesTopic (registryOf (topicEntries subscriptions)) (valuesOf (topicEntries subscriptions))
        path idxStr topicName ↔
      topicName ≠ [] ∧ ∃ params index,
        ((topicName, params), index) ∈ numberedTopics subscriptions ∧
          path = namePath index ∧ idxStr = decimal index := by
  have hheld := held_iff (nodup_topicEntries subscriptions) hlength
  constructor
  · rintro ⟨entry, hentry, hindex, hvalue, hname⟩
    obtain ⟨hmem, _⟩ := (hheld path _).mp ⟨entry, hentry, hvalue⟩
    obtain ⟨topicName', params, index, hnumbered, ⟨rfl, hstring⟩ | ⟨paramKey, hparam, rfl⟩⟩ :=
      mem_topicEntries.mp hmem
    · obtain rfl := Payload.string.inj hstring
      rw [nameIndex_namePath] at hindex
      exact ⟨hname, params, index, hnumbered, rfl, (Option.some.inj hindex).symm⟩
    · have hlooks : LooksLikeName paramKey := by
        by_contra hlooks
        rw [nameIndex_paramPath_eq_none hlooks] at hindex
        cases hindex
      exact absurd (hforged _ _ _ _ (lookup_of_mem_numberedTopics hnumbered) hparam hlooks) hname
  · rintro ⟨hname, params, index, hnumbered, rfl, rfl⟩
    have hlt := index_lt_length_topicEntries hnumbered
    obtain ⟨entry, hentry, hvalue⟩ := (hheld (namePath index) (.string topicName)).mpr
      ⟨mem_topicEntries.mpr ⟨topicName, params, index, hnumbered, Or.inl ⟨rfl, rfl⟩⟩,
        checkKeyPath_namePath (by omega)⟩
    exact ⟨entry, hentry, nameIndex_namePath index, hvalue, hname⟩

theorem exists_namesTopic (hlength : (topicEntries subscriptions).length ≤ 10000)
    (hforged : NoForgedName subscriptions) {topicName : StdString}
    {params : FiniteMap StdString Payload} (hname : topicName ≠ [])
    (hparams : subscriptions.lookup topicName = some params) :
    ∃ index, ((topicName, params), index) ∈ numberedTopics subscriptions ∧
      NamesTopic (registryOf (topicEntries subscriptions)) (valuesOf (topicEntries subscriptions))
        (namePath index) (decimal index) topicName := by
  obtain ⟨index, hnumbered⟩ := exists_mem_numberedTopics hparams
  refine ⟨index, hnumbered, ?_⟩
  exact (namesTopic_iff hlength hforged).mpr ⟨hname, params, index, hnumbered, rfl, rfl⟩

theorem namesApart_topicEntries (hlength : (topicEntries subscriptions).length ≤ 10000)
    (hforged : NoForgedName subscriptions) :
    NamesApart (registryOf (topicEntries subscriptions))
      (valuesOf (topicEntries subscriptions)) := by
  intro path path' idxStr idxStr' topicName topicName' hname hname' hsame
  obtain ⟨_, params, index, hnumbered, rfl, rfl⟩ := (namesTopic_iff hlength hforged).mp hname
  obtain ⟨_, params', index', hnumbered', rfl, rfl⟩ := (namesTopic_iff hlength hforged).mp hname'
  have hlt := index_lt_length_topicEntries hnumbered
  have hlt' := index_lt_length_topicEntries hnumbered'
  rcases hsame with rfl | hindex
  · rw [numberedTopics_index_unique hnumbered hnumbered']
  · rw [stoi_decimal (by omega), stoi_decimal (by omega)] at hindex
    rw [Int.ofNat_inj.mp (Except.ok.inj hindex)]

theorem exists_parseTopics {registry : KeyRegistry} {clientValues : FiniteMap UInt32 Payload}
    (h : ∀ path idxStr topicName, NamesTopic registry clientValues path idxStr topicName →
      ∃ index, stoi idxStr = .ok index) (paths : List StdString) :
    ∃ parse, parseTopics registry clientValues paths = .ok parse := by
  induction paths using List.reverseRecOn with
  | nil => exact ⟨_, rfl⟩
  | append_singleton paths path ih =>
      obtain ⟨before, hbefore⟩ := ih
      rw [parseTopics_concat, hbefore]
      change ∃ parse, parsePath registry clientValues before path = .ok parse
      obtain ⟨idxStr, topicName, hname⟩ | ⟨idxStr, paramKey, value, hparam⟩ | ⟨hname, hparam⟩ :=
        role_cases registry clientValues path
      · obtain ⟨index, hindex⟩ := h _ _ _ hname
        rw [parsePath_of_namesTopic hname, hindex]
        exact ⟨_, rfl⟩
      · rw [parsePath_of_givesParam hparam]
        exact ⟨_, rfl⟩
      · exact ⟨_, parsePath_of_none hname hparam before⟩

theorem exists_givesParam_of_paramValue {registry : KeyRegistry}
    {clientValues : FiniteMap UInt32 Payload} {paths : List StdString} {parse : TopicParse}
    (h : parseTopics registry clientValues paths = .ok parse) {topicName paramKey : StdString}
    {value : Payload} (hvalue : paramValue parse topicName paramKey = some value) :
    ∃ path idxStr value', GivesParam registry clientValues path idxStr paramKey value' := by
  induction paths using List.reverseRecOn generalizing parse value with
  | nil =>
      cases h
      simp [paramValue, TopicParse.empty] at hvalue
  | append_singleton paths path ih =>
      obtain ⟨before, hbefore, hnext⟩ := (parseTopics_concat_eq_ok_iff _ _).mp h
      obtain ⟨idxStr, topicName', index, hname, hindex, rfl⟩ |
        ⟨idxStr, paramKey', value', topicName', hparam, hlookup, rfl⟩ | ⟨hname, hparam, rfl⟩ :=
        parsePath_cases hnext
      · refine ih hbefore (?_ : _ = some value)
        simp only [paramValue, TopicParse.addName] at hvalue ⊢
        split at hvalue
        · rw [lookup_insert_eq_ite] at hvalue
          split at hvalue
          · simp at hvalue
          · exact hvalue
        · exact hvalue
      · rcases eq_or_ne paramKey paramKey' with rfl | hkey
        · exact ⟨path, idxStr, value', hparam⟩
        · refine ih hbefore (?_ : _ = some value)
          simp only [paramValue, TopicParse.addParam, lookup_insert_eq_ite] at hvalue ⊢
          split at hvalue
          · next htopic =>
              rw [Option.bind_some, lookup_insert_eq_ite, if_neg hkey] at hvalue
              rw [htopic]
              cases hheld : before.newTopics.lookup topicName' with
              | none => simp [hheld] at hvalue
              | some params => simpa [hheld] using hvalue
          · exact hvalue
      · exact ih hbefore hvalue

theorem givesParam_iff (hlength : (topicEntries subscriptions).length ≤ 10000)
    (haccepted : ∀ topicName params index paramKey value,
      ((topicName, params), index) ∈ numberedTopics subscriptions →
      params.lookup paramKey = some value → checkKeyPath (paramPath index paramKey) = .ok ())
    (hplain : ∀ topicName params paramKey, subscriptions.lookup topicName = some params →
      paramKey ∈ params.keys → ¬ LooksLikeName paramKey)
    {topicName : StdString} {params : FiniteMap StdString Payload} {index : Nat}
    (hnumbered : ((topicName, params), index) ∈ numberedTopics subscriptions)
    {path paramKey : StdString} {value : Payload} :
    GivesParam (registryOf (topicEntries subscriptions)) (valuesOf (topicEntries subscriptions))
        path (decimal index) paramKey value ↔
      path = paramPath index paramKey ∧ params.lookup paramKey = some value := by
  have hheld := held_iff (nodup_topicEntries subscriptions) hlength
  constructor
  · rintro ⟨entry, hentry, hname, hindex, hvalue⟩
    obtain ⟨hmem, _⟩ := (hheld path _).mp ⟨entry, hentry, hvalue⟩
    obtain ⟨topicName', params', index', hnumbered', ⟨rfl, _⟩ | ⟨paramKey', hparam, rfl⟩⟩ :=
      mem_topicEntries.mp hmem
    · rw [nameIndex_namePath] at hname
      cases hname
    · rw [paramIndex_paramPath] at hindex
      obtain ⟨hdecimal, rfl⟩ := Prod.mk.inj (Option.some.inj hindex)
      obtain rfl := decimal_injective hdecimal
      obtain rfl := numberedTopics_name_unique hnumbered hnumbered'
      have hparams := lookup_of_mem_numberedTopics hnumbered
      rw [lookup_of_mem_numberedTopics hnumbered'] at hparams
      exact ⟨rfl, Option.some.inj hparams ▸ hparam⟩
  · rintro ⟨rfl, hparam⟩
    obtain ⟨entry, hentry, hvalue⟩ := (hheld (paramPath index paramKey) value).mpr
      ⟨mem_topicEntries.mpr ⟨topicName, params, index, hnumbered,
        Or.inr ⟨paramKey, hparam, rfl⟩⟩, haccepted _ _ _ _ _ hnumbered hparam⟩
    have hlooks := hplain topicName params paramKey (lookup_of_mem_numberedTopics hnumbered)
      (mem_keys_iff_lookup.mpr ⟨value, hparam⟩)
    exact ⟨entry, hentry, nameIndex_paramPath_eq_none hlooks index,
      paramIndex_paramPath index paramKey, hvalue⟩

theorem foldl_receive_syncFrames (start : ClientTables) (subscriptions : TopicMap) :
    (syncFrames subscriptions).foldl ClientTables.receive start =
      ⟨some (registryOf (topicEntries subscriptions)), valuesOf (topicEntries subscriptions)⟩ := by
  rw [syncFrames, List.foldl_append, foldl_receive]
  rfl

end Roles

section RoundTrip

variable [HashOrder StdString] {subscriptions : TopicMap}

/-- `paths()` lists the name path of a topic before its parameter paths. -/
def ListsNamesFirst (registry : KeyRegistry) : Prop :=
  ∀ index paramKey, namePath index ∈ registry.paths → paramPath index paramKey ∈ registry.paths →
    [namePath index, paramPath index paramKey].Sublist registry.paths

theorem parsed_parse_syncFrames (hlength : (topicEntries subscriptions).length ≤ 10000)
    (hforged : NoForgedName subscriptions) (start : ClientTables) :
    ∃ parse, ((syncFrames subscriptions).foldl ClientTables.receive start).parse = .ok parse ∧
      Parsed (registryOf (topicEntries subscriptions)) (valuesOf (topicEntries subscriptions))
        (registryOf (topicEntries subscriptions)).paths parse := by
  have hnumber : ∀ path idxStr topicName,
      NamesTopic (registryOf (topicEntries subscriptions)) (valuesOf (topicEntries subscriptions))
        path idxStr topicName → ∃ index, stoi idxStr = .ok index := by
    intro path idxStr topicName hname
    obtain ⟨_, params, index, hnumbered, _, rfl⟩ := (namesTopic_iff hlength hforged).mp hname
    have := index_lt_length_topicEntries hnumbered
    exact ⟨index, stoi_decimal (by omega)⟩
  obtain ⟨parse, hparse⟩ := exists_parseTopics hnumber
    (registryOf (topicEntries subscriptions)).paths
  refine ⟨parse, ?_, parsed_parseTopics (namesApart_topicEntries hlength hforged)
    (listsPaths_paths _).1 hparse⟩
  rw [foldl_receive_syncFrames]
  exact hparse

theorem keys_newTopics {parse : TopicParse} (hlength : (topicEntries subscriptions).length ≤ 10000)
    (hforged : NoForgedName subscriptions)
    (hnames : ∀ topicName ∈ subscriptions.keys, topicName ≠ [])
    (h : Parsed (registryOf (topicEntries subscriptions)) (valuesOf (topicEntries subscriptions))
      (registryOf (topicEntries subscriptions)).paths parse) :
    parse.newTopics.keys = subscriptions.keys := by
  ext topicName
  rw [h.named]
  constructor
  · rintro ⟨path, _, idxStr, hname⟩
    obtain ⟨_, params, index, hnumbered, _⟩ := (namesTopic_iff hlength hforged).mp hname
    exact mem_keys_iff_lookup.mpr ⟨params, lookup_of_mem_numberedTopics hnumbered⟩
  · intro hmem
    obtain ⟨params, hparams⟩ := mem_keys_iff_lookup.mp hmem
    obtain ⟨index, _, hname⟩ :=
      exists_namesTopic hlength hforged (hnames topicName hmem) hparams
    exact ⟨_, (listsPaths_paths _).mem_of_namesTopic hname, _, hname⟩

theorem paramValue_eq {parse : TopicParse} (hlength : (topicEntries subscriptions).length ≤ 10000)
    (hforged : NoForgedName subscriptions)
    (hnames : ∀ topicName ∈ subscriptions.keys, topicName ≠ [])
    (haccepted : ∀ topicName params index paramKey value,
      ((topicName, params), index) ∈ numberedTopics subscriptions →
      params.lookup paramKey = some value → checkKeyPath (paramPath index paramKey) = .ok ())
    (hplain : ∀ topicName params paramKey, subscriptions.lookup topicName = some params →
      paramKey ∈ params.keys → ¬ LooksLikeName paramKey)
    (hfirst : ListsNamesFirst (registryOf (topicEntries subscriptions)))
    (h : Parsed (registryOf (topicEntries subscriptions)) (valuesOf (topicEntries subscriptions))
      (registryOf (topicEntries subscriptions)).paths parse) (topicName paramKey : StdString) :
    paramValue parse topicName paramKey =
      (subscriptions.lookup topicName).bind (·.lookup paramKey) := by
  apply Option.ext
  intro value
  rw [h.given]
  constructor
  · rintro ⟨path, param, idxStr, _, hname, hparam⟩
    obtain ⟨_, params, index, hnumbered, rfl, rfl⟩ := (namesTopic_iff hlength hforged).mp hname
    rw [lookup_of_mem_numberedTopics hnumbered]
    exact ((givesParam_iff hlength haccepted hplain hnumbered).mp hparam).2
  · intro hlookup
    obtain ⟨params, hparams, hkey⟩ := Option.bind_eq_some_iff.mp hlookup
    obtain ⟨index, hnumbered, hname⟩ := exists_namesTopic hlength hforged
      (hnames topicName (mem_keys_iff_lookup.mpr ⟨params, hparams⟩)) hparams
    have hparam := (givesParam_iff hlength haccepted hplain hnumbered).mpr ⟨rfl, hkey⟩
    refine ⟨_, _, _, hfirst index paramKey ?_ ?_, hname, hparam⟩
    · exact (listsPaths_paths _).mem_of_namesTopic hname
    · exact (listsPaths_paths _).mem_of_givesParam hparam

/-- What the server parses out of the sync of the client are the subscriptions,
if and only if no parameter key is `name` or ends in `.name`. -/
theorem newTopics_syncFrames_iff (start : ClientTables)
    (hnames : ∀ topicName ∈ subscriptions.keys, topicName ≠ [])
    (haccepted : ∀ topicName params index paramKey value,
      ((topicName, params), index) ∈ numberedTopics subscriptions →
      params.lookup paramKey = some value → checkKeyPath (paramPath index paramKey) = .ok ())
    (hlength : (topicEntries subscriptions).length ≤ 10000)
    (hfirst : ∀ registry ∈ ((syncFrames subscriptions).foldl ClientTables.receive
      start).clientRegistry, ListsNamesFirst registry) :
    (∃ parse, ((syncFrames subscriptions).foldl ClientTables.receive start).parse = .ok parse ∧
        parse.newTopics = subscriptions) ↔
      ∀ topicName params paramKey, subscriptions.lookup topicName = some params →
        paramKey ∈ params.keys → ¬ (paramKey = str "name" ∨ str ".name" <:+ paramKey) := by
  rw [foldl_receive_syncFrames] at hfirst
  have hfirst := hfirst _ rfl
  constructor
  · rintro ⟨parse, hparse, rfl⟩ topicName params paramKey hparams hkey hlooks
    rw [foldl_receive_syncFrames] at hparse
    obtain ⟨value, hvalue⟩ := mem_keys_iff_lookup.mp hkey
    have hheld : paramValue parse topicName paramKey = some value := by
      rw [paramValue, hparams, Option.bind_some, hvalue]
    obtain ⟨path, idxStr, _, _, _, hname, hindex, _⟩ :=
      exists_givesParam_of_paramValue hparse hheld
    exact nameIndex_ne_none_of_paramIndex hindex hlooks hname
  · intro hplain
    have hforged : NoForgedName subscriptions := fun topicName params paramKey forged hparams hkey
      hlooks => absurd hlooks (hplain topicName params paramKey hparams
        (mem_keys_iff_lookup.mpr ⟨_, hkey⟩))
    obtain ⟨parse, hparse, h⟩ := parsed_parse_syncFrames hlength hforged start
    refine ⟨parse, hparse, topicMap_ext (keys_newTopics hlength hforged hnames h) ?_⟩
    exact paramValue_eq hlength hforged hnames haccepted hplain hfirst h

end RoundTrip

def oneTopic (paramKey : StdString) (value : Payload) : TopicMap :=
  (∅ : TopicMap).insert (str "t") ((∅ : FiniteMap StdString Payload).insert paramKey value)

section OneTopic

variable {key : StdString} {held : Payload}

theorem lookup_oneTopic {topicName : StdString} {params : FiniteMap StdString Payload}
    (h : (oneTopic key held).lookup topicName = some params) :
    topicName = str "t" ∧ params = (∅ : FiniteMap StdString Payload).insert key held := by
  obtain hboth | ⟨-, h⟩ := lookup_of_lookup_insert h
  · exact hboth
  · cases h

theorem accepted_oneTopic (hkey : checkKeyPath (paramPath 0 key) = .ok ()) :
    ∀ topicName params index paramKey value,
      ((topicName, params), index) ∈ numberedTopics (oneTopic key held) →
      params.lookup paramKey = some value → checkKeyPath (paramPath index paramKey) = .ok () := by
  intro topicName params index paramKey value hnumbered hlookup
  obtain ⟨rfl, rfl⟩ := lookup_oneTopic (lookup_of_mem_numberedTopics hnumbered)
  have hfirst : ((str "t", (∅ : FiniteMap StdString Payload).insert key held), 0) ∈
      numberedTopics (oneTopic key held) := List.mem_cons_self
  obtain rfl := numberedTopics_index_unique hnumbered hfirst
  obtain ⟨heq, -⟩ | ⟨-, hlookup⟩ := lookup_of_lookup_insert hlookup
  · exact heq ▸ hkey
  · cases hlookup

variable (key) in
theorem listsNamesFirst_oneTopic [HashOrder StdString] {registry : KeyRegistry}
    (h : registry.paths = [namePath 0, paramPath 0 key]) : ListsNamesFirst registry := by
  intro index paramKey hname hparam
  rw [h] at hname hparam ⊢
  simp only [List.mem_cons, List.not_mem_nil, or_false, namePath_ne_paramPath,
    fun a b c => (namePath_ne_paramPath a b c).symm, false_or] at hname hparam
  rw [hname, hparam]

end OneTopic

theorem newTopics_syncFrames_iff_oneTopic :
    let _ := HashOrder.ascending StdString
    let subscriptions := oneTopic (str "page") (.int32 1)
    (∃ parse, ((syncFrames subscriptions).foldl ClientTables.receive ClientTables.empty).parse =
          .ok parse ∧ parse.newTopics = subscriptions) ↔
      ∀ topicName params paramKey, subscriptions.lookup topicName = some params →
        paramKey ∈ params.keys → ¬ (paramKey = str "name" ∨ str ".name" <:+ paramKey) := by
  intro _ subscriptions
  apply newTopics_syncFrames_iff ClientTables.empty
  · decide
  · exact accepted_oneTopic (by decide)
  · decide
  · rintro registry ⟨⟩
    exact listsNamesFirst_oneTopic (str "page") (by decide)

/-- A parameter called `name` is taken for a topic. -/
theorem not_newTopics_syncFrames :
    ¬ ∀ (_ : HashOrder StdString) (subscriptions : TopicMap) (start : ClientTables),
      (∀ topicName ∈ subscriptions.keys, topicName ≠ []) →
      (∀ topicName params index paramKey value,
        ((topicName, params), index) ∈ numberedTopics subscriptions →
        params.lookup paramKey = some value → checkKeyPath (paramPath index paramKey) = .ok ()) →
      (topicEntries subscriptions).length ≤ 10000 →
      (∀ registry ∈ ((syncFrames subscriptions).foldl ClientTables.receive start).clientRegistry,
        ListsNamesFirst registry) →
      ∃ parse, ((syncFrames subscriptions).foldl ClientTables.receive start).parse = .ok parse ∧
        parse.newTopics = subscriptions := by
  intro h
  let _ := HashOrder.ascending StdString
  obtain ⟨parse, hparse, htopics⟩ := h inferInstance (oneTopic (str "name") (.string (str "x")))
    ClientTables.empty (by decide) (accepted_oneTopic (by decide)) (by decide) (by
      rintro registry ⟨⟩
      exact listsNamesFirst_oneTopic (str "name") (by decide))
  have hforged : (((syncFrames (oneTopic (str "name") (.string (str "x")))).foldl
      ClientTables.receive ClientTables.empty).parse.map
        fun parse => (parse.newTopics.lookup (str "x")).isSome) = .ok true := rfl
  rw [hparse] at hforged
  have hx : (parse.newTopics.lookup (str "x")).isSome = true := Except.ok.inj hforged
  rw [htopics] at hx
  revert hx
  decide

end DanWs.TopicSyncRoundTrip
