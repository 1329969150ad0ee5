import DanWs.CheckedTopicSyncs
import DanWs.TopicIndexTexts
import DanWs.TopicOrder

namespace DanWs.TopicIndices

open DanWs.CheckedTopicSyncs
open DanWs.FiniteMaps
open DanWs.KeyPaths
open DanWs.Sessions
open DanWs.StepRuns
open DanWs.TopicIndexTexts
open DanWs.TopicOrder
open DanWs.TopicParsing
open DanWs.TopicSync
open DanWs.WireTypes

section Runs

structure TopicSession where
  session : Session
  tables : ClientTables

namespace TopicSession

/-- The client has given the topic a name, under an index that can be read. -/
def WellNamed (tables : ClientTables) (topicName : StdString) : Prop :=
  ∃ registry path idxStr, tables.clientRegistry = some registry ∧
    NamesTopic registry tables.clientValues path idxStr topicName ∧ IndexText idxStr

/-- The registered paths have passed their checks, and the counter is an `int`. -/
structure Valid (connected : TopicSession) : Prop where
  paths : ∀ registry, connected.tables.clientRegistry = some registry →
    ∀ path ∈ registry.pathToId.keys, checkKeyPath path = .ok ()
  counter : connected.session.topicIndex < 2 ^ 31

variable {connected : TopicSession} {frame : Frame}

theorem Valid.stoi_iff (h : Valid connected) {registry : KeyRegistry}
    (hregistry : connected.tables.clientRegistry = some registry)
    {path idxStr topicName : StdString}
    (hname : NamesTopic registry connected.tables.clientValues path idxStr topicName)
    (index : Int) : stoi idxStr = .ok index ↔ IndexText idxStr ∧ index = indexOf idxStr := by
  have hvalid := h.paths registry hregistry path (mem_keys_of_namesTopic hname)
  obtain ⟨-, -, hindex, -⟩ := hname
  exact stoi_nameIndex hvalid hindex index

theorem paths_receive {tables : ClientTables}
    (h : ∀ registry, tables.clientRegistry = some registry →
      ∀ path ∈ registry.pathToId.keys, checkKeyPath path = .ok ()) (frame : Frame) :
    ∀ registry, (tables.receive frame).clientRegistry = some registry →
      ∀ path ∈ registry.pathToId.keys, checkKeyPath path = .ok () := by
  have hempty : ∀ path ∈ KeyRegistry.empty.pathToId.keys, checkKeyPath path = .ok () := by
    simp [KeyRegistry.empty, KeyRegistry.new]
  have hdefault : ∀ path ∈ (tables.clientRegistry.getD KeyRegistry.empty).pathToId.keys,
      checkKeyPath path = .ok () := by
    cases hregistry : tables.clientRegistry with
    | none => exact hempty
    | some registry => exact h registry hregistry
  intro registry hregistry
  rw [ClientTables.receive] at hregistry
  split at hregistry
  · cases hregistry
    exact hempty
  · dsimp only at hregistry
    split at hregistry
    · next path _ =>
        split at hregistry
        · next registered hregistered =>
            cases hregistry
            intro other hother
            rw [KeyRegistry.registerOne] at hregistered
            split at hregistered
            · cases hregistered
            · next hcheck =>
                split at hregistered
                · cases hregistered
                · cases hregistered
                  rw [keys_insert, Finset.mem_insert] at hother
                  rcases hother with rfl | hother
                  · exact hcheck
                  · exact hdefault other hother
        · cases hregistry
          exact hdefault
    · cases hregistry
      exact hdefault
  · exact h registry hregistry
  · exact h registry hregistry

variable [HashOrder StdString]

def receive (connected : TopicSession) (frame : Frame) : TopicSession :=
  let (tables, outcome) := handleClientTopicFrame connected.session connected.tables frame
  ⟨outcome.session, tables⟩

/-- A sync comes to its end, and leaves the topics that are well named. -/
def Syncs (connected : TopicSession) (frame : Frame) : Prop :=
  frame.frameType = .clientSync →
    ∃ outcome, checkedProcessTopicSync connected.session connected.tables = .ok outcome ∧
      connected.receive frame = ⟨outcome.session, connected.tables⟩ ∧
      ∀ topicName, topicName ∈ outcome.session.topics ↔ WellNamed connected.tables topicName

/-- At a sync every index that comes with a name can be read, and no topic that is
not held yet gets the greatest index. -/
def IndicesFit (connected : TopicSession) (frame : Frame) : Prop :=
  frame.frameType = .clientSync → ∀ registry, connected.tables.clientRegistry = some registry →
    (∀ path idxStr topicName,
      NamesTopic registry connected.tables.clientValues path idxStr topicName →
        IndexText idxStr) ∧
    ∀ topicName idxStr, connected.session.getTopicHandle topicName = none →
      NamedLast registry connected.tables.clientValues registry.paths topicName idxStr →
        indexOf idxStr ≠ 2 ^ 31 - 1

theorem wellNamed_iff {registry : KeyRegistry} {parse : TopicParse}
    (hregistry : connected.tables.clientRegistry = some registry)
    (hreadable : ∀ path idxStr topicName,
      NamesTopic registry connected.tables.clientValues path idxStr topicName → IndexText idxStr)
    (hreads : Reads registry connected.tables.clientValues registry.paths parse)
    (topicName : StdString) :
    topicName ∈ parse.newTopics.keys ↔ WellNamed connected.tables topicName := by
  rw [hreads.named]
  constructor
  · rintro ⟨path, -, idxStr, hname⟩
    exact ⟨registry, path, idxStr, hregistry, hname, hreadable path idxStr topicName hname⟩
  · rintro ⟨other, path, idxStr, hother, hname, -⟩
    obtain rfl := Option.some.inj (hregistry.symm.trans hother)
    exact ⟨path, (listsPaths_paths registry).mem_of_namesTopic hname, idxStr, hname⟩

theorem Valid.exists_parse_iff (h : Valid connected) {registry : KeyRegistry}
    (hregistry : connected.tables.clientRegistry = some registry) :
    (∃ parse, connected.tables.parse = .ok parse) ↔ ∀ path idxStr topicName,
      NamesTopic registry connected.tables.clientValues path idxStr topicName →
        IndexText idxStr := by
  have hparse : connected.tables.parse =
      parseTopics registry connected.tables.clientValues registry.paths := by
    rw [ClientTables.parse, hregistry]
  rw [hparse, exists_parseTopics_iff]
  constructor
  · intro hall path idxStr topicName hname
    have hmem := (listsPaths_paths registry).mem_of_namesTopic hname
    obtain ⟨index, hindex⟩ := hall path hmem idxStr topicName hname
    exact ((h.stoi_iff hregistry hname index).mp hindex).1
  · intro hall path _ idxStr topicName hname
    have htext := hall path idxStr topicName hname
    exact ⟨indexOf idxStr, (h.stoi_iff hregistry hname _).mpr ⟨htext, rfl⟩⟩

theorem Valid.exists_index (h : Valid connected) {registry : KeyRegistry} {parse : TopicParse}
    (hregistry : connected.tables.clientRegistry = some registry)
    (hreadable : ∀ path idxStr topicName,
      NamesTopic registry connected.tables.clientValues path idxStr topicName → IndexText idxStr)
    (hreads : Reads registry connected.tables.clientValues registry.paths parse) :
    ∀ name ∈ parse.newTopics.keys, ∃ index, parse.nameToIndex.lookup name = some index ∧
      0 ≤ index ∧ index < 2 ^ 31 := by
  intro name hmem
  obtain ⟨path, hpath, idxStr, hname⟩ := (hreads.named name).mp hmem
  obtain ⟨last, hlast⟩ := exists_namedLast hpath hname
  obtain ⟨lastPath, -, hlastName⟩ := hlast.named
  have htext := hreadable lastPath last name hlastName
  have hstoi := (h.stoi_iff hregistry hlastName (indexOf last)).mpr ⟨htext, rfl⟩
  refine ⟨indexOf last, (hreads.numbered name _).mpr ⟨last, hlast, hstoi⟩, Int.natCast_nonneg _, ?_⟩
  exact Int.ofNat_lt.mpr htext.2

theorem Valid.overflows_iff (h : Valid connected) {registry : KeyRegistry} {parse : TopicParse}
    (hregistry : connected.tables.clientRegistry = some registry)
    (hreadable : ∀ path idxStr topicName,
      NamesTopic registry connected.tables.clientValues path idxStr topicName → IndexText idxStr)
    (hreads : Reads registry connected.tables.clientValues registry.paths parse)
    (name : StdString) :
    Overflows parse.nameToIndex connected.session name ↔
      connected.session.getTopicHandle name = none ∧
        ∃ idxStr, NamedLast registry connected.tables.clientValues registry.paths name idxStr ∧
          indexOf idxStr = 2 ^ 31 - 1 := by
  rw [Overflows, hreads.numbered]
  refine and_congr_right fun _ => exists_congr fun idxStr => and_congr_right fun hlast => ?_
  obtain ⟨path, -, hname⟩ := hlast.named
  rw [h.stoi_iff hregistry hname]
  constructor
  · rintro ⟨-, hindex⟩
    omega
  · intro hindex
    exact ⟨hreadable path idxStr name hname, by omega⟩

/-- A client that has registered nothing has no topics. -/
theorem Valid.sync_of_unregistered (h : Valid connected)
    (hregistry : connected.tables.clientRegistry = none) :
    ∃ parse, connected.tables.parse = .ok parse ∧
      checkedProcessTopicSync connected.session connected.tables =
        .ok (applyTopics connected.session parse) ∧
      (applyTopics connected.session parse).session.topicIndex < 2 ^ 31 ∧
      ∀ topicName, topicName ∈ parse.newTopics.keys ↔ WellNamed connected.tables topicName := by
  have hparse : connected.tables.parse = .ok TopicParse.empty := by
    rw [ClientTables.parse, hregistry]
  have hkeys : ∀ name, name ∉ TopicParse.empty.newTopics.keys := by simp [TopicParse.empty]
  obtain ⟨⟨name, hname, -⟩, -⟩ | ⟨-, hok, hnext⟩ := checkedProcessTopicSync_eq hparse
    (fun name hname => absurd hname (hkeys name)) h.counter
  · exact absurd hname (hkeys name)
  · refine ⟨_, hparse, hok, hnext, fun name => iff_of_false (hkeys name) ?_⟩
    rintro ⟨registry, path, idxStr, hsome, -⟩
    rw [hregistry] at hsome
    cases hsome

theorem Valid.sync_cases (h : Valid connected) (hsync : frame.frameType = .clientSync) :
    (¬ connected.IndicesFit frame ∧
      ∃ e, checkedProcessTopicSync connected.session connected.tables = .error e) ∨
    (connected.IndicesFit frame ∧ ∃ parse, connected.tables.parse = .ok parse ∧
      checkedProcessTopicSync connected.session connected.tables =
        .ok (applyTopics connected.session parse) ∧
      (applyTopics connected.session parse).session.topicIndex < 2 ^ 31 ∧
      ∀ topicName, topicName ∈ parse.newTopics.keys ↔ WellNamed connected.tables topicName) := by
  rw [IndicesFit, forall_prop_of_true hsync]
  cases hregistry : connected.tables.clientRegistry with
  | none => exact Or.inr ⟨nofun, h.sync_of_unregistered hregistry⟩
  | some registry =>
      simp only [Option.some.injEq, forall_eq']
      by_cases hreadable : ∀ path idxStr topicName,
          NamesTopic registry connected.tables.clientValues path idxStr topicName →
            IndexText idxStr
      · obtain ⟨parse, hparse⟩ := (h.exists_parse_iff hregistry).mpr hreadable
        have hlisted := hparse
        rw [ClientTables.parse, hregistry] at hlisted
        have hreads := reads_parseTopics hlisted
        obtain ⟨⟨name, hname, hover⟩, hfault⟩ | ⟨hall, hok, hnext⟩ := checkedProcessTopicSync_eq
          hparse (h.exists_index hregistry hreadable hreads) h.counter
        · obtain ⟨hnone, idxStr, hlast, hmax⟩ :=
            (h.overflows_iff hregistry hreadable hreads name).mp hover
          exact Or.inl ⟨fun hfit => hfit.2 name idxStr hnone hlast hmax, _, hfault⟩
        · refine Or.inr ⟨⟨hreadable, fun name idxStr hnone hlast hmax => ?_⟩, parse, hparse, hok,
            hnext, wellNamed_iff hregistry hreadable hreads⟩
          obtain ⟨path, hpath, hname⟩ := hlast.named
          exact hall name ((hreads.named name).mpr ⟨path, hpath, idxStr, hname⟩)
            ((h.overflows_iff hregistry hreadable hreads name).mpr ⟨hnone, idxStr, hlast, hmax⟩)
      · refine Or.inl ⟨fun hfit => hreadable hfit.1, ?_⟩
        rw [← h.exists_parse_iff hregistry, not_exists] at hreadable
        rw [checkedProcessTopicSync]
        cases hparse : connected.tables.parse with
        | error e => exact ⟨e, rfl⟩
        | ok parse => exact absurd hparse (hreadable parse)

theorem receive_sync (hsync : frame.frameType = .clientSync) {parse : TopicParse}
    (hparse : connected.tables.parse = .ok parse) :
    connected.receive frame =
      ⟨(applyTopics connected.session parse).session, connected.tables⟩ := by
  rw [receive, handleClientTopicFrame, if_pos hsync, processTopicSync, hparse]
  rfl

theorem syncs_iff (h : Valid connected) (frame : Frame) :
    connected.Syncs frame ↔ connected.IndicesFit frame := by
  by_cases hsync : frame.frameType = .clientSync
  · rw [Syncs, forall_prop_of_true hsync]
    obtain ⟨hfit, e, hfault⟩ | ⟨hfit, parse, hparse, hok, -, hnamed⟩ := h.sync_cases hsync
    · refine iff_of_false ?_ hfit
      rintro ⟨outcome, hok, -⟩
      rw [hfault] at hok
      cases hok
    · refine iff_of_true ⟨_, hok, receive_sync hsync hparse, fun topicName => ?_⟩ hfit
      rw [Session.topics, IterationOrder.mem_enumerate, keys_applyTopics, hnamed]
  · exact iff_of_true (fun h => absurd h hsync) fun h => absurd h hsync

theorem valid_receive (h : Valid connected) (hfit : connected.IndicesFit frame) :
    Valid (connected.receive frame) := by
  by_cases hsync : frame.frameType = .clientSync
  · obtain ⟨hmiss, -⟩ | ⟨-, parse, hparse, -, hnext, -⟩ := h.sync_cases hsync
    · exact absurd hfit hmiss
    · rw [receive_sync hsync hparse]
      exact ⟨h.paths, hnext⟩
  · rw [receive, handleClientTopicFrame, if_neg hsync]
    exact ⟨paths_receive h.paths frame, h.counter⟩

end TopicSession

open TopicSession

/-- In a run of frames every sync comes to its end and leaves the topics that are
well named, exactly if the indices fit at every sync. -/
theorem syncs_throughout_iff [HashOrder StdString] (session : Session)
    (hcounter : session.topicIndex < 2 ^ 31) (frames : List Frame) :
    (∀ before frame, before ++ [frame] <+: frames →
      (run receive ⟨session, ClientTables.empty⟩ before).Syncs frame) ↔
      StepsMeet receive IndicesFit ⟨session, ClientTables.empty⟩ frames := by
  have hvalid : Valid ⟨session, ClientTables.empty⟩ := ⟨nofun, hcounter⟩
  have hiff : ∀ connected frame, Valid connected →
      (connected.Syncs frame ↔ connected.IndicesFit frame) := fun _ frame h => syncs_iff h frame
  have hkeep : ∀ connected frame, Valid connected → connected.Syncs frame →
      Valid (connected.receive frame) :=
    fun connected frame h hsyncs => valid_receive h ((hiff connected frame h).mp hsyncs)
  rw [← stepsMeet_iff_prefixes]
  exact stepsMeet_congr hiff hkeep hvalid

def nameFrames (path : StdString) : List Frame :=
  [⟨.clientKeyRegistration, 1, .string, .string path⟩,
    ⟨.clientValue, 1, .string, .string (str "board")⟩, ⟨.clientSync, 0, .null, .null⟩]

theorem syncs_throughout_named :
    let _ := HashOrder.ascending StdString
    ∀ before frame, before ++ [frame] <+: nameFrames (str "topic.7.name") →
      (run receive ⟨Session.new [], ClientTables.empty⟩ before).Syncs frame := by
  intro _
  refine (syncs_throughout_iff (Session.new []) (by decide)
    (nameFrames (str "topic.7.name"))).mpr ⟨nofun, nofun, fun _ registry hregistry => ?_, trivial⟩
  have hindex : ∀ values path idxStr topicName, NamesTopic registry values path idxStr topicName →
      idxStr = str "7" := by
    intro values path idxStr topicName hname
    have hmem := mem_keys_of_namesTopic hname
    cases hregistry
    have hpath : path = str "topic.7.name" := Finset.mem_singleton.mp hmem
    obtain ⟨-, -, hindex, -⟩ := hname
    rw [hpath] at hindex
    exact (Option.some.inj hindex).symm
  refine ⟨fun path idxStr topicName hname => ?_, fun topicName idxStr _ hlast => ?_⟩
  · rw [hindex _ _ _ _ hname]
    decide
  · obtain ⟨path, -, hname⟩ := hlast.named
    rw [hindex _ _ _ _ hname]
    decide

/-- A topic that comes with a letter for its index. -/
theorem not_syncs_throughout :
    ¬ ∀ (_ : HashOrder StdString) (session : Session), session.topicIndex < 2 ^ 31 →
      ∀ (frames before : List Frame) (frame : Frame), before ++ [frame] <+: frames →
        (run receive ⟨session, ClientTables.empty⟩ before).Syncs frame := by
  intro h
  let _ := HashOrder.ascending StdString
  obtain ⟨outcome, hok, -⟩ := h _ (Session.new []) (by decide) (nameFrames (str "topic.x.name"))
    ((nameFrames (str "topic.x.name")).take 2) _ List.prefix_rfl rfl
  have hfault : checkedProcessTopicSync (Session.new [])
      (run receive ⟨Session.new [], ClientTables.empty⟩
        ((nameFrames (str "topic.x.name")).take 2)).tables = .error .invalidArgument := rfl
  cases hok.symm.trans hfault

end Runs

end DanWs.TopicIndices
