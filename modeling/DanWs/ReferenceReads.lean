import DanWs.ReferenceHandling

namespace DanWs.ReferenceReads

open DanWs.ClientHistories
open DanWs.ClientLifecycle
open DanWs.ClientTopics
open DanWs.Clients
open DanWs.KeyPaths
open DanWs.KeyStores
open DanWs.MapChanges
open DanWs.ReferenceHandling
open DanWs.StepRuns
open DanWs.TopicMemory
open DanWs.TopicReferences
open DanWs.TopicRouting
open DanWs.WireTypes

section Deletions

variable (callbacks : Notice → List Callback) {client : Client} {frame : Frame} {entry : KeyEntry}

/-- The client behind a deletion, before its callbacks. -/
def deleted (client : Client) (frame : Frame) : Client :=
  (client.handleServerKeyDelete frame).client

theorem topics_getTopicInfo (client : Client) (keyId : UInt32) (path : StdString) :
    (client.getTopicInfo keyId path).1.topics = client.topics := by
  obtain ⟨topicKeyCache, hcached⟩ := getTopicInfo_eq client keyId path
  rw [hcached]

/-- The pointer of a deletion is null, or leads to the slot that has just been erased. -/
theorem handleFrame_of_delete (htype : frame.frameType = .serverKeyDelete)
    (hentry : client.registry.getByKeyId frame.keyId = some entry) (hpath : entry.path ≠ []) :
    handleFrame callbacks client frame =
      match (client.getTopicInfo frame.keyId entry.path).2 with
      | none => emit callbacks (begin (deleted client frame)) (.onReceive entry.path .null)
      | some _ =>
          if client.topics.indexToTopic = ∅ then begin (deleted client frame)
          else dangling (begin (deleted client frame)) := by
  rw [handleFrame, htype]
  dsimp only
  rw [handleServerKeyDelete, deleted, Client.handleServerKeyDelete, hentry]
  dsimp only
  rw [getTopicInfo_eq_map, Option.map_some, Option.getD_some, if_neg hpath]
  have htopics := topics_getTopicInfo client frame.keyId entry.path
  cases (client.getTopicInfo frame.keyId entry.path).2 with
  | none => rfl
  | some info =>
      rw [Option.map_some, notify]
      dsimp only
      split
      · next hempty =>
          exact lookUp_of_empty ((congrArg TopicClient.indexToTopic htopics).trans hempty)
      · next hsome =>
          refine lookUp_of_gone (fun hempty => hsome ?_) (resolve_of_erase rfl)
          exact (congrArg TopicClient.indexToTopic htopics).symm.trans hempty

theorem handleFrame_of_delete_unnamed (htype : frame.frameType = .serverKeyDelete)
    (h : ((client.registry.getByKeyId frame.keyId).map KeyEntry.path).getD [] = []) :
    handleFrame callbacks client frame = begin (deleted client frame) := by
  rw [handleFrame, htype]
  dsimp only
  rw [handleServerKeyDelete, deleted, Client.handleServerKeyDelete]
  dsimp only
  rw [if_pos h]
  cases client.registry.getByKeyId frame.keyId with
  | none => rfl
  | some entry =>
      dsimp only
      rw [getTopicInfo_eq_map]
      rfl

theorem maps_handleFrame_of_delete (htype : frame.frameType = .serverKeyDelete) :
    maps (handleFrame callbacks client frame).client = maps (deleted client frame) := by
  by_cases h : ((client.registry.getByKeyId frame.keyId).map KeyEntry.path).getD [] = []
  · rw [handleFrame_of_delete_unnamed callbacks htype h]
    rfl
  · cases hentry : client.registry.getByKeyId frame.keyId with
    | none => exact absurd (by rw [hentry]; rfl) h
    | some entry =>
        rw [hentry, Option.map_some, Option.getD_some] at h
        rw [handleFrame_of_delete callbacks htype hentry h]
        cases (client.getTopicInfo frame.keyId entry.path).2 with
        | none => exact (kept_emit callbacks (begin (deleted client frame)) _).maps
        | some info =>
            dsimp only
            split <;> rfl

end Deletions

section Properties

variable (callbacks : Notice → List Callback) (client : Client) (frame : Frame)

/-- Every read of a `TopicInfo` finds its slot, and the deletion of a topic key notifies the
handle of its topic, with its user key and no value, and nothing else. -/
structure ReadsLive : Prop where
  live : (handleFrame callbacks client frame).live = true
  deletion : frame.frameType = .serverKeyDelete → ∀ entry info,
    client.registry.getByKeyId frame.keyId = some entry → parseTopicKey entry.path = some info →
    (handleFrame callbacks client frame).notices =
      (handleOf client info).toList.map fun topicName => .notifyTopic topicName info.userKey .null

/-- No registered key is deleted that has the path of a topic or is remembered with one, or
there are no topics to look up and the path of a topic is not remembered as that of none. -/
def DeletesNoTopic : Prop :=
  frame.frameType = .serverKeyDelete → ∀ entry,
    client.registry.getByKeyId frame.keyId = some entry →
    (parseTopicKey entry.path = none ∧
        ∀ info, client.topicKeyCache.lookup frame.keyId ≠ some (some info)) ∨
      client.topics.indexToTopic = ∅ ∧
        (client.topicKeyCache.lookup frame.keyId = some none → parseTopicKey entry.path = none)

variable {callbacks client frame}

/-- The same, by the pointer that the deletion holds. -/
theorem deletesNoTopic_iff (htype : frame.frameType = .serverKeyDelete) {entry : KeyEntry}
    (hentry : client.registry.getByKeyId frame.keyId = some entry) :
    DeletesNoTopic client frame ↔
      match (client.getTopicInfo frame.keyId entry.path).2 with
      | none => parseTopicKey entry.path = none
      | some _ => client.topics.indexToTopic = ∅ := by
  have hcondition : DeletesNoTopic client frame ↔
      (parseTopicKey entry.path = none ∧
          ∀ info, client.topicKeyCache.lookup frame.keyId ≠ some (some info)) ∨
        client.topics.indexToTopic = ∅ ∧
          (client.topicKeyCache.lookup frame.keyId = some none →
            parseTopicKey entry.path = none) := by
    refine ⟨fun hdeletes => hdeletes htype entry hentry, fun hdeletes _ other hother => ?_⟩
    rwa [← Option.some.inj (hentry.symm.trans hother)]
  rw [hcondition, topicInfo_eq]
  cases client.topicKeyCache.lookup frame.keyId with
  | none => cases parseTopicKey entry.path <;> simp
  | some cached => cases cached <;> simp

theorem readsLive_iff_of_delete (htype : frame.frameType = .serverKeyDelete) {entry : KeyEntry}
    (hentry : client.registry.getByKeyId frame.keyId = some entry) (hpath : entry.path ≠ []) :
    ReadsLive callbacks client frame ↔ DeletesNoTopic client frame := by
  have hhandled := handleFrame_of_delete callbacks htype hentry hpath
  rw [deletesNoTopic_iff htype hentry]
  cases hinfo : (client.getTopicInfo frame.keyId entry.path).2 with
  | none =>
      rw [hinfo] at hhandled
      dsimp only at hhandled ⊢
      constructor
      · intro h
        by_contra htopic
        obtain ⟨info, hparse⟩ := Option.ne_none_iff_exists'.mp htopic
        have hnotices := h.deletion htype entry info hentry hparse
        rw [hhandled] at hnotices
        cases hhandle : handleOf client info with
        | none => simp [hhandle, emit, begin] at hnotices
        | some topicName => simp [hhandle, emit, begin] at hnotices
      · intro hnone
        refine ⟨by rw [hhandled]; rfl, fun _ other info hother hparse => ?_⟩
        rw [← Option.some.inj (hentry.symm.trans hother), hnone] at hparse
        cases hparse
  | some held =>
      rw [hinfo] at hhandled
      dsimp only at hhandled ⊢
      by_cases hempty : client.topics.indexToTopic = ∅
      · rw [if_pos hempty] at hhandled
        refine iff_of_true ⟨by rw [hhandled]; rfl, fun _ other info _ _ => ?_⟩ hempty
        rw [hhandled, handleOf_of_empty hempty]
        rfl
      · rw [if_neg hempty] at hhandled
        refine iff_of_false (fun h => ?_) hempty
        have hlive := h.live
        rw [hhandled] at hlive
        exact Bool.false_ne_true hlive

theorem readsLive_iff (hnamed : Named (maps client)) :
    ReadsLive callbacks client frame ↔ DeletesNoTopic client frame := by
  by_cases htype : frame.frameType = .serverKeyDelete
  · cases hentry : client.registry.getByKeyId frame.keyId with
    | none =>
        have hhandled := handleFrame_of_delete_unnamed callbacks htype
          (by rw [hentry]; rfl)
        refine iff_of_true ⟨by rw [hhandled]; rfl, ?_⟩ ?_
        · intro _ entry info hother
          cases hentry.symm.trans hother
        · intro _ entry hother
          cases hentry.symm.trans hother
    | some entry => exact readsLive_iff_of_delete htype hentry (hnamed frame.keyId entry hentry)
  · refine iff_of_true ⟨(settled_handleFrame callbacks client frame htype).live, ?_⟩ ?_
    · exact fun hdelete => absurd hdelete htype
    · exact fun hdelete => absurd hdelete htype

end Properties

theorem maps_handleFrame (callbacks : Notice → List Callback) (client : Client) (frame : Frame) :
    maps (handleFrame callbacks client frame).client = maps (client.handleFrame frame).client := by
  by_cases htype : frame.frameType = .serverKeyDelete
  · rw [maps_handleFrame_of_delete callbacks htype, deleted, Client.handleFrame, htype]
  · exact (settled_handleFrame callbacks client frame htype).maps

section Histories

/-- A frame with the callbacks that are registered for its notices when they are made. -/
structure Reception where
  callbacks : Notice → List Callback
  frame : Frame

/-- `LiveClient.take`, with the callbacks at their places. -/
def takeCalling (live : LiveClient) (arrival : Reception) : LiveClient :=
  let client := (handleFrame arrival.callbacks live.client arrival.frame).client
  { live with
    client
    heartbeat :=
      if arrival.frame.frameType = .authFail then live.heartbeat.stop else live.heartbeat
    engine :=
      if live.client.reconnectActive ∧ ¬ client.reconnectActive then live.engine.stop
      else live.engine }

variable (uuidBytes : List UInt8) (options : ReconnectOptions) (events : List (Event Reception))

def after (before : List (Event Reception)) : LiveClient :=
  run (step takeCalling) (LiveClient.new uuidBytes options) before

theorem named_after (before : List (Event Reception)) :
    Named (maps (after uuidBytes options before).client) := by
  have htake : ∀ live arrival, Named (maps live.client) →
      Named (maps (takeCalling live arrival).client) := by
    intro live arrival hnamed
    rw [takeCalling, maps_handleFrame]
    exact named_changes hnamed (changes_handleFrame live.client arrival.frame)
  have hnew : Named (maps (LiveClient.new uuidBytes options).client) :=
    fun keyId entry hentry => by cases hentry
  exact maps_run htake hnew before

/-- Throughout the life of a client every frame reads live slots, and deletions notify the
topics of their keys, exactly when every deletion meets the condition. -/
theorem readsLive_throughout_iff :
    (∀ before arrival, before ++ [.frame arrival] <+: events →
        (after uuidBytes options before).terminated = false →
        ReadsLive arrival.callbacks (after uuidBytes options before).client arrival.frame) ↔
      StepsMeet (step takeCalling)
        (OnFrames fun client arrival => DeletesNoTopic client arrival.frame)
        (LiveClient.new uuidBytes options) events := by
  rw [onFrames_iff_prefixes]
  refine forall₂_congr fun before arrival => forall₂_congr fun _ _ => ?_
  exact readsLive_iff (named_after uuidBytes options before)

/-- The topic has a handle, and the reference that leads to it is read too late. -/
theorem not_readsLive_throughout :
    ¬ ∀ (uuidBytes : List UInt8) (options : ReconnectOptions) (events : List (Event Reception)),
      ∀ before arrival, before ++ [.frame arrival] <+: events →
        (after uuidBytes options before).terminated = false →
        ReadsLive arrival.callbacks (after uuidBytes options before).client arrival.frame := by
  intro h
  let opened : List (Event Reception) :=
    [.other (.connect .starts .starts) (by simp), .other .opened (by simp),
      .other (.input (.subscribe (str "board") ∅)) (by simp)]
  let told : List (Event Reception) :=
    [.frame ⟨fun _ => [], signalFrame .serverSync⟩,
      .frame ⟨fun _ => [], ⟨.serverKeyRegistration, 1, .varInteger, .string (str "t.0.a")⟩⟩]
  have hlive := (h (List.replicate 16 7) ⟨true, 0⟩ _ (opened ++ told)
    ⟨fun _ => [], ⟨.serverKeyDelete, 1, .null, .null⟩⟩ List.prefix_rfl (by decide +kernel)).live
  exact absurd hlive (by decide +kernel)

end Histories

end DanWs.ReferenceReads
