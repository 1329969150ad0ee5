import DanWs.TopicMemory

namespace DanWs.TopicRouting

open DanWs.ClientMaps
open DanWs.ClientStanding
open DanWs.Clients
open DanWs.FiniteMaps
open DanWs.KeyPaths
open DanWs.KeyStores
open DanWs.MapChanges
open DanWs.TopicMemory
open DanWs.WireTypes

section Routes

variable (client : Client)

def handleOf (info : TopicInfo) : Option StdString :=
  (client.topics.indexToTopic.lookup info.topicIdx).filter fun topicName =>
    (client.topics.topicHandles.lookup topicName).isSome

/-- Where a value of a path belongs: with the handle of its topic, under the user
key, or with `onReceive_`. -/
def route (path : StdString) (value : Payload) : List Notice :=
  match parseTopicKey path with
  | none => [.onReceive path value]
  | some info =>
      (handleOf client info).toList.map fun topicName => .notifyTopic topicName info.userKey value

/-- The same for the length of an array. -/
def routeLength (path : StdString) (length : Int) : List Notice :=
  let payload := .int32 (Int32.ofInt length)
  match parseTopicKey path with
  | none => [.onReceive (Client.dropLength path ++ str ".length") payload]
  | some info =>
      (handleOf client info).toList.map fun topicName =>
        .notifyTopic topicName (Client.dropLength info.userKey ++ str ".length") payload

/-- The path that an accepted registration gives its key. -/
def registeredPath (registry : KeyRegistry) (frame : Frame) : Option StdString :=
  match frame.payload with
  | .string path =>
      (registry.registerOne frame.keyId path frame.dataType).toOption.map fun _ => path
  | _ => none

/-- The callbacks about the value of the key of a frame, by the path that the key
has, or is given by the frame. -/
def currentRoute (frame : Frame) : List Notice :=
  let held := client.registry.getByKeyId frame.keyId
  let length := client.storedLength frame.keyId
  match frame.frameType with
  | .serverKeyRegistration =>
      match registeredPath client.registry frame, client.pendingValues.lookup frame.keyId with
      | some path, some pending => route client path pending.payload
      | _, _ => []
  | .serverValue => held.elim [] fun entry => route client entry.path frame.payload
  | .serverKeyDelete => held.elim [] fun entry => route client entry.path .null
  | .arrayShiftLeft =>
      held.elim [] fun entry =>
        routeLength client entry.path (length - Client.shiftCount frame length)
  | .arrayShiftRight => held.elim [] fun entry => routeLength client entry.path length
  | _ => []

def aboutValue : Notice → Bool
  | .onReceive _ _ | .notifyTopic _ _ _ | .danglingTopicInfo => true
  | _ => false

/-- The callbacks about values go where the current path of the key leads, and
none is chosen by memory that has been freed. -/
def Routed (frame : Frame) : Prop :=
  (client.handleFrame frame).notices.filter aboutValue = currentRoute client frame

instance : DecidablePred (Routed client) := fun _ => inferInstanceAs (Decidable (_ = _))

/-- Without any topics to look up nothing is read behind the erasure. -/
def DeletesNoTopicKey (frame : Frame) : Prop :=
  frame.frameType = .serverKeyDelete → ∀ entry,
    client.registry.getByKeyId frame.keyId = some entry →
    parseTopicKey entry.path = none ∨ client.topics.indexToTopic = ∅

theorem notify_some (info : TopicInfo) (path : StdString) (value : Payload) :
    client.notify (some info) path value =
      (handleOf client info).toList.map fun topicName =>
        .notifyTopic topicName info.userKey value := by
  rw [Client.notify, handleOf]
  cases client.topics.indexToTopic.lookup info.topicIdx with
  | none => rfl
  | some topicName =>
      dsimp only
      cases hhandle : client.topics.topicHandles.lookup topicName with
      | none => simp [hhandle]
      | some index => simp [Option.filter, hhandle]

theorem notify_parseTopicKey (path : StdString) (value : Payload) :
    client.notify (parseTopicKey path) path value = route client path value := by
  rw [route]
  cases parseTopicKey path with
  | none => rfl
  | some info => exact notify_some client info path value

theorem notifyLength_parseTopicKey (path : StdString) (length : Int) :
    client.notifyLength (parseTopicKey path) path length = routeLength client path length := by
  rw [Client.notifyLength, routeLength]
  cases parseTopicKey path with
  | none => rfl
  | some info => exact notify_some client _ _ _

theorem filter_notify (info : Option TopicInfo) (path : StdString) (value : Payload) :
    (client.notify info path value).filter aboutValue = client.notify info path value := by
  rw [List.filter_eq_self]
  intro notice hnotice
  cases info with
  | none =>
      rw [List.mem_singleton.mp hnotice]
      rfl
  | some info =>
      rw [notify_some] at hnotice
      obtain ⟨topicName, -, rfl⟩ := List.mem_map.mp hnotice
      rfl

theorem dangling_notMem_notify (info : Option TopicInfo) (path : StdString) (value : Payload) :
    .danglingTopicInfo ∉ client.notify info path value := by
  cases info with
  | none => simp [Client.notify]
  | some info => simp [notify_some]

theorem filter_enterReady : client.enterReady.notices.filter aboutValue = [] := by
  rw [Client.enterReady]
  dsimp only
  split <;> split <;> rfl

theorem topicInfo_eq (keyId : UInt32) (path : StdString) :
    (client.getTopicInfo keyId path).2 =
      (client.topicKeyCache.lookup keyId).getD (parseTopicKey path) := by
  rw [Client.getTopicInfo]
  cases client.topicKeyCache.lookup keyId <;> rfl

theorem notices_enterReady (store : FiniteMap UInt32 Payload)
    (topicKeyCache : FiniteMap UInt32 (Option TopicInfo)) :
    (Client.enterReady { client with store, topicKeyCache }).notices =
      client.enterReady.notices := by
  rw [Client.enterReady, Client.enterReady]
  dsimp only
  split <;> rfl

variable (frame : Frame)

theorem notices_applyPending (path : StdString) :
    (client.applyPending frame path).notices =
      match client.pendingValues.lookup frame.keyId with
      | none => []
      | some pending =>
          client.notify (client.getTopicInfo frame.keyId path).2 path pending.payload := by
  rw [Client.applyPending]
  cases client.pendingValues.lookup frame.keyId with
  | none => rfl
  | some pending =>
      obtain ⟨topicKeyCache, hcached⟩ := getTopicInfo_eq
        { client with store := client.store.insert frame.keyId pending.payload } frame.keyId path
      dsimp only
      rw [topicInfo_eq, topicInfo_eq, hcached]
      rfl

theorem notices_storeValue (entry : KeyEntry) :
    (client.storeValue frame entry).notices =
      client.notify (client.getTopicInfo frame.keyId entry.path).2 entry.path frame.payload ++
        if client.state = .synchronizing then client.enterReady.notices else [] := by
  obtain ⟨topicKeyCache, hcached⟩ := getTopicInfo_eq
    { client with store := client.store.insert frame.keyId frame.payload } frame.keyId entry.path
  rw [Client.storeValue]
  dsimp only
  rw [topicInfo_eq, topicInfo_eq, hcached]
  dsimp only
  split
  · rw [notices_enterReady]
    rfl
  · rw [List.append_nil]
    rfl

/-- The callbacks of a deletion, where the topic of the key is known. -/
def deletionNotices (entry : KeyEntry) (info : Option TopicInfo) : List Notice :=
  if entry.path = [] then []
  else
    match info with
    | none => [.onReceive entry.path .null]
    | some _ => if client.topics.indexToTopic = ∅ then [] else [.danglingTopicInfo]

theorem notices_handleServerKeyDelete :
    (client.handleServerKeyDelete frame).notices =
      match client.registry.getByKeyId frame.keyId with
      | none => []
      | some entry =>
          deletionNotices client entry (client.getTopicInfo frame.keyId entry.path).2 := by
  rw [Client.handleServerKeyDelete]
  cases client.registry.getByKeyId frame.keyId <;> rfl

theorem notifyLength_of_topics {client moved : Client} (h : moved.topics = client.topics)
    (info : Option TopicInfo) (path : StdString) (length : Int) :
    moved.notifyLength info path length = client.notifyLength info path length := by
  simp only [Client.notifyLength, Client.notify, h]

theorem notices_handleArrayShiftLeft :
    (client.handleArrayShiftLeft frame).notices =
      match client.registry.getByKeyId frame.keyId with
      | none => []
      | some entry =>
          client.notifyLength (client.getTopicInfo frame.keyId entry.path).2 entry.path
            (client.storedLength frame.keyId -
              Client.shiftCount frame (client.storedLength frame.keyId)) := by
  rw [Client.handleArrayShiftLeft]
  cases client.registry.getByKeyId frame.keyId with
  | none => rfl
  | some entry =>
      obtain ⟨topicKeyCache, hcached⟩ := getTopicInfo_eq client frame.keyId entry.path
      dsimp only
      rw [hcached]
      obtain ⟨store, hmoved⟩ := foldl_moveElement_eq { client with topicKeyCache }
        (Client.dropLength entry.path)
        (fun i => i + (Client.shiftCount frame (client.storedLength frame.keyId)).toNat)
        (fun i => i) (List.range (client.storedLength frame.keyId -
          Client.shiftCount frame (client.storedLength frame.keyId)).toNat)
      exact notifyLength_of_topics (congrArg Client.topics hmoved) _ _ _

theorem notices_handleArrayShiftRight :
    (client.handleArrayShiftRight frame).notices =
      match client.registry.getByKeyId frame.keyId with
      | none => []
      | some entry =>
          client.notifyLength (client.getTopicInfo frame.keyId entry.path).2 entry.path
            (client.storedLength frame.keyId) := by
  rw [Client.handleArrayShiftRight]
  cases client.registry.getByKeyId frame.keyId with
  | none => rfl
  | some entry =>
      obtain ⟨topicKeyCache, hcached⟩ := getTopicInfo_eq client frame.keyId entry.path
      dsimp only
      rw [hcached]
      obtain ⟨store, hmoved⟩ := foldl_moveElement_eq { client with topicKeyCache }
        (Client.dropLength entry.path) (fun i => i)
        (fun i => i + (Client.shiftCount frame (client.storedLength frame.keyId)).toNat)
        (List.range (client.storedLength frame.keyId).toNat).reverse
      exact notifyLength_of_topics (congrArg Client.topics hmoved) _ _ _

variable {client frame}

theorem topicInfo_of_coherent (h : Coherent (maps client)) {keyId : UInt32}
    {entry : KeyEntry} (hentry : client.registry.getByKeyId keyId = some entry) :
    (client.getTopicInfo keyId entry.path).2 = parseTopicKey entry.path := by
  rw [topicInfo_eq]
  cases hlookup : client.topicKeyCache.lookup keyId with
  | none => rfl
  | some info => exact h keyId info entry hlookup hentry

theorem route_of_topics {client moved : Client} (h : moved.topics = client.topics)
    (path : StdString) (value : Payload) : route moved path value = route client path value := by
  rw [← notify_parseTopicKey, ← notify_parseTopicKey]
  simp only [Client.notify, h]

theorem startSynchronizing_eq (client : Client) :
    ∃ state, client.startSynchronizing = { client with state } := by
  rw [Client.startSynchronizing]
  split
  · exact ⟨_, rfl⟩
  · exact ⟨client.state, rfl⟩

theorem routed_handleServerKeyRegistration (h : Consistent (maps client)) :
    (client.handleServerKeyRegistration frame).notices.filter aboutValue =
      match registeredPath client.registry frame, client.pendingValues.lookup frame.keyId with
      | some path, some pending => route client path pending.payload
      | _, _ => [] := by
  obtain ⟨state, hstarted⟩ := startSynchronizing_eq client
  rw [Client.handleServerKeyRegistration, hstarted, registeredPath]
  dsimp only
  cases frame.payload with
  | string path =>
      dsimp only
      cases client.registry.registerOne frame.keyId path frame.dataType with
      | error e => rfl
      | ok registered =>
          dsimp only [Except.toOption, Option.map_some]
          rw [notices_applyPending]
          dsimp only
          cases hpending : client.pendingValues.lookup frame.keyId with
          | none => rfl
          | some pending =>
              dsimp only
              have hnone : client.topicKeyCache.lookup frame.keyId = none :=
                lookup_topicKeyCache_of_pending h hpending
              rw [filter_notify, topicInfo_eq]
              dsimp only
              rw [hnone, Option.getD_none, notify_parseTopicKey]
              exact route_of_topics rfl path pending.payload
  | _ => rfl

/-- A client that remembers no wrong topics routes the values of all frames but
deletions by the current paths. -/
theorem routed_of_ne (hconsistent : Consistent (maps client)) (h : Coherent (maps client))
    (hframe : frame.frameType ≠ .serverKeyDelete) : Routed client frame := by
  rw [Routed, currentRoute, Client.handleFrame]
  cases htype : frame.frameType
  case serverKeyDelete => exact absurd htype hframe
  case serverKeyRegistration => exact routed_handleServerKeyRegistration hconsistent
  case serverSync =>
      dsimp only
      rw [Client.handleServerSync]
      dsimp only
      split
      · exact filter_enterReady _
      · rfl
  case serverValue =>
      dsimp only
      rw [Client.handleServerValue]
      cases hentry : client.registry.getByKeyId frame.keyId with
      | none => rfl
      | some entry =>
          have hready : (if client.state = .synchronizing then client.enterReady.notices
              else []).filter aboutValue = [] := by
            split
            · exact filter_enterReady client
            · rfl
          dsimp only [Option.elim_some]
          rw [notices_storeValue, topicInfo_of_coherent h hentry, List.filter_append,
            filter_notify, hready, List.append_nil, notify_parseTopicKey]
  case arrayShiftLeft =>
      dsimp only
      rw [notices_handleArrayShiftLeft]
      cases hentry : client.registry.getByKeyId frame.keyId with
      | none => rfl
      | some entry =>
          dsimp only [Option.elim_some]
          rw [topicInfo_of_coherent h hentry, ← notifyLength_parseTopicKey]
          exact filter_notify _ _ _ _
  case arrayShiftRight =>
      dsimp only
      rw [notices_handleArrayShiftRight]
      cases hentry : client.registry.getByKeyId frame.keyId with
      | none => rfl
      | some entry =>
          dsimp only [Option.elim_some]
          rw [topicInfo_of_coherent h hentry, ← notifyLength_parseTopicKey]
          exact filter_notify _ _ _ _
  case serverFlushEnd =>
      dsimp only
      rw [List.filter_eq_nil_iff]
      intro notice hnotice
      rcases List.mem_cons.mp hnotice with rfl | hnotice
      · simp [aboutValue]
      · obtain ⟨topicName, -, rfl⟩ := List.mem_map.mp hnotice
        simp [aboutValue]
  all_goals rfl

theorem handleOf_of_empty (h : client.topics.indexToTopic = ∅) (info : TopicInfo) :
    handleOf client info = none := by
  rw [handleOf, h]
  rfl

theorem dangling_notMem_route (path : StdString) (value : Payload) :
    .danglingTopicInfo ∉ route client path value := by
  rw [← notify_parseTopicKey]
  exact dangling_notMem_notify client _ path value

theorem routed_iff_of_delete (h : Coherent (maps client)) (hnamed : Named (maps client))
    (htype : frame.frameType = .serverKeyDelete) :
    Routed client frame ↔ DeletesNoTopicKey client frame := by
  rw [Routed, currentRoute, Client.handleFrame, htype]
  dsimp only
  rw [notices_handleServerKeyDelete]
  cases hentry : client.registry.getByKeyId frame.keyId with
  | none =>
      refine iff_of_true rfl fun _ entry hother => ?_
      cases hentry.symm.trans hother
  | some entry =>
      have hpath : entry.path ≠ [] := hnamed frame.keyId entry hentry
      have hcondition : DeletesNoTopicKey client frame ↔
          parseTopicKey entry.path = none ∨ client.topics.indexToTopic = ∅ := by
        refine ⟨fun hdeletes => hdeletes htype entry hentry, fun hentry' _ other hother => ?_⟩
        rwa [← Option.some.inj (hentry.symm.trans hother)]
      dsimp only [Option.elim_some]
      rw [hcondition, topicInfo_of_coherent h hentry, deletionNotices.eq_def, if_neg hpath]
      cases hinfo : parseTopicKey entry.path with
      | none =>
          refine iff_of_true ?_ (Or.inl rfl)
          rw [route, hinfo]
          rfl
      | some info =>
          dsimp only
          by_cases hempty : client.topics.indexToTopic = ∅
          · refine iff_of_true ?_ (Or.inr hempty)
            rw [if_pos hempty, route, hinfo]
            dsimp only
            rw [handleOf_of_empty hempty]
            rfl
          · refine iff_of_false (fun hrouted => ?_) (by simp [hempty])
            rw [if_neg hempty] at hrouted
            have hroute : route client entry.path .null = [.danglingTopicInfo] := hrouted.symm
            have hnone : .danglingTopicInfo ∉ route client entry.path .null :=
              dangling_notMem_route entry.path .null
            exact hnone (hroute ▸ List.mem_singleton_self _)

theorem routed_iff (hconsistent : Consistent (maps client)) (h : Coherent (maps client))
    (hnamed : Named (maps client)) :
    Routed client frame ↔ DeletesNoTopicKey client frame := by
  by_cases htype : frame.frameType = .serverKeyDelete
  · exact routed_iff_of_delete h hnamed htype
  · exact iff_of_true (routed_of_ne hconsistent h htype) fun hdelete => absurd hdelete htype

end Routes

end DanWs.TopicRouting
