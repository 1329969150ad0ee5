import DanWs.KeyStores

namespace DanWs.ClientStanding

open DanWs.Clients
open DanWs.ClientTopics
open DanWs.KeyPaths
open DanWs.KeyStores
open DanWs.WireTypes

structure Standing where
  state : ClientState
  intentionalDisconnect : Bool
  socket : Option Bool
  topics : TopicClient
  reconnectActive : Bool

def standing (client : Client) : Standing :=
  ⟨client.state, client.intentionalDisconnect, client.socket, client.topics,
    client.reconnectActive⟩

namespace Standing

variable (standing : Standing)

def startSynchronizing : Standing :=
  if standing.state = .identifying then { standing with state := .synchronizing } else standing

/-- The topics behind a call of `sendTopicSync` by a client that has subscriptions. -/
def announced : TopicClient × List Frame :=
  if standing.topics.subscriptions = ∅ then (standing.topics, [])
  else standing.topics.sendTopicSync (standing.socket = some true)

def enterReady : Standing :=
  { standing with state := .ready, topics := standing.announced.1, reconnectActive := false }

def entersReady (registry : KeyRegistry) (frame : Frame) : Bool :=
  frame.frameType = .serverSync ∧ registry.byId = ∅ ∨
    frame.frameType = .serverValue ∧ registry.hasKeyId frame.keyId ∧
      standing.state = .synchronizing

/-- What a frame does to a client with the keys of `registry`. -/
def apply (registry : KeyRegistry) (frame : Frame) : Standing :=
  match frame.frameType with
  | .authOk | .serverReset => { standing with state := .synchronizing }
  | .authFail =>
      { standing with state := .disconnected, intentionalDisconnect := true, socket := none }
  | .serverKeyRegistration => standing.startSynchronizing
  | .serverSync =>
      if registry.byId = ∅ then standing.startSynchronizing.enterReady
      else standing.startSynchronizing
  | .serverValue =>
      if registry.hasKeyId frame.keyId ∧ standing.state = .synchronizing then
        standing.enterReady
      else standing
  | _ => standing

theorem state_startSynchronizing :
    standing.startSynchronizing.state =
      if standing.state = .identifying then .synchronizing else standing.state := by
  rw [Standing.startSynchronizing]
  split <;> rfl

theorem apply_of_not_entersReady {standing : Standing} {registry : KeyRegistry} {frame : Frame}
    (h : ¬ standing.entersReady registry frame) :
    (standing.apply registry frame).topics = standing.topics ∧
      ((standing.apply registry frame).state = .ready → standing.state = .ready) := by
  have hstart : standing.startSynchronizing.topics = standing.topics ∧
      (standing.startSynchronizing.state = .ready → standing.state = .ready) := by
    rw [startSynchronizing]
    split
    · exact ⟨rfl, fun hready => ClientState.noConfusion hready⟩
    · exact ⟨rfl, id⟩
  rw [apply]
  cases htype : frame.frameType
  case authOk | authFail | serverReset => exact ⟨rfl, fun hready => ClientState.noConfusion hready⟩
  case serverKeyRegistration => exact hstart
  case serverSync =>
    have hne : registry.byId ≠ ∅ := by simpa [entersReady, htype] using h
    dsimp only
    rw [if_neg hne]
    exact hstart
  case serverValue =>
    dsimp only
    rw [if_neg (by simpa [entersReady, htype] using h)]
    exact ⟨rfl, id⟩
  all_goals exact ⟨rfl, id⟩

theorem flags_apply (standing : Standing) (registry : KeyRegistry) (frame : Frame) :
    (standing.apply registry frame).reconnectActive =
        (standing.reconnectActive && !standing.entersReady registry frame) ∧
      (standing.intentionalDisconnect = true →
        (standing.apply registry frame).intentionalDisconnect = true) := by
  have hstart : standing.startSynchronizing.reconnectActive = standing.reconnectActive ∧
      standing.startSynchronizing.intentionalDisconnect = standing.intentionalDisconnect := by
    rw [startSynchronizing]
    split <;> exact ⟨rfl, rfl⟩
  rw [apply, entersReady]
  cases htype : frame.frameType
  case serverKeyRegistration => simp [hstart]
  case serverSync =>
    by_cases hempty : registry.byId = ∅
    · simp [hempty, enterReady, hstart]
    · simp [hempty, hstart]
  case serverValue =>
    by_cases hready : registry.hasKeyId frame.keyId ∧ standing.state = .synchronizing
    · simp [hready, enterReady]
    · simp [hready]
  all_goals simp

end Standing

section Client

variable (client : Client) (frame : Frame)

theorem standing_getTopicInfo (keyId : UInt32) (path : StdString) :
    standing (client.getTopicInfo keyId path).1 = standing client := by
  obtain ⟨topicKeyCache, hcached⟩ := getTopicInfo_eq client keyId path
  rw [hcached]
  rfl

theorem standing_enterReady :
    standing client.enterReady.client = (standing client).enterReady := by
  rw [Client.enterReady, Standing.enterReady, Standing.announced,
    show (standing client).topics = client.topics from rfl]
  dsimp only
  split <;> rfl

theorem sent_enterReady : client.enterReady.sent = (standing client).announced.2 := by
  rw [Client.enterReady, Standing.announced,
    show (standing client).topics = client.topics from rfl]
  dsimp only
  split <;> rfl

theorem standing_startSynchronizing :
    standing client.startSynchronizing = (standing client).startSynchronizing := by
  rw [Client.startSynchronizing, Standing.startSynchronizing,
    show (standing client).state = client.state from rfl]
  split <;> rfl

theorem registry_startSynchronizing : client.startSynchronizing.registry = client.registry :=
  congrArg KeyStore.registry (keyStore_startSynchronizing client)

theorem standing_applyPending (path : StdString) :
    standing (client.applyPending frame path).client = standing client := by
  rw [Client.applyPending]
  split
  · rfl
  · exact standing_getTopicInfo
      { client with store := client.store.insert frame.keyId _ } frame.keyId path

theorem standing_handleServerKeyRegistration :
    standing (client.handleServerKeyRegistration frame).client =
      (standing client).startSynchronizing := by
  rw [← standing_startSynchronizing, Client.handleServerKeyRegistration]
  dsimp only
  split
  · split
    · rfl
    · exact standing_applyPending _ _ _
  · rfl

theorem standing_handleServerSync :
    standing client.handleServerSync.client =
      if client.registry.byId = ∅ then (standing client).startSynchronizing.enterReady
      else (standing client).startSynchronizing := by
  rw [← standing_startSynchronizing, ← registry_startSynchronizing, Client.handleServerSync]
  dsimp only
  split
  · exact standing_enterReady _
  · rfl

theorem standing_storeValue (entry : KeyEntry) :
    standing (client.storeValue frame entry).client =
      if client.state = .synchronizing then (standing client).enterReady
      else standing client := by
  have hcached := standing_getTopicInfo
    { client with store := client.store.insert frame.keyId frame.payload } frame.keyId entry.path
  rw [Client.storeValue]
  dsimp only
  split
  · next hstate =>
      rw [state_getTopicInfo] at hstate
      rw [if_pos hstate]
      exact (standing_enterReady _).trans (congrArg Standing.enterReady hcached)
  · next hstate =>
      rw [state_getTopicInfo] at hstate
      rw [if_neg hstate]
      exact hcached

theorem standing_handleServerValue :
    standing (client.handleServerValue frame).client =
      if client.registry.hasKeyId frame.keyId ∧ client.state = .synchronizing then
        (standing client).enterReady
      else standing client := by
  rw [Client.handleServerValue, KeyRegistry.getByKeyId, KeyRegistry.hasKeyId]
  cases client.registry.byId.lookup frame.keyId with
  | none => rfl
  | some entry =>
      simp only [Option.isSome_some, true_and]
      exact standing_storeValue client frame entry

theorem standing_handleServerKeyDelete :
    standing (client.handleServerKeyDelete frame).client = standing client := by
  rw [Client.handleServerKeyDelete]
  dsimp only
  cases client.registry.getByKeyId frame.keyId with
  | none => rfl
  | some entry => exact standing_getTopicInfo client frame.keyId entry.path

theorem moveElement_eq (start : StdString) (source target : Nat) :
    ∃ store, client.moveElement start source target = { client with store } := by
  rw [Client.moveElement]
  split
  · split
    · exact ⟨_, rfl⟩
    · exact ⟨_, rfl⟩
  · exact ⟨_, rfl⟩

theorem foldl_moveElement_eq (start : StdString) (source target : Nat → Nat) (indices : List Nat) :
    ∃ store, indices.foldl (fun client i => client.moveElement start (source i) (target i))
      client = { client with store } := by
  induction indices generalizing client with
  | nil => exact ⟨_, rfl⟩
  | cons i indices ih =>
      obtain ⟨store, hmove⟩ := moveElement_eq client start (source i) (target i)
      rw [List.foldl_cons, hmove]
      exact ih { client with store }

theorem standing_moveElements (keyId : UInt32) (path start : StdString) (source target : Nat → Nat)
    (indices : List Nat) :
    let moved := indices.foldl (fun client i => client.moveElement start (source i) (target i))
      (client.getTopicInfo keyId path).1
    standing moved = standing client ∧ moved.registry = client.registry := by
  obtain ⟨store, hmoved⟩ := foldl_moveElement_eq (client.getTopicInfo keyId path).1 start source
    target indices
  dsimp only
  rw [hmoved]
  exact ⟨standing_getTopicInfo client keyId path,
    congrArg KeyStore.registry (keyStore_getTopicInfo client keyId path)⟩

theorem standing_handleArrayShiftLeft :
    standing (client.handleArrayShiftLeft frame).client = standing client ∧
      (client.handleArrayShiftLeft frame).client.registry = client.registry := by
  rw [Client.handleArrayShiftLeft]
  cases client.registry.getByKeyId frame.keyId with
  | none => exact ⟨rfl, rfl⟩
  | some entry =>
      let cached := (client.getTopicInfo frame.keyId entry.path).1
      let count := Client.shiftCount frame (cached.storedLength frame.keyId)
      exact standing_moveElements client frame.keyId entry.path (Client.dropLength entry.path)
        (fun i => i + count.toNat) (fun i => i)
        (List.range (cached.storedLength frame.keyId - count).toNat)

theorem standing_handleArrayShiftRight :
    standing (client.handleArrayShiftRight frame).client = standing client ∧
      (client.handleArrayShiftRight frame).client.registry = client.registry := by
  rw [Client.handleArrayShiftRight]
  cases client.registry.getByKeyId frame.keyId with
  | none => exact ⟨rfl, rfl⟩
  | some entry =>
      let cached := (client.getTopicInfo frame.keyId entry.path).1
      let count := Client.shiftCount frame (cached.storedLength frame.keyId)
      exact standing_moveElements client frame.keyId entry.path (Client.dropLength entry.path)
        (fun i => i) (fun i => i + count.toNat)
        (List.range (cached.storedLength frame.keyId).toNat).reverse

/-- What becomes of the standing depends on the frame, and on the keys. -/
theorem standing_handleFrame :
    standing (client.handleFrame frame).client =
      (standing client).apply client.registry frame := by
  rw [Client.handleFrame, Standing.apply]
  cases frame.frameType
  case serverKeyRegistration => exact standing_handleServerKeyRegistration client frame
  case serverSync => exact standing_handleServerSync client
  case serverValue => exact standing_handleServerValue client frame
  case serverKeyDelete => exact standing_handleServerKeyDelete client frame
  case arrayShiftLeft => exact (standing_handleArrayShiftLeft client frame).1
  case arrayShiftRight => exact (standing_handleArrayShiftRight client frame).1
  all_goals rfl

/-- A client that becomes ready announces its topics last. -/
theorem enters_handleFrame {client : Client} {frame : Frame}
    (h : (standing client).entersReady client.registry frame) :
    ∃ (before : Standing) (earlier : List Frame),
      standing (client.handleFrame frame).client = before.enterReady ∧
      (client.handleFrame frame).sent = earlier ++ before.announced.2 ∧
      before.topics = client.topics ∧ before.socket = client.socket := by
  simp only [Standing.entersReady, decide_eq_true_eq] at h
  rw [Client.handleFrame]
  rcases h with ⟨htype, hempty⟩ | ⟨htype, hknown, hstate⟩
  · rw [htype]
    dsimp only
    have hregistry : client.startSynchronizing.registry.byId = ∅ := by
      rw [registry_startSynchronizing]
      exact hempty
    rw [Client.handleServerSync]
    dsimp only
    rw [if_pos hregistry]
    refine ⟨_, _, standing_enterReady _, congrArg _ (sent_enterReady _), ?_, ?_⟩
    · rw [standing_startSynchronizing, Standing.startSynchronizing]
      split <;> rfl
    · rw [standing_startSynchronizing, Standing.startSynchronizing]
      split <;> rfl
  · rw [htype]
    dsimp only
    rw [Client.handleServerValue, KeyRegistry.getByKeyId]
    rw [KeyRegistry.hasKeyId] at hknown
    obtain ⟨entry, hentry⟩ := Option.isSome_iff_exists.mp hknown
    rw [hentry]
    dsimp only
    have hcached := standing_getTopicInfo
      { client with store := client.store.insert frame.keyId frame.payload } frame.keyId entry.path
    have hsynchronizing : Client.state
        (Client.getTopicInfo { client with store := client.store.insert frame.keyId frame.payload }
          frame.keyId entry.path).1 = .synchronizing :=
      (congrArg Standing.state hcached).trans hstate
    rw [Client.storeValue]
    dsimp only
    rw [if_pos hsynchronizing]
    refine ⟨_, [], standing_enterReady _, sent_enterReady _, ?_, ?_⟩
    · exact congrArg Standing.topics hcached
    · exact congrArg Standing.socket hcached

/-- Of the frames that do not belong to a sync, none touches the registry. -/
theorem registry_handleFrame (h : isSyncFrame frame = false) :
    (client.handleFrame frame).client.registry = client.registry := by
  have htype : frame.frameType ≠ .serverKeyRegistration ∧ frame.frameType ≠ .serverSync ∧
      frame.frameType ≠ .serverValue ∧ frame.frameType ≠ .serverKeyDelete ∧
      frame.frameType ≠ .serverReset := by
    simpa [isSyncFrame, and_assoc] using h
  obtain ⟨hregistration, hsync, hvalue, hdelete, hreset⟩ := htype
  rw [Client.handleFrame]
  generalize hkind : frame.frameType = kind at *
  cases kind
  case serverKeyRegistration => exact absurd rfl hregistration
  case serverSync => exact absurd rfl hsync
  case serverValue => exact absurd rfl hvalue
  case serverKeyDelete => exact absurd rfl hdelete
  case serverReset => exact absurd rfl hreset
  case arrayShiftLeft => exact (standing_handleArrayShiftLeft client frame).2
  case arrayShiftRight => exact (standing_handleArrayShiftRight client frame).2
  all_goals rfl

end Client

end DanWs.ClientStanding
