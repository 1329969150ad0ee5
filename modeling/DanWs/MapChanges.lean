import DanWs.ClientStanding
import DanWs.Replication

namespace DanWs.MapChanges

open DanWs.Clients
open DanWs.ClientStanding
open DanWs.FiniteMaps
open DanWs.KeyPaths
open DanWs.Replication
open DanWs.WireTypes

structure Maps where
  registry : KeyRegistry
  store : FiniteMap UInt32 Payload
  pendingValues : FiniteMap UInt32 Frame
  topicKeyCache : FiniteMap UInt32 (Option TopicInfo)

def maps (client : Client) : Maps :=
  ⟨client.registry, client.store, client.pendingValues, client.topicKeyCache⟩

/-- The frame registers the path, and the registry accepts it. -/
structure Registers (registry : KeyRegistry) (frame : Frame) (path : StdString)
    (registered : KeyRegistry) : Prop where
  frameType : frame.frameType = .serverKeyRegistration
  payload : frame.payload = .string path
  accepted : registry.registerOne frame.keyId path frame.dataType = .ok registered

namespace Maps

variable (m : Maps)

/-- The first lookup of the topic of a key is remembered. -/
def classify (keyId : UInt32) (path : StdString) : Maps :=
  match m.topicKeyCache.lookup keyId with
  | some _ => m
  | none => { m with topicKeyCache := m.topicKeyCache.insert keyId (parseTopicKey path) }

def applyPending (keyId : UInt32) (path : StdString) : Maps :=
  match m.pendingValues.lookup keyId with
  | none => m
  | some pending =>
      let cached := { m with store := m.store.insert keyId pending.payload }.classify keyId path
      { cached with pendingValues := cached.pendingValues.erase keyId }

def delete (keyId : UInt32) : Maps :=
  { m with
    registry := (m.registry.removeByKeyId keyId).1
    store := m.store.erase keyId
    topicKeyCache := m.topicKeyCache.erase keyId }

/-- What a frame can do to the maps. An array shift stores nothing but values of
registered keys. -/
inductive Changes (frame : Frame) : Maps → Prop where
  | keep (hregister : ∀ path registered, ¬ Registers m.registry frame path registered)
      (hvalue : frame.frameType ≠ .serverValue) (hdelete : frame.frameType ≠ .serverKeyDelete)
      (hreset : frame.frameType ≠ .serverReset) : Changes frame m
  | register {path : StdString} {registered : KeyRegistry}
      (h : Registers m.registry frame path registered) :
      Changes frame ({ m with registry := registered }.applyPending frame.keyId path)
  | await (htype : frame.frameType = .serverValue)
      (hunknown : m.registry.getByKeyId frame.keyId = none) :
      Changes frame { m with pendingValues := m.pendingValues.insert frame.keyId frame }
  | store {entry : KeyEntry} (htype : frame.frameType = .serverValue)
      (hknown : m.registry.getByKeyId frame.keyId = some entry) :
      Changes frame
        ({ m with store := m.store.insert frame.keyId frame.payload }.classify
          frame.keyId entry.path)
  | shift {entry : KeyEntry} {store : FiniteMap UInt32 Payload}
      (htype : frame.frameType = .arrayShiftLeft ∨ frame.frameType = .arrayShiftRight)
      (hknown : m.registry.getByKeyId frame.keyId = some entry)
      (hstore : ∀ keyId ∈ store.keys, keyId ∈ m.store.keys ∨ keyId = frame.keyId ∨
        ∃ other held, m.registry.byId.lookup other = some held ∧ held.keyId = keyId) :
      Changes frame ({ m with store }.classify frame.keyId entry.path)
  | delete (htype : frame.frameType = .serverKeyDelete) : Changes frame (m.delete frame.keyId)
  | reset (htype : frame.frameType = .serverReset) :
      Changes frame ⟨m.registry.clear, ∅, ∅, ∅⟩

end Maps

section Frames

variable (client : Client) (frame : Frame)

theorem maps_getTopicInfo (keyId : UInt32) (path : StdString) :
    maps (client.getTopicInfo keyId path).1 = (maps client).classify keyId path := by
  rw [Client.getTopicInfo, Maps.classify,
    show (maps client).topicKeyCache = client.topicKeyCache from rfl]
  cases client.topicKeyCache.lookup keyId <;> rfl

theorem maps_enterReady : maps client.enterReady.client = maps client := by
  rw [Client.enterReady]
  dsimp only
  split <;> rfl

theorem maps_startSynchronizing : maps client.startSynchronizing = maps client := by
  rw [Client.startSynchronizing]
  split <;> rfl

theorem maps_applyPending (path : StdString) :
    maps (client.applyPending frame path).client =
      (maps client).applyPending frame.keyId path := by
  rw [Client.applyPending, Maps.applyPending,
    show (maps client).pendingValues = client.pendingValues from rfl]
  cases client.pendingValues.lookup frame.keyId with
  | none => rfl
  | some pending =>
      have hcached := maps_getTopicInfo
        { client with store := client.store.insert frame.keyId pending.payload } frame.keyId path
      exact congrArg
        (fun m : Maps => { m with pendingValues := m.pendingValues.erase frame.keyId }) hcached

theorem changes_handleServerKeyRegistration
    (htype : frame.frameType = .serverKeyRegistration) :
    (maps client).Changes frame (maps (client.handleServerKeyRegistration frame).client) := by
  have hstart := maps_startSynchronizing client
  have hregistry : client.startSynchronizing.registry = (maps client).registry :=
    congrArg Maps.registry hstart
  have hkeep : (∀ path registered, ¬ Registers (maps client).registry frame path registered) →
      (maps client).Changes frame (maps client.startSynchronizing) := by
    intro hregister
    rw [hstart]
    exact .keep hregister (by simp [htype]) (by simp [htype]) (by simp [htype])
  rw [Client.handleServerKeyRegistration]
  dsimp only
  cases hpayload : frame.payload with
  | string path =>
      dsimp only
      cases hregister : client.startSynchronizing.registry.registerOne frame.keyId path
          frame.dataType with
      | error e =>
          refine hkeep fun other registered h => ?_
          obtain rfl := Payload.string.inj (hpayload.symm.trans h.payload)
          rw [hregistry, h.accepted] at hregister
          cases hregister
      | ok registered =>
          dsimp only
          rw [maps_applyPending]
          have hregistered : maps { client.startSynchronizing with registry := registered } =
              { maps client with registry := registered } := by
            rw [← hstart]
            rfl
          rw [hregistered]
          rw [hregistry] at hregister
          exact .register ⟨htype, hpayload, hregister⟩
  | _ =>
      refine hkeep fun path registered h => ?_
      cases hpayload.symm.trans h.payload

theorem changes_handleServerValue (htype : frame.frameType = .serverValue) :
    (maps client).Changes frame (maps (client.handleServerValue frame).client) := by
  rw [Client.handleServerValue]
  cases hlookup : client.registry.getByKeyId frame.keyId with
  | none => exact .await htype hlookup
  | some entry =>
      have hstored : maps (client.storeValue frame entry).client =
          { maps client with store := client.store.insert frame.keyId frame.payload }.classify
            frame.keyId entry.path := by
        rw [Client.storeValue]
        dsimp only
        split
        · rw [maps_enterReady]
          exact maps_getTopicInfo _ _ _
        · exact maps_getTopicInfo _ _ _
      dsimp only
      rw [hstored]
      exact .store htype hlookup

theorem erase_insert_self {κ ν : Type*} [DecidableEq κ] (m : FiniteMap κ ν) (key : κ)
    (value : ν) : (m.insert key value).erase key = m.erase key := by
  apply Finmap.ext_lookup
  intro other
  rw [lookup_erase_eq_ite, lookup_erase_eq_ite, lookup_insert_eq_ite]
  split <;> rfl

theorem changes_handleServerKeyDelete (htype : frame.frameType = .serverKeyDelete) :
    (maps client).Changes frame (maps (client.handleServerKeyDelete frame).client) := by
  have hdeleted : maps (client.handleServerKeyDelete frame).client =
      (maps client).delete frame.keyId := by
    rw [Client.handleServerKeyDelete]
    cases client.registry.getByKeyId frame.keyId with
    | none => rfl
    | some entry =>
        have hcached := maps_getTopicInfo client frame.keyId entry.path
        refine (congrArg (fun m : Maps => m.delete frame.keyId) hcached).trans ?_
        rw [Maps.classify]
        split
        · rfl
        · exact congrArg (fun cache => Maps.mk (client.registry.removeByKeyId frame.keyId).1
            (client.store.erase frame.keyId) client.pendingValues cache)
            (erase_insert_self client.topicKeyCache frame.keyId (parseTopicKey entry.path))
  rw [hdeleted]
  exact .delete htype

theorem keys_moveElement (start : StdString) (source target : Nat) :
    ∀ keyId ∈ (client.moveElement start source target).store.keys, keyId ∈ client.store.keys ∨
      ∃ other held, client.registry.byId.lookup other = some held ∧ held.keyId = keyId := by
  intro keyId hkeyId
  rw [Client.moveElement] at hkeyId
  split at hkeyId
  · next src dst hsrc hdst =>
      split at hkeyId
      · rw [keys_insert, Finset.mem_insert] at hkeyId
        rcases hkeyId with rfl | hkeyId
        · obtain ⟨other, -, hlookup⟩ := Option.bind_eq_some_iff.mp hdst
          exact Or.inr ⟨other, dst, hlookup, rfl⟩
        · exact Or.inl hkeyId
      · exact Or.inl hkeyId
  · exact Or.inl hkeyId

theorem maps_moveElements (start : StdString) (source target : Nat → Nat) (indices : List Nat) :
    ∃ store, maps (indices.foldl
        (fun client i => client.moveElement start (source i) (target i)) client) =
          { maps client with store } ∧
      ∀ keyId ∈ store.keys, keyId ∈ client.store.keys ∨
        ∃ other held, client.registry.byId.lookup other = some held ∧ held.keyId = keyId := by
  induction indices generalizing client with
  | nil => exact ⟨client.store, rfl, fun keyId hkeyId => Or.inl hkeyId⟩
  | cons i indices ih =>
      obtain ⟨moved, hmoved⟩ := moveElement_eq client start (source i) (target i)
      have hkeys := keys_moveElement client start (source i) (target i)
      obtain ⟨store, hstore, hmem⟩ := ih { client with store := moved }
      rw [hmoved] at hkeys
      refine ⟨store, ?_, fun keyId hkeyId => ?_⟩
      · rw [List.foldl_cons, hmoved, hstore]
        rfl
      · rcases hmem keyId hkeyId with hmem | hmem
        · exact hkeys keyId hmem
        · exact Or.inr hmem

theorem classify_store (m : Maps) (keyId : UInt32) (path : StdString)
    (store : FiniteMap UInt32 Payload) :
    { m with store }.classify keyId path = { m.classify keyId path with store } := by
  rw [Maps.classify, Maps.classify]
  dsimp only
  cases m.topicKeyCache.lookup keyId <;> rfl

theorem store_classify (m : Maps) (keyId : UInt32) (path : StdString) :
    (m.classify keyId path).store = m.store ∧ (m.classify keyId path).registry = m.registry ∧
      (m.classify keyId path).pendingValues = m.pendingValues := by
  rw [Maps.classify]
  split <;> exact ⟨rfl, rfl, rfl⟩

/-- What an array shift leaves behind: the rounds, and then at most one value of
the key of the frame. -/
theorem changes_shift {entry : KeyEntry} {cached moved after : Client}
    (htype : frame.frameType = .arrayShiftLeft ∨ frame.frameType = .arrayShiftRight)
    (hknown : client.registry.getByKeyId frame.keyId = some entry)
    (hcached : maps cached = (maps client).classify frame.keyId entry.path)
    (hmoved : ∃ store, maps moved = { maps cached with store } ∧
      ∀ keyId ∈ store.keys, keyId ∈ cached.store.keys ∨
        ∃ other held, cached.registry.byId.lookup other = some held ∧ held.keyId = keyId)
    (hafter : ∃ store, maps after = { maps moved with store } ∧
      ∀ keyId ∈ store.keys, keyId ∈ moved.store.keys ∨ keyId = frame.keyId) :
    (maps client).Changes frame (maps after) := by
  obtain ⟨hstore, hregistry, -⟩ := store_classify (maps client) frame.keyId entry.path
  rw [← hcached] at hstore hregistry
  obtain ⟨first, hfirst, hfirstKeys⟩ := hmoved
  obtain ⟨second, hsecond, hsecondKeys⟩ := hafter
  have hmovedStore : moved.store = first := congrArg Maps.store hfirst
  have hmaps : maps after = { maps client with store := second }.classify frame.keyId
      entry.path := by
    rw [classify_store, ← hcached, hsecond, hfirst]
  rw [hmaps]
  refine .shift htype hknown fun keyId hkeyId => ?_
  rcases hsecondKeys keyId hkeyId with hkeyId | rfl
  · rw [hmovedStore] at hkeyId
    rcases hfirstKeys keyId hkeyId with hkeyId | hheld
    · rw [show cached.store = _ from hstore] at hkeyId
      exact Or.inl hkeyId
    · rw [show cached.registry = _ from hregistry] at hheld
      exact Or.inr (Or.inr hheld)
  · exact Or.inr (Or.inl rfl)

theorem changes_keep (m : Maps) {frame : Frame}
    (hregistration : frame.frameType ≠ .serverKeyRegistration)
    (hvalue : frame.frameType ≠ .serverValue) (hdelete : frame.frameType ≠ .serverKeyDelete)
    (hreset : frame.frameType ≠ .serverReset) : m.Changes frame m :=
  .keep (fun _ _ h => hregistration h.frameType) hvalue hdelete hreset

theorem changes_handleArrayShiftLeft (htype : frame.frameType = .arrayShiftLeft) :
    (maps client).Changes frame (maps (client.handleArrayShiftLeft frame).client) := by
  rw [Client.handleArrayShiftLeft]
  cases hknown : client.registry.getByKeyId frame.keyId with
  | none =>
      exact changes_keep _ (by simp [htype]) (by simp [htype]) (by simp [htype])
        (by simp [htype])
  | some entry =>
      let cached := (client.getTopicInfo frame.keyId entry.path).1
      let count := Client.shiftCount frame (cached.storedLength frame.keyId)
      have hmoved := maps_moveElements cached (Client.dropLength entry.path)
        (fun i => i + count.toNat) (fun i => i)
        (List.range (cached.storedLength frame.keyId - count).toNat)
      have hlast : ∀ (store : FiniteMap UInt32 Payload) (length : Payload),
          ∀ keyId ∈ (store.insert frame.keyId length).keys,
            keyId ∈ store.keys ∨ keyId = frame.keyId := by
        intro store length keyId hkeyId
        rw [keys_insert, Finset.mem_insert] at hkeyId
        exact hkeyId.symm
      exact changes_shift client frame (Or.inl htype) hknown
        (maps_getTopicInfo client frame.keyId entry.path) hmoved ⟨_, rfl, hlast _ _⟩

theorem changes_handleArrayShiftRight (htype : frame.frameType = .arrayShiftRight) :
    (maps client).Changes frame (maps (client.handleArrayShiftRight frame).client) := by
  rw [Client.handleArrayShiftRight]
  cases hknown : client.registry.getByKeyId frame.keyId with
  | none =>
      exact changes_keep _ (by simp [htype]) (by simp [htype]) (by simp [htype])
        (by simp [htype])
  | some entry =>
      let cached := (client.getTopicInfo frame.keyId entry.path).1
      let count := Client.shiftCount frame (cached.storedLength frame.keyId)
      have hmoved := maps_moveElements cached (Client.dropLength entry.path)
        (fun i => i) (fun i => i + count.toNat)
        (List.range (cached.storedLength frame.keyId).toNat).reverse
      exact changes_shift client frame (Or.inr htype) hknown
        (maps_getTopicInfo client frame.keyId entry.path) hmoved
        ⟨_, rfl, fun keyId hkeyId => Or.inl hkeyId⟩

/-- Every frame changes the maps in one of these ways. -/
theorem changes_handleFrame :
    (maps client).Changes frame (maps (client.handleFrame frame).client) := by
  have hkeep := @changes_keep (maps client) frame
  rw [Client.handleFrame]
  cases htype : frame.frameType
  case serverKeyRegistration => exact changes_handleServerKeyRegistration client frame htype
  case serverValue => exact changes_handleServerValue client frame htype
  case serverKeyDelete => exact changes_handleServerKeyDelete client frame htype
  case serverReset => exact .reset htype
  case arrayShiftLeft => exact changes_handleArrayShiftLeft client frame htype
  case arrayShiftRight => exact changes_handleArrayShiftRight client frame htype
  case serverSync =>
      have hsync : maps client.handleServerSync.client = maps client := by
        rw [Client.handleServerSync]
        dsimp only
        split
        · exact (maps_enterReady _).trans (maps_startSynchronizing client)
        · exact maps_startSynchronizing client
      dsimp only
      rw [hsync]
      exact hkeep (by simp [htype]) (by simp [htype]) (by simp [htype]) (by simp [htype])
  all_goals exact hkeep (by simp [htype]) (by simp [htype]) (by simp [htype]) (by simp [htype])

end Frames

section Registrations

variable {m m' : Maps} {frame : Frame}

/-- An accepted registration is the only thing that its frame can do. -/
theorem Registers.eq_of_changes {path : StdString} {registered : KeyRegistry}
    (h : Registers m.registry frame path registered) (hchanges : m.Changes frame m') :
    m' = { m with registry := registered }.applyPending frame.keyId path := by
  have htype := h.frameType
  cases hchanges with
  | keep hnone => exact absurd h (hnone path registered)
  | register hother =>
      have hpath := Payload.string.inj (h.payload.symm.trans hother.payload)
      subst hpath
      rw [Except.ok.inj (h.accepted.symm.trans hother.accepted)]
  | shift hshift => rcases hshift with hshift | hshift <;> cases htype.symm.trans hshift
  | await hother | store hother | delete hother | reset hother =>
      cases htype.symm.trans hother

theorem Registers.hasKeyId_iff {registry registered : KeyRegistry} {path : StdString}
    (h : Registers registry frame path registered) (keyId : UInt32) :
    registered.hasKeyId keyId ↔ keyId = frame.keyId ∨ registry.hasKeyId keyId := by
  obtain ⟨-, -, hbyId, -⟩ := registerOne_ok h.accepted
  rw [KeyRegistry.hasKeyId, KeyRegistry.hasKeyId, hbyId, lookup_insert_eq_ite]
  split
  · next heq => simp [heq]
  · next hne => simp [hne]

end Registrations

end DanWs.MapChanges
