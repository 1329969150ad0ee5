import DanWs.Clients
import DanWs.Replicas

/-!
The part of a client that holds keys and values: the registry, the store and the
values that wait for their keys. It goes its own way, whatever the state of the
connection and the topics. Seen as a replica, it follows the frames of a server
one by one.
-/

namespace DanWs.KeyStores

open DanWs.Clients
open DanWs.FiniteMaps
open DanWs.KeyPaths
open DanWs.Replicas
open DanWs.WireTypes

structure KeyStore where
  registry : KeyRegistry
  store : FiniteMap UInt32 Payload
  pendingValues : FiniteMap UInt32 Frame

def keyStore (client : Client) : KeyStore :=
  ⟨client.registry, client.store, client.pendingValues⟩

/-- The kinds of frames that the server keeps its clients up to date with. -/
def isSyncFrame (frame : Frame) : Bool :=
  frame.frameType = .serverKeyRegistration || frame.frameType = .serverSync ||
    frame.frameType = .serverValue || frame.frameType = .serverKeyDelete ||
    frame.frameType = .serverReset

namespace KeyStore

section Steps

variable (keys : KeyStore)

def applyPending (keyId : UInt32) : KeyStore :=
  match keys.pendingValues.lookup keyId with
  | none => keys
  | some pending =>
      { keys with
        store := keys.store.insert keyId pending.payload
        pendingValues := keys.pendingValues.erase keyId }

def register (frame : Frame) : KeyStore :=
  match frame.payload with
  | .string path =>
      match keys.registry.registerOne frame.keyId path frame.dataType with
      | .error _ => keys
      | .ok registry => { keys with registry }.applyPending frame.keyId
  | _ => keys

def storeValue (frame : Frame) : KeyStore :=
  match keys.registry.getByKeyId frame.keyId with
  | none => { keys with pendingValues := keys.pendingValues.insert frame.keyId frame }
  | some _ => { keys with store := keys.store.insert frame.keyId frame.payload }

def delete (keyId : UInt32) : KeyStore :=
  { keys with
    registry := (keys.registry.removeByKeyId keyId).1
    store := keys.store.erase keyId }

def reset : KeyStore := ⟨keys.registry.clear, ∅, ∅⟩

def apply (frame : Frame) : KeyStore :=
  match frame.frameType with
  | .serverKeyRegistration => keys.register frame
  | .serverValue => keys.storeValue frame
  | .serverKeyDelete => keys.delete frame.keyId
  | .serverReset => keys.reset
  | _ => keys

def receive (frames : List Frame) : KeyStore := frames.foldl apply keys

def replica : Replica StdString UInt32 Payload where
  pathOf keyId := (keys.registry.byId.lookup keyId).map KeyEntry.path
  idOf path := keys.registry.pathToId.lookup path
  valueOf keyId := keys.store.lookup keyId

end Steps

@[simp] theorem receive_nil (keys : KeyStore) : keys.receive [] = keys := rfl

@[simp] theorem receive_cons (keys : KeyStore) (frame : Frame) (frames : List Frame) :
    keys.receive (frame :: frames) = (keys.apply frame).receive frames := rfl

theorem receive_append (keys : KeyStore) (first second : List Frame) :
    keys.receive (first ++ second) = (keys.receive first).receive second :=
  List.foldl_append

theorem registry_applyPending (keys : KeyStore) (keyId : UInt32) :
    (keys.applyPending keyId).registry = keys.registry := by
  rw [applyPending]
  split <;> rfl

theorem registry_storeValue (keys : KeyStore) (frame : Frame) :
    (keys.storeValue frame).registry = keys.registry := by
  rw [storeValue]
  split <;> rfl

end KeyStore

section Client

variable (client : Client) (frame : Frame)

theorem getTopicInfo_eq (keyId : UInt32) (path : StdString) :
    ∃ topicKeyCache, (client.getTopicInfo keyId path).1 = { client with topicKeyCache } := by
  rw [Client.getTopicInfo]
  split
  · exact ⟨_, rfl⟩
  · exact ⟨_, rfl⟩

theorem keyStore_getTopicInfo (keyId : UInt32) (path : StdString) :
    keyStore (client.getTopicInfo keyId path).1 = keyStore client := by
  obtain ⟨topicKeyCache, hcached⟩ := getTopicInfo_eq client keyId path
  rw [hcached]
  rfl

theorem state_getTopicInfo (keyId : UInt32) (path : StdString) :
    (client.getTopicInfo keyId path).1.state = client.state := by
  obtain ⟨topicKeyCache, hcached⟩ := getTopicInfo_eq client keyId path
  rw [hcached]

theorem keyStore_enterReady : keyStore client.enterReady.client = keyStore client := by
  rw [Client.enterReady]
  dsimp only
  split <;> rfl

theorem keyStore_startSynchronizing : keyStore client.startSynchronizing = keyStore client := by
  rw [Client.startSynchronizing]
  split <;> rfl

theorem keyStore_applyPending (path : StdString) :
    keyStore (client.applyPending frame path).client =
      (keyStore client).applyPending frame.keyId := by
  rw [Client.applyPending, KeyStore.applyPending,
    show (keyStore client).pendingValues = client.pendingValues from rfl]
  cases client.pendingValues.lookup frame.keyId with
  | none => rfl
  | some pending =>
      have hcached := keyStore_getTopicInfo
        { client with store := client.store.insert frame.keyId pending.payload } frame.keyId path
      simp only [keyStore, KeyStore.mk.injEq] at hcached ⊢
      obtain ⟨hregistry, hstore, hpending⟩ := hcached
      exact ⟨hregistry, hstore, by rw [hpending]⟩

theorem keyStore_handleServerKeyRegistration :
    keyStore (client.handleServerKeyRegistration frame).client =
      (keyStore client).register frame := by
  have hstart := keyStore_startSynchronizing client
  rw [Client.handleServerKeyRegistration, KeyStore.register]
  dsimp only
  rw [← hstart]
  generalize client.startSynchronizing = started
  rw [show (keyStore started).registry = started.registry from rfl]
  cases frame.payload with
  | string path =>
      dsimp only
      cases started.registry.registerOne frame.keyId path frame.dataType with
      | error e => rfl
      | ok registry => exact keyStore_applyPending { started with registry } frame path
  | _ => rfl

theorem keyStore_handleServerSync :
    keyStore client.handleServerSync.client = keyStore client := by
  rw [Client.handleServerSync]
  dsimp only
  split
  · exact (keyStore_enterReady _).trans (keyStore_startSynchronizing client)
  · exact keyStore_startSynchronizing client

theorem keyStore_storeValue (entry : KeyEntry) :
    keyStore (client.storeValue frame entry).client =
      { keyStore client with store := client.store.insert frame.keyId frame.payload } := by
  rw [Client.storeValue]
  dsimp only
  split
  · exact (keyStore_enterReady _).trans (keyStore_getTopicInfo _ _ _)
  · exact keyStore_getTopicInfo _ _ _

theorem keyStore_handleServerValue :
    keyStore (client.handleServerValue frame).client = (keyStore client).storeValue frame := by
  rw [Client.handleServerValue, KeyStore.storeValue,
    show (keyStore client).registry = client.registry from rfl]
  cases client.registry.getByKeyId frame.keyId with
  | none => rfl
  | some entry => exact keyStore_storeValue client frame entry

theorem keyStore_handleServerKeyDelete :
    keyStore (client.handleServerKeyDelete frame).client =
      (keyStore client).delete frame.keyId := by
  have hcached : ∀ cached : Client, keyStore cached = keyStore client →
      (⟨(cached.registry.removeByKeyId frame.keyId).1, cached.store.erase frame.keyId,
        cached.pendingValues⟩ : KeyStore) = (keyStore client).delete frame.keyId := by
    intro cached h
    rw [← h]
    rfl
  rw [Client.handleServerKeyDelete]
  dsimp only
  cases client.registry.getByKeyId frame.keyId with
  | none => exact hcached client rfl
  | some entry => exact hcached _ (keyStore_getTopicInfo client frame.keyId entry.path)

/-- The keys and values of a client depend on the frames of the server alone. -/
theorem keyStore_handleFrame (h : isSyncFrame frame) :
    keyStore (client.handleFrame frame).client = (keyStore client).apply frame := by
  rw [Client.handleFrame, KeyStore.apply]
  simp only [isSyncFrame, Bool.or_eq_true, decide_eq_true_eq] at h
  rcases h with (((htype | htype) | htype) | htype) | htype
  all_goals rw [htype]
  · exact keyStore_handleServerKeyRegistration client frame
  · exact keyStore_handleServerSync client
  · exact keyStore_handleServerValue client frame
  · exact keyStore_handleServerKeyDelete client frame
  · rfl

theorem keyStore_receive (client : Client) {frames : List Frame}
    (h : ∀ frame ∈ frames, isSyncFrame frame) :
    keyStore (client.receive frames).1 = (keyStore client).receive frames := by
  induction frames generalizing client with
  | nil => rfl
  | cons frame frames ih =>
      rw [Client.receive]
      dsimp only
      rw [ih _ fun f hf => h f (List.mem_cons_of_mem _ hf),
        keyStore_handleFrame client frame (h frame List.mem_cons_self)]
      rfl

end Client

end DanWs.KeyStores
