import DanWs.ClientHistories
import DanWs.TopicRouting

/-!
The handling of a frame by a client whose `TopicInfo` pointers are references to
the slots of `topicKeyCache_`. Such a reference is resolved whenever it is read,
also by the callbacks that are handed the user key behind it, and a slot may be
gone by then. The application's callbacks run at their places. The connection
delivers no message in the middle of another one, and the frames that the client
sends are left out.
-/

namespace DanWs.TopicReferences

open DanWs.ClientHistories
open DanWs.Clients
open DanWs.FiniteMaps
open DanWs.KeyPaths
open DanWs.TopicRouting
open DanWs.WireTypes

/-- `live` tells whether every read of a `TopicInfo` has found its slot. -/
structure Progress where
  client : Client
  notices : List Notice
  live : Bool

def begin (client : Client) : Progress := ⟨client, [], true⟩

def resolve (client : Client) (slot : UInt32) : Option TopicInfo :=
  (client.topicKeyCache.lookup slot).join

/-- The pointer is null, or leads to the slot of the key. -/
def getTopicInfo (client : Client) (keyId : UInt32) (path : StdString) :
    Client × Option UInt32 :=
  match client.topicKeyCache.lookup keyId with
  | some info => (client, info.map fun _ => keyId)
  | none =>
      let info := parseTopicKey path
      ({ client with topicKeyCache := client.topicKeyCache.insert keyId info },
        info.map fun _ => keyId)

section Handling

-- the callbacks that are registered for a notice when it is made
variable (callbacks : Notice → List Callback)

def emit (progress : Progress) (notice : Notice) : Progress :=
  { progress with
    client := (callbacks notice).foldl (fun client callback => callback.run client) progress.client
    notices := progress.notices ++ [notice] }

/-- A callback of a topic handle reads the user key behind the reference. -/
def callWithKey (slot : UInt32) (progress : Progress) (callback : Callback) : Progress :=
  { progress with
    client := callback.run progress.client
    live := progress.live && (resolve progress.client slot).isSome }

def dangling (progress : Progress) : Progress := { progress with live := false }

/-- The handle that a reference leads to is looked up. `find` compares the index behind
the reference with the keys of the map, and does not read it if there are none. -/
def lookUp (progress : Progress) (slot : UInt32)
    (found : TopicInfo → StdString → Progress) : Progress :=
  if progress.client.topics.indexToTopic = ∅ then progress
  else
    match resolve progress.client slot with
    | none => dangling progress
    | some info =>
        match handleOf progress.client info with
        | none => progress
        | some topicName => found info topicName

/-- `_notify(topicInfo->userKey, value)` of the handle, or `onReceive_` without a topic. -/
def notify (progress : Progress) (topicInfo : Option UInt32) (path : StdString)
    (value : Payload) : Progress :=
  match topicInfo with
  | none => emit callbacks progress (.onReceive path value)
  | some slot =>
      lookUp progress slot fun info topicName =>
        let notice := .notifyTopic topicName info.userKey value
        (callbacks notice).foldl (callWithKey slot)
          { progress with notices := progress.notices ++ [notice] }

/-- The same for an array, whose callbacks are handed a copy of the user key. -/
def notifyLength (progress : Progress) (topicInfo : Option UInt32) (path : StdString)
    (length : Int) : Progress :=
  let payload := .int32 (Int32.ofInt length)
  match topicInfo with
  | none => emit callbacks progress (.onReceive (Client.dropLength path ++ str ".length") payload)
  | some slot =>
      lookUp progress slot fun info topicName =>
        emit callbacks progress
          (.notifyTopic topicName (Client.dropLength info.userKey ++ str ".length") payload)

def notifyReady (progress : Progress) : Progress :=
  let ready := emit callbacks
    { progress with client := { progress.client with state := .ready } } .onReady
  if ready.client.reconnectActive then
    emit callbacks { ready with client := { ready.client with reconnectActive := false } }
      .onReconnect
  else ready

def announce (progress : Progress) : Progress :=
  let client := progress.client
  if client.topics.subscriptions = ∅ then progress
  else
    { progress with
      client := { client with topics := (client.topics.sendTopicSync client.isOpen).1 } }

def enterReady (progress : Progress) : Progress := announce (notifyReady callbacks progress)

def handleAuthFail (client : Client) (frame : Frame) : Progress :=
  let rejected := emit callbacks (begin { client with intentionalDisconnect := true })
    (.onError (str "AUTH_REJECTED") (Client.textOf frame (str "Authentication failed")))
  emit callbacks { rejected with client := { rejected.client.cleanup with state := .disconnected } }
    .onDisconnect

def applyPending (client : Client) (frame : Frame) (path : StdString) : Progress :=
  match client.pendingValues.lookup frame.keyId with
  | none => begin client
  | some pending =>
      let stored := { client with store := client.store.insert frame.keyId pending.payload }
      let (cached, topicInfo) := getTopicInfo stored frame.keyId path
      let notified := notify callbacks (begin cached) topicInfo path pending.payload
      { notified with
        client := { notified.client with
          pendingValues := notified.client.pendingValues.erase frame.keyId } }

def handleServerKeyRegistration (client : Client) (frame : Frame) : Progress :=
  let started := client.startSynchronizing
  match frame.payload with
  | .string path =>
      match started.registry.registerOne frame.keyId path frame.dataType with
      | .error _ => begin started
      | .ok registry => applyPending callbacks { started with registry } frame path
  | _ => begin started

def handleServerSync (client : Client) : Progress :=
  let started := client.startSynchronizing
  if started.registry.byId = ∅ then enterReady callbacks (begin started) else begin started

def handleServerValue (client : Client) (frame : Frame) : Progress :=
  match client.registry.getByKeyId frame.keyId with
  | none => begin { client with pendingValues := client.pendingValues.insert frame.keyId frame }
  | some entry =>
      let stored := { client with store := client.store.insert frame.keyId frame.payload }
      let (cached, topicInfo) := getTopicInfo stored frame.keyId entry.path
      let notified := notify callbacks (begin cached) topicInfo entry.path frame.payload
      if notified.client.state = .synchronizing then enterReady callbacks notified else notified

def handleArrayShiftLeft (client : Client) (frame : Frame) : Progress :=
  match client.registry.getByKeyId frame.keyId with
  | none => begin client
  | some lengthEntry =>
      let (cached, topicInfo) := getTopicInfo client frame.keyId lengthEntry.path
      let start := Client.dropLength lengthEntry.path
      let currentLength := cached.storedLength frame.keyId
      let count := Client.shiftCount frame currentLength
      let moved := (List.range (currentLength - count).toNat).foldl
        (fun client i => client.moveElement start (i + count.toNat) i) cached
      let newLength := currentLength - count
      let stored :=
        { moved with store := moved.store.insert frame.keyId (.int32 (Int32.ofInt newLength)) }
      notifyLength callbacks (begin stored) topicInfo lengthEntry.path newLength

def handleArrayShiftRight (client : Client) (frame : Frame) : Progress :=
  match client.registry.getByKeyId frame.keyId with
  | none => begin client
  | some lengthEntry =>
      let (cached, topicInfo) := getTopicInfo client frame.keyId lengthEntry.path
      let start := Client.dropLength lengthEntry.path
      let currentLength := cached.storedLength frame.keyId
      let count := Client.shiftCount frame currentLength
      let moved := (List.range currentLength.toNat).reverse.foldl
        (fun client i => client.moveElement start i (i + count.toNat)) cached
      notifyLength callbacks (begin moved) topicInfo lengthEntry.path currentLength

/-- The slot of the key is erased before the pointer is read. -/
def handleServerKeyDelete (client : Client) (frame : Frame) : Progress :=
  let (cached, deletedTopicInfo) :=
    match client.registry.getByKeyId frame.keyId with
    | none => (client, none)
    | some entry => getTopicInfo client frame.keyId entry.path
  let deletedPath := ((client.registry.getByKeyId frame.keyId).map KeyEntry.path).getD []
  let deleted :=
    { cached with
      registry := (cached.registry.removeByKeyId frame.keyId).1
      store := cached.store.erase frame.keyId
      topicKeyCache := cached.topicKeyCache.erase frame.keyId }
  if deletedPath = [] then begin deleted
  else notify callbacks (begin deleted) deletedTopicInfo deletedPath .null

def handleServerFlushEnd (client : Client) : Progress :=
  let updated := emit callbacks (begin client) .onUpdate
  ((IterationOrder.sorted StdString).enumerate updated.client.topics.topicHandles.keys).foldl
    (fun progress topicName => emit callbacks progress (.flushTopic topicName)) updated

/-- Frames of the other types read no `TopicInfo` and end with their callbacks. -/
def handleFrame (client : Client) (frame : Frame) : Progress :=
  match frame.frameType with
  | .authFail => handleAuthFail callbacks client frame
  | .serverKeyRegistration => handleServerKeyRegistration callbacks client frame
  | .serverSync => handleServerSync callbacks client
  | .serverValue => handleServerValue callbacks client frame
  | .arrayShiftLeft => handleArrayShiftLeft callbacks client frame
  | .arrayShiftRight => handleArrayShiftRight callbacks client frame
  | .serverFlushEnd => handleServerFlushEnd callbacks client
  | .serverKeyDelete => handleServerKeyDelete callbacks client frame
  | _ =>
      (client.handleFrame frame).notices.foldl (emit callbacks)
        (begin (client.handleFrame frame).client)

end Handling

end DanWs.TopicReferences
