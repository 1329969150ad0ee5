import DanWs.ClientTopics

/-!
The client: what it makes of the frames of a server. Frames that it hands to
its connection and callbacks that it makes are returned, in order. A callback is
recorded and not run, so whatever it does to the client is a call of its own.
-/

namespace DanWs.Clients

open DanWs.ClientTopics
open DanWs.FiniteMaps
open DanWs.KeyPaths
open DanWs.Strings
open DanWs.TopicParsing
open DanWs.WireTypes

inductive ClientState where
  | disconnected
  | connecting
  | identifying
  | authorizing
  | synchronizing
  | ready
  | reconnecting
  deriving DecidableEq, Repr

structure TopicInfo where
  topicIdx : Int
  userKey : StdString
  deriving DecidableEq, Repr

/-- A call of the callbacks of one kind. -/
inductive Notice where
  | onReady
  | onReconnect
  | onDisconnect
  | onUpdate
  | onReceive (path : StdString) (value : Payload)
  | onError (code message : StdString)
  /-- `_notify` of a topic handle. -/
  | notifyTopic (topicName userKey : StdString) (value : Payload)
  /-- `_flushUpdate` of a topic handle. -/
  | flushTopic (topicName : StdString)
  /-- Callbacks that are chosen by reading a `TopicInfo` behind its erasure. -/
  | danglingTopicInfo
  deriving DecidableEq, Repr

/-- `socket` tells whether there is a `ws_`, and whether it is open. Of the
reconnect engine only `isActive()` is kept. -/
structure Client where
  state : ClientState
  intentionalDisconnect : Bool
  socket : Option Bool
  registry : KeyRegistry
  store : FiniteMap UInt32 Payload
  pendingValues : FiniteMap UInt32 Frame
  topicKeyCache : FiniteMap UInt32 (Option TopicInfo)
  topics : TopicClient
  reconnectActive : Bool

/-- What processing a frame results in: the client, the frames handed to
`sendRaw`, the callbacks, and the exception that ended it, if one did. The
parser, which calls `handleFrame`, drops that exception. -/
structure Handled where
  client : Client
  sent : List Frame
  notices : List Notice
  thrown : Option Fault

/-- A path that is read as `t.<idx>.<userKey>`. -/
def parseTopicKey (path : StdString) : Option TopicInfo :=
  if 2 < path.length ∧ str "t." <+: path then
    (find [0x2E] (path.drop 2)).bind fun length =>
      match stoi (substr path 2 length) with
      | .ok idx => some ⟨idx, path.drop (2 + length + 1)⟩
      | .error _ => none
  else none

namespace Client

def new : Client :=
  ⟨.disconnected, false, none, KeyRegistry.empty, ∅, ∅, ∅, TopicClient.new, false⟩

section Access

variable (client : Client)

def get (key : StdString) : Payload :=
  match client.registry.getByPath key with
  | none => .null
  | some entry => (client.store.lookup entry.keyId).getD .null

def keys [HashOrder StdString] : List StdString := client.registry.paths

def isOpen : Bool := client.socket = some true

def handled : Handled := ⟨client, [], [], none⟩

def cleanup : Client := { client with socket := none }

def getTopicInfo (keyId : UInt32) (path : StdString) : Client × Option TopicInfo :=
  match client.topicKeyCache.lookup keyId with
  | some info => (client, info)
  | none =>
      let info := parseTopicKey path
      ({ client with topicKeyCache := client.topicKeyCache.insert keyId info }, info)

/-- The callbacks for a value: those of the topic handle, if the key belongs to
a topic, and `onReceive_` otherwise. -/
def notify (info : Option TopicInfo) (path : StdString) (value : Payload) : List Notice :=
  match info with
  | none => [.onReceive path value]
  | some info =>
      match client.topics.indexToTopic.lookup info.topicIdx with
      | none => []
      | some topicName =>
          if client.topics.topicHandles.lookup topicName = none then []
          else [.notifyTopic topicName info.userKey value]

/-- The statements by which the client becomes `Ready`. -/
def enterReady : Handled :=
  let ready := { client with state := .ready, reconnectActive := false }
  let notices := .onReady :: if client.reconnectActive then [.onReconnect] else []
  if client.topics.subscriptions = ∅ then ⟨ready, [], notices, none⟩
  else
    let (topics, frames) := client.topics.sendTopicSync client.isOpen
    ⟨{ ready with topics }, frames, notices, none⟩

/-- The first frame of a sync ends the identification. -/
def startSynchronizing : Client :=
  if client.state = .identifying then { client with state := .synchronizing } else client

end Access

section Frames

variable (client : Client) (frame : Frame)

def textOf (frame : Frame) (default : StdString) : StdString :=
  match frame.payload with
  | .string message => message
  | _ => default

def handleAuthFail : Handled :=
  let closed := { client with intentionalDisconnect := true }.cleanup
  ⟨{ closed with state := .disconnected }, [],
    [.onError (str "AUTH_REJECTED") (textOf frame (str "Authentication failed")), .onDisconnect],
    none⟩

def applyPending (path : StdString) : Handled :=
  match client.pendingValues.lookup frame.keyId with
  | none => client.handled
  | some pending =>
      let stored := { client with store := client.store.insert frame.keyId pending.payload }
      let (cached, info) := stored.getTopicInfo frame.keyId path
      ⟨{ cached with pendingValues := cached.pendingValues.erase frame.keyId }, [],
        cached.notify info path pending.payload, none⟩

def handleServerKeyRegistration : Handled :=
  let started := client.startSynchronizing
  match frame.payload with
  | .string path =>
      match started.registry.registerOne frame.keyId path frame.dataType with
      | .error e => { started.handled with thrown := some e }
      | .ok registry => { started with registry }.applyPending frame path
  | _ => started.handled

def handleServerSync : Handled :=
  let started := client.startSynchronizing
  let answer := if started.state = .ready then [] else [signalFrame .clientReady]
  if started.registry.byId = ∅ then
    { started.enterReady with sent := answer ++ started.enterReady.sent }
  else { started.handled with sent := answer }

def keyRequestFrame (keyId : UInt32) : Frame := ⟨.clientKeyRequest, keyId, .null, .null⟩

def storeValue (entry : KeyEntry) : Handled :=
  let stored := { client with store := client.store.insert frame.keyId frame.payload }
  let (cached, info) := stored.getTopicInfo frame.keyId entry.path
  let notices := cached.notify info entry.path frame.payload
  if cached.state = .synchronizing then
    { cached.enterReady with notices := notices ++ cached.enterReady.notices }
  else { cached.handled with notices }

def handleServerValue : Handled :=
  match client.registry.getByKeyId frame.keyId with
  | none =>
      ⟨{ client with pendingValues := client.pendingValues.insert frame.keyId frame },
        [keyRequestFrame frame.keyId], [], none⟩
  | some entry => client.storeValue frame entry

def handleServerKeyDelete : Handled :=
  let (cached, info) :=
    match client.registry.getByKeyId frame.keyId with
    | none => (client, none)
    | some entry => client.getTopicInfo frame.keyId entry.path
  let deletedPath := ((client.registry.getByKeyId frame.keyId).map KeyEntry.path).getD []
  let deleted :=
    { cached with
      registry := (cached.registry.removeByKeyId frame.keyId).1
      store := cached.store.erase frame.keyId
      topicKeyCache := cached.topicKeyCache.erase frame.keyId }
  let notices :=
    if deletedPath = [] then []
    else
      match info with
      | none => [.onReceive deletedPath .null]
      -- the pointer leads to the entry of `topicKeyCache_` that has just been erased, and
      -- `find` reads a key through it if the map has any
      | some _ => if client.topics.indexToTopic = ∅ then [] else [.danglingTopicInfo]
  { deleted.handled with notices }

def handleServerReset : Handled :=
  { client with
    registry := client.registry.clear
    store := ∅
    pendingValues := ∅
    topicKeyCache := ∅
    state := .synchronizing }.handled

end Frames

section Arrays

variable (client : Client)

def int32Of : Payload → Int
  | .int32 value => value.toInt
  | _ => 0

def elementPath (start : StdString) (index : Nat) : StdString := start ++ str "." ++ decimal index

/-- One round of an array shift. -/
def moveElement (start : StdString) (source target : Nat) : Client :=
  match client.registry.getByPath (elementPath start source),
      client.registry.getByPath (elementPath start target) with
  | some src, some dst =>
      match client.store.lookup src.keyId with
      | some value => { client with store := client.store.insert dst.keyId value }
      | none => client
  | _, _ => client

def storedLength (keyId : UInt32) : Int :=
  ((client.store.lookup keyId).map int32Of).getD 0

def shiftCount (frame : Frame) (currentLength : Int) : Int :=
  max 0 (min (int32Of frame.payload) currentLength)

/-- `substr(0, size() - 7)`, which takes off the text `.length`. -/
def dropLength (path : StdString) : StdString := substr path 0 (sizeSub path.length 7)

def notifyLength (info : Option TopicInfo) (path : StdString) (length : Int) : List Notice :=
  client.notify
    (info.map fun info => { info with userKey := dropLength info.userKey ++ str ".length" })
    (dropLength path ++ str ".length") (.int32 (Int32.ofInt length))

/-- The loops run over `int` indices, which are taken to be unbounded here. -/
def handleArrayShiftLeft (frame : Frame) : Handled :=
  match client.registry.getByKeyId frame.keyId with
  | none => client.handled
  | some lengthEntry =>
      let (cached, info) := client.getTopicInfo frame.keyId lengthEntry.path
      let start := dropLength lengthEntry.path
      let currentLength := cached.storedLength frame.keyId
      let count := shiftCount frame currentLength
      let moved := (List.range (currentLength - count).toNat).foldl
        (fun client i => client.moveElement start (i + count.toNat) i) cached
      let newLength := currentLength - count
      let stored :=
        { moved with store := moved.store.insert frame.keyId (.int32 (Int32.ofInt newLength)) }
      { stored.handled with notices := stored.notifyLength info lengthEntry.path newLength }

def handleArrayShiftRight (frame : Frame) : Handled :=
  match client.registry.getByKeyId frame.keyId with
  | none => client.handled
  | some lengthEntry =>
      let (cached, info) := client.getTopicInfo frame.keyId lengthEntry.path
      let start := dropLength lengthEntry.path
      let currentLength := cached.storedLength frame.keyId
      let count := shiftCount frame currentLength
      let moved := (List.range currentLength.toNat).reverse.foldl
        (fun client i => client.moveElement start i (i + count.toNat)) cached
      { moved.handled with notices := moved.notifyLength info lengthEntry.path currentLength }

end Arrays

def handleFrame (client : Client) (frame : Frame) : Handled :=
  match frame.frameType with
  | .authOk => { client with state := .synchronizing }.handled
  | .authFail => client.handleAuthFail frame
  | .serverKeyRegistration => client.handleServerKeyRegistration frame
  | .serverSync => client.handleServerSync
  | .serverValue => client.handleServerValue frame
  | .arrayShiftLeft => client.handleArrayShiftLeft frame
  | .arrayShiftRight => client.handleArrayShiftRight frame
  | .serverFlushEnd =>
      { client.handled with
        notices := .onUpdate ::
          ((IterationOrder.sorted StdString).enumerate client.topics.topicHandles.keys).map
            .flushTopic }
  | .serverKeyDelete => client.handleServerKeyDelete frame
  | .serverReset => client.handleServerReset
  | .error =>
      { client.handled with
        notices := [.onError (str "REMOTE_ERROR") (textOf frame (str "Unknown error"))] }
  | _ => client.handled

def receive (client : Client) : List Frame → Client × List Frame
  | [] => (client, [])
  | frame :: frames =>
      let handled := client.handleFrame frame
      let (received, later) := handled.client.receive frames
      (received, handled.sent ++ later)

theorem receive_append (client : Client) (first second : List Frame) :
    client.receive (first ++ second) =
      (((client.receive first).1.receive second).1,
        (client.receive first).2 ++ ((client.receive first).1.receive second).2) := by
  induction first generalizing client with
  | nil => rfl
  | cons frame first ih =>
      simp only [List.cons_append, receive]
      rw [ih]
      simp

end Client

end DanWs.Clients
