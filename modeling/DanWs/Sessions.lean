import DanWs.Principals
import DanWs.Strings

/-!
The server side of a client session. The enqueue callbacks are explicit: every
operation returns the frames that it enqueues, in order. The two TX providers of
a session read one principal, which is passed in and comes back with its cache.
-/

namespace DanWs.Sessions

open DanWs.FiniteMaps
open DanWs.FlatStates
open DanWs.Principals
open DanWs.Strings
open DanWs.WireTypes

inductive SessionState where
  | pending
  | authorized
  | synchronizing
  | ready
  | disconnected
  deriving DecidableEq, Repr

/-- `std::to_string` of an `int`. -/
def toText (n : Int) : StdString :=
  if n < 0 then str "-" ++ decimal n.natAbs else decimal n.natAbs

/-- `bound` tells whether the payload enqueues into a session. -/
structure TopicPayload where
  index : Int
  flatState : FlatState
  bound : Bool

def TopicPayload.new (index : Int) (bound : Bool) : TopicPayload :=
  ⟨index, FlatState.new (str "t." ++ toText index ++ str "."), bound⟩

structure TopicHandle where
  name : StdString
  params : FiniteMap StdString Payload
  payload : TopicPayload

/-- `DanWebSocketSession`. The member `flatState` is set together with
`sessionEnqueue_` and `sessionBound_` and stands for the three of them;
`txProvider` is the principal that both TX providers read. -/
structure Session where
  id : StdString
  principal : StdString
  authorized : Bool
  connected : Bool
  state : SessionState
  txProvider : Option StdString
  serverSyncSent : Bool
  nextKeyId : UInt32
  flatState : Option FlatState
  topicHandles : FiniteMap StdString TopicHandle
  topicIndex : Int

/-- The result of an operation that reads the TX providers: the session, the
principal, the enqueued frames, and whether the `onReady_` callbacks ran. -/
structure Outcome where
  session : Session
  tx : Option PrincipalTX
  frames : List Frame
  ready : Bool

namespace Session

def new (clientUuid : StdString) : Session :=
  ⟨clientUuid, [], false, true, .pending, none, false, 1, none, ∅, 0⟩

def authorize (session : Session) (principal : StdString) : Session :=
  { session with principal := principal, authorized := true, state := .authorized }

def handleDisconnect (session : Session) : Session :=
  { session with connected := false, state := .disconnected }

def handleReconnect (session : Session) : Session :=
  { session with connected := true, state := .authorized }

def setTxProviders (session : Session) (principal : StdString) : Session :=
  { session with txProvider := some principal }

def bindSessionTX (session : Session) : Session :=
  { session with flatState := some (FlatState.new []) }

def invalidMode : Fault :=
  .danWSError (str "INVALID_MODE") (str "session.set() is only available in topic modes.")

def set (session : Session) (key : StdString) (value : Payload) :
    Result (Session × List Frame) :=
  match session.flatState with
  | none => .error invalidMode
  | some flat =>
      let (flatState, nextKeyId, frames) := flat.set session.nextKeyId key value
      .ok ({ session with flatState := some flatState, nextKeyId }, frames)

def get (session : Session) (key : StdString) : Payload :=
  match session.flatState with
  | none => .null
  | some flat => flat.get key

def clearKey (session : Session) (key : StdString) : Session × List Frame :=
  match session.flatState with
  | none => (session, [])
  | some flat =>
      let (flatState, frames) := flat.clearKey key
      ({ session with flatState := some flatState }, frames)

def getTopicHandle (session : Session) (name : StdString) : Option TopicHandle :=
  session.topicHandles.lookup name

def topics (session : Session) : List StdString :=
  (IterationOrder.sorted StdString).enumerate session.topicHandles.keys

def handles (session : Session) : List TopicHandle :=
  ((IterationOrder.sorted StdString).items session.topicHandles).map Prod.snd

def createTopicHandle (session : Session) (name : StdString)
    (params : FiniteMap StdString Payload) (wireIndex : Int) : Session :=
  let index := if 0 ≤ wireIndex then wireIndex else session.topicIndex
  let topicIndex := if 0 ≤ wireIndex then session.topicIndex else session.topicIndex + 1
  { session with
    topicIndex := if topicIndex ≤ index then index + 1 else topicIndex
    topicHandles := session.topicHandles.insert name
      ⟨name, params, TopicPayload.new index session.flatState.isSome⟩ }

def disposeAllTopicHandles (session : Session) : Session := { session with topicHandles := ∅ }

section Iteration

variable [HashOrder StdString]

def keys (session : Session) : List StdString :=
  match session.flatState with
  | none => []
  | some flat => flat.keys

def triggerSessionResync (session : Session) : List Frame :=
  match session.flatState with
  | none => []
  | some flat =>
      [signalFrame .serverReset] ++ flat.buildKeyFrames ++
        (session.handles.flatMap fun handle => handle.payload.flatState.buildKeyFrames) ++
        [signalFrame .serverSync] ++ flat.buildValueFrames ++
        (session.handles.flatMap fun handle => handle.payload.flatState.buildValueFrames)

/-- `clearKey()`. -/
def clear (session : Session) : Session × List Frame :=
  match session.flatState with
  | none => (session, [])
  | some flat =>
      let (flatState, resync) := flat.clear
      let cleared := { session with flatState := some flatState }
      (cleared, if resync then cleared.triggerSessionResync else [])

def removeTopicHandle (session : Session) (name : StdString) : Session × List Frame :=
  match session.topicHandles.lookup name with
  | none => (session, [])
  | some _ =>
      let removed := { session with topicHandles := session.topicHandles.erase name }
      (removed, removed.triggerSessionResync)

def storeTopic (session : Session) (name : StdString) (handle : TopicHandle)
    (flatState : FlatState) : Session :=
  { session with
    topicHandles := session.topicHandles.insert name
      { handle with payload := { handle.payload with flatState } } }

/-- `TopicPayload::set` on the topic `name`. -/
def topicSet (session : Session) (name key : StdString) (value : Payload) :
    Session × List Frame :=
  match session.topicHandles.lookup name with
  | none => (session, [])
  | some handle =>
      let (flatState, nextKeyId, frames) :=
        handle.payload.flatState.set session.nextKeyId key value
      ({ session.storeTopic name handle flatState with nextKeyId },
        if handle.payload.bound then frames else [])

/-- `TopicPayload::clear(key)` on the topic `name`. -/
def topicClearKey (session : Session) (name key : StdString) : Session × List Frame :=
  match session.topicHandles.lookup name with
  | none => (session, [])
  | some handle =>
      let (flatState, frames) := handle.payload.flatState.clearKey key
      (session.storeTopic name handle flatState, if handle.payload.bound then frames else [])

/-- `TopicPayload::clear()` on the topic `name`. -/
def topicClear (session : Session) (name : StdString) : Session × List Frame :=
  match session.topicHandles.lookup name with
  | none => (session, [])
  | some handle =>
      let (flatState, resync) := handle.payload.flatState.clear
      let cleared := session.storeTopic name handle flatState
      (cleared, if resync ∧ handle.payload.bound then cleared.triggerSessionResync else [])

def startSync (session : Session) (tx : Option PrincipalTX) : Outcome :=
  let started := { session with state := .synchronizing, serverSyncSent := false }
  match tx with
  | some ptx =>
      let (built, frames) := ptx.buildKeyFrames
      ⟨{ started with serverSyncSent := true }, some built,
        if frames ≠ [] then frames else [signalFrame .serverSync], false⟩
  | none => ⟨{ started with state := .ready }, none, [], true⟩

def keyAnswer (keyId : UInt32) (keyFrame : Frame) (valueFrames : List Frame) : List Frame :=
  [keyFrame, signalFrame .serverSync] ++
    (valueFrames.find? fun frame => frame.keyId == keyId).toList

/-- The part of `handleKeyRequest` that searches the TX providers. -/
def requestFromTx (tx : Option PrincipalTX) (keyId : UInt32) :
    Option PrincipalTX × Option (List Frame) :=
  match tx with
  | none => (none, none)
  | some ptx =>
      let (built, keyFrames) := ptx.buildKeyFrames
      (some built,
        (keyFrames.find? fun frame =>
            frame.frameType == .serverKeyRegistration && frame.keyId == keyId).map
          fun frame => keyAnswer keyId frame built.buildValueFrames)

/-- The part of `handleKeyRequest` that searches the flat state. -/
def requestFromFlatState (session : Session) (keyId : UInt32) : Option (List Frame) :=
  session.flatState.bind fun flat =>
    (flat.getByKeyId keyId).map fun entry =>
      [⟨.serverKeyRegistration, entry.keyId, entry.type, .string (flat.getPathByKeyId keyId)⟩,
        signalFrame .serverSync, FlatState.valueFrame entry]

/-- The part of `handleKeyRequest` that searches the topic payloads. -/
def requestFromTopics (session : Session) (keyId : UInt32) : Option (List Frame) :=
  session.handles.findSome? fun handle =>
    (handle.payload.flatState.buildKeyFrames.find? fun frame => frame.keyId == keyId).map
      fun frame => keyAnswer keyId frame handle.payload.flatState.buildValueFrames

def handleKeyRequest (session : Session) (tx : Option PrincipalTX) (keyId : UInt32) :
    Option PrincipalTX × List Frame :=
  let (built, answer) := requestFromTx tx keyId
  (built, ((answer.or (session.requestFromFlatState keyId)).or
    (session.requestFromTopics keyId)).getD [])

def handleFrame (session : Session) (tx : Option PrincipalTX) (frame : Frame) : Outcome :=
  match frame.frameType with
  | .clientReady =>
      if session.state = .ready then ⟨session, tx, [], false⟩
      else
        let frames := (tx.map PrincipalTX.buildValueFrames).getD []
        if session.serverSyncSent then ⟨{ session with state := .ready }, tx, frames, true⟩
        else ⟨session, tx, frames, false⟩
  | .clientResyncReq =>
      match tx with
      | none => ⟨session, none, [], false⟩
      | some ptx =>
          let (built, keyFrames) := ptx.buildKeyFrames
          ⟨session, some built, signalFrame .serverReset :: keyFrames, false⟩
  | .clientKeyRequest =>
      let (built, frames) := session.handleKeyRequest tx frame.keyId
      ⟨session, built, frames, false⟩
  | _ => ⟨session, tx, [], false⟩

end Iteration

end Session

end DanWs.Sessions
