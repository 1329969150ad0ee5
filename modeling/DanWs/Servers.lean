import DanWs.Codec
import DanWs.TopicSync
import Mathlib.Logic.Function.Basic

/-!
The server: its sessions by client uuid, the index of sessions by principal, and
the connections of the transport. Whatever the transport, the timers or the
application do is one event. The sends and the callbacks of the server are
recorded in a history, the newest first, together with the facts about sessions
that the members of the class do not keep.

Callbacks of the application other than `onAuthorize` make their calls as events
of their own. A connection closes synchronously, with its close callback inside
`close()`, or delivers the callback as a later event.
-/

namespace DanWs.Servers

open DanWs.Codec
open DanWs.FiniteMaps
open DanWs.Principals
open DanWs.Sessions
open DanWs.TopicParsing
open DanWs.TopicSync
open DanWs.WireTypes

inductive ServerMode where
  | broadcast
  | principal
  | sessionTopic
  | sessionPrincipalTopic
  deriving DecidableEq, Repr

abbrev ConnId := Nat

/-- An `InternalSession` object. These objects hold themselves through the
enqueue callback of their session, so none of them is ever freed. -/
abbrev Addr := Nat

/-- `flushTarget` is the connection that the flush callback of the bulk queue
writes to, `heartbeatTarget` the one that the heartbeat manager writes to: the
connection that the object was created for. -/
structure InternalSession where
  session : Session
  ws : Option ConnId
  flushTarget : ConnId
  heartbeatTarget : ConnId
  heartbeatRunning : Bool
  tables : ClientTables
  frameCount : Int
  windowStart : Nat

def InternalSession.new (clientUuid : StdString) (ws : ConnId) (now : Nat) : InternalSession :=
  ⟨Session.new clientUuid, some ws, ws, ws, true, ClientTables.empty, 0, now⟩

/-- `listening` tells whether the callbacks of `handleConnection` are installed;
`identified` and `clientUuid` are the variables these share. -/
structure Connection where
  opened : Bool
  isOpen : Bool
  closesSynchronously : Bool
  listening : Bool
  identified : Bool
  clientUuid : StdString

def Connection.none : Connection := ⟨false, false, false, false, false, []⟩

/-- A call that an `onAuthorize` callback makes on the server. -/
inductive AuthCall where
  | authorize (clientUuid token principal : StdString)
  | reject (clientUuid reason : StdString)

/-- The connection and the token of the `Auth` frame that a call answers. -/
abbrev Via := Option (ConnId × StdString)

inductive Effect where
  | sent (ws : ConnId) (frame : Frame)
  | sentHeartbeat (ws : ConnId)
  | onConnection (session : Addr)
  | onReady (session : Addr)
  | onDisconnect (session : Addr)
  /-- A frame of a principal is enqueued to a session with this principal. -/
  | enqueued (tx : StdString) (session : Addr) (principal : StdString) (frame : Frame)
  /-- A session with this connection enters `tmpSessions_`. -/
  | pended (clientUuid : StdString) (session : Addr) (ws : Option ConnId)
  /-- A session with this connection enters `sessions_`. -/
  | activated (clientUuid : StdString) (session : Addr) (ws : Option ConnId)
  /-- `authorize` succeeds for a session with this connection. -/
  | authorized (session : Addr) (ws : Option ConnId) (via : Via)
  /-- A frame of a connection is dispatched for a session with this connection. -/
  | dispatched (from_ : ConnId) (session : Addr) (ws : Option ConnId)
  /-- The end of a connection takes down a session with this connection. -/
  | tornDown (cause : ConnId) (session : Addr) (ws : Option ConnId)
  deriving DecidableEq

structure Server where
  mode : ServerMode
  authEnabled : Bool
  maxConnections : Int
  maxFramesPerSec : Int
  framesIn : Nat
  framesOut : Nat
  principals : PrincipalManager
  sessions : FiniteMap StdString Addr
  tmpSessions : FiniteMap StdString Addr
  principalIndex : FiniteMap StdString (Finset Addr)
  onAuthorize : List (StdString → StdString → List AuthCall)
  heap : Addr → InternalSession
  nextAddr : Addr
  connections : ConnId → Connection
  history : List Effect
  undefinedBehaviour : Bool

def broadcastPrincipal : StdString := str "__broadcast__"

def protocolMajor : UInt8 := 3

def authOkFrame : Frame := signalFrame .authOk

def authFailFrame (reason : StdString) : Frame := ⟨.authFail, 0, .string, .string reason⟩

def hexByte (byte : UInt8) : StdString :=
  str (if byte < 0x10 then "0" ++ hexText byte else hexText byte)

def bytesToUuid (bytes : List UInt8) : StdString :=
  if bytes.length < 16 then []
  else
    ((bytes.take 16).zipIdx).flatMap fun (byte, i) =>
      if i = 4 ∨ i = 6 ∨ i = 8 ∨ i = 10 then str "-" ++ hexByte byte else hexByte byte

namespace Server

def isTopicMode (server : Server) : Bool :=
  server.mode = .sessionTopic || server.mode = .sessionPrincipalTopic

def new (mode : ServerMode) : Server where
  mode := mode
  authEnabled := false
  maxConnections := 0
  maxFramesPerSec := 0
  framesIn := 0
  framesOut := 0
  principals :=
    PrincipalManager.new (mode ≠ .sessionTopic && mode ≠ .sessionPrincipalTopic)
  sessions := ∅
  tmpSessions := ∅
  principalIndex := ∅
  onAuthorize := []
  heap := fun _ => InternalSession.new [] 0 0
  nextAddr := 0
  connections := fun _ => Connection.none
  history := []
  undefinedBehaviour := false

section Basic

variable (server : Server)

def record (effect : Effect) : Server := { server with history := effect :: server.history }

def put (a : Addr) (internal : InternalSession) : Server :=
  { server with heap := Function.update server.heap a internal }

def setConnection (ws : ConnId) (connection : Connection) : Server :=
  { server with connections := Function.update server.connections ws connection }

def wsOpen (a : Addr) : Bool :=
  match (server.heap a).ws with
  | none => false
  | some ws => (server.connections ws).isOpen

/-- `bulkQueue.enqueue`, frame by frame, which flushes at once. -/
def enqueue (a : Addr) (frames : List Frame) : Server :=
  frames.foldl (fun server frame =>
    if (server.connections (server.heap a).flushTarget).isOpen then
      server.record (.sent (server.heap a).flushTarget frame)
    else server) server

def sendFrame (a : Addr) (frame : Frame) : Server :=
  match (server.heap a).ws with
  | none => server
  | some ws =>
      if (server.connections ws).isOpen then
        { server.record (.sent ws frame) with framesOut := server.framesOut + 1 }
      else server

def effectivePrincipal (principal : StdString) : StdString :=
  if server.mode = .broadcast then broadcastPrincipal else principal

def indexAddSession (principal : StdString) (a : Addr) : Server :=
  { server with
    principalIndex := server.principalIndex.insert principal
      (insert a ((server.principalIndex.lookup principal).getD ∅)) }

def indexRemoveSession (principal : StdString) (a : Addr) : Server :=
  match server.principalIndex.lookup principal with
  | none => server
  | some indexed =>
      { server with
        principalIndex :=
          if indexed.erase a = ∅ then server.principalIndex.erase principal
          else server.principalIndex.insert principal (indexed.erase a) }

/-- The part of `handleSessionDisconnect` for a session in `sessions_`. -/
def disconnectSession (uuid : StdString) (a : Addr) : Server :=
  let internal := server.heap a
  let session := internal.session.disposeAllTopicHandles.handleDisconnect
  let down := (server.put a
    { internal with session, ws := none, heartbeatRunning := false }).record (.onDisconnect a)
  let principal := session.principal
  let removed :=
    if principal ≠ [] ∧ ¬ server.isTopicMode then
      let indexed := down.indexRemoveSession (server.effectivePrincipal principal) a
      { indexed with
        principals := (indexed.principals.removeSession (server.effectivePrincipal principal)).1 }
    else down
  { removed with sessions := removed.sessions.erase uuid }

/-- `handleSessionDisconnect`, called for the end of the connection `cause`. -/
def handleSessionDisconnect (uuid : StdString) (cause : ConnId) : Server :=
  match server.sessions.lookup uuid with
  | none =>
      match server.tmpSessions.lookup uuid with
      | none => server
      | some a =>
          let internal := server.heap a
          let down := (server.record (.tornDown cause a internal.ws)).put a
            { internal with heartbeatRunning := false }
          { down with tmpSessions := down.tmpSessions.erase uuid }
  | some a =>
      if (server.heap a).session.connected then
        (server.record (.tornDown cause a (server.heap a).ws)).disconnectSession uuid a
      else server

/-- The callback `ws->onClose`. -/
def onClose (ws : ConnId) : Server :=
  if (server.connections ws).listening ∧ (server.connections ws).clientUuid ≠ [] then
    server.handleSessionDisconnect (server.connections ws).clientUuid ws
  else server

/-- `ws->close()`. -/
def closeConnection (ws : ConnId) : Server :=
  if (server.connections ws).isOpen then
    let closed := server.setConnection ws { server.connections ws with isOpen := false }
    if (server.connections ws).closesSynchronously then closed.onClose ws else closed
  else server

end Basic

section Principals

variable [HashOrder StdString] [HashOrder Addr] (server : Server)

/-- The sessions that a callback of a principal enqueues to, in the order of the
index, which goes by the addresses of the objects. -/
def recipients (name : StdString) (wants : Session → Bool) : List Addr :=
  match server.principalIndex.lookup name with
  | none => []
  | some indexed =>
      (HashOrder.order.enumerate indexed).filter fun a =>
        wants (server.heap a).session && server.wsOpen a

def enqueueFrom (name : StdString) (a : Addr) (frame : Frame) : Server :=
  (server.record (.enqueued name a (server.heap a).session.principal frame)).enqueue a [frame]

def onValue (name : StdString) (frame : Frame) : Server :=
  (server.recipients name fun session => session.state = .ready).foldl
    (fun server a => server.enqueueFrom name a frame) server

/-- The `_onResync` callback of a principal, behind its key frames. -/
def onResync (name : StdString) (keyFrames : List Frame) : Server :=
  (server.recipients name Session.connected).foldl
    (fun server a => (signalFrame .serverReset :: keyFrames).foldl
      (fun server frame => server.enqueueFrom name a frame) server) server

def changePrincipal (name : StdString) (operation : PrincipalTX → PrincipalTX × List Frame) :
    Server :=
  let (principals, ptx) := server.principals.principal name
  let (changed, frames) := operation ptx
  let stored := { server with principals := principals.store name changed }
  if changed.bound then frames.foldl (fun server frame => server.onValue name frame) stored
  else stored

def clearPrincipal (name : StdString) : Server :=
  let (principals, ptx) := server.principals.principal name
  let (cleared, resync) := ptx.clear
  let stored := { server with principals := principals.store name cleared }
  match resync with
  | none => stored
  | some keyFrames => stored.onResync name keyFrames

def invalidMode (method expected : String) : Fault :=
  .danWSError (str "INVALID_MODE")
    (str ("server." ++ method ++ "() is only available in " ++ expected ++ " mode."))

def set (key : StdString) (value : Payload) : Result Server :=
  if server.mode = .broadcast then
    .ok (server.changePrincipal broadcastPrincipal fun ptx => ptx.set key value)
  else .error (invalidMode "set" "broadcast")

def clear : Result Server :=
  if server.mode = .broadcast then .ok (server.clearPrincipal broadcastPrincipal)
  else .error (invalidMode "clear" "broadcast")

def clearKey (key : StdString) : Result Server :=
  if server.mode = .broadcast then
    .ok (server.changePrincipal broadcastPrincipal fun ptx => ptx.clearKey key)
  else .error (invalidMode "clear" "broadcast")

/-- `server.principal(name)`, to which `operation` is applied. -/
def withPrincipal (operation : Server → Server) : Result Server :=
  if server.mode = .principal ∨ server.mode = .sessionPrincipalTopic then .ok (operation server)
  else .error (.danWSError (str "INVALID_MODE")
    (str "server.principal() is only available in principal/session_principal_topic mode."))

end Principals

section Identification

/-- The uuid in the payload of an `Identify` frame of the right version. -/
def identity (frame : Frame) : Option StdString :=
  if frame.frameType = .identify then
    match frame.payload with
    | .binary bytes =>
        if bytes.length = 16 then some (bytesToUuid bytes)
        else if bytes.length = 18 ∧ bytes[16]? = some protocolMajor then some (bytesToUuid bytes)
        else none
    | _ => none
  else none

def identifyFrame (uuidBytes : List UInt8) : Frame :=
  ⟨.identify, 0, .binary, .binary (uuidBytes ++ [3, 5])⟩

def authFrame (token : StdString) : Frame := ⟨.auth, 0, .string, .string token⟩

theorem identity_identifyFrame {uuidBytes : List UInt8} (h : uuidBytes.length = 16) :
    identity (identifyFrame uuidBytes) = some (bytesToUuid uuidBytes) := by
  have huuid : bytesToUuid (uuidBytes ++ [3, 5]) = bytesToUuid uuidBytes := by
    have htake : (uuidBytes ++ [3, 5]).take 16 = uuidBytes.take 16 :=
      List.take_append_of_le_length h.ge
    simp [bytesToUuid, htake, h]
  simp [identity, identifyFrame, h, huuid, protocolMajor]

end Identification

section Sessions

variable [HashOrder StdString] (server : Server)

/-- An operation of a session that reads its TX providers. -/
def runSession (a : Addr) (operation : Session → Option PrincipalTX → Outcome) : Server :=
  let internal := server.heap a
  let tx := internal.session.txProvider.bind server.principals.principals.lookup
  let outcome := operation internal.session tx
  let principals :=
    match internal.session.txProvider, outcome.tx with
    | some name, some ptx => server.principals.store name ptx
    | _, _ => server.principals
  let updated := { server.put a { internal with session := outcome.session } with principals }
  let enqueued := updated.enqueue a outcome.frames
  if outcome.ready then enqueued.record (.onReady a) else enqueued

def changeSession (a : Addr) (operation : Session → Session × List Frame) : Server :=
  let internal := server.heap a
  let (session, frames) := operation internal.session
  (server.put a { internal with session }).enqueue a frames

def activateSession (a : Addr) (principal : StdString) : Server :=
  if server.isTopicMode then
    let internal := server.heap a
    let bound := server.put a { internal with session := internal.session.bindSessionTX }
    (bound.record (.onConnection a)).enqueue a [signalFrame .serverSync]
  else
    let effective := server.effectivePrincipal principal
    let principals := (server.principals.principal effective).1.addSession effective
    let indexed := { server with principals }.indexAddSession effective a
    let internal := indexed.heap a
    let provided := indexed.put a
      { internal with session := internal.session.setTxProviders effective }
    (provided.record (.onConnection a)).runSession a Session.startSync

def invalidPrincipal : Fault :=
  .danWSError (str "INVALID_PRINCIPAL")
    (str "authorize(): principal must not be empty. Call reject() to deny.")

/-- The part of `authorize` before `activateSession`. -/
def accept (clientUuid : StdString) (a : Addr) (principal : StdString) (via : Via) : Server :=
  let internal := server.heap a
  let taken := { server with tmpSessions := server.tmpSessions.erase clientUuid }
  let authorized := (taken.put a
    { internal with session := internal.session.authorize principal }).record
      (.authorized a internal.ws via)
  let answered := authorized.sendFrame a authOkFrame
  { answered with sessions := answered.sessions.insert clientUuid a }.record
    (.activated clientUuid a internal.ws)

def authorize (clientUuid principal : StdString) (via : Via) : Result Server :=
  if principal = [] then .error invalidPrincipal
  else
    match server.tmpSessions.lookup clientUuid with
    | none => .ok server
    | some a => .ok ((server.accept clientUuid a principal via).activateSession a principal)

def reject (clientUuid reason : StdString) : Server :=
  match server.tmpSessions.lookup clientUuid with
  | none => server
  | some a =>
      let taken := { server with tmpSessions := server.tmpSessions.erase clientUuid }
      let answered := taken.sendFrame a (authFailFrame reason)
      match (answered.heap a).ws with
      | none => answered
      | some ws => answered.closeConnection ws

def applyCall (via : Via) : AuthCall → Result Server
  | .authorize clientUuid _ principal => server.authorize clientUuid principal via
  | .reject clientUuid reason => .ok (server.reject clientUuid reason)

/-- The calls of one callback, up to the first that throws. -/
def runCalls (via : Via) : Server → List AuthCall → Server
  | server, [] => server
  | server, call :: calls =>
      match server.applyCall via call with
      | .error _ => server
      | .ok next => runCalls via next calls

/-- The principal of a session that no call to `authorize` has named. -/
def defaultPrincipal : StdString :=
  if server.mode = .broadcast then broadcastPrincipal else str "default"

def reattach (a : Addr) (ws : ConnId) : Server :=
  let internal := server.heap a
  server.put a
    { internal with
      ws := some ws
      session := internal.session.handleReconnect
      heartbeatRunning := true
      flushTarget := ws }

def attachPending (clientUuid : StdString) (a : Addr) (ws : ConnId) : Server :=
  let attached := server.reattach a ws
  { attached with
    tmpSessions := attached.tmpSessions.insert clientUuid a
    sessions := attached.sessions.erase clientUuid }.record (.pended clientUuid a (some ws))

def attachAuthorized (clientUuid : StdString) (a : Addr) (ws : ConnId)
    (principal : StdString) : Server :=
  let attached := server.reattach a ws
  let internal := attached.heap a
  (attached.put a { internal with session := internal.session.authorize principal }).record
    (.activated clientUuid a (some ws))

/-- A takeover of the session `a` by a newer connection, without the close of
the older one. -/
def attach (clientUuid : StdString) (a : Addr) (ws : ConnId) : Server :=
  if server.authEnabled then server.attachPending clientUuid a ws
  else
    let old := (server.heap a).session.principal
    let principal := if old = [] then server.defaultPrincipal else old
    (server.attachAuthorized clientUuid a ws principal).activateSession a principal

def closeOld (a : Addr) : Server :=
  match (server.heap a).ws with
  | none => server
  | some old => server.closeConnection old

def takeOver (clientUuid : StdString) (a : Addr) (ws : ConnId) : Server :=
  let closed := server.closeOld a
  if closed.sessions.lookup clientUuid = none then
    -- the close callback has erased the map node that `existing` refers to
    { closed with undefinedBehaviour := true }
  else closed.attach clientUuid a ws

def createPending (clientUuid : StdString) (ws : ConnId) (now : Nat) : Server :=
  let a := server.nextAddr
  let created :=
    { server with nextAddr := a + 1 }.put a (InternalSession.new clientUuid ws now)
  { created with tmpSessions := created.tmpSessions.insert clientUuid a }.record
    (.pended clientUuid a (some ws))

def createAuthorized (clientUuid : StdString) (ws : ConnId) (now : Nat)
    (principal : StdString) : Server :=
  let a := server.nextAddr
  let internal := InternalSession.new clientUuid ws now
  let created := { server with nextAddr := a + 1 }.put a
    { internal with session := internal.session.authorize principal }
  { created with sessions := created.sessions.insert clientUuid a }.record
    (.activated clientUuid a (some ws))

def createSession (clientUuid : StdString) (ws : ConnId) (now : Nat) : Server :=
  if server.authEnabled then server.createPending clientUuid ws now
  else
    (server.createAuthorized clientUuid ws now server.defaultPrincipal).activateSession
      server.nextAddr server.defaultPrincipal

/-- The check for `maxConnections_`. -/
def refuses (clientUuid : StdString) : Bool :=
  0 < server.maxConnections && server.sessions.lookup clientUuid = none &&
    server.maxConnections ≤ (server.sessions.keys.card + server.tmpSessions.keys.card : Int)

def handleIdentified (ws : ConnId) (clientUuid : StdString) (now : Nat) : Server :=
  if server.refuses clientUuid then server.closeConnection ws
  else
    match server.sessions.lookup clientUuid with
    | some a => server.takeOver clientUuid a ws
    | none => server.createSession clientUuid ws now

/-- The session that frames and heartbeats of a connection count for. -/
def sessionOf (clientUuid : StdString) : Option Addr :=
  (server.sessions.lookup clientUuid).or (server.tmpSessions.lookup clientUuid)

/-- The rate limiter: the session with the frame counted, and whether the frame
gets past it. -/
def countFrame (internal : InternalSession) (max : Int) (now : Nat) : InternalSession × Bool :=
  let window :=
    if 1000 ≤ now - internal.windowStart then
      { internal with frameCount := 0, windowStart := now }
    else internal
  let counted := { window with frameCount := window.frameCount + 1 }
  (counted, counted.frameCount ≤ max)

def limitFrame (ws : ConnId) (now : Nat) : Server × Bool :=
  let clientUuid := (server.connections ws).clientUuid
  if 0 < server.maxFramesPerSec ∧ clientUuid ≠ [] then
    match server.sessionOf clientUuid with
    | none => (server, true)
    | some a =>
        let (counted, passes) := countFrame (server.heap a) server.maxFramesPerSec now
        (server.put a counted, passes)
  else (server, true)

def tokenOf (frame : Frame) : StdString :=
  match frame.payload with
  | .string token => token
  | _ => []

def answersAuth : Bool := server.authEnabled && !server.onAuthorize.isEmpty

def dispatchAuth (ws : ConnId) (frame : Frame) : Server :=
  let clientUuid := (server.connections ws).clientUuid
  match server.tmpSessions.lookup clientUuid with
  | none => server
  | some a =>
      if server.answersAuth then
        let token := tokenOf frame
        server.onAuthorize.foldl
          (fun server callback => runCalls (some (ws, token)) server (callback clientUuid token))
          (server.record (.dispatched ws a (server.heap a).ws))
      else server

def isTopicFrame (frame : Frame) : Bool :=
  frame.frameType = .clientReset || frame.frameType = .clientKeyRegistration ||
    frame.frameType = .clientValue || frame.frameType = .clientSync

def dispatchTopic (a : Addr) (frame : Frame) : Server :=
  let internal := server.heap a
  let (tables, outcome) := handleClientTopicFrame internal.session internal.tables frame
  (server.put a { internal with session := outcome.session, tables }).enqueue a outcome.frames

def dispatchSession (ws : ConnId) (frame : Frame) : Server :=
  match server.sessions.lookup (server.connections ws).clientUuid with
  | none => server
  | some a =>
      let noted := server.record (.dispatched ws a (server.heap a).ws)
      if server.isTopicMode ∧ isTopicFrame frame then noted.dispatchTopic a frame
      else noted.runSession a fun session tx => session.handleFrame tx frame

/-- The callback `parser->onFrame`. -/
def onFrame (ws : ConnId) (frame : Frame) (now : Nat) : Server :=
  let (counted, passes) := { server with framesIn := server.framesIn + 1 }.limitFrame ws now
  if ¬ passes then counted.closeConnection ws
  else if ¬ (counted.connections ws).identified then
    match identity frame with
    | none => counted.closeConnection ws
    | some clientUuid =>
        (counted.setConnection ws
          { counted.connections ws with clientUuid, identified := true }).handleIdentified
            ws clientUuid now
  else if frame.frameType = .auth then counted.dispatchAuth ws frame
  else counted.dispatchSession ws frame

/-- The part of `close` for one session. -/
def closeSession (a : Addr) : Server :=
  let internal := server.heap a
  let session := internal.session.disposeAllTopicHandles.handleDisconnect
  let down := (server.put a
    { internal with session, ws := none, heartbeatRunning := false }).record (.onDisconnect a)
  match internal.ws with
  | none => down
  | some ws =>
      down.setConnection ws { down.connections ws with listening := false, isOpen := false }

def close : Server :=
  let allSessions := ((HashOrder.order.items server.sessions).map Prod.snd) ++
    (HashOrder.order.items server.tmpSessions).map Prod.snd
  allSessions.foldl closeSession
    { server with sessions := ∅, tmpSessions := ∅, principalIndex := ∅ }

end Sessions

end Server

inductive Event where
  | connect (ws : ConnId) (closesSynchronously : Bool)
  | frame (ws : ConnId) (frame : Frame) (now : Nat)
  | closed (ws : ConnId)
  | heartbeatTimeout (session : Addr)
  | heartbeatSend (session : Addr)
  | enableAuthorization (enabled : Bool)
  | setMaxConnections (max : Int)
  | setMaxFramesPerSec (max : Int)
  | onAuthorize (callback : StdString → StdString → List AuthCall)
  | authorize (clientUuid token principal : StdString)
  | reject (clientUuid reason : StdString)
  | set (key : StdString) (value : Payload)
  | clear
  | clearKey (key : StdString)
  | principalSet (name key : StdString) (value : Payload)
  | principalClear (name : StdString)
  | principalClearKey (name key : StdString)
  | sessionSet (session : Addr) (key : StdString) (value : Payload)
  | sessionClear (session : Addr)
  | sessionClearKey (session : Addr) (key : StdString)
  | topicSet (session : Addr) (name key : StdString) (value : Payload)
  | topicClear (session : Addr) (name : StdString)
  | topicClearKey (session : Addr) (name key : StdString)
  | close

section Step

variable [HashOrder StdString] [HashOrder Addr]

/-- What one event makes of the server. A call that throws leaves it as it was. -/
def handle (server : Server) : Event → Server
  | .connect ws closesSynchronously =>
      if (server.connections ws).opened then server
      else server.setConnection ws ⟨true, true, closesSynchronously, true, false, []⟩
  | .frame ws frame now =>
      if (server.connections ws).listening then server.onFrame ws frame now else server
  | .closed ws =>
      (server.setConnection ws { server.connections ws with isOpen := false }).onClose ws
  | .heartbeatTimeout a =>
      if (server.heap a).heartbeatRunning then
        (server.put a { server.heap a with heartbeatRunning := false }).handleSessionDisconnect
          (server.heap a).session.id (server.heap a).heartbeatTarget
      else server
  | .heartbeatSend a =>
      if (server.heap a).heartbeatRunning ∧
          (server.connections (server.heap a).heartbeatTarget).isOpen then
        server.record (.sentHeartbeat (server.heap a).heartbeatTarget)
      else server
  | .enableAuthorization enabled => { server with authEnabled := enabled }
  | .setMaxConnections max => { server with maxConnections := max }
  | .setMaxFramesPerSec max => { server with maxFramesPerSec := max }
  | .onAuthorize callback => { server with onAuthorize := server.onAuthorize ++ [callback] }
  | .authorize clientUuid _ principal =>
      (server.authorize clientUuid principal none).toOption.getD server
  | .reject clientUuid reason => server.reject clientUuid reason
  | .set key value => (server.set key value).toOption.getD server
  | .clear => server.clear.toOption.getD server
  | .clearKey key => (server.clearKey key).toOption.getD server
  | .principalSet name key value =>
      (server.withPrincipal fun server =>
        server.changePrincipal name fun ptx => ptx.set key value).toOption.getD server
  | .principalClear name =>
      (server.withPrincipal fun server => server.clearPrincipal name).toOption.getD server
  | .principalClearKey name key =>
      (server.withPrincipal fun server =>
        server.changePrincipal name fun ptx => ptx.clearKey key).toOption.getD server
  | .sessionSet a key value =>
      server.changeSession a fun session => (session.set key value).toOption.getD (session, [])
  | .sessionClear a => server.changeSession a Session.clear
  | .sessionClearKey a key => server.changeSession a fun session => session.clearKey key
  | .topicSet a name key value =>
      server.changeSession a fun session => session.topicSet name key value
  | .topicClear a name => server.changeSession a fun session => session.topicClear name
  | .topicClearKey a name key =>
      server.changeSession a fun session => session.topicClearKey name key
  | .close => server.close

/-- Behind undefined behaviour of the program nothing more is said. -/
def step (server : Server) (event : Event) : Server :=
  if server.undefinedBehaviour then server else handle server event

end Step

end DanWs.Servers
