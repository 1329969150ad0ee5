import DanWs.ServerCalls

/-!
An event of the server as the list of the actions that it comes to: every action
is one call of the source that changes the server, in the state that the actions
before it have left. Performed in order they make the step of the event.
-/

namespace DanWs.ServerActions

open DanWs.CalmActions
open DanWs.FiniteMaps
open DanWs.Principals
open DanWs.ServerCalls
open DanWs.ServerMoves
open DanWs.ServerTurns
open DanWs.Servers
open DanWs.SessionStanding
open DanWs.Sessions
open DanWs.StepRuns
open DanWs.TopicSync
open DanWs.WireTypes

/-- A call on a session object or on one of its topics. -/
inductive SessionCall where
  | set (key : StdString) (value : Payload)
  | clear
  | clearKey (key : StdString)
  | topicSet (name key : StdString) (value : Payload)
  | topicClear (name : StdString)
  | topicClearKey (name key : StdString)

def SessionCall.operation [HashOrder StdString] : SessionCall → Session → Session × List Frame
  | .set key value => fun session => (session.set key value).toOption.getD (session, [])
  | .clear => Session.clear
  | .clearKey key => fun session => session.clearKey key
  | .topicSet name key value => fun session => session.topicSet name key value
  | .topicClear name => fun session => session.topicClear name
  | .topicClearKey name key => fun session => session.topicClearKey name key

theorem footing_operation [HashOrder StdString] (call : SessionCall) (session : Session) :
    footing (call.operation session).1 = footing session := by
  cases call with
  | set key value => exact footing_set session key value
  | clear => exact footing_clear session
  | clearKey key => exact footing_clearKey session key
  | topicSet name key value => exact footing_topicSet session name key value
  | topicClear name => exact footing_topicClear session name
  | topicClearKey name key => exact footing_topicClearKey session name key

/-- A call on a principal that leads to single frames. -/
inductive PrincipalCall where
  | set (key : StdString) (value : Payload)
  | clearKey (key : StdString)

def PrincipalCall.operation : PrincipalCall → PrincipalTX → PrincipalTX × List Frame
  | .set key value => fun ptx => ptx.set key value
  | .clearKey key => fun ptx => ptx.clearKey key

inductive Action where
  | connect (ws : ConnId) (closesSynchronously : Bool)
  | receive
  | limit (ws : ConnId) (now : Nat)
  /-- A connection is no longer open. -/
  | shut (ws : ConnId)
  | disconnect (clientUuid : StdString) (cause : ConnId)
  | identify (ws : ConnId) (clientUuid : StdString)
  /-- The part of a takeover behind the close of the older connection. -/
  | takeOver (clientUuid : StdString) (ws : ConnId)
  | create (clientUuid : StdString) (ws : ConnId) (now : Nat)
  | dispatch (ws : ConnId) (session : Addr)
  | answerTopic (session : Addr) (frame : Frame)
  | answer (session : Addr) (frame : Frame)
  | authorize (clientUuid principal : StdString) (via : Via)
  /-- `reject` less the close of the connection. -/
  | reject (clientUuid reason : StdString)
  | stopHeartbeat (session : Addr)
  | heartbeat (session : Addr)
  | enableAuthorization (enabled : Bool)
  | setMaxConnections (max : Int)
  | setMaxFramesPerSec (max : Int)
  | onAuthorize (callback : StdString → StdString → List AuthCall)
  | callPrincipal (name : StdString) (call : PrincipalCall)
  | clearPrincipal (name : StdString)
  | callSession (session : Addr) (call : SessionCall)
  | close

section Performing

variable [HashOrder StdString] [HashOrder Addr] (server : Server)

def perform : Action → Server
  | .connect ws closesSynchronously =>
      server.setConnection ws ⟨true, true, closesSynchronously, true, false, []⟩
  | .receive => { server with framesIn := server.framesIn + 1 }
  | .limit ws now => (server.limitFrame ws now).1
  | .shut ws => server.setConnection ws { server.connections ws with isOpen := false }
  | .disconnect clientUuid cause => server.handleSessionDisconnect clientUuid cause
  | .identify ws clientUuid =>
      server.setConnection ws { server.connections ws with clientUuid, identified := true }
  | .takeOver clientUuid ws =>
      match server.sessions.lookup clientUuid with
      | none => { server with undefinedBehaviour := true }
      | some a => server.attach clientUuid a ws
  | .create clientUuid ws now =>
      match server.sessions.lookup clientUuid with
      | none => server.createSession clientUuid ws now
      | some _ => server
  | .dispatch ws a => server.record (.dispatched ws a (server.heap a).ws)
  | .answerTopic a frame => server.dispatchTopic a frame
  | .answer a frame => server.runSession a fun session tx => session.handleFrame tx frame
  | .authorize clientUuid principal via =>
      (server.authorize clientUuid principal via).toOption.getD server
  | .reject clientUuid reason =>
      match server.tmpSessions.lookup clientUuid with
      | none => server
      | some a =>
          { server with tmpSessions := server.tmpSessions.erase clientUuid }.sendFrame a
            (authFailFrame reason)
  | .stopHeartbeat a => server.put a { server.heap a with heartbeatRunning := false }
  | .heartbeat a => server.record (.sentHeartbeat (server.heap a).heartbeatTarget)
  | .enableAuthorization enabled => { server with authEnabled := enabled }
  | .setMaxConnections max => { server with maxConnections := max }
  | .setMaxFramesPerSec max => { server with maxFramesPerSec := max }
  | .onAuthorize callback => { server with onAuthorize := server.onAuthorize ++ [callback] }
  | .callPrincipal name call => server.changePrincipal name call.operation
  | .clearPrincipal name => server.clearPrincipal name
  | .callSession a call => server.changeSession a call.operation
  | .close => server.close

end Performing

section Actions

variable (server : Server)

def onCloseActions (ws : ConnId) : List Action :=
  if (server.connections ws).listening ∧ (server.connections ws).clientUuid ≠ [] then
    [.disconnect (server.connections ws).clientUuid ws]
  else []

def closeActions (ws : ConnId) : List Action :=
  if (server.connections ws).isOpen then
    .shut ws ::
      if (server.connections ws).closesSynchronously then
        onCloseActions (server.setConnection ws { server.connections ws with isOpen := false }) ws
      else []
  else []

def closeOldActions (a : Addr) : List Action :=
  match (server.heap a).ws with
  | none => []
  | some old => closeActions server old

def identifiedActions (ws : ConnId) (clientUuid : StdString) (now : Nat) : List Action :=
  if server.refuses clientUuid then closeActions server ws
  else
    match server.sessions.lookup clientUuid with
    | some a => closeOldActions server a ++ [.takeOver clientUuid ws]
    | none => [.create clientUuid ws now]

def rejectActions (clientUuid reason : StdString) : List Action :=
  match server.tmpSessions.lookup clientUuid with
  | none => []
  | some a =>
      let answered :=
        { server with tmpSessions := server.tmpSessions.erase clientUuid }.sendFrame a
          (authFailFrame reason)
      .reject clientUuid reason ::
        match (answered.heap a).ws with
        | none => []
        | some ws => closeActions answered ws

def sessionActions (ws : ConnId) (frame : Frame) : List Action :=
  match server.sessions.lookup (server.connections ws).clientUuid with
  | none => []
  | some a =>
      [.dispatch ws a,
        if server.isTopicMode ∧ Server.isTopicFrame frame then .answerTopic a frame
        else .answer a frame]

variable [HashOrder StdString]

def callActions (via : Via) : AuthCall → List Action
  | .authorize clientUuid _ principal => [.authorize clientUuid principal via]
  | .reject clientUuid reason => rejectActions server clientUuid reason

def callsActions (via : Via) : Server → List AuthCall → List Action
  | _, [] => []
  | server, call :: calls =>
      match server.applyCall via call with
      | .error _ => []
      | .ok next => callActions server via call ++ callsActions via next calls

def callbacksActions (via : Via) (clientUuid token : StdString) :
    Server → List (StdString → StdString → List AuthCall) → List Action
  | _, [] => []
  | server, callback :: callbacks =>
      callsActions via server (callback clientUuid token) ++
        callbacksActions via clientUuid token
          (Server.runCalls via server (callback clientUuid token)) callbacks

def authActions (ws : ConnId) (frame : Frame) : List Action :=
  let clientUuid := (server.connections ws).clientUuid
  match server.tmpSessions.lookup clientUuid with
  | none => []
  | some a =>
      if server.answersAuth then
        let token := Server.tokenOf frame
        .dispatch ws a :: callbacksActions (some (ws, token)) clientUuid token
          (server.record (.dispatched ws a (server.heap a).ws)) server.onAuthorize
      else []

def onFrameActions (ws : ConnId) (frame : Frame) (now : Nat) : List Action :=
  let (counted, passes) := { server with framesIn := server.framesIn + 1 }.limitFrame ws now
  .receive :: .limit ws now ::
    if ¬ passes then closeActions counted ws
    else if ¬ (counted.connections ws).identified then
      match Server.identity frame with
      | none => closeActions counted ws
      | some clientUuid =>
          .identify ws clientUuid ::
            identifiedActions
              (counted.setConnection ws
                { counted.connections ws with clientUuid, identified := true }) ws clientUuid now
    else if frame.frameType = .auth then authActions counted ws frame
    else sessionActions counted ws frame

def broadcastActions (actions : List Action) : List Action :=
  if server.mode = .broadcast then actions else []

def principalActions (actions : List Action) : List Action :=
  if server.mode = .principal ∨ server.mode = .sessionPrincipalTopic then actions else []

def handleActions : Event → List Action
  | .connect ws closesSynchronously =>
      if (server.connections ws).opened then [] else [.connect ws closesSynchronously]
  | .frame ws frame now =>
      if (server.connections ws).listening then onFrameActions server ws frame now else []
  | .closed ws =>
      .shut ws :: onCloseActions
        (server.setConnection ws { server.connections ws with isOpen := false }) ws
  | .heartbeatTimeout a =>
      if (server.heap a).heartbeatRunning then
        [.stopHeartbeat a,
          .disconnect (server.heap a).session.id (server.heap a).heartbeatTarget]
      else []
  | .heartbeatSend a =>
      if (server.heap a).heartbeatRunning ∧
          (server.connections (server.heap a).heartbeatTarget).isOpen then
        [.heartbeat a]
      else []
  | .enableAuthorization enabled => [.enableAuthorization enabled]
  | .setMaxConnections max => [.setMaxConnections max]
  | .setMaxFramesPerSec max => [.setMaxFramesPerSec max]
  | .onAuthorize callback => [.onAuthorize callback]
  | .authorize clientUuid _ principal => [.authorize clientUuid principal none]
  | .reject clientUuid reason => rejectActions server clientUuid reason
  | .set key value => broadcastActions server [.callPrincipal broadcastPrincipal (.set key value)]
  | .clear => broadcastActions server [.clearPrincipal broadcastPrincipal]
  | .clearKey key => broadcastActions server [.callPrincipal broadcastPrincipal (.clearKey key)]
  | .principalSet name key value => principalActions server [.callPrincipal name (.set key value)]
  | .principalClear name => principalActions server [.clearPrincipal name]
  | .principalClearKey name key => principalActions server [.callPrincipal name (.clearKey key)]
  | .sessionSet a key value => [.callSession a (.set key value)]
  | .sessionClear a => [.callSession a .clear]
  | .sessionClearKey a key => [.callSession a (.clearKey key)]
  | .topicSet a name key value => [.callSession a (.topicSet name key value)]
  | .topicClear a name => [.callSession a (.topicClear name)]
  | .topicClearKey a name key => [.callSession a (.topicClearKey name key)]
  | .close => [.close]

def actions (event : Event) : List Action :=
  if server.undefinedBehaviour then [] else handleActions server event

end Actions

section Steps

variable [HashOrder StdString] [HashOrder Addr] (server : Server)

theorem run_onCloseActions (ws : ConnId) :
    run perform server (onCloseActions server ws) = server.onClose ws := by
  rw [onCloseActions, Server.onClose]
  split <;> rfl

theorem run_closeActions (ws : ConnId) :
    run perform server (closeActions server ws) = server.closeConnection ws := by
  rw [closeActions, Server.closeConnection]
  split
  · dsimp only
    rw [run_cons]
    split
    · exact run_onCloseActions _ ws
    · rfl
  · rfl

theorem run_closeOldActions (a : Addr) :
    run perform server (closeOldActions server a) = server.closeOld a := by
  rw [closeOldActions, Server.closeOld]
  cases (server.heap a).ws with
  | none => rfl
  | some old => exact run_closeActions server old

theorem run_identifiedActions (ws : ConnId) (clientUuid : StdString) (now : Nat) :
    run perform server (identifiedActions server ws clientUuid now) =
      server.handleIdentified ws clientUuid now := by
  rw [identifiedActions, Server.handleIdentified]
  split
  · exact run_closeActions server ws
  · cases hactive : server.sessions.lookup clientUuid with
    | none => simp only [run_cons, run_nil, perform, hactive]
    | some a =>
        dsimp only
        rw [run_append, run_closeOldActions, run_cons, run_nil, perform, Server.takeOver]
        -- the close of the older connection leaves the entry or erases it
        obtain ⟨-, hnone | hkept⟩ := entryKept_closeOld clientUuid server a
        · rw [hnone, if_pos rfl]
        · rw [hkept, hactive, if_neg (Option.some_ne_none a)]

theorem run_rejectActions (clientUuid reason : StdString) :
    run perform server (rejectActions server clientUuid reason) =
      server.reject clientUuid reason := by
  rw [rejectActions, Server.reject]
  cases hpending : server.tmpSessions.lookup clientUuid with
  | none => rfl
  | some a =>
      simp only [run_cons, perform, hpending]
      generalize Server.sendFrame _ a (authFailFrame reason) = answered
      cases (answered.heap a).ws with
      | none => rfl
      | some ws => exact run_closeActions answered ws

theorem run_callActions (via : Via) (call : AuthCall) {next : Server}
    (hnext : server.applyCall via call = .ok next) :
    run perform server (callActions server via call) = next := by
  cases call with
  | authorize clientUuid token principal =>
      have hauthorize : server.authorize clientUuid principal via = .ok next := hnext
      rw [callActions, run_cons, run_nil, perform, hauthorize]
      rfl
  | reject clientUuid reason =>
      cases hnext
      exact run_rejectActions server clientUuid reason

theorem run_callsActions (via : Via) (calls : List AuthCall) (server : Server) :
    run perform server (callsActions via server calls) = Server.runCalls via server calls := by
  induction calls generalizing server with
  | nil => rfl
  | cons call calls ih =>
      rw [callsActions, Server.runCalls]
      cases hnext : server.applyCall via call with
      | error fault => rfl
      | ok next =>
          dsimp only
          rw [run_append, run_callActions server via call hnext, ih]

theorem run_callbacksActions (via : Via) (clientUuid token : StdString)
    (callbacks : List (StdString → StdString → List AuthCall)) (server : Server) :
    run perform server (callbacksActions via clientUuid token server callbacks) =
      callbacks.foldl
        (fun server callback => Server.runCalls via server (callback clientUuid token)) server := by
  induction callbacks generalizing server with
  | nil => rfl
  | cons callback callbacks ih =>
      rw [callbacksActions, run_append, run_callsActions, ih]
      rfl

theorem run_authActions (ws : ConnId) (frame : Frame) :
    run perform server (authActions server ws frame) = server.dispatchAuth ws frame := by
  rw [authActions, Server.dispatchAuth]
  dsimp only
  cases server.tmpSessions.lookup (server.connections ws).clientUuid with
  | none => rfl
  | some a =>
      dsimp only
      split
      · rw [run_cons]
        exact run_callbacksActions _ _ _ _ _
      · rfl

theorem run_sessionActions (ws : ConnId) (frame : Frame) :
    run perform server (sessionActions server ws frame) = server.dispatchSession ws frame := by
  rw [sessionActions, Server.dispatchSession]
  cases server.sessions.lookup (server.connections ws).clientUuid with
  | none => rfl
  | some a =>
      dsimp only
      split <;> rfl

theorem run_onFrameActions (ws : ConnId) (frame : Frame) (now : Nat) :
    run perform server (onFrameActions server ws frame now) = server.onFrame ws frame now := by
  rw [onFrameActions, Server.onFrame]
  dsimp only
  rw [run_cons, run_cons]
  change run perform ({ server with framesIn := server.framesIn + 1 }.limitFrame ws now).1 _ = _
  generalize ({ server with framesIn := server.framesIn + 1 }.limitFrame ws now) = counted
  split
  · exact run_closeActions counted.1 ws
  · split
    · cases Server.identity frame with
      | none => exact run_closeActions counted.1 ws
      | some clientUuid =>
          rw [run_cons]
          exact run_identifiedActions _ ws clientUuid now
    · split
      · exact run_authActions counted.1 ws frame
      · exact run_sessionActions counted.1 ws frame

theorem run_broadcastActions (action : Action) (fault : Fault) :
    run perform server (broadcastActions server [action]) =
      ((if server.mode = .broadcast then .ok (perform server action) else .error fault :
        Result Server).toOption.getD server) := by
  rw [broadcastActions]
  split <;> rfl

theorem run_principalActions (action : Action) :
    run perform server (principalActions server [action]) =
      (server.withPrincipal fun server => perform server action).toOption.getD server := by
  rw [principalActions, Server.withPrincipal]
  split <;> rfl

theorem run_handleActions (event : Event) :
    run perform server (handleActions server event) = handle server event := by
  cases event with
  | connect ws closesSynchronously =>
      rw [handleActions, handle]
      split <;> rfl
  | frame ws frame now =>
      rw [handleActions, handle]
      split
      · exact run_onFrameActions server ws frame now
      · rfl
  | closed ws => exact run_onCloseActions _ ws
  | heartbeatTimeout a =>
      rw [handleActions, handle]
      split <;> rfl
  | heartbeatSend a =>
      rw [handleActions, handle]
      split <;> rfl
  | reject clientUuid reason => exact run_rejectActions server clientUuid reason
  | set | clear | clearKey => exact run_broadcastActions server _ _
  | principalSet | principalClear | principalClearKey => exact run_principalActions server _
  | enableAuthorization | setMaxConnections | setMaxFramesPerSec | onAuthorize | authorize
  | sessionSet | sessionClear | sessionClearKey | topicSet | topicClear | topicClearKey
  | close => rfl

/-- The actions of an event, performed in order, make its step. -/
theorem run_actions (event : Event) :
    run perform server (actions server event) = step server event := by
  rw [actions, step]
  split
  · rfl
  · exact run_handleActions server event

end Steps

/-! The calls behind the actions up to what they record. -/

section Equations

variable (server : Server)

theorem enqueue_eq (a : Addr) (frames : List Frame) :
    ∃ history, server.enqueue a frames = { server with history } := by
  obtain ⟨effects, heq, -⟩ := unmarked_enqueue server a frames
  exact ⟨_, heq⟩

theorem sendFrame_eq (a : Addr) (frame : Frame) :
    ∃ history framesOut, server.sendFrame a frame = { server with history, framesOut } := by
  rw [Server.sendFrame]
  split
  · exact ⟨_, _, rfl⟩
  · split <;> exact ⟨_, _, rfl⟩

theorem changeSession_eq (a : Addr) (operation : Session → Session × List Frame) :
    ∃ history, server.changeSession a operation =
      { server.put a
          { server.heap a with session := (operation (server.heap a).session).1 } with
        history } :=
  enqueue_eq _ a _

theorem dispatchTopic_eq [HashOrder StdString] (a : Addr) (frame : Frame) :
    let answered := handleClientTopicFrame (server.heap a).session (server.heap a).tables frame
    ∃ history, server.dispatchTopic a frame =
      { server.put a { server.heap a with session := answered.2.session, tables := answered.1 } with
        history } :=
  enqueue_eq _ a _

section Principals

theorem emits_frames_enqueueFrom (name : StdString) (a : Addr) (frames : List Frame) :
    Emits (fun _ => True) server
      (frames.foldl (fun server frame => server.enqueueFrom name a frame) server) :=
  Emits.foldl fun _ _ _ => emits_enqueueFrom _ trivial fun _ => trivial

variable [HashOrder Addr]

theorem emits_onValue (name : StdString) (frame : Frame) :
    Emits (fun _ => True) server (server.onValue name frame) :=
  Emits.foldl fun _ _ _ => emits_enqueueFrom _ trivial fun _ => trivial

theorem changePrincipal_eq (name : StdString)
    (operation : PrincipalTX → PrincipalTX × List Frame) :
    let principal := server.principals.principal name
    ∃ history, server.changePrincipal name operation =
      { server with principals := principal.1.store name (operation principal.2).1, history } := by
  intro principal
  rw [Server.changePrincipal]
  dsimp only
  split
  · have hemits : Emits (fun _ => True)
        { server with principals := principal.1.store name (operation principal.2).1 }
        ((operation principal.2).2.foldl (fun server frame => server.onValue name frame)
          { server with principals := principal.1.store name (operation principal.2).1 }) :=
      Emits.foldl fun _ frame _ => emits_onValue _ name frame
    obtain ⟨effects, -, heq⟩ := hemits
    exact ⟨_, heq⟩
  · exact ⟨server.history, rfl⟩

theorem clearPrincipal_eq [HashOrder StdString] (name : StdString) :
    let principal := server.principals.principal name
    ∃ history, server.clearPrincipal name =
      { server with principals := principal.1.store name principal.2.clear.1, history } := by
  intro principal
  rw [Server.clearPrincipal]
  dsimp only
  split
  · exact ⟨server.history, rfl⟩
  · next keyFrames hresync =>
      have hemits : Emits (fun _ => True)
          { server with principals := principal.1.store name principal.2.clear.1 }
          (({ server with principals := principal.1.store name principal.2.clear.1 } :
            Server).onResync name keyFrames) :=
        Emits.foldl fun _ a _ => emits_frames_enqueueFrom _ name a _
      obtain ⟨effects, -, heq⟩ := hemits
      exact ⟨_, heq⟩

end Principals

end Equations

end DanWs.ServerActions
