import DanWs.Servers

namespace DanWs.ServerConditions

open DanWs.FiniteMaps
open DanWs.Servers
open DanWs.Sessions
open DanWs.WireTypes

/-- Conditions on the actions of a server, each in the state that it finds. -/
structure Permits where
  /-- The end of a connection is handled for a uuid. -/
  disconnect : Server → StdString → ConnId → Bool
  /-- `authorize` is called for a uuid and a principal. -/
  authorize : Server → StdString → StdString → Via → Bool
  /-- An `Auth` frame is dispatched for a uuid that is pending. -/
  dispatchPending : Server → ConnId → StdString → Bool
  /-- A frame is dispatched for a uuid with a session. -/
  dispatchActive : Server → ConnId → StdString → Bool
  /-- The application writes to the queue of a session, behind an open connection. -/
  write : Server → Addr → Bool
  /-- `enableAuthorization` is called. -/
  enable : Bool → Bool
  /-- `onAuthorize` is called. -/
  listen : Bool
  /-- The close inside a takeover erases the entry that is taken over. -/
  undefined : Bool

def Permits.any : Permits where
  disconnect _ _ _ := true
  authorize _ _ _ _ := true
  dispatchPending _ _ _ := true
  dispatchActive _ _ _ := true
  write _ _ := true
  enable _ := true
  listen := true
  undefined := true

section Conditions

variable (permits : Permits) (server : Server)

def onCloseMeets (ws : ConnId) : Bool :=
  if (server.connections ws).listening ∧ (server.connections ws).clientUuid ≠ [] then
    permits.disconnect server (server.connections ws).clientUuid ws
  else true

def closeMeets (ws : ConnId) : Bool :=
  if (server.connections ws).isOpen ∧ (server.connections ws).closesSynchronously then
    onCloseMeets permits
      (server.setConnection ws { server.connections ws with isOpen := false }) ws
  else true

def rejectMeets (clientUuid reason : StdString) : Bool :=
  match server.tmpSessions.lookup clientUuid with
  | none => true
  | some a =>
      let answered :=
        { server with tmpSessions := server.tmpSessions.erase clientUuid }.sendFrame a
          (authFailFrame reason)
      match (answered.heap a).ws with
      | none => true
      | some ws => closeMeets permits answered ws

def takeOverMeets (clientUuid : StdString) (a : Addr) : Bool :=
  (match (server.heap a).ws with
    | none => true
    | some old => closeMeets permits server old) &&
  (((server.closeOld a).sessions.lookup clientUuid).isSome || permits.undefined)

def identifiedMeets (ws : ConnId) (clientUuid : StdString) : Bool :=
  if server.refuses clientUuid then closeMeets permits server ws
  else
    match server.sessions.lookup clientUuid with
    | some a => takeOverMeets permits server clientUuid a
    | none => true

def changeMeets (a : Addr) (operation : Session → Session × List Frame) : Bool :=
  (operation (server.heap a).session).2.isEmpty ||
    !(server.connections (server.heap a).flushTarget).isOpen || permits.write server a

variable [HashOrder StdString]

def callMeets (via : Via) : AuthCall → Bool
  | .authorize clientUuid _ principal => permits.authorize server clientUuid principal via
  | .reject clientUuid reason => rejectMeets permits server clientUuid reason

def callsMeet (via : Via) : Server → List AuthCall → Bool
  | _, [] => true
  | server, call :: calls =>
      callMeets permits server via call &&
        match server.applyCall via call with
        | .error _ => true
        | .ok next => callsMeet via next calls

def callbacksMeet (via : Via) (clientUuid token : StdString) :
    Server → List (StdString → StdString → List AuthCall) → Bool
  | _, [] => true
  | server, callback :: callbacks =>
      callsMeet permits via server (callback clientUuid token) &&
        callbacksMeet via clientUuid token
          (Server.runCalls via server (callback clientUuid token)) callbacks

def authMeets (ws : ConnId) (frame : Frame) : Bool :=
  let clientUuid := (server.connections ws).clientUuid
  match server.tmpSessions.lookup clientUuid with
  | none => true
  | some a =>
      !server.answersAuth || (permits.dispatchPending server ws clientUuid &&
        callbacksMeet permits (some (ws, Server.tokenOf frame)) clientUuid
          (Server.tokenOf frame) (server.record (.dispatched ws a (server.heap a).ws))
          server.onAuthorize)

def sessionMeets (ws : ConnId) : Bool :=
  let clientUuid := (server.connections ws).clientUuid
  (server.sessions.lookup clientUuid).isNone || permits.dispatchActive server ws clientUuid

def onFrameMeets (ws : ConnId) (frame : Frame) (now : Nat) : Bool :=
  let (counted, passes) := { server with framesIn := server.framesIn + 1 }.limitFrame ws now
  if ¬ passes then closeMeets permits counted ws
  else if ¬ (counted.connections ws).identified then
    match Server.identity frame with
    | none => closeMeets permits counted ws
    | some clientUuid =>
        identifiedMeets permits
          (counted.setConnection ws
            { counted.connections ws with clientUuid, identified := true }) ws clientUuid
  else if frame.frameType = .auth then authMeets permits counted ws frame
  else sessionMeets permits counted ws

variable [HashOrder Addr]

def clearMeets (name : StdString) : Bool :=
  (server.principals.principal name).2.clear.2.isNone ||
    (server.recipients name Session.connected).all fun a =>
      !(server.connections (server.heap a).flushTarget).isOpen || permits.write server a

def handleMeets : Event → Bool
  | .frame ws frame now =>
      !(server.connections ws).listening || onFrameMeets permits server ws frame now
  | .closed ws =>
      onCloseMeets permits
        (server.setConnection ws { server.connections ws with isOpen := false }) ws
  | .heartbeatTimeout a =>
      !(server.heap a).heartbeatRunning ||
        permits.disconnect
          (server.put a { server.heap a with heartbeatRunning := false })
          (server.heap a).session.id (server.heap a).heartbeatTarget
  | .enableAuthorization enabled => permits.enable enabled
  | .onAuthorize _ => permits.listen
  | .authorize clientUuid _ principal => permits.authorize server clientUuid principal none
  | .reject clientUuid reason => rejectMeets permits server clientUuid reason
  | .clear => server.mode ≠ .broadcast || clearMeets permits server broadcastPrincipal
  | .principalClear name =>
      (server.mode ≠ .principal && server.mode ≠ .sessionPrincipalTopic) ||
        clearMeets permits server name
  | .sessionSet a key value =>
      changeMeets permits server a fun session =>
        (session.set key value).toOption.getD (session, [])
  | .sessionClear a => changeMeets permits server a Session.clear
  | .sessionClearKey a key => changeMeets permits server a fun session => session.clearKey key
  | .topicSet a name key value =>
      changeMeets permits server a fun session => session.topicSet name key value
  | .topicClear a name => changeMeets permits server a fun session => session.topicClear name
  | .topicClearKey a name key =>
      changeMeets permits server a fun session => session.topicClearKey name key
  | _ => true

/-- Every action that an event comes to is permitted. -/
def stepMeets (event : Event) : Bool :=
  server.undefinedBehaviour || handleMeets permits server event

end Conditions

section Takeovers

theorem limitFrame_eq (server : Server) (ws : ConnId) (now : Nat) :
    ∃ heap, (server.limitFrame ws now).1 = { server with heap } := by
  rw [Server.limitFrame]
  dsimp only
  split
  · split
    · exact ⟨server.heap, rfl⟩
    · exact ⟨_, rfl⟩
  · exact ⟨server.heap, rfl⟩

theorem limitFrame_framesIn (server : Server) (ws : ConnId) (now : Nat) :
    ∃ heap, { server with framesIn := server.framesIn + 1 }.limitFrame ws now =
      ({ server with heap, framesIn := server.framesIn + 1 }, (server.limitFrame ws now).2) := by
  obtain ⟨heap, hheap⟩ := limitFrame_eq { server with framesIn := server.framesIn + 1 } ws now
  refine ⟨heap, Prod.ext hheap ?_⟩
  unfold Server.limitFrame
  dsimp only [Server.sessionOf]
  split
  · split <;> rfl
  · rfl

variable (server : Server)

def identifies (ws : ConnId) (frame : Frame) (now : Nat) : Option StdString :=
  if (server.limitFrame ws now).2 ∧ ¬ (server.connections ws).identified then
    Server.identity frame
  else none

/-- The event is an `Identify` frame for a uuid that has a session in `sessions_`. -/
def takesOver : Event → Bool
  | .frame ws frame now =>
      !server.undefinedBehaviour && (server.connections ws).listening &&
        match identifies server ws frame now with
        | none => false
        | some uuid => (server.sessions.lookup uuid).isSome
  | _ => false

end Takeovers

section Closing

variable {permits : Permits}
  (hdisconnect : ∀ server uuid cause, permits.disconnect server uuid cause)

include hdisconnect

theorem onCloseMeets_of_disconnect (server : Server) (ws : ConnId) :
    onCloseMeets permits server ws := by
  simp [onCloseMeets, hdisconnect]

theorem closeMeets_of_disconnect (server : Server) (ws : ConnId) :
    closeMeets permits server ws := by
  simp [closeMeets, onCloseMeets_of_disconnect hdisconnect]

theorem rejectMeets_of_disconnect (server : Server) (clientUuid reason : StdString) :
    rejectMeets permits server clientUuid reason := by
  rw [rejectMeets]
  cases server.tmpSessions.lookup clientUuid with
  | none => rfl
  | some a =>
      dsimp only
      split
      · rfl
      · exact closeMeets_of_disconnect hdisconnect _ _

theorem identifiedMeets_of_disconnect (hundefined : permits.undefined) (server : Server)
    (ws : ConnId) (clientUuid : StdString) : identifiedMeets permits server ws clientUuid := by
  rw [identifiedMeets]
  split
  · exact closeMeets_of_disconnect hdisconnect server ws
  · split
    · next a _ =>
        rw [takeOverMeets, hundefined, Bool.or_true, Bool.and_true]
        split
        · rfl
        · exact closeMeets_of_disconnect hdisconnect server _
    · rfl

end Closing

/-- Nothing is forbidden but, possibly, undefined behaviour and settings of
`authEnabled_`. -/
structure Lenient (permits : Permits) : Prop where
  disconnect : ∀ server uuid cause, permits.disconnect server uuid cause
  authorize : ∀ server uuid principal via, permits.authorize server uuid principal via
  dispatchPending : ∀ server ws uuid, permits.dispatchPending server ws uuid
  dispatchActive : ∀ server ws uuid, permits.dispatchActive server ws uuid
  write : ∀ server a, permits.write server a
  listen : permits.listen

section Lenient

variable {permits : Permits} (h : Lenient permits)

include h

theorem changeMeets_of_lenient (server : Server) (a : Addr)
    (operation : Session → Session × List Frame) : changeMeets permits server a operation := by
  rw [changeMeets, h.write, Bool.or_true]

variable [HashOrder StdString]

theorem callsMeet_of_lenient (via : Via) (server : Server) (calls : List AuthCall) :
    callsMeet permits via server calls := by
  induction calls generalizing server with
  | nil => rfl
  | cons call calls ih =>
      rw [callsMeet, Bool.and_eq_true]
      constructor
      · cases call with
        | authorize uuid token principal => exact h.authorize server uuid principal via
        | reject uuid reason => exact rejectMeets_of_disconnect h.disconnect server uuid reason
      · split
        · rfl
        · exact ih _

theorem authMeets_of_lenient (server : Server) (ws : ConnId) (frame : Frame) :
    authMeets permits server ws frame := by
  have hcallbacks : ∀ via uuid token callbacks server,
      callbacksMeet permits via uuid token server callbacks := by
    intro via uuid token callbacks
    induction callbacks with
    | nil => exact fun _ => rfl
    | cons callback callbacks ih =>
        intro server
        rw [callbacksMeet, Bool.and_eq_true]
        exact ⟨callsMeet_of_lenient h via server _, ih _⟩
  rw [authMeets]
  split
  · rfl
  · rw [h.dispatchPending, hcallbacks, Bool.and_self, Bool.or_true]

theorem onFrameMeets_of_lenient (server : Server) (ws : ConnId) (frame : Frame) (now : Nat)
    (hidentified : ∀ heap uuid,
      identifiedMeets permits
        ({ server with heap, framesIn := server.framesIn + 1 }.setConnection ws
          { server.connections ws with clientUuid := uuid, identified := true }) ws uuid) :
    onFrameMeets permits server ws frame now := by
  obtain ⟨heap, hheap⟩ := limitFrame_eq { server with framesIn := server.framesIn + 1 } ws now
  have hclose := closeMeets_of_disconnect h.disconnect
  rw [onFrameMeets]
  dsimp only
  rw [hheap]
  split
  · exact hclose _ ws
  · split
    · split
      · exact hclose _ ws
      · exact hidentified heap _
    · split
      · exact authMeets_of_lenient h _ ws frame
      · rw [sessionMeets, h.dispatchActive, Bool.or_true]

variable [HashOrder Addr]

theorem clearMeets_of_lenient (server : Server) (name : StdString) :
    clearMeets permits server name := by
  simp [clearMeets, h.write]

theorem stepMeets_of_lenient (server : Server) (event : Event)
    (henable : ∀ enabled, event = .enableAuthorization enabled → permits.enable enabled)
    (hidentified : ∀ ws heap uuid,
      identifiedMeets permits
        ({ server with heap, framesIn := server.framesIn + 1 }.setConnection ws
          { server.connections ws with clientUuid := uuid, identified := true }) ws uuid) :
    stepMeets permits server event := by
  rw [stepMeets, Bool.or_eq_true]
  right
  cases event with
  | frame ws frame now =>
      rw [handleMeets, onFrameMeets_of_lenient h server ws frame now (hidentified ws),
        Bool.or_true]
  | closed ws => exact onCloseMeets_of_disconnect h.disconnect _ ws
  | heartbeatTimeout a => rw [handleMeets, h.disconnect, Bool.or_true]
  | enableAuthorization enabled => exact henable enabled rfl
  | onAuthorize callback => exact h.listen
  | authorize uuid token principal => exact h.authorize server uuid principal none
  | reject uuid reason => exact rejectMeets_of_disconnect h.disconnect server uuid reason
  | clear => rw [handleMeets, clearMeets_of_lenient h, Bool.or_true]
  | principalClear name => rw [handleMeets, clearMeets_of_lenient h, Bool.or_true]
  | sessionSet | sessionClear | sessionClearKey | topicSet | topicClear | topicClearKey =>
      rw [handleMeets]
      exact changeMeets_of_lenient h server _ _
  | connect | heartbeatSend | setMaxConnections | setMaxFramesPerSec | set | clearKey
  | principalSet | principalClearKey | close => rfl

omit h in
theorem stepMeets_any (server : Server) (event : Event) :
    stepMeets Permits.any server event := by
  have hlenient : Lenient Permits.any :=
    ⟨fun _ _ _ => rfl, fun _ _ _ _ => rfl, fun _ _ _ => rfl, fun _ _ _ => rfl, fun _ _ => rfl,
      rfl⟩
  exact stepMeets_of_lenient hlenient server event (fun _ _ => rfl) fun ws heap uuid =>
    identifiedMeets_of_disconnect hlenient.disconnect rfl _ ws uuid

end Lenient

end DanWs.ServerConditions
