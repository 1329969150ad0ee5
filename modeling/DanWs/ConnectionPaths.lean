import DanWs.EventActions

namespace DanWs.ConnectionPaths

open DanWs.EventActions
open DanWs.FiniteMaps
open DanWs.ServerActions
open DanWs.ServerCalls
open DanWs.ServerMoves
open DanWs.Servers
open DanWs.SessionStanding
open DanWs.Sessions
open DanWs.StepRuns
open DanWs.TopicSync
open DanWs.WireTypes

/-- One of the outbound paths of the object leads to the connection. -/
def Reaches (internal : InternalSession) (ws : ConnId) : Prop :=
  internal.ws = some ws ∨ internal.flushTarget = ws ∨ internal.heartbeatTarget = ws

theorem reaches_of_paths {internal old : InternalSession} (h : paths internal = paths old)
    {ws : ConnId} (hreaches : Reaches internal ws) : Reaches old ws := by
  obtain ⟨hattachment, hheartbeat⟩ := Prod.mk.inj h
  have hws : internal.ws = old.ws := congrArg Attachment.ws hattachment
  have hflush : internal.flushTarget = old.flushTarget :=
    congrArg Attachment.flushTarget hattachment
  rwa [Reaches, hws, hflush, hheartbeat] at hreaches

theorem id_of_paths {internal old : InternalSession} (h : paths internal = paths old) :
    internal.session.id = old.session.id :=
  congrArg (fun held : Attachment × ConnId => held.1.identity.id) h

theorem id_of_footing {session changed : Session} (h : footing changed = footing session) :
    changed.id = session.id :=
  congrArg (fun held : Identity × Stage => held.1.id) h

section Passages

/-- Objects and connections are the same, and no object writes anywhere new. -/
structure Passes (server next : Server) : Prop where
  nextAddr : next.nextAddr = server.nextAddr
  reaches : ∀ a ws, Reaches (next.heap a) ws → Reaches (server.heap a) ws
  identified : ∀ ws, (next.connections ws).identified = (server.connections ws).identified
  opened : ∀ ws, (next.connections ws).opened = (server.connections ws).opened
  listening : ∀ ws, (next.connections ws).listening → (server.connections ws).listening
  clientUuid : ∀ ws, (next.connections ws).clientUuid = (server.connections ws).clientUuid
  id : ∀ a, (next.heap a).session.id = (server.heap a).session.id

variable {server mid next : Server}

theorem passes_refl (server : Server) : Passes server server :=
  ⟨rfl, fun _ _ => id, fun _ => rfl, fun _ => rfl, fun _ => id, fun _ => rfl, fun _ => rfl⟩

theorem Passes.trans (hfirst : Passes server mid) (hsecond : Passes mid next) :
    Passes server next where
  nextAddr := hsecond.nextAddr.trans hfirst.nextAddr
  reaches a ws h := hfirst.reaches a ws (hsecond.reaches a ws h)
  identified ws := (hsecond.identified ws).trans (hfirst.identified ws)
  opened ws := (hsecond.opened ws).trans (hfirst.opened ws)
  listening ws h := hfirst.listening ws (hsecond.listening ws h)
  clientUuid ws := (hsecond.clientUuid ws).trans (hfirst.clientUuid ws)
  id a := (hsecond.id a).trans (hfirst.id a)

theorem passes_of_heap (hnextAddr : next.nextAddr = server.nextAddr)
    (hconnections : next.connections = server.connections)
    (hheap : ∀ a ws, Reaches (next.heap a) ws → Reaches (server.heap a) ws)
    (hid : ∀ a, (next.heap a).session.id = (server.heap a).session.id) :
    Passes server next := by
  refine ⟨hnextAddr, hheap, ?_, ?_, ?_, ?_, hid⟩ <;> rw [hconnections] <;> intro ws
  · rfl
  · rfl
  · exact id
  · rfl

theorem passes_update {a : Addr} {internal : InternalSession}
    (hnextAddr : next.nextAddr = server.nextAddr)
    (hconnections : next.connections = server.connections)
    (hheap : next.heap = Function.update server.heap a internal)
    (hinternal : ∀ ws, Reaches internal ws → Reaches (server.heap a) ws)
    (hid : internal.session.id = (server.heap a).session.id) : Passes server next := by
  refine passes_of_heap hnextAddr hconnections (fun b ws hreaches => ?_) fun b => ?_
  · rw [hheap] at hreaches
    rcases eq_or_ne b a with rfl | hne
    · rw [Function.update_self] at hreaches
      exact hinternal ws hreaches
    · rwa [Function.update_of_ne hne] at hreaches
  · rw [hheap]
    exact apply_update (fun internal => internal.session.id) fun _ => hid

theorem reaches_down {internal : InternalSession} {session : Session} {running : Bool}
    {ws : ConnId}
    (h : Reaches { internal with session, ws := none, heartbeatRunning := running } ws) :
    Reaches internal ws :=
  .inr (h.resolve_left (Option.some_ne_none ws).symm)

theorem passes_setConnection (server : Server) (ws : ConnId) {connection : Connection}
    (hidentified : connection.identified = (server.connections ws).identified)
    (hopened : connection.opened = (server.connections ws).opened)
    (hlistening : connection.listening → (server.connections ws).listening)
    (hname : connection.clientUuid = (server.connections ws).clientUuid) :
    Passes server (server.setConnection ws connection) := by
  have hall : ∀ other, ((server.setConnection ws connection).connections other).identified =
        (server.connections other).identified ∧
      ((server.setConnection ws connection).connections other).opened =
        (server.connections other).opened ∧
      (((server.setConnection ws connection).connections other).listening →
        (server.connections other).listening) ∧
      ((server.setConnection ws connection).connections other).clientUuid =
        (server.connections other).clientUuid := by
    intro other
    rw [Server.setConnection]
    dsimp only
    rcases eq_or_ne other ws with rfl | hne
    · rw [Function.update_self]
      exact ⟨hidentified, hopened, hlistening, hname⟩
    · rw [Function.update_of_ne hne]
      exact ⟨rfl, rfl, id, rfl⟩
  exact ⟨rfl, fun _ _ => id, fun other => (hall other).1, fun other => (hall other).2.1,
    fun other => (hall other).2.2.1, fun other => (hall other).2.2.2, fun _ => rfl⟩

theorem passes_handleSessionDisconnect (server : Server) (uuid : StdString) (cause : ConnId) :
    Passes server (server.handleSessionDisconnect uuid cause) := by
  obtain heq | ⟨a, -, heq⟩ | ⟨a, -, heq⟩ := handleSessionDisconnect_cases server uuid cause
  · rw [heq]
    exact passes_refl server
  · rw [heq]
    exact passes_update rfl rfl rfl (fun _ => id) rfl
  · obtain ⟨index, principals, hdown, -⟩ := tearDownActive_eq server uuid cause a
    rw [heq, hdown]
    exact passes_update rfl rfl rfl (fun _ => reaches_down) rfl

theorem passes_closeSession (server : Server) (a : Addr) :
    Passes server (server.closeSession a) := by
  let down := (server.put a
    { server.heap a with
      session := (server.heap a).session.disposeAllTopicHandles.handleDisconnect
      ws := none
      heartbeatRunning := false }).record (.onDisconnect a)
  have hdown : Passes server down := passes_update rfl rfl rfl (fun _ => reaches_down) rfl
  rw [Server.closeSession]
  cases (server.heap a).ws with
  | none => exact hdown
  | some ws => exact hdown.trans (passes_setConnection down ws rfl rfl (fun h => by cases h) rfl)

theorem passes_limitFrame (server : Server) (ws : ConnId) (now : Nat) :
    Passes server (server.limitFrame ws now).1 := by
  rw [Server.limitFrame]
  dsimp only
  split
  · split
    · exact passes_refl server
    · next a _ =>
        have hpaths : paths (Server.countFrame (server.heap a) server.maxFramesPerSec now).1 =
            paths (server.heap a) := by
          rw [Server.countFrame]
          split <;> rfl
        exact passes_update rfl rfl rfl (fun _ => reaches_of_paths hpaths)
          (id_of_paths hpaths)
  · exact passes_refl server

variable [HashOrder StdString]

theorem passes_activateSession (server : Server) (a : Addr) (principal : StdString) :
    Passes server (server.activateSession a principal) := by
  obtain ⟨internal, principals, index, effects, heq, hpaths⟩ :=
    activateSession_eq server a principal
  rw [heq]
  exact passes_update rfl rfl rfl (fun _ => reaches_of_paths hpaths) (id_of_paths hpaths)

theorem passes_close (server : Server) : Passes server server.close := by
  have hall : ∀ (sessions : List Addr) (server : Server),
      Passes server (sessions.foldl Server.closeSession server) := by
    intro sessions
    induction sessions with
    | nil => exact fun server => passes_refl server
    | cons a sessions ih => exact fun server => (passes_closeSession server a).trans (ih _)
  have hemptied : Passes server
      { server with sessions := ∅, tmpSessions := ∅, principalIndex := ∅ } :=
    passes_of_heap rfl rfl (fun _ _ => id) fun _ => rfl
  exact hemptied.trans (hall _ _)

variable [HashOrder Addr]

theorem passes_perform (server : Server) {action : Action} (h : beginning action = none) :
    Passes server (perform server action) := by
  cases action with
  | connect | identify | takeOver | create => cases h
  | disconnect clientUuid cause => exact passes_handleSessionDisconnect server clientUuid cause
  | close => exact passes_close server
  | limit ws now => exact passes_limitFrame server ws now
  | shut ws => exact passes_setConnection server ws rfl rfl id rfl
  | answerTopic a frame =>
      obtain ⟨history, heq⟩ := dispatchTopic_eq server a frame
      have hfooting := footing_handleClientTopicFrame (server.heap a).session
        (server.heap a).tables frame
      rw [perform, heq]
      exact passes_update rfl rfl rfl (fun _ => id) (id_of_footing hfooting)
  | answer a frame =>
      obtain ⟨principals, effects, heq, -⟩ := runSession_eq server a
        fun session tx => session.handleFrame tx frame
      have hidentity := identity_handleFrame (server.heap a).session
        ((server.heap a).session.txProvider.bind server.principals.principals.lookup) frame
      rw [perform, heq]
      exact passes_update rfl rfl rfl (fun _ => id) (congrArg Identity.id hidentity)
  | authorize clientUuid principal via =>
      rw [perform, Server.authorize]
      split
      · exact passes_refl server
      cases server.tmpSessions.lookup clientUuid with
      | none => exact passes_refl server
      | some a =>
          obtain ⟨effects, framesOut, heq, -⟩ := accept_eq server clientUuid a principal via
          have haccepted : Passes server (server.accept clientUuid a principal via) := by
            rw [heq]
            exact passes_update rfl rfl rfl (fun _ => id) rfl
          exact haccepted.trans (passes_activateSession _ a principal)
  | reject clientUuid reason =>
      rw [perform]
      cases server.tmpSessions.lookup clientUuid with
      | none => exact passes_refl server
      | some a =>
          obtain ⟨history, framesOut, heq⟩ := sendFrame_eq
            { server with tmpSessions := server.tmpSessions.erase clientUuid } a
            (authFailFrame reason)
          dsimp only
          rw [heq]
          exact passes_of_heap rfl rfl (fun _ _ => id) fun _ => rfl
  | callSession a call =>
      obtain ⟨history, heq⟩ := changeSession_eq server a call.operation
      have hfooting := footing_operation call (server.heap a).session
      rw [perform, heq]
      exact passes_update rfl rfl rfl (fun _ => id) (id_of_footing hfooting)
  | callPrincipal name call =>
      obtain ⟨history, heq⟩ := changePrincipal_eq server name call.operation
      rw [perform, heq]
      exact passes_of_heap rfl rfl (fun _ _ => id) fun _ => rfl
  | clearPrincipal name =>
      obtain ⟨history, heq⟩ := clearPrincipal_eq server name
      rw [perform, heq]
      exact passes_of_heap rfl rfl (fun _ _ => id) fun _ => rfl
  | stopHeartbeat => exact passes_update rfl rfl rfl (fun _ => id) rfl
  | receive | dispatch | heartbeat | enableAuthorization | setMaxConnections | setMaxFramesPerSec
  | onAuthorize => exact passes_of_heap rfl rfl (fun _ _ => id) fun _ => rfl

theorem passes_run (server : Server) {actions : List Action} (h : UnderWay actions) :
    Passes server (run perform server actions) := by
  induction actions generalizing server with
  | nil => exact passes_refl server
  | cons action actions ih =>
      rw [underWay_cons] at h
      exact (passes_perform server h.1).trans (ih _ h.2)

end Passages

end DanWs.ConnectionPaths
