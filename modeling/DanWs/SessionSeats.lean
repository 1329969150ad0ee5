import DanWs.ServedSessions

namespace DanWs.SessionSeats

open DanWs.ConnectionPaths
open DanWs.EventActions
open DanWs.FiniteMaps
open DanWs.KeyFrameCache
open DanWs.KeyRequests
open DanWs.PrincipalContents
open DanWs.PrincipalTraffic
open DanWs.Principals
open DanWs.ServerActions
open DanWs.ServerCalls
open DanWs.ServerConditions
open DanWs.ServerMoves
open DanWs.Servers
open DanWs.Sessions
open DanWs.StepRuns
open DanWs.WatchedSessions
open DanWs.WireRows
open DanWs.WireTypes

section Seats

/-- The connection speaks for the uuid, and its session is the object `a`. -/
structure Seated (uuid : StdString) (a : Addr) (ws : ConnId) (server : Server) : Prop where
  listening : (server.connections ws).listening
  named : (server.connections ws).clientUuid = uuid
  active : server.sessions.lookup uuid = some a
  unpended : server.tmpSessions.lookup uuid = none

variable {uuid other : StdString} {a b : Addr} {ws : ConnId} {server next : Server}

namespace Seated

theorem congr (h : Seated uuid a ws server)
    (hconnection : next.connections ws = server.connections ws)
    (hsessions : next.sessions.lookup uuid = server.sessions.lookup uuid)
    (htmp : next.tmpSessions.lookup uuid = none) : Seated uuid a ws next :=
  ⟨hconnection ▸ h.listening, hconnection ▸ h.named, hsessions.trans h.active, htmp⟩

theorem keep (h : Seated uuid a ws server) (hconnections : next.connections = server.connections)
    (hsessions : next.sessions = server.sessions) (htmp : next.tmpSessions = server.tmpSessions) :
    Seated uuid a ws next :=
  h.congr (congrFun hconnections ws) (by rw [hsessions]) (htmp ▸ h.unpended)

theorem ne_of_lookup (h : Seated uuid a ws server)
    (hother : server.sessions.lookup other ≠ some a) :
    other ≠ uuid := by
  rintro rfl
  exact hother h.active

theorem setConnection (h : Seated uuid a ws server) {target : ConnId} (hne : target ≠ ws)
    (connection : Connection) : Seated uuid a ws (server.setConnection target connection) :=
  h.congr (Function.update_of_ne hne.symm _ _) rfl h.unpended

end Seated

theorem seated_activateSession [HashOrder StdString] (h : Seated uuid a ws server)
    (principal : StdString) : Seated uuid a ws (server.activateSession b principal) := by
  obtain ⟨internal, principals, index, effects, heq, -⟩ := activateSession_eq server b principal
  rw [heq]
  exact h.keep rfl rfl rfl

theorem seated_disconnect (h : Seated uuid a ws server)
    (hspares : server.sessions.lookup other ≠ some a) (cause : ConnId) :
    Seated uuid a ws (server.handleSessionDisconnect other cause) := by
  have hne := h.ne_of_lookup hspares
  obtain heq | ⟨b, -, heq⟩ | ⟨b, -, heq⟩ := handleSessionDisconnect_cases server other cause
  · rwa [heq]
  · rw [heq]
    exact h.congr rfl rfl ((Finmap.lookup_erase_ne hne.symm).trans h.unpended)
  · obtain ⟨index, principals, hdown, -⟩ := tearDownActive_eq server other cause b
    rw [heq, hdown]
    exact h.congr rfl (Finmap.lookup_erase_ne hne.symm) h.unpended

theorem seated_attach [HashOrder StdString] (h : Seated uuid a ws server) (hne : other ≠ uuid)
    (target : ConnId) : Seated uuid a ws (server.attach other b target) := by
  rw [Server.attach]
  split
  · exact h.congr rfl (Finmap.lookup_erase_ne hne.symm)
      ((Finmap.lookup_insert_of_ne _ hne.symm).trans h.unpended)
  · refine seated_activateSession ?_ _
    exact h.keep rfl rfl rfl

theorem seated_createSession [HashOrder StdString] (h : Seated uuid a ws server)
    (hne : other ≠ uuid) (target : ConnId) (now : Nat) :
    Seated uuid a ws (server.createSession other target now) := by
  rw [Server.createSession]
  split
  · exact h.congr rfl rfl ((Finmap.lookup_insert_of_ne _ hne.symm).trans h.unpended)
  · refine seated_activateSession ?_ _
    exact h.congr rfl (Finmap.lookup_insert_of_ne _ hne.symm) h.unpended

theorem seated_accept (h : Seated uuid a ws server)
    (hpending : server.tmpSessions.lookup other = some b) (principal : StdString) (via : Via) :
    Seated uuid a ws (server.accept other b principal via) := by
  have hne : other ≠ uuid := by
    rintro rfl
    exact Option.some_ne_none b (hpending.symm.trans h.unpended)
  obtain ⟨effects, framesOut, heq, -⟩ := accept_eq server other b principal via
  rw [heq]
  exact h.congr rfl (Finmap.lookup_insert_of_ne _ hne.symm)
    ((Finmap.lookup_erase_ne hne.symm).trans h.unpended)

variable [HashOrder StdString] [HashOrder Addr]

theorem seated_perform (h : Seated uuid a ws server) {action : Action}
    (hspares : Spares a ws server action) (hbeginning : beginning action ≠ some ws) :
    Seated uuid a ws (perform server action) := by
  cases action with
  | connect target closesSynchronously =>
      exact h.setConnection (fun heq => hbeginning (congrArg some heq)) _
  | identify target clientUuid =>
      exact h.setConnection (fun heq => hbeginning (congrArg some heq)) _
  | shut target => exact h.setConnection hspares _
  | close => cases hspares
  | limit target now =>
      obtain ⟨heap, heq⟩ := limitFrame_eq server target now
      rw [perform, heq]
      exact h.keep rfl rfl rfl
  | disconnect clientUuid cause => exact seated_disconnect h hspares cause
  | takeOver clientUuid target =>
      have hne := h.ne_of_lookup hspares
      rw [perform]
      cases server.sessions.lookup clientUuid with
      | none => exact h.keep rfl rfl rfl
      | some b => exact seated_attach h hne target
  | create clientUuid target now =>
      rw [perform]
      cases hlookup : server.sessions.lookup clientUuid with
      | some b => exact h
      | none =>
          refine seated_createSession h (h.ne_of_lookup ?_) target now
          rw [hlookup]
          exact (Option.some_ne_none a).symm
  | authorize clientUuid principal via =>
      rw [perform, Server.authorize]
      split
      · exact h
      cases hpending : server.tmpSessions.lookup clientUuid with
      | none => exact h
      | some b => exact seated_activateSession (seated_accept h hpending principal via) principal
  | reject clientUuid reason =>
      rw [perform]
      cases hpending : server.tmpSessions.lookup clientUuid with
      | none => exact h
      | some b =>
          have hne : clientUuid ≠ uuid := by
            rintro rfl
            exact Option.some_ne_none b (hpending.symm.trans h.unpended)
          obtain ⟨history, framesOut, heq⟩ := sendFrame_eq
            { server with tmpSessions := server.tmpSessions.erase clientUuid } b
            (authFailFrame reason)
          dsimp only
          rw [heq]
          exact h.congr rfl rfl ((Finmap.lookup_erase_ne hne.symm).trans h.unpended)
  | answer b frame =>
      obtain ⟨principals, effects, heq, -⟩ := runSession_eq server b
        fun session tx => session.handleFrame tx frame
      rw [perform, heq]
      exact h.keep rfl rfl rfl
  | answerTopic b frame =>
      obtain ⟨history, heq⟩ := dispatchTopic_eq server b frame
      rw [perform, heq]
      exact h.keep rfl rfl rfl
  | callSession b call =>
      obtain ⟨history, heq⟩ := changeSession_eq server b call.operation
      rw [perform, heq]
      exact h.keep rfl rfl rfl
  | callPrincipal name call =>
      obtain ⟨history, heq⟩ := changePrincipal_eq server name call.operation
      rw [perform, heq]
      exact h.keep rfl rfl rfl
  | clearPrincipal name =>
      obtain ⟨history, heq⟩ := clearPrincipal_eq server name
      rw [perform, heq]
      exact h.keep rfl rfl rfl
  | receive | dispatch | stopHeartbeat | heartbeat | enableAuthorization | setMaxConnections
  | setMaxFramesPerSec | onAuthorize => exact h.keep rfl rfl rfl

theorem seated_actions (h : Seated uuid a ws server) {actions : List Action}
    (hspares : StepsMeet perform (Spares a ws) server actions)
    (hbeginning : ∀ action ∈ actions, beginning action ≠ some ws) :
    Seated uuid a ws (run perform server actions) := by
  induction actions generalizing server with
  | nil => exact h
  | cons action actions ih =>
      obtain ⟨hfirst, hrest⟩ := List.forall_mem_cons.mp hbeginning
      exact ih (seated_perform h hspares.1 hfirst) hspares.2 hrest

end Seats

section Answers

variable {name : StdString} {a : Addr} {ws : ConnId} {server : Server}

theorem framesOn_enqueue (htarget : (server.heap a).flushTarget = ws)
    (hopen : (server.connections ws).isOpen) (frames : List Frame) :
    framesOn ws (server.enqueue a frames).history = framesOn ws server.history ++ frames := by
  induction frames generalizing server with
  | nil => exact (List.append_nil _).symm
  | cons frame frames ih =>
      have hopened : (server.connections (server.heap a).flushTarget).isOpen := htarget ▸ hopen
      have hframe : frameOn ws (.sent ws frame) = some frame := if_pos rfl
      have hrest := @ih (server.record (.sent (server.heap a).flushTarget frame)) htarget hopen
      rw [Server.enqueue] at hrest ⊢
      rw [List.foldl_cons, if_pos hopened, hrest, Server.record]
      dsimp only
      rw [framesOn_cons, htarget, hframe, List.append_assoc]
      rfl

theorem framesOn_runSession (htarget : (server.heap a).flushTarget = ws)
    (hopen : (server.connections ws).isOpen)
    (operation : Session → Option PrincipalTX → Outcome) :
    framesOn ws (server.runSession a operation).history =
      framesOn ws server.history ++
        (operation (server.heap a).session
          ((server.heap a).session.txProvider.bind
            server.principals.principals.lookup)).frames := by
  have hsent : ∀ (session : Session) (principals : PrincipalManager) (frames : List Frame),
      framesOn ws
          (({ server.put a { server.heap a with session } with principals } : Server).enqueue a
            frames).history =
        framesOn ws server.history ++ frames := by
    intro session principals frames
    let internal : InternalSession := { server.heap a with session }
    let changed : Server := { server.put a internal with principals }
    have hkept : (changed.heap a).flushTarget = ws := by
      dsimp only [changed, Server.put]
      rwa [Function.update_self]
    exact @framesOn_enqueue a ws changed hkept hopen frames
  have hready : frameOn ws (.onReady a) = none := rfl
  rw [Server.runSession]
  dsimp only
  split
  · rw [Server.record]
    dsimp only
    rw [framesOn_cons, hsent, hready]
    exact List.append_nil _
  · exact hsent _ _ _

variable [HashOrder StdString]

theorem frames_startSync {ptx : PrincipalTX} (hexact : BuildsExactly ptx) (session : Session) :
    (session.startSync (some ptx)).frames =
      registrationFrames (wires ptx.flatState) ++ [signalFrame .serverSync] := by
  have hkeys := hexact.trans (uncachedKeyFrames_eq ptx)
  have hne : ptx.buildKeyFrames.2 ≠ [] := by
    rw [hkeys]
    simp
  simp only [Session.startSync, if_pos hne]
  exact hkeys

theorem framesOn_activateSession (htopic : server.isTopicMode = false)
    (htarget : (server.heap a).flushTarget = ws) (hopen : (server.connections ws).isOpen)
    {principal : StdString} (hname : server.effectivePrincipal principal = name)
    (hexact : BuildsExactly (server.principals.principal name).2) :
    framesOn ws (server.activateSession a principal).history =
      framesOn ws server.history ++
        (registrationFrames (wires (contents server.principals name).flatState) ++
          [signalFrame .serverSync]) := by
  have hconnection : frameOn ws (.onConnection a) = none := rfl
  have hstored : ((server.principals.principal name).1.addSession name).principals.lookup name =
      some (server.principals.principal name).2 := lookup_principal server.principals name
  rw [Server.activateSession, if_neg (by simp [htopic]), hname]
  dsimp only
  rw [framesOn_runSession]
  · rw [Server.record, Server.put]
    dsimp only
    rw [Function.update_self, framesOn_cons, hconnection]
    rw [Session.setTxProviders, Option.bind_some, Server.indexAddSession]
    dsimp only
    rw [hstored, frames_startSync hexact]
    exact congrArg (· ++ _) (List.append_nil _)
  · rw [Server.record, Server.put]
    dsimp only
    rwa [Function.update_self]
  · exact hopen

/-- A session that is activated on a connection of its own is told of the keys, and then
it is a session of the principal alone. -/
theorem watched_activated (hknown : ∀ b, Listed server b → b < server.nextAddr)
    (hsole : ∀ b, b < server.nextAddr → Reaches (server.heap b) ws → b = a)
    (hnew : ∀ other, ¬ Indexed server other a) (hunpended : ¬ Pending server a)
    (ha : a < server.nextAddr) (hconnected : (server.heap a).session.connected)
    (hattached : (server.heap a).ws = some ws) (htarget : (server.heap a).flushTarget = ws)
    (hopen : (server.connections ws).isOpen) (htopic : server.isTopicMode = false)
    {principal : StdString} (hname : server.effectivePrincipal principal = name)
    (hexact : BuildsExactly (server.principals.principal name).2) :
    Watched (started (server.heap a).session name) name a ws
      (framesOn ws server.history ++
        (registrationFrames (wires (contents server.principals name).flatState) ++
          [signalFrame .serverSync]))
      (server.activateSession a principal) := by
  have hframes := framesOn_activateSession htopic htarget hopen hname hexact
  have hpasses := passes_activateSession server a principal
  have hreaches := fun b hreaches => hpasses.reaches b ws hreaches
  obtain ⟨principals, effects, heq, -⟩ := activateSession_principal server htopic a principal
  rw [hname] at heq
  rw [heq] at hframes hreaches ⊢
  refine ⟨?_, hconnected, hopen, fun other => ?_, hunpended, fun b hb => ?_,
    fun b hb hnext => hsole b hb (hreaches b hnext), hframes⟩
  · dsimp only
    rw [Function.update_self, post, hattached, htarget]
  · refine (indexed_indexAddSession_iff server).trans ?_
    rw [or_iff_right (hnew other), and_iff_left rfl]
  · rcases hb with hactive | hpending | ⟨other, hindexed⟩
    · exact hknown b (.inl hactive)
    · exact hknown b (.inr (.inl hpending))
    · rcases (indexed_indexAddSession_iff server).mp hindexed with hindexed | ⟨-, rfl⟩
      · exact hknown b (.inr (.inr ⟨other, hindexed⟩))
      · exact ha

end Answers

end DanWs.SessionSeats
