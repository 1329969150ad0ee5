import DanWs.ServerTurns

namespace DanWs.ServerSteps

open DanWs.FiniteMaps
open DanWs.Principals
open DanWs.ServerConditions
open DanWs.ServerMoves
open DanWs.ServerTurns
open DanWs.Servers
open DanWs.SessionStanding
open DanWs.Sessions
open DanWs.StepRuns
open DanWs.WireTypes

theorem moves_handleSessionDisconnect {permits : Permits} (server : Server) {uuid : StdString}
    {cause : ConnId} (h : permits.disconnect server uuid cause) :
    Moves permits server (server.handleSessionDisconnect uuid cause) := by
  rw [Server.handleSessionDisconnect]
  cases hactive : server.sessions.lookup uuid with
  | none =>
      cases hpending : server.tmpSessions.lookup uuid with
      | none => exact .refl
      | some a =>
          refine .tail (.single (.tearDownPending hactive hpending h)) (.quiet ?_)
          exact quiet_put permits _ a { server.heap a with heartbeatRunning := false } _ rfl .inl
  | some a =>
      dsimp only
      split
      · exact .single (.tearDownActive hactive h)
      · exact .refl

section Attachment

variable {server : Server}

theorem attaches_attachPending {uuid : StdString} {a : Addr} (ws : ConnId)
    (hactive : server.sessions.lookup uuid = some a) :
    Attaches server (server.attachPending uuid a ws) uuid a ws := by
  refine ⟨rfl, rfl, rfl, rfl, rfl, ?_, ?_, ?_, ?_, .inl ⟨hactive, rfl, ?_, .inl ?_⟩⟩
  · intro b hb
    simp [Server.attachPending, Server.reattach, Server.record, Server.put, hb]
  all_goals simp [Server.attachPending, Server.reattach, Server.record, Server.put,
    Session.handleReconnect]

theorem attaches_attachAuthorized {uuid : StdString} {a : Addr} (ws : ConnId)
    (principal : StdString) (hactive : server.sessions.lookup uuid = some a)
    (hprincipal : (server.heap a).session.principal ≠ [] →
      principal = (server.heap a).session.principal) :
    Attaches server (server.attachAuthorized uuid a ws principal) uuid a ws := by
  refine ⟨rfl, rfl, rfl, rfl, rfl, ?_, ?_, ?_, ?_, .inl ⟨hactive, rfl, ?_, ?_⟩⟩
  · intro b hb
    simp [Server.attachAuthorized, Server.reattach, Server.record, Server.put, hb]
  · simp [Server.attachAuthorized, Server.reattach, Server.record, Server.put]
  · simp [Server.attachAuthorized, Server.reattach, Server.record, Server.put]
  · simp [Server.attachAuthorized, Server.reattach, Server.record, Server.put,
      Session.authorize]
  · simp [Server.attachAuthorized, Server.reattach, Server.record, Server.put,
      Session.handleReconnect, Session.authorize]
  · rcases eq_or_ne (server.heap a).session.principal [] with h | h
    · exact .inr h
    · left
      simp [Server.attachAuthorized, Server.reattach, Server.record, Server.put,
        Session.authorize, hprincipal h]

theorem defaultPrincipal_ne_nil (server : Server) : server.defaultPrincipal ≠ [] := by
  rw [Server.defaultPrincipal]
  split <;> decide

theorem attaches_createPending {uuid : StdString} (ws : ConnId) (now : Nat)
    (hnone : server.sessions.lookup uuid = none) :
    Attaches server (server.createPending uuid ws now) uuid server.nextAddr ws := by
  refine ⟨rfl, rfl, rfl, rfl, rfl, ?_, ?_, ?_, ?_, .inr ⟨hnone, rfl, rfl, ?_⟩⟩
  · intro b hb
    simp [Server.createPending, Server.record, Server.put, hb]
  all_goals simp [Server.createPending, Server.record, Server.put, InternalSession.new,
    Session.new]

theorem attaches_createAuthorized {uuid : StdString} (ws : ConnId) (now : Nat)
    (principal : StdString) (hnone : server.sessions.lookup uuid = none) :
    Attaches server (server.createAuthorized uuid ws now principal) uuid server.nextAddr ws := by
  refine ⟨rfl, rfl, rfl, rfl, rfl, ?_, ?_, ?_, ?_, .inr ⟨hnone, rfl, rfl, ?_⟩⟩
  · intro b hb
    simp [Server.createAuthorized, Server.record, Server.put, hb]
  all_goals simp [Server.createAuthorized, Server.record, Server.put, InternalSession.new,
    Session.new, Session.authorize]

end Attachment

section Activation

variable {permits : Permits} {server : Server}

theorem quiet_runSession {a : Addr} (hactive : Active server a)
    {operation : Session → Option PrincipalTX → Outcome}
    (hkeep : ∀ session tx, identity (operation session tx).session = identity session) :
    Quiet permits server (server.runSession a operation) := by
  rw [Server.runSession]
  dsimp only
  generalize houtcome : operation (server.heap a).session _ = outcome
  have hidentity : identity outcome.session = identity (server.heap a).session := by
    rw [← houtcome]
    exact hkeep _ _
  have henqueued := fun principals => @quiet_put_enqueue permits server a
    { server.heap a with session := outcome.session } principals outcome.frames
    (by simp only [attachment, hidentity]) (fun _ => .inr hactive)
    (fun frame _ _ => .inr ⟨a, rfl, .inl hactive⟩)
  split
  · exact (henqueued _).then_emits (Emits.record _ (.onReady a) trivial)
  · exact henqueued _

theorem moves_closeSessions (sessions : List Addr) {server : Server}
    (hsessions : server.sessions = ∅) (htmpSessions : server.tmpSessions = ∅) :
    Moves permits server (sessions.foldl Server.closeSession server) := by
  induction sessions generalizing server with
  | nil => exact .refl
  | cons a sessions ih =>
      have hretire : Move permits server (server.closeSession a) := by
        refine .retire ?_ ?_
        · rintro ⟨uuid, huuid⟩
          rw [hsessions, Finmap.lookup_empty] at huuid
          cases huuid
        · rintro ⟨uuid, huuid⟩
          rw [htmpSessions, Finmap.lookup_empty] at huuid
          cases huuid
      obtain ⟨connections, heq⟩ := closeSession_eq server a
      exact .head hretire (ih (by rw [heq]; exact hsessions) (by rw [heq]; exact htmpSessions))

variable [HashOrder StdString]

theorem moves_startSync (server : Server) {a : Addr} (hactive : Active server a)
    (principal : StdString) :
    Moves permits server
      (((server.put a
        { server.heap a with
          session := (server.heap a).session.setTxProviders principal }).record
            (.onConnection a)).runSession a Session.startSync) := by
  have hput := quiet_put permits server a
    { server.heap a with session := (server.heap a).session.setTxProviders principal }
    server.principals rfl fun _ => .inr hactive
  have hnoted := hput.then_emits (Emits.record _ (.onConnection a) trivial)
  have hactive' := (hnoted.active a).mpr hactive
  exact .head (.quiet hnoted) (.single (.quiet (quiet_runSession hactive' identity_startSync)))

theorem moves_activateSession {a : Addr} {principal : StdString} (hactive : Active server a)
    (hprincipal : (server.heap a).session.principal = principal) (hne : principal ≠ []) :
    Moves permits server (server.activateSession a principal) := by
  rw [Server.activateSession]
  dsimp only
  split
  · refine .single (.quiet ?_)
    have hput := quiet_put permits server a
      { server.heap a with session := (server.heap a).session.bindSessionTX }
      server.principals rfl fun _ => .inr hactive
    refine hput.then_emits
      ((Emits.record _ (.onConnection a) trivial).trans (emits_enqueue _ _ _ ?_))
    intro frame _ _
    exact .inr ⟨a, by simp [Server.put, Server.record], .inl hactive⟩
  · generalize (server.principals.principal (server.effectivePrincipal principal)).1.addSession _ =
      principals
    have hindex : Move permits { server with principals }
        ({ server with principals }.indexAddSession (server.effectivePrincipal principal) a) := by
      have hmove : Move permits { server with principals }
          ({ server with principals }.indexAddSession
            (server.effectivePrincipal (server.heap a).session.principal) a) :=
        .index hactive (by rwa [hprincipal])
      rwa [hprincipal] at hmove
    refine .head (.quiet (quiet_settings permits server _ _ _ _ principals _)) (.head hindex ?_)
    exact moves_startSync ({ server with principals }.indexAddSession
      (server.effectivePrincipal principal) a) hactive _

theorem moves_attach {uuid : StdString} {a : Addr} {ws : ConnId}
    (hactive : server.sessions.lookup uuid = some a) :
    Moves permits server (server.attach uuid a ws) := by
  rw [Server.attach]
  split
  · refine .single (.pend (attaches_attachPending ws hactive) (fun u => ?_) rfl rfl)
    exact lookup_erase_eq_ite _ _ _
  · next hauth =>
      dsimp only
      generalize hprincipal : (if (server.heap a).session.principal = [] then _ else _) = principal
      have hne : principal ≠ [] := by
        rw [← hprincipal]
        split
        · exact defaultPrincipal_ne_nil server
        · assumption
      have hattaches := attaches_attachAuthorized ws principal hactive fun h => by
        rw [← hprincipal, if_neg h]
      refine .head (.activate (by simpa using hauth) hattaches (fun u => ?_) rfl rfl)
        (moves_activateSession ⟨uuid, hactive⟩ ?_ hne)
      · split
        · next hu => exact hu ▸ hactive
        · rfl
      · simp [Server.attachAuthorized, Server.record, Server.put, Session.authorize]

theorem moves_createSession {uuid : StdString} {ws : ConnId} {now : Nat}
    (hnone : server.sessions.lookup uuid = none) :
    Moves permits server (server.createSession uuid ws now) := by
  rw [Server.createSession]
  split
  · refine .single (.pend (attaches_createPending ws now hnone) (fun u => ?_) rfl rfl)
    split
    · next hu => exact hu ▸ hnone
    · rfl
  · next hauth =>
      have hne := defaultPrincipal_ne_nil server
      generalize server.defaultPrincipal = principal at hne ⊢
      refine .head (.activate (by simpa using hauth)
        (attaches_createAuthorized ws now principal hnone) (fun u => ?_) rfl rfl)
        (moves_activateSession ⟨uuid, ?_⟩ ?_ hne)
      · exact lookup_insert_eq_ite _ _ _ _
      · exact Finmap.lookup_insert _
      · simp [Server.createAuthorized, Server.record, Server.put, Session.authorize]

theorem moves_close : Moves permits server server.close :=
  .head (.empty server) (moves_closeSessions _ rfl rfl)

theorem moves_authorize {uuid principal : StdString} {a : Addr} {via : Via}
    (hpending : server.tmpSessions.lookup uuid = some a) (hprincipal : principal ≠ [])
    (h : permits.authorize server uuid principal via) :
    Moves permits server ((server.accept uuid a principal via).activateSession a principal) := by
  refine .head (.accept hpending hprincipal h) (moves_activateSession ?_ ?_ hprincipal) <;>
    obtain ⟨effects, framesOut, haccept, -⟩ := accept_eq server uuid a principal via <;>
    rw [haccept]
  · exact ⟨uuid, Finmap.lookup_insert _⟩
  · simp [Session.authorize]

theorem moves_turn {terms : Terms} {next : Server}
    (h : Turn permits terms server next) : Moves permits server next := by
  cases h with
  | calm hcalm => exact .single (.quiet hcalm.toQuiet)
  | connect ws hconnection => exact .single (.quiet (quiet_settings permits server _ _ _ _ _ _))
  | answer hactive frame =>
      exact .single (.quiet (quiet_runSession hactive fun session tx =>
        identity_handleFrame session tx frame))
  | disconnect hpermitted => exact moves_handleSessionDisconnect server hpermitted
  | authorize hpending hprincipal hpermitted =>
      exact moves_authorize hpending hprincipal hpermitted
  | withdraw uuid => exact .single (.withdraw uuid)
  | attach ws hactive htakeover => exact moves_attach hactive
  | create ws now hnone hroom => exact moves_createSession hnone
  | close => exact moves_close
  | enable hpermitted => exact .single (.enable hpermitted)
  | limit hlimit => exact .single (.quiet (quiet_settings permits server _ _ _ _ _ _))
  | listen callback hpermitted => exact .single (.listen callback hpermitted)
  | undefined hpermitted => exact .single (.undefined server hpermitted)

end Activation

section Steps

variable {permits : Permits}

theorem moves_keep {invariant : Server → Prop}
    (hmove : ∀ server next, invariant server → Move permits server next → invariant next)
    {server next : Server} (h : invariant server) (hmoves : Moves permits server next) :
    invariant next := by
  induction hmoves with
  | refl => exact h
  | tail _ hlast ih => exact hmove _ _ ih hlast

variable [HashOrder StdString] [HashOrder Addr]

theorem moves_step (server : Server) {event : Event} (h : stepMeets permits server event) :
    Moves permits server (step server event) := by
  have hturns : Turns permits Terms.any server (step server event) :=
    turns_step server h ⟨fun _ => trivial, fun _ _ => trivial, fun _ _ => trivial⟩
  exact turns_keep (fun _ _ hmoves hturn => hmoves.trans (moves_turn hturn)) .refl hturns

/-- An invariant of the moves holds behind every permitted run. -/
theorem moves_run {invariant : Server → Prop}
    (hmove : ∀ server next, invariant server → Move permits server next → invariant next)
    {server : Server} (h : invariant server) {events : List Event}
    (hmeet : StepsMeet step (fun server event => stepMeets permits server event) server events) :
    invariant (run step server events) :=
  invariant_run (fun server _ hserver hevent => moves_keep hmove hserver (moves_step server hevent))
    h hmeet

/-- What the moves may record from states with an invariant is all that
permitted runs record. -/
theorem effects_run {invariant : Server → Prop} {recorded : Effect → Prop}
    (hmove : ∀ server next, invariant server → Move permits server next → invariant next)
    (hrecorded : ∀ server effect, invariant server → Recorded permits server effect →
      recorded effect)
    {server : Server} (h : invariant server) (hempty : server.history = []) {events : List Event}
    (hmeet : StepsMeet step (fun server event => stepMeets permits server event) server events) :
    ∀ effect ∈ (run step server events).history, recorded effect := by
  have hkeep : ∀ server next,
      (invariant server ∧ ∀ effect ∈ server.history, recorded effect) →
      Move permits server next → invariant next ∧ ∀ effect ∈ next.history, recorded effect := by
    rintro server next ⟨hserver, hhistory⟩ hnext
    obtain ⟨effects, heq, heffects⟩ := recorded_move hnext
    refine ⟨hmove server next hserver hnext, ?_⟩
    rw [heq, List.forall_mem_append]
    exact ⟨fun effect hmem => hrecorded server effect hserver (heffects effect hmem), hhistory⟩
  exact (moves_run hkeep ⟨h, by simp [hempty]⟩ hmeet).2

end Steps

end DanWs.ServerSteps
