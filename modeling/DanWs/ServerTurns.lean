import DanWs.CalmActions
import DanWs.StepRuns

/-!
The steps of the server as sequences of turns: whole calls that register, attach,
authorize or take down one session, under the checks behind which the code makes
them. Whatever lies between them is calm. Every permitted step is such a sequence,
function by function of the source.
-/

namespace DanWs.ServerTurns

open DanWs.CalmActions
open DanWs.FiniteMaps
open DanWs.ServerConditions
open DanWs.ServerMoves
open DanWs.Servers
open DanWs.SessionStanding
open DanWs.StepRuns
open DanWs.WireTypes

section Turns

/-- Conditions on the turns of a server beside `Permits`. -/
structure Terms where
  /-- A session that is taken over is attached under this setting of `authEnabled_`. -/
  takeover : Bool → Prop
  /-- `setMaxConnections` is called. -/
  limit : Int → Prop
  /-- A connection comes that closes synchronously. -/
  synchronous : Prop

def Terms.any : Terms := ⟨fun _ => True, fun _ => True, True⟩

def Terms.Meets (terms : Terms) (server : Server) (event : Event) : Prop :=
  (takesOver server event → terms.takeover server.authEnabled) ∧
    (∀ max, event = .setMaxConnections max → terms.limit max) ∧
      ∀ ws, event = .connect ws true → terms.synchronous

variable [HashOrder StdString]

inductive Turn (permits : Permits) (terms : Terms) : Server → Server → Prop
  | calm {server next : Server} (h : Calm permits server next) :
      Turn permits terms server next
  | connect {server : Server} (ws : ConnId) {connection : Connection}
      (h : connection.closesSynchronously → terms.synchronous) :
      Turn permits terms server (server.setConnection ws connection)
  | answer {server : Server} {a : Addr} (hactive : Active server a) (frame : Frame) :
      Turn permits terms server
        (server.runSession a fun session tx => session.handleFrame tx frame)
  | disconnect {server : Server} {uuid : StdString} {cause : ConnId}
      (h : permits.disconnect server uuid cause) :
      Turn permits terms server (server.handleSessionDisconnect uuid cause)
  | authorize {server : Server} {uuid principal : StdString} {a : Addr} {via : Via}
      (hpending : server.tmpSessions.lookup uuid = some a) (hprincipal : principal ≠ [])
      (h : permits.authorize server uuid principal via) :
      Turn permits terms server
        ((server.accept uuid a principal via).activateSession a principal)
  | withdraw {server : Server} (uuid : StdString) :
      Turn permits terms server { server with tmpSessions := server.tmpSessions.erase uuid }
  | attach {server : Server} {uuid : StdString} {a : Addr} (ws : ConnId)
      (hactive : server.sessions.lookup uuid = some a) (h : terms.takeover server.authEnabled) :
      Turn permits terms server (server.attach uuid a ws)
  | create {server : Server} {uuid : StdString} (ws : ConnId) (now : Nat)
      (hnone : server.sessions.lookup uuid = none) (hroom : server.refuses uuid = false) :
      Turn permits terms server (server.createSession uuid ws now)
  | close (server : Server) : Turn permits terms server server.close
  | enable {server : Server} {enabled : Bool} (h : permits.enable enabled) :
      Turn permits terms server { server with authEnabled := enabled }
  | limit {server : Server} {max : Int} (h : terms.limit max) :
      Turn permits terms server { server with maxConnections := max }
  | listen {server : Server} (callback : StdString → StdString → List AuthCall)
      (h : permits.listen) :
      Turn permits terms server { server with onAuthorize := server.onAuthorize ++ [callback] }
  | undefined (server : Server) (h : permits.undefined) :
      Turn permits terms server { server with undefinedBehaviour := true }

abbrev Turns (permits : Permits) (terms : Terms) : Server → Server → Prop :=
  Relation.ReflTransGen (Turn permits terms)

variable {permits : Permits} {terms : Terms}

theorem turns_of_calm {server next : Server} (h : Calm permits server next) :
    Turns permits terms server next :=
  .single (.calm h)

theorem turns_onClose (server : Server) {ws : ConnId} (h : onCloseMeets permits server ws) :
    Turns permits terms server (server.onClose ws) := by
  rw [Server.onClose]
  rw [onCloseMeets] at h
  split
  · next hlistening =>
      rw [if_pos hlistening] at h
      exact .single (.disconnect h)
  · exact .refl

theorem turns_closeConnection (server : Server) {ws : ConnId}
    (h : closeMeets permits server ws) :
    Turns permits terms server (server.closeConnection ws) := by
  rw [Server.closeConnection]
  rw [closeMeets] at h
  split
  · next hopen =>
      have hclosed : Turns permits terms server
          (server.setConnection ws { server.connections ws with isOpen := false }) :=
        turns_of_calm (calm_setConnection permits server ws _ id)
      dsimp only
      split
      · next hsync =>
          rw [if_pos ⟨hopen, hsync⟩] at h
          exact hclosed.trans (turns_onClose _ h)
      · exact hclosed
  · exact .refl

theorem turns_closeOld (server : Server) {a : Addr}
    (h : (match (server.heap a).ws with
      | none => true
      | some old => closeMeets permits server old) = true) :
    Turns permits terms server (server.closeOld a) := by
  rw [Server.closeOld]
  cases hws : (server.heap a).ws with
  | none => exact .refl
  | some old =>
      rw [hws] at h
      exact turns_closeConnection server h

theorem turns_authorize {server next : Server} {uuid principal : StdString} {via : Via}
    (h : permits.authorize server uuid principal via)
    (hnext : server.authorize uuid principal via = .ok next) :
    Turns permits terms server next := by
  rw [Server.authorize] at hnext
  rcases eq_or_ne principal [] with hprincipal | hprincipal
  · rw [if_pos hprincipal] at hnext
    cases hnext
  · rw [if_neg hprincipal] at hnext
    cases hpending : server.tmpSessions.lookup uuid with
    | none =>
        rw [hpending] at hnext
        cases hnext
        exact .refl
    | some a =>
        rw [hpending] at hnext
        cases hnext
        exact .single (.authorize hpending hprincipal h)

theorem turns_reject (server : Server) {uuid reason : StdString}
    (h : rejectMeets permits server uuid reason) :
    Turns permits terms server (server.reject uuid reason) := by
  rw [Server.reject]
  rw [rejectMeets] at h
  cases hpending : server.tmpSessions.lookup uuid with
  | none => exact .refl
  | some a =>
      rw [hpending] at h
      dsimp only at h ⊢
      refine (Relation.ReflTransGen.single (Turn.withdraw uuid)).trans ?_
      refine .head (.calm (calm_sendFrame _ a (authFailFrame reason) rfl)) ?_
      split
      · exact .refl
      · next ws hws =>
          rw [hws] at h
          exact turns_closeConnection _ h

theorem turns_runCalls {via : Via} (calls : List AuthCall) {server : Server}
    (h : callsMeet permits via server calls) :
    Turns permits terms server (Server.runCalls via server calls) := by
  induction calls generalizing server with
  | nil => exact .refl
  | cons call calls ih =>
      rw [callsMeet, Bool.and_eq_true] at h
      obtain ⟨hcall, hcalls⟩ := h
      rw [Server.runCalls]
      cases hnext : server.applyCall via call with
      | error fault => exact .refl
      | ok next =>
          rw [hnext] at hcalls
          refine Relation.ReflTransGen.trans ?_ (ih hcalls)
          cases call with
          | authorize uuid token principal => exact turns_authorize hcall hnext
          | reject uuid reason =>
              cases hnext
              exact turns_reject server hcall

theorem turns_callbacks {via : Via} {uuid token : StdString}
    (callbacks : List (StdString → StdString → List AuthCall)) {server : Server}
    (h : callbacksMeet permits via uuid token server callbacks) :
    Turns permits terms server (callbacks.foldl
      (fun server callback => Server.runCalls via server (callback uuid token)) server) := by
  induction callbacks generalizing server with
  | nil => exact .refl
  | cons callback callbacks ih =>
      rw [callbacksMeet, Bool.and_eq_true] at h
      exact (turns_runCalls _ h.1).trans (ih h.2)

theorem turns_dispatchAuth {server : Server} {ws : ConnId} {frame : Frame}
    (h : authMeets permits server ws frame) :
    Turns permits terms server (server.dispatchAuth ws frame) := by
  rw [Server.dispatchAuth]
  rw [authMeets] at h
  dsimp only at h ⊢
  cases hpending : server.tmpSessions.lookup (server.connections ws).clientUuid with
  | none => exact .refl
  | some a =>
      rw [hpending] at h
      dsimp only at h ⊢
      split
      · next hauth =>
          rw [hauth, Bool.not_true, Bool.false_or, Bool.and_eq_true] at h
          exact .head (.calm (calm_record server (.dispatched ws a _)
            ⟨rfl, _, .inl ⟨hpending, h.1⟩⟩ id)) (turns_callbacks _ h.2)
      · exact .refl

theorem turns_dispatchSession {server : Server} {ws : ConnId} {frame : Frame}
    (h : sessionMeets permits server ws) :
    Turns permits terms server (server.dispatchSession ws frame) := by
  rw [Server.dispatchSession]
  rw [sessionMeets] at h
  dsimp only at h ⊢
  cases hactive : server.sessions.lookup (server.connections ws).clientUuid with
  | none => exact .refl
  | some a =>
      rw [hactive, Option.isNone_some, Bool.false_or] at h
      have hnoted : Calm permits server (server.record (.dispatched ws a (server.heap a).ws)) :=
        calm_record server _ ⟨rfl, _, .inr ⟨hactive, h⟩⟩ id
      have hactive' := (hnoted.active a).mpr ⟨_, hactive⟩
      refine .head (.calm hnoted) ?_
      dsimp only
      split
      · exact turns_of_calm (calm_dispatchTopic hactive' frame)
      · exact .single (.answer hactive' frame)

end Turns

section Takeover

/-- The entry of a uuid in `sessions_` stays as it is, or is erased. -/
def EntryKept (uuid : StdString) (server next : Server) : Prop :=
  next.authEnabled = server.authEnabled ∧
    (next.sessions.lookup uuid = none ∨
      next.sessions.lookup uuid = server.sessions.lookup uuid)

theorem entryKept_handleSessionDisconnect (uuid : StdString) (server : Server) (u : StdString)
    (cause : ConnId) : EntryKept uuid server (server.handleSessionDisconnect u cause) := by
  rw [Server.handleSessionDisconnect]
  cases server.sessions.lookup u with
  | none =>
      cases server.tmpSessions.lookup u with
      | none => exact ⟨rfl, .inr rfl⟩
      | some a => exact ⟨rfl, .inr rfl⟩
  | some a =>
      dsimp only
      split
      · obtain ⟨index, principals, heq, -⟩ := tearDownActive_eq server u cause a
        rw [heq]
        refine ⟨rfl, ?_⟩
        rw [lookup_erase_eq_ite]
        split
        · exact .inl rfl
        · exact .inr rfl
      · exact ⟨rfl, .inr rfl⟩

theorem entryKept_closeOld (uuid : StdString) (server : Server) (a : Addr) :
    EntryKept uuid server (server.closeOld a) := by
  unfold Server.closeOld Server.closeConnection
  dsimp only
  split
  · exact ⟨rfl, .inr rfl⟩
  · split
    · split
      · rw [Server.onClose]
        split
        · exact entryKept_handleSessionDisconnect uuid (server.setConnection _ _) _ _
        · exact ⟨rfl, .inr rfl⟩
      · exact ⟨rfl, .inr rfl⟩
    · exact ⟨rfl, .inr rfl⟩

variable [HashOrder StdString] {permits : Permits} {terms : Terms} {server : Server}

theorem turns_takeOver {uuid : StdString} {a : Addr} {ws : ConnId}
    (hactive : server.sessions.lookup uuid = some a) (h : takeOverMeets permits server uuid a)
    (htakeover : terms.takeover server.authEnabled) :
    Turns permits terms server (server.takeOver uuid a ws) := by
  rw [takeOverMeets, Bool.and_eq_true] at h
  unfold Server.takeOver
  apply (turns_closeOld server h.1).trans
  dsimp only
  split
  · next hnone => exact .single (.undefined _ (by simpa [hnone] using h.2))
  · next hsome =>
      obtain ⟨hauth, hentry⟩ := entryKept_closeOld uuid server a
      have hactive' : (server.closeOld a).sessions.lookup uuid = some a := by
        rw [hentry.resolve_left hsome, hactive]
      exact .single (.attach ws hactive' (hauth ▸ htakeover))

theorem turns_handleIdentified {ws : ConnId} {uuid : StdString} {now : Nat}
    (h : identifiedMeets permits server ws uuid)
    (htakeover : (server.sessions.lookup uuid).isSome → terms.takeover server.authEnabled) :
    Turns permits terms server (server.handleIdentified ws uuid now) := by
  rw [Server.handleIdentified]
  rw [identifiedMeets] at h
  split
  · next hrefused =>
      rw [if_pos hrefused] at h
      exact turns_closeConnection server h
  · next hrefused =>
      rw [if_neg hrefused] at h
      split
      · next a hactive =>
          rw [hactive] at h
          exact turns_takeOver hactive h (htakeover (by rw [hactive, Option.isSome_some]))
      · next hnone =>
          exact .single (.create ws now hnone (by simpa using hrefused))

theorem turns_onFrame {ws : ConnId} {frame : Frame} {now : Nat}
    (h : onFrameMeets permits server ws frame now)
    (htakeover : ∀ uuid, identifies server ws frame now = some uuid →
      (server.sessions.lookup uuid).isSome → terms.takeover server.authEnabled) :
    Turns permits terms server (server.onFrame ws frame now) := by
  rw [Server.onFrame]
  rw [onFrameMeets] at h
  have hcounted : Turns permits terms server
      ({ server with framesIn := server.framesIn + 1 }.limitFrame ws now).1 :=
    .head (.calm (calm_settings permits server _ (server.framesIn + 1) _ _))
      (turns_of_calm (calm_limitFrame _ ws now))
  obtain ⟨heap, hheap⟩ := limitFrame_framesIn server ws now
  rw [hheap] at hcounted
  dsimp only at h ⊢
  rw [hheap] at h ⊢
  apply hcounted.trans
  split
  · next hblocked =>
      rw [if_pos hblocked] at h
      exact turns_closeConnection _ h
  · next hpassed =>
      rw [if_neg hpassed] at h
      split
      · next hfirst =>
          rw [if_pos hfirst] at h
          cases hidentity : Server.identity frame with
          | none =>
              rw [hidentity] at h
              exact turns_closeConnection _ h
          | some clientUuid =>
              rw [hidentity] at h
              refine .head (.calm (calm_setConnection permits _ ws _ (by exact id)))
                (turns_handleIdentified h ?_)
              apply htakeover clientUuid
              rw [identifies, if_pos ⟨by simpa using hpassed, by simpa using hfirst⟩, hidentity]
      · next hidentified =>
          rw [if_neg hidentified] at h
          split
          · next hauth =>
              rw [if_pos hauth] at h
              exact turns_dispatchAuth h
          · next hauth =>
              rw [if_neg hauth] at h
              exact turns_dispatchSession h

end Takeover

section Steps

variable {permits : Permits} {terms : Terms}

theorem toOption_cases {motive : Server → Prop} {server : Server} {result : Result Server}
    (hrefl : motive server) (h : ∀ next, result = .ok next → motive next) :
    motive (result.toOption.getD server) := by
  cases result with
  | error fault => exact hrefl
  | ok next => exact h next rfl

/-- A call that the mode of the server allows, or throws. -/
theorem turns_of_mode [HashOrder StdString] {server next target : Server} {mode : Prop}
    [Decidable mode] {fault : Fault}
    (hnext : (if mode then .ok target else .error fault : Result Server) = .ok next)
    (h : mode → Calm permits server target) : Turns permits terms server next := by
  split at hnext
  · next hmode =>
      cases hnext
      exact turns_of_calm (h hmode)
  · cases hnext

theorem turns_withPrincipal [HashOrder StdString] {server next : Server}
    {operation : Server → Server}
    (h : server.mode = .principal ∨ server.mode = .sessionPrincipalTopic →
      Calm permits server (operation server))
    (hnext : server.withPrincipal operation = .ok next) :
    Turns permits terms server next :=
  turns_of_mode hnext h

theorem turns_keep [HashOrder StdString] {invariant : Server → Prop}
    (hturn : ∀ server next, invariant server → Turn permits terms server next →
      invariant next)
    {server next : Server} (h : invariant server) (hturns : Turns permits terms server next) :
    invariant next := by
  induction hturns with
  | refl => exact h
  | tail _ hlast ih => exact hturn _ _ ih hlast

variable [HashOrder StdString] [HashOrder Addr]

theorem turns_handle (server : Server) {event : Event} (h : handleMeets permits server event)
    (hdefined : server.undefinedBehaviour = false)
    (hmeets : terms.Meets server event) : Turns permits terms server (handle server event) := by
  cases event with
  | connect ws closesSynchronously =>
      unfold handle
      dsimp only
      split
      · exact .refl
      · refine .single (.connect ws fun hsynchronous => hmeets.2.2 ws ?_)
        exact congrArg (Event.connect ws) hsynchronous
  | frame ws frame now =>
      unfold handle
      dsimp only
      split
      · next hlistening =>
          rw [handleMeets, hlistening, Bool.not_true, Bool.false_or] at h
          refine turns_onFrame h fun uuid hidentifies hsome => hmeets.1 ?_
          rw [takesOver, hdefined, hlistening, hidentifies]
          exact hsome
      · exact .refl
  | closed ws =>
      exact .head (.calm (calm_setConnection permits server ws _ (by exact id)))
        (turns_onClose _ h)
  | heartbeatTimeout a =>
      rw [handle]
      dsimp only
      split
      · next hrunning =>
          rw [handleMeets, hrunning, Bool.not_true, Bool.false_or] at h
          exact .head (.calm (calm_put permits server a
            { server.heap a with heartbeatRunning := false } server.principals rfl rfl rfl))
            (.single (.disconnect h))
      · exact .refl
  | heartbeatSend a =>
      unfold handle
      dsimp only
      split
      · exact turns_of_calm (calm_record server _ trivial id)
      · exact .refl
  | enableAuthorization enabled => exact .single (.enable h)
  | setMaxConnections max => exact .single (.limit (hmeets.2.1 max rfl))
  | setMaxFramesPerSec max => exact turns_of_calm (calm_settings permits server max _ _ _)
  | onAuthorize callback => exact .single (.listen callback h)
  | authorize uuid token principal =>
      exact toOption_cases .refl fun next hnext => turns_authorize h hnext
  | reject uuid reason => exact turns_reject server h
  | set key value =>
      exact toOption_cases .refl fun next hnext =>
        turns_of_mode hnext fun _ => calm_changePrincipal server _ _
  | clear =>
      refine toOption_cases .refl fun next hnext => turns_of_mode hnext fun hmode => ?_
      have hclear : clearMeets permits server broadcastPrincipal := by
        simpa [handleMeets, hmode] using h
      exact calm_clearPrincipal server hclear
  | clearKey key =>
      exact toOption_cases .refl fun next hnext =>
        turns_of_mode hnext fun _ => calm_changePrincipal server _ _
  | principalSet name key value =>
      exact toOption_cases .refl fun next =>
        turns_withPrincipal fun _ => calm_changePrincipal server _ _
  | principalClear name =>
      refine toOption_cases .refl fun next => turns_withPrincipal fun hmode => ?_
      apply calm_clearPrincipal
      rcases hmode with hmode | hmode <;> simpa [handleMeets, hmode] using h
  | principalClearKey name key =>
      exact toOption_cases .refl fun next =>
        turns_withPrincipal fun _ => calm_changePrincipal server _ _
  | sessionSet a key value =>
      exact turns_of_calm (calm_changeSession server (footing_set · key value) h)
  | sessionClear a => exact turns_of_calm (calm_changeSession server footing_clear h)
  | sessionClearKey a key =>
      exact turns_of_calm (calm_changeSession server (footing_clearKey · key) h)
  | topicSet a name key value =>
      exact turns_of_calm (calm_changeSession server (footing_topicSet · name key value) h)
  | topicClear a name =>
      exact turns_of_calm (calm_changeSession server (footing_topicClear · name) h)
  | topicClearKey a name key =>
      exact turns_of_calm (calm_changeSession server (footing_topicClearKey · name key) h)
  | close => exact .single (.close server)

theorem turns_step (server : Server) {event : Event} (h : stepMeets permits server event)
    (hmeets : terms.Meets server event) : Turns permits terms server (step server event) := by
  rw [step]
  split
  · exact .refl
  · next hdefined =>
      rw [stepMeets, Bool.or_eq_true] at h
      exact turns_handle server (h.resolve_left hdefined) (by simpa using hdefined) hmeets

theorem turns_run {invariant : Server → Prop}
    (hturn : ∀ server next, invariant server → Turn permits terms server next →
      invariant next)
    {server : Server} (h : invariant server) {events : List Event}
    (hmeet : StepsMeet step (fun server event => stepMeets permits server event ∧
      terms.Meets server event) server events) :
    invariant (run step server events) :=
  invariant_run (fun server _ hserver hevent =>
    turns_keep hturn hserver (turns_step server hevent.1 hevent.2)) h hmeet

end Steps

end DanWs.ServerTurns
