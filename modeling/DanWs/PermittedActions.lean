import DanWs.ServerActions

namespace DanWs.PermittedActions

open DanWs.CalmActions
open DanWs.FiniteMaps
open DanWs.ServerActions
open DanWs.ServerConditions
open DanWs.ServerMoves
open DanWs.ServerSteps
open DanWs.ServerTurns
open DanWs.Servers
open DanWs.SessionStanding
open DanWs.StepRuns
open DanWs.WireTypes

section Moves

variable {permits : Permits} {server : Server}

theorem moves_of_calm {next : Server} (h : Calm permits server next) : Moves permits server next :=
  .single (.quiet h.toQuiet)

variable [HashOrder StdString] [HashOrder Addr]

/-- An action meets its condition in the state that it finds. -/
def Permitted (permits : Permits) (server : Server) : Action → Prop
  | .disconnect clientUuid cause => permits.disconnect server clientUuid cause
  | .takeOver clientUuid _ => server.sessions.lookup clientUuid ≠ none ∨ permits.undefined
  | .dispatch ws a =>
      let clientUuid := (server.connections ws).clientUuid
      (server.tmpSessions.lookup clientUuid = some a ∨
        server.sessions.lookup clientUuid = some a) ∧
      (server.tmpSessions.lookup clientUuid = some a →
        permits.dispatchPending server ws clientUuid) ∧
      (server.sessions.lookup clientUuid = some a → permits.dispatchActive server ws clientUuid)
  | .answerTopic a _ | .answer a _ => Active server a
  | .authorize clientUuid principal via => permits.authorize server clientUuid principal via
  | .enableAuthorization enabled => permits.enable enabled
  | .onAuthorize _ => permits.listen
  | .clearPrincipal name => clearMeets permits server name
  | .callSession a call => changeMeets permits server a call.operation
  | _ => True

theorem moves_perform {action : Action} (h : Permitted permits server action) :
    Moves permits server (perform server action) := by
  cases action with
  | disconnect clientUuid cause => exact moves_handleSessionDisconnect server h
  | takeOver clientUuid ws =>
      rw [perform]
      cases hactive : server.sessions.lookup clientUuid with
      | none => exact .single (.undefined server (h.resolve_left fun hne => hne hactive))
      | some a => exact moves_attach hactive
  | create clientUuid ws now =>
      rw [perform]
      cases hactive : server.sessions.lookup clientUuid with
      | none => exact moves_createSession hactive
      | some a => exact .refl
  | dispatch ws a =>
      obtain ⟨hlookup, hpending, hactive⟩ := h
      refine moves_of_calm (calm_record server _ ⟨rfl, (server.connections ws).clientUuid, ?_⟩ id)
      exact hlookup.imp (fun h => ⟨h, hpending h⟩) fun h => ⟨h, hactive h⟩
  | answerTopic a frame => exact moves_of_calm (calm_dispatchTopic h frame)
  | answer a frame =>
      exact .single (.quiet (quiet_runSession h fun session tx =>
        identity_handleFrame session tx frame))
  | authorize clientUuid principal via =>
      rw [perform]
      cases hnext : server.authorize clientUuid principal via with
      | error fault => exact .refl
      | ok next =>
          have hturns : Turns permits Terms.any server next := turns_authorize h hnext
          exact turns_keep (fun _ _ hmoves hturn => hmoves.trans (moves_turn hturn)) .refl hturns
  | reject clientUuid reason =>
      rw [perform]
      cases server.tmpSessions.lookup clientUuid with
      | none => exact .refl
      | some a =>
          exact .head (.withdraw clientUuid)
            (moves_of_calm (calm_sendFrame _ a (authFailFrame reason) rfl))
  | close => exact moves_close
  | enableAuthorization enabled => exact .single (.enable h)
  | onAuthorize callback => exact .single (.listen callback h)
  | callPrincipal name call => exact moves_of_calm (calm_changePrincipal server name call.operation)
  | clearPrincipal name => exact moves_of_calm (calm_clearPrincipal server h)
  | callSession a call => exact moves_of_calm (calm_changeSession server (footing_operation call) h)
  | limit ws now => exact moves_of_calm (calm_limitFrame server ws now)
  | stopHeartbeat a => exact .single (.quiet (quiet_put permits server a _ _ rfl .inl))
  | heartbeat a => exact moves_of_calm (calm_record server _ trivial id)
  | connect | shut | identify | receive | setMaxConnections | setMaxFramesPerSec =>
      exact .single (.quiet (quiet_settings permits server _ _ _ _ _ _))

end Moves

section Meets

variable [HashOrder StdString] {permits : Permits} {server : Server}

/-- No call is forbidden that throws. -/
def AllowsThrowing (permits : Permits) : Prop :=
  ∀ server clientUuid via, permits.authorize server clientUuid [] via

theorem callMeets_of_error (hthrowing : AllowsThrowing permits) {via : Via} {call : AuthCall}
    {fault : Fault} (herror : server.applyCall via call = .error fault) :
    callMeets permits server via call := by
  cases call with
  | authorize clientUuid token principal =>
      rw [Server.applyCall, Server.authorize] at herror
      split at herror
      · next hprincipal =>
          rw [callMeets, hprincipal]
          exact hthrowing server clientUuid via
      · split at herror <;> cases herror
  | reject clientUuid reason => cases herror

variable [HashOrder Addr]

theorem onCloseMeets_of_permitted {ws : ConnId}
    (h : StepsMeet perform (Permitted permits) server (onCloseActions server ws)) :
    onCloseMeets permits server ws := by
  rw [onCloseActions] at h
  rw [onCloseMeets]
  split
  · next hlistening =>
      rw [if_pos hlistening] at h
      exact h.1
  · rfl

theorem closeMeets_of_permitted {ws : ConnId}
    (h : StepsMeet perform (Permitted permits) server (closeActions server ws)) :
    closeMeets permits server ws := by
  rw [closeActions] at h
  rw [closeMeets]
  split
  · next hopen =>
      rw [if_pos hopen.1, if_pos hopen.2] at h
      exact onCloseMeets_of_permitted h.2
  · rfl

theorem rejectMeets_of_permitted {clientUuid reason : StdString}
    (h : StepsMeet perform (Permitted permits) server
      (rejectActions server clientUuid reason)) :
    rejectMeets permits server clientUuid reason := by
  rw [rejectActions] at h
  rw [rejectMeets]
  cases hpending : server.tmpSessions.lookup clientUuid with
  | none => rfl
  | some a =>
      rw [hpending] at h
      dsimp only at h ⊢
      have hrest := h.2
      rw [perform, hpending] at hrest
      dsimp only at hrest
      split
      · rfl
      · next ws hws =>
          rw [hws] at hrest
          exact closeMeets_of_permitted hrest

theorem identifiedMeets_of_permitted {ws : ConnId} {clientUuid : StdString} {now : Nat}
    (h : StepsMeet perform (Permitted permits) server
      (identifiedActions server ws clientUuid now)) :
    identifiedMeets permits server ws clientUuid := by
  rw [identifiedActions] at h
  rw [identifiedMeets]
  split
  · next hrefused =>
      rw [if_pos hrefused] at h
      exact closeMeets_of_permitted h
  · next hroom =>
      rw [if_neg hroom] at h
      cases hactive : server.sessions.lookup clientUuid with
      | none => rfl
      | some a =>
          rw [hactive] at h
          dsimp only at h ⊢
          obtain ⟨hclose, htakeOver, -⟩ := (stepsMeet_append _ _ _ _ _).mp h
          rw [run_closeOldActions] at htakeOver
          rw [takeOverMeets, Bool.and_eq_true]
          constructor
          · rw [closeOldActions] at hclose
            split
            · rfl
            · next old hold =>
                rw [hold] at hclose
                exact closeMeets_of_permitted hclose
          · rw [Bool.or_eq_true, Option.isSome_iff_ne_none]
            exact htakeOver

theorem callMeets_of_permitted {via : Via} {call : AuthCall}
    (h : StepsMeet perform (Permitted permits) server (callActions server via call)) :
    callMeets permits server via call := by
  cases call with
  | authorize clientUuid token principal => exact h.1
  | reject clientUuid reason => exact rejectMeets_of_permitted h

theorem callsMeet_of_permitted (hthrowing : AllowsThrowing permits) {via : Via}
    {calls : List AuthCall}
    (h : StepsMeet perform (Permitted permits) server (callsActions via server calls)) :
    callsMeet permits via server calls := by
  induction calls generalizing server with
  | nil => rfl
  | cons call calls ih =>
      rw [callsActions] at h
      rw [callsMeet, Bool.and_eq_true]
      cases hnext : server.applyCall via call with
      | error fault => exact ⟨callMeets_of_error hthrowing hnext, rfl⟩
      | ok next =>
          rw [hnext] at h
          obtain ⟨hcall, hcalls⟩ := (stepsMeet_append _ _ _ _ _).mp h
          rw [run_callActions server via call hnext] at hcalls
          exact ⟨callMeets_of_permitted hcall, ih hcalls⟩

theorem callbacksMeet_of_permitted (hthrowing : AllowsThrowing permits) {via : Via}
    {clientUuid token : StdString} {callbacks : List (StdString → StdString → List AuthCall)}
    (h : StepsMeet perform (Permitted permits) server
      (callbacksActions via clientUuid token server callbacks)) :
    callbacksMeet permits via clientUuid token server callbacks := by
  induction callbacks generalizing server with
  | nil => rfl
  | cons callback callbacks ih =>
      obtain ⟨hcalls, hrest⟩ := (stepsMeet_append _ _ _ _ _).mp h
      rw [run_callsActions] at hrest
      rw [callbacksMeet, Bool.and_eq_true]
      exact ⟨callsMeet_of_permitted hthrowing hcalls, ih hrest⟩

theorem authMeets_of_permitted (hthrowing : AllowsThrowing permits) {ws : ConnId} {frame : Frame}
    (h : StepsMeet perform (Permitted permits) server (authActions server ws frame)) :
    authMeets permits server ws frame := by
  rw [authActions] at h
  rw [authMeets]
  dsimp only at h ⊢
  cases hpending : server.tmpSessions.lookup (server.connections ws).clientUuid with
  | none => rfl
  | some a =>
      rw [hpending] at h
      dsimp only at h ⊢
      by_cases hanswers : server.answersAuth
      · rw [if_pos hanswers] at h
        obtain ⟨⟨-, hdispatch, -⟩, hcallbacks⟩ := h
        rw [hdispatch hpending, Bool.true_and, Bool.or_eq_true]
        exact .inr (callbacksMeet_of_permitted hthrowing hcallbacks)
      · simp [hanswers]

theorem sessionMeets_of_permitted {ws : ConnId} {frame : Frame}
    (h : StepsMeet perform (Permitted permits) server (sessionActions server ws frame)) :
    sessionMeets permits server ws := by
  rw [sessionActions] at h
  rw [sessionMeets]
  cases hactive : server.sessions.lookup (server.connections ws).clientUuid with
  | none => rfl
  | some a =>
      rw [hactive] at h
      obtain ⟨⟨-, -, hdispatch⟩, -⟩ := h
      exact hdispatch hactive

theorem stepsMeet_counted {condition : Server → Action → Prop} {ws : ConnId} {now : Nat}
    {rest : List Action} :
    StepsMeet perform condition server (.receive :: .limit ws now :: rest) ↔
      condition server .receive ∧ condition (perform server .receive) (.limit ws now) ∧
        StepsMeet perform condition
          ({ server with framesIn := server.framesIn + 1 }.limitFrame ws now).1 rest :=
  Iff.rfl

theorem onFrameMeets_of_permitted (hthrowing : AllowsThrowing permits) {ws : ConnId}
    {frame : Frame} {now : Nat}
    (h : StepsMeet perform (Permitted permits) server (onFrameActions server ws frame now)) :
    onFrameMeets permits server ws frame now := by
  rw [onFrameActions] at h
  dsimp only at h
  obtain ⟨-, -, h⟩ := stepsMeet_counted.mp h
  rw [onFrameMeets]
  revert h
  generalize { server with framesIn := server.framesIn + 1 }.limitFrame ws now = counted
  intro h
  dsimp only
  split at h
  · next hlimited =>
      rw [if_pos hlimited]
      exact closeMeets_of_permitted h
  · next hpasses =>
      rw [if_neg hpasses]
      split at h
      · next hfirst =>
          rw [if_pos hfirst]
          cases hidentity : Server.identity frame with
          | none =>
              rw [hidentity] at h
              exact closeMeets_of_permitted h
          | some clientUuid =>
              rw [hidentity] at h
              exact identifiedMeets_of_permitted h.2
      · next hidentified =>
          rw [if_neg hidentified]
          split at h
          · next hauth =>
              rw [if_pos hauth]
              exact authMeets_of_permitted hthrowing h
          · next hauth =>
              rw [if_neg hauth]
              exact sessionMeets_of_permitted h

/-- An event is permitted when every action that it comes to is. -/
theorem stepMeets_of_permitted (hthrowing : AllowsThrowing permits) {event : Event}
    (h : StepsMeet perform (Permitted permits) server (actions server event)) :
    stepMeets permits server event := by
  rw [stepMeets, Bool.or_eq_true]
  rw [actions] at h
  split at h
  · next hundefined => exact .inl hundefined
  refine .inr ?_
  cases event with
  | frame ws frame now =>
      rw [handleActions] at h
      rw [handleMeets]
      split at h
      · rw [Bool.or_eq_true]
        exact .inr (onFrameMeets_of_permitted hthrowing h)
      · next hdeaf => simp [hdeaf]
  | closed ws => exact onCloseMeets_of_permitted h.2
  | heartbeatTimeout a =>
      rw [handleActions] at h
      rw [handleMeets]
      split at h
      · rw [Bool.or_eq_true]
        exact .inr h.2.1
      · next hstopped => simp [hstopped]
  | reject clientUuid reason => exact rejectMeets_of_permitted h
  | clear =>
      rw [handleActions, broadcastActions] at h
      rw [handleMeets]
      split at h
      · rw [Bool.or_eq_true]
        exact .inr h.1
      · next hmode => simp [hmode]
  | principalClear name =>
      rw [handleActions, principalActions] at h
      rw [handleMeets]
      split at h
      · rw [Bool.or_eq_true]
        exact .inr h.1
      · next hmode =>
          rw [not_or] at hmode
          simp [hmode]
  | enableAuthorization | onAuthorize | authorize | sessionSet | sessionClear | sessionClearKey
  | topicSet | topicClear | topicClearKey => exact h.1
  | _ => rfl

end Meets

end DanWs.PermittedActions
