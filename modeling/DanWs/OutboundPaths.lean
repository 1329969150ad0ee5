import DanWs.ConnectionTeardown
import DanWs.ServerCalls

namespace DanWs.OutboundPaths

open DanWs.ConnectionTeardown
open DanWs.FiniteMaps
open DanWs.Registration
open DanWs.ServerCalls
open DanWs.ServerConditions
open DanWs.ServerMoves
open DanWs.ServerTurns
open DanWs.Servers
open DanWs.StepRuns
open DanWs.WireTypes

/-- `sendFrame` writes to `ws`, the queue to `flushTarget` and the heartbeat
manager to `heartbeatTarget`. -/
def followsConnection (internal : InternalSession) : Bool :=
  internal.ws = some internal.flushTarget && internal.ws = some internal.heartbeatTarget

def PathsFollow (server : Server) : Prop :=
  ∀ a, Active server a ∨ Pending server a → followsConnection (server.heap a)

def withoutTakeover : Terms where
  takeover _ := False
  limit _ := True
  synchronous := True

def Together (server : Server) : Prop :=
  ∀ a, (server.heap a).heartbeatTarget = (server.heap a).flushTarget

section Turns

variable {server next : Server} {a : Addr}

theorem together_update {heap : Addr → InternalSession}
    (h : ∀ b, (heap b).heartbeatTarget = (heap b).flushTarget) {internal : InternalSession}
    (hinternal : internal.heartbeatTarget = internal.flushTarget) (b : Addr) :
    (Function.update heap a internal b).heartbeatTarget =
      (Function.update heap a internal b).flushTarget := by
  rcases eq_or_ne b a with rfl | hne
  · rwa [Function.update_self]
  · rw [Function.update_of_ne hne]
    exact h b

theorem together_of_paths {internal old : InternalSession} (h : paths internal = paths old)
    (hold : old.heartbeatTarget = old.flushTarget) :
    internal.heartbeatTarget = internal.flushTarget := by
  have hflush : internal.flushTarget = old.flushTarget :=
    congrArg (fun held : Attachment × ConnId => held.1.flushTarget) h
  have hheartbeat : internal.heartbeatTarget = old.heartbeatTarget := congrArg Prod.snd h
  rw [hflush, hheartbeat, hold]

theorem together_closeSession (h : Together server) (a : Addr) :
    Together (server.closeSession a) := by
  obtain ⟨connections, heq⟩ := closeSession_eq server a
  rw [heq]
  exact together_update h (h a)

variable [HashOrder StdString]

theorem together_activateSession (h : Together server) (a : Addr) (principal : StdString) :
    Together (server.activateSession a principal) := by
  obtain ⟨internal, principals, index, effects, heq, hpaths⟩ :=
    activateSession_eq server a principal
  rw [heq]
  exact together_update h (together_of_paths hpaths (h a))

theorem together_turn (h : Together server)
    (hturn : Turn Permits.any withoutTakeover server next) : Together next := by
  cases hturn with
  | calm hcalm =>
      intro b
      refine together_of_paths ?_ (h b)
      exact Prod.ext (hcalm.attachment b) (hcalm.heartbeatTarget b)
  | answer hactive frame =>
      obtain ⟨principals, effects, heq, -⟩ := runSession_eq server _
        fun session tx => session.handleFrame tx frame
      rw [heq]
      exact together_update h (h _)
  | disconnect hpermitted =>
      rename_i uuid cause
      obtain heq | ⟨a, -, heq⟩ | ⟨a, -, heq⟩ := handleSessionDisconnect_cases server uuid cause <;>
        rw [heq]
      · exact h
      · exact together_update h (h a)
      · obtain ⟨index, principals, heq, -⟩ := tearDownActive_eq server uuid cause a
        rw [heq]
        exact together_update h (h a)
  | authorize hpending hprincipal hpermitted =>
      rename_i uuid principal a via
      obtain ⟨effects, framesOut, heq, -⟩ := accept_eq server uuid a principal via
      apply together_activateSession
      rw [heq]
      exact together_update h (h a)
  | attach ws hactive htakeover => exact htakeover.elim
  | create ws now hnone hroom =>
      rw [Server.createSession]
      split
      · exact together_update h rfl
      · apply together_activateSession
        exact together_update h rfl
  | close => exact List.foldlRecOn _ _ h fun _ hmid a _ => together_closeSession hmid a
  | connect | withdraw | enable | limit | listen | undefined => exact h

end Turns

/-- Where no session is taken over, the queue, the heartbeats and `sendFrame` of
every registered session write to its connection. -/
theorem pathsFollow_run [HashOrder StdString] [HashOrder Addr] (mode : ServerMode)
    {events : List Event}
    (h : StepsMeet step (fun server event => takesOver server event = false)
      (Server.new mode) events) :
    PathsFollow (run step (Server.new mode) events) := by
  have hmeet : StepsMeet step (fun server event => stepMeets Permits.any server event ∧
      withoutTakeover.Meets server event) (Server.new mode) events := by
    refine stepsMeet_mono (fun server event hnone => ?_) h
    refine ⟨stepMeets_any server event, fun htakesOver => ?_, fun _ _ => trivial,
      fun _ _ => trivial⟩
    rw [hnone] at htakesOver
    cases htakesOver
  have htogether := turns_run (fun _ _ => together_turn) (fun _ => rfl) hmeet
  have hregistered := turns_run (fun _ _ => registered_turn) (registered_new mode) hmeet
  have hfollows : ∀ {uuid a last}, Holds (run step (Server.new mode) events) uuid a last →
      followsConnection ((run step (Server.new mode) events).heap a) := by
    intro uuid a last hholds
    rw [followsConnection, htogether a, hholds.target]
    simp
  rintro a (⟨uuid, huuid⟩ | ⟨uuid, huuid⟩)
  · exact hfollows (hregistered.active huuid)
  · exact hfollows (hregistered.pending huuid)

theorem pathsFollow_run_reconnection :
    let _ := HashOrder.ascending StdString
    let _ := HashOrder.ascending Addr
    PathsFollow (run step (Server.new .principal)
      ((reconnection []).take 2 ++ .closed 1 :: (reconnection []).drop 2)) := by
  intro _ _
  exact pathsFollow_run .principal (by decide +kernel)

/-- The heartbeats of a session that has been taken over still go to its first
connection. -/
theorem not_pathsFollow_run :
    ¬ ∀ (_ : HashOrder StdString) (_ : HashOrder Addr) (mode : ServerMode) (events : List Event),
      PathsFollow (run step (Server.new mode) events) := by
  intro h
  have hfollows := h (HashOrder.ascending StdString) (HashOrder.ascending Addr) .principal
    (reconnection []) 0
  have hactive :
      let _ := HashOrder.ascending StdString
      let _ := HashOrder.ascending Addr
      (run step (Server.new .principal) (reconnection [])).sessions.lookup
        (bytesToUuid (List.replicate 16 0)) = some 0 := by decide +kernel
  exact absurd (hfollows (.inl ⟨_, hactive⟩)) (by decide +kernel)

end DanWs.OutboundPaths
