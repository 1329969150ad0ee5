import DanWs.PrincipalIsolation
import DanWs.ServerCalls

namespace DanWs.SeparateCloses

open DanWs.FiniteMaps
open DanWs.ServerCalls
open DanWs.ServerConditions
open DanWs.ServerMoves
open DanWs.ServerTurns
open DanWs.Servers
open DanWs.WireTypes

/-- No connection runs its close callback inside `close()`. -/
structure ClosesSeparately (server : Server) : Prop where
  later : ∀ ws, (server.connections ws).closesSynchronously = false
  defined : server.undefinedBehaviour = false

/-- The close inside a takeover erases no entry, and `authEnabled_` is set as
`enable` allows. -/
def defined (enable : Bool → Bool) : Permits where
  __ := Permits.any
  enable := enable
  undefined := false

section Conditions

variable {server : Server} {enable : Bool → Bool}

theorem later_setConnection (server : Server)
    (h : ∀ ws, (server.connections ws).closesSynchronously = false)
    (ws : ConnId) {connection : Connection} (hconnection : connection.closesSynchronously = false)
    (other : ConnId) :
    ((server.setConnection ws connection).connections other).closesSynchronously = false := by
  dsimp only [Server.setConnection]
  rcases eq_or_ne other ws with rfl | hne
  · rwa [Function.update_self]
  · rw [Function.update_of_ne hne]
    exact h other

theorem takeOverMeets_defined (h : ∀ ws, (server.connections ws).closesSynchronously = false)
    {uuid : StdString} {a : Addr} (hactive : server.sessions.lookup uuid = some a) :
    takeOverMeets (defined enable) server uuid a := by
  have hclose : ∀ ws, closeMeets (defined enable) server ws := fun ws =>
    closeMeets_of_disconnect (fun _ _ _ => rfl) server ws
  have hentry : ((server.closeOld a).sessions.lookup uuid).isSome := by
    have hsessions : (server.closeOld a).sessions = server.sessions := by
      unfold Server.closeOld Server.closeConnection
      cases (server.heap a).ws with
      | none => rfl
      | some old =>
          dsimp only
          rw [h old]
          split <;> rfl
    rw [hsessions, hactive, Option.isSome_some]
  rw [takeOverMeets, hentry, Bool.true_or, Bool.and_true]
  cases (server.heap a).ws with
  | none => rfl
  | some old => exact hclose old

theorem identifiedMeets_defined
    (h : ∀ ws, (server.connections ws).closesSynchronously = false) (ws : ConnId)
    (uuid : StdString) : identifiedMeets (defined enable) server ws uuid := by
  rw [identifiedMeets]
  split
  · exact closeMeets_of_disconnect (fun _ _ _ => rfl) server ws
  · split
    · next a hactive => exact takeOverMeets_defined h hactive
    · rfl

theorem stepMeets_defined [HashOrder StdString] [HashOrder Addr] (h : ClosesSeparately server)
    (event : Event) (henable : ∀ enabled, event = .enableAuthorization enabled → enable enabled) :
    stepMeets (defined enable) server event := by
  have hlenient : Lenient (defined enable) :=
    ⟨fun _ _ _ => rfl, fun _ _ _ _ => rfl, fun _ _ _ => rfl, fun _ _ _ => rfl, fun _ _ => rfl,
      rfl⟩
  refine stepMeets_of_lenient hlenient server event henable fun ws heap uuid => ?_
  apply identifiedMeets_defined
  exact later_setConnection { server with heap, framesIn := server.framesIn + 1 }
    h.later ws (h.later ws)

end Conditions

section Turns

variable {permits : Permits} {terms : Terms} {server next : Server}

theorem ClosesSeparately.of_eq (h : ClosesSeparately server)
    (hconnections : next.connections = server.connections)
    (hdefined : next.undefinedBehaviour = server.undefinedBehaviour) : ClosesSeparately next :=
  ⟨fun ws => by rw [hconnections]; exact h.later ws, hdefined.trans h.defined⟩

theorem closesSeparately_closeSession (h : ClosesSeparately server) (a : Addr) :
    ClosesSeparately (server.closeSession a) := by
  rw [Server.closeSession]
  dsimp only
  split
  · exact h.of_eq rfl rfl
  · next ws hws =>
      exact ⟨later_setConnection (Server.record (server.put a _) (.onDisconnect a))
        h.later ws (h.later ws), h.defined⟩

variable [HashOrder StdString]

theorem closesSeparately_activateSession (h : ClosesSeparately server) (a : Addr)
    (principal : StdString) : ClosesSeparately (server.activateSession a principal) := by
  obtain ⟨internal, principals, index, effects, heq, -⟩ := activateSession_eq server a principal
  rw [heq]
  exact h.of_eq rfl rfl

theorem closesSeparately_turn (hpermits : permits.undefined = false)
    (hterms : ¬ terms.synchronous) (h : ClosesSeparately server)
    (hturn : Turn permits terms server next) : ClosesSeparately next := by
  cases hturn with
  | calm hcalm =>
      refine ⟨fun ws => Bool.eq_false_of_not_eq_true fun hws => ?_,
        hcalm.undefinedBehaviour.trans h.defined⟩
      exact Bool.eq_false_iff.mp (h.later ws) (hcalm.closing ws hws)
  | connect ws hconnection =>
      exact ⟨later_setConnection server h.later ws
        (Bool.eq_false_of_not_eq_true fun hws => hterms (hconnection hws)), h.defined⟩
  | answer hactive frame =>
      obtain ⟨principals, effects, heq, -⟩ := runSession_eq server _
        fun session tx => session.handleFrame tx frame
      rw [heq]
      exact h.of_eq rfl rfl
  | disconnect hpermitted =>
      rename_i uuid cause
      obtain heq | ⟨a, -, heq⟩ | ⟨a, -, heq⟩ := handleSessionDisconnect_cases server uuid cause <;>
        rw [heq]
      · exact h
      · exact h.of_eq rfl rfl
      · obtain ⟨index, principals, heq, -⟩ := tearDownActive_eq server uuid cause a
        rw [heq]
        exact h.of_eq rfl rfl
  | authorize hpending hprincipal hpermitted =>
      rename_i uuid principal a via
      obtain ⟨effects, framesOut, heq, -⟩ := accept_eq server uuid a principal via
      rw [heq]
      apply closesSeparately_activateSession
      exact h.of_eq rfl rfl
  | attach ws hactive htakeover =>
      rw [Server.attach]
      split
      · exact h.of_eq rfl rfl
      · apply closesSeparately_activateSession
        exact h.of_eq rfl rfl
  | create ws now hnone hroom =>
      rw [Server.createSession]
      split
      · exact h.of_eq rfl rfl
      · apply closesSeparately_activateSession
        exact h.of_eq rfl rfl
  | close => exact List.foldlRecOn _ _ (h.of_eq rfl rfl) fun _ hmid a _ =>
      closesSeparately_closeSession hmid a
  | undefined hpermitted =>
      rw [hpermits] at hpermitted
      cases hpermitted
  | withdraw | enable | limit | listen => exact h.of_eq rfl rfl

end Turns

end DanWs.SeparateCloses
