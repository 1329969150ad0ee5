import DanWs.Registration

/-!
A dying connection takes down its own session only. The callbacks for the end of
a connection know nothing but a uuid; where the uuid was last registered with
this very connection, the session that goes down is the one that it carries.
-/

namespace DanWs.ConnectionTeardown

open DanWs.FiniteMaps
open DanWs.Registration
open DanWs.ServerConditions
open DanWs.ServerMoves
open DanWs.ServerSteps
open DanWs.Servers
open DanWs.StepRuns
open DanWs.WireTypes

def ownConnection : Effect → Bool
  | .tornDown cause _ ws => ws = some cause
  | _ => true

def TakesDownOwn (history : List Effect) : Prop := ∀ effect ∈ history, ownConnection effect

instance (history : List Effect) : Decidable (TakesDownOwn history) :=
  inferInstanceAs (Decidable (∀ effect ∈ history, ownConnection effect))

/-- The connection with which a uuid was last registered, in the map that a
disconnect looks at first. -/
def lastRegistered (server : Server) (uuid : StdString) : Option ConnId :=
  if (server.sessions.lookup uuid).isSome then lastActive server.history uuid
  else lastPending server.history uuid

/-- The end of a connection is handled for a uuid that is not registered, or was
last registered with this connection. -/
def endsOwn : Permits where
  __ := Permits.any
  disconnect server uuid cause :=
    (server.sessionOf uuid).isNone || lastRegistered server uuid = some cause
  undefined := false

theorem ownConnection_of_recorded {server : Server} (h : Registered server) {effect : Effect}
    (heffect : Recorded endsOwn server effect) : ownConnection effect := by
  cases effect with
  | tornDown cause a ws =>
      obtain ⟨rfl, uuid, hpermitted, hactive | ⟨hinactive, hpending⟩⟩ := heffect
      · have hlast : lastActive server.history uuid = some cause := by
          simpa [endsOwn, Server.sessionOf, lastRegistered, hactive] using hpermitted
        exact decide_eq_true ((h.active hactive).last.symm.trans hlast)
      · have hlast : lastPending server.history uuid = some cause := by
          simpa [endsOwn, Server.sessionOf, lastRegistered, hinactive, hpending] using hpermitted
        exact decide_eq_true ((h.pending hpending).last.symm.trans hlast)
  | _ => rfl

theorem defined_move {server next : Server} (h : server.undefinedBehaviour = false)
    (hmove : Move endsOwn server next) : next.undefinedBehaviour = false := by
  cases hmove with
  | quiet hquiet => exact hquiet.undefinedBehaviour.trans h
  | tearDownActive =>
      rename_i uuid cause a _ _
      obtain ⟨index, principals, heq, -⟩ := tearDownActive_eq server uuid cause a
      rw [heq]
      exact h
  | accept =>
      rename_i uuid principal a via _ _ _
      obtain ⟨effects, framesOut, heq, -⟩ := accept_eq server uuid a principal via
      rw [heq]
      exact h
  | pend hattaches => exact hattaches.undefinedBehaviour.trans h
  | activate hauth hattaches => exact hattaches.undefinedBehaviour.trans h
  | retire =>
      rename_i a _ _
      obtain ⟨connections, heq⟩ := closeSession_eq server a
      rw [heq]
      exact h
  | undefined hpermitted => cases hpermitted
  | tearDownPending | index | withdraw | empty | enable | listen => exact h

/-- Where the end of a connection is handled only for uuids that were last
registered with it, and the close inside a takeover runs no close callback, a
dying connection takes down its own session only. -/
theorem takesDownOwn_run [HashOrder StdString] [HashOrder Addr] (mode : ServerMode)
    {events : List Event}
    (h : StepsMeet step (fun server event => stepMeets endsOwn server event)
      (Server.new mode) events) :
    TakesDownOwn (run step (Server.new mode) events).history ∧
      (run step (Server.new mode) events).undefinedBehaviour = false := by
  constructor
  · exact effects_run (fun _ _ => registered_move)
      (fun _ _ hregistered heffect => ownConnection_of_recorded hregistered heffect)
      (registered_new mode) rfl h
  · exact moves_run (fun _ _ => defined_move) rfl h

def reconnection (closing : List Event) : List Event :=
  let uuidBytes := List.replicate 16 (0 : UInt8)
  [.connect 1 false, .frame 1 (Server.identifyFrame uuidBytes) 0, .connect 2 false,
    .frame 2 (Server.identifyFrame uuidBytes) 0] ++ closing

theorem takesDownOwn_run_reconnection :
    let _ := HashOrder.ascending StdString
    let _ := HashOrder.ascending Addr
    let server := run step (Server.new .principal) (reconnection [.closed 2])
    TakesDownOwn server.history ∧ server.undefinedBehaviour = false := by
  intro _ _ _
  exact takesDownOwn_run .principal (by decide +kernel)

/-- The close of a superseded connection, delivered late, takes down the session
of the newer one. -/
theorem not_takesDownOwn_run :
    ¬ ∀ (_ : HashOrder StdString) (_ : HashOrder Addr) (mode : ServerMode) (events : List Event),
      TakesDownOwn (run step (Server.new mode) events).history := by
  intro h
  exact absurd (h (HashOrder.ascending StdString) (HashOrder.ascending Addr) .principal
    (reconnection [.closed 1])) (by decide +kernel)

end DanWs.ConnectionTeardown
