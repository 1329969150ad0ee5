import DanWs.ServerActions

namespace DanWs.EventActions

open DanWs.FiniteMaps
open DanWs.ServerActions
open DanWs.ServerConditions
open DanWs.Servers
open DanWs.WireTypes

section Reactions

/-- Frames, ends of connections and heartbeats come to these actions, unless a
connection is identified. Only sessions in `sessions_` answer. -/
def Reacts (sessions : FiniteMap StdString Addr) : Action → Prop
  | .receive | .limit _ _ | .shut _ | .disconnect _ _ | .dispatch _ _ | .authorize _ _ _
  | .reject _ _ | .stopHeartbeat _ | .heartbeat _ => True
  | .answerTopic a _ | .answer a _ => ∃ clientUuid, sessions.lookup clientUuid = some a
  | _ => False

def Reactions (sessions : FiniteMap StdString Addr) (actions : List Action) : Prop :=
  ∀ action ∈ actions, Reacts sessions action

variable {sessions : FiniteMap StdString Addr}

@[simp] theorem reactions_nil : Reactions sessions [] := List.forall_mem_nil _

@[simp] theorem reactions_cons {action : Action} {actions : List Action} :
    Reactions sessions (action :: actions) ↔
      Reacts sessions action ∧ Reactions sessions actions :=
  List.forall_mem_cons

@[simp] theorem reactions_append {first second : List Action} :
    Reactions sessions (first ++ second) ↔ Reactions sessions first ∧ Reactions sessions second :=
  List.forall_mem_append

variable (server : Server)

theorem reactions_onCloseActions (ws : ConnId) : Reactions sessions (onCloseActions server ws) := by
  rw [onCloseActions]
  split <;> simp [Reacts]

theorem reactions_closeActions (ws : ConnId) : Reactions sessions (closeActions server ws) := by
  rw [closeActions]
  split
  · refine reactions_cons.mpr ⟨trivial, ?_⟩
    split
    · exact reactions_onCloseActions _ ws
    · exact reactions_nil
  · exact reactions_nil

theorem reactions_closeOldActions (a : Addr) : Reactions sessions (closeOldActions server a) := by
  rw [closeOldActions]
  split
  · exact reactions_nil
  · exact reactions_closeActions server _

theorem reactions_rejectActions (clientUuid reason : StdString) :
    Reactions sessions (rejectActions server clientUuid reason) := by
  rw [rejectActions]
  split
  · exact reactions_nil
  · refine reactions_cons.mpr ⟨trivial, ?_⟩
    split
    · exact reactions_nil
    · exact reactions_closeActions _ _

theorem reactions_sessionActions (ws : ConnId) (frame : Frame) :
    Reactions server.sessions (sessionActions server ws frame) := by
  rw [sessionActions]
  split
  · exact reactions_nil
  · next hactive => split <;> simpa [Reacts] using ⟨_, hactive⟩

theorem reactions_callActions (via : Via) (call : AuthCall) :
    Reactions sessions (callActions server via call) := by
  cases call with
  | authorize clientUuid token principal => simp [callActions, Reacts]
  | reject clientUuid reason => exact reactions_rejectActions server clientUuid reason

theorem identifiedActions_cases (sessions : FiniteMap StdString Addr) (ws : ConnId)
    (clientUuid : StdString) (now : Nat) :
    ∃ closing last, identifiedActions server ws clientUuid now = closing ++ last ∧
      Reactions sessions closing ∧
      (last = [] ∨ last = [.takeOver clientUuid ws] ∨ last = [.create clientUuid ws now]) := by
  rw [identifiedActions]
  split
  · exact ⟨_, [], (List.append_nil _).symm, reactions_closeActions server ws, .inl rfl⟩
  · split
    · next a _ => exact ⟨_, _, rfl, reactions_closeOldActions server a, .inr (.inl rfl)⟩
    · exact ⟨[], _, rfl, reactions_nil, .inr (.inr rfl)⟩

variable [HashOrder StdString]

theorem reactions_callsActions (via : Via) (calls : List AuthCall) :
    Reactions sessions (callsActions via server calls) := by
  induction calls generalizing server with
  | nil => exact reactions_nil
  | cons call calls ih =>
      rw [callsActions]
      split
      · exact reactions_nil
      · exact reactions_append.mpr ⟨reactions_callActions server via call, ih _⟩

theorem reactions_callbacksActions (via : Via) (clientUuid token : StdString)
    (callbacks : List (StdString → StdString → List AuthCall)) :
    Reactions sessions (callbacksActions via clientUuid token server callbacks) := by
  induction callbacks generalizing server with
  | nil => exact reactions_nil
  | cons callback callbacks ih =>
      exact reactions_append.mpr ⟨reactions_callsActions server via _, ih _⟩

theorem reactions_authActions (ws : ConnId) (frame : Frame) :
    Reactions sessions (authActions server ws frame) := by
  rw [authActions]
  dsimp only
  split
  · exact reactions_nil
  · split
    · exact reactions_cons.mpr ⟨trivial, reactions_callbacksActions _ _ _ _ _⟩
    · exact reactions_nil

/-- Only the first frame of a connection begins anything. -/
theorem onFrameActions_cases (ws : ConnId) (frame : Frame) (now : Nat) :
    Reactions server.sessions (onFrameActions server ws frame now) ∨
      ((server.connections ws).identified = false ∧ ∃ clientUuid closing last,
        onFrameActions server ws frame now =
          .receive :: .limit ws now :: .identify ws clientUuid :: (closing ++ last) ∧
        Reactions server.sessions closing ∧
        (last = [] ∨ last = [.takeOver clientUuid ws] ∨ last = [.create clientUuid ws now])) := by
  rw [onFrameActions]
  obtain ⟨heap, hcounted⟩ := limitFrame_framesIn server ws now
  rw [hcounted]
  dsimp only
  split
  · exact .inl (by simp [Reacts, reactions_closeActions])
  · split
    · next hfirst =>
        split
        · exact .inl (by simp [Reacts, reactions_closeActions])
        · next clientUuid _ =>
            obtain ⟨closing, last, heq, hclosing, hlast⟩ :=
              identifiedActions_cases (Server.setConnection _ ws _) server.sessions ws clientUuid
                now
            refine .inr ⟨by simpa using hfirst, clientUuid, closing, last, ?_, hclosing, hlast⟩
            rw [heq]
    · split
      · exact .inl (by simp [Reacts, reactions_authActions])
      · have hanswers := reactions_sessionActions
          { server with framesIn := server.framesIn + 1, heap } ws frame
        exact .inl (reactions_cons.mpr ⟨trivial, reactions_cons.mpr ⟨trivial, hanswers⟩⟩)

end Reactions

section Beginnings

/-- The calls of the application that no connection makes. -/
def Calls : Action → Prop
  | .enableAuthorization _ | .setMaxConnections _ | .setMaxFramesPerSec _ | .onAuthorize _
  | .callPrincipal _ _ | .clearPrincipal _ | .callSession _ _ | .close => True
  | _ => False

/-- The connection that an action brings in, identifies or attaches. -/
def beginning : Action → Option ConnId
  | .connect ws _ | .identify ws _ | .takeOver _ ws | .create _ ws _ => some ws
  | _ => none

def UnderWay (actions : List Action) : Prop := ∀ action ∈ actions, beginning action = none

@[simp] theorem underWay_nil : UnderWay [] := List.forall_mem_nil _

@[simp] theorem underWay_cons {action : Action} {actions : List Action} :
    UnderWay (action :: actions) ↔ beginning action = none ∧ UnderWay actions :=
  List.forall_mem_cons

theorem beginning_of_reacts {sessions : FiniteMap StdString Addr} {action : Action}
    (h : Reacts sessions action) : beginning action = none := by
  cases action with
  | connect | identify | takeOver | create => cases h
  | _ => rfl

theorem beginning_of_calls {action : Action} (h : Calls action) : beginning action = none := by
  cases action with
  | connect | identify | takeOver | create => cases h
  | _ => rfl

theorem underWay_of_reactions {sessions : FiniteMap StdString Addr} {actions : List Action}
    (h : Reactions sessions actions) : UnderWay actions :=
  fun action haction => beginning_of_reacts (h action haction)

variable (server : Server) [HashOrder StdString]

theorem reacts_or_calls {event : Event}
    (hconnect : ∀ ws closesSynchronously, event ≠ .connect ws closesSynchronously)
    (hframe : ∀ ws frame now, event ≠ .frame ws frame now) {action : Action}
    (haction : action ∈ handleActions server event) :
    Reacts server.sessions action ∨ Calls action := by
  cases event with
  | connect ws closesSynchronously => exact absurd rfl (hconnect ws closesSynchronously)
  | frame ws frame now => exact absurd rfl (hframe ws frame now)
  | closed ws =>
      have hreactions : Reactions server.sessions (handleActions server (.closed ws)) :=
        reactions_cons.mpr ⟨trivial, reactions_onCloseActions _ ws⟩
      exact .inl (hreactions action haction)
  | reject clientUuid reason =>
      exact .inl (reactions_rejectActions server clientUuid reason action haction)
  | authorize clientUuid token principal =>
      rw [handleActions, List.mem_singleton] at haction
      exact .inl (haction ▸ trivial)
  | heartbeatTimeout | heartbeatSend =>
      rw [handleActions] at haction
      split at haction
      · simp only [List.mem_cons, List.not_mem_nil, or_false] at haction
        rcases haction with rfl | rfl <;> exact .inl trivial
      · cases haction
  | set | clear | clearKey =>
      rw [handleActions, broadcastActions] at haction
      split at haction
      · exact .inr (List.mem_singleton.mp haction ▸ trivial)
      · cases haction
  | principalSet | principalClear | principalClearKey =>
      rw [handleActions, principalActions] at haction
      split at haction
      · exact .inr (List.mem_singleton.mp haction ▸ trivial)
      · cases haction
  | enableAuthorization | setMaxConnections | setMaxFramesPerSec | onAuthorize
  | sessionSet | sessionClear | sessionClearKey | topicSet | topicClear | topicClearKey | close =>
      rw [handleActions, List.mem_singleton] at haction
      exact .inr (haction ▸ trivial)

theorem underWay_handleActions {event : Event}
    (hconnect : ∀ ws closesSynchronously, event ≠ .connect ws closesSynchronously)
    (hframe : ∀ ws frame now, event ≠ .frame ws frame now) :
    UnderWay (handleActions server event) := by
  intro action haction
  rcases reacts_or_calls server hconnect hframe haction with hreacts | hcalls
  · exact beginning_of_reacts hreacts
  · exact beginning_of_calls hcalls

/-- An action begins a connection only before it is identified. -/
theorem not_identified_of_beginning {event : Event} {ws : ConnId}
    (hopened : (server.connections ws).identified → (server.connections ws).opened)
    {action : Action} (haction : action ∈ actions server event)
    (h : beginning action = some ws) : (server.connections ws).identified = false := by
  rw [actions] at haction
  split at haction
  · cases haction
  cases event with
  | connect other closesSynchronously =>
      rw [handleActions] at haction
      split at haction
      · cases haction
      · next hnew =>
          rw [List.mem_singleton.mp haction] at h
          cases h
          exact Bool.eq_false_iff.mpr fun hidentified => hnew (hopened hidentified)
  | frame other frame now =>
      rw [handleActions] at haction
      split at haction
      · rcases onFrameActions_cases server other frame now with
          hreactions | ⟨hfirst, clientUuid, closing, last, heq, hclosing, hlast⟩
        · rw [beginning_of_reacts (hreactions action haction)] at h
          cases h
        · rw [heq] at haction
          simp only [List.mem_cons, List.mem_append] at haction
          rcases haction with rfl | rfl | rfl | haction | haction
          · cases h
          · cases h
          · cases h
            exact hfirst
          · rw [beginning_of_reacts (hclosing action haction)] at h
            cases h
          · rcases hlast with rfl | rfl | rfl
            · cases haction
            · rw [List.mem_singleton.mp haction] at h
              cases h
              exact hfirst
            · rw [List.mem_singleton.mp haction] at h
              cases h
              exact hfirst
      · cases haction
  | _ =>
      have hunderWay := underWay_handleActions server
        (fun _ _ => Event.noConfusion) (fun _ _ _ => Event.noConfusion) action haction
      rw [hunderWay] at h
      cases h

end Beginnings

section Answers

def answering : Action → Option Addr
  | .answerTopic a _ | .answer a _ => some a
  | _ => none

theorem active_of_reacts {sessions : FiniteMap StdString Addr} {action : Action}
    (h : Reacts sessions action) {a : Addr} (hanswers : answering action = some a) :
    ∃ clientUuid, sessions.lookup clientUuid = some a := by
  cases action with
  | answerTopic b frame | answer b frame => exact Option.some.inj hanswers ▸ h
  | _ => cases hanswers

theorem answering_of_calls {action : Action} (h : Calls action) : answering action = none := by
  cases action with
  | answerTopic | answer => cases h
  | _ => rfl

/-- The sessions that answer in an event are active when it comes. -/
theorem active_of_answering [HashOrder StdString] (server : Server) {event : Event}
    {action : Action} (haction : action ∈ actions server event) {a : Addr}
    (hanswers : answering action = some a) :
    ∃ clientUuid, server.sessions.lookup clientUuid = some a := by
  rw [actions] at haction
  split at haction
  · cases haction
  cases event with
  | connect ws closesSynchronously =>
      rw [handleActions] at haction
      split at haction
      · cases haction
      · rw [List.mem_singleton.mp haction] at hanswers
        cases hanswers
  | frame ws frame now =>
      rw [handleActions] at haction
      split at haction
      · rcases onFrameActions_cases server ws frame now with
          hreactions | ⟨-, clientUuid, closing, last, heq, hclosing, hlast⟩
        · exact active_of_reacts (hreactions action haction) hanswers
        · rw [heq] at haction
          simp only [List.mem_cons, List.mem_append] at haction
          rcases haction with rfl | rfl | rfl | haction | haction
          · cases hanswers
          · cases hanswers
          · cases hanswers
          · exact active_of_reacts (hclosing action haction) hanswers
          · rcases hlast with rfl | rfl | rfl
            · cases haction
            · rw [List.mem_singleton.mp haction] at hanswers
              cases hanswers
            · rw [List.mem_singleton.mp haction] at hanswers
              cases hanswers
      · cases haction
  | _ =>
      rcases reacts_or_calls server (fun _ _ => Event.noConfusion) (fun _ _ _ => Event.noConfusion)
        haction with hreacts | hcalls
      · exact active_of_reacts hreacts hanswers
      · rw [answering_of_calls hcalls] at hanswers
        cases hanswers

end Answers

end DanWs.EventActions
