import DanWs.ServerCalls

namespace DanWs.ReadinessHistories

open DanWs.FiniteMaps
open DanWs.Principals
open DanWs.ServerCalls
open DanWs.ServerConditions
open DanWs.ServerMoves
open DanWs.ServerTurns
open DanWs.Servers
open DanWs.SessionStanding
open DanWs.Sessions
open DanWs.WireTypes

/-- The session is disconnected, or its client comes on another connection. -/
def interrupts (a : Addr) : Effect → Bool
  | .onDisconnect b | .pended _ b _ | .activated _ b _ => b = a
  | _ => false

/-- The event delivers a `ClientReady` frame to the session. -/
def readies (server : Server) (a : Addr) : Event → Bool
  | .frame ws frame now =>
      !server.undefinedBehaviour && (server.connections ws).listening &&
        (server.limitFrame ws now).2 && (server.connections ws).identified &&
        frame.frameType = .clientReady &&
        server.sessions.lookup (server.connections ws).clientUuid = some a
  | _ => false

section Histories

variable {α : Type*} {effects history since older : List α} {mark : α}

/-- Where a list is split behind what has been put in front of it. -/
theorem split_behind (h : effects ++ history = since ++ mark :: older) (hmark : mark ∉ effects) :
    ∃ earlier, since = effects ++ earlier ∧ history = earlier ++ mark :: older := by
  obtain ⟨earlier, rfl, hrest⟩ | ⟨rest, rfl, hrest⟩ := List.append_eq_append_iff.mp h
  · exact ⟨earlier, rfl, hrest⟩
  · cases rest with
    | nil => exact ⟨[], by simp, hrest.symm⟩
    | cons head rest =>
        rw [List.cons_append, List.cons.injEq] at hrest
        exact absurd (by simp [hrest.1]) hmark

theorem split_before (h : effects ++ history = since ++ mark :: older)
    (hlt : older.length < history.length) :
    ∃ earlier, since = effects ++ earlier ∧ history = earlier ++ mark :: older := by
  obtain ⟨earlier, rfl, hrest⟩ | ⟨rest, rfl, hrest⟩ := List.append_eq_append_iff.mp h
  · exact ⟨earlier, rfl, hrest⟩
  · have hlength := congrArg List.length hrest
    rw [List.length_cons, List.length_append] at hlength
    have hnil : rest = [] := List.eq_nil_of_length_eq_zero (by omega)
    subst hnil
    exact ⟨[], by simp, hrest.symm⟩

end Histories

section Sessions

variable [HashOrder StdString] (session : Session) (tx : Option PrincipalTX) (frame : Frame)

theorem handleFrame_cases :
    ((session.handleFrame tx frame).ready = false ∧
      stage (session.handleFrame tx frame).session = stage session) ∨
    ((session.handleFrame tx frame).ready = true ∧ session.state ≠ .ready ∧
      session.serverSyncSent = true ∧
      stage (session.handleFrame tx frame).session = { stage session with state := .ready }) := by
  unfold Session.handleFrame
  split
  · split_ifs with hready hsent
    · exact .inl ⟨rfl, rfl⟩
    · exact .inr ⟨rfl, hready, hsent, rfl⟩
    · exact .inl ⟨rfl, rfl⟩
  · cases tx <;> exact .inl ⟨rfl, rfl⟩
  · exact .inl ⟨rfl, rfl⟩
  · exact .inl ⟨rfl, rfl⟩

theorem handleFrame_clientReady (hframe : frame.frameType = .clientReady)
    (hsent : session.serverSyncSent = true) :
    (session.handleFrame tx frame).session.state = .ready := by
  unfold Session.handleFrame
  rw [hframe]
  dsimp only
  split
  · next hready => exact hready
  · rfl

end Sessions

section Topics

/-- No session has had its `ServerSync` noted, and none is ready. -/
def Unready (server : Server) : Prop :=
  ∀ a, (server.heap a).session.serverSyncSent = false ∧ (server.heap a).session.state ≠ .ready

variable {permits : Permits} {terms : Terms} {server next : Server}

theorem unready_update {heap : Addr → InternalSession} {a : Addr} {internal : InternalSession}
    (h : ∀ b, (heap b).session.serverSyncSent = false ∧ (heap b).session.state ≠ .ready)
    (hinternal : internal.session.serverSyncSent = false ∧ internal.session.state ≠ .ready)
    (b : Addr) :
    (Function.update heap a internal b).session.serverSyncSent = false ∧
      (Function.update heap a internal b).session.state ≠ .ready := by
  rcases eq_or_ne b a with rfl | hne
  · rwa [Function.update_self]
  · rw [Function.update_of_ne hne]
    exact h b

theorem unready_closeSession (h : Unready server) (a : Addr) : Unready (server.closeSession a) := by
  obtain ⟨connections, heq⟩ := closeSession_eq server a
  rw [heq]
  exact unready_update h ⟨(h a).1, SessionState.noConfusion⟩

variable [HashOrder StdString]

theorem unready_activateSession (h : Unready server) (htopic : server.isTopicMode) (a : Addr)
    (principal : StdString) : Unready (server.activateSession a principal) := by
  obtain ⟨effects, heq, -⟩ := activateSession_topic server htopic a principal
  rw [heq]
  exact unready_update h (h a)

theorem unready_turn (htopic : server.isTopicMode) (h : Unready server)
    (hturn : Turn permits terms server next) : Unready next := by
  cases hturn with
  | calm hcalm =>
      intro b
      have hstate := congrArg Stage.state (hcalm.stage b)
      have hsent := congrArg Stage.serverSyncSent (hcalm.stage b)
      exact ⟨hsent.trans (h b).1, fun hready => (h b).2 (hstate.symm.trans hready)⟩
  | answer hactive frame =>
      rename_i a
      obtain ⟨principals, effects, heq, -⟩ := runSession_eq server a
        fun session tx => session.handleFrame tx frame
      rw [heq]
      refine unready_update h ?_
      obtain ⟨-, hstage⟩ | ⟨-, -, hsent, -⟩ := handleFrame_cases (server.heap a).session _ frame
      · have hstate := congrArg Stage.state hstage
        have hsent := congrArg Stage.serverSyncSent hstage
        exact ⟨hsent.trans (h a).1, fun hready => (h a).2 (hstate.symm.trans hready)⟩
      · rw [(h a).1] at hsent
        cases hsent
  | disconnect hpermitted =>
      rename_i uuid cause
      obtain heq | ⟨a, -, heq⟩ | ⟨a, -, heq⟩ := handleSessionDisconnect_cases server uuid cause <;>
        rw [heq]
      · exact h
      · exact unready_update h (h a)
      · obtain ⟨index, principals, heq, -⟩ := tearDownActive_eq server uuid cause a
        rw [heq]
        exact unready_update h ⟨(h a).1, SessionState.noConfusion⟩
  | authorize hpending hprincipal hpermitted =>
      rename_i uuid principal a via
      obtain ⟨effects, framesOut, heq, -⟩ := accept_eq server uuid a principal via
      apply unready_activateSession <;> rw [heq]
      · exact unready_update h ⟨(h a).1, SessionState.noConfusion⟩
      · exact htopic
  | attach ws hactive htakeover =>
      rename_i uuid a
      have hreattached : Unready (server.reattach a ws) :=
        unready_update h ⟨(h a).1, SessionState.noConfusion⟩
      rw [Server.attach]
      split
      · exact hreattached
      · apply unready_activateSession
        · exact unready_update hreattached ⟨(hreattached a).1, SessionState.noConfusion⟩
        · exact htopic
  | create ws now hnone hroom =>
      rw [Server.createSession]
      split
      · exact unready_update h ⟨rfl, SessionState.noConfusion⟩
      · apply unready_activateSession
        · exact unready_update h ⟨rfl, SessionState.noConfusion⟩
        · exact htopic
  | close => exact List.foldlRecOn _ _ h fun _ hmid a _ => unready_closeSession hmid a
  | connect | withdraw | enable | limit | listen | undefined => exact h

end Topics

end DanWs.ReadinessHistories
