import Mathlib.Algebra.BigOperators.Group.List.Basic
import Mathlib.Algebra.BigOperators.Ring.List
import Mathlib.Algebra.Order.BigOperators.Group.List
import Mathlib.Tactic.Linarith
import Mathlib.Tactic.Ring
import DanWs.Ratchets
import DanWs.UncountedFrames

namespace DanWs.FrameCounts

open DanWs.FiniteMaps
open DanWs.Ratchets
open DanWs.ServerActions
open DanWs.ServerCalls
open DanWs.ServerMoves
open DanWs.Servers
open DanWs.Sessions
open DanWs.StepRuns
open DanWs.TopicSync
open DanWs.UncountedFrames
open DanWs.WireTypes

section Turns

variable (server : Server)

theorem uncounted_handleSessionDisconnect (uuid : StdString) (cause : ConnId) :
    uncounted (server.handleSessionDisconnect uuid cause) = uncounted server := by
  obtain heq | ⟨a, -, heq⟩ | ⟨a, -, heq⟩ := handleSessionDisconnect_cases server uuid cause
  · rw [heq]
  · rw [heq]
    exact uncounted_record server (.tornDown cause a (server.heap a).ws) rfl
  · obtain ⟨index, principals, hdown, -⟩ := tearDownActive_eq server uuid cause a
    rw [heq, hdown]
    have hdisconnected := uncounted_record
      (server.record (.tornDown cause a (server.heap a).ws)) (.onDisconnect a) rfl
    exact hdisconnected.trans (uncounted_record server _ rfl)

theorem uncounted_closeSession (a : Addr) :
    uncounted (server.closeSession a) = uncounted server := by
  have hdown := uncounted_record server (.onDisconnect a) rfl
  rw [Server.closeSession]
  dsimp only
  split <;> exact hdown

theorem uncounted_limitFrame (ws : ConnId) (now : Nat) :
    uncounted (server.limitFrame ws now).1 = uncounted server := by
  rw [Server.limitFrame]
  dsimp only
  split
  · cases server.sessionOf (server.connections ws).clientUuid <;> rfl
  · rfl

theorem uncounted_accept (clientUuid : StdString) (a : Addr) (principal : StdString) (via : Via) :
    uncounted (server.accept clientUuid a principal via) = uncounted server ∧
      flushed (server.accept clientUuid a principal via) a = flushed server a := by
  constructor
  · rw [Server.accept, uncounted_record _ _ rfl]
    have hanswered := uncounted_sendFrame
      ((({ server with tmpSessions := server.tmpSessions.erase clientUuid } : Server).put a
        { server.heap a with session := (server.heap a).session.authorize principal }).record
          (.authorized a (server.heap a).ws via)) a authOkFrame
    rw [uncounted_record _ _ rfl] at hanswered
    exact hanswered
  · obtain ⟨effects, framesOut, heq, -⟩ := accept_eq server clientUuid a principal via
    rw [heq]
    exact flushed_congr (by simp only [Function.update_self]) rfl

theorem uncounted_changeSession (a : Addr) (operation : Session → Session × List Frame) :
    uncounted (server.changeSession a operation) = uncounted server +
      ((operation (server.heap a).session).2.length * flushed server a : ℕ) := by
  rw [Server.changeSession]
  dsimp only
  generalize operation (server.heap a).session = changed
  rw [Nat.cast_mul]
  exact uncounted_put_enqueue server a { server.heap a with session := changed.1 }
    server.principals changed.2 rfl

theorem unflushed_iff {a : Addr} {frames : List Frame} :
    frames.length * flushed server a = 0 ↔ Unflushed server a frames := by
  rw [mul_eq_zero, List.length_eq_zero_iff, flushed_eq_zero_iff, Unflushed]

variable [HashOrder StdString]

theorem uncounted_close : uncounted server.close = uncounted server := by
  have hall : ∀ (sessions : List Addr) (server : Server),
      uncounted (sessions.foldl Server.closeSession server) = uncounted server := by
    intro sessions
    induction sessions with
    | nil => exact fun _ => rfl
    | cons a sessions ih => exact fun server => (ih _).trans (uncounted_closeSession server a)
  exact hall _ _

theorem uncounted_activated {server held : Server} {a : Addr} {ws : ConnId}
    (huncounted : uncounted held = uncounted server)
    (htarget : (held.heap a).flushTarget = ws)
    (hconnections : held.connections = server.connections)
    (principal : StdString) :
    ∃ count : ℕ, uncounted (held.activateSession a principal) = uncounted server + count ∧
      (count = 0 ↔ ¬ (server.connections ws).isOpen) := by
  obtain ⟨count, hcount, hadded⟩ := uncounted_activateSession held a principal
  refine ⟨count * flushed held a, ?_, ?_⟩
  · rw [hadded, huncounted, Nat.cast_mul]
  · rw [mul_eq_zero, or_iff_right hcount, flushed_eq_zero_iff, flushes, htarget, hconnections]

theorem uncounted_attach (clientUuid : StdString) (a : Addr) (ws : ConnId) :
    ∃ count : ℕ, uncounted (server.attach clientUuid a ws) = uncounted server + count ∧
      (count = 0 ↔ server.authEnabled ∨ ¬ (server.connections ws).isOpen) := by
  rw [Server.attach]
  cases hauth : server.authEnabled with
  | true =>
      rw [if_pos rfl]
      exact uncounted_same (uncounted_record _ _ rfl) (Or.inl rfl)
  | false =>
      rw [if_neg Bool.false_ne_true]
      dsimp only
      generalize (if (server.heap a).session.principal = [] then server.defaultPrincipal
        else (server.heap a).session.principal) = principal
      have hattached : uncounted (server.attachAuthorized clientUuid a ws principal) =
          uncounted server := uncounted_record _ _ rfl
      have hself : ((server.attachAuthorized clientUuid a ws principal).heap a).flushTarget =
          ws := by
        simp [Server.attachAuthorized, Server.reattach, Server.put, Server.record]
      obtain ⟨count, hadded, hcount⟩ := uncounted_activated hattached hself rfl principal
      exact ⟨count, hadded, by rw [hcount]; simp⟩

theorem uncounted_createSession (clientUuid : StdString) (ws : ConnId) (now : Nat) :
    ∃ count : ℕ, uncounted (server.createSession clientUuid ws now) = uncounted server + count ∧
      (count = 0 ↔ server.authEnabled ∨ ¬ (server.connections ws).isOpen) := by
  rw [Server.createSession]
  cases hauth : server.authEnabled with
  | true =>
      rw [if_pos rfl]
      exact uncounted_same (uncounted_record _ _ rfl) (Or.inl rfl)
  | false =>
      rw [if_neg Bool.false_ne_true]
      generalize server.defaultPrincipal = principal
      have hcreated : uncounted (server.createAuthorized clientUuid ws now principal) =
          uncounted server := uncounted_record _ _ rfl
      have hself : ((server.createAuthorized clientUuid ws now principal).heap
          server.nextAddr).flushTarget = ws := by
        simp [Server.createAuthorized, Server.put, Server.record, InternalSession.new]
      obtain ⟨count, hadded, hcount⟩ := uncounted_activated hcreated hself rfl principal
      exact ⟨count, hadded, by rw [hcount]; simp⟩

theorem uncounted_dispatchTopic (a : Addr) (frame : Frame) :
    uncounted (server.dispatchTopic a frame) = uncounted server +
      ((handleClientTopicFrame (server.heap a).session (server.heap a).tables
        frame).2.frames.length * flushed server a : ℕ) := by
  rw [Server.dispatchTopic]
  dsimp only
  generalize handleClientTopicFrame (server.heap a).session (server.heap a).tables frame = changed
  rw [Nat.cast_mul]
  exact uncounted_put_enqueue server a
    { server.heap a with session := changed.2.session, tables := changed.1 }
    server.principals changed.2.frames rfl

variable [HashOrder Addr]

/-- What an action sends uncounted, which is nothing exactly if it brings nothing to
an open queue. -/
theorem uncounted_perform (action : Action) :
    ∃ count : ℕ, uncounted (perform server action) = uncounted server + count ∧
      (count = 0 ↔ QueuesNone server action) := by
  cases action with
  | takeOver clientUuid ws =>
      rw [perform, QueuesNone]
      cases server.sessions.lookup clientUuid with
      | none => exact uncounted_same rfl (Or.inl rfl)
      | some a =>
          obtain ⟨count, hadded, hcount⟩ := uncounted_attach server clientUuid a ws
          exact ⟨count, hadded, by rw [hcount]; simp⟩
  | create clientUuid ws now =>
      rw [perform, QueuesNone]
      cases server.sessions.lookup clientUuid with
      | some a => exact uncounted_same rfl (Or.inl (Option.some_ne_none a))
      | none =>
          obtain ⟨count, hadded, hcount⟩ := uncounted_createSession server clientUuid ws now
          exact ⟨count, hadded, by rw [hcount]; simp⟩
  | authorize clientUuid principal via =>
      rw [perform, QueuesNone, Server.authorize]
      by_cases hprincipal : principal = []
      · rw [if_pos hprincipal]
        exact uncounted_same rfl (Or.inl hprincipal)
      rw [if_neg hprincipal, or_iff_right hprincipal]
      cases server.tmpSessions.lookup clientUuid with
      | none => exact uncounted_same rfl (by simp)
      | some a =>
          obtain ⟨haccepted, hflushed⟩ := uncounted_accept server clientUuid a principal via
          obtain ⟨count, hcount, hadded⟩ := uncounted_activateSession
            (server.accept clientUuid a principal via) a principal
          refine ⟨count * flushed server a, ?_, ?_⟩
          · rw [haccepted, hflushed, ← Nat.cast_mul] at hadded
            exact hadded
          · rw [mul_eq_zero, or_iff_right hcount, flushed_eq_zero_iff]
            simp
  | answerTopic a frame =>
      exact ⟨_, uncounted_dispatchTopic server a frame, unflushed_iff server⟩
  | answer a frame =>
      refine ⟨_, ?_, unflushed_iff server⟩
      rw [perform, uncounted_runSession, Nat.cast_mul]
  | callSession a call =>
      exact ⟨_, uncounted_changeSession server a call.operation, unflushed_iff server⟩
  | callPrincipal name call =>
      refine ⟨_, uncounted_changePrincipal server name call.operation, ?_⟩
      rw [mul_eq_zero, reached_eq_zero_iff, QueuesNone]
      generalize call.operation (server.principals.principal name).2 = changed
      split
      · next hbound => simp [hbound]
      · next hbound => simp [hbound]
  | clearPrincipal name => exact uncounted_clearPrincipal server name
  | disconnect clientUuid cause =>
      exact uncounted_same (uncounted_handleSessionDisconnect server clientUuid cause) trivial
  | close => exact uncounted_same (uncounted_close server) trivial
  | limit ws now => exact uncounted_same (uncounted_limitFrame server ws now) trivial
  | reject clientUuid reason =>
      refine uncounted_same ?_ trivial
      rw [perform]
      cases server.tmpSessions.lookup clientUuid with
      | none => rfl
      | some a => exact uncounted_sendFrame _ a (authFailFrame reason)
  | dispatch | heartbeat => exact uncounted_same (uncounted_record server _ rfl) trivial
  | connect | receive | shut | identify | stopHeartbeat | enableAuthorization | setMaxConnections
  | setMaxFramesPerSec | onAuthorize => exact uncounted_same rfl trivial

theorem ratchet_countsAll :
    Ratchet perform (fun server => 0 ≤ uncounted server) QueuesNone CountsAll where
  keep {server} action hserver := by
    obtain ⟨count, hadded, -⟩ := uncounted_perform server action
    rw [hadded]
    exact add_nonneg hserver (Int.natCast_nonneg count)
  iff {server} action hserver := by
    obtain ⟨count, hadded, hcount⟩ := uncounted_perform server action
    rw [countsAll_iff, countsAll_iff, hadded, ← hcount]
    omega

end Turns

section Runs

variable [HashOrder StdString] [HashOrder Addr]

/-- `metrics().framesOut` is right in every state of a run exactly if no action of the
run brings a frame to a session's queue with an open connection. -/
theorem countsAll_throughout_iff (mode : ServerMode) (events : List Event) :
    (∀ before, before <+: events → CountsAll (run step (Server.new mode) before)) ↔
      StepsMeet step
        (fun server event => StepsMeet perform QueuesNone server (actions server event))
        (Server.new mode) events := by
  have hstart : CountsAll (Server.new mode) := rfl
  have huncounted : uncounted (Server.new mode) = 0 := (countsAll_iff _).mp hstart
  exact (ratchet_countsAll.of_parts run_actions).throughout_iff huncounted.ge hstart events

end Runs

/-- The queue sends the `ServerSync` of a client that has just identified itself. -/
theorem not_countsAll_run :
    ¬ ∀ (_ : HashOrder StdString) (_ : HashOrder Addr) (mode : ServerMode)
      (events : List Event), CountsAll (run step (Server.new mode) events) := by
  intro h
  have hcounts := h (HashOrder.ascending StdString) (HashOrder.ascending Addr) .principal
    [.connect 1 false, .frame 1 (Server.identifyFrame (List.replicate 16 0)) 0]
  exact absurd hcounts (by decide +kernel)

end DanWs.FrameCounts
