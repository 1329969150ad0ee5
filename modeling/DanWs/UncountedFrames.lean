import DanWs.ServerActions
import Mathlib.Algebra.BigOperators.Group.List.Basic
import Mathlib.Algebra.BigOperators.Ring.List
import Mathlib.Algebra.Order.BigOperators.Group.List
import Mathlib.Tactic.Linarith
import Mathlib.Tactic.Ring

namespace DanWs.UncountedFrames

open DanWs.FiniteMaps
open DanWs.Principals
open DanWs.ServerActions
open DanWs.ServerCalls
open DanWs.Servers
open DanWs.Sessions
open DanWs.TopicSync
open DanWs.WireTypes

def isSent : Effect → Bool
  | .sent _ _ => true
  | _ => false

/-- The frames that have been handed to an open connection, without heartbeats. -/
def sentFrames (server : Server) : ℕ := server.history.countP isSent

/-- `metrics().framesOut` is the number of frames sent. -/
def CountsAll (server : Server) : Prop := server.framesOut = sentFrames server

instance (server : Server) : Decidable (CountsAll server) :=
  inferInstanceAs (Decidable (_ = _))

/-- The flush callback of a session's queue finds its connection open. -/
def flushes (server : Server) (a : Addr) : Bool :=
  (server.connections (server.heap a).flushTarget).isOpen

section Conditions

variable [HashOrder StdString] [HashOrder Addr] (server : Server)

def Unflushed (a : Addr) (frames : List Frame) : Prop := frames = [] ∨ ¬ flushes server a

/-- The action brings no frame to the queue of a session that flushes to an open
connection. An activated session is always sent one. -/
def QueuesNone : Action → Prop
  | .takeOver clientUuid ws =>
      server.sessions.lookup clientUuid = none ∨ server.authEnabled ∨
        ¬ (server.connections ws).isOpen
  | .create clientUuid ws _ =>
      server.sessions.lookup clientUuid ≠ none ∨ server.authEnabled ∨
        ¬ (server.connections ws).isOpen
  | .authorize clientUuid principal _ =>
      principal = [] ∨ ∀ a, server.tmpSessions.lookup clientUuid = some a → ¬ flushes server a
  | .answerTopic a frame =>
      Unflushed server a
        (handleClientTopicFrame (server.heap a).session (server.heap a).tables frame).2.frames
  | .answer a frame =>
      Unflushed server a
        ((server.heap a).session.handleFrame
          ((server.heap a).session.txProvider.bind server.principals.principals.lookup)
          frame).frames
  | .callSession a call => Unflushed server a (call.operation (server.heap a).session).2
  | .callPrincipal name call =>
      let changed := call.operation (server.principals.principal name).2
      ¬ changed.1.bound ∨ changed.2 = [] ∨
        ∀ a ∈ server.recipients name (fun session => session.state = .ready), ¬ flushes server a
  | .clearPrincipal name =>
      (server.principals.principal name).2.clear.2 = none ∨
        ∀ a ∈ server.recipients name Session.connected, ¬ flushes server a
  | _ => True

end Conditions

section Queues

/-- The frames sent that the metric does not have. -/
def uncounted (server : Server) : ℤ := sentFrames server - server.framesOut

def flushed (server : Server) (a : Addr) : ℕ := if flushes server a then 1 else 0

variable (server : Server)

theorem countsAll_iff : CountsAll server ↔ uncounted server = 0 := by
  rw [CountsAll, uncounted]
  omega

theorem flushed_eq_zero_iff {a : Addr} : flushed server a = 0 ↔ ¬ flushes server a := by
  rw [flushed]
  split <;> simp_all

theorem uncounted_record (effect : Effect) (h : isSent effect = false) :
    uncounted (server.record effect) = uncounted server := by
  have hcount : (effect :: server.history).countP isSent = server.history.countP isSent :=
    List.countP_cons_of_neg (by simp [h])
  rw [uncounted, sentFrames, Server.record, hcount]
  rfl

theorem uncounted_sent (ws : ConnId) (frame : Frame) :
    uncounted (server.record (.sent ws frame)) = uncounted server + 1 := by
  have hcount : (Effect.sent ws frame :: server.history).countP isSent =
      server.history.countP isSent + 1 := List.countP_cons_of_pos rfl
  rw [uncounted, sentFrames, Server.record, hcount, uncounted, sentFrames]
  push_cast
  ring

theorem uncounted_sendFrame (a : Addr) (frame : Frame) :
    uncounted (server.sendFrame a frame) = uncounted server := by
  rw [Server.sendFrame]
  split
  · rfl
  · next ws _ =>
      split
      · have hsent := uncounted_sent server ws frame
        rw [uncounted] at hsent ⊢
        dsimp only [sentFrames, Server.record] at hsent ⊢
        push_cast
        linarith
      · rfl

theorem uncounted_same {server next : Server} {condition : Prop}
    (h : uncounted next = uncounted server) (hcondition : condition) :
    ∃ count : ℕ, uncounted next = uncounted server + count ∧ (count = 0 ↔ condition) := by
  refine ⟨0, ?_, iff_of_true rfl hcondition⟩
  rw [h, Nat.cast_zero, add_zero]

/-- Rounds that only add to the history add up. -/
theorem uncounted_foldl {α : Type*} (round : Server → α → Server) (amount : α → ℕ)
    (items : List α)
    (hround : ∀ history, ∀ item ∈ items,
      (∃ later, round { server with history } item = { server with history := later }) ∧
        uncounted (round { server with history } item) =
          uncounted { server with history } + amount item) :
    (∃ later, items.foldl round server = { server with history := later }) ∧
      uncounted (items.foldl round server) = uncounted server + (items.map amount).sum := by
  induction items generalizing server with
  | nil => exact ⟨⟨server.history, rfl⟩, by simp⟩
  | cons item items ih =>
      obtain ⟨⟨later, hlater⟩, hamount⟩ := hround server.history item List.mem_cons_self
      have hrest := ih (round server item) fun history other hother => by
        obtain ⟨hkept, hother⟩ := hround history other (List.mem_cons_of_mem item hother)
        rw [hlater]
        exact ⟨hkept, hother⟩
      rw [List.foldl_cons, List.map_cons, List.sum_cons]
      obtain ⟨⟨last, hlast⟩, hsum⟩ := hrest
      refine ⟨⟨last, hlast.trans (by rw [hlater])⟩, ?_⟩
      rw [hsum, hamount]
      push_cast
      ring

theorem uncounted_enqueue (a : Addr) (frames : List Frame) :
    (∃ later, server.enqueue a frames = { server with history := later }) ∧
      uncounted (server.enqueue a frames) =
        uncounted server + frames.length * flushed server a := by
  have hlength : ((frames.length * flushed server a : ℕ) : ℤ) =
      ((frames.map fun _ => flushed server a).sum : ℕ) := by
    rw [List.map_const', List.sum_replicate_nat]
  rw [← Nat.cast_mul, hlength, Server.enqueue]
  refine uncounted_foldl server _ (fun _ => flushed server a) frames fun history frame _ => ?_
  rw [flushed, flushes]
  dsimp only
  split
  · refine ⟨⟨_, rfl⟩, ?_⟩
    rw [uncounted_sent, Nat.cast_one]
  · exact ⟨⟨history, rfl⟩, by simp⟩

theorem flushed_congr {server next : Server} {a : Addr}
    (htarget : (next.heap a).flushTarget = (server.heap a).flushTarget)
    (hconnections : next.connections = server.connections) : flushed next a = flushed server a := by
  rw [flushed, flushes, htarget, hconnections, ← flushes, ← flushed]

theorem uncounted_put_enqueue (a : Addr) (internal : InternalSession)
    (principals : PrincipalManager) (frames : List Frame)
    (htarget : internal.flushTarget = (server.heap a).flushTarget) :
    uncounted ({ server.put a internal with principals }.enqueue a frames) =
      uncounted server + frames.length * flushed server a := by
  have hself : Function.update server.heap a internal a = internal :=
    Function.update_self a internal server.heap
  have hflushed : flushed { server.put a internal with principals } a = flushed server a :=
    flushed_congr (by simpa only [Server.put, hself] using htarget) rfl
  rw [(uncounted_enqueue _ a frames).2, hflushed]
  rfl

end Queues

section Calls

variable (server : Server)

theorem uncounted_runSession (a : Addr) (operation : Session → Option PrincipalTX → Outcome) :
    uncounted (server.runSession a operation) = uncounted server +
      (operation (server.heap a).session
        ((server.heap a).session.txProvider.bind
          server.principals.principals.lookup)).frames.length *
          flushed server a := by
  rw [Server.runSession]
  dsimp only
  generalize operation (server.heap a).session _ = outcome
  have henqueued := fun principals => uncounted_put_enqueue server a
    { server.heap a with session := outcome.session } principals outcome.frames rfl
  split
  · rw [uncounted_record _ _ rfl]
    exact henqueued _
  · exact henqueued _

variable [HashOrder StdString]

theorem startSync_frames_ne (session : Session) (tx : Option PrincipalTX) (h : tx.isSome) :
    (session.startSync tx).frames ≠ [] := by
  obtain ⟨ptx, rfl⟩ := Option.isSome_iff_exists.mp h
  rw [Session.startSync]
  dsimp only
  split
  · assumption
  · exact List.cons_ne_nil _ _

theorem uncounted_activateSession (a : Addr) (principal : StdString) :
    ∃ count : ℕ, count ≠ 0 ∧ uncounted (server.activateSession a principal) =
      uncounted server + count * flushed server a := by
  rw [Server.activateSession]
  split
  · refine ⟨1, one_ne_zero, ?_⟩
    exact uncounted_put_enqueue (server.record (.onConnection a)) a
      { server.heap a with session := (server.heap a).session.bindSessionTX } server.principals
      [signalFrame .serverSync] rfl
  · dsimp only
    generalize server.effectivePrincipal principal = effective
    generalize hprincipals :
      (server.principals.principal effective).1.addSession effective = principals
    have hptx : (principals.principals.lookup effective).isSome := by
      rw [← hprincipals]
      exact Option.isSome_iff_exists.mpr ⟨_, lookup_principal server.principals effective⟩
    let provided := (({ server with principals }.indexAddSession effective a).put a
      { server.heap a with
        session := (server.heap a).session.setTxProviders effective }).record (.onConnection a)
    have hself : provided.heap a = { server.heap a with
        session := (server.heap a).session.setTxProviders effective } :=
      Function.update_self _ _ _
    have hstarted : (Session.startSync (provided.heap a).session
        ((provided.heap a).session.txProvider.bind
          provided.principals.principals.lookup)).frames ≠ [] := by
      apply startSync_frames_ne
      rw [hself]
      exact hptx
    have hrun := uncounted_runSession provided a Session.startSync
    have hflushed : flushed provided a = flushed server a := flushed_congr (by rw [hself]) rfl
    rw [hflushed, uncounted_record _ _ rfl] at hrun
    exact ⟨_, mt List.length_eq_zero_iff.mp hstarted, hrun⟩

end Calls

section Principals

variable (server : Server)

theorem uncounted_enqueueFrom (name : StdString) (a : Addr) (frame : Frame) :
    (∃ later, server.enqueueFrom name a frame = { server with history := later }) ∧
      uncounted (server.enqueueFrom name a frame) = uncounted server + flushed server a := by
  let effect : Effect := .enqueued name a (server.heap a).session.principal frame
  have hrecorded : uncounted (server.record effect) = uncounted server :=
    uncounted_record server effect rfl
  obtain ⟨⟨later, hlater⟩, hamount⟩ := uncounted_enqueue (server.record effect) a [frame]
  refine ⟨⟨later, hlater⟩, ?_⟩
  rw [Server.enqueueFrom, hamount, hrecorded, List.length_singleton, Nat.cast_one, one_mul]
  rfl

theorem uncounted_enqueueFrom_frames (name : StdString) (a : Addr) (frames : List Frame) :
    (∃ later, frames.foldl (fun server frame => server.enqueueFrom name a frame) server =
        { server with history := later }) ∧
      uncounted (frames.foldl (fun server frame => server.enqueueFrom name a frame) server) =
        uncounted server + (frames.length * flushed server a : ℕ) := by
  have hadded := uncounted_foldl server (fun server frame => server.enqueueFrom name a frame)
    (fun _ => flushed server a) frames fun history frame _ => uncounted_enqueueFrom _ name a frame
  rwa [List.map_const', List.sum_replicate_nat] at hadded

variable [HashOrder Addr]

/-- How many of the sessions that a principal's callback enqueues to flush to an
open connection. -/
def reached (name : StdString) (wants : Session → Bool) : ℕ :=
  ((server.recipients name wants).map (flushed server)).sum

theorem reached_eq_zero_iff (name : StdString) (wants : Session → Bool) :
    reached server name wants = 0 ↔ ∀ a ∈ server.recipients name wants, ¬ flushes server a := by
  rw [reached, List.sum_eq_zero_iff, List.forall_mem_map]
  exact forall₂_congr fun a _ => flushed_eq_zero_iff server

theorem uncounted_onValue (name : StdString) (frame : Frame) :
    (∃ later, server.onValue name frame = { server with history := later }) ∧
      uncounted (server.onValue name frame) =
        uncounted server + reached server name (fun session => session.state = .ready) := by
  rw [Server.onValue, reached]
  exact uncounted_foldl server _ (flushed server) _ fun history a _ =>
    uncounted_enqueueFrom _ name a frame

theorem uncounted_onResync (name : StdString) (keyFrames : List Frame) :
    uncounted (server.onResync name keyFrames) = uncounted server +
      ((keyFrames.length + 1) * reached server name Session.connected : ℕ) := by
  have hsum := (uncounted_foldl server
    (fun server a => (signalFrame .serverReset :: keyFrames).foldl
      (fun server frame => server.enqueueFrom name a frame) server)
    (fun a => (keyFrames.length + 1) * flushed server a)
    (server.recipients name Session.connected)
    fun history a _ => uncounted_enqueueFrom_frames _ name a _).2
  rw [Server.onResync, hsum, List.sum_map_mul_left, ← reached]

theorem uncounted_changePrincipal (name : StdString)
    (operation : PrincipalTX → PrincipalTX × List Frame) :
    let changed := operation (server.principals.principal name).2
    uncounted (server.changePrincipal name operation) = uncounted server +
      ((if changed.1.bound then changed.2.length else 0) *
        reached server name (fun session => session.state = .ready) : ℕ) := by
  rw [Server.changePrincipal]
  dsimp only
  generalize operation (server.principals.principal name).2 = changed
  let stored : Server :=
    { server with
      principals := (server.principals.principal name).1.store name changed.1 }
  split
  · have hadded := (uncounted_foldl stored (fun server frame => server.onValue name frame)
      (fun _ => reached server name fun session => session.state = .ready) changed.2
      fun history frame _ => uncounted_onValue _ name frame).2
    rw [List.map_const', List.sum_replicate_nat] at hadded
    exact hadded
  · rw [zero_mul, Nat.cast_zero, add_zero]
    rfl

variable [HashOrder StdString]

theorem uncounted_clearPrincipal (name : StdString) :
    ∃ count : ℕ, uncounted (server.clearPrincipal name) = uncounted server + count ∧
      (count = 0 ↔ (server.principals.principal name).2.clear.2 = none ∨
        ∀ a ∈ server.recipients name Session.connected, ¬ flushes server a) := by
  rw [Server.clearPrincipal]
  dsimp only
  generalize (server.principals.principal name).2.clear = cleared
  cases hresync : cleared.2 with
  | none => exact uncounted_same rfl (Or.inl rfl)
  | some keyFrames =>
      refine ⟨(keyFrames.length + 1) * reached server name Session.connected, ?_, ?_⟩
      · exact uncounted_onResync _ name keyFrames
      · rw [← reached_eq_zero_iff]
        simp

end Principals

end DanWs.UncountedFrames
