import DanWs.Registration
import DanWs.ServerActions

namespace DanWs.FrameCounters

open DanWs.FiniteMaps
open DanWs.ServerActions
open DanWs.ServerCalls
open DanWs.ServerMoves
open DanWs.Servers
open DanWs.WireTypes

section Counters

def counter (internal : InternalSession) : Int × Nat :=
  (internal.frameCount, internal.windowStart)

/-- Only new sessions get a new counter, which is zero. -/
structure Keeps (server next : Server) : Prop where
  nextAddr : server.nextAddr ≤ next.nextAddr
  maxFramesPerSec : next.maxFramesPerSec = server.maxFramesPerSec
  counter : ∀ a, counter (next.heap a) = counter (server.heap a) ∨
    server.nextAddr ≤ a ∧ (next.heap a).frameCount = 0

theorem keeps_of_heap {server next : Server} (hnextAddr : next.nextAddr = server.nextAddr)
    (hmax : next.maxFramesPerSec = server.maxFramesPerSec)
    (hheap : ∀ a, counter (next.heap a) = counter (server.heap a)) : Keeps server next :=
  ⟨hnextAddr.ge, hmax, fun a => .inl (hheap a)⟩

theorem keeps_refl (server : Server) : Keeps server server := keeps_of_heap rfl rfl fun _ => rfl

theorem Keeps.trans {server mid next : Server} (hfirst : Keeps server mid)
    (hsecond : Keeps mid next) : Keeps server next := by
  refine ⟨hfirst.nextAddr.trans hsecond.nextAddr,
    hsecond.maxFramesPerSec.trans hfirst.maxFramesPerSec, fun a => ?_⟩
  obtain hkept | ⟨hnew, hzero⟩ := hsecond.counter a
  · obtain hearlier | ⟨hnew, hzero⟩ := hfirst.counter a
    · exact .inl (hkept.trans hearlier)
    · exact .inr ⟨hnew, (congrArg Prod.fst hkept).trans hzero⟩
  · exact .inr ⟨hfirst.nextAddr.trans hnew, hzero⟩

theorem keeps_update {server next : Server} {a : Addr} {internal : InternalSession}
    (hnextAddr : next.nextAddr = server.nextAddr)
    (hmax : next.maxFramesPerSec = server.maxFramesPerSec)
    (hheap : next.heap = Function.update server.heap a internal)
    (hcounter : counter internal = counter (server.heap a)) : Keeps server next :=
  keeps_of_heap hnextAddr hmax fun _ => by
    rw [hheap]
    exact apply_update counter fun _ => hcounter

theorem keeps_new {server next : Server} {internal : InternalSession}
    (hnextAddr : next.nextAddr = server.nextAddr + 1)
    (hmax : next.maxFramesPerSec = server.maxFramesPerSec)
    (hheap : next.heap = Function.update server.heap server.nextAddr internal)
    (hzero : internal.frameCount = 0) : Keeps server next := by
  refine ⟨hnextAddr ▸ Nat.le_succ _, hmax, fun a => ?_⟩
  rw [hheap]
  rcases eq_or_ne a server.nextAddr with rfl | hne
  · rw [Function.update_self]
    exact .inr ⟨le_rfl, hzero⟩
  · rw [Function.update_of_ne hne]
    exact .inl rfl

theorem keeps_handleSessionDisconnect (server : Server) (uuid : StdString) (cause : ConnId) :
    Keeps server (server.handleSessionDisconnect uuid cause) := by
  obtain heq | ⟨a, -, heq⟩ | ⟨a, -, heq⟩ := handleSessionDisconnect_cases server uuid cause
  · rw [heq]
    exact keeps_of_heap rfl rfl fun _ => rfl
  · rw [heq]
    exact keeps_update rfl rfl rfl rfl
  · obtain ⟨index, principals, hdown, -⟩ := tearDownActive_eq server uuid cause a
    rw [heq, hdown]
    exact keeps_update rfl rfl rfl rfl

variable [HashOrder StdString]

theorem keeps_activateSession (server : Server) (a : Addr) (principal : StdString) :
    Keeps server (server.activateSession a principal) := by
  cases htopic : server.isTopicMode with
  | true =>
      obtain ⟨effects, heq, -⟩ := activateSession_topic server htopic a principal
      rw [heq]
      exact keeps_update rfl rfl rfl rfl
  | false =>
      obtain ⟨principals, effects, heq, -⟩ := activateSession_principal server htopic a principal
      rw [heq]
      exact keeps_update rfl rfl rfl rfl

theorem keeps_attach (server : Server) (clientUuid : StdString) (a : Addr) (ws : ConnId) :
    Keeps server (server.attach clientUuid a ws) := by
  rw [Server.attach]
  split
  · exact keeps_update rfl rfl rfl rfl
  · dsimp only
    generalize (if (server.heap a).session.principal = [] then server.defaultPrincipal
      else (server.heap a).session.principal) = principal
    have hattached : Keeps server (server.reattach a ws) := keeps_update rfl rfl rfl rfl
    have hauthorized : Keeps (server.reattach a ws)
        (server.attachAuthorized clientUuid a ws principal) := keeps_update rfl rfl rfl rfl
    exact (hattached.trans hauthorized).trans (keeps_activateSession _ a principal)

theorem keeps_createSession (server : Server) (clientUuid : StdString) (ws : ConnId) (now : Nat) :
    Keeps server (server.createSession clientUuid ws now) := by
  rw [Server.createSession]
  split
  · exact keeps_new rfl rfl rfl rfl
  · have hcreated : Keeps server
        (server.createAuthorized clientUuid ws now server.defaultPrincipal) :=
      keeps_new rfl rfl rfl rfl
    exact hcreated.trans (keeps_activateSession _ _ _)

theorem keeps_close (server : Server) : Keeps server server.close := by
  have hall : ∀ (sessions : List Addr) (server : Server),
      Keeps server (sessions.foldl Server.closeSession server) := by
    intro sessions
    induction sessions with
    | nil => exact fun server => keeps_of_heap rfl rfl fun _ => rfl
    | cons a sessions ih =>
        intro server
        obtain ⟨connections, heq⟩ := closeSession_eq server a
        have hclosed : Keeps server (server.closeSession a) := by
          rw [heq]
          exact keeps_update rfl rfl rfl rfl
        exact hclosed.trans (ih _)
  have hemptied : Keeps server
      { server with sessions := ∅, tmpSessions := ∅, principalIndex := ∅ } :=
    keeps_of_heap rfl rfl fun _ => rfl
  exact hemptied.trans (hall _ _)

/-- The actions that the limiter or its setting belongs to. -/
def Limits : Action → Prop
  | .limit _ _ | .setMaxFramesPerSec _ => True
  | _ => False

variable [HashOrder Addr]

theorem keeps_perform (server : Server) {action : Action} (h : ¬ Limits action) :
    Keeps server (perform server action) := by
  cases action with
  | limit | setMaxFramesPerSec => exact absurd trivial h
  | disconnect clientUuid cause => exact keeps_handleSessionDisconnect server clientUuid cause
  | close => exact keeps_close server
  | takeOver clientUuid ws =>
      rw [perform]
      cases server.sessions.lookup clientUuid with
      | none => exact keeps_of_heap rfl rfl fun _ => rfl
      | some a => exact keeps_attach server clientUuid a ws
  | create clientUuid ws now =>
      rw [perform]
      cases server.sessions.lookup clientUuid with
      | none => exact keeps_createSession server clientUuid ws now
      | some a => exact keeps_of_heap rfl rfl fun _ => rfl
  | answerTopic a frame =>
      obtain ⟨history, heq⟩ := dispatchTopic_eq server a frame
      rw [perform, heq]
      exact keeps_update rfl rfl rfl rfl
  | answer a frame =>
      obtain ⟨principals, effects, heq, -⟩ := runSession_eq server a
        fun session tx => session.handleFrame tx frame
      rw [perform, heq]
      exact keeps_update rfl rfl rfl rfl
  | authorize clientUuid principal via =>
      rw [perform, Server.authorize]
      split
      · exact keeps_refl server
      cases server.tmpSessions.lookup clientUuid with
      | none => exact keeps_refl server
      | some a =>
          obtain ⟨effects, framesOut, heq, -⟩ := accept_eq server clientUuid a principal via
          have haccepted : Keeps server (server.accept clientUuid a principal via) := by
            rw [heq]
            exact keeps_update rfl rfl rfl rfl
          exact haccepted.trans (keeps_activateSession _ a principal)
  | reject clientUuid reason =>
      rw [perform]
      cases server.tmpSessions.lookup clientUuid with
      | none => exact keeps_of_heap rfl rfl fun _ => rfl
      | some a =>
          obtain ⟨history, framesOut, heq⟩ := sendFrame_eq
            { server with tmpSessions := server.tmpSessions.erase clientUuid } a
            (authFailFrame reason)
          dsimp only
          rw [heq]
          exact keeps_of_heap rfl rfl fun _ => rfl
  | callSession a call =>
      obtain ⟨history, heq⟩ := changeSession_eq server a call.operation
      rw [perform, heq]
      exact keeps_update rfl rfl rfl rfl
  | callPrincipal name call =>
      obtain ⟨history, heq⟩ := changePrincipal_eq server name call.operation
      rw [perform, heq]
      exact keeps_of_heap rfl rfl fun _ => rfl
  | clearPrincipal name =>
      obtain ⟨history, heq⟩ := clearPrincipal_eq server name
      rw [perform, heq]
      exact keeps_of_heap rfl rfl fun _ => rfl
  | stopHeartbeat => exact keeps_update rfl rfl rfl rfl
  | connect | receive | shut | identify | dispatch | heartbeat | enableAuthorization
  | setMaxConnections | onAuthorize => exact keeps_of_heap rfl rfl fun _ => rfl

end Counters

section Events

def Unlimited (actions : List Action) : Prop := ∀ action ∈ actions, ¬ Limits action

@[simp] theorem unlimited_nil : Unlimited [] := List.forall_mem_nil _

@[simp] theorem unlimited_cons {action : Action} {actions : List Action} :
    Unlimited (action :: actions) ↔ ¬ Limits action ∧ Unlimited actions := List.forall_mem_cons

@[simp] theorem unlimited_append {first second : List Action} :
    Unlimited (first ++ second) ↔ Unlimited first ∧ Unlimited second := List.forall_mem_append

variable (server : Server)

theorem unlimited_onCloseActions (ws : ConnId) : Unlimited (onCloseActions server ws) := by
  rw [onCloseActions]
  split <;> simp [Limits]

theorem unlimited_closeActions (ws : ConnId) : Unlimited (closeActions server ws) := by
  rw [closeActions]
  split
  · refine unlimited_cons.mpr ⟨id, ?_⟩
    split
    · exact unlimited_onCloseActions _ ws
    · exact unlimited_nil
  · exact unlimited_nil

theorem unlimited_closeOldActions (a : Addr) : Unlimited (closeOldActions server a) := by
  rw [closeOldActions]
  split
  · exact unlimited_nil
  · exact unlimited_closeActions server _

theorem unlimited_identifiedActions (ws : ConnId) (clientUuid : StdString) (now : Nat) :
    Unlimited (identifiedActions server ws clientUuid now) := by
  rw [identifiedActions]
  split
  · exact unlimited_closeActions server ws
  · split
    · simp [unlimited_closeOldActions, Limits]
    · simp [Limits]

theorem unlimited_rejectActions (clientUuid reason : StdString) :
    Unlimited (rejectActions server clientUuid reason) := by
  rw [rejectActions]
  split
  · exact unlimited_nil
  · refine unlimited_cons.mpr ⟨id, ?_⟩
    split
    · exact unlimited_nil
    · exact unlimited_closeActions _ _

theorem unlimited_sessionActions (ws : ConnId) (frame : Frame) :
    Unlimited (sessionActions server ws frame) := by
  rw [sessionActions]
  split
  · exact unlimited_nil
  · split <;> simp [Limits]

theorem unlimited_callActions (via : Via) (call : AuthCall) :
    Unlimited (callActions server via call) := by
  cases call with
  | authorize clientUuid token principal => simp [callActions, Limits]
  | reject clientUuid reason => exact unlimited_rejectActions server clientUuid reason

variable [HashOrder StdString]

theorem unlimited_callsActions (via : Via) (calls : List AuthCall) :
    Unlimited (callsActions via server calls) := by
  induction calls generalizing server with
  | nil => exact unlimited_nil
  | cons call calls ih =>
      rw [callsActions]
      split
      · exact unlimited_nil
      · exact unlimited_append.mpr ⟨unlimited_callActions server via call, ih _⟩

theorem unlimited_callbacksActions (via : Via) (clientUuid token : StdString)
    (callbacks : List (StdString → StdString → List AuthCall)) :
    Unlimited (callbacksActions via clientUuid token server callbacks) := by
  induction callbacks generalizing server with
  | nil => exact unlimited_nil
  | cons callback callbacks ih =>
      exact unlimited_append.mpr ⟨unlimited_callsActions server via _, ih _⟩

theorem unlimited_authActions (ws : ConnId) (frame : Frame) :
    Unlimited (authActions server ws frame) := by
  rw [authActions]
  dsimp only
  split
  · exact unlimited_nil
  · split
    · exact unlimited_cons.mpr ⟨id, unlimited_callbacksActions _ _ _ _ _⟩
    · exact unlimited_nil

theorem onFrameActions_eq (ws : ConnId) (frame : Frame) (now : Nat) :
    ∃ rest, onFrameActions server ws frame now = .receive :: .limit ws now :: rest ∧
      Unlimited rest := by
  rw [onFrameActions]
  dsimp only
  generalize ({ server with framesIn := server.framesIn + 1 }.limitFrame ws now) = counted
  refine ⟨_, rfl, ?_⟩
  split
  · exact unlimited_closeActions _ ws
  · split
    · split
      · exact unlimited_closeActions _ ws
      · exact unlimited_cons.mpr ⟨id, unlimited_identifiedActions _ ws _ now⟩
    · split
      · exact unlimited_authActions _ ws frame
      · exact unlimited_sessionActions _ ws frame

theorem unlimited_handleActions {event : Event}
    (hframe : ∀ ws frame now, event ≠ .frame ws frame now)
    (hmax : ∀ max, event ≠ .setMaxFramesPerSec max) : Unlimited (handleActions server event) := by
  cases event with
  | frame ws frame now => exact absurd rfl (hframe ws frame now)
  | setMaxFramesPerSec max => exact absurd rfl (hmax max)
  | closed ws => exact unlimited_cons.mpr ⟨id, unlimited_onCloseActions _ ws⟩
  | reject clientUuid reason => exact unlimited_rejectActions server clientUuid reason
  | connect | heartbeatTimeout | heartbeatSend =>
      rw [handleActions]
      split <;> simp [Limits]
  | set | clear | clearKey =>
      rw [handleActions, broadcastActions]
      split <;> simp [Limits]
  | principalSet | principalClear | principalClearKey =>
      rw [handleActions, principalActions]
      split <;> simp [Limits]
  | enableAuthorization | setMaxConnections | onAuthorize | authorize | sessionSet | sessionClear
  | sessionClearKey | topicSet | topicClear | topicClearKey | close =>
      simp [handleActions, Limits]

end Events

end DanWs.FrameCounters
