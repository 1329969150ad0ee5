import DanWs.AuthorizationGate
import DanWs.EmptyAnswers

namespace DanWs.GuardedQueues

open DanWs.AuthorizationGate
open DanWs.EmptyAnswers
open DanWs.FiniteMaps
open DanWs.Principals
open DanWs.ServerActions
open DanWs.ServerCalls
open DanWs.ServerMoves
open DanWs.Servers
open DanWs.Sessions
open DanWs.TopicParsing
open DanWs.TopicSync
open DanWs.WireTypes

section Sessions

/-- Whether the payloads of the session write to its queue stays as it is, and a session
without any comes by none. -/
structure Follows (session changed : Session) : Prop where
  bound : changed.flatState.isSome = session.flatState.isSome
  bare : session.flatState = none → session.topicHandles = ∅ → changed.topicHandles = ∅

variable {session changed : Session}

theorem follows_of_eq (hflat : changed.flatState = session.flatState)
    (htopics : changed.topicHandles = session.topicHandles) : Follows session changed :=
  ⟨by rw [hflat], fun _ hbare => htopics.trans hbare⟩

theorem flatState_eq_none_iff (h : Follows session changed) :
    changed.flatState = none ↔ session.flatState = none := by
  rw [← Option.isNone_iff_eq_none, ← Option.isNone_iff_eq_none, ← Option.not_isSome,
    ← Option.not_isSome, h.bound]

theorem Follows.trans {later : Session} (hfirst : Follows session changed)
    (hsecond : Follows changed later) : Follows session later where
  bound := hsecond.bound.trans hfirst.bound
  bare hflat hbare :=
    hsecond.bare ((flatState_eq_none_iff hfirst).mpr hflat) (hfirst.bare hflat hbare)

theorem follows_of_held {name : StdString} {handle : TopicHandle}
    (hheld : session.topicHandles.lookup name = some handle)
    (hflat : changed.flatState = session.flatState) : Follows session changed := by
  refine ⟨by rw [hflat], fun _ hbare => ?_⟩
  rw [hbare, Finmap.lookup_empty] at hheld
  cases hheld

theorem follows_handleFrame [HashOrder StdString] (session : Session) (tx : Option PrincipalTX)
    (frame : Frame) : Follows session (session.handleFrame tx frame).session := by
  rw [Session.handleFrame.eq_def]
  split
  · split
    · exact follows_of_eq rfl rfl
    · dsimp only
      split <;> exact follows_of_eq rfl rfl
  · split <;> exact follows_of_eq rfl rfl
  · exact follows_of_eq rfl rfl
  · exact follows_of_eq rfl rfl

theorem flatState_handleClientTopicFrame [HashOrder StdString] (session : Session)
    (tables : ClientTables) (frame : Frame) :
    (handleClientTopicFrame session tables frame).2.session.flatState = session.flatState := by
  rw [handleClientTopicFrame]
  split
  · rw [processTopicSync]
    cases tables.parse with
    | error fault => rfl
    | ok parse =>
        refine applyTopics_induction (motive := fun outcome =>
          outcome.session.flatState = session.flatState) rfl (fun outcome name houtcome => ?_)
          fun outcome topic houtcome => ?_
        · rw [flatState_unsubscribeOne, houtcome]
        · rw [subscribeOne]
          split <;> exact houtcome
  · rfl

theorem follows_operation [HashOrder StdString] (session : Session) (call : SessionCall) :
    Follows session (call.operation session).1 := by
  cases call with
  | set key value =>
      simp only [SessionCall.operation, Session.set]
      cases hflat : session.flatState with
      | none => exact follows_of_eq rfl rfl
      | some flat => exact ⟨by simp [hflat, Except.toOption], by simp [hflat]⟩
  | clear =>
      simp only [SessionCall.operation, Session.clear]
      cases hflat : session.flatState with
      | none => exact follows_of_eq rfl rfl
      | some flat => exact ⟨by simp [hflat], by simp [hflat]⟩
  | clearKey key =>
      simp only [SessionCall.operation, Session.clearKey]
      cases hflat : session.flatState with
      | none => exact follows_of_eq rfl rfl
      | some flat => exact ⟨by simp [hflat], by simp [hflat]⟩
  | topicSet name key value =>
      simp only [SessionCall.operation, Session.topicSet]
      cases hheld : session.topicHandles.lookup name with
      | none => exact follows_of_eq rfl rfl
      | some handle => exact follows_of_held hheld rfl
  | topicClear name =>
      simp only [SessionCall.operation, Session.topicClear]
      cases hheld : session.topicHandles.lookup name with
      | none => exact follows_of_eq rfl rfl
      | some handle => exact follows_of_held hheld rfl
  | topicClearKey name key =>
      simp only [SessionCall.operation, Session.topicClearKey]
      cases hheld : session.topicHandles.lookup name with
      | none => exact follows_of_eq rfl rfl
      | some handle => exact follows_of_held hheld rfl

theorem operation_of_bare [HashOrder StdString] (hflat : session.flatState = none)
    (hbare : session.topicHandles = ∅) (call : SessionCall) : (call.operation session).2 = [] := by
  rw [operation_eq_nil_iff]
  cases call <;> simp [Unsent, hflat, hbare]

end Sessions

section Guards

/-- The queue of an object is used for the session and its topics only behind a granted
connection. -/
structure Sealed (history : List Effect) (internal : InternalSession) : Prop where
  bound : internal.session.flatState.isSome → granted history internal.flushTarget
  bare : internal.session.flatState = none → internal.session.topicHandles = ∅

/-- With authorization enabled, all queues that anything writes to are behind granted
connections. -/
structure Guarded (server : Server) : Prop where
  authEnabled : server.authEnabled = true
  objects : ∀ a, Sealed server.history (server.heap a)
  indexed : ∀ name a, Indexed server name a →
    a < server.nextAddr ∧ granted server.history (server.heap a).flushTarget
  topics : server.isTopicMode → ∀ a, Active server a → (server.heap a).session.flatState.isSome

variable {server next : Server}

theorem sealed_follows {history : List Effect} {internal changed : InternalSession}
    (h : Sealed history internal) (htarget : changed.flushTarget = internal.flushTarget)
    (hfollows : Follows internal.session changed.session) (effects : List Effect) :
    Sealed (effects ++ history) changed where
  bound hbound := by
    rw [hfollows.bound] at hbound
    rw [htarget]
    exact granted_append (h.bound hbound) effects
  bare hnone := by
    have hold : internal.session.flatState = none := (flatState_eq_none_iff hfollows).mp hnone
    exact hfollows.bare hold (h.bare hold)

/-- Objects change as their sessions do, and none enters a map. -/
structure Keeps (server next : Server) : Prop where
  authEnabled : next.authEnabled = server.authEnabled
  mode : next.mode = server.mode
  nextAddr : next.nextAddr = server.nextAddr
  flushTarget : ∀ a, (next.heap a).flushTarget = (server.heap a).flushTarget
  session : ∀ a, Follows (server.heap a).session (next.heap a).session
  indexed : ∀ name a, Indexed next name a → Indexed server name a
  active : ∀ a, Active next a → Active server a

theorem isTopicMode_of_mode (h : next.mode = server.mode) :
    next.isTopicMode = server.isTopicMode := by
  rw [Server.isTopicMode, h, Server.isTopicMode]

theorem guarded_keeps (h : Guarded server) (hkeeps : Keeps server next)
    (hhistory : ∃ effects, next.history = effects ++ server.history) : Guarded next := by
  obtain ⟨effects, hhistory⟩ := hhistory
  refine ⟨hkeeps.authEnabled.trans h.authEnabled, fun a => ?_, fun name a hindexed => ?_,
    fun htopic a hactive => ?_⟩
  · rw [hhistory]
    exact sealed_follows (h.objects a) (hkeeps.flushTarget a) (hkeeps.session a) effects
  · obtain ⟨hlt, hgranted⟩ := h.indexed name a (hkeeps.indexed name a hindexed)
    rw [hkeeps.nextAddr, hkeeps.flushTarget, hhistory]
    exact ⟨hlt, granted_append hgranted effects⟩
  · rw [isTopicMode_of_mode hkeeps.mode] at htopic
    rw [(hkeeps.session a).bound]
    exact h.topics htopic a (hkeeps.active a hactive)

theorem keeps_refl (server : Server) : Keeps server server :=
  ⟨rfl, rfl, rfl, fun _ => rfl, fun _ => follows_of_eq rfl rfl, fun _ _ => id, fun _ => id⟩

theorem keeps_of_heap (hauth : next.authEnabled = server.authEnabled)
    (hmode : next.mode = server.mode) (hnextAddr : next.nextAddr = server.nextAddr)
    (hheap : next.heap = server.heap)
    (hindexed : ∀ name a, Indexed next name a → Indexed server name a)
    (hactive : ∀ a, Active next a → Active server a) : Keeps server next :=
  ⟨hauth, hmode, hnextAddr, fun a => by rw [hheap], fun a => by
    rw [hheap]
    exact follows_of_eq rfl rfl, hindexed, hactive⟩

theorem keeps_update {a : Addr} {internal : InternalSession}
    (hauth : next.authEnabled = server.authEnabled)
    (hmode : next.mode = server.mode) (hnextAddr : next.nextAddr = server.nextAddr)
    (hheap : next.heap = Function.update server.heap a internal)
    (htarget : internal.flushTarget = (server.heap a).flushTarget)
    (hfollows : Follows (server.heap a).session internal.session)
    (hindexed : ∀ name a, Indexed next name a → Indexed server name a)
    (hactive : ∀ a, Active next a → Active server a) : Keeps server next := by
  refine ⟨hauth, hmode, hnextAddr, fun b => ?_, fun b => ?_, hindexed, hactive⟩
  · rw [hheap]
    exact apply_update InternalSession.flushTarget fun _ => htarget
  · rw [hheap]
    rcases eq_or_ne b a with rfl | hne
    · rwa [Function.update_self]
    · rw [Function.update_of_ne hne]
      exact follows_of_eq rfl rfl

theorem follows_down (session : Session) :
    Follows session session.disposeAllTopicHandles.handleDisconnect :=
  ⟨rfl, fun _ _ => rfl⟩

theorem keeps_handleSessionDisconnect (server : Server) (uuid : StdString) (cause : ConnId) :
    Keeps server (server.handleSessionDisconnect uuid cause) := by
  obtain heq | ⟨a, -, heq⟩ | ⟨a, -, heq⟩ := handleSessionDisconnect_cases server uuid cause
  · rw [heq]
    exact keeps_refl server
  · rw [heq]
    exact keeps_update rfl rfl rfl rfl rfl (follows_of_eq rfl rfl) (fun _ _ => id) fun _ => id
  · obtain ⟨index, principals, hdown, hindexed⟩ := tearDownActive_eq server uuid cause a
    rw [heq, hdown]
    exact keeps_update rfl rfl rfl rfl rfl (follows_down _) hindexed
      fun b ⟨u, hu⟩ => ⟨u, (lookup_of_lookup_erase hu).2⟩

theorem Keeps.trans {mid : Server} (hfirst : Keeps server mid) (hsecond : Keeps mid next) :
    Keeps server next where
  authEnabled := hsecond.authEnabled.trans hfirst.authEnabled
  mode := hsecond.mode.trans hfirst.mode
  nextAddr := hsecond.nextAddr.trans hfirst.nextAddr
  flushTarget a := (hsecond.flushTarget a).trans (hfirst.flushTarget a)
  session a := (hfirst.session a).trans (hsecond.session a)
  indexed name a h := hfirst.indexed name a (hsecond.indexed name a h)
  active a h := hfirst.active a (hsecond.active a h)

variable [HashOrder StdString]

theorem keeps_close (server : Server) : Keeps server server.close := by
  have hall : ∀ (sessions : List Addr) (server : Server),
      Keeps server (sessions.foldl Server.closeSession server) := by
    intro sessions
    induction sessions with
    | nil => exact fun server => keeps_refl server
    | cons a sessions ih =>
        intro server
        obtain ⟨connections, heq⟩ := closeSession_eq server a
        have hclosed : Keeps server (server.closeSession a) := by
          rw [heq]
          exact keeps_update rfl rfl rfl rfl rfl (follows_down _) (fun _ _ => id) fun _ => id
        exact hclosed.trans (ih _)
  have hemptied : Keeps server
      { server with sessions := ∅, tmpSessions := ∅, principalIndex := ∅ } := by
    refine keeps_of_heap rfl rfl rfl rfl ?_ ?_
    · rintro name a ⟨members, hmembers, -⟩
      simp at hmembers
    · rintro a ⟨uuid, huuid⟩
      simp at huuid
  exact hemptied.trans (hall _ _)

variable [HashOrder Addr]

/-- The action neither attaches nor authorizes a session. -/
def Plain (server : Server) : Action → Prop
  | .takeOver _ _ | .create _ _ _ | .authorize _ _ _ | .enableAuthorization _ => False
  | .answerTopic a _ => (server.heap a).session.flatState.isSome
  | _ => True

theorem keeps_perform (server : Server) {action : Action} (h : Plain server action) :
    Keeps server (perform server action) := by
  cases action with
  | takeOver | create | authorize | enableAuthorization => exact h.elim
  | disconnect clientUuid cause => exact keeps_handleSessionDisconnect server clientUuid cause
  | close => exact keeps_close server
  | limit ws now =>
      rw [perform, Server.limitFrame]
      dsimp only
      split
      · split
        · exact keeps_refl server
        · refine keeps_update rfl rfl rfl rfl ?_ (follows_of_eq ?_ ?_) (fun _ _ => id) fun _ => id
          all_goals
            rw [Server.countFrame]
            split <;> rfl
      · exact keeps_refl server
  | answerTopic a frame =>
      obtain ⟨history, heq⟩ := dispatchTopic_eq server a frame
      have hflat := flatState_handleClientTopicFrame (server.heap a).session
        (server.heap a).tables frame
      rw [perform, heq]
      refine keeps_update rfl rfl rfl rfl rfl ⟨by rw [hflat], fun hnone => ?_⟩ (fun _ _ => id)
        fun _ => id
      rw [Plain, hnone] at h
      cases h
  | answer a frame =>
      obtain ⟨principals, effects, heq, -⟩ := runSession_eq server a
        fun session tx => session.handleFrame tx frame
      rw [perform, heq]
      exact keeps_update rfl rfl rfl rfl rfl (follows_handleFrame _ _ frame) (fun _ _ => id)
        fun _ => id
  | reject clientUuid reason =>
      rw [perform]
      cases server.tmpSessions.lookup clientUuid with
      | none => exact keeps_refl server
      | some a =>
          obtain ⟨history, framesOut, heq⟩ := sendFrame_eq
            { server with tmpSessions := server.tmpSessions.erase clientUuid } a
            (authFailFrame reason)
          dsimp only
          rw [heq]
          exact keeps_of_heap rfl rfl rfl rfl (fun _ _ => id) fun _ => id
  | callSession a call =>
      obtain ⟨history, heq⟩ := changeSession_eq server a call.operation
      rw [perform, heq]
      exact keeps_update rfl rfl rfl rfl rfl (follows_operation _ call) (fun _ _ => id)
        fun _ => id
  | callPrincipal name call =>
      obtain ⟨history, heq⟩ := changePrincipal_eq server name call.operation
      rw [perform, heq]
      exact keeps_of_heap rfl rfl rfl rfl (fun _ _ => id) fun _ => id
  | clearPrincipal name =>
      obtain ⟨history, heq⟩ := clearPrincipal_eq server name
      rw [perform, heq]
      exact keeps_of_heap rfl rfl rfl rfl (fun _ _ => id) fun _ => id
  | stopHeartbeat a =>
      exact keeps_update rfl rfl rfl rfl rfl (follows_of_eq rfl rfl) (fun _ _ => id) fun _ => id
  | heartbeat | dispatch =>
      exact keeps_of_heap rfl rfl rfl rfl (fun _ _ => id) fun _ => id
  | connect | shut | identify | receive | setMaxConnections | setMaxFramesPerSec | onAuthorize =>
      exact keeps_of_heap rfl rfl rfl rfl (fun _ _ => id) fun _ => id

end Guards

end DanWs.GuardedQueues
