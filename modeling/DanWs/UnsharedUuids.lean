import DanWs.ConnectionOwners
import DanWs.PermittedActions
import DanWs.Registration

namespace DanWs.UnsharedUuids

open DanWs.ConnectionOwners
open DanWs.ConnectionPaths
open DanWs.EventActions
open DanWs.FiniteMaps
open DanWs.PermittedActions
open DanWs.Registration
open DanWs.ServerActions
open DanWs.ServerConditions
open DanWs.ServerMoves
open DanWs.Servers
open DanWs.ServerSteps
open DanWs.StepRuns
open DanWs.WireTypes

/-- The event is a frame by which the connection identifies itself under the uuid. -/
def Identifies (uuid : StdString) (ws : ConnId) : Event → Prop
  | .frame other frame _ => other = ws ∧ Server.identity frame = some uuid
  | _ => False

def Known (among : List Event) (uuid : StdString) (ws : ConnId) : Prop :=
  ∃ event ∈ among, Identifies uuid ws event

/-- No two connections identify themselves under one uuid. -/
def Unshared (events : List Event) : Prop := ∀ uuid, {ws | Known events uuid ws}.Subsingleton

section Named

/-- Every connection that has a uuid is known under it. -/
def Introduced (among : List Event) (server : Server) : Prop :=
  ∀ ws, (server.connections ws).identified ∨ (server.connections ws).clientUuid ≠ [] →
    Known among (server.connections ws).clientUuid ws

/-- Moreover, the objects write only to connections known under their uuids. -/
structure Named (among : List Event) (server : Server) : Prop where
  registered : Registered server
  introduced : Introduced among server
  objects : ∀ a ws, a < server.nextAddr → Reaches (server.heap a) ws →
    Known among (server.heap a).session.id ws
  unnamed : ∀ a, server.nextAddr ≤ a → (server.heap a).session.id = []

variable {among : List Event} {server next : Server}

theorem named_new (mode : ServerMode) : Named among (Server.new mode) where
  registered := registered_of_empty rfl rfl
  introduced ws h := by simp [Server.new, Connection.none] at h
  objects a ws ha := absurd ha (Nat.not_lt_zero a)
  unnamed _ _ := rfl

theorem introduced_passes (h : Introduced among server) (hpasses : Passes server next) :
    Introduced among next := by
  intro ws hws
  rw [hpasses.identified, hpasses.clientUuid] at hws
  rw [hpasses.clientUuid]
  exact h ws hws

theorem introduced_setConnection (h : Introduced among server) {ws : ConnId}
    {connection : Connection} (hconnection : connection.identified ∨ connection.clientUuid ≠ [] →
      Known among connection.clientUuid ws) :
    Introduced among (server.setConnection ws connection) := by
  intro other hother
  rw [Server.setConnection] at hother ⊢
  dsimp only at hother ⊢
  rcases eq_or_ne other ws with rfl | hne
  · rw [Function.update_self] at hother ⊢
    exact hconnection hother
  · rw [Function.update_of_ne hne] at hother ⊢
    exact h other hother

theorem named_passes (h : Named among server) (hregistered : Registered next)
    (hpasses : Passes server next) : Named among next where
  registered := hregistered
  introduced := introduced_passes h.introduced hpasses
  objects a ws ha hreaches := by
    rw [hpasses.id]
    exact h.objects a ws (hpasses.nextAddr ▸ ha) (hpasses.reaches a ws hreaches)
  unnamed a ha := (hpasses.id a).trans (h.unnamed a (hpasses.nextAddr ▸ ha))

/-- The connection with which a registered uuid is attached is known under it. -/
theorem Named.holds (h : Named among server) {uuid : StdString} {a : Addr} {last : Option ConnId}
    (hholds : Holds server uuid a last) : ∃ ws, last = some ws ∧ Known among uuid ws := by
  refine ⟨(server.heap a).flushTarget, hholds.last.trans hholds.target, ?_⟩
  rw [← hholds.id]
  exact h.objects a _ hholds.lt (.inr (.inl rfl))

end Named

section Actions

variable {among : List Event} {server : Server}

/-- The action is about connections that are known under the uuids that it is about, and
authorization is set as in one of the events. -/
def Fits (among : List Event) (server : Server) : Action → Prop
  | .disconnect uuid cause => uuid ≠ [] → Known among uuid cause
  | .identify ws uuid | .create uuid ws _ => Known among uuid ws
  | .takeOver _ _ => False
  | .dispatch ws a =>
      let uuid := (server.connections ws).clientUuid
      Known among uuid ws ∧
        (server.tmpSessions.lookup uuid = some a ∨ server.sessions.lookup uuid = some a)
  | .answerTopic a _ => server.isTopicMode ∧ Active server a
  | .answer a _ => Active server a
  | .enableAuthorization enabled => .enableAuthorization enabled ∈ among
  | _ => True

variable [HashOrder StdString]

theorem named_createSession (h : Named among server) {uuid : StdString} {ws : ConnId}
    (hknown : Known among uuid ws) (now : Nat)
    (hregistered : Registered (server.createSession uuid ws now)) :
    Named among (server.createSession uuid ws now) := by
  obtain ⟨mid, hattaches, hnextAddr, hid, hpasses⟩ := attaches_createSession server uuid ws now
  refine ⟨hregistered, introduced_passes (fun c => ?_) hpasses, fun a c ha hreaches => ?_,
    fun a ha => ?_⟩
  · rw [hattaches.connections]
    exact h.introduced c
  · rw [hpasses.id]
    rw [hpasses.nextAddr] at ha
    obtain ⟨rfl, rfl⟩ | ⟨hlt, hc⟩ := hattaches.cases ha (hpasses.reaches a c hreaches)
    · rwa [hid]
    · rw [hattaches.others a hlt.ne]
      exact h.objects a c hlt hc
  · rw [hpasses.nextAddr, hnextAddr] at ha
    rw [hpasses.id, hattaches.others a (Nat.lt_of_succ_le ha).ne']
    exact h.unnamed a ((Nat.le_succ _).trans ha)

variable [HashOrder Addr]

theorem permitted_any {action : Action} (h : Fits among server action) :
    Permitted Permits.any server action := by
  cases action with
  | dispatch ws a => exact ⟨h.2, fun _ => rfl, fun _ => rfl⟩
  | takeOver => exact h.elim
  | answerTopic => exact h.2
  | answer => exact h
  | clearPrincipal => simp [Permitted, clearMeets, Permits.any]
  | callSession => simp [Permitted, changeMeets, Permits.any]
  | disconnect | authorize | enableAuthorization | onAuthorize => rfl
  | _ => trivial

theorem named_perform (h : Named among server) {action : Action}
    (hfits : Fits among server action) : Named among (perform server action) := by
  have hregistered : Registered (perform server action) :=
    moves_keep (fun _ _ => registered_move) h.registered (moves_perform (permitted_any hfits))
  cases action with
  | connect ws closesSynchronously =>
      exact ⟨hregistered, introduced_setConnection h.introduced (by simp), h.objects, h.unnamed⟩
  | identify ws uuid =>
      exact ⟨hregistered, introduced_setConnection h.introduced fun _ => hfits, h.objects,
        h.unnamed⟩
  | takeOver => exact hfits.elim
  | create uuid ws now =>
      rw [perform] at hregistered ⊢
      revert hregistered
      cases server.sessions.lookup uuid with
      | some a => exact fun _ => h
      | none => exact fun hregistered => named_createSession h hfits now hregistered
  | _ => exact named_passes h hregistered (passes_perform server rfl)

end Actions

section Endings

variable {among : List Event} {server : Server}

/-- The action ends or rejects connections that are known under their uuids. -/
def Ends (among : List Event) : Action → Prop
  | .disconnect uuid cause => Known among uuid cause
  | .shut _ | .reject _ _ | .authorize _ _ _ => True
  | _ => False

theorem fits_of_ends {action : Action} (h : Ends among action) : Fits among server action := by
  cases action with
  | disconnect => exact fun _ => h
  | shut | reject | authorize => trivial
  | _ => exact h.elim

theorem ends_onCloseActions (h : Introduced among server) (ws : ConnId) :
    ∀ action ∈ onCloseActions server ws, Ends among action := by
  rw [onCloseActions]
  split
  · next hnamed =>
      intro action haction
      rw [List.mem_singleton.mp haction]
      exact h ws (.inr hnamed.2)
  · exact List.forall_mem_nil _

theorem ends_closeActions (h : Introduced among server) (ws : ConnId) :
    ∀ action ∈ closeActions server ws, Ends among action := by
  rw [closeActions]
  split
  · refine List.forall_mem_cons.mpr ⟨trivial, ?_⟩
    split
    · apply ends_onCloseActions
      exact introduced_passes h (passes_setConnection server ws rfl rfl id rfl)
    · exact List.forall_mem_nil _
  · exact List.forall_mem_nil _

theorem ends_rejectActions (h : Introduced among server) (uuid reason : StdString) :
    ∀ action ∈ rejectActions server uuid reason, Ends among action := by
  rw [rejectActions]
  split
  · exact List.forall_mem_nil _
  · next a _ =>
      refine List.forall_mem_cons.mpr ⟨trivial, ?_⟩
      obtain ⟨history, framesOut, heq⟩ := sendFrame_eq
        { server with tmpSessions := server.tmpSessions.erase uuid } a (authFailFrame reason)
      rw [heq]
      split
      · exact List.forall_mem_nil _
      · apply ends_closeActions
        exact h

theorem ends_callActions (h : Introduced among server) (via : Via) (call : AuthCall) :
    ∀ action ∈ callActions server via call, Ends among action := by
  cases call with
  | authorize uuid token principal => exact List.forall_mem_singleton.mpr trivial
  | reject uuid reason => exact ends_rejectActions h uuid reason

variable [HashOrder StdString] [HashOrder Addr]

theorem ends_callsActions (h : Introduced among server) (via : Via) (calls : List AuthCall) :
    ∀ action ∈ callsActions via server calls, Ends among action := by
  induction calls generalizing server with
  | nil => exact List.forall_mem_nil _
  | cons call calls ih =>
      rw [callsActions]
      cases hnext : server.applyCall via call with
      | error fault => exact List.forall_mem_nil _
      | ok next =>
          have hpasses : Passes server next := by
            rw [← run_callActions server via call hnext]
            have hreactions : Reactions server.sessions (callActions server via call) :=
              reactions_callActions server via call
            exact passes_run server (underWay_of_reactions hreactions)
          exact List.forall_mem_append.mpr
            ⟨ends_callActions h via call, ih (introduced_passes h hpasses)⟩

theorem ends_callbacksActions (h : Introduced among server) (via : Via) (uuid token : StdString)
    (callbacks : List (StdString → StdString → List AuthCall)) :
    ∀ action ∈ callbacksActions via uuid token server callbacks, Ends among action := by
  induction callbacks generalizing server with
  | nil => exact List.forall_mem_nil _
  | cons callback callbacks ih =>
      have hpasses : Passes server (Server.runCalls via server (callback uuid token)) := by
        have hreactions : Reactions server.sessions
            (callsActions via server (callback uuid token)) :=
          reactions_callsActions server via _
        rw [← run_callsActions]
        exact passes_run server (underWay_of_reactions hreactions)
      exact List.forall_mem_append.mpr
        ⟨ends_callsActions h via _, ih (introduced_passes h hpasses)⟩

theorem stepsMeet_of_ends {actions : List Action} (h : ∀ action ∈ actions, Ends among action) :
    StepsMeet perform (Fits among) server actions :=
  stepsMeet_mono (fun _ _ => fits_of_ends) (stepsMeet_of_forall h)

end Endings

section Events

variable {among : List Event} {server : Server}

/-- A uuid that is known for one connection only comes without a session. -/
theorem lookup_of_vacant (h : Named among server) {uuid : StdString} {ws : ConnId}
    (hknown : ∀ other, Known among uuid other → other = ws) (hvacant : Vacant server ws) :
    server.sessions.lookup uuid = none := by
  cases hactive : server.sessions.lookup uuid with
  | none => rfl
  | some a =>
      have hholds := h.registered.active hactive
      obtain ⟨other, hlast, hother⟩ := h.holds hholds
      rw [hknown other hother] at hlast
      exact absurd (.inl (hholds.last.symm.trans hlast)) (hvacant a hholds.lt)

variable [HashOrder StdString] [HashOrder Addr]

theorem fits_authActions (h : Introduced among server) {ws : ConnId}
    (hidentified : (server.connections ws).identified) (frame : Frame) :
    StepsMeet perform (Fits among) server (authActions server ws frame) := by
  rw [authActions]
  dsimp only
  split
  · trivial
  · next a hpending =>
      split
      · refine ⟨⟨h ws (.inl hidentified), .inl hpending⟩, stepsMeet_of_ends ?_⟩
        apply ends_callbacksActions
        exact h
      · trivial

theorem fits_sessionActions (h : Introduced among server) {ws : ConnId}
    (hidentified : (server.connections ws).identified) (frame : Frame) :
    StepsMeet perform (Fits among) server (sessionActions server ws frame) := by
  rw [sessionActions]
  split
  · trivial
  · next a hactive =>
      refine ⟨⟨h ws (.inl hidentified), .inr hactive⟩, ?_, trivial⟩
      split
      · next htopic => exact ⟨htopic.1, _, hactive⟩
      · exact ⟨_, hactive⟩

theorem fits_identifiedActions (h : Named among server) {ws : ConnId} {uuid : StdString}
    (hknown : Known among uuid ws) (hsole : ∀ other, Known among uuid other → other = ws)
    (hvacant : Vacant server ws) (now : Nat) :
    StepsMeet perform (Fits among) server (identifiedActions server ws uuid now) := by
  rw [identifiedActions]
  split
  · exact stepsMeet_of_ends (ends_closeActions h.introduced ws)
  · rw [lookup_of_vacant h hsole hvacant]
    exact ⟨hknown, trivial⟩

theorem fits_onFrameActions (h : Named among server) (howned : Owned server) {ws : ConnId}
    {frame : Frame} (hknown : ∀ uuid, Server.identity frame = some uuid → Known among uuid ws)
    (hsole : ∀ uuid other, Known among uuid ws → Known among uuid other → other = ws) (now : Nat) :
    StepsMeet perform (Fits among) server (onFrameActions server ws frame now) := by
  have hreceived : Named among (perform server .receive) := named_perform h trivial
  have hcounted : Named among (perform (perform server .receive) (.limit ws now)) :=
    named_perform hreceived trivial
  have hpasses : Passes server (run perform server [.receive, .limit ws now]) :=
    passes_run server (by simp [beginning])
  rw [run_cons, run_cons, run_nil] at hpasses
  dsimp only [perform] at hcounted hpasses
  rw [onFrameActions]
  dsimp only
  refine stepsMeet_counted.mpr ⟨trivial, trivial, ?_⟩
  generalize { server with framesIn := server.framesIn + 1 }.limitFrame ws now = counted
    at hcounted hpasses ⊢
  split
  · exact stepsMeet_of_ends (ends_closeActions hcounted.introduced ws)
  · split
    · next hfirst =>
        split
        · exact stepsMeet_of_ends (ends_closeActions hcounted.introduced ws)
        · next uuid huuid =>
            have hidentify : Named among (perform counted.1 (.identify ws uuid)) :=
              named_perform hcounted (hknown uuid huuid)
            have hvacant : Vacant counted.1 ws := by
              refine vacant_passes (vacant_of_not_identified howned ?_) hpasses
              rw [← hpasses.identified]
              exact Bool.eq_false_iff.mpr hfirst
            exact ⟨hknown uuid huuid, fits_identifiedActions hidentify (hknown uuid huuid)
              (fun other => hsole uuid other (hknown uuid huuid)) hvacant now⟩
    · next hidentified =>
        have hidentified := not_not.mp hidentified
        split
        · exact fits_authActions hcounted.introduced hidentified frame
        · exact fits_sessionActions hcounted.introduced hidentified frame

theorem fits_actions (hunshared : Unshared among) (h : Named among server) (howned : Owned server)
    {event : Event} (hevent : event ∈ among) :
    StepsMeet perform (Fits among) server (actions server event) := by
  rw [actions]
  split
  · trivial
  cases event with
  | connect ws closesSynchronously =>
      rw [handleActions]
      split
      · trivial
      · exact ⟨trivial, trivial⟩
  | frame ws frame now =>
      rw [handleActions]
      split
      · exact fits_onFrameActions h howned (fun uuid huuid => ⟨_, hevent, rfl, huuid⟩)
          (fun uuid other hws hother => hunshared uuid hother hws) now
      · trivial
  | closed ws =>
      refine ⟨trivial, stepsMeet_of_ends (ends_onCloseActions ?_ ws)⟩
      exact introduced_passes h.introduced (passes_setConnection server ws rfl rfl id rfl)
  | heartbeatTimeout a =>
      rw [handleActions]
      split
      · refine ⟨trivial, fun hnamed => ?_, trivial⟩
        have hold : a < server.nextAddr := not_le.mp fun hnew => hnamed (h.unnamed a hnew)
        exact h.objects a _ hold (.inr (.inr rfl))
      · trivial
  | heartbeatSend a =>
      rw [handleActions]
      split
      · exact ⟨trivial, trivial⟩
      · trivial
  | reject uuid reason => exact stepsMeet_of_ends (ends_rejectActions h.introduced uuid reason)
  | set | clear | clearKey =>
      rw [handleActions, broadcastActions]
      split
      · exact ⟨trivial, trivial⟩
      · trivial
  | principalSet | principalClear | principalClearKey =>
      rw [handleActions, principalActions]
      split
      · exact ⟨trivial, trivial⟩
      · trivial
  | enableAuthorization => exact ⟨hevent, trivial⟩
  | _ => exact ⟨trivial, trivial⟩

end Events

end DanWs.UnsharedUuids
