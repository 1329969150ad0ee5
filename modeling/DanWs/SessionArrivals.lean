import DanWs.SessionSeats

namespace DanWs.SessionArrivals

open DanWs.Bystanders
open DanWs.ConnectionOwners
open DanWs.ConnectionPaths
open DanWs.EventActions
open DanWs.FiniteMaps
open DanWs.KeyFrameCache
open DanWs.PrincipalContents
open DanWs.PrincipalTraffic
open DanWs.Principals
open DanWs.ServedSessions
open DanWs.ServerActions
open DanWs.ServerCalls
open DanWs.ServerConditions
open DanWs.Servers
open DanWs.SessionSeats
open DanWs.Sessions
open DanWs.StepRuns
open DanWs.WatchedSessions
open DanWs.WireRows
open DanWs.WireTypes

section Arrivals

variable {uuid : StdString} {ws : ConnId} {server : Server} {frame : Frame}

/-- The first frame of an open connection identifies it with a uuid that is new, and the
server has room for it and asks for no authorization. -/
structure Arrives (uuid : StdString) (ws : ConnId) (server : Server) (frame : Frame) : Prop where
  defined : server.undefinedBehaviour = false
  listening : (server.connections ws).listening
  isOpen : (server.connections ws).isOpen
  first : (server.connections ws).identified = false
  nameless : (server.connections ws).clientUuid = []
  identity : Server.identity frame = some uuid
  inactive : server.sessions.lookup uuid = none
  unpended : server.tmpSessions.lookup uuid = none
  admitted : server.refuses uuid = false
  unauthenticated : server.authEnabled = false

def identified (server : Server) (ws : ConnId) (uuid : StdString) : Server :=
  Server.setConnection { server with framesIn := server.framesIn + 1 } ws
    { server.connections ws with clientUuid := uuid, identified := true }

variable [HashOrder StdString] [HashOrder Addr]

theorem step_arrival (h : Arrives uuid ws server frame) (now : Nat) :
    step server (.frame ws frame now) =
      ((identified server ws uuid).createAuthorized uuid ws now
        server.defaultPrincipal).activateSession server.nextAddr server.defaultPrincipal := by
  have hlimit : { server with framesIn := server.framesIn + 1 }.limitFrame ws now =
      ({ server with framesIn := server.framesIn + 1 }, true) := by
    rw [Server.limitFrame]
    exact if_neg fun hcounts => hcounts.2 h.nameless
  have hadmitted : (identified server ws uuid).refuses uuid = false := h.admitted
  have hinactive : (identified server ws uuid).sessions.lookup uuid = none := h.inactive
  have hcreate : (identified server ws uuid).authEnabled = false := h.unauthenticated
  rw [step, h.defined, if_neg Bool.false_ne_true, handle, if_pos h.listening, Server.onFrame,
    hlimit]
  dsimp only
  rw [if_neg (by simp), if_pos (by simp [h.first]), h.identity]
  change (identified server ws uuid).handleIdentified ws uuid now = _
  rw [Server.handleIdentified, hadmitted, if_neg Bool.false_ne_true, hinactive]
  dsimp only
  rw [Server.createSession, hcreate, if_neg Bool.false_ne_true]
  rfl

def newSession (uuid principal name : StdString) : Session :=
  started ((Session.new uuid).authorize principal) name

theorem watched_arrival (h : Arrives uuid ws server frame) (hknown : Known server)
    (howned : Owned server) (htopic : server.isTopicMode = false) {name : StdString}
    (hname : server.effectivePrincipal server.defaultPrincipal = name)
    (hexact : BuildsExactly (server.principals.principal name).2) (now : Nat) :
    Watched (newSession uuid server.defaultPrincipal name) name server.nextAddr ws
        (framesOn ws server.history ++
          (registrationFrames (wires (contents server.principals name).flatState) ++
            [signalFrame .serverSync]))
        (step server (.frame ws frame now)) ∧
      Seated uuid server.nextAddr ws (step server (.frame ws frame now)) := by
  let internal : InternalSession :=
    { InternalSession.new uuid ws now with
      session := (Session.new uuid).authorize server.defaultPrincipal }
  let created := (identified server ws uuid).createAuthorized uuid ws now server.defaultPrincipal
  have hheap : created.heap = Function.update server.heap server.nextAddr internal := rfl
  have hself : created.heap server.nextAddr = internal := by rw [hheap, Function.update_self]
  have hconnection : created.connections ws =
      { server.connections ws with clientUuid := uuid, identified := true } :=
    Function.update_self _ _ _
  have hactivated : frameOn ws (.activated uuid server.nextAddr (some ws)) = none := rfl
  have hhistory : framesOn ws created.history = framesOn ws server.history :=
    silent_record hactivated server
  have hlisted : ∀ b, Listed created b → b < server.nextAddr + 1 := by
    intro b hb
    rcases hb with hactive | hpending | ⟨other, hindexed⟩
    · rcases exists_lookup_of_insert hactive with rfl | hactive
      · exact Nat.lt_succ_self _
      · exact Nat.lt_succ_of_lt (hknown.listed (.inl hactive))
    · exact Nat.lt_succ_of_lt (hknown.listed (.inr (.inl hpending)))
    · exact Nat.lt_succ_of_lt (hknown.indexed hindexed)
  have hsole : ∀ b, b < server.nextAddr + 1 → Reaches (created.heap b) ws →
      b = server.nextAddr := by
    intro b hb hreaches
    by_contra hne
    rw [hheap, Function.update_of_ne hne] at hreaches
    exact vacant_of_not_identified howned h.first b (lt_of_le_of_ne (Nat.lt_succ_iff.mp hb) hne)
      hreaches
  have hwatched := @watched_activated name server.nextAddr ws created _ hlisted hsole
    (fun other hindexed => lt_irrefl _ (hknown.indexed hindexed))
    (fun hpending => lt_irrefl _ (hknown.listed (.inr (.inl hpending)))) (Nat.lt_succ_self _)
    (by rw [hself]; rfl) (by rw [hself]; rfl) (by rw [hself]; rfl)
    (by rw [hconnection]; exact h.isOpen)
    htopic _ hname hexact
  rw [hself, hhistory] at hwatched
  rw [step_arrival h now]
  refine ⟨hwatched, seated_activateSession ?_ _⟩
  refine ⟨by rw [hconnection]; exact h.listening, by rw [hconnection], ?_, h.unpended⟩
  exact Finmap.lookup_insert _

end Arrivals

section Waiting

variable [HashOrder StdString] [HashOrder Addr] {session : Session} {uuid name : StdString}
  {a : Addr} {ws : ConnId} {frames : List Frame} {held : PrincipalTX} {server : Server}

/-- The session has been sent these frames, and the principal holds what it held. -/
structure Awaits (session : Session) (uuid name : StdString) (a : Addr) (ws : ConnId)
    (frames : List Frame) (held : PrincipalTX) (server : Server) : Prop where
  watched : Watched session name a ws frames server
  seated : Seated uuid a ws server
  owned : Owned server
  contents : contents server.principals name = held

/-- An event that leaves the session alone and that it need not know of. -/
def PassesBy (name : StdString) (a : Addr) (ws : ConnId) (server : Server) (event : Event) : Prop :=
  Leaves a ws server event ∧ Waits name a server event

instance (name : StdString) (a : Addr) (ws : ConnId) (server : Server) (event : Event) :
    Decidable (PassesBy name a ws server event) :=
  inferInstanceAs (Decidable (_ ∧ _))

theorem awaits_step (hbound : held.bound) (server : Server) (event : Event)
    (h : Awaits session uuid name a ws frames held server)
    (hpasses : PassesBy name a ws server event) :
    Awaits session uuid name a ws frames held (step server event) := by
  obtain ⟨hwatched, hseated, howned, rfl⟩ := h
  have hnone : (actions server event).filterMap (operationOn name) = [] :=
    List.filterMap_eq_nil_iff.mpr fun action haction => (hpasses.2 action haction).1
  have hbeginning : ∀ action ∈ actions server event, beginning action ≠ some ws :=
    beginning_ne_of_identified howned (identified_of_watched hwatched howned)
  have hnext := watched_step hwatched howned hbound (.inr hpasses.2) hpasses.1
  rw [hnone, outputs, List.append_nil] at hnext
  refine ⟨hnext, ?_, owned_step howned event, ?_⟩
  · rw [← run_actions]
    exact seated_actions hseated hpasses.1 hbeginning
  · rw [← run_actions, contents_actions, hnone, run_nil]

end Waiting

section Readiness

variable [HashOrder StdString] {session : Session} {uuid name : StdString} {a : Addr}
  {ws : ConnId} {frames : List Frame} {server : Server} {frame : Frame} {now : Nat}

/-- A session that has been told of the keys of its principal, and not of the values. -/
structure Announced (name : StdString) (session : Session) : Prop where
  provider : session.txProvider = some name
  synced : session.serverSyncSent
  state : session.state = .synchronizing

omit [HashOrder StdString] in
theorem announced_newSession (uuid principal name : StdString) :
    Announced name (newSession uuid principal name) := ⟨rfl, rfl, rfl⟩

theorem wires_of_empty {flat : FlatStates.FlatState} (h : flat.entries = ∅) : wires flat = [] := by
  rw [List.eq_nil_iff_forall_not_mem]
  rintro ⟨path, entry⟩ hwire
  obtain ⟨key, hentry, -⟩ := (mem_wires flat).mp hwire
  rw [h] at hentry
  cases hentry

/-- The values of a principal are the values of what it holds, also if nobody has asked for
the principal yet. -/
theorem buildValueFrames_lookup (manager : PrincipalManager) (name : StdString) :
    ((manager.principals.lookup name).map PrincipalTX.buildValueFrames).getD [] =
      valueFrames (wires (contents manager name).flatState) := by
  cases hlookup : manager.principals.lookup name with
  | none =>
      have hempty : wires (PrincipalTX.new name manager.onNewPrincipal).flatState = [] :=
        wires_of_empty rfl
      rw [contents_of_absent hlookup, hempty]
      rfl
  | some ptx =>
      rw [contents_of_lookup hlookup, Option.map_some, Option.getD_some]
      exact buildValueFrames_eq ptx.flatState

theorem handleFrame_announced (h : Announced name session) (hframe : frame.frameType = .clientReady)
    (tx : Option PrincipalTX) :
    session.handleFrame tx frame =
      ⟨{ session with state := .ready }, tx, (tx.map PrincipalTX.buildValueFrames).getD [],
        true⟩ := by
  have hstate : session.state ≠ .ready := by
    rw [h.state]
    exact SessionState.noConfusion
  unfold Session.handleFrame
  rw [hframe]
  dsimp only
  rw [if_neg hstate, if_pos h.synced]

variable [HashOrder Addr]

theorem watched_answer (h : Watched session name a ws frames server)
    (hannounced : Announced name session) (hframe : frame.frameType = .clientReady) :
    Watched { session with state := .ready } name a ws
      (frames ++ valueFrames (wires (contents server.principals name).flatState))
      (perform server (.answer a frame)) := by
  have hsent := framesOn_runSession h.flushTarget h.isOpen
    fun session tx => session.handleFrame tx frame
  have hpasses : Passes server (perform server (.answer a frame)) := passes_perform server rfl
  have hreaches := fun b hreaches => hpasses.reaches b ws hreaches
  obtain ⟨principals, effects, heq, -⟩ := runSession_eq server a
    fun session tx => session.handleFrame tx frame
  rw [perform] at hreaches ⊢
  rw [h.session_eq, hannounced.provider, handleFrame_announced hannounced hframe] at heq
  rw [h.session_eq, hannounced.provider, handleFrame_announced hannounced hframe] at hsent
  dsimp only at hsent
  rw [Option.bind_some, buildValueFrames_lookup, h.frames] at hsent
  rw [heq] at hreaches hsent ⊢
  refine ⟨?_, h.connected, h.isOpen, h.indexed, h.unpended, h.known,
    fun b hb hnext => h.sole b hb (hreaches b hnext), hsent⟩
  dsimp only
  rw [Function.update_self, post, h.attached, h.flushTarget]

omit [HashOrder Addr] in
theorem actions_clientReady (hseated : Seated uuid a ws server)
    (hdefined : server.undefinedBehaviour = false) (htopic : server.isTopicMode = false)
    (hidentified : (server.connections ws).identified) (hpasses : (server.limitFrame ws now).2)
    (hframe : frame.frameType = .clientReady) :
    actions server (.frame ws frame now) =
      [.receive, .limit ws now, .dispatch ws a, .answer a frame] := by
  obtain ⟨heap, hcounted⟩ := limitFrame_framesIn server ws now
  have hauth : frame.frameType ≠ .auth := by
    rw [hframe]
    exact FrameType.noConfusion
  rw [actions, if_neg (by simp [hdefined]), handleActions, if_pos hseated.listening,
    onFrameActions, hcounted]
  dsimp only
  rw [if_neg (by simp [hpasses]), if_neg (by simp [hidentified]), if_neg hauth, sessionActions]
  dsimp only
  rw [hseated.named, hseated.active]
  dsimp only
  rw [if_neg]
  rintro ⟨hmode, -⟩
  exact Bool.false_ne_true (htopic.symm.trans hmode)

theorem watched_clientReady {held : PrincipalTX} (hbound : held.bound)
    (h : Awaits session uuid name a ws frames held server) (hannounced : Announced name session)
    (hdefined : server.undefinedBehaviour = false) (htopic : server.isTopicMode = false)
    (hpasses : (server.limitFrame ws now).2) (hframe : frame.frameType = .clientReady) :
    Watched { session with state := .ready } name a ws
        (frames ++ valueFrames (wires held.flatState)) (step server (.frame ws frame now)) ∧
      contents (step server (.frame ws frame now)).principals name = held := by
  obtain ⟨hwatched, hseated, howned, rfl⟩ := h
  have hactions := actions_clientReady hseated hdefined htopic
    (identified_of_watched hwatched howned) hpasses hframe
  let first : List Action := [.receive, .limit ws now, .dispatch ws a]
  have hcontents : contents (run perform server first).principals name =
      contents server.principals name := contents_actions server name first
  have hpassed : ∀ action ∈ first, Passed name a action := by
    simp [first, Passed, operationOn, answering]
  have hspares : StepsMeet perform (Spares a ws) server first :=
    ⟨trivial, trivial, trivial, trivial⟩
  have hbeginning : ∀ action ∈ first, beginning action ≠ some ws := by simp [first, beginning]
  have hanswering : ∀ action ∈ first, ∀ b, answering action = some b → b < server.nextAddr := by
    simp [first, answering]
  have hfirst := watched_actions hwatched hbound (.inr hpassed) hspares hbeginning hanswering
  have hnone : first.filterMap (operationOn name) = [] := rfl
  rw [hnone, outputs, List.append_nil] at hfirst
  have hanswered := watched_answer hfirst hannounced hframe
  rw [hcontents] at hanswered
  have hstep : step server (.frame ws frame now) =
      perform (run perform server first) (.answer a frame) := by
    rw [← run_actions, hactions]
    rfl
  rw [hstep]
  exact ⟨hanswered, (contents_perform _ name (.answer a frame)).trans hcontents⟩

end Readiness

end DanWs.SessionArrivals
