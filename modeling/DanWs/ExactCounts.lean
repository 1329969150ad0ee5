import DanWs.CountedDepartures

namespace DanWs.ExactCounts

open DanWs.CountedArrivals
open DanWs.CountedDepartures
open DanWs.FiniteMaps
open DanWs.Ratchets
open DanWs.ServerActions
open DanWs.ServerCalls
open DanWs.Servers
open DanWs.SessionCounts
open DanWs.SessionStanding
open DanWs.Sessions
open DanWs.StepRuns
open DanWs.WireTypes

section Turns

theorem keeps_changeSession (server : Server) (a : Addr)
    {operation : Session → Session × List Frame}
    (hkeep : ∀ session, footing (operation session).1 = footing session) :
    Keeps server (server.changeSession a operation) := by
  obtain ⟨history, heq⟩ := changeSession_eq server a operation
  have hidentity := congrArg Prod.fst (hkeep (server.heap a).session)
  rw [heq]
  exact ⟨stays_update rfl rfl rfl rfl rfl (congrArg Identity.id hidentity)
    (congrArg Identity.principal hidentity) rfl, rfl⟩

theorem keeps_limitFrame (server : Server) (ws : ConnId) (now : Nat) :
    Keeps server (server.limitFrame ws now).1 := by
  have hsession : ∀ internal, (Server.countFrame internal server.maxFramesPerSec now).1.session =
      internal.session := by
    intro internal
    unfold Server.countFrame
    dsimp only
    split <;> rfl
  rw [Server.limitFrame]
  dsimp only
  split
  · cases server.sessionOf (server.connections ws).clientUuid with
    | none => exact keeps_refl server
    | some a =>
        exact ⟨stays_update rfl rfl rfl rfl rfl (congrArg Session.id (hsession _))
          (congrArg Session.principal (hsession _)) rfl, rfl⟩
  · exact keeps_refl server

theorem keeps_reject (server : Server) (clientUuid : StdString) (a : Addr) (frame : Frame) :
    Keeps server
      ({ server with tmpSessions := server.tmpSessions.erase clientUuid }.sendFrame a frame) := by
  obtain ⟨history, framesOut, heq⟩ :=
    sendFrame_eq { server with tmpSessions := server.tmpSessions.erase clientUuid } a frame
  rw [heq]
  exact ⟨⟨rfl, rfl, fun hu => (lookup_of_lookup_erase hu).2, rfl, fun _ => ⟨rfl, rfl⟩, rfl⟩, rfl⟩

theorem accounts_disconnect {server : Server} (h : Placed server) (uuid : StdString)
    (cause : ConnId) {balanced : Prop} (hbalanced : balanced) :
    Accounts server (server.handleSessionDisconnect uuid cause) balanced := by
  obtain heq | ⟨a, -, heq⟩ | ⟨a, hactive, heq⟩ := handleSessionDisconnect_cases server uuid cause
  · rw [heq]
    exact (keeps_refl server).accounts h hbalanced
  · have hpended : Keeps server { server with tmpSessions := server.tmpSessions.erase uuid } :=
      ⟨⟨rfl, rfl, fun hu => (lookup_of_lookup_erase hu).2, rfl, fun _ => ⟨rfl, rfl⟩, rfl⟩, rfl⟩
    have hstopped : Stays { server with tmpSessions := server.tmpSessions.erase uuid }
        (server.handleSessionDisconnect uuid cause) := by
      rw [heq]
      exact stays_update rfl rfl rfl rfl rfl rfl rfl rfl
    have hkeeps : Keeps server (server.handleSessionDisconnect uuid cause) :=
      ⟨hpended.toStays.trans hstopped, by rw [heq]⟩
    exact hkeeps.accounts h hbalanced
  · rw [heq]
    exact accounts_disconnectSession h hactive cause hbalanced

theorem placed_new {mode : ServerMode} (hmode : mode = .broadcast ∨ mode = .principal) :
    Placed (Server.new mode) := by
  have htopic : (Server.new mode).isTopicMode = false := by
    rcases hmode with rfl | rfl <;> rfl
  refine ⟨⟨htopic, ?_, ?_, ?_⟩, fun name => ?_⟩
  · intro uuid a hactive
    simp [Server.new] at hactive
  · intro uuid a hpending
    simp [Server.new] at hpending
  · intro uuid a hactive
    simp [Server.new] at hactive
  · exact le_rfl

variable [HashOrder StdString]

theorem keeps_answer (server : Server) (a : Addr) (frame : Frame) :
    Keeps server (server.runSession a fun session tx => session.handleFrame tx frame) := by
  refine ⟨?_, sessionCounts_runSession server a _⟩
  obtain ⟨principals, effects, heq, -⟩ := runSession_eq server a
    fun session tx => session.handleFrame tx frame
  have hidentity := identity_handleFrame (server.heap a).session
    ((server.heap a).session.txProvider.bind server.principals.principals.lookup) frame
  rw [heq]
  exact stays_update rfl rfl rfl rfl rfl (congrArg Identity.id hidentity)
    (congrArg Identity.principal hidentity) rfl

theorem keeps_dispatchTopic (server : Server) (a : Addr) (frame : Frame) :
    Keeps server (server.dispatchTopic a frame) := by
  obtain ⟨history, heq⟩ := dispatchTopic_eq server a frame
  have hidentity := congrArg Prod.fst
    (footing_handleClientTopicFrame (server.heap a).session (server.heap a).tables frame)
  rw [heq]
  exact ⟨stays_update rfl rfl rfl rfl rfl (congrArg Identity.id hidentity)
    (congrArg Identity.principal hidentity) rfl, rfl⟩

variable [HashOrder Addr] {server : Server}

theorem accounts_perform (h : Placed server) (action : Action) :
    Accounts server (perform server action) (SessionCounts.Balanced server action) := by
  cases action with
  | takeOver clientUuid ws =>
      rw [perform]
      cases hactive : server.sessions.lookup clientUuid with
      | none =>
          refine .of_sited (fun _ => 0) h ⟨h.topic, h.active, h.pending, h.disjoint⟩ (fun _ => rfl)
            (fun name => (add_zero _).symm) fun _ => ?_
          exact iff_of_false (fun hdefined => by cases hdefined.1) id
      | some a => exact accounts_attach h hactive ws id
  | create clientUuid ws now =>
      rw [perform]
      cases hactive : server.sessions.lookup clientUuid with
      | none => exact accounts_createSession h hactive ws now trivial
      | some a => exact (keeps_refl server).accounts h trivial
  | authorize clientUuid principal via =>
      rw [perform, Server.authorize, SessionCounts.Balanced]
      by_cases hprincipal : principal = []
      · rw [if_pos hprincipal]
        exact (keeps_refl server).accounts h (.inl hprincipal)
      rw [if_neg hprincipal, or_iff_right hprincipal]
      cases hpending : server.tmpSessions.lookup clientUuid with
      | none => exact (keeps_refl server).accounts h (.inl rfl)
      | some a =>
          refine accounts_authorize h hpending hprincipal via ?_
          simp
  | disconnect clientUuid cause => exact accounts_disconnect h clientUuid cause trivial
  | close => exact accounts_close h
  | limit ws now => exact (keeps_limitFrame server ws now).accounts h trivial
  | answerTopic a frame => exact (keeps_dispatchTopic server a frame).accounts h trivial
  | answer a frame => exact (keeps_answer server a frame).accounts h trivial
  | reject clientUuid reason =>
      rw [perform]
      cases server.tmpSessions.lookup clientUuid with
      | none => exact (keeps_refl server).accounts h trivial
      | some a => exact (keeps_reject server clientUuid a _).accounts h trivial
  | callSession a call =>
      exact (keeps_changeSession server a (footing_operation call)).accounts h trivial
  | callPrincipal name call =>
      obtain ⟨history, heq⟩ := changePrincipal_eq server name call.operation
      rw [perform, heq]
      exact Keeps.accounts ⟨⟨rfl, rfl, id, rfl, fun _ => ⟨rfl, rfl⟩, rfl⟩,
        sessionCounts_principal _ name⟩ h trivial
  | clearPrincipal name =>
      obtain ⟨history, heq⟩ := clearPrincipal_eq server name
      rw [perform, heq]
      exact Keeps.accounts ⟨⟨rfl, rfl, id, rfl, fun _ => ⟨rfl, rfl⟩, rfl⟩,
        sessionCounts_principal _ name⟩ h trivial
  | stopHeartbeat a =>
      have hkeeps : Keeps server (server.put a { server.heap a with heartbeatRunning := false }) :=
        ⟨stays_update rfl rfl rfl rfl rfl rfl rfl rfl, rfl⟩
      exact hkeeps.accounts h trivial
  | connect | receive | shut | identify | dispatch | heartbeat | enableAuthorization
  | setMaxConnections | setMaxFramesPerSec | onAuthorize =>
      exact Keeps.accounts ⟨⟨rfl, rfl, id, rfl, fun _ => ⟨rfl, rfl⟩, rfl⟩, rfl⟩ h trivial

theorem ratchet_countsExact : Ratchet perform Placed SessionCounts.Balanced CountsExact where
  keep action hserver := (accounts_perform hserver action).placed
  iff {server} action hserver := by
    obtain ⟨-, hundefined, extra, hexcess, hbalanced⟩ := accounts_perform hserver action
    rw [countsExact_iff, countsExact_iff]
    constructor
    · rintro ⟨hdefined, hnone⟩
      have hstart : server.undefinedBehaviour = false := by
        by_contra hset
        rw [hundefined (by simpa using hset)] at hdefined
        cases hdefined
      have hboth : ∀ name, excess server name = 0 ∧ extra name = 0 := by
        intro name
        have hsum := hexcess name
        rw [hnone name] at hsum
        have hcovered := hserver.covered name
        omega
      exact ⟨⟨hstart, fun name => (hboth name).1⟩,
        (hbalanced hstart).mp ⟨hdefined, fun name => (hboth name).2⟩⟩
    · rintro ⟨⟨hdefined, hnone⟩, hmeet⟩
      obtain ⟨hkept, hextra⟩ := (hbalanced hdefined).mpr hmeet
      refine ⟨hkept, fun name => ?_⟩
      rw [hexcess, hnone, hextra]
      rfl

/-- In broadcast and principal mode the counts of the principals are right in every state
of a run exactly if all actions of the run keep the balance. -/
theorem countsExact_throughout_iff {mode : ServerMode}
    (hmode : mode = .broadcast ∨ mode = .principal) (events : List Event) :
    (∀ before, before <+: events → CountsExact (run step (Server.new mode) before)) ↔
      StepsMeet step
        (fun server event => StepsMeet perform SessionCounts.Balanced server (actions server event))
        (Server.new mode) events := by
  have hstart : CountsExact (Server.new mode) := (countsExact_iff _).mpr ⟨rfl, fun _ => rfl⟩
  exact (ratchet_countsExact.of_parts run_actions).throughout_iff (placed_new hmode) hstart events

end Turns

def identifiesTwice (meanwhile : List Event) : List Event :=
  let identifyFrame := Server.identifyFrame (List.replicate 16 0)
  [.connect 1 false, .frame 1 identifyFrame 0] ++ meanwhile ++
    [.connect 2 false, .frame 2 identifyFrame 0]

theorem countsExact_throughout_identifiesTwice :
    let _ := HashOrder.ascending StdString
    let _ := HashOrder.ascending Addr
    ∀ before, before <+: identifiesTwice [.closed 1] →
      CountsExact (run step (Server.new .principal) before) := by
  intro _ _
  exact (countsExact_throughout_iff (.inr rfl) _).mpr (by decide +kernel)

/-- A session that is taken over is counted twice. -/
theorem not_countsExact_run :
    ¬ ∀ (_ : HashOrder StdString) (_ : HashOrder Addr) (mode : ServerMode)
      (events : List Event), mode = .broadcast ∨ mode = .principal →
      CountsExact (run step (Server.new mode) events) := by
  intro h
  let _ := HashOrder.ascending StdString
  let _ := HashOrder.ascending Addr
  have hexact : CountsExact (run step (Server.new .principal) (identifiesTwice [])) :=
    h _ _ .principal _ (.inr rfl)
  exact absurd (hexact.count (str "default")) (by decide +kernel)

end DanWs.ExactCounts
