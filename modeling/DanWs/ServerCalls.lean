import DanWs.ServerSteps

namespace DanWs.ServerCalls

open DanWs.FiniteMaps
open DanWs.Principals
open DanWs.ServerConditions
open DanWs.ServerMoves
open DanWs.ServerTurns
open DanWs.Servers
open DanWs.Sessions
open DanWs.WireTypes

/-- Whose the object is, and all the connections that it writes to. -/
def paths (internal : InternalSession) : Attachment × ConnId :=
  (attachment internal, internal.heartbeatTarget)

theorem unmarked_enqueue (server : Server) (a : Addr) (frames : List Frame) :
    ∃ effects, server.enqueue a frames =
        { server with history := effects ++ server.history } ∧
      ∀ effect ∈ effects, ¬ Marks effect := by
  have hemits : Emits (fun effect => ¬ Marks effect) server (server.enqueue a frames) :=
    emits_enqueue server a frames fun _ _ _ => id
  obtain ⟨effects, hunmarked, heq⟩ := hemits
  exact ⟨effects, heq, hunmarked⟩

section Sessions

variable (server : Server)

theorem runSession_eq (a : Addr) (operation : Session → Option PrincipalTX → Outcome) :
    let internal := server.heap a
    let outcome := operation internal.session
      (internal.session.txProvider.bind server.principals.principals.lookup)
    ∃ principals effects, server.runSession a operation =
        { server with
          heap := Function.update server.heap a { internal with session := outcome.session }
          principals
          history := (if outcome.ready then [.onReady a] else []) ++ effects ++ server.history } ∧
      ∀ effect ∈ effects, ¬ Marks effect := by
  dsimp only
  rw [Server.runSession]
  dsimp only
  generalize operation (server.heap a).session _ = outcome
  have hrest : ∀ principals : PrincipalManager,
      let updated :=
        { server.put a { server.heap a with session := outcome.session } with principals }
      ∃ effects, (if outcome.ready then (updated.enqueue a outcome.frames).record (.onReady a)
          else updated.enqueue a outcome.frames) =
        { updated with
          history := (if outcome.ready then [.onReady a] else []) ++ effects ++ server.history } ∧
        ∀ effect ∈ effects, ¬ Marks effect := by
    intro principals updated
    obtain ⟨effects, heq, hunmarked⟩ := unmarked_enqueue updated a outcome.frames
    refine ⟨effects, ?_, hunmarked⟩
    rw [heq]
    split
    · rfl
    · rfl
  exact ⟨_, hrest _⟩

theorem lookup_principal (manager : PrincipalManager) (name : StdString) :
    (manager.principal name).1.principals.lookup name = some (manager.principal name).2 := by
  rw [PrincipalManager.principal]
  cases hlookup : manager.principals.lookup name with
  | none => exact Finmap.lookup_insert _
  | some ptx => exact hlookup

variable [HashOrder StdString]

theorem activateSession_topic (h : server.isTopicMode) (a : Addr) (principal : StdString) :
    ∃ effects, server.activateSession a principal =
        { server with
          heap := Function.update server.heap a
            { server.heap a with session := (server.heap a).session.bindSessionTX }
          history := effects ++ .onConnection a :: server.history } ∧
      ∀ effect ∈ effects, ¬ Marks effect := by
  rw [Server.activateSession, if_pos h]
  obtain ⟨effects, heq, hunmarked⟩ := unmarked_enqueue
    ((server.put a { server.heap a with
      session := (server.heap a).session.bindSessionTX }).record (.onConnection a)) a
    [signalFrame .serverSync]
  exact ⟨effects, heq, hunmarked⟩

/-- The session that `_startSync` makes of one whose TX providers have just been
set to a principal. -/
def started (session : Session) (principal : StdString) : Session :=
  { session.setTxProviders principal with state := .synchronizing, serverSyncSent := true }

theorem activateSession_principal (h : server.isTopicMode = false) (a : Addr)
    (principal : StdString) :
    let effective := server.effectivePrincipal principal
    ∃ principals effects, server.activateSession a principal =
        { server.indexAddSession effective a with
          heap := Function.update server.heap a
            { server.heap a with session := started (server.heap a).session effective }
          principals
          history := effects ++ .onConnection a :: server.history } ∧
      ∀ effect ∈ effects, ¬ Marks effect := by
  dsimp only
  rw [Server.activateSession, if_neg (by simp [h])]
  dsimp only
  generalize server.effectivePrincipal principal = effective
  generalize hprincipals :
    (server.principals.principal effective).1.addSession effective = principals
  obtain ⟨ptx, hptx⟩ : ∃ ptx, principals.principals.lookup effective = some ptx := by
    rw [← hprincipals]
    exact ⟨_, lookup_principal server.principals effective⟩
  obtain ⟨stored, effects, heq, hunmarked⟩ := runSession_eq
    ((({ server with principals }.indexAddSession effective a).put a
      { server.heap a with
        session := (server.heap a).session.setTxProviders effective }).record (.onConnection a))
    a Session.startSync
  refine ⟨stored, effects, ?_, hunmarked⟩
  refine heq.trans ?_
  simp only [Server.put, Server.record, Server.indexAddSession, Function.update_self,
    Function.update_idem, Session.setTxProviders, Option.bind_some, hptx, Session.startSync,
    started]
  rfl

theorem activateSession_eq (a : Addr) (principal : StdString) :
    ∃ internal principals index effects, server.activateSession a principal =
        { server with
          heap := Function.update server.heap a internal
          principals
          principalIndex := index
          history := effects ++ .onConnection a :: server.history } ∧
      paths internal = paths (server.heap a) := by
  cases h : server.isTopicMode with
  | true =>
      obtain ⟨effects, heq, -⟩ := activateSession_topic server h a principal
      exact ⟨_, server.principals, server.principalIndex, effects, heq, rfl⟩
  | false =>
      obtain ⟨principals, effects, heq, -⟩ := activateSession_principal server h a principal
      exact ⟨_, principals, _, effects, heq, rfl⟩

end Sessions

section Index

variable (server : Server)

theorem indexed_indexAddSession_iff {principal name : StdString} {a b : Addr} :
    Indexed (server.indexAddSession principal a) name b ↔
      Indexed server name b ∨ (name = principal ∧ b = a) := by
  refine ⟨indexed_indexAddSession server, ?_⟩
  intro h
  rw [Indexed, Server.indexAddSession]
  simp only [lookup_insert_eq_ite]
  obtain ⟨members, hmembers, hb⟩ | ⟨rfl, rfl⟩ := h
  · split
    · next hname =>
        refine ⟨_, rfl, Finset.mem_insert_of_mem ?_⟩
        rwa [← hname, hmembers]
    · exact ⟨members, hmembers, hb⟩
  · rw [if_pos rfl]
    exact ⟨_, rfl, Finset.mem_insert_self b _⟩

theorem indexed_indexRemoveSession_iff {principal name : StdString} {a b : Addr} :
    Indexed (server.indexRemoveSession principal a) name b ↔
      Indexed server name b ∧ ¬ (name = principal ∧ b = a) := by
  have hkept : ∀ {members : Finset Addr}, server.principalIndex.lookup principal = some members →
      ∀ other, ((if members.erase a = ∅ then server.principalIndex.erase principal
        else server.principalIndex.insert principal (members.erase a)).lookup other) =
        if other = principal then (if members.erase a = ∅ then none else some (members.erase a))
        else server.principalIndex.lookup other := by
    intro members hmembers other
    split
    · rw [lookup_erase_eq_ite]
    · rw [lookup_insert_eq_ite]
  rw [Server.indexRemoveSession, Indexed]
  cases hmembers : server.principalIndex.lookup principal with
  | none =>
      refine ⟨fun h => ⟨h, ?_⟩, And.left⟩
      rintro ⟨rfl, -⟩
      obtain ⟨members, hlookup, -⟩ := h
      rw [hmembers] at hlookup
      cases hlookup
  | some members =>
      dsimp only
      rw [hkept hmembers, Indexed]
      rcases eq_or_ne name principal with rfl | hname
      · rw [if_pos rfl, hmembers]
        simp only [true_and]
        split
        · next hempty =>
            have hall : ∀ b ∈ members, b = a := by
              intro b hb
              by_contra hne
              have hmem : b ∈ members.erase a := Finset.mem_erase.mpr ⟨hne, hb⟩
              rw [hempty] at hmem
              simp at hmem
            constructor
            · rintro ⟨indexed, hindexed, -⟩
              cases hindexed
            · rintro ⟨⟨indexed, hindexed, hb⟩, hne⟩
              cases hindexed
              exact absurd (hall b hb) hne
        · simp [Finset.mem_erase, and_comm]
      · rw [if_neg hname]
        simp [hname]

theorem indexed_disconnectSession_iff (htopic : server.isTopicMode = false) {uuid : StdString}
    {a : Addr} (hprincipal : (server.heap a).session.principal ≠ []) {name : StdString}
    {b : Addr} :
    Indexed (server.disconnectSession uuid a) name b ↔ Indexed server name b ∧
      ¬ (name = server.effectivePrincipal (server.heap a).session.principal ∧ b = a) := by
  rw [Server.disconnectSession]
  dsimp only
  rw [if_pos ⟨hprincipal, by simp [htopic]⟩]
  exact indexed_indexRemoveSession_iff _

end Index

section Disconnection

variable (server : Server)

theorem handleSessionDisconnect_cases (uuid : StdString) (cause : ConnId) :
    server.handleSessionDisconnect uuid cause = server ∨
    (∃ a, server.tmpSessions.lookup uuid = some a ∧
      server.handleSessionDisconnect uuid cause =
        { server with
          tmpSessions := server.tmpSessions.erase uuid
          heap := Function.update server.heap a { server.heap a with heartbeatRunning := false }
          history := .tornDown cause a (server.heap a).ws :: server.history }) ∨
    ∃ a, server.sessions.lookup uuid = some a ∧
      server.handleSessionDisconnect uuid cause =
        (server.record (.tornDown cause a (server.heap a).ws)).disconnectSession uuid a := by
  rw [Server.handleSessionDisconnect]
  cases hactive : server.sessions.lookup uuid with
  | none =>
      cases hpending : server.tmpSessions.lookup uuid with
      | none => exact .inl rfl
      | some a => exact .inr (.inl ⟨a, rfl, rfl⟩)
  | some a =>
      dsimp only
      split
      · exact .inr (.inr ⟨a, rfl, rfl⟩)
      · exact .inl rfl

theorem closeSessions_eq (sessions : List Addr) (server : Server) :
    ∃ heap connections history, sessions.foldl Server.closeSession server =
      { server with heap, connections, history } := by
  induction sessions generalizing server with
  | nil => exact ⟨server.heap, server.connections, server.history, rfl⟩
  | cons a sessions ih =>
      obtain ⟨connections, heq⟩ := closeSession_eq server a
      obtain ⟨heap, connections, history, hrest⟩ := ih (server.closeSession a)
      refine ⟨heap, connections, history, hrest.trans ?_⟩
      rw [heq]

theorem close_eq [HashOrder StdString] :
    ∃ heap connections history, server.close =
      { server with
        sessions := ∅, tmpSessions := ∅, principalIndex := ∅, heap, connections, history } :=
  closeSessions_eq _ _

end Disconnection

section Mode

variable [HashOrder StdString] {permits : Permits} {terms : Terms} {server next : Server}

theorem mode_activateSession (server : Server) (a : Addr) (principal : StdString) :
    (server.activateSession a principal).mode = server.mode := by
  obtain ⟨internal, principals, index, effects, heq, -⟩ := activateSession_eq server a principal
  rw [heq]

theorem mode_turn (hturn : Turn permits terms server next) : next.mode = server.mode := by
  cases hturn with
  | calm hcalm => exact hcalm.mode
  | answer hactive frame =>
      obtain ⟨principals, effects, heq, -⟩ := runSession_eq server _
        fun session tx => session.handleFrame tx frame
      rw [heq]
  | disconnect hpermitted =>
      rename_i uuid cause
      obtain heq | ⟨a, -, heq⟩ | ⟨a, -, heq⟩ := handleSessionDisconnect_cases server uuid cause <;>
        rw [heq]
      obtain ⟨index, principals, heq, -⟩ := tearDownActive_eq server uuid cause a
      rw [heq]
  | authorize hpending hprincipal hpermitted =>
      rename_i uuid principal a via
      obtain ⟨effects, framesOut, heq, -⟩ := accept_eq server uuid a principal via
      rw [mode_activateSession, heq]
  | attach ws hactive htakeover =>
      rw [Server.attach]
      split
      · rfl
      · exact mode_activateSession _ _ _
  | create ws now hnone hroom =>
      rw [Server.createSession]
      split
      · rfl
      · exact mode_activateSession _ _ _
  | close =>
      obtain ⟨heap, connections, history, heq⟩ := close_eq server
      rw [heq]
  | connect | withdraw | enable | limit | listen | undefined => rfl

end Mode

end DanWs.ServerCalls
