import DanWs.SessionCounts

namespace DanWs.CountedArrivals

open DanWs.EntryCounts
open DanWs.FiniteMaps
open DanWs.ServerCalls
open DanWs.ServerSteps
open DanWs.Servers
open DanWs.SessionCounts
open DanWs.Sessions
open DanWs.WireTypes

section Entries

variable {server : Server} {uuid : StdString} {a : Addr}

theorem stays_activateSession [HashOrder StdString] (htopic : server.isTopicMode = false)
    (a : Addr) (principal : StdString) :
    Stays server (server.activateSession a principal) := by
  obtain ⟨principals, effects, heq, -⟩ := activateSession_principal server htopic a principal
  rw [heq]
  exact stays_update rfl rfl rfl rfl rfl rfl rfl rfl

theorem countOf_activateSession [HashOrder StdString] (htopic : server.isTopicMode = false)
    (a : Addr) (principal name : StdString) :
    countOf (server.activateSession a principal).principals name =
      countOf server.principals name +
        if name = server.effectivePrincipal principal then 1 else 0 := by
  have hcounts : (server.activateSession a principal).principals.sessionCounts =
      ((server.principals.principal (server.effectivePrincipal principal)).1.addSession
        (server.effectivePrincipal principal)).sessionCounts := by
    rw [Server.activateSession, if_neg (by simp [htopic])]
    exact sessionCounts_runSession _ a Session.startSync
  rw [countOf, hcounts, ← countOf, countOf_addSession, countOf, sessionCounts_principal, ← countOf]

theorem excess_activateSession [HashOrder StdString] (htopic : server.isTopicMode = false)
    (a : Addr) (principal name : StdString) :
    excess (server.activateSession a principal) name = excess server name +
      if name = server.effectivePrincipal principal then 1 else 0 := by
  rw [excess, (stays_activateSession htopic a principal).sessionsWith,
    countOf_activateSession htopic, excess]
  ring

theorem excess_enter (hfree : server.sessions.lookup uuid = none) (next : Server)
    (hmode : next.mode = server.mode) (hcounts : next.principals = server.principals)
    (hsessions : next.sessions = server.sessions.insert uuid a)
    (hprincipal : ∀ {u b}, server.sessions.lookup u = some b →
      (next.heap b).session.principal = (server.heap b).session.principal) (name : StdString) :
    excess next name = excess server name - if name = principalOf next a then 1 else 0 := by
  have hsame : entriesWith (principalOf next) name server.sessions = sessionsWith server name :=
    entriesWith_congr _ fun hu => principalOf_congr hmode (hprincipal hu)
  rw [excess, hcounts, sessionsWith, hsessions, entriesWith_insert _ _ hfree, hsame, excess]
  simp only [eq_comm]
  split <;> push_cast <;> ring

theorem excess_leave (hactive : server.sessions.lookup uuid = some a) (next : Server)
    (hmode : next.mode = server.mode) (hcounts : next.principals = server.principals)
    (hsessions : next.sessions = server.sessions.erase uuid)
    (hprincipal : ∀ {u b}, u ≠ uuid → server.sessions.lookup u = some b →
      (next.heap b).session.principal = (server.heap b).session.principal) (name : StdString) :
    excess next name = excess server name + if name = principalOf server a then 1 else 0 := by
  have hsame : entriesWith (principalOf next) name (server.sessions.erase uuid) =
      entriesWith (principalOf server) name (server.sessions.erase uuid) := by
    refine entriesWith_congr _ fun hu => ?_
    obtain ⟨hne, hu⟩ := lookup_of_lookup_erase hu
    exact principalOf_congr hmode (hprincipal hne hu)
  have hleft := entriesWith_erase (principalOf server) name hactive
  rw [excess, hcounts, sessionsWith, hsessions, hsame, excess, sessionsWith, ← hleft]
  simp only [eq_comm]
  split <;> push_cast <;> ring

variable [HashOrder StdString]

theorem accounts_createSession (h : Placed server) (hfree : server.sessions.lookup uuid = none)
    (ws : ConnId) (now : Nat) {balanced : Prop} (hbalanced : balanced) :
    Accounts server (server.createSession uuid ws now) balanced := by
  have hnew : ∀ {u b}, server.sessions.lookup u = some b → b ≠ server.nextAddr :=
    fun hu => (h.active hu).1.ne
  have hnewPending : ∀ {u b}, server.tmpSessions.lookup u = some b → b ≠ server.nextAddr :=
    fun hu => (h.pending hu).1.ne
  rw [Server.createSession]
  split
  · have hothers : ∀ b, b ≠ server.nextAddr →
        (server.createPending uuid ws now).heap b = server.heap b :=
      fun b hb => Function.update_of_ne hb _ _
    have hself : (server.createPending uuid ws now).heap server.nextAddr =
        InternalSession.new uuid ws now := Function.update_self _ _ _
    have hsited : Sited (server.createPending uuid ws now) := by
      refine .of_entries uuid server.nextAddr h.toSited rfl (Nat.le_succ _) hothers
        (Nat.lt_succ_self _) (by rw [hself]; rfl) (fun hu => .inr ⟨hnew hu, hu⟩)
        fun {u b} hu => ?_
      obtain ⟨heq, hb⟩ | ⟨-, hu⟩ := lookup_of_lookup_insert hu
      · refine .inl ⟨heq, hb, ?_⟩
        rw [heq]
        exact fun hactive => Option.some_ne_none b (hactive.symm.trans hfree)
      · exact .inr ⟨hnewPending hu, hu⟩
    refine .even h hsited rfl (fun name => ?_) hbalanced
    have hsame : sessionsWith (server.createPending uuid ws now) name = sessionsWith server name :=
      entriesWith_congr _ fun hu => principalOf_congr rfl (by rw [hothers _ (hnew hu)])
    rw [excess, hsame]
    rfl
  · generalize hdefault : server.defaultPrincipal = principal
    have hname : principal ≠ [] := hdefault ▸ defaultPrincipal_ne_nil server
    have hself : (server.createAuthorized uuid ws now principal).heap server.nextAddr =
        { InternalSession.new uuid ws now with
          session := (Session.new uuid).authorize principal } :=
      Function.update_self _ _ _
    have hothers : ∀ b, b ≠ server.nextAddr →
        (server.createAuthorized uuid ws now principal).heap b = server.heap b :=
      fun b hb => Function.update_of_ne hb _ _
    have hsited : Sited (server.createAuthorized uuid ws now principal) := by
      refine .of_entries uuid server.nextAddr h.toSited rfl (Nat.le_succ _) hothers
        (Nat.lt_succ_self _) (by rw [hself]; rfl) (fun {u b} hu => ?_)
        fun hu => .inr ⟨hnewPending hu, hu⟩
      obtain ⟨heq, hb⟩ | ⟨-, hu⟩ := lookup_of_lookup_insert hu
      · exact .inl ⟨heq, hb, by rw [hself]; exact hname⟩
      · exact .inr ⟨hnew hu, hu⟩
    have htopic : (server.createAuthorized uuid ws now principal).isTopicMode = false := h.topic
    refine .even h ((stays_activateSession htopic _ _).sited hsited)
      (stays_activateSession htopic _ _).undefinedBehaviour (fun name => ?_) hbalanced
    have hentered : excess (server.createAuthorized uuid ws now principal) name =
        excess server name - if name =
          principalOf (server.createAuthorized uuid ws now principal) server.nextAddr
            then 1 else 0 :=
      excess_enter hfree (server.createAuthorized uuid ws now principal) rfl rfl rfl
        (fun hu => by rw [hothers _ (hnew hu)]) name
    rw [excess_activateSession htopic, hentered, principalOf, hself]
    exact sub_add_cancel _ _

theorem accounts_attach (h : Placed server) (hactive : server.sessions.lookup uuid = some a)
    (ws : ConnId) {balanced : Prop} (hbalanced : ¬ balanced) :
    Accounts server (server.attach uuid a ws) balanced := by
  obtain ⟨hlt, hid, hprincipal⟩ := h.active hactive
  rw [Server.attach]
  split
  · have hself : (server.attachPending uuid a ws).heap a =
        { server.heap a with
          ws := some ws
          session := (server.heap a).session.handleReconnect
          heartbeatRunning := true
          flushTarget := ws } := Function.update_self _ _ _
    have hothers : ∀ b, b ≠ a → (server.attachPending uuid a ws).heap b = server.heap b :=
      fun b hb => Function.update_of_ne hb _ _
    have hsited : Sited (server.attachPending uuid a ws) := by
      refine .of_entries uuid a h.toSited rfl le_rfl hothers hlt (by rw [hself]; exact hid)
        (fun hu => ?_) fun {u b} hu => ?_
      · obtain ⟨hne, hu⟩ := lookup_of_lookup_erase hu
        exact .inr ⟨h.ne_active hid hu hne, hu⟩
      · obtain ⟨heq, hb⟩ | ⟨hne, hu⟩ := lookup_of_lookup_insert hu
        · refine .inl ⟨heq, hb, ?_⟩
          rw [heq]
          have hgone : (server.attachPending uuid a ws).sessions.lookup uuid = none :=
            Finmap.lookup_erase uuid server.sessions
          rw [hgone]
          exact (Option.some_ne_none b).symm
        · exact .inr ⟨h.ne_pending hid hu hne, hu⟩
    refine .raised h hsited rfl (principalOf server a) (fun name => ?_) hbalanced
    exact excess_leave hactive (server.attachPending uuid a ws) rfl rfl rfl
      (fun hne hu => by rw [hothers _ (h.ne_active hid hu hne)]) name
  · dsimp only
    rw [if_neg hprincipal]
    have hattached : Stays server
        (server.attachAuthorized uuid a ws (server.heap a).session.principal) := by
      have hself : (server.reattach a ws).heap a =
          { server.heap a with
            ws := some ws
            session := (server.heap a).session.handleReconnect
            heartbeatRunning := true
            flushTarget := ws } := Function.update_self _ _ _
      have hreattached : Stays server (server.reattach a ws) :=
        stays_update rfl rfl rfl rfl rfl rfl rfl rfl
      refine hreattached.trans (stays_update rfl rfl rfl rfl rfl ?_ ?_ rfl)
      · rfl
      · rw [hself]
        rfl
    have htopic : (server.attachAuthorized uuid a ws
        (server.heap a).session.principal).isTopicMode = false := h.topic
    have hstays := hattached.trans
      (stays_activateSession htopic a (server.heap a).session.principal)
    refine .raised h (hstays.sited h.toSited) hstays.undefinedBehaviour (principalOf server a)
      (fun name => ?_) hbalanced
    rw [excess_activateSession htopic, excess, hattached.sessionsWith]
    rfl

end Entries

end DanWs.CountedArrivals
