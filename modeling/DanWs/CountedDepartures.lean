import DanWs.CountedArrivals

namespace DanWs.CountedDepartures

open DanWs.CountedArrivals
open DanWs.EntryCounts
open DanWs.FiniteMaps
open DanWs.ServerCalls
open DanWs.ServerMoves
open DanWs.Servers
open DanWs.SessionCounts
open DanWs.WireTypes

section Entries

variable [HashOrder StdString] {server : Server} {uuid : StdString} {a : Addr}

omit [HashOrder StdString] in
theorem heap_accept (server : Server) (uuid : StdString) (a : Addr) (principal : StdString)
    (via : Via) :
    ((server.accept uuid a principal via).heap a =
      { server.heap a with session := (server.heap a).session.authorize principal }) ∧
      ∀ b, b ≠ a → (server.accept uuid a principal via).heap b = server.heap b := by
  obtain ⟨effects, framesOut, heq, -⟩ := accept_eq server uuid a principal via
  rw [heq]
  exact ⟨Function.update_self _ _ _, fun b hb => Function.update_of_ne hb _ _⟩

omit [HashOrder StdString] in
theorem sited_accept (h : Placed server) (hpending : server.tmpSessions.lookup uuid = some a)
    {principal : StdString} (hprincipal : principal ≠ []) (via : Via) :
    Sited (server.accept uuid a principal via) := by
  obtain ⟨hlt, hid⟩ := h.pending hpending
  obtain ⟨hself, hothers⟩ := heap_accept server uuid a principal via
  obtain ⟨effects, framesOut, heq, -⟩ := accept_eq server uuid a principal via
  refine .of_entries uuid a h.toSited (by rw [heq]) (by rw [heq]) hothers (by rw [heq]; exact hlt)
    (by rw [hself]; exact hid) (fun {u b} hu => ?_) fun {u b} hu => ?_
  · have hu : (server.sessions.insert uuid a).lookup u = some b := by rwa [heq] at hu
    obtain ⟨heq, hb⟩ | ⟨hne, hu⟩ := lookup_of_lookup_insert hu
    · exact .inl ⟨heq, hb, by rw [hself]; exact hprincipal⟩
    · exact .inr ⟨h.ne_active hid hu hne, hu⟩
  · have hu : (server.tmpSessions.erase uuid).lookup u = some b := by rwa [heq] at hu
    obtain ⟨hne, hu⟩ := lookup_of_lookup_erase hu
    exact .inr ⟨h.ne_pending hid hu hne, hu⟩

omit [HashOrder StdString] in
theorem insert_erase (m : FiniteMap StdString Addr) (uuid : StdString) (a : Addr) :
    (m.erase uuid).insert uuid a = m.insert uuid a := by
  refine Finmap.ext_lookup fun u => ?_
  rw [lookup_insert_eq_ite, lookup_insert_eq_ite, lookup_erase_eq_ite]
  split <;> rfl

omit [HashOrder StdString] in
theorem excess_accept (h : Placed server) (hpending : server.tmpSessions.lookup uuid = some a)
    (principal : StdString) (via : Via) (name : StdString) :
    excess (server.accept uuid a principal via) name =
      excess { server with sessions := server.sessions.erase uuid } name -
        if name = (server.accept uuid a principal via).effectivePrincipal principal
          then 1 else 0 := by
  have hid := (h.pending hpending).2
  obtain ⟨hself, hothers⟩ := heap_accept server uuid a principal via
  obtain ⟨effects, framesOut, heq, -⟩ := accept_eq server uuid a principal via
  let left : Server := { server with sessions := server.sessions.erase uuid }
  have hleft : left.sessions.lookup uuid = none := Finmap.lookup_erase uuid server.sessions
  have hname : principalOf (server.accept uuid a principal via) a =
      (server.accept uuid a principal via).effectivePrincipal principal := by
    rw [principalOf, hself]
    rfl
  rw [← hname]
  refine excess_enter hleft (server.accept uuid a principal via) ?_ ?_ ?_ (fun {u b} hu => ?_) name
  · rw [heq]
  · rw [heq]
  · rw [heq]
    exact (insert_erase server.sessions uuid a).symm
  · obtain ⟨hne, hu⟩ := lookup_of_lookup_erase hu
    rw [hothers b (h.ne_active hid hu hne)]

theorem accounts_authorize (h : Placed server)
    (hpending : server.tmpSessions.lookup uuid = some a) {principal : StdString}
    (hprincipal : principal ≠ []) (via : Via) {balanced : Prop}
    (hbalanced : balanced ↔ server.sessions.lookup uuid = none) :
    Accounts server ((server.accept uuid a principal via).activateSession a principal)
      balanced := by
  have hsited := sited_accept h hpending hprincipal via
  have hstays := stays_activateSession hsited.topic a principal
  let left : Server := { server with sessions := server.sessions.erase uuid }
  have hleft : ∀ name, excess ((server.accept uuid a principal via).activateSession a principal)
      name = excess left name := by
    intro name
    rw [excess_activateSession hsited.topic, excess_accept h hpending, sub_add_cancel]
  have hundefined : ((server.accept uuid a principal via).activateSession a
      principal).undefinedBehaviour = server.undefinedBehaviour := by
    obtain ⟨effects, framesOut, heq, -⟩ := accept_eq server uuid a principal via
    rw [hstays.undefinedBehaviour, heq]
  cases hactive : server.sessions.lookup uuid with
  | none =>
      refine .even h (hstays.sited hsited) hundefined (fun name => ?_) (hbalanced.mpr hactive)
      have hsame : left.sessions = server.sessions := by
        refine Finmap.ext_lookup fun u => ?_
        rw [lookup_erase_eq_ite]
        split
        · next heq => rw [heq, hactive]
        · rfl
      rw [hleft, excess, sessionsWith, hsame]
      rfl
  | some b =>
      refine .raised h (hstays.sited hsited) hundefined (principalOf server b) (fun name => ?_) ?_
      · rw [hleft]
        exact excess_leave hactive left rfl rfl rfl (fun _ _ => rfl) name
      · rw [hbalanced, hactive]
        exact Option.some_ne_none b

omit [HashOrder StdString] in
theorem principals_disconnectSession (htopic : server.isTopicMode = false)
    (hprincipal : (server.heap a).session.principal ≠ []) (uuid : StdString) :
    (server.disconnectSession uuid a).principals =
      (server.principals.removeSession (principalOf server a)).1 := by
  rw [Server.disconnectSession]
  dsimp only
  rw [if_pos ⟨hprincipal, by simp [htopic]⟩]
  dsimp only
  rw [Server.indexRemoveSession]
  split <;> rfl

omit [HashOrder StdString] in
theorem accounts_disconnectSession (h : Placed server)
    (hactive : server.sessions.lookup uuid = some a) (cause : ConnId) {balanced : Prop}
    (hbalanced : balanced) :
    Accounts server
      ((server.record (.tornDown cause a (server.heap a).ws)).disconnectSession uuid a)
      balanced := by
  obtain ⟨hlt, hid, hprincipal⟩ := h.active hactive
  let noted := server.record (.tornDown cause a (server.heap a).ws)
  have hprincipals : (noted.disconnectSession uuid a).principals =
      (server.principals.removeSession (principalOf server a)).1 :=
    @principals_disconnectSession noted a h.topic hprincipal uuid
  obtain ⟨index, principals, heq, -⟩ := tearDownActive_eq server uuid cause a
  have hself : ((noted.disconnectSession uuid a).heap a).session =
      (server.heap a).session.disposeAllTopicHandles.handleDisconnect := by
    rw [heq]
    simp only [Function.update_self]
  have hmode : (noted.disconnectSession uuid a).mode = server.mode := by rw [heq]
  have hothers : ∀ b, b ≠ a → (noted.disconnectSession uuid a).heap b = server.heap b := by
    intro b hb
    rw [heq]
    exact Function.update_of_ne hb _ _
  have hgone : (noted.disconnectSession uuid a).sessions = server.sessions.erase uuid := by
    rw [heq]
  have hsited : Sited (noted.disconnectSession uuid a) := by
    refine .of_entries uuid a h.toSited hmode (by rw [heq]) hothers (by rw [heq]; exact hlt)
      (by rw [hself]; exact hid) (fun {u b} hu => ?_) fun {u b} hu => ?_
    · rw [hgone] at hu
      obtain ⟨hne, hu⟩ := lookup_of_lookup_erase hu
      exact .inr ⟨h.ne_active hid hu hne, hu⟩
    · have hpending : server.tmpSessions.lookup u = some b := by rwa [heq] at hu
      refine .inr ⟨?_, hpending⟩
      rintro rfl
      obtain rfl : u = uuid := (h.pending hpending).2.symm.trans hid
      exact h.disjoint hactive hpending
  have hpositive : 0 < countOf server.principals (principalOf server a) := by
    have hone : 0 < sessionsWith server (principalOf server a) :=
      (entriesWith_pos_iff _ _).mpr ⟨uuid, a, hactive, rfl⟩
    have hcovered := h.covered (principalOf server a)
    rw [excess] at hcovered
    omega
  refine .even h hsited (by rw [heq]) (fun name => ?_) hbalanced
  -- the session is counted off behind its entry
  let left : Server := { noted.disconnectSession uuid a with principals := server.principals }
  have hleft : excess left name = excess server name +
      if name = principalOf server a then 1 else 0 := by
    refine excess_leave hactive left ?_ rfl hgone (fun {u b} hne hu => ?_) name
    · exact hmode
    · exact congrArg (fun held => held.session.principal) (hothers b (h.ne_active hid hu hne))
  have hcounted : excess (noted.disconnectSession uuid a) name = excess left name -
      if name = principalOf server a then 1 else 0 := by
    rw [excess, hprincipals, countOf_removeSession _ hpositive, excess]
    have hsame : sessionsWith left name = sessionsWith (noted.disconnectSession uuid a) name := rfl
    rw [hsame]
    ring
  rw [hcounted, hleft, add_sub_cancel_right]

omit [HashOrder StdString] in
theorem sessions_eq_empty_iff :
    server.sessions = ∅ ↔ ∀ principal, sessionsWith server principal = 0 := by
  constructor
  · intro hempty principal
    rw [sessionsWith, hempty]
    exact entriesWith_empty _ _
  · intro hnone
    refine Finmap.ext_lookup fun uuid => ?_
    rw [Finmap.lookup_empty]
    cases hactive : server.sessions.lookup uuid with
    | none => rfl
    | some a =>
        have hpositive : 0 < sessionsWith server (principalOf server a) :=
          (entriesWith_pos_iff _ _).mpr ⟨uuid, a, hactive, rfl⟩
        exact absurd (hnone _) hpositive.ne'

theorem accounts_close (h : Placed server) :
    Accounts server server.close (server.sessions = ∅) := by
  obtain ⟨heap, connections, history, heq⟩ := close_eq server
  rw [heq]
  refine .of_sited (sessionsWith server) h ⟨h.topic, ?_, ?_, ?_⟩ id (fun name => ?_)
    fun hdefined => ?_
  · intro uuid a hactive
    simp at hactive
  · intro uuid a hpending
    simp at hpending
  · intro uuid a hactive
    simp at hactive
  · rw [excess, sessionsWith, entriesWith_empty, excess]
    push_cast
    ring
  · rw [sessions_eq_empty_iff]
    exact and_iff_right hdefined

end Entries

end DanWs.CountedDepartures
