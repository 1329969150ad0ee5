import DanWs.ConnectionPaths

namespace DanWs.ConnectionOwners

open DanWs.ConnectionPaths
open DanWs.EventActions
open DanWs.FiniteMaps
open DanWs.ServerActions
open DanWs.ServerCalls
open DanWs.ServerMoves
open DanWs.Servers
open DanWs.SessionStanding
open DanWs.Sessions
open DanWs.StepRuns
open DanWs.TopicSync
open DanWs.WireTypes

section Owners

/-- Every connection that an object writes to is identified, and no other object writes
to it. -/
structure Owned (server : Server) : Prop where
  opened : ∀ ws, (server.connections ws).identified ∨ (server.connections ws).listening →
    (server.connections ws).opened
  identified : ∀ a ws, a < server.nextAddr → Reaches (server.heap a) ws →
    (server.connections ws).identified
  sole : ∀ a b ws, a < server.nextAddr → b < server.nextAddr → Reaches (server.heap a) ws →
    Reaches (server.heap b) ws → a = b

def Vacant (server : Server) (ws : ConnId) : Prop :=
  ∀ a, a < server.nextAddr → ¬ Reaches (server.heap a) ws

variable {server next : Server} {ws : ConnId}

theorem owned_new (mode : ServerMode) : Owned (Server.new mode) where
  opened ws h := by simp [Server.new, Connection.none] at h
  identified a ws ha := absurd ha (Nat.not_lt_zero a)
  sole a b ws ha := absurd ha (Nat.not_lt_zero a)

theorem owned_passes (h : Owned server) (hpasses : Passes server next) : Owned next where
  opened ws hflag := by
    rw [hpasses.identified] at hflag
    rw [hpasses.opened]
    exact h.opened ws (hflag.imp_right (hpasses.listening ws))
  identified a ws ha hreaches := by
    rw [hpasses.identified]
    exact h.identified a ws (hpasses.nextAddr ▸ ha) (hpasses.reaches a ws hreaches)
  sole a b ws ha hb hreaches hother :=
    h.sole a b ws (hpasses.nextAddr ▸ ha) (hpasses.nextAddr ▸ hb) (hpasses.reaches a ws hreaches)
      (hpasses.reaches b ws hother)

theorem vacant_passes (h : Vacant server ws) (hpasses : Passes server next) : Vacant next ws :=
  fun a ha hreaches => h a (hpasses.nextAddr ▸ ha) (hpasses.reaches a ws hreaches)

theorem vacant_of_not_identified (h : Owned server)
    (hfirst : (server.connections ws).identified = false) : Vacant server ws := by
  intro a ha hreaches
  rw [h.identified a ws ha hreaches] at hfirst
  cases hfirst

/-- The object `a` takes over the connection, and writes nowhere else anew. -/
structure Attaches (a : Addr) (ws : ConnId) (server next : Server) : Prop where
  connections : next.connections = server.connections
  nextAddr : ∀ b, b < next.nextAddr → b = a ∨ b < server.nextAddr
  reaches : ∀ c, a < next.nextAddr → Reaches (next.heap a) c →
    c = ws ∨ a < server.nextAddr ∧ Reaches (server.heap a) c
  others : ∀ b, b ≠ a → next.heap b = server.heap b

theorem Attaches.cases {a : Addr} (h : Attaches a ws server next) {b : Addr} {c : ConnId}
    (hb : b < next.nextAddr) (hc : Reaches (next.heap b) c) :
    b = a ∧ c = ws ∨ b < server.nextAddr ∧ Reaches (server.heap b) c := by
  rcases eq_or_ne b a with rfl | hne
  · exact (h.reaches c hb hc).imp_left fun hws => ⟨rfl, hws⟩
  · rw [h.others b hne] at hc
    exact .inr ⟨(h.nextAddr b hb).resolve_left hne, hc⟩

theorem owned_attached (h : Owned server) (hvacant : Vacant server ws)
    (hidentified : (server.connections ws).identified) {a : Addr}
    (hattaches : Attaches a ws server next) : Owned next := by
  refine ⟨?_, fun b c hb hc => ?_, fun b b' c hb hb' hc hc' => ?_⟩
  · rw [hattaches.connections]
    exact h.opened
  · rw [hattaches.connections]
    obtain ⟨-, rfl⟩ | ⟨hlt, hc⟩ := hattaches.cases hb hc
    · exact hidentified
    · exact h.identified b c hlt hc
  · obtain ⟨rfl, rfl⟩ | ⟨hlt, hc⟩ := hattaches.cases hb hc
    · obtain ⟨rfl, -⟩ | ⟨hlt', hc'⟩ := hattaches.cases hb' hc'
      · rfl
      · exact absurd hc' (hvacant b' hlt')
    · obtain ⟨rfl, rfl⟩ | ⟨hlt', hc'⟩ := hattaches.cases hb' hc'
      · exact absurd hc (hvacant b hlt)
      · exact h.sole b b' c hlt hlt' hc hc'

theorem owned_connect (h : Owned server) (hnew : ¬ (server.connections ws).opened)
    (closesSynchronously : Bool) :
    Owned (server.setConnection ws ⟨true, true, closesSynchronously, true, false, []⟩) := by
  have hothers : ∀ other, other ≠ ws →
      (server.setConnection ws ⟨true, true, closesSynchronously, true, false, []⟩).connections
        other = server.connections other := fun other hne => Function.update_of_ne hne _ _
  have hidentified : (server.connections ws).identified = false :=
    Bool.eq_false_iff.mpr fun hidentified => hnew (h.opened ws (.inl hidentified))
  refine ⟨fun other hflag => ?_, fun a other ha hreaches => ?_, h.sole⟩
  · rcases eq_or_ne other ws with rfl | hne
    · simp [Server.setConnection]
    · rw [hothers other hne] at hflag ⊢
      exact h.opened other hflag
  · have hne : other ≠ ws := by
      rintro rfl
      exact vacant_of_not_identified h hidentified a ha hreaches
    rw [hothers other hne]
    exact h.identified a other ha hreaches

theorem owned_identify (h : Owned server) (hopened : (server.connections ws).opened)
    (clientUuid : StdString) :
    Owned (server.setConnection ws
      { server.connections ws with clientUuid, identified := true }) := by
  refine ⟨fun other hflag => ?_, fun a other ha hreaches => ?_, h.sole⟩
  · rcases eq_or_ne other ws with rfl | hne
    · simpa [Server.setConnection] using hopened
    · rw [Server.setConnection] at hflag ⊢
      dsimp only at hflag ⊢
      rw [Function.update_of_ne hne] at hflag ⊢
      exact h.opened other hflag
  · rw [Server.setConnection]
    dsimp only
    rcases eq_or_ne other ws with rfl | hne
    · rw [Function.update_self]
    · rw [Function.update_of_ne hne]
      exact h.identified a other ha hreaches

theorem reaches_reattach {a : Addr} {c : ConnId} {session : Session}
    (h : Reaches { (server.reattach a ws).heap a with session } c) :
    c = ws ∨ Reaches (server.heap a) c := by
  rw [Server.reattach, Server.put] at h
  dsimp only at h
  rw [Function.update_self] at h
  rcases h with h | h | h
  · exact .inl (Option.some.inj h).symm
  · exact .inl h.symm
  · exact .inr (.inr (.inr h))

theorem heap_reattach_of_ne {a b : Addr} (hne : b ≠ a) :
    (server.reattach a ws).heap b = server.heap b := Function.update_of_ne hne _ _

theorem attaches_attachPending (server : Server) (clientUuid : StdString) (a : Addr)
    (ws : ConnId) : Attaches a ws server (server.attachPending clientUuid a ws) where
  connections := rfl
  nextAddr _ := .inr
  reaches _ ha hc := (reaches_reattach hc).imp_right fun hc => ⟨ha, hc⟩
  others _ hne := heap_reattach_of_ne hne

theorem attaches_attachAuthorized (server : Server) (clientUuid : StdString) (a : Addr)
    (ws : ConnId) (principal : StdString) :
    Attaches a ws server (server.attachAuthorized clientUuid a ws principal) where
  connections := rfl
  nextAddr _ := .inr
  reaches c ha hc := by
    rw [Server.attachAuthorized, Server.record, Server.put] at hc
    dsimp only at hc
    rw [Function.update_self] at hc
    exact (reaches_reattach hc).imp_right fun hc => ⟨ha, hc⟩
  others b hne := by
    rw [Server.attachAuthorized, Server.record, Server.put]
    dsimp only
    rw [Function.update_of_ne hne, heap_reattach_of_ne hne]

theorem eq_of_reaches_new (clientUuid : StdString) (now : Nat) {c : ConnId} (session : Session)
    (h : Reaches { InternalSession.new clientUuid ws now with session } c) : c = ws := by
  rcases h with h | h | h
  · exact (Option.some.inj h).symm
  · exact h.symm
  · exact h.symm

theorem attaches_createPending (server : Server) (clientUuid : StdString) (ws : ConnId)
    (now : Nat) :
    Attaches server.nextAddr ws server (server.createPending clientUuid ws now) where
  connections := rfl
  nextAddr _ hb := (Nat.lt_succ_iff_lt_or_eq.mp hb).symm
  reaches c _ hc := by
    rw [Server.createPending, Server.record, Server.put] at hc
    dsimp only at hc
    rw [Function.update_self] at hc
    exact .inl (eq_of_reaches_new clientUuid now _ hc)
  others _ hne := Function.update_of_ne hne _ _

theorem attaches_createAuthorized (server : Server) (clientUuid : StdString) (ws : ConnId)
    (now : Nat) (principal : StdString) :
    Attaches server.nextAddr ws server (server.createAuthorized clientUuid ws now principal) where
  connections := rfl
  nextAddr _ hb := (Nat.lt_succ_iff_lt_or_eq.mp hb).symm
  reaches c _ hc := by
    rw [Server.createAuthorized, Server.record, Server.put] at hc
    dsimp only at hc
    rw [Function.update_self] at hc
    exact .inl (eq_of_reaches_new clientUuid now _ hc)
  others _ hne := Function.update_of_ne hne _ _

variable [HashOrder StdString]

theorem attaches_attach (server : Server) (clientUuid : StdString) (a : Addr) (ws : ConnId) :
    ∃ mid, Attaches a ws server mid ∧ Passes mid (server.attach clientUuid a ws) := by
  rw [Server.attach]
  split
  · exact ⟨_, attaches_attachPending server clientUuid a ws, passes_refl _⟩
  · exact ⟨_, attaches_attachAuthorized server clientUuid a ws _, passes_activateSession _ a _⟩

theorem attaches_createSession (server : Server) (clientUuid : StdString) (ws : ConnId)
    (now : Nat) :
    ∃ mid, Attaches server.nextAddr ws server mid ∧ mid.nextAddr = server.nextAddr + 1 ∧
      (mid.heap server.nextAddr).session.id = clientUuid ∧
      Passes mid (server.createSession clientUuid ws now) := by
  have hid : ∀ internal : InternalSession, internal.session.id = clientUuid →
      (Function.update server.heap server.nextAddr internal server.nextAddr).session.id =
        clientUuid := fun internal hid => by rwa [Function.update_self]
  rw [Server.createSession]
  split
  · exact ⟨_, attaches_createPending server clientUuid ws now, rfl, hid _ rfl, passes_refl _⟩
  · exact ⟨_, attaches_createAuthorized server clientUuid ws now _, rfl, hid _ rfl,
      passes_activateSession _ _ _⟩

end Owners

section Runs

variable [HashOrder StdString] [HashOrder Addr] {server : Server}

theorem owned_last (h : Owned server) {ws : ConnId} (hvacant : Vacant server ws)
    (hidentified : (server.connections ws).identified) {clientUuid : StdString} {now : Nat}
    {last : List Action}
    (hlast : last = [] ∨ last = [.takeOver clientUuid ws] ∨ last = [.create clientUuid ws now]) :
    Owned (run perform server last) := by
  rcases hlast with rfl | rfl | rfl
  · exact h
  · rw [run_cons, run_nil, perform]
    cases server.sessions.lookup clientUuid with
    | none => exact owned_passes h (passes_of_heap rfl rfl (fun _ _ => id) fun _ => rfl)
    | some a =>
        obtain ⟨mid, hattaches, hpasses⟩ := attaches_attach server clientUuid a ws
        exact owned_passes (owned_attached h hvacant hidentified hattaches) hpasses
  · rw [run_cons, run_nil, perform]
    cases server.sessions.lookup clientUuid with
    | none =>
        obtain ⟨mid, hattaches, -, -, hpasses⟩ := attaches_createSession server clientUuid ws now
        exact owned_passes (owned_attached h hvacant hidentified hattaches) hpasses
    | some a => exact h

theorem owned_onFrame (h : Owned server) {ws : ConnId} (frame : Frame) (now : Nat)
    (hlistening : (server.connections ws).listening) :
    Owned (run perform server (onFrameActions server ws frame now)) := by
  rcases onFrameActions_cases server ws frame now with
    hreactions | ⟨hfirst, clientUuid, closing, last, heq, hclosing, hlast⟩
  · exact owned_passes h (passes_run server (underWay_of_reactions hreactions))
  -- the frame is counted, the connection identified, the older one closed, then attached
  · have hcounted : Passes server (run perform server [.receive, .limit ws now]) :=
      passes_run server (by simp [beginning])
    have hsplit : onFrameActions server ws frame now =
        [.receive, .limit ws now] ++ (.identify ws clientUuid :: (closing ++ last)) := heq
    rw [hsplit, run_append, run_cons, run_append]
    generalize run perform server [.receive, .limit ws now] = counted at hcounted
    have hvacant : Vacant counted ws :=
      vacant_passes (vacant_of_not_identified h hfirst) hcounted
    have hopened : (counted.connections ws).opened := by
      rw [hcounted.opened]
      exact h.opened ws (.inr hlistening)
    have hvacant' : Vacant (perform counted (.identify ws clientUuid)) ws := hvacant
    have hidentify : Owned (perform counted (.identify ws clientUuid)) :=
      owned_identify (owned_passes h hcounted) hopened clientUuid
    have hidentified :
        ((perform counted (.identify ws clientUuid)).connections ws).identified := by
      simp [perform, Server.setConnection]
    have hclosed := passes_run (perform counted (.identify ws clientUuid))
      (underWay_of_reactions hclosing)
    refine owned_last (owned_passes hidentify hclosed) (vacant_passes hvacant' hclosed) ?_ hlast
    rw [hclosed.identified]
    exact hidentified

theorem owned_step (h : Owned server) (event : Event) : Owned (step server event) := by
  rw [← run_actions, actions]
  split
  · exact h
  cases event with
  | connect ws closesSynchronously =>
      rw [handleActions]
      split
      · exact h
      · next hnew => exact owned_connect h hnew closesSynchronously
  | frame ws frame now =>
      rw [handleActions]
      split
      · next hlistening => exact owned_onFrame h frame now hlistening
      · exact h
  | _ =>
      exact owned_passes h (passes_run server (underWay_handleActions server
        (fun _ _ => Event.noConfusion) fun _ _ _ => Event.noConfusion))

theorem owned_run (mode : ServerMode) (events : List Event) :
    Owned (run step (Server.new mode) events) := by
  have hstep : ∀ server event, Owned server → True → Owned (step server event) :=
    fun server event h _ => owned_step h event
  exact invariant_run hstep (owned_new mode) (stepsMeet_of_forall fun _ _ => trivial)

/-- No two session objects of a server ever write to the same connection, be it with
their frames or their heartbeats, and no object writes to one that has not identified
itself. -/
theorem separate_paths (mode : ServerMode) (events : List Event) (ws : ConnId) :
    let server := run step (Server.new mode) events
    {a | a < server.nextAddr ∧ Reaches (server.heap a) ws}.Subsingleton ∧
      ∀ a, a < server.nextAddr → Reaches (server.heap a) ws →
        (server.connections ws).identified := by
  intro server
  have howned : Owned server := owned_run mode events
  exact ⟨fun a ha b hb => howned.sole a b ws ha.1 hb.1 ha.2 hb.2,
    fun a => howned.identified a ws⟩

end Runs

section Moments

/-- Objects only begin to write to certain connections, and none forgets that it has been
identified. -/
structure Grows (fresh : ConnId → Prop) (server next : Server) : Prop where
  reaches : ∀ b c, b < next.nextAddr → Reaches (next.heap b) c →
    b < server.nextAddr ∧ Reaches (server.heap b) c ∨ fresh c
  identified : ∀ c, (server.connections c).identified → (next.connections c).identified

variable {fresh : ConnId → Prop} {server mid next : Server} {ws : ConnId}

theorem Grows.trans (hfirst : Grows fresh server mid) (hsecond : Grows fresh mid next) :
    Grows fresh server next where
  reaches b c hb hc := by
    rcases hsecond.reaches b c hb hc with ⟨hlt, hc⟩ | hfresh
    · exact hfirst.reaches b c hlt hc
    · exact .inr hfresh
  identified c h := hsecond.identified c (hfirst.identified c h)

theorem Grows.mono {more : ConnId → Prop} (h : Grows fresh server next)
    (hmore : ∀ c, fresh c → more c) : Grows more server next :=
  ⟨fun b c hb hc => (h.reaches b c hb hc).imp_right (hmore c), h.identified⟩

theorem grows_of_passes (h : Passes server next) : Grows fresh server next where
  reaches b c hb hc := .inl ⟨h.nextAddr ▸ hb, h.reaches b c hc⟩
  identified c hidentified := by rwa [h.identified]

theorem grows_of_attaches {a : Addr} (h : Attaches a ws server next) :
    Grows (· = ws) server next where
  reaches _ _ hb hc := (h.cases hb hc).symm.imp_right And.right
  identified _ hidentified := by rwa [h.connections]

theorem grows_setConnection (server : Server) {connection : Connection}
    (h : (server.connections ws).identified → connection.identified) :
    Grows fresh server (server.setConnection ws connection) where
  reaches _ _ hb hc := .inl ⟨hb, hc⟩
  identified c hidentified := by
    rw [Server.setConnection]
    dsimp only
    rcases eq_or_ne c ws with rfl | hne
    · rw [Function.update_self]
      exact h hidentified
    · rwa [Function.update_of_ne hne]

variable [HashOrder StdString] [HashOrder Addr]

theorem grows_last (server : Server) {clientUuid : StdString} {now : Nat} {last : List Action}
    (hlast : last = [] ∨ last = [.takeOver clientUuid ws] ∨ last = [.create clientUuid ws now]) :
    Grows (· = ws) server (run perform server last) := by
  rcases hlast with rfl | rfl | rfl
  · exact grows_of_passes (passes_refl server)
  · rw [run_cons, run_nil, perform]
    cases server.sessions.lookup clientUuid with
    | none => exact grows_of_passes (passes_of_heap rfl rfl (fun _ _ => id) fun _ => rfl)
    | some a =>
        obtain ⟨mid, hattaches, hpasses⟩ := attaches_attach server clientUuid a ws
        exact (grows_of_attaches hattaches).trans (grows_of_passes hpasses)
  · rw [run_cons, run_nil, perform]
    cases server.sessions.lookup clientUuid with
    | none =>
        obtain ⟨mid, hattaches, -, -, hpasses⟩ := attaches_createSession server clientUuid ws now
        exact (grows_of_attaches hattaches).trans (grows_of_passes hpasses)
    | some a => exact grows_of_passes (passes_refl server)

theorem grows_onFrame (server : Server) (ws : ConnId) (frame : Frame) (now : Nat) :
    Grows (fun c => (server.connections c).identified = false) server
      (run perform server (onFrameActions server ws frame now)) := by
  rcases onFrameActions_cases server ws frame now with
    hreactions | ⟨hfirst, clientUuid, closing, last, heq, hclosing, hlast⟩
  · exact grows_of_passes (passes_run server (underWay_of_reactions hreactions))
  · have hsplit : onFrameActions server ws frame now =
        [.receive, .limit ws now] ++ (.identify ws clientUuid :: (closing ++ last)) := heq
    rw [hsplit, run_append, run_cons, run_append]
    have hcounted : Passes server (run perform server [.receive, .limit ws now]) :=
      passes_run server (by simp [beginning])
    generalize run perform server [.receive, .limit ws now] = counted at hcounted
    have hidentify : Grows (· = ws) counted (perform counted (.identify ws clientUuid)) :=
      grows_setConnection counted fun _ => rfl
    have hclosed := passes_run (perform counted (.identify ws clientUuid))
      (underWay_of_reactions hclosing)
    have hgrows := (grows_of_passes hcounted).trans
      (hidentify.trans ((grows_of_passes hclosed).trans (grows_last _ hlast)))
    exact hgrows.mono fun c hc => hc ▸ hfirst

theorem grows_step (h : Owned server) (event : Event) :
    Grows (fun c => (server.connections c).identified = false) server (step server event) := by
  have hrefl := passes_refl server
  rw [← run_actions, actions]
  split
  · exact grows_of_passes hrefl
  cases event with
  | connect ws closesSynchronously =>
      rw [handleActions]
      split
      · exact grows_of_passes hrefl
      · next hnew =>
          exact grows_setConnection server fun hidentified =>
            absurd (h.opened ws (.inl hidentified)) hnew
  | frame ws frame now =>
      rw [handleActions]
      split
      · exact grows_onFrame server ws frame now
      · exact grows_of_passes hrefl
  | _ =>
      exact grows_of_passes (passes_run server (underWay_handleActions server
        (fun _ _ => Event.noConfusion) fun _ _ _ => Event.noConfusion))

theorem grows_run (h : Owned server) (events : List Event) :
    Grows (fun c => (server.connections c).identified = false) server (run step server events) := by
  induction events generalizing server with
  | nil => exact grows_of_passes (passes_refl server)
  | cons event events ih =>
      have hstep := grows_step h event
      refine hstep.trans ((ih (owned_step h event)).mono fun c hnone => ?_)
      refine Bool.eq_false_iff.mpr fun hidentified => ?_
      rw [hstep.identified c hidentified] at hnone
      cases hnone

/-- Once an object writes to a connection, no other one ever does. -/
theorem same_owner (mode : ServerMode) (before after : List Event) {a b : Addr}
    (ha : a < (run step (Server.new mode) before).nextAddr)
    (hreaches : Reaches ((run step (Server.new mode) before).heap a) ws)
    (hb : b < (run step (Server.new mode) (before ++ after)).nextAddr)
    (hlater : Reaches ((run step (Server.new mode) (before ++ after)).heap b) ws) : b = a := by
  have howned := owned_run mode before
  rw [run_append] at hb hlater
  rcases (grows_run howned after).reaches b ws hb hlater with ⟨hlt, hearlier⟩ | hnone
  · exact howned.sole b a ws hlt ha hearlier hreaches
  · rw [howned.identified a ws ha hreaches] at hnone
    cases hnone

end Moments

end DanWs.ConnectionOwners
