import DanWs.PrincipalTraffic
import DanWs.Registration

namespace DanWs.ServedSessions

open DanWs.ConnectionOwners
open DanWs.ConnectionPaths
open DanWs.EventActions
open DanWs.FiniteMaps
open DanWs.KeyFrameCache
open DanWs.PrincipalContents
open DanWs.PrincipalReplication
open DanWs.PrincipalTraffic
open DanWs.Principals
open DanWs.Registration
open DanWs.ServerActions
open DanWs.ServerConditions
open DanWs.ServerMoves
open DanWs.ServerSteps
open DanWs.Servers
open DanWs.Sessions (Session)
open DanWs.StepRuns
open DanWs.WatchedSessions
open DanWs.WireTypes

section Known

variable {server next : Server}

/-- The maps name objects that exist. -/
structure Known (server : Server) : Prop where
  registered : Registered server
  indexed : ∀ {principal a}, Indexed server principal a → a < server.nextAddr

theorem Known.listed (h : Known server) {b : Addr} (hb : Listed server b) :
    b < server.nextAddr := by
  rcases hb with ⟨uuid, hactive⟩ | ⟨uuid, hpending⟩ | ⟨principal, hindexed⟩
  · exact (h.registered.active hactive).lt
  · exact (h.registered.pending hpending).lt
  · exact h.indexed hindexed

theorem Known.shrink (h : Known server) (hregistered : Registered next)
    (hnextAddr : server.nextAddr ≤ next.nextAddr)
    (hindexed : ∀ {principal a}, Indexed next principal a → Indexed server principal a) :
    Known next :=
  ⟨hregistered, fun ha => (h.indexed (hindexed ha)).trans_le hnextAddr⟩

theorem known_attaches (h : Known server) (hregistered : Registered next) {uuid : StdString}
    {a : Addr} {ws : ConnId} (hattaches : Attaches server next uuid a ws) : Known next := by
  obtain ⟨-, -, hnextAddr, -⟩ := attaches_exclusive h.registered hattaches
  refine h.shrink hregistered hnextAddr fun hindexed => ?_
  rwa [Indexed, hattaches.principalIndex] at hindexed

theorem known_move (h : Known server) (hmove : Move Permits.any server next) : Known next := by
  have hregistered := registered_move h.registered hmove
  cases hmove with
  | quiet hquiet =>
      refine h.shrink hregistered hquiet.nextAddr.ge fun hindexed => ?_
      rwa [Indexed, hquiet.principalIndex] at hindexed
  | tearDownActive hactive hpermitted =>
      rename_i uuid cause a
      obtain ⟨index, principals, heq, hsubset⟩ := tearDownActive_eq server uuid cause a
      rw [heq] at hregistered ⊢
      exact h.shrink hregistered le_rfl (hsubset _ _)
  | accept hpending hprincipal hpermitted =>
      rename_i uuid principal a via
      obtain ⟨effects, framesOut, heq, -⟩ := accept_eq server uuid a principal via
      rw [heq] at hregistered ⊢
      exact h.shrink hregistered le_rfl id
  | index hactive hprincipal =>
      refine ⟨hregistered, fun hindexed => ?_⟩
      rcases indexed_indexAddSession server hindexed with hindexed | ⟨-, rfl⟩
      · exact h.indexed hindexed
      · exact h.listed (.inl hactive)
  | pend hattaches => exact known_attaches h hregistered hattaches
  | activate hauth hattaches => exact known_attaches h hregistered hattaches
  | empty =>
      refine ⟨hregistered, ?_⟩
      rintro principal a ⟨members, hmembers, -⟩
      simp at hmembers
  | retire hactive hpending =>
      rename_i a
      obtain ⟨connections, heq⟩ := closeSession_eq server a
      rw [heq] at hregistered ⊢
      exact h.shrink hregistered le_rfl id
  | tearDownPending | withdraw | enable | listen | undefined =>
      exact h.shrink hregistered le_rfl id

theorem known_new (mode : ServerMode) : Known (Server.new mode) := by
  refine ⟨registered_new mode, ?_⟩
  rintro principal a ⟨members, hmembers, -⟩
  simp [Server.new] at hmembers

theorem known_run [HashOrder StdString] [HashOrder Addr] (mode : ServerMode)
    (events : List Event) : Known (run step (Server.new mode) events) := by
  refine moves_run (fun _ _ => known_move) (known_new mode) ?_
  exact stepsMeet_mono (fun server event _ => stepMeets_any server event)
    (stepsMeet_of_forall fun _ _ => trivial)

end Known

section Operations

variable [HashOrder StdString]

theorem bound_change (ptx : PrincipalTX) (operation : Operation) :
    (change ptx operation).bound = ptx.bound := by
  cases operation with
  | set | clearKey => rfl
  | clear => exact (clear_fst ptx).2.2
  | buildKeyFrames => exact (buildKeyFrames_fst ptx).2.2

theorem bound_run (ptx : PrincipalTX) (operations : List Operation) :
    (run change ptx operations).bound = ptx.bound := by
  induction operations generalizing ptx with
  | nil => rfl
  | cons operation operations ih => exact (ih _).trans (bound_change ptx operation)

/-- What the sessions of a principal are sent for a call on what it holds. -/
def sends (ptx : PrincipalTX) (operation : Operation) : List Frame := emit ⟨ptx, 0⟩ operation

end Operations

section Served

variable [HashOrder StdString] [HashOrder Addr] {session : Session} {name : StdString} {a : Addr}
  {ws : ConnId} {frames : List Frame} {server : Server}

theorem nextAddr_perform_le (server : Server) (action : Action) :
    server.nextAddr ≤ (perform server action).nextAddr := by
  cases hbeginning : beginning action with
  | none => exact (passes_perform server hbeginning).nextAddr.ge
  | some ws =>
      cases action with
      | connect | identify => exact le_rfl
      | takeOver clientUuid other =>
          rw [perform]
          split
          · exact le_rfl
          · rw [Server.attach]
            split
            · exact le_rfl
            · dsimp only
              rw [(passes_activateSession _ _ _).nextAddr]
              exact le_rfl
      | create clientUuid other now =>
          rw [perform]
          split
          · rw [Server.createSession]
            split
            · have hpending : (server.createPending clientUuid other now).nextAddr =
                  server.nextAddr + 1 := rfl
              rw [hpending]
              exact Nat.le_succ _
            · have hauthorized : (server.createAuthorized clientUuid other now
                  server.defaultPrincipal).nextAddr = server.nextAddr + 1 := rfl
              rw [(passes_activateSession _ _ _).nextAddr, hauthorized]
              exact Nat.le_succ _
          · exact le_rfl
      | _ => cases hbeginning

/-- The session is not asked for anything, and there are no calls on its principal. -/
def Passed (name : StdString) (a : Addr) (action : Action) : Prop :=
  operationOn name action = none ∧ answering action ≠ some a

instance (name : StdString) (a : Addr) (action : Action) : Decidable (Passed name a action) :=
  inferInstanceAs (Decidable (_ ∧ _))

theorem watched_actions (h : Watched session name a ws frames server)
    (hbound : (contents server.principals name).bound) {actions : List Action}
    (hready : session.state = .ready ∨ ∀ action ∈ actions, Passed name a action)
    (hspares : StepsMeet perform (Spares a ws) server actions)
    (hbeginning : ∀ action ∈ actions, beginning action ≠ some ws)
    (hanswering : ∀ action ∈ actions, ∀ b, answering action = some b → b < server.nextAddr) :
    Watched session name a ws
      (frames ++ outputs change sends (contents server.principals name)
        (actions.filterMap (operationOn name)))
      (run perform server actions) := by
  induction actions generalizing server frames with
  | nil => exact (List.append_nil frames).symm ▸ h
  | cons action actions ih =>
      obtain ⟨hfirst, hrest⟩ := List.forall_mem_cons.mp hbeginning
      obtain ⟨hanswers, hanswering⟩ := List.forall_mem_cons.mp hanswering
      have hnext := watched_perform h hbound
        (hready.imp_right fun hall => hall action List.mem_cons_self) hspares.1 hfirst hanswers
      have hcontents := contents_perform server name action
      have hkept : (contents (perform server action).principals name).bound := by
        rw [hcontents, ← run, bound_run]
        exact hbound
      have hlater : session.state = .ready ∨ ∀ other ∈ actions, Passed name a other :=
        hready.imp_right fun hall other hother => hall other (List.mem_cons_of_mem action hother)
      have hall := ih hnext hkept hlater hspares.2 hrest fun other hother b hb =>
        (hanswering other hother b hb).trans_le (nextAddr_perform_le server action)
      rw [run_cons]
      convert hall using 1
      rw [List.append_assoc, List.filterMap_cons, emitted, hcontents]
      cases operationOn name action <;> rfl

/-- What an event comes to leaves the session and its connection alone. -/
def Leaves (a : Addr) (ws : ConnId) (server : Server) (event : Event) : Prop :=
  StepsMeet perform (Spares a ws) server (actions server event)

instance (a : Addr) (ws : ConnId) (server : Server) (event : Event) :
    Decidable (Leaves a ws server event) :=
  inferInstanceAs (Decidable (StepsMeet perform (Spares a ws) server (actions server event)))

/-- What an event comes to passes a session by that is not ready. -/
def Waits (name : StdString) (a : Addr) (server : Server) (event : Event) : Prop :=
  ∀ action ∈ actions server event, Passed name a action

instance (name : StdString) (a : Addr) (server : Server) (event : Event) :
    Decidable (Waits name a server event) :=
  inferInstanceAs (Decidable (∀ action ∈ actions server event, Passed name a action))

omit [HashOrder Addr] in
theorem beginning_ne_of_identified (howned : Owned server)
    (hidentified : (server.connections ws).identified) {event : Event} :
    ∀ action ∈ actions server event, beginning action ≠ some ws := by
  intro action haction hbegins
  have hfirst := not_identified_of_beginning server
    (fun hidentified => howned.opened ws (.inl hidentified)) haction hbegins
  rw [hidentified] at hfirst
  cases hfirst

omit [HashOrder StdString] [HashOrder Addr] in
theorem identified_of_watched (h : Watched session name a ws frames server)
    (howned : Owned server) : (server.connections ws).identified := by
  have ha : a < server.nextAddr := h.known a (.inr (.inr ⟨name, (h.indexed name).mpr rfl⟩))
  exact howned.identified a ws ha (.inr (.inl h.flushTarget))

theorem watched_step (h : Watched session name a ws frames server) (howned : Owned server)
    (hbound : (contents server.principals name).bound) {event : Event}
    (hready : session.state = .ready ∨ Waits name a server event)
    (hleaves : Leaves a ws server event) :
    Watched session name a ws
      (frames ++ outputs change sends (contents server.principals name)
        ((actions server event).filterMap (operationOn name)))
      (step server event) := by
  have hbeginning : ∀ action ∈ actions server event, beginning action ≠ some ws :=
    beginning_ne_of_identified howned (identified_of_watched h howned)
  have hanswering : ∀ action ∈ actions server event, ∀ b, answering action = some b →
      b < server.nextAddr :=
    fun action haction b hanswers =>
      h.known b (.inl (active_of_answering server haction hanswers))
  rw [← run_actions]
  exact watched_actions h hbound hready hleaves hbeginning hanswering

/-- The session is in `sessions_` and up on the connection, as a session of the principal
alone. -/
structure Up (name : StdString) (a : Addr) (ws : ConnId) (server : Server) : Prop where
  active : Active server a
  ready : (server.heap a).session.state = .ready
  connected : (server.heap a).session.connected
  attached : (server.heap a).ws = some ws
  isOpen : (server.connections ws).isOpen
  indexed : ∀ other, Indexed server other a ↔ other = name

omit [HashOrder StdString] [HashOrder Addr] in
theorem watched_of_up (h : Up name a ws server) (hknown : Known server) (howned : Owned server) :
    Watched (server.heap a).session name a ws (framesOn ws server.history) server := by
  obtain ⟨uuid, hactive⟩ := h.active
  have hholds := hknown.registered.active hactive
  have htarget : (server.heap a).flushTarget = ws :=
    Option.some.inj (hholds.target.symm.trans h.attached)
  refine ⟨?_, h.connected, h.isOpen, h.indexed, ?_, fun b => hknown.listed,
    fun b hb hreaches => ?_, rfl⟩
  · rw [post, h.attached, htarget]
  · rintro ⟨other, hpending⟩
    have hsame : other = uuid := (hknown.registered.pending hpending).id.symm.trans hholds.id
    exact hknown.registered.disjoint hactive (hsame ▸ hpending)
  · exact howned.sole b a ws hb hholds.lt hreaches (.inl h.attached)

theorem watched_run (h : Watched session name a ws frames server) (howned : Owned server)
    (hbound : (contents server.principals name).bound) {events : List Event}
    (hready : session.state = .ready ∨ StepsMeet step (Waits name a) server events)
    (hleaves : StepsMeet step (Leaves a ws) server events)
    (hdefined : (run step server events).undefinedBehaviour = false) :
    Watched session name a ws
      (frames ++ outputs change sends (contents server.principals name)
        (events.filterMap (callOn server.mode name)))
      (run step server events) := by
  induction events generalizing server frames with
  | nil => exact (List.append_nil frames).symm ▸ h
  | cons event events ih =>
      have hnow := defined_of_run hdefined
      have hcontents := contents_step hnow name event
      have hmode : (step server event).mode = server.mode := mode_run server [event]
      have hnext := watched_step h howned hbound (hready.imp_right And.left) hleaves.1
      have hkept : (contents (step server event).principals name).bound := by
        rw [hcontents, bound_run]
        exact hbound
      have hall := ih hnext (owned_step howned event) hkept (hready.imp_right And.right) hleaves.2
        hdefined
      rw [run_cons]
      convert hall using 1
      rw [operations_actions hnow, List.append_assoc, List.filterMap_cons, hcontents, hmode]
      cases callOn server.mode name event with
      | none => rfl
      | some operation =>
          rw [Option.toList_some, outputs, outputs, outputs, List.append_nil]
          rfl

/-- A session is sent exactly the frames of the calls on its principal, each once and in
the order of the calls, whatever happens to other sessions and principals. -/
theorem sent_run {mode : ServerMode} (hmode : mode = .broadcast ∨ mode = .principal)
    {before after : List Event} (hup : Up name a ws (run step (Server.new mode) before))
    (hleaves : StepsMeet step (Leaves a ws) (run step (Server.new mode) before) after)
    (hdefined : (run step (Server.new mode) (before ++ after)).undefinedBehaviour = false) :
    framesOn ws (run step (Server.new mode) (before ++ after)).history =
      framesOn ws (run step (Server.new mode) before).history ++
        outputs change sends
          (run change (PrincipalTX.new name true) (before.filterMap (callOn mode name)))
          (after.filterMap (callOn mode name)) := by
  have hnew : (Server.new mode).principals.onNewPrincipal = true := by
    rcases hmode with rfl | rfl <;> rfl
  rw [run_append] at hdefined ⊢
  have hcontents := contents_run mode name (defined_of_run hdefined)
  have hbound : (contents (run step (Server.new mode) before).principals name).bound := by
    rw [hcontents, bound_run, hnew]
    rfl
  have hwatched := watched_of_up hup (known_run mode before) (owned_run mode before)
  have hrun := watched_run hwatched (owned_run mode before) hbound (.inl hup.ready) hleaves hdefined
  rw [hrun.frames, hcontents, hnew, mode_run]
  rfl

end Served

section Example

theorem indexed_of_insert {server : Server} {name : StdString} {a : Addr} {members : Finset Addr}
    (h : server.principalIndex = (∅ : FiniteMap StdString (Finset Addr)).insert name members)
    (ha : a ∈ members) (other : StdString) : Indexed server other a ↔ other = name := by
  rw [Indexed, h, lookup_insert_eq_ite]
  split
  · next heq => exact iff_of_true ⟨members, rfl, ha⟩ heq
  · next hne =>
      refine iff_of_false ?_ hne
      rintro ⟨found, hlookup, -⟩
      cases hlookup

def listenerEvents : List Event :=
  [.connect 1 false, .frame 1 (Server.identifyFrame (List.replicate 16 0)) 0,
    .frame 1 (signalFrame .clientReady) 0]

def crowdEvents : List Event :=
  [.set (str "pi") (.double 0x400921FB54442D18), .connect 2 false,
    .frame 2 (Server.identifyFrame (List.replicate 16 1)) 0, .heartbeatSend 0,
    .frame 2 (signalFrame .clientReady) 0, .set (str "s") (.string (str "v")),
    .frame 2 ⟨.clientKeyRequest, 1, .null, .null⟩ 0, .closed 2, .clearKey (str "pi")]

def listener : Server :=
  @run _ _ (@step (HashOrder.ascending StdString) (HashOrder.ascending Addr))
    (Server.new .broadcast) listenerEvents

theorem up_listener : Up broadcastPrincipal 0 1 listener := by
  have hindex : listener.principalIndex =
      (∅ : FiniteMap StdString (Finset Addr)).insert broadcastPrincipal {0} := by decide +kernel
  have hsession :
      listener.sessions.lookup (str "00000000-0000-0000-0000-000000000000") = some 0 ∧
        (listener.heap 0).session.state = .ready ∧ (listener.heap 0).session.connected ∧
        (listener.heap 0).ws = some 1 ∧ (listener.connections 1).isOpen := by decide +kernel
  obtain ⟨hactive, hready, hconnected, hattached, hopen⟩ := hsession
  exact ⟨⟨_, hactive⟩, hready, hconnected, hattached, hopen,
    indexed_of_insert hindex (Finset.mem_singleton_self 0)⟩

theorem sent_run_listener :
    let _ := HashOrder.ascending StdString
    let _ := HashOrder.ascending Addr
    framesOn 1 (run step (Server.new .broadcast) (listenerEvents ++ crowdEvents)).history =
      framesOn 1 (run step (Server.new .broadcast) listenerEvents).history ++
        outputs change sends
          (run change (PrincipalTX.new broadcastPrincipal true)
            (listenerEvents.filterMap (callOn .broadcast broadcastPrincipal)))
          (crowdEvents.filterMap (callOn .broadcast broadcastPrincipal)) := by
  have hleaves : @StepsMeet _ _ (@step (HashOrder.ascending StdString) (HashOrder.ascending Addr))
      (@Leaves (HashOrder.ascending StdString) (HashOrder.ascending Addr) 0 1)
      (@run _ _ (@step (HashOrder.ascending StdString) (HashOrder.ascending Addr))
        (Server.new .broadcast) listenerEvents) crowdEvents := by decide +kernel
  have hdefined : (@run _ _ (@step (HashOrder.ascending StdString) (HashOrder.ascending Addr))
      (Server.new .broadcast) (listenerEvents ++ crowdEvents)).undefinedBehaviour = false := by
    decide +kernel
  intro _ _
  exact sent_run (.inl rfl) up_listener hleaves hdefined

end Example

end DanWs.ServedSessions
