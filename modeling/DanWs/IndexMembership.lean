import DanWs.PrincipalIsolation
import DanWs.ServerCalls

namespace DanWs.IndexMembership

open DanWs.FiniteMaps
open DanWs.PrincipalIsolation
open DanWs.Registration
open DanWs.ServerCalls
open DanWs.ServerConditions
open DanWs.ServerMoves
open DanWs.ServerSteps
open DanWs.ServerTurns
open DanWs.Servers
open DanWs.SessionStanding
open DanWs.Sessions
open DanWs.StepRuns
open DanWs.WireTypes

/-- The sessions under any principal of the index are those in `sessions_`. -/
def IndexExact (server : Server) : Prop :=
  ∀ a, (∃ principal, Indexed server principal a) ↔ Active server a

/-- `authorize` finds no pending uuid that has a session in `sessions_` as well. -/
def authorizesAnew : Permits where
  __ := Permits.any
  authorize server clientUuid principal _ :=
    principal = [] || (server.tmpSessions.lookup clientUuid).isNone ||
      (server.sessions.lookup clientUuid).isNone

def withoutAuthorization : Terms where
  takeover enabled := enabled = false
  limit _ := True
  synchronous := True

def keepsIndex [HashOrder StdString] [HashOrder Addr] (server : Server) (event : Event) : Bool :=
  stepMeets authorizesAnew server event && !(takesOver server event && server.authEnabled)

/-- All sessions of `sessions_` but `a` are indexed under their principals, and
`a` is indexed under no other one. -/
structure IndexedBut (a : Addr) (server : Server) : Prop where
  named : ∀ {b}, Active server b → (server.heap b).session.principal ≠ []
  others : ∀ {principal b}, b ≠ a → (Indexed server principal b ↔
    Active server b ∧ principal = server.effectivePrincipal (server.heap b).session.principal)
  own : ∀ {principal}, Indexed server principal a →
    principal = server.effectivePrincipal (server.heap a).session.principal

structure IndexedOwn (server : Server) : Prop where
  named : ∀ {a}, Active server a → (server.heap a).session.principal ≠ []
  indexed : ∀ {principal a}, Indexed server principal a ↔
    Active server a ∧ principal = server.effectivePrincipal (server.heap a).session.principal

section Turns

variable {server next : Server} {uuid : StdString} {a : Addr}

theorem IndexedOwn.exact (h : IndexedOwn server) : IndexExact server := by
  intro a
  constructor
  · rintro ⟨principal, hindexed⟩
    exact (h.indexed.mp hindexed).1
  · exact fun hactive => ⟨_, h.indexed.mpr ⟨hactive, rfl⟩⟩

theorem IndexedOwn.of_eq (h : IndexedOwn server) (hmode : next.mode = server.mode)
    (hsessions : next.sessions = server.sessions)
    (hindex : next.principalIndex = server.principalIndex)
    (hprincipal : ∀ a, Active server a →
      (next.heap a).session.principal = (server.heap a).session.principal) :
    IndexedOwn next := by
  have hactive : ∀ a, Active next a ↔ Active server a := fun a => by
    rw [Active, hsessions, Active]
  refine ⟨fun {a} ha => ?_, fun {principal a} => ?_⟩
  · rw [hprincipal a ((hactive a).mp ha)]
    exact h.named ((hactive a).mp ha)
  · rw [Indexed, hindex, hactive]
    refine h.indexed.trans (and_congr_right fun ha => ?_)
    have heffective : ∀ name, next.effectivePrincipal name = server.effectivePrincipal name := by
      intro name
      rw [Server.effectivePrincipal, hmode, Server.effectivePrincipal]
    rw [heffective, hprincipal a ha]

/-- The turn of `activateSession`: it closes the gap in the index. -/
theorem indexedOwn_activateSession [HashOrder StdString] (h : IndexedBut a server)
    (htopic : server.isTopicMode = false) (hactive : Active server a) {principal : StdString}
    (hprincipal : (server.heap a).session.principal = principal) :
    IndexedOwn (server.activateSession a principal) := by
  obtain ⟨principals, effects, heq, -⟩ := activateSession_principal server htopic a principal
  have hkept : ∀ b, ((server.activateSession a principal).heap b).session.principal =
      (server.heap b).session.principal := by
    intro b
    rw [heq]
    exact apply_update (fun internal => internal.session.principal) fun _ => rfl
  have hindexed : ∀ {name b}, Indexed (server.activateSession a principal) name b ↔
      Indexed server name b ∨ (name = server.effectivePrincipal principal ∧ b = a) := by
    intro name b
    rw [heq]
    exact indexed_indexAddSession_iff server
  have hsame : ∀ b, Active (server.activateSession a principal) b ↔ Active server b := by
    intro b
    rw [heq]
    exact Iff.rfl
  have hmode : ∀ name, (server.activateSession a principal).effectivePrincipal name =
      server.effectivePrincipal name := by
    intro name
    rw [heq]
    rfl
  refine ⟨fun {b} hb => ?_, fun {name b} => ?_⟩
  · rw [hkept]
    exact h.named ((hsame b).mp hb)
  · rw [hindexed, hsame, hkept, hmode]
    rcases eq_or_ne b a with rfl | hne
    · rw [← hprincipal]
      constructor
      · rintro (hold | ⟨hname, -⟩)
        · exact ⟨hactive, h.own hold⟩
        · exact ⟨hactive, hname⟩
      · exact fun hname => .inr ⟨hname.2, rfl⟩
    · rw [h.others hne]
      simp [hne]

theorem IndexedOwn.but (h : IndexedOwn server) (a : Addr) : IndexedBut a server :=
  ⟨h.named, fun _ => h.indexed, fun hindexed => (h.indexed.mp hindexed).2⟩

theorem indexedBut_enter (h : IndexedOwn server) (hnew : ¬ Active server a)
    (hfree : server.sessions.lookup uuid = none) (hmode : next.mode = server.mode)
    (hsessions : next.sessions = server.sessions.insert uuid a)
    (hindex : next.principalIndex = server.principalIndex)
    (hothers : ∀ b, b ≠ a → next.heap b = server.heap b)
    (hprincipal : (next.heap a).session.principal ≠ []) :
    Active next a ∧ IndexedBut a next := by
  have hlookup : ∀ u, next.sessions.lookup u =
      if u = uuid then some a else server.sessions.lookup u := fun u => by
    rw [hsessions, lookup_insert_eq_ite]
  have hactive : ∀ {b}, b ≠ a → (Active next b ↔ Active server b) := by
    intro b hb
    constructor
    · rintro ⟨u, hu⟩
      rw [hlookup] at hu
      split at hu
      · exact absurd (Option.some.inj hu).symm hb
      · exact ⟨u, hu⟩
    · rintro ⟨u, hu⟩
      refine ⟨u, ?_⟩
      rw [hlookup, if_neg]
      · exact hu
      · rintro rfl
        rw [hfree] at hu
        cases hu
  have hindexed : ∀ {name b}, Indexed next name b ↔ Indexed server name b := by
    intro name b
    rw [Indexed, hindex, Indexed]
  refine ⟨⟨uuid, by rw [hlookup, if_pos rfl]⟩, fun {b} hb => ?_, fun {name b} hb => ?_,
    fun hown => absurd (h.indexed.mp (hindexed.mp hown)).1 hnew⟩
  · rcases eq_or_ne b a with rfl | hne
    · exact hprincipal
    · rw [hothers b hne]
      exact h.named ((hactive hne).mp hb)
  · rw [hindexed, hactive hb, hothers b hb, Server.effectivePrincipal, hmode]
    exact h.indexed

theorem indexedOwn_disconnect (h : IndexedOwn server) (hregistered : Registered server)
    (htopic : server.isTopicMode = false) (hactive : server.sessions.lookup uuid = some a)
    (cause : ConnId) :
    IndexedOwn
      ((server.record (.tornDown cause a (server.heap a).ws)).disconnectSession uuid a) := by
  have hprincipal := h.named ⟨uuid, hactive⟩
  have hindexed := @indexed_disconnectSession_iff
    (server.record (.tornDown cause a (server.heap a).ws)) htopic uuid a hprincipal
  obtain ⟨index, principals, heq, -⟩ := tearDownActive_eq server uuid cause a
  rw [heq] at hindexed ⊢
  have hkept : ∀ {b}, Active { server with sessions := server.sessions.erase uuid } b ↔
      Active server b ∧ b ≠ a := by
    intro b
    constructor
    · rintro ⟨u, hu⟩
      obtain ⟨hne, hu⟩ := lookup_of_lookup_erase hu
      exact ⟨⟨u, hu⟩, (hregistered.active hactive).ne (hregistered.active hu) hne⟩
    · rintro ⟨⟨u, hu⟩, hb⟩
      refine ⟨u, ?_⟩
      rw [lookup_erase_eq_ite, if_neg]
      · exact hu
      · rintro rfl
        rw [hactive] at hu
        exact hb (Option.some.inj hu).symm
  refine ⟨fun {b} hb => ?_, fun {name b} => ?_⟩
  · obtain ⟨hb, hne⟩ := hkept.mp hb
    dsimp only
    rw [Function.update_of_ne hne]
    exact h.named hb
  · refine hindexed.trans ⟨?_, ?_⟩
    · rintro ⟨hold, hremoved⟩
      obtain ⟨hb, hname⟩ := h.indexed.mp hold
      have hne : b ≠ a := by
        rintro rfl
        exact hremoved ⟨hname, rfl⟩
      refine ⟨hkept.mpr ⟨hb, hne⟩, ?_⟩
      dsimp only
      rw [Function.update_of_ne hne]
      exact hname
    · rintro ⟨hb, hname⟩
      obtain ⟨hb, hne⟩ := hkept.mp hb
      dsimp only at hname
      rw [Function.update_of_ne hne] at hname
      exact ⟨h.indexed.mpr ⟨hb, hname⟩, fun hboth => hne hboth.2⟩

variable [HashOrder StdString]

theorem indexedOwn_authorize (h : IndexedOwn server) (hregistered : Registered server)
    (htopic : server.isTopicMode = false) (hpending : server.tmpSessions.lookup uuid = some a)
    (hfree : server.sessions.lookup uuid = none) {principal : StdString} (via : Via)
    (hprincipal : principal ≠ []) :
    IndexedOwn ((server.accept uuid a principal via).activateSession a principal) := by
  have hnew : ¬ Active server a := by
    rintro ⟨u, hu⟩
    have hid : u = uuid := (hregistered.active hu).id.symm.trans (hregistered.pending hpending).id
    rw [hid, hfree] at hu
    cases hu
  obtain ⟨effects, framesOut, heq, -⟩ := accept_eq server uuid a principal via
  have hname : ((server.accept uuid a principal via).heap a).session.principal = principal := by
    simp [heq, Session.authorize]
  have henter : Active (server.accept uuid a principal via) a ∧
      IndexedBut a (server.accept uuid a principal via) := by
    refine indexedBut_enter h hnew hfree ?_ ?_ ?_ ?_ ?_
    · rw [heq]
    · rw [heq]
    · rw [heq]
    · intro b hb
      rw [heq]
      exact Function.update_of_ne hb _ _
    · rwa [hname]
  refine indexedOwn_activateSession henter.2 ?_ henter.1 hname
  rw [heq]
  exact htopic

theorem indexedOwn_attach (h : IndexedOwn server) (htopic : server.isTopicMode = false)
    (hauth : server.authEnabled = false) (ws : ConnId)
    (hactive : server.sessions.lookup uuid = some a) :
    IndexedOwn (server.attach uuid a ws) := by
  have hprincipal := h.named ⟨uuid, hactive⟩
  rw [Server.attach, if_neg (by simp [hauth])]
  dsimp only
  rw [if_neg hprincipal]
  have hkept : IndexedOwn
      (server.attachAuthorized uuid a ws (server.heap a).session.principal) := by
    refine h.of_eq rfl rfl rfl fun b _ => ?_
    rcases eq_or_ne b a with rfl | hne
    · simp [Server.attachAuthorized, Server.reattach, Server.record, Server.put,
        Session.authorize]
    · simp [Server.attachAuthorized, Server.reattach, Server.record, Server.put, hne]
  refine indexedOwn_activateSession (hkept.but a) htopic ⟨uuid, hactive⟩ ?_
  simp [Server.attachAuthorized, Server.reattach, Server.record, Server.put, Session.authorize]

theorem indexedOwn_create (h : IndexedOwn server) (hregistered : Registered server)
    (htopic : server.isTopicMode = false) (ws : ConnId) (now : Nat)
    (hnone : server.sessions.lookup uuid = none) :
    IndexedOwn (server.createSession uuid ws now) := by
  have hnew : ¬ Active server server.nextAddr := by
    rintro ⟨u, hu⟩
    exact lt_irrefl _ (hregistered.active hu).lt
  rw [Server.createSession]
  split
  · refine h.of_eq rfl rfl rfl fun b hb => ?_
    have hne : b ≠ server.nextAddr := by
      rintro rfl
      exact hnew hb
    simp [Server.createPending, Server.record, Server.put, hne]
  · have hname : ((server.createAuthorized uuid ws now server.defaultPrincipal).heap
        server.nextAddr).session.principal = server.defaultPrincipal := by
      simp [Server.createAuthorized, Server.record, Server.put, Session.authorize]
    have henter : Active (server.createAuthorized uuid ws now server.defaultPrincipal)
        server.nextAddr ∧ IndexedBut server.nextAddr
          (server.createAuthorized uuid ws now server.defaultPrincipal) := by
      refine indexedBut_enter h hnew hnone rfl rfl rfl (fun b hb => ?_) ?_
      · simp [Server.createAuthorized, Server.record, Server.put, hb]
      · rw [hname]
        exact defaultPrincipal_ne_nil server
    exact indexedOwn_activateSession henter.2 htopic henter.1 hname

/-- The invariant of the turns. -/
structure Kept (server : Server) : Prop where
  registered : Registered server
  topic : server.isTopicMode = false
  own : IndexedOwn server

theorem kept_turn (h : Kept server)
    (hturn : Turn authorizesAnew withoutAuthorization server next) : Kept next := by
  have htopic : next.isTopicMode = false := by
    rw [Server.isTopicMode, mode_turn hturn, ← Server.isTopicMode]
    exact h.topic
  refine ⟨registered_turn h.registered hturn, htopic, ?_⟩
  cases hturn with
  | calm hcalm =>
      refine h.own.of_eq hcalm.mode hcalm.sessions hcalm.principalIndex fun b _ => ?_
      exact congrArg (fun tie : Attachment => tie.identity.principal) (hcalm.attachment b)
  | answer hactive frame =>
      rename_i a
      obtain ⟨principals, effects, heq, -⟩ := runSession_eq server a
        fun session tx => session.handleFrame tx frame
      rw [heq]
      refine h.own.of_eq rfl rfl rfl fun b _ => ?_
      apply apply_update fun internal => internal.session.principal
      intro _
      exact congrArg Identity.principal (identity_handleFrame _ _ frame)
  | disconnect hpermitted =>
      rename_i uuid cause
      obtain heq | ⟨a, -, heq⟩ | ⟨a, hactive, heq⟩ :=
          handleSessionDisconnect_cases server uuid cause <;>
        rw [heq]
      · exact h.own
      · refine h.own.of_eq rfl rfl rfl fun b _ => ?_
        exact apply_update (fun internal => internal.session.principal) fun _ => rfl
      · exact indexedOwn_disconnect h.own h.registered h.topic hactive cause
  | authorize hpending hprincipal hpermitted =>
      rename_i uuid principal a via
      have hfree : server.sessions.lookup uuid = none := by
        simpa [authorizesAnew, hpending, hprincipal] using hpermitted
      exact indexedOwn_authorize h.own h.registered h.topic hpending hfree via hprincipal
  | attach ws hactive hauth => exact indexedOwn_attach h.own h.topic hauth ws hactive
  | create ws now hnone hroom =>
      exact indexedOwn_create h.own h.registered h.topic ws now hnone
  | close =>
      obtain ⟨heap, connections, history, heq⟩ := close_eq server
      rw [heq]
      refine ⟨?_, ?_⟩
      · rintro a ⟨uuid, huuid⟩
        simp at huuid
      · intro principal a
        constructor
        · rintro ⟨members, hmembers, -⟩
          simp at hmembers
        · rintro ⟨⟨uuid, huuid⟩, -⟩
          simp at huuid
  | connect | withdraw | enable | limit | listen | undefined =>
      exact h.own.of_eq rfl rfl rfl fun _ _ => rfl

end Turns

theorem kept_new {mode : ServerMode} (hmode : mode = .broadcast ∨ mode = .principal) :
    Kept (Server.new mode) := by
  refine ⟨registered_new mode, ?_, ?_, ?_⟩
  · rcases hmode with rfl | rfl <;> rfl
  · rintro a ⟨uuid, huuid⟩
    simp [Server.new] at huuid
  · intro principal a
    constructor
    · rintro ⟨members, hmembers, -⟩
      simp [Server.new] at hmembers
    · rintro ⟨⟨uuid, huuid⟩, -⟩
      simp [Server.new] at huuid

/-- Where no session is taken over while authorization is enabled, and `authorize`
never finds a pending uuid that has a session in `sessions_` as well, the index
holds exactly the sessions of `sessions_`. -/
theorem indexExact_run [HashOrder StdString] [HashOrder Addr] {mode : ServerMode}
    (hmode : mode = .broadcast ∨ mode = .principal) {events : List Event}
    (h : StepsMeet step (fun server event => keepsIndex server event) (Server.new mode) events) :
    IndexExact (run step (Server.new mode) events) := by
  have hmeet : StepsMeet step (fun server event => stepMeets authorizesAnew server event ∧
      withoutAuthorization.Meets server event) (Server.new mode) events := by
    refine stepsMeet_mono (fun server event hkeeps => ?_) h
    rw [keepsIndex, Bool.and_eq_true] at hkeeps
    refine ⟨hkeeps.1, fun htakesOver => ?_, fun _ _ => trivial, fun _ _ => trivial⟩
    have hauth : server.authEnabled = false := by simpa [htakesOver] using hkeeps.2
    exact hauth
  exact (turns_run (fun _ _ => kept_turn) (kept_new hmode) hmeet).own.exact

/-- An authorized client identifies itself on a second connection. -/
def comeback (meanwhile : List Event) : List Event :=
  let uuidBytes := List.replicate 16 (0 : UInt8)
  [.enableAuthorization true, .connect 1 false, .frame 1 (Server.identifyFrame uuidBytes) 0,
    .authorize (bytesToUuid uuidBytes) [] (str "alice")] ++ meanwhile ++
    [.connect 2 false, .frame 2 (Server.identifyFrame uuidBytes) 0]

theorem indexExact_run_comeback :
    let _ := HashOrder.ascending StdString
    let _ := HashOrder.ascending Addr
    IndexExact (run step (Server.new .principal) (comeback [.closed 1])) := by
  intro _ _
  exact indexExact_run (.inr rfl) (by decide +kernel)

theorem not_indexExact {server : Server} {principal : StdString} {a : Addr}
    (hindexed : server.principalIndex.lookup principal = some {a})
    (hempty : server.sessions.keys = ∅) : ¬ IndexExact server := by
  intro hexact
  obtain ⟨uuid, huuid⟩ := (hexact a).mp ⟨principal, {a}, hindexed, Finset.mem_singleton_self a⟩
  have hmem : uuid ∈ server.sessions.keys := mem_keys_iff_lookup.mpr ⟨a, huuid⟩
  rw [hempty] at hmem
  cases hmem

/-- A session that has been taken over and is pending again stays in the index. -/
theorem not_indexExact_run :
    ¬ ∀ (_ : HashOrder StdString) (_ : HashOrder Addr) (mode : ServerMode)
      (events : List Event), mode = .broadcast ∨ mode = .principal →
      (∀ event ∈ events, ClosesLater event) →
      IndexExact (run step (Server.new mode) events) := by
  intro h
  have hexact := h (HashOrder.ascending StdString) (HashOrder.ascending Addr) .principal
    (comeback []) (.inr rfl) (by simp [comeback, ClosesLater])
  have hindexed :
      let _ := HashOrder.ascending StdString
      let _ := HashOrder.ascending Addr
      (run step (Server.new .principal) (comeback [])).principalIndex.lookup (str "alice") =
        some {0} := by decide +kernel
  have hempty :
      let _ := HashOrder.ascending StdString
      let _ := HashOrder.ascending Addr
      (run step (Server.new .principal) (comeback [])).sessions.keys = ∅ := by decide +kernel
  exact not_indexExact hindexed hempty hexact

end DanWs.IndexMembership
