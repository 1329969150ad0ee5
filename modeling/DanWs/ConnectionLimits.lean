import DanWs.SeparateCloses

namespace DanWs.ConnectionLimits

open DanWs.FiniteMaps
open DanWs.PrincipalIsolation
open DanWs.SeparateCloses
open DanWs.ServerCalls
open DanWs.ServerConditions
open DanWs.ServerMoves
open DanWs.ServerTurns
open DanWs.Servers
open DanWs.StepRuns
open DanWs.WireTypes

def occupancy (server : Server) : Int :=
  (server.sessions.keys.card + server.tmpSessions.keys.card : Nat)

/-- With authorization disabled nothing is pending. -/
structure Limited (max : Int) (enabled : Bool) (server : Server) : Prop where
  maxConnections : server.maxConnections = max
  authEnabled : server.authEnabled = enabled
  pending : enabled = false → server.tmpSessions = ∅
  disjoint : ∀ {uuid a}, server.sessions.lookup uuid = some a →
    server.tmpSessions.lookup uuid = none
  bound : occupancy server ≤ max

def fixing (max : Int) : Terms where
  takeover _ := True
  limit := (· = max)
  synchronous := False

section Turns

variable {max : Int} {enabled : Bool} {server next : Server} {uuid : StdString} {a : Addr}

theorem Limited.shrink (h : Limited max enabled server)
    (hmax : next.maxConnections = server.maxConnections)
    (hauth : next.authEnabled = server.authEnabled)
    (hsessions : ∀ {uuid a}, next.sessions.lookup uuid = some a →
      server.sessions.lookup uuid = some a)
    (htmpSessions : ∀ {uuid a}, next.tmpSessions.lookup uuid = some a →
      server.tmpSessions.lookup uuid = some a) :
    Limited max enabled next := by
  have htmp_none : ∀ {uuid}, server.tmpSessions.lookup uuid = none →
      next.tmpSessions.lookup uuid = none := by
    intro uuid hnone
    cases hlookup : next.tmpSessions.lookup uuid with
    | none => rfl
    | some a => rw [htmpSessions hlookup] at hnone; cases hnone
  refine ⟨hmax.trans h.maxConnections, hauth.trans h.authEnabled, fun hdisabled => ?_,
    fun hactive => htmp_none (h.disjoint (hsessions hactive)), ?_⟩
  · apply Finmap.ext_lookup
    intro uuid
    rw [Finmap.lookup_empty, htmp_none (by rw [h.pending hdisabled, Finmap.lookup_empty])]
  · have hsessions := Finset.card_le_card (keys_subset @hsessions)
    have htmpSessions := Finset.card_le_card (keys_subset @htmpSessions)
    have hbound := h.bound
    rw [occupancy] at hbound ⊢
    omega

theorem Limited.of_eq (h : Limited max enabled server)
    (hmax : next.maxConnections = server.maxConnections)
    (hauth : next.authEnabled = server.authEnabled) (hsessions : next.sessions = server.sessions)
    (htmpSessions : next.tmpSessions = server.tmpSessions) : Limited max enabled next :=
  h.shrink hmax hauth (fun hlookup => hsessions ▸ hlookup)
    fun hlookup => htmpSessions ▸ hlookup

theorem limited_activateSession [HashOrder StdString] (h : Limited max enabled server)
    (principal : StdString) : Limited max enabled (server.activateSession a principal) := by
  obtain ⟨internal, principals, index, effects, heq, -⟩ := activateSession_eq server a principal
  rw [heq]
  exact h.of_eq rfl rfl rfl rfl

theorem limited_accept {principal : StdString} {via : Via} (h : Limited max enabled server)
    (hpending : server.tmpSessions.lookup uuid = some a) :
    Limited max enabled (server.accept uuid a principal via) := by
  have hinactive : server.sessions.lookup uuid = none := by
    cases hactive : server.sessions.lookup uuid with
    | none => rfl
    | some b =>
        rw [h.disjoint hactive] at hpending
        cases hpending
  have hmove := card_keys_move a hpending hinactive
  obtain ⟨effects, framesOut, heq, -⟩ := accept_eq server uuid a principal via
  rw [heq]
  refine ⟨h.maxConnections, h.authEnabled, fun hdisabled => ?_, fun {u b} hb => ?_, ?_⟩
  · rw [h.pending hdisabled, Finmap.lookup_empty] at hpending
    cases hpending
  · rw [lookup_erase_eq_ite]
    rw [lookup_insert_eq_ite] at hb
    split
    · rfl
    · next hu =>
        rw [if_neg hu] at hb
        exact h.disjoint hb
  · refine (le_of_eq ?_).trans h.bound
    exact congrArg Nat.cast ((Nat.add_comm _ _).trans (hmove.trans (Nat.add_comm _ _)))

theorem limited_attachPending {ws : ConnId} (h : Limited max enabled server)
    (hauth : server.authEnabled = true) (hactive : server.sessions.lookup uuid = some a) :
    Limited max enabled (server.attachPending uuid a ws) := by
  have hmove := card_keys_move a hactive (h.disjoint hactive)
  refine ⟨h.maxConnections, h.authEnabled, fun hdisabled => ?_, fun {u b} hb => ?_, ?_⟩
  · rw [← h.authEnabled, hauth] at hdisabled
    cases hdisabled
  · obtain ⟨hu, hb⟩ := lookup_of_lookup_erase hb
    exact (lookup_insert_eq_ite _ _ _ _).trans ((if_neg hu).trans (h.disjoint hb))
  · refine (le_of_eq ?_).trans h.bound
    exact congrArg Nat.cast hmove

/-- The check that only the creation of a session makes. -/
theorem occupancy_lt (h : Limited max enabled server) (hmax : 0 < max)
    (hnone : server.sessions.lookup uuid = none) (hroom : server.refuses uuid = false) :
    occupancy server < max := by
  rw [Server.refuses, h.maxConnections, hnone] at hroom
  rw [occupancy]
  simpa [hmax] using hroom

theorem limited_createPending (h : Limited max enabled server) (hauth : server.authEnabled = true)
    (ws : ConnId) (now : Nat) (hnone : server.sessions.lookup uuid = none)
    (hlt : occupancy server < max) :
    Limited max enabled (server.createPending uuid ws now) := by
  refine ⟨h.maxConnections, h.authEnabled, fun hdisabled => ?_, fun {u b} hb => ?_, ?_⟩
  · rw [← h.authEnabled, hauth] at hdisabled
    cases hdisabled
  · have hb : server.sessions.lookup u = some b := hb
    refine (lookup_insert_eq_ite _ _ _ _).trans ?_
    split
    · next hu =>
        rw [hu, hnone] at hb
        cases hb
    · exact h.disjoint hb
  · have hinsert := card_keys_insert_le server.tmpSessions uuid server.nextAddr
    have hoccupancy : occupancy (server.createPending uuid ws now) =
        (server.sessions.keys.card +
          (server.tmpSessions.insert uuid server.nextAddr).keys.card : Nat) := rfl
    rw [hoccupancy]
    rw [occupancy] at hlt
    omega

theorem limited_createAuthorized (h : Limited max enabled server)
    (hauth : server.authEnabled = false) (ws : ConnId) (now : Nat) (principal : StdString)
    (hlt : occupancy server < max) :
    Limited max enabled (server.createAuthorized uuid ws now principal) := by
  have hempty : server.tmpSessions = ∅ := h.pending (h.authEnabled.symm.trans hauth)
  refine ⟨h.maxConnections, h.authEnabled, fun _ => hempty, fun {u b} hb => ?_, ?_⟩
  · have hlookup : server.tmpSessions.lookup u = none := by rw [hempty, Finmap.lookup_empty]
    exact hlookup
  · have hinsert := card_keys_insert_le server.sessions uuid server.nextAddr
    have hoccupancy : occupancy (server.createAuthorized uuid ws now principal) =
        ((server.sessions.insert uuid server.nextAddr).keys.card +
          server.tmpSessions.keys.card : Nat) := rfl
    rw [hoccupancy]
    rw [occupancy] at hlt
    omega

variable [HashOrder StdString]

theorem limited_turn (hmax : 0 < max) (h : Limited max enabled server)
    (hturn : Turn (defined fun value => value == enabled) (fixing max) server next) :
    Limited max enabled next := by
  cases hturn with
  | calm hcalm =>
      exact h.of_eq hcalm.maxConnections hcalm.authEnabled hcalm.sessions hcalm.tmpSessions
  | answer hactive frame =>
      obtain ⟨principals, effects, heq, -⟩ := runSession_eq server _
        fun session tx => session.handleFrame tx frame
      rw [heq]
      exact h.of_eq rfl rfl rfl rfl
  | disconnect hpermitted =>
      rename_i uuid cause
      obtain heq | ⟨a, -, heq⟩ | ⟨a, -, heq⟩ := handleSessionDisconnect_cases server uuid cause <;>
        rw [heq]
      · exact h
      · exact h.shrink rfl rfl id fun hb => (lookup_of_lookup_erase hb).2
      · obtain ⟨index, principals, heq, -⟩ := tearDownActive_eq server uuid cause a
        rw [heq]
        exact h.shrink rfl rfl (fun hb => (lookup_of_lookup_erase hb).2) id
  | authorize hpending hprincipal hpermitted =>
      exact limited_activateSession (limited_accept h hpending) _
  | withdraw uuid => exact h.shrink rfl rfl id fun hb => (lookup_of_lookup_erase hb).2
  | attach ws hactive htakeover =>
      rw [Server.attach]
      split
      · next hauth => exact limited_attachPending h hauth hactive
      · apply limited_activateSession
        exact h.of_eq rfl rfl rfl rfl
  | create ws now hnone hroom =>
      have hlt := occupancy_lt h hmax hnone hroom
      rw [Server.createSession]
      split
      · next hauth => exact limited_createPending h hauth ws now hnone hlt
      · next hauth =>
          apply limited_activateSession
          exact limited_createAuthorized h (by simpa using hauth) ws now _ hlt
  | close =>
      obtain ⟨heap, connections, history, heq⟩ := close_eq server
      rw [heq]
      exact h.shrink rfl rfl (by simp) (by simp)
  | enable hpermitted =>
      have hauth := (beq_iff_eq.mp hpermitted).trans h.authEnabled.symm
      exact h.of_eq rfl hauth rfl rfl
  | limit hlimit => exact h.of_eq (Eq.trans hlimit h.maxConnections.symm) rfl rfl rfl
  | connect | listen | undefined => exact h.of_eq rfl rfl rfl rfl

end Turns

def keepsSettings (max : Int) (enabled : Bool) : Event → Bool
  | .setMaxConnections value => value = max
  | .enableAuthorization value => value = enabled
  | _ => true

def Within (max : Int) (enabled : Bool) (server : Server) : Prop :=
  ClosesSeparately server ∧ Limited max enabled server

section Runs

variable [HashOrder StdString] [HashOrder Addr] {max : Int} {enabled : Bool}

theorem within_step (hmax : 0 < max) (server : Server) (event : Event)
    (h : Within max enabled server)
    (hevent : ClosesLater event ∧ keepsSettings max enabled event) :
    Within max enabled (step server event) := by
  obtain ⟨hlater, hkeeps⟩ := hevent
  have hmeets : stepMeets (defined fun value => value == enabled) server event :=
    stepMeets_defined h.1 event fun value heq => by
      subst heq
      exact beq_iff_eq.mpr (of_decide_eq_true hkeeps)
  have hterms : (fixing max).Meets server event := by
    refine ⟨fun _ => trivial, fun value heq => ?_, fun ws heq => ?_⟩
    · subst heq
      have hvalue : value = max := of_decide_eq_true hkeeps
      exact hvalue
    · subst heq
      cases hlater
  have hturn : ∀ server next, Within max enabled server →
      Turn (defined fun value => value == enabled) (fixing max) server next →
      Within max enabled next := fun _ _ hserver hturn =>
    ⟨closesSeparately_turn rfl id hserver.1 hturn, limited_turn hmax hserver.2 hturn⟩
  exact turns_keep hturn h (turns_step server hmeets hterms)

end Runs

def limited (mode : ServerMode) (max : Int) (enabled : Bool) : Server :=
  { Server.new mode with maxConnections := max, authEnabled := enabled }

/-- With a fixed limit and a fixed `authEnabled_`, the two maps of sessions never
hold more entries than the limit, and no uuid is a key of both. -/
theorem limited_run [HashOrder StdString] [HashOrder Addr] (mode : ServerMode) {max : Int}
    (hmax : 0 < max) (enabled : Bool) {events : List Event}
    (hlater : ∀ event ∈ events, ClosesLater event)
    (hkeeps : ∀ event ∈ events, keepsSettings max enabled event) :
    let server := run step (limited mode max enabled) events
    server.undefinedBehaviour = false ∧ occupancy server ≤ max ∧
      ∀ uuid, uuid ∈ server.sessions → uuid ∉ server.tmpSessions := by
  have hnew : Within max enabled (limited mode max enabled) :=
    ⟨⟨fun _ => rfl, rfl⟩, rfl, rfl, fun _ => rfl, fun _ => Finmap.lookup_empty _, hmax.le⟩
  have hsteps : StepsMeet step
      (fun _ event => ClosesLater event ∧ keepsSettings max enabled event)
      (limited mode max enabled) events :=
    stepsMeet_of_forall fun event hevent => ⟨hlater event hevent, hkeeps event hevent⟩
  have hrun := invariant_run (within_step hmax) hnew hsteps
  refine ⟨hrun.1.defined, hrun.2.bound, fun uuid hactive hpending => ?_⟩
  obtain ⟨a, ha⟩ := Finmap.mem_iff.mp hactive
  obtain ⟨b, hb⟩ := Finmap.mem_iff.mp hpending
  rw [hrun.2.disjoint ha] at hb
  cases hb

def crowd : List Event :=
  let first := List.replicate 16 (0 : UInt8)
  let second := List.replicate 16 (1 : UInt8)
  [.connect 1 false, .frame 1 (Server.identifyFrame first) 0,
    .authorize (bytesToUuid first) [] (str "alice"), .connect 2 false,
    .frame 2 (Server.identifyFrame second) 0, .connect 3 false,
    .frame 3 (Server.identifyFrame first) 0]

theorem limited_run_crowd :
    let _ := HashOrder.ascending StdString
    let _ := HashOrder.ascending Addr
    let server := run step (limited .principal 1 true) crowd
    server.undefinedBehaviour = false ∧ occupancy server ≤ 1 ∧
      ∀ uuid, uuid ∈ server.sessions → uuid ∉ server.tmpSessions := by
  intro _ _
  exact limited_run .principal (by decide) true (by simp [crowd, ClosesLater])
    (by simp [crowd, keepsSettings])

end DanWs.ConnectionLimits
