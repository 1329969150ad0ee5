import DanWs.Registration

/-!
The authorization gate: with authorization enabled, a connection gets nothing but
an `AuthFail` frame and heartbeats until a session with this connection is
authorized. A takeover points the queue of a session at the newer connection
before that one is authorized; where the application does not write to a session
in between, the gate holds.
-/

namespace DanWs.AuthorizationGate

open DanWs.FiniteMaps
open DanWs.Registration
open DanWs.ServerConditions
open DanWs.ServerMoves
open DanWs.ServerSteps
open DanWs.Servers
open DanWs.Sessions
open DanWs.StepRuns
open DanWs.WireTypes

/-- `authorize` has succeeded for a session with the connection `ws`. -/
def granted (history : List Effect) (ws : ConnId) : Bool :=
  history.any fun
    | .authorized _ attached _ => attached = some ws
    | _ => false

/-- Every frame on a connection that had not been granted before is `AuthFail`. -/
def Gated (history : List Effect) : Prop :=
  ∀ newer ws frame older, history = newer ++ .sent ws frame :: older →
    frame.frameType = .authFail ∨ granted older ws

def admissible (older : List Effect) : Effect → Bool
  | .sent ws frame => frame.frameType = .authFail || granted older ws
  | _ => true

theorem gated_nil : Gated [] := by
  intro newer ws frame older h
  simp at h

theorem gated_cons_iff {effect : Effect} {older : List Effect} :
    Gated (effect :: older) ↔ admissible older effect ∧ Gated older := by
  constructor
  · intro h
    constructor
    · cases effect with
      | sent ws frame => simpa [admissible] using h [] ws frame older rfl
      | _ => rfl
    · intro newer ws frame oldest heq
      exact h (effect :: newer) ws frame oldest (by rw [heq, List.cons_append])
  · rintro ⟨heffect, hgated⟩ newer ws frame oldest heq
    cases newer with
    | nil =>
        cases heq
        simpa [admissible] using heffect
    | cons newest newer =>
        cases heq
        exact hgated newer ws frame oldest rfl

instance Gated.decidable : (history : List Effect) → Decidable (Gated history)
  | [] => isTrue gated_nil
  | effect :: older =>
      have := Gated.decidable older
      decidable_of_iff (admissible older effect ∧ Gated older) gated_cons_iff.symm

/-- The application writes only to sessions behind granted connections, and
authorization stays enabled. -/
def gatesWrites : Permits where
  __ := Permits.any
  write server a := granted server.history (server.heap a).flushTarget
  enable enabled := enabled

/-- Sessions in `sessions_` and ready sessions are behind granted connections. -/
structure GateSound (server : Server) : Prop where
  registered : Registered server
  authEnabled : server.authEnabled = true
  active : ∀ {a}, Active server a → granted server.history (server.heap a).flushTarget
  ready : ∀ {a}, (server.heap a).session.state = .ready →
    granted server.history (server.heap a).flushTarget
  gated : Gated server.history

section Moves

variable {server next : Server}

theorem granted_append {history : List Effect} {ws : ConnId} (h : granted history ws)
    (effects : List Effect) : granted (effects ++ history) ws := by
  rw [granted, List.any_append, Bool.or_eq_true]
  exact .inr h

theorem gated_append {effects history : List Effect} (h : Gated history)
    (heffects : ∀ ws frame, .sent ws frame ∈ effects →
      frame.frameType = .authFail ∨ granted history ws) : Gated (effects ++ history) := by
  induction effects with
  | nil => exact h
  | cons effect effects ih =>
      have ih := ih fun ws frame hmem => heffects ws frame (List.mem_cons_of_mem _ hmem)
      refine gated_cons_iff.mpr ⟨?_, ih⟩
      cases effect with
      | sent ws frame =>
          have hsent := (heffects ws frame (by simp)).imp id fun h => granted_append h effects
          simpa [admissible] using hsent
      | _ => rfl

/-- No session enters `sessions_` or becomes ready, and no queue is pointed at
another connection. -/
theorem GateSound.keep (h : GateSound server) (hregistered : Registered next)
    (hauth : next.authEnabled = server.authEnabled)
    (hactive : ∀ {a}, Active next a →
      Active server a ∧ (next.heap a).flushTarget = (server.heap a).flushTarget)
    (hready : ∀ {a}, (next.heap a).session.state = .ready →
      ((server.heap a).session.state = .ready ∨ Active server a) ∧
        (next.heap a).flushTarget = (server.heap a).flushTarget)
    (hhistory : ∃ effects, next.history = effects ++ server.history ∧
      ∀ ws frame, .sent ws frame ∈ effects →
        frame.frameType = .authFail ∨ granted server.history ws) : GateSound next := by
  obtain ⟨effects, heq, hsent⟩ := hhistory
  refine ⟨hregistered, hauth.trans h.authEnabled, fun {a} ha => ?_, fun {a} ha => ?_, ?_⟩
  · obtain ⟨hold, htarget⟩ := hactive ha
    rw [heq, htarget]
    exact granted_append (h.active hold) effects
  · obtain ⟨hold, htarget⟩ := hready ha
    rw [heq, htarget]
    exact granted_append (hold.elim h.ready h.active) effects
  · rw [heq]
    exact gated_append h.gated hsent

theorem gateSound_quiet (h : GateSound server) (hregistered : Registered next)
    (hquiet : Quiet gatesWrites server next) : GateSound next := by
  have htarget : ∀ a, (next.heap a).flushTarget = (server.heap a).flushTarget :=
    fun a => congrArg Attachment.flushTarget (hquiet.attachment a)
  obtain ⟨effects, heq, hallowed⟩ := hquiet.history
  refine h.keep hregistered hquiet.authEnabled (fun {a} ha => ⟨(hquiet.active a).mp ha, htarget a⟩)
    (fun {a} ha => ⟨hquiet.ready a ha, htarget a⟩) ⟨effects, heq, fun ws frame hmem => ?_⟩
  rcases hallowed _ hmem with hfail | ⟨a, rfl, hactive | hready | hwrite⟩
  · exact .inl hfail
  · exact .inr (h.active hactive)
  · exact .inr (h.ready hready)
  · exact .inr hwrite

theorem ready_update {heap : Addr → InternalSession} {a b : Addr} {internal : InternalSession}
    (hstate : internal.session.state ≠ .ready)
    (h : (Function.update heap a internal b).session.state = .ready) :
    b ≠ a ∧ (heap b).session.state = .ready := by
  rcases eq_or_ne b a with rfl | hb
  · exact absurd (by simpa using h) hstate
  · rw [Function.update_of_ne hb] at h
    exact ⟨hb, h⟩

theorem gateSound_accept {uuid principal : StdString} {a : Addr} {via : Via} (h : GateSound server)
    (hpending : server.tmpSessions.lookup uuid = some a)
    (hregistered : Registered (server.accept uuid a principal via)) :
    GateSound (server.accept uuid a principal via) := by
  obtain ⟨effects, framesOut, heq, hsent⟩ := accept_eq server uuid a principal via
  rw [heq] at hregistered ⊢
  have hholds := h.registered.pending hpending
  have htarget : ∀ b, (Function.update server.heap a
      { server.heap a with session := (server.heap a).session.authorize principal }
        b).flushTarget = (server.heap b).flushTarget :=
    fun b => apply_update InternalSession.flushTarget fun _ => rfl
  have hgranted : ∀ ws, (server.heap a).ws = some ws →
      granted (.authorized a (server.heap a).ws via :: server.history) ws := by
    intro ws hws
    simp [granted, hws]
  have hhistory : (.activated uuid a (server.heap a).ws ::
      (effects ++ [.authorized a (server.heap a).ws via])) ++ server.history =
      (.activated uuid a (server.heap a).ws :: effects) ++
        (.authorized a (server.heap a).ws via :: server.history) := by simp
  rw [hhistory] at hregistered ⊢
  refine ⟨hregistered, h.authEnabled, ?_, ?_, ?_⟩
  · rintro b ⟨u, hu⟩
    dsimp only at hu ⊢
    rw [htarget b]
    refine granted_append ?_ _
    rw [lookup_insert_eq_ite] at hu
    split at hu
    · cases hu
      exact hgranted _ hholds.target
    · exact granted_append (h.active ⟨u, hu⟩) [_]
  · intro b hb
    dsimp only at hb ⊢
    rw [htarget b]
    obtain ⟨-, hb⟩ := ready_update (by simp [Session.authorize]) hb
    exact granted_append (granted_append (h.ready hb) [_]) _
  · have hgated : Gated (.authorized a (server.heap a).ws via :: server.history) :=
      gated_cons_iff.mpr ⟨rfl, h.gated⟩
    refine gated_append hgated fun ws frame hmem => .inr ?_
    rcases List.mem_cons.mp hmem with hactivated | hmem
    · cases hactivated
    · obtain ⟨ws', hws, heffect⟩ := hsent _ hmem
      cases heffect
      exact hgranted _ hws

theorem gateSound_move (h : GateSound server) (hmove : Move gatesWrites server next) :
    GateSound next := by
  have hregistered := registered_move h.registered hmove
  cases hmove with
  | quiet hquiet => exact gateSound_quiet h hregistered hquiet
  | tearDownPending hinactive hpending hpermitted =>
      exact h.keep hregistered rfl (fun ha => ⟨ha, rfl⟩) (fun ha => ⟨.inl ha, rfl⟩)
        ⟨[.tornDown _ _ _], rfl, by simp⟩
  | tearDownActive hactive hpermitted =>
      rename_i uuid cause a
      obtain ⟨index, principals, heq, -⟩ := tearDownActive_eq server uuid cause a
      rw [heq] at hregistered ⊢
      refine h.keep hregistered rfl ?_ ?_
        ⟨[.onDisconnect a, .tornDown cause a (server.heap a).ws], rfl, by simp⟩
      · rintro b ⟨u, hu⟩
        exact ⟨⟨u, (lookup_of_lookup_erase hu).2⟩,
          apply_update InternalSession.flushTarget fun _ => rfl⟩
      · intro b hb
        exact ⟨.inl (ready_update (by simp [Session.handleDisconnect]) hb).2,
          apply_update InternalSession.flushTarget fun _ => rfl⟩
  | accept hpending hprincipal hpermitted => exact gateSound_accept h hpending hregistered
  | pend hattaches hsessions htmpSessions hhistory =>
      rename_i uuid a ws
      obtain ⟨hexclusive, -⟩ := attaches_exclusive h.registered hattaches
      refine h.keep hregistered hattaches.authEnabled ?_ ?_
        ⟨[.pended uuid a (some ws)], hhistory, by simp⟩
      · rintro b ⟨u, hu⟩
        rw [hsessions] at hu
        split at hu
        · cases hu
        · next hne =>
            exact ⟨⟨u, hu⟩, by rw [hattaches.others b (hexclusive (.inl hu) hne)]⟩
      · intro b hb
        have hne : b ≠ a := by
          rintro rfl
          exact hattaches.state hb
        rw [hattaches.others b hne] at hb ⊢
        exact ⟨.inl hb, rfl⟩
  | activate hauth =>
      rw [h.authEnabled] at hauth
      cases hauth
  | empty =>
      refine h.keep hregistered rfl ?_ (fun ha => ⟨.inl ha, rfl⟩) ⟨[], rfl, by simp⟩
      rintro b ⟨u, hu⟩
      simp at hu
  | retire hactive hpending =>
      rename_i a
      obtain ⟨connections, heq⟩ := closeSession_eq server a
      rw [heq] at hregistered ⊢
      refine h.keep hregistered rfl (fun hb => ⟨hb, ?_⟩) (fun hb => ⟨?_, ?_⟩)
        ⟨[.onDisconnect a], rfl, by simp⟩
      · exact apply_update InternalSession.flushTarget fun _ => rfl
      · exact .inl (ready_update (by simp [Session.handleDisconnect]) hb).2
      · exact apply_update InternalSession.flushTarget fun _ => rfl
  | enable hpermitted =>
      exact h.keep hregistered (hpermitted.trans h.authEnabled.symm) (fun ha => ⟨ha, rfl⟩)
        (fun ha => ⟨.inl ha, rfl⟩) ⟨[], rfl, by simp⟩
  | index | withdraw | listen | undefined =>
      exact h.keep hregistered rfl (fun ha => ⟨ha, rfl⟩) (fun ha => ⟨.inl ha, rfl⟩)
        ⟨[], rfl, by simp⟩

end Moves

def authorizing (mode : ServerMode) : Server := { Server.new mode with authEnabled := true }

theorem gateSound_authorizing (mode : ServerMode) : GateSound (authorizing mode) := by
  refine ⟨registered_of_empty rfl rfl, rfl, ?_, ?_, gated_nil⟩
  · rintro a ⟨u, hu⟩
    simp [authorizing, Server.new] at hu
  · intro a ha
    simp [authorizing, Server.new, InternalSession.new, Session.new] at ha

/-- Where the application writes only to sessions behind granted connections,
the gate holds in every mode. -/
theorem gated_run [HashOrder StdString] [HashOrder Addr] (mode : ServerMode) {events : List Event}
    (h : StepsMeet step (fun server event => stepMeets gatesWrites server event)
      (authorizing mode) events) :
    Gated (run step (authorizing mode) events).history :=
  (moves_run (fun _ _ => gateSound_move) (gateSound_authorizing mode) h).gated

/-- A session is authorized and taken over, and its principal is cleared behind
`between`. -/
def resync (between : List Event) : List Event :=
  let uuidBytes := List.replicate 16 (0 : UInt8)
  [.connect 1 false, .frame 1 (Server.identifyFrame uuidBytes) 0,
    .authorize (bytesToUuid uuidBytes) [] (str "alice"),
    .principalSet (str "alice") (str "key") (.string (str "value")), .connect 2 false,
    .frame 2 (Server.identifyFrame uuidBytes) 0] ++ between ++ [.principalClear (str "alice")]

theorem gated_run_resync :
    let _ := HashOrder.ascending StdString
    let _ := HashOrder.ascending Addr
    Gated (run step (authorizing .principal) (resync
      [.authorize (bytesToUuid (List.replicate 16 0)) [] (str "alice")])).history := by
  intro _ _
  exact gated_run .principal (by decide +kernel)

def KeepsAuthorization : Event → Prop
  | .enableAuthorization enabled => enabled = true
  | _ => True

/-- The frames of a resync reach the connection of a takeover that has only
identified itself. -/
theorem not_gated_run :
    ¬ ∀ (_ : HashOrder StdString) (_ : HashOrder Addr) (mode : ServerMode) (events : List Event),
      (∀ event ∈ events, KeepsAuthorization event) →
      Gated (run step (authorizing mode) events).history := by
  intro h
  refine absurd (h (HashOrder.ascending StdString) (HashOrder.ascending Addr) .principal (resync [])
    ?_) (by decide +kernel)
  simp [resync, KeepsAuthorization]

end DanWs.AuthorizationGate
