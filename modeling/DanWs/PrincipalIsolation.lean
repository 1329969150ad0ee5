import DanWs.Registration

namespace DanWs.PrincipalIsolation

open DanWs.FiniteMaps
open DanWs.Registration
open DanWs.ServerConditions
open DanWs.ServerMoves
open DanWs.ServerSteps
open DanWs.Servers
open DanWs.StepRuns
open DanWs.WireTypes

def ownPrincipal : Effect → Bool
  | .enqueued tx _ principal _ => principal = tx
  | _ => true

def Isolated (history : List Effect) : Prop := ∀ effect ∈ history, ownPrincipal effect

instance (history : List Effect) : Decidable (Isolated history) :=
  inferInstanceAs (Decidable (∀ effect ∈ history, ownPrincipal effect))

/-- `authorize` finds a pending session that had no principal or this one. -/
def keepsPrincipal : Permits where
  __ := Permits.any
  authorize server clientUuid principal _ :=
    match server.tmpSessions.lookup clientUuid with
    | none => true
    | some a =>
        let old := (server.heap a).session.principal
        decide (principal = [] ∨ old = [] ∨ old = principal)

/-- The entries of the index name the principals of their sessions. -/
structure IndexSound (server : Server) : Prop where
  registered : Registered server
  mode : server.mode = .principal
  indexed : ∀ {principal a}, Indexed server principal a →
    a < server.nextAddr ∧ principal ≠ [] ∧ (server.heap a).session.principal = principal

section Moves

variable {server next : Server}

theorem IndexSound.shrink (h : IndexSound server) (hregistered : Registered next)
    (hmode : next.mode = server.mode) (hnext : server.nextAddr ≤ next.nextAddr)
    (hindexed : ∀ {principal a}, Indexed next principal a → Indexed server principal a)
    (hprincipal : ∀ {principal a}, Indexed server principal a →
      (next.heap a).session.principal = (server.heap a).session.principal) : IndexSound next := by
  refine ⟨hregistered, hmode.trans h.mode, fun {principal a} ha => ?_⟩
  obtain ⟨hlt, hne, heq⟩ := h.indexed (hindexed ha)
  exact ⟨hlt.trans_le hnext, hne, (hprincipal (hindexed ha)).trans heq⟩

theorem indexSound_attaches (h : IndexSound server) (hregistered : Registered next)
    {uuid : StdString} {a : Addr} {ws : ConnId}
    (hattaches : Attaches server next uuid a ws) : IndexSound next := by
  obtain ⟨-, -, hnext, -⟩ := attaches_exclusive h.registered hattaches
  refine h.shrink hregistered hattaches.mode hnext ?_ ?_
  · intro principal b hindexed
    rwa [Indexed, hattaches.principalIndex] at hindexed
  · intro principal b hindexed
    obtain ⟨hlt, hne, heq⟩ := h.indexed hindexed
    rcases eq_or_ne b a with rfl | hb
    · obtain ⟨-, -, -, hsame | hempty⟩ | ⟨-, ha, -⟩ := hattaches.origin
      · exact hsame
      · exact absurd (heq.symm.trans hempty) hne
      · exact absurd ha hlt.ne
    · rw [hattaches.others b hb]

theorem indexSound_accept {uuid principal : StdString} {a : Addr} {via : Via}
    (h : IndexSound server) (hpending : server.tmpSessions.lookup uuid = some a)
    (hprincipal : principal ≠ [])
    (hpermitted : keepsPrincipal.authorize server uuid principal via)
    (hregistered : Registered (server.accept uuid a principal via)) :
    IndexSound (server.accept uuid a principal via) := by
  obtain ⟨effects, framesOut, heq, -⟩ := accept_eq server uuid a principal via
  have hold : (server.heap a).session.principal = [] ∨
      (server.heap a).session.principal = principal := by
    simpa [keepsPrincipal, hpending, hprincipal] using hpermitted
  rw [heq] at hregistered ⊢
  refine h.shrink hregistered rfl le_rfl id fun {name b} hindexed => ?_
  apply apply_update fun internal => internal.session.principal
  rintro rfl
  obtain ⟨-, hne, hname⟩ := h.indexed hindexed
  rcases hold with hempty | hsame
  · exact absurd (hname.symm.trans hempty) hne
  · exact hsame.symm

theorem indexSound_move (h : IndexSound server) (hmove : Move keepsPrincipal server next) :
    IndexSound next := by
  have hregistered := registered_move h.registered hmove
  cases hmove with
  | quiet hquiet =>
      refine h.shrink hregistered hquiet.mode hquiet.nextAddr.ge ?_ fun {_ a} _ => ?_
      · intro principal a hindexed
        rwa [Indexed, hquiet.principalIndex] at hindexed
      · exact congrArg (fun tie : Attachment => tie.identity.principal) (hquiet.attachment a)
  | tearDownActive hactive hpermitted =>
      rename_i uuid cause a
      obtain ⟨index, principals, heq, hsubset⟩ := tearDownActive_eq server uuid cause a
      rw [heq] at hregistered ⊢
      refine h.shrink hregistered rfl le_rfl (hsubset _ _) fun _ => ?_
      exact apply_update (fun internal => internal.session.principal) fun _ => rfl
  | accept hpending hprincipal hpermitted =>
      exact indexSound_accept h hpending hprincipal hpermitted hregistered
  | index hactive hprincipal =>
      rename_i a
      refine ⟨hregistered, h.mode, fun {name b} hindexed => ?_⟩
      rcases indexed_indexAddSession server hindexed with hindexed | ⟨hname, rfl⟩
      · exact h.indexed hindexed
      · obtain ⟨uuid, huuid⟩ := hactive
        have heffective : name = (server.heap b).session.principal := by
          simp [hname, Server.effectivePrincipal, h.mode]
        exact ⟨(h.registered.active huuid).lt, heffective ▸ hprincipal, heffective.symm⟩
  | pend hattaches => exact indexSound_attaches h hregistered hattaches
  | activate hauth hattaches => exact indexSound_attaches h hregistered hattaches
  | empty =>
      refine ⟨hregistered, h.mode, ?_⟩
      rintro name b ⟨members, hmembers, -⟩
      simp at hmembers
  | retire hactive hpending =>
      rename_i a
      obtain ⟨connections, heq⟩ := closeSession_eq server a
      rw [heq] at hregistered ⊢
      refine h.shrink hregistered rfl le_rfl id fun _ => ?_
      exact apply_update (fun internal => internal.session.principal) fun _ => rfl
  | tearDownPending | withdraw | enable | listen | undefined =>
      exact h.shrink hregistered rfl le_rfl id fun _ => rfl

theorem indexSound_new : IndexSound (Server.new .principal) := by
  refine ⟨registered_new .principal, rfl, ?_⟩
  rintro principal a ⟨members, hmembers, -⟩
  simp [Server.new] at hmembers

theorem ownPrincipal_of_recorded (h : IndexSound server) {effect : Effect}
    (heffect : Recorded keepsPrincipal server effect) : ownPrincipal effect := by
  cases effect with
  | enqueued tx a principal frame =>
      obtain ⟨hindexed, hprincipal⟩ := heffect
      exact decide_eq_true (hprincipal.trans (h.indexed hindexed).2.2)
  | _ => rfl

end Moves

/-- Where no call of `authorize` changes the principal of a session, every frame
of a principal goes to sessions of this principal. -/
theorem isolated_run [HashOrder StdString] [HashOrder Addr] {events : List Event}
    (h : StepsMeet step (fun server event => stepMeets keepsPrincipal server event)
      (Server.new .principal) events) :
    Isolated (run step (Server.new .principal) events).history :=
  effects_run (fun _ _ => indexSound_move)
    (fun _ _ hsound heffect => ownPrincipal_of_recorded hsound heffect) indexSound_new rfl h

/-- A connection authorizes for `alice`, and a newer one with the same uuid for
`principal`. -/
def takeover (principal : StdString) : List Event :=
  let uuidBytes := List.replicate 16 (0 : UInt8)
  let clientUuid := bytesToUuid uuidBytes
  [.enableAuthorization true, .connect 1 false, .frame 1 (Server.identifyFrame uuidBytes) 0,
    .authorize clientUuid [] (str "alice"), .connect 2 false,
    .frame 2 (Server.identifyFrame uuidBytes) 0, .authorize clientUuid [] principal,
    .frame 2 (signalFrame .clientReady) 0,
    .principalSet (str "alice") (str "key") (.string (str "value"))]

theorem isolated_run_takeover :
    let _ := HashOrder.ascending StdString
    let _ := HashOrder.ascending Addr
    Isolated (run step (Server.new .principal) (takeover (str "alice"))).history := by
  intro _ _
  exact isolated_run (by decide +kernel)

/-- Close callbacks come as events of their own. -/
def ClosesLater : Event → Prop
  | .connect _ closesSynchronously => closesSynchronously = false
  | _ => True

/-- A session that has been authorized for another principal still gets the
frames of the first one. -/
theorem not_isolated_run :
    ¬ ∀ (_ : HashOrder StdString) (_ : HashOrder Addr) (events : List Event),
      (∀ event ∈ events, ClosesLater event) →
      Isolated (run step (Server.new .principal) events).history := by
  intro h
  refine absurd (h (HashOrder.ascending StdString) (HashOrder.ascending Addr)
    (takeover (str "bob")) ?_) (by decide +kernel)
  simp [takeover, ClosesLater]

end DanWs.PrincipalIsolation
