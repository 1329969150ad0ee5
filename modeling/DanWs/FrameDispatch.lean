import DanWs.Registration

namespace DanWs.FrameDispatch

open DanWs.FiniteMaps
open DanWs.Registration
open DanWs.ServerConditions
open DanWs.ServerMoves
open DanWs.ServerSteps
open DanWs.Servers
open DanWs.StepRuns
open DanWs.WireTypes

def ownFrame : Effect → Bool
  | .dispatched from_ _ ws => ws = some from_
  | _ => true

def DispatchesOwn (history : List Effect) : Prop := ∀ effect ∈ history, ownFrame effect

instance (history : List Effect) : Decidable (DispatchesOwn history) :=
  inferInstanceAs (Decidable (∀ effect ∈ history, ownFrame effect))

/-- The sessions in `sessions_` were authorized by valid tokens that arrived on
the connections that they have. -/
def Vouched (valid : StdString → StdString → Bool) (server : Server) : Prop :=
  ∀ uuid a ws, server.sessions.lookup uuid = some a → (server.heap a).ws = some ws →
    ∃ token, valid uuid token ∧ .authorized a (some ws) (some (ws, token)) ∈ server.history

/-- An `onAuthorize` callback that authorizes exactly the valid tokens. -/
def checking (valid : StdString → StdString → Bool) (principal : StdString → StdString → StdString)
    (reasons : StdString → StdString → List StdString) :
    StdString → StdString → List AuthCall :=
  fun uuid token =>
    if valid uuid token then [.authorize uuid token (principal uuid token)]
    else (reasons uuid token).map (.reject uuid)

/-- Frames arrive on the connection with which their uuid was last registered. -/
def ownFrames : Permits where
  __ := Permits.any
  dispatchPending server ws uuid := lastPending server.history uuid = some ws
  dispatchActive server ws uuid := lastActive server.history uuid = some ws

/-- Moreover, valid tokens authorize, and nothing else does. -/
def vouching (valid : StdString → StdString → Bool) : Permits where
  __ := ownFrames
  authorize server uuid _ via :=
    match via with
    | none => false
    | some (ws, token) => valid uuid token && lastPending server.history uuid = some ws
  enable enabled := enabled
  listen := false

theorem ownFrame_of_recorded {server : Server} (h : Registered server) {effect : Effect}
    (heffect : Recorded ownFrames server effect) : ownFrame effect := by
  cases effect with
  | dispatched from_ a ws =>
      obtain ⟨rfl, uuid, ⟨hpending, hlast⟩ | ⟨hactive, hlast⟩⟩ := heffect
      · have hlast : lastPending server.history uuid = some from_ := by
          simpa [ownFrames] using hlast
        exact decide_eq_true ((h.pending hpending).last.symm.trans hlast)
      · have hlast : lastActive server.history uuid = some from_ := by
          simpa [ownFrames] using hlast
        exact decide_eq_true ((h.active hactive).last.symm.trans hlast)
  | _ => rfl

section Vouching

variable {valid : StdString → StdString → Bool} {principal : StdString → StdString → StdString}
  {reasons : StdString → StdString → List StdString} {server next : Server}

/-- The server with authorization enabled and one checking callback. -/
structure Vouches (valid : StdString → StdString → Bool)
    (callback : StdString → StdString → List AuthCall) (server : Server) : Prop where
  registered : Registered server
  authEnabled : server.authEnabled = true
  onAuthorize : server.onAuthorize = [callback]
  vouched : Vouched valid server

variable {callback : StdString → StdString → List AuthCall}

/-- No session enters `sessions_`, and those in it keep their connections. -/
theorem Vouches.keep (h : Vouches valid callback server) (hmove : Move (vouching valid) server next)
    (hauth : next.authEnabled = server.authEnabled)
    (hcallback : next.onAuthorize = server.onAuthorize)
    (hsessions : ∀ {uuid a}, next.sessions.lookup uuid = some a →
      server.sessions.lookup uuid = some a ∧ (next.heap a).ws = (server.heap a).ws) :
    Vouches valid callback next := by
  refine ⟨registered_move h.registered hmove, hauth.trans h.authEnabled,
    hcallback.trans h.onAuthorize, fun uuid a ws hactive hws => ?_⟩
  obtain ⟨hold, heq⟩ := hsessions hactive
  obtain ⟨token, hvalid, hmem⟩ := h.vouched uuid a ws hold (heq.symm.trans hws)
  obtain ⟨effects, hhistory, -⟩ := recorded_move hmove
  refine ⟨token, hvalid, ?_⟩
  rw [hhistory]
  exact List.mem_append_right effects hmem

theorem vouches_accept {uuid principal : StdString} {a : Addr} {via : Via}
    (h : Vouches valid callback server) (hpending : server.tmpSessions.lookup uuid = some a)
    (hpermitted : (vouching valid).authorize server uuid principal via)
    (hregistered : Registered (server.accept uuid a principal via)) :
    Vouches valid callback (server.accept uuid a principal via) := by
  obtain ⟨effects, framesOut, heq, -⟩ := accept_eq server uuid a principal via
  rw [heq] at hregistered ⊢
  have hws : ∀ b, (Function.update server.heap a
      { server.heap a with session := (server.heap a).session.authorize principal } b).ws =
        (server.heap b).ws := fun b => apply_update InternalSession.ws fun _ => rfl
  refine ⟨hregistered, h.authEnabled, h.onAuthorize, fun u b ws hactive hattached => ?_⟩
  dsimp only at hactive hattached ⊢
  rw [hws] at hattached
  rw [lookup_insert_eq_ite] at hactive
  split at hactive
  · next hu =>
      cases hactive
      subst hu
      cases via with
      | none => cases hpermitted
      | some via =>
          obtain ⟨from_, token⟩ := via
          have hvia : valid u token = true ∧ lastPending server.history u = some from_ := by
            simpa [vouching] using hpermitted
          have hfrom : ws = from_ := by
            have hlast := (h.registered.pending hpending).last
            rw [hvia.2, hattached] at hlast
            exact (Option.some.inj hlast).symm
          subst hfrom
          exact ⟨token, hvia.1, by simp [hattached]⟩
  · obtain ⟨token, hvalid, hmem⟩ := h.vouched u b ws hactive hattached
    exact ⟨token, hvalid, List.mem_append_right _ hmem⟩

theorem vouches_move (h : Vouches valid callback server)
    (hmove : Move (vouching valid) server next) : Vouches valid callback next := by
  have hregistered := registered_move h.registered hmove
  cases id hmove with
  | quiet hquiet =>
      refine h.keep hmove hquiet.authEnabled hquiet.onAuthorize fun {uuid a} hactive => ?_
      rw [hquiet.sessions] at hactive
      exact ⟨hactive, congrArg Attachment.ws (hquiet.attachment a)⟩
  | tearDownActive hactive hpermitted =>
      rename_i uuid cause a
      obtain ⟨index, principals, heq, -⟩ := tearDownActive_eq server uuid cause a
      rw [heq] at hmove ⊢
      refine h.keep hmove rfl rfl fun {u b} hb => ?_
      obtain ⟨hu, hb⟩ := lookup_of_lookup_erase hb
      have hne := (h.registered.active hactive).ne (h.registered.active hb) hu
      exact ⟨hb, congrArg InternalSession.ws (Function.update_of_ne hne _ _)⟩
  | accept hpending hprincipal hpermitted => exact vouches_accept h hpending hpermitted hregistered
  | pend hattaches hsessions htmpSessions hhistory =>
      obtain ⟨hexclusive, -⟩ := attaches_exclusive h.registered hattaches
      refine h.keep hmove hattaches.authEnabled hattaches.onAuthorize fun {u b} hb => ?_
      rw [hsessions] at hb
      split at hb
      · cases hb
      · next hu => exact ⟨hb, by rw [hattaches.others b (hexclusive (.inl hb) hu)]⟩
  | activate hauth =>
      rw [h.authEnabled] at hauth
      cases hauth
  | empty => exact h.keep hmove rfl rfl fun hactive => by simp at hactive
  | retire hactive hpending =>
      rename_i a
      obtain ⟨connections, heq⟩ := closeSession_eq server a
      rw [heq] at hmove ⊢
      refine h.keep hmove rfl rfl fun {u b} hb => ⟨hb, ?_⟩
      have hne : b ≠ a := by
        rintro rfl
        exact hactive ⟨u, hb⟩
      exact congrArg InternalSession.ws (Function.update_of_ne hne _ _)
  | enable hpermitted =>
      have henabled : _ = server.authEnabled := hpermitted.trans h.authEnabled.symm
      exact h.keep hmove henabled rfl fun hactive => ⟨hactive, rfl⟩
  | listen callback hpermitted => cases hpermitted
  | tearDownPending | index | withdraw | undefined =>
      exact h.keep hmove rfl rfl fun hactive => ⟨hactive, rfl⟩

end Vouching

theorem onAuthorize_limitFrame (server : Server) (ws : ConnId) (now : Nat) :
    (server.limitFrame ws now).1.onAuthorize = server.onAuthorize := by
  rw [Server.limitFrame]
  dsimp only
  split
  · split <;> rfl
  · rfl

section Callback

variable [HashOrder StdString] {valid : StdString → StdString → Bool}
  {principal : StdString → StdString → StdString}
  {reasons : StdString → StdString → List StdString}

theorem callsMeet_reject (via : Via) (clientUuid : StdString) (refusals : List StdString)
    (server : Server) :
    callsMeet (vouching valid) via server (refusals.map (.reject clientUuid)) := by
  induction refusals generalizing server with
  | nil => rfl
  | cons reason refusals ih =>
      rw [List.map_cons, callsMeet, Bool.and_eq_true]
      exact ⟨rejectMeets_of_disconnect (fun _ _ _ => rfl) server clientUuid reason, ih _⟩

theorem callsMeet_checking {server : Server} {clientUuid token : StdString} {ws : ConnId}
    (hlast : lastPending server.history clientUuid = some ws) :
    callsMeet (vouching valid) (some (ws, token)) server
      (checking valid principal reasons clientUuid token) := by
  rw [checking]
  split
  · next hvalid =>
      rw [callsMeet, Bool.and_eq_true]
      constructor
      · simp [callMeets, vouching, hvalid, hlast]
      · split <;> rfl
  · exact callsMeet_reject _ _ _ _

theorem authMeets_vouching {server : Server} {ws : ConnId} {frame : Frame}
    (hcallback : server.onAuthorize = [checking valid principal reasons])
    (h : authMeets ownFrames server ws frame) : authMeets (vouching valid) server ws frame := by
  unfold authMeets at h ⊢
  dsimp only at h ⊢
  split
  · rfl
  · next a hpending =>
      rw [hpending] at h
      dsimp only at h
      rw [Bool.or_eq_true, Bool.and_eq_true] at h ⊢
      refine h.imp id fun h => ⟨h.1, ?_⟩
      have hlast : lastPending server.history (server.connections ws).clientUuid = some ws := by
        simpa [ownFrames] using h.1
      rw [hcallback, callbacksMeet, Bool.and_eq_true]
      exact ⟨callsMeet_checking hlast, rfl⟩

theorem onFrameMeets_vouching {server : Server} {ws : ConnId} {frame : Frame} {now : Nat}
    (hcallback : server.onAuthorize = [checking valid principal reasons])
    (h : onFrameMeets ownFrames server ws frame now) :
    onFrameMeets (vouching valid) server ws frame now := by
  have hfree : ∀ server uuid cause, (vouching valid).disconnect server uuid cause :=
    fun _ _ _ => rfl
  rw [onFrameMeets] at h ⊢
  have hcounted := onAuthorize_limitFrame { server with framesIn := server.framesIn + 1 } ws now
  revert h hcounted
  generalize { server with framesIn := server.framesIn + 1 }.limitFrame ws now = limited
  obtain ⟨counted, passes⟩ := limited
  intro h hcounted
  dsimp only at h hcounted ⊢
  split
  · exact closeMeets_of_disconnect hfree counted ws
  · next hpasses =>
      rw [if_neg hpasses] at h
      split
      · split
        · exact closeMeets_of_disconnect hfree counted ws
        · exact identifiedMeets_of_disconnect hfree rfl _ ws _
      · next hidentified =>
          rw [if_neg hidentified] at h
          split
          · next hauth =>
              rw [if_pos hauth] at h
              exact authMeets_vouching (hcounted.trans hcallback) h
          · next hauth =>
              rw [if_neg hauth] at h
              exact h

/-- Calls that would authorize past the callback are not made. -/
def LeavesAuthorization : Event → Prop
  | .enableAuthorization enabled => enabled = true
  | .onAuthorize _ | .authorize _ _ _ => False
  | _ => True

variable [HashOrder Addr]

theorem stepMeets_vouching {server : Server} {event : Event}
    (hcallback : server.onAuthorize = [checking valid principal reasons])
    (hleaves : LeavesAuthorization event) (h : stepMeets ownFrames server event) :
    stepMeets (vouching valid) server event := by
  rw [stepMeets] at h ⊢
  rw [Bool.or_eq_true] at h ⊢
  apply h.imp id
  intro h
  cases event with
  | frame ws frame now =>
      unfold handleMeets at h ⊢
      dsimp only at h ⊢
      rw [Bool.or_eq_true] at h ⊢
      exact h.imp id (onFrameMeets_vouching hcallback)
  | closed ws => exact onCloseMeets_of_disconnect (fun _ _ _ => rfl) _ ws
  | reject uuid reason => exact rejectMeets_of_disconnect (fun _ _ _ => rfl) server uuid reason
  | enableAuthorization enabled => exact hleaves
  | onAuthorize callback => exact hleaves.elim
  | authorize uuid token principal => exact hleaves.elim
  | _ => exact h

theorem vouches_run {server : Server}
    (h : Vouches valid (checking valid principal reasons) server) {events : List Event}
    (hleaves : ∀ event ∈ events, LeavesAuthorization event)
    (hmeet : StepsMeet step (fun server event => stepMeets ownFrames server event)
      server events) :
    Vouches valid (checking valid principal reasons) (run step server events) := by
  induction events generalizing server with
  | nil => exact h
  | cons event events ih =>
      have hevent := stepMeets_vouching h.onAuthorize (hleaves event (by simp)) hmeet.1
      have hnext := moves_keep (fun _ _ => vouches_move) h (moves_step server hevent)
      exact ih hnext (fun later hlater => hleaves later (by simp [hlater])) hmeet.2

end Callback

theorem vouched_of_ownFrames [HashOrder StdString] [HashOrder Addr] (mode : ServerMode)
    {valid : StdString → StdString → Bool} {principal : StdString → StdString → StdString}
    {reasons : StdString → StdString → List StdString} {later : List Event}
    (hleaves : ∀ event ∈ later, LeavesAuthorization event)
    (hmeet : StepsMeet step (fun server event => stepMeets ownFrames server event)
      (Server.new mode) (.enableAuthorization true ::
        .onAuthorize (checking valid principal reasons) :: later)) :
    Vouched valid (run step (Server.new mode) (.enableAuthorization true ::
      .onAuthorize (checking valid principal reasons) :: later)) := by
  have hstart : Vouches valid (checking valid principal reasons)
      (step (step (Server.new mode) (.enableAuthorization true))
        (.onAuthorize (checking valid principal reasons))) := by
    refine ⟨registered_of_empty rfl rfl, rfl, rfl, fun uuid a ws hactive => ?_⟩
    simp [step, handle, Server.new] at hactive
  exact (vouches_run hstart hleaves hmeet.2.2).vouched

/-- Where frames arrive on the connections with which their uuids were last
registered, they act on sessions with these connections. If moreover all
authorization is left to a callback that authorizes exactly the valid tokens,
every session was authorized by a valid token from its own connection. -/
theorem dispatchesOwn_run [HashOrder StdString] [HashOrder Addr] (mode : ServerMode)
    {events : List Event}
    (h : StepsMeet step (fun server event => stepMeets ownFrames server event)
      (Server.new mode) events) :
    DispatchesOwn (run step (Server.new mode) events).history ∧
      ∀ valid principal reasons later,
        events = .enableAuthorization true :: .onAuthorize (checking valid principal reasons) ::
          later → (∀ event ∈ later, LeavesAuthorization event) →
        Vouched valid (run step (Server.new mode) events) := by
  constructor
  · exact effects_run (fun _ _ => registered_move)
      (fun _ _ hregistered heffect => ownFrame_of_recorded hregistered heffect)
      (registered_new mode) rfl h
  · rintro valid principal reasons later rfl hleaves
    exact vouched_of_ownFrames mode hleaves h

/-- Two pending connections with one uuid, and an `Auth` frame of `from_`. -/
def rivals (from_ : ConnId) : List Event :=
  let uuidBytes := List.replicate 16 (0 : UInt8)
  [.enableAuthorization true,
    .onAuthorize (checking (fun _ token => token = str "token") (fun _ _ => str "alice")
      fun _ _ => []),
    .connect 1 false, .frame 1 (Server.identifyFrame uuidBytes) 0, .connect 2 false,
    .frame 2 (Server.identifyFrame uuidBytes) 0, .frame from_ (Server.authFrame (str "token")) 0]

theorem dispatchesOwn_run_rivals :
    let _ := HashOrder.ascending StdString
    let _ := HashOrder.ascending Addr
    let server := run step (Server.new .principal) (rivals 2)
    DispatchesOwn server.history ∧ Vouched (fun _ token => token = str "token") server := by
  intro _ _ _
  obtain ⟨hdispatches, hvouched⟩ := @dispatchesOwn_run _ _ .principal (rivals 2) (by decide +kernel)
  exact ⟨hdispatches, hvouched _ _ _ _ rfl (by simp [LeavesAuthorization])⟩

/-- The token of a pending connection authorizes the session of the connection
that has replaced it. -/
theorem not_dispatchesOwn_run :
    ¬ ∀ (_ : HashOrder StdString) (_ : HashOrder Addr) (mode : ServerMode) (events : List Event),
      DispatchesOwn (run step (Server.new mode) events).history := by
  intro h
  exact absurd (h (HashOrder.ascending StdString) (HashOrder.ascending Addr) .principal (rivals 1))
    (by decide +kernel)

end DanWs.FrameDispatch
