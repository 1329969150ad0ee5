import DanWs.ClientLifecycle

namespace DanWs.ReconnectAgreement

open DanWs.ClientCalls
open DanWs.ClientLifecycle
open DanWs.Clients
open DanWs.ClientStanding
open DanWs.KeyPaths
open DanWs.StepRuns
open DanWs.WireTypes

structure Agrees (standing : Standing) : Prop where
  reconnecting : standing.state = .reconnecting → standing.reconnectActive = true
  disconnected : standing.state = .disconnected → standing.reconnectActive = false

/-- Only an engine that is enabled gets active. -/
structure Fits (options : ReconnectOptions) (live : LiveClient) : Prop where
  options_eq : live.engine.options = options
  enabled : live.client.reconnectActive → options.enabled

/-- The connection, or the attempt to open one, is lost without a `disconnect()`. -/
def LosesConnection (live : LiveClient) : Event → Prop
  | .connect dial _ =>
      dial = .fails ∧ (live.client.state = .disconnected ∨ live.client.state = .reconnecting)
  | .closed _ => live.client.socket ≠ none ∧ live.client.intentionalDisconnect = false
  | .heartbeatTimeout _ =>
      live.heartbeat.running ∧ live.client.intentionalDisconnect = false
  | .timer dial =>
      live.engine.timerThread = .waiting ∧ live.engine.stopRequested = false ∧ dial = .fails ∧
        (live.client.state = .disconnected ∨ live.client.state = .reconnecting)
  | .disconnect | .opened | .input _ => False

/-- The server rejects the token in the middle of a reconnect cycle. -/
def RejectedInCycle (live : LiveClient) : Event → Prop
  | .input input => hasType .authFail input ∧ live.client.reconnectActive
  | _ => False

/-- What the options, and the moment at which an `AuthFail` comes, have to allow. -/
def Permitted (live : LiveClient) (event : Event) : Prop :=
  live.terminated = false →
    (LosesConnection live event → live.engine.options.enabled) ∧ ¬ RejectedInCycle live event

theorem active_of_afterInput {client : Client} {input : Input}
    (h : (afterInput client input).reconnectActive) : client.reconnectActive := by
  rw [reconnectActive_afterInput, Bool.and_eq_true] at h
  exact h.1

section Cycle

variable {options : ReconnectOptions} {live : LiveClient}

theorem stable_fits (options : ReconnectOptions) : Stable (Fits options) where
  engine _ _ hoptions h := ⟨hoptions.trans h.options_eq, h.enabled⟩
  terminated _ h := ⟨h.options_eq, h.enabled⟩
  state _ _ _ _ hstarted h :=
    ⟨h.options_eq, fun hactive => (hstarted hactive).elim h.enabled fun henabled => by
      rwa [h.options_eq] at henabled⟩
  closed _ h := ⟨h.options_eq, h.enabled⟩
  dialed _ h := ⟨h.options_eq, h.enabled⟩

theorem fits_handleOpen (h : Fits options live) : Fits options live.handleOpen := by
  rw [LiveClient.handleOpen]
  split
  · exact ⟨h.options_eq, h.enabled⟩
  · refine ⟨h.options_eq, fun hactive => h.enabled ?_⟩
    rw [← hactive, handleOpen]
    dsimp only
    split <;> rfl

theorem fits_take (h : Fits options live) (input : Input) : Fits options (live.take input) := by
  refine ⟨?_, fun hactive => h.enabled (active_of_afterInput hactive)⟩
  dsimp only [LiveClient.take]
  split <;> exact h.options_eq

theorem fits_step (h : Fits options live) (event : Event) : Fits options (step live event) :=
  stable_step (stable_fits options) h ⟨h.options_eq, h.enabled⟩ (fun _ _ => fits_handleOpen h)
    fun input _ => fits_take h input

end Cycle

section Agreement

variable {live : LiveClient} {join : LiveClient → LiveClient}

/-- The client waits for the next attempt. -/
structure Cycling (client : Client) : Prop where
  state : client.state = .reconnecting
  active : client.reconnectActive = true

theorem agrees_of_cycling {client : Client} (h : Cycling client) : Agrees (standing client) where
  reconnecting _ := h.active
  disconnected hstate := absurd (h.state.symm.trans hstate) ClientState.noConfusion

theorem agrees_of_state {client : Client} (hreconnecting : client.state ≠ .reconnecting)
    (hdisconnected : client.state ≠ .disconnected) : Agrees (standing client) where
  reconnecting hstate := absurd hstate hreconnecting
  disconnected hstate := absurd hstate hdisconnected

theorem agrees_scheduleNext
    (hjoin : ∀ live, Cycling live.client → Agrees (standing (join live).client))
    (h : Cycling live.client) : Agrees (standing (live.scheduleNext join).client) := by
  rw [LiveClient.scheduleNext]
  dsimp only
  split
  · exact ⟨fun hstate => ClientState.noConfusion hstate, fun _ => rfl⟩
  · have hjoined := hjoin
      { live with engine := { live.engine with attempt := live.engine.attempt + 1 } } h
    split
    · exact hjoined
    · exact ⟨hjoined.reconnecting, hjoined.disconnected⟩

theorem start_of_disabled (h : live.engine.options.enabled = false) : live.start join = live :=
  if_pos (Or.inl h)

theorem agrees_start (hjoin : ∀ live, Cycling live.client → Agrees (standing (join live).client))
    (hstate : live.client.state = .reconnecting) (henabled : live.engine.options.enabled)
    (hactive : live.client.reconnectActive = false) :
    Agrees (standing (live.start join).client) := by
  rw [LiveClient.start, if_neg (by simp [henabled, hactive])]
  exact agrees_scheduleNext hjoin ⟨hstate, rfl⟩

/-- A lost connection is followed by a reconnect cycle, unless none may start. -/
theorem agrees_handleClose_iff
    (hjoin : ∀ live, Cycling live.client → Agrees (standing (join live).client))
    (hintentional : live.client.intentionalDisconnect = false) :
    Agrees (standing (live.handleClose join).client) ↔
      live.client.reconnectActive ∨ live.engine.options.enabled := by
  let lost : LiveClient := { live with
    heartbeat := live.heartbeat.stop
    client := { live.client.cleanup with state := .reconnecting } }
  have hclose : live.handleClose join =
      if live.client.reconnectActive then lost.retry join else lost.start join := by
    rw [LiveClient.handleClose]
    dsimp only
    rw [if_neg (by simpa [Client.cleanup] using hintentional)]
    rfl
  rw [hclose]
  cases hactive : live.client.reconnectActive with
  | true =>
      have hlost : Cycling lost.client := ⟨rfl, hactive⟩
      rw [if_pos rfl, LiveClient.retry, if_pos hlost.active]
      exact iff_of_true (agrees_scheduleNext hjoin hlost) (Or.inl rfl)
  | false =>
      rw [if_neg Bool.false_ne_true]
      cases henabled : live.engine.options.enabled with
      | true => exact iff_of_true (agrees_start hjoin rfl henabled hactive) (Or.inr rfl)
      | false =>
          rw [show lost.start join = lost from start_of_disabled henabled]
          refine iff_of_false (fun h => ?_) (by simp)
          exact absurd (hactive.symm.trans (h.reconnecting rfl)) Bool.false_ne_true

theorem agrees_connect_iff
    (hjoin : ∀ live, Cycling live.client → Agrees (standing (join live).client))
    (h : Agrees (standing live.client)) (dial : Dial) :
    Agrees (standing (live.connect join dial).client) ↔
      (dial = .fails ∧ (live.client.state = .disconnected ∨ live.client.state = .reconnecting) →
        live.client.reconnectActive ∨ live.engine.options.enabled) := by
  rw [LiveClient.connect]
  split
  · next hstate =>
      refine iff_of_true h fun hfails => ?_
      exact absurd hfails.2 (not_or.mpr hstate)
  · next hstate =>
      rw [not_and_or, not_not, not_not] at hstate
      cases dial with
      | starts =>
          refine iff_of_true (agrees_of_state ?_ ?_) fun hfails => Dial.noConfusion hfails.1
          · exact ClientState.noConfusion
          · exact ClientState.noConfusion
      | fails =>
          let connecting : LiveClient := { live with
            client := { live.client with intentionalDisconnect := false, state := .connecting } }
          have hclose : Agrees (standing (connecting.handleClose join).client) ↔ _ :=
            agrees_handleClose_iff hjoin rfl
          refine hclose.trans ⟨fun hrecovers _ => hrecovers, fun hall => hall ⟨rfl, hstate⟩⟩

theorem client_joinSelf (live : LiveClient) : live.joinSelf.client = live.client := by
  rw [LiveClient.joinSelf]
  split <;> rfl

theorem agrees_joinSelf (live : LiveClient) (h : Cycling live.client) :
    Agrees (standing live.joinSelf.client) := by
  rw [client_joinSelf]
  exact agrees_of_cycling h

theorem agrees_fire_iff (h : Agrees (standing live.client)) (dial : Dial) :
    Agrees (standing (live.fire dial).client) ↔
      (live.engine.stopRequested = false ∧ dial = .fails ∧
          (live.client.state = .disconnected ∨ live.client.state = .reconnecting) →
        live.client.reconnectActive ∨ live.engine.options.enabled) := by
  rw [LiveClient.fire]
  dsimp only
  cases hstop : live.engine.stopRequested with
  | true => exact iff_of_true h fun hstopped => Bool.noConfusion hstopped.1
  | false =>
      rw [if_neg Bool.false_ne_true]
      let fired : LiveClient := { live with engine := { live.engine with timerThread := .fired } }
      have hfired : Agrees (standing fired.client) := h
      simpa [fired, hstop] using agrees_connect_iff agrees_joinSelf hfired dial

theorem agrees_joinTimer (dial : Dial) (live : LiveClient) (h : Cycling live.client) :
    Agrees (standing (live.joinTimer dial).client) := by
  rw [LiveClient.joinTimer]
  dsimp only
  split
  · exact (agrees_fire_iff (agrees_of_cycling h) dial).mpr fun _ => Or.inl h.active
  · exact agrees_of_cycling h

end Agreement

section Runs

variable {options : ReconnectOptions} {live : LiveClient}

/-- An `AuthFail` is the only frame that leads to `Disconnected`, and no input leads
to `Reconnecting`. -/
theorem agrees_apply_iff {before : Standing} (h : Agrees before) (registry : KeyRegistry)
    (frame : Frame) :
    Agrees (before.apply registry frame) ↔
      ¬ (frame.frameType = .authFail ∧ before.reconnectActive) := by
  have hmoved : ∀ {after : Standing}, after.state = .synchronizing ∨ after.state = .ready →
      Agrees after := by
    rintro after hstate
    refine ⟨fun hnext => ?_, fun hnext => ?_⟩
    · rcases hstate with hstate | hstate <;> rw [hstate] at hnext <;> cases hnext
    · rcases hstate with hstate | hstate <;> rw [hstate] at hnext <;> cases hnext
  have hstart : Agrees before.startSynchronizing := by
    rw [Standing.startSynchronizing]
    split
    · exact hmoved (Or.inl rfl)
    · exact h
  rw [Standing.apply]
  cases htype : frame.frameType
  case authFail =>
    constructor
    · rintro hagrees ⟨_, hactive⟩
      exact absurd (hactive.symm.trans (hagrees.disconnected rfl)) Bool.noConfusion
    · intro hinactive
      exact ⟨fun hstate => ClientState.noConfusion hstate, fun _ => by simpa using hinactive⟩
  case authOk => exact iff_of_true (hmoved (Or.inl rfl)) (by simp)
  case serverReset => exact iff_of_true (hmoved (Or.inl rfl)) (by simp)
  case serverKeyRegistration => exact iff_of_true hstart (by simp)
  case serverSync =>
    refine iff_of_true ?_ (by simp)
    dsimp only
    split
    · exact hmoved (Or.inr rfl)
    · exact hstart
  case serverValue =>
    refine iff_of_true ?_ (by simp)
    dsimp only
    split
    · exact hmoved (Or.inr rfl)
    · exact h
  all_goals exact iff_of_true h (by simp)

theorem agrees_afterInput_iff {client : Client} (h : Agrees (standing client)) (input : Input) :
    Agrees (standing (afterInput client input)) ↔
      ¬ (hasType .authFail input ∧ client.reconnectActive) := by
  rw [standing_afterInput]
  cases input with
  | frame frame =>
      refine (agrees_apply_iff h client.registry frame).trans ?_
      simp [hasType, standing]
  | authorize token =>
      refine iff_of_true ?_ (by simp [hasType])
      rw [standingAfter]
      split
      · exact ⟨fun hstate => ClientState.noConfusion hstate,
          fun hstate => ClientState.noConfusion hstate⟩
      · exact h
  | subscribe topicName params =>
      exact iff_of_true ⟨h.reconnecting, h.disconnected⟩ (by simp [hasType])
  | unsubscribe topicName =>
      exact iff_of_true ⟨h.reconnecting, h.disconnected⟩ (by simp [hasType])

theorem agrees_handleOpen (live : LiveClient) (h : Agrees (standing live.client)) :
    Agrees (standing live.handleOpen.client) := by
  rw [LiveClient.handleOpen]
  split
  · exact ⟨h.reconnecting, h.disconnected⟩
  · dsimp only
    rw [handleOpen]
    dsimp only
    split
    · exact ⟨fun hstate => ClientState.noConfusion hstate,
        fun hstate => ClientState.noConfusion hstate⟩
    · exact ⟨fun hstate => ClientState.noConfusion hstate,
        fun hstate => ClientState.noConfusion hstate⟩

/-- With its engine enabled when it is active, a client recovers if it is enabled. -/
theorem recovers_iff (hfits : Fits options live) :
    live.client.reconnectActive ∨ live.engine.options.enabled ↔ live.engine.options.enabled := by
  refine or_iff_right_of_imp fun hactive => ?_
  rw [hfits.options_eq]
  exact hfits.enabled hactive

/-- A connection is lost, if the event is one of those that lose it. -/
theorem agrees_closed_iff (hfits : Fits options live) (dial : Dial)
    (hintentional : live.client.intentionalDisconnect = false) :
    Agrees (standing (live.handleClose (LiveClient.joinTimer dial)).client) ↔
      live.engine.options.enabled :=
  (agrees_handleClose_iff (agrees_joinTimer dial) hintentional).trans (recovers_iff hfits)

theorem agrees_handleClose_of_intentional {join : LiveClient → LiveClient}
    (h : Agrees (standing live.client)) (hintentional : live.client.intentionalDisconnect = true) :
    Agrees (standing (live.handleClose join).client) := by
  rw [LiveClient.handleClose]
  dsimp only
  rw [if_pos (by simpa [Client.cleanup] using hintentional)]
  exact ⟨h.reconnecting, h.disconnected⟩

theorem agrees_loss_iff (hfits : Fits options live) (h : Agrees (standing live.client))
    (dial : Dial) :
    Agrees (standing (live.handleClose (LiveClient.joinTimer dial)).client) ↔
      (live.client.intentionalDisconnect = false → live.engine.options.enabled) := by
  cases hintentional : live.client.intentionalDisconnect with
  | true =>
      exact iff_of_true (agrees_handleClose_of_intentional h hintentional) fun hfalse =>
        Bool.noConfusion hfalse
  | false => exact (agrees_closed_iff hfits dial hintentional).trans (by simp)

theorem agrees_step_iff (hfits : Fits options live) (h : Agrees (standing live.client))
    (event : Event) :
    Agrees (standing (step live event).client) ↔ Permitted live event := by
  rw [step.eq_def, Permitted]
  by_cases hterminated : live.terminated
  · rw [if_pos hterminated]
    exact iff_of_true h fun hrunning => absurd (hterminated.symm.trans hrunning) Bool.noConfusion
  · rw [if_neg hterminated, forall_prop_of_true (by simpa using hterminated)]
    cases event with
    | connect dial waited =>
        have hconnect := agrees_connect_iff (agrees_joinTimer waited) h dial
        rw [recovers_iff hfits] at hconnect
        exact hconnect.trans (and_iff_left id).symm
    | disconnect =>
        refine iff_of_true ⟨fun hstate => ClientState.noConfusion hstate, fun _ => rfl⟩ ?_
        exact ⟨False.elim, id⟩
    | opened =>
        refine iff_of_true ?_ ⟨False.elim, id⟩
        dsimp only
        split
        · exact agrees_handleOpen live h
        · exact h
    | closed waited =>
        refine Iff.trans ?_ (and_iff_left id).symm
        dsimp only [LosesConnection]
        split
        · next hsocket => exact iff_of_true h fun hloses => absurd hsocket hloses.1
        · next hsocket =>
            refine (agrees_loss_iff hfits h waited).trans ?_
            simp [hsocket]
    | heartbeatTimeout waited =>
        refine Iff.trans ?_ (and_iff_left id).symm
        dsimp only [LosesConnection]
        split
        · next hrunning =>
            have hexpired : Fits options { live with heartbeat := live.heartbeat.timeout } :=
              ⟨hfits.options_eq, hfits.enabled⟩
            refine (agrees_loss_iff hexpired h waited).trans ?_
            simp [hrunning]
        · next hstopped => exact iff_of_true h fun hloses => absurd hloses.1 hstopped
    | timer dial =>
        refine Iff.trans ?_ (and_iff_left id).symm
        dsimp only [LosesConnection]
        split
        · next hwaiting =>
            refine (agrees_fire_iff h dial).trans ?_
            rw [recovers_iff hfits]
            simp [hwaiting]
        · next hwaiting => exact iff_of_true h fun hloses => absurd hloses.1 hwaiting
    | input input =>
        refine (agrees_afterInput_iff h input).trans ?_
        exact (and_iff_right False.elim).symm

theorem fits_run {events : List Event} (h : Fits options live) :
    Fits options (run step live events) := by
  induction events generalizing live with
  | nil => exact h
  | cons event events ih => exact ih (fits_step h event)

/-- In every run, the state and the engine agree between events if and only if no
connection is lost while reconnecting is disabled and no `AuthFail` comes in the
middle of a reconnect cycle. -/
theorem agrees_throughout_iff (uuidBytes : List UInt8) (options : ReconnectOptions)
    (events : List Event) :
    (∀ before, before <+: events →
        Agrees (standing (run step (LiveClient.new uuidBytes options) before).client)) ↔
      StepsMeet step Permitted (LiveClient.new uuidBytes options) events := by
  have hfits : Fits options (LiveClient.new uuidBytes options) :=
    ⟨rfl, fun hactive => Bool.noConfusion hactive⟩
  have hagrees : Agrees (standing (LiveClient.new uuidBytes options).client) :=
    ⟨fun hstate => ClientState.noConfusion hstate, fun _ => rfl⟩
  have hstep : ∀ live event, Fits options live ∧ Agrees (standing live.client) →
      (Fits options (step live event) ∧ Agrees (standing (step live event).client) ↔
        Permitted live event) := by
    rintro live event ⟨hfits, hagrees⟩
    rw [and_iff_right (fits_step hfits event)]
    exact agrees_step_iff hfits hagrees event
  have hiff := @forall_prefix_iff_stepsMeet _ _ step Permitted
    (fun live => Fits options live ∧ Agrees (standing live.client)) hstep _ ⟨hfits, hagrees⟩ events
  rw [← hiff]
  refine forall₂_congr fun before _ => ?_
  exact (and_iff_right (fits_run hfits)).symm

end Runs

section Example

def rejectedEvents : List Event :=
  [.connect .starts .starts, .opened, .closed .starts, .timer .starts, .opened,
    .input (.frame (signalFrame .authFail))]

/-- The client is `Disconnected`, and the cycle goes on. -/
theorem not_agrees_throughout :
    ¬ ∀ (uuidBytes : List UInt8) (options : ReconnectOptions) (events before : List Event),
      before <+: events →
        Agrees (standing (run step (LiveClient.new uuidBytes options) before).client) := by
  intro h
  have hagrees := h (List.replicate 16 0) ⟨true, 10⟩ rejectedEvents _ (List.prefix_refl _)
  have hstate : (run step (LiveClient.new (List.replicate 16 0) ⟨true, 10⟩)
      rejectedEvents).client.state = .disconnected := by
    decide +kernel
  have hactive : (run step (LiveClient.new (List.replicate 16 0) ⟨true, 10⟩)
      rejectedEvents).client.reconnectActive = true := by
    decide +kernel
  exact absurd (hactive.symm.trans (hagrees.disconnected hstate)) Bool.noConfusion

end Example

end DanWs.ReconnectAgreement
