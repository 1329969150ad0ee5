import DanWs.ClientCalls

namespace DanWs.SyncCompletion

open DanWs.ClientCalls
open DanWs.Clients
open DanWs.ClientStanding
open DanWs.KeyPaths
open DanWs.KeyStores
open DanWs.Replication
open DanWs.StepRuns
open DanWs.WireTypes

/-- Whether a call of `authorize()` waits for its `AuthOk`. -/
def awaitsAuth (waiting : Bool) : Input → Bool
  | .authorize _ => true
  | .frame frame => waiting && frame.frameType ≠ .authOk
  | .subscribe _ _ | .unsubscribe _ => waiting

/-- Neither a teardown nor a frame that takes back what the client was told of a key. -/
def LeavesKey (keyId : UInt32) : Input → Prop
  | .frame frame =>
      frame.frameType ≠ .authFail ∧ frame.frameType ≠ .serverReset ∧
        (frame.frameType = .serverKeyDelete → frame.keyId ≠ keyId)
  | .authorize _ | .subscribe _ _ | .unsubscribe _ => True

instance (keyId : UInt32) : DecidablePred (LeavesKey keyId)
  | .frame frame =>
      inferInstanceAs (Decidable (frame.frameType ≠ .authFail ∧ frame.frameType ≠ .serverReset ∧
        (frame.frameType = .serverKeyDelete → frame.keyId ≠ keyId)))
  | .authorize _ | .subscribe _ _ | .unsubscribe _ => inferInstanceAs (Decidable True)

/-- The connection is open, and its handshake is under way or done. -/
structure Connected (client : Client) : Prop where
  socket : client.socket = some true
  state : client.state = .identifying ∨ client.state = .authorizing ∨
    client.state = .synchronizing ∨ client.state = .ready

/-- The key is known, and `authorizing` is the state exactly while an answer is awaited. -/
structure Told (keyId : UInt32) (waiting : Bool) (client : Client) : Prop where
  socket : client.socket = some true
  known : client.registry.hasKeyId keyId
  state : if waiting then client.state = .authorizing
    else client.state = .synchronizing ∨ client.state = .ready

section Steps

variable {client : Client} {input : Input} {keyId : UInt32} {waiting : Bool}

theorem connected_afterInput (h : Connected client) (hinput : hasType .authFail input = false) :
    Connected (afterInput client input) := by
  refine ⟨(socket_afterInput hinput).trans h.socket, ?_⟩
  have hstate := h.state
  rw [state_afterInput]
  rw [show client.state = (standing client).state from rfl] at hstate
  generalize standing client = before at hstate
  cases input with
  | frame frame =>
      have hstart : ∀ state, before.startSynchronizing.state = state →
          state = .authorizing ∨ state = .synchronizing ∨ state = .ready := by
        rintro state rfl
        rw [Standing.state_startSynchronizing]
        split
        · exact Or.inr (Or.inl rfl)
        · next hne => exact hstate.resolve_left hne
      rw [standingAfter, Standing.apply]
      split
      case h_1 | h_2 => exact Or.inr (Or.inr (Or.inl rfl))
      case h_3 htype => simp [hasType, htype] at hinput
      case h_4 => exact Or.inr (hstart _ rfl)
      case h_5 =>
        split
        · exact Or.inr (Or.inr (Or.inr rfl))
        · exact Or.inr (hstart _ rfl)
      case h_6 =>
        split
        · exact Or.inr (Or.inr (Or.inr rfl))
        · exact hstate
      case h_7 => exact hstate
  | authorize token =>
      rw [standingAfter]
      split
      · exact Or.inr (Or.inl rfl)
      · exact hstate
  | subscribe topicName params => exact hstate
  | unsubscribe topicName => exact hstate

theorem told_afterInput (h : Told keyId waiting client) (hinput : LeavesKey keyId input) :
    Told keyId (awaitsAuth waiting input) (afterInput client input) := by
  have hauthFail : hasType .authFail input = false := by
    cases input with
    | frame frame => simpa [hasType] using hinput.1
    | _ => rfl
  have hreset : hasType .serverReset input = false := by
    cases input with
    | frame frame => simpa [hasType] using hinput.2.1
    | _ => rfl
  have hdelete : ∀ frame, input = .frame frame → frame.frameType = .serverKeyDelete →
      frame.keyId ≠ keyId := by
    rintro frame rfl
    exact hinput.2.2
  refine ⟨(socket_afterInput hauthFail).trans h.socket, hasKeyId_afterInput hreset hdelete h.known,
    ?_⟩
  have hstate := h.state
  have hsocket := h.socket
  have hne : client.registry.byId ≠ ∅ := by
    intro hempty
    have hknown := h.known
    rw [KeyRegistry.hasKeyId, hempty] at hknown
    cases hknown
  rw [state_afterInput]
  rw [show client.state = (standing client).state from rfl] at hstate
  rw [show client.socket = (standing client).socket from rfl] at hsocket
  generalize standing client = before at hstate hsocket
  cases input with
  | frame frame =>
      -- the first frame of the sync is past, so that no frame starts it
      have hstart : before.startSynchronizing = before := by
        rw [Standing.startSynchronizing, if_neg]
        intro hidentifying
        rw [hidentifying] at hstate
        cases waiting <;> simp at hstate
      rw [standingAfter, Standing.apply, awaitsAuth]
      cases htype : frame.frameType
      case authOk => simp
      case serverReset => simp [hasType, htype] at hreset
      case authFail => simp [hasType, htype] at hauthFail
      case serverKeyRegistration => simpa [hstart] using hstate
      case serverSync => simpa [hstart, hne] using hstate
      case serverValue =>
        by_cases hvalue : client.registry.hasKeyId frame.keyId ∧ before.state = .synchronizing
        · cases waiting
          · simp [hvalue, Standing.enterReady]
          · simp [hvalue.2] at hstate
        · simpa [hvalue] using hstate
      all_goals simpa using hstate
  | authorize token => simp [standingAfter, awaitsAuth, hsocket]
  | subscribe topicName params => exact hstate
  | unsubscribe topicName => exact hstate

theorem told_run {inputs : List Input} (h : Told keyId waiting client)
    (hinputs : ∀ input ∈ inputs, LeavesKey keyId input) :
    Told keyId (run awaitsAuth waiting inputs) (run afterInput client inputs) := by
  induction inputs generalizing client waiting with
  | nil => exact h
  | cons input inputs ih =>
      exact ih (told_afterInput h (hinputs input List.mem_cons_self))
        fun other hother => hinputs other (List.mem_cons_of_mem input hother)

theorem connected_run {inputs : List Input} (h : Connected client)
    (hinputs : ∀ input ∈ inputs, hasType .authFail input = false) :
    Connected (run afterInput client inputs) :=
  invariant_run (fun _ _ hclient hinput => connected_afterInput hclient hinput) h
    (stepsMeet_of_forall hinputs)

theorem told_registration {frame : Frame} {path : StdString} {registry : KeyRegistry}
    (h : Connected client) (htype : frame.frameType = .serverKeyRegistration)
    (hpath : frame.payload = .string path)
    (haccepted : client.registry.registerOne frame.keyId path frame.dataType = .ok registry) :
    Told frame.keyId (client.state = .authorizing) (afterInput client (.frame frame)) := by
  have hauthFail : hasType .authFail (.frame frame) = false := by simp [hasType, htype]
  refine ⟨(socket_afterInput hauthFail).trans h.socket, ?_, ?_⟩
  · have hsync : isSyncFrame frame := by simp [isSyncFrame, htype]
    have hkeys := congrArg KeyStore.registry (keyStore_handleFrame client frame hsync)
    obtain ⟨_, _, hbyId, _, _⟩ := registerOne_ok haccepted
    rw [show (afterInput client (.frame frame)).registry = _ from hkeys, KeyStore.apply, htype]
    dsimp only
    rw [KeyStore.register, hpath, show (keyStore client).registry = client.registry from rfl]
    dsimp only
    rw [haccepted]
    dsimp only
    rw [KeyStore.registry_applyPending, KeyRegistry.hasKeyId, hbyId, Finmap.lookup_insert]
    rfl
  · rw [state_afterInput, standingAfter, Standing.apply, htype]
    dsimp only
    rw [Standing.state_startSynchronizing, show (standing client).state = client.state from rfl]
    rcases h.state with hstate | hstate | hstate | hstate <;> simp [hstate]

theorem state_value {frame : Frame} (h : Told keyId waiting client)
    (htype : frame.frameType = .serverValue) (hkey : frame.keyId = keyId) :
    (afterInput client (.frame frame)).state = .ready ↔ waiting = false := by
  have hstate := h.state
  rw [state_afterInput, standingAfter, Standing.apply, htype, hkey]
  dsimp only
  rw [show client.state = (standing client).state from rfl] at hstate
  cases waiting
  · rcases hstate with hstate | hstate
    · simp [h.known, hstate, Standing.enterReady]
    · simp [hstate]
  · simp [show (standing client).state = .authorizing from hstate]

end Steps

section Completion

variable {client : Client} {before between after : List Input} {registration sync value : Frame}
  {path : StdString} {registry : KeyRegistry}

theorem connected_handleOpen (hopen : client.socket = some true) (uuidBytes : List UInt8) :
    Connected (handleOpen client uuidBytes).client := by
  rw [handleOpen]
  dsimp only
  split
  · exact ⟨hopen, Or.inl rfl⟩
  · exact ⟨hopen, Or.inl rfl⟩

/-- A registration, a `ServerSync` and a value make the client `Ready` if and only
if no `authorize()` is left without an `AuthOk`. -/
theorem ready_iff_answered (hopen : client.socket = some true) (uuidBytes : List UInt8)
    (hconnected : ∀ input ∈ before, hasType .authFail input = false)
    (hregistration : registration.frameType = .serverKeyRegistration)
    (hpath : registration.payload = .string path)
    (haccepted : (run afterInput (handleOpen client uuidBytes).client before).registry.registerOne
      registration.keyId path registration.dataType = .ok registry)
    (hbetween : ∀ input ∈ between, LeavesKey registration.keyId input)
    (hsync : sync.frameType = .serverSync)
    (hafter : ∀ input ∈ after, LeavesKey registration.keyId input)
    (hvalue : value.frameType = .serverValue) (hkey : value.keyId = registration.keyId) :
    (run afterInput (handleOpen client uuidBytes).client
        (before ++ .frame registration :: between ++ .frame sync :: after ++
          [.frame value])).state = .ready ↔
      run awaitsAuth
        ((run afterInput (handleOpen client uuidBytes).client before).state = .authorizing)
        (between ++ after) = false := by
  have hstart := connected_run (connected_handleOpen hopen uuidBytes) hconnected
  have htold := told_registration hstart hregistration hpath haccepted
  have hleaves : ∀ input ∈ between ++ .frame sync :: after,
      LeavesKey registration.keyId input := by
    intro input hinput
    rcases List.mem_append.mp hinput with hinput | hinput
    · exact hbetween input hinput
    rcases List.mem_cons.mp hinput with rfl | hinput
    · simp [LeavesKey, hsync]
    · exact hafter input hinput
  have hrun := told_run htold hleaves
  have hawaits : ∀ waiting, run awaitsAuth waiting (between ++ .frame sync :: after) =
      run awaitsAuth waiting (between ++ after) := by
    intro waiting
    rw [run_append, run_append, run_cons]
    simp [awaitsAuth, hsync]
  rw [hawaits] at hrun
  rw [show before ++ .frame registration :: between ++ .frame sync :: after ++ [.frame value] =
      before ++ .frame registration :: (between ++ .frame sync :: after) ++ [.frame value] by simp,
    run_append, run_append, run_cons]
  exact state_value hrun hvalue hkey

end Completion

section Example

def opening : Client := { Client.new with state := .connecting, socket := some true }

def keyFrame : Frame := ⟨.serverKeyRegistration, 1, .varInteger, .string (str "a")⟩

def keyValue : Frame := ⟨.serverValue, 1, .varInteger, .int32 5⟩

/-- The token is sent early, and the answer to it comes late. -/
theorem ready_late :
    (run afterInput (handleOpen opening (List.replicate 16 0)).client
        ([.authorize (str "t")] ++ .frame keyFrame :: [.subscribe (str "chat") ∅] ++
          .frame (signalFrame .serverSync) :: [.frame (signalFrame .authOk)] ++
          [.frame keyValue])).state = .ready := by
  refine (@ready_iff_answered opening [.authorize (str "t")] [.subscribe (str "chat") ∅]
    [.frame (signalFrame .authOk)] keyFrame (signalFrame .serverSync) keyValue (str "a") _ rfl _
    (by decide) rfl rfl rfl (by decide) rfl (by decide) rfl rfl).mpr ?_
  decide +kernel

/-- A server without authorization never answers the token. -/
theorem not_ready :
    ¬ ∀ (client : Client) (uuidBytes : List UInt8) (before between after : List Input)
      (registration sync value : Frame) (path : StdString) (registry : KeyRegistry),
      client.socket = some true →
      (∀ input ∈ before, hasType .authFail input = false) →
      registration.frameType = .serverKeyRegistration → registration.payload = .string path →
      (run afterInput (handleOpen client uuidBytes).client before).registry.registerOne
        registration.keyId path registration.dataType = .ok registry →
      sync.frameType = .serverSync →
      (∀ input ∈ between ++ after, hasType .authFail input = false ∧
        hasType .serverReset input = false ∧ hasType .serverKeyDelete input = false) →
      (∀ token, .authorize token ∉ after) →
      value.frameType = .serverValue → value.keyId = registration.keyId →
      (run afterInput (handleOpen client uuidBytes).client
        (before ++ .frame registration :: between ++ .frame sync :: after ++
          [.frame value])).state = .ready := by
  intro h
  have hready := h opening (List.replicate 16 0) [] [.authorize (str "t")] [] keyFrame
    (signalFrame .serverSync) keyValue (str "a") _ rfl (by decide) rfl rfl rfl rfl (by decide)
    (fun _ => List.not_mem_nil) rfl rfl
  exact absurd hready (by decide +kernel)

end Example

end DanWs.SyncCompletion
