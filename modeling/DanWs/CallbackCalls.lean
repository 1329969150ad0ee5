import DanWs.ClientCalls

/-!
The handling of a frame by a client whose callbacks may call `disconnect()` on
it. Every callback takes effect at the place where it is made, and the statements
behind it find what it has left.
-/

namespace DanWs.CallbackCalls

open DanWs.ClientCalls
open DanWs.Clients
open DanWs.ClientStanding
open DanWs.KeyPaths
open DanWs.WireTypes

section Handling

-- the callbacks that call `disconnect()`
variable (calls : Notice → Bool)

def emit (client : Client) (notice : Notice) : Client :=
  if calls notice then (disconnect client).client else client

def emitAll (client : Client) (notices : List Notice) : Client := notices.foldl (emit calls) client

/-- The callbacks of a client that becomes ready. The reconnect cycle ends between them. -/
def notifyReady (client : Client) : Client :=
  let ready := emit calls { client with state := .ready } .onReady
  if ready.reconnectActive then emit calls { ready with reconnectActive := false } .onReconnect
  else ready

def announce (client : Client) : Client :=
  if client.topics.subscriptions = ∅ then client
  else { client with topics := (client.topics.sendTopicSync client.isOpen).1 }

def enterReady (client : Client) : Client := announce (notifyReady calls client)

def handleAuthFail (client : Client) (frame : Frame) : Client :=
  let rejected := emit calls { client with intentionalDisconnect := true }
    (.onError (str "AUTH_REJECTED") (Client.textOf frame (str "Authentication failed")))
  emit calls { rejected.cleanup with state := .disconnected } .onDisconnect

def applyPending (client : Client) (frame : Frame) (path : StdString) : Client :=
  match client.pendingValues.lookup frame.keyId with
  | none => client
  | some pending =>
      let stored := { client with store := client.store.insert frame.keyId pending.payload }
      let (cached, info) := stored.getTopicInfo frame.keyId path
      let notified := emitAll calls cached (cached.notify info path pending.payload)
      { notified with pendingValues := notified.pendingValues.erase frame.keyId }

def handleServerKeyRegistration (client : Client) (frame : Frame) : Client :=
  let started := client.startSynchronizing
  match frame.payload with
  | .string path =>
      match started.registry.registerOne frame.keyId path frame.dataType with
      | .error _ => started
      | .ok registry => applyPending calls { started with registry } frame path
  | _ => started

def handleServerSync (client : Client) : Client :=
  let started := client.startSynchronizing
  if started.registry.byId = ∅ then enterReady calls started else started

def handleServerValue (client : Client) (frame : Frame) : Client :=
  match client.registry.getByKeyId frame.keyId with
  | none => { client with pendingValues := client.pendingValues.insert frame.keyId frame }
  | some entry =>
      let stored := { client with store := client.store.insert frame.keyId frame.payload }
      let (cached, info) := stored.getTopicInfo frame.keyId entry.path
      let notified := emitAll calls cached (cached.notify info entry.path frame.payload)
      if notified.state = .synchronizing then enterReady calls notified else notified

/-- Frames of the other types lead to callbacks, if at all, by their last statements. -/
def handleFrame (client : Client) (frame : Frame) : Client :=
  match frame.frameType with
  | .authFail => handleAuthFail calls client frame
  | .serverKeyRegistration => handleServerKeyRegistration calls client frame
  | .serverSync => handleServerSync calls client
  | .serverValue => handleServerValue calls client frame
  | _ => emitAll calls (client.handleFrame frame).client (client.handleFrame frame).notices

end Handling

section Silent

/-- Callbacks none of which disconnects. -/
def silent (_ : Notice) : Bool := false

theorem emitAll_silent (client : Client) (notices : List Notice) :
    emitAll silent client notices = client := by
  induction notices with
  | nil => rfl
  | cons notice notices ih => exact ih

theorem notifyReady_silent (client : Client) :
    notifyReady silent client = { client with state := .ready, reconnectActive := false } := by
  obtain ⟨state, intentional, socket, registry, store, pending, cache, topics, active⟩ := client
  cases active <;> rfl

theorem enterReady_silent (client : Client) :
    enterReady silent client = client.enterReady.client := by
  rw [enterReady, notifyReady_silent, announce, Client.enterReady]
  dsimp only
  split <;> rfl

theorem applyPending_silent (client : Client) (frame : Frame) (path : StdString) :
    applyPending silent client frame path = (client.applyPending frame path).client := by
  rw [applyPending, Client.applyPending]
  cases client.pendingValues.lookup frame.keyId with
  | none => rfl
  | some pending =>
      dsimp only
      rw [emitAll_silent]

theorem handleServerKeyRegistration_silent (client : Client) (frame : Frame) :
    handleServerKeyRegistration silent client frame =
      (client.handleServerKeyRegistration frame).client := by
  rw [handleServerKeyRegistration, Client.handleServerKeyRegistration]
  dsimp only
  cases frame.payload with
  | string path =>
      dsimp only
      cases client.startSynchronizing.registry.registerOne frame.keyId path frame.dataType with
      | error e => rfl
      | ok registry => exact applyPending_silent _ _ _
  | _ => rfl

theorem handleServerSync_silent (client : Client) :
    handleServerSync silent client = client.handleServerSync.client := by
  rw [handleServerSync, Client.handleServerSync]
  dsimp only
  rcases eq_or_ne client.startSynchronizing.registry.byId ∅ with hempty | hne
  · rw [if_pos hempty, if_pos hempty]
    exact enterReady_silent _
  · rw [if_neg hne, if_neg hne]
    rfl

theorem handleServerValue_silent (client : Client) (frame : Frame) :
    handleServerValue silent client frame = (client.handleServerValue frame).client := by
  rw [handleServerValue, Client.handleServerValue]
  cases client.registry.getByKeyId frame.keyId with
  | none => rfl
  | some entry =>
      dsimp only
      rw [emitAll_silent, Client.storeValue]
      dsimp only
      split
      · exact enterReady_silent _
      · rfl

/-- Without calls from callbacks, frames are handled as before. -/
theorem handleFrame_silent (client : Client) (frame : Frame) :
    handleFrame silent client frame = (client.handleFrame frame).client := by
  rw [handleFrame]
  split
  · next htype => rw [Client.handleFrame, htype]; rfl
  · next htype =>
      rw [Client.handleFrame, htype]
      exact handleServerKeyRegistration_silent client frame
  · next htype =>
      rw [Client.handleFrame, htype]
      exact handleServerSync_silent client
  · next htype =>
      rw [Client.handleFrame, htype]
      exact handleServerValue_silent client frame
  · exact emitAll_silent _ _

end Silent

section Teardown

variable {calls : Notice → Bool} {client : Client}

/-- The connection has been given up. -/
structure Torn (client : Client) : Prop where
  socket : client.socket = none
  state : client.state = .disconnected

theorem torn_disconnect (client : Client) : Torn (disconnect client).client := ⟨rfl, rfl⟩

theorem emit_of_calls {notice : Notice} (h : calls notice) : Torn (emit calls client notice) := by
  rw [emit, if_pos h]
  exact torn_disconnect client

theorem torn_emit (h : Torn client) (notice : Notice) : Torn (emit calls client notice) := by
  rw [emit]
  split
  · exact torn_disconnect client
  · exact h

theorem torn_emitAll (h : Torn client) (notices : List Notice) :
    Torn (emitAll calls client notices) := by
  induction notices generalizing client with
  | nil => exact h
  | cons notice notices ih => exact ih (torn_emit h notice)

theorem emitAll_cases (calls : Notice → Bool) (client : Client) (notices : List Notice) :
    emitAll calls client notices = client ∨ Torn (emitAll calls client notices) := by
  induction notices generalizing client with
  | nil => exact Or.inl rfl
  | cons notice notices ih =>
      by_cases hcalls : calls notice
      · exact Or.inr (torn_emitAll (emit_of_calls hcalls) notices)
      · rw [emitAll, List.foldl_cons, emit, if_neg hcalls]
        exact ih client

/-- A callback of those that a client makes when it becomes ready disconnects it. -/
def Interrupts (calls : Notice → Bool) (client : Client) : Prop :=
  calls .onReady ∨ client.reconnectActive ∧ calls .onReconnect

theorem torn_announce (h : Torn client) : Torn (announce client) := by
  rw [announce]
  split
  · exact h
  · exact ⟨h.socket, h.state⟩

theorem torn_notifyReady (h : Interrupts calls client) : Torn (notifyReady calls client) := by
  rw [notifyReady]
  by_cases hready : calls .onReady
  · rw [emit, if_pos hready]
    exact torn_disconnect _
  · obtain ⟨hactive, hreconnect⟩ := h.resolve_left hready
    rw [emit, if_neg hready]
    dsimp only
    rw [if_pos hactive]
    exact emit_of_calls hreconnect

theorem notifyReady_of_not_interrupts (h : ¬ Interrupts calls client) :
    notifyReady calls client = notifyReady silent client := by
  obtain ⟨hready, hreconnect⟩ := not_or.mp h
  rw [notifyReady_silent, notifyReady, emit, if_neg hready]
  dsimp only
  split
  · next hactive => exact if_neg fun hcalls => hreconnect ⟨hactive, hcalls⟩
  · next hactive =>
      rw [Bool.not_eq_true] at hactive
      rw [← hactive]

theorem enterReady_cases :
    (Interrupts calls client ∧ Torn (enterReady calls client)) ∨
      (¬ Interrupts calls client ∧
        standing (enterReady calls client) = (standing client).enterReady) := by
  by_cases hinterrupts : Interrupts calls client
  · exact Or.inl ⟨hinterrupts, torn_announce (torn_notifyReady hinterrupts)⟩
  · refine Or.inr ⟨hinterrupts, ?_⟩
    rw [enterReady, notifyReady_of_not_interrupts hinterrupts, ← enterReady, enterReady_silent]
    exact standing_enterReady client

theorem torn_or_applyPending (frame : Frame) (path : StdString) :
    Torn (applyPending calls client frame path) ∨
      standing (applyPending calls client frame path) = standing client := by
  rw [applyPending]
  split
  · exact Or.inr rfl
  · next pending _ =>
      let cached := Client.getTopicInfo
        { client with store := client.store.insert frame.keyId pending.payload } frame.keyId path
      have hcached : standing cached.1 = standing client := standing_getTopicInfo _ _ _
      dsimp only
      rcases emitAll_cases calls cached.1
        (cached.1.notify cached.2 path pending.payload) with hkept | htorn
      · rw [hkept]
        exact Or.inr hcached
      · exact Or.inl ⟨htorn.socket, htorn.state⟩

/-- A frame is handled as without calls from callbacks, as far as the standing
goes, or the client is torn down. -/
theorem torn_or_handleFrame (calls : Notice → Bool) (client : Client) (frame : Frame) :
    Torn (handleFrame calls client frame) ∨
      standing (handleFrame calls client frame) =
        (standing client).apply client.registry frame := by
  rw [handleFrame]
  split
  · refine Or.inl ?_
    rw [handleAuthFail]
    exact torn_emit ⟨rfl, rfl⟩ _
  · next htype =>
      rw [Standing.apply, htype]
      dsimp only
      rw [← standing_startSynchronizing, handleServerKeyRegistration]
      split
      · split
        · exact Or.inr rfl
        · exact torn_or_applyPending frame _
      · exact Or.inr rfl
  · next htype =>
      rw [Standing.apply, htype]
      dsimp only
      rw [← standing_startSynchronizing, ← registry_startSynchronizing, handleServerSync]
      split
      · exact enterReady_cases.imp And.right And.right
      · exact Or.inr rfl
  · next htype =>
      rw [Standing.apply, htype]
      dsimp only
      rw [handleServerValue, KeyRegistry.getByKeyId, KeyRegistry.hasKeyId]
      cases client.registry.byId.lookup frame.keyId with
      | none => exact Or.inr rfl
      | some entry =>
          let cached := Client.getTopicInfo
            { client with store := client.store.insert frame.keyId frame.payload } frame.keyId
            entry.path
          have hcached : standing cached.1 = standing client := standing_getTopicInfo _ _ _
          have hstate : cached.1.state = client.state := congrArg Standing.state hcached
          simp only [Option.isSome_some, true_and]
          rcases emitAll_cases calls cached.1
            (cached.1.notify cached.2 entry.path frame.payload) with hkept | htorn
          · rw [hkept, show (standing client).state = cached.1.state from hstate.symm,
              ← hcached]
            split
            · exact enterReady_cases.imp And.right And.right
            · exact Or.inr rfl
          · rw [if_neg (by rw [htorn.state]; exact ClientState.noConfusion)]
            exact Or.inl htorn
  · rw [← standing_handleFrame]
    rcases emitAll_cases calls (client.handleFrame frame).client
      (client.handleFrame frame).notices with hkept | htorn
    · rw [hkept]
      exact Or.inr rfl
    · exact Or.inl htorn

end Teardown

end DanWs.CallbackCalls
