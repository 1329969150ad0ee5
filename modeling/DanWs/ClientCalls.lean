import DanWs.ClientStanding
import DanWs.Replication
import DanWs.Servers
import DanWs.StepRuns

namespace DanWs.ClientCalls

open DanWs.Clients
open DanWs.ClientStanding
open DanWs.FiniteMaps
open DanWs.KeyPaths
open DanWs.KeyStores
open DanWs.Replication
open DanWs.Servers.Server
open DanWs.WireTypes

section Calls

variable (client : Client)

/-- The statements of `handleOpen` behind the start of the heartbeat, less the
callbacks of `onConnect_`. -/
def handleOpen (uuidBytes : List UInt8) : Handled :=
  let identifying := { client with state := .identifying }
  if client.topics.topicDirty ∧ client.topics.subscriptions ≠ ∅ then
    let (topics, frames) := client.topics.sendTopicSync client.isOpen
    ⟨{ identifying with topics }, identifyFrame uuidBytes :: frames, [], none⟩
  else ⟨identifying, [identifyFrame uuidBytes], [], none⟩

def authorize (token : StdString) : Handled :=
  if client.isOpen then ⟨{ client with state := .authorizing }, [authFrame token], [], none⟩
  else client.handled

def subscribe (topicName : StdString) (params : FiniteMap StdString Payload) : Handled :=
  let (topics, frames) := client.topics.subscribe client.isOpen topicName params
  ⟨{ client with topics }, frames, [], none⟩

def unsubscribe (topicName : StdString) : Handled :=
  let (topics, frames) := client.topics.unsubscribe client.isOpen topicName
  ⟨{ client with topics }, frames, [], none⟩

/-- `disconnect`, with what it does to `isActive()` of the reconnect engine. -/
def disconnect : Handled :=
  let stopped := { client with intentionalDisconnect := true, reconnectActive := false }
  ⟨{ stopped.cleanup with state := .disconnected }, [], [.onDisconnect], none⟩

end Calls

/-- What a client takes in on an open connection. -/
inductive Input where
  | frame (frame : Frame)
  | authorize (token : StdString)
  | subscribe (topicName : StdString) (params : FiniteMap StdString Payload)
  | unsubscribe (topicName : StdString)
  deriving DecidableEq

def take (client : Client) : Input → Handled
  | .frame frame => client.handleFrame frame
  | .authorize token => authorize client token
  | .subscribe topicName params => subscribe client topicName params
  | .unsubscribe topicName => unsubscribe client topicName

def afterInput (client : Client) (input : Input) : Client := (take client input).client

def sentFor (client : Client) (input : Input) : List Frame := (take client input).sent

/-- The calls touch neither the keys nor, unless they are `authorize`, the state. -/
def standingAfter (standing : Standing) (registry : KeyRegistry) : Input → Standing
  | .frame frame => standing.apply registry frame
  | .authorize _ =>
      if standing.socket = some true then { standing with state := .authorizing } else standing
  | .subscribe topicName params =>
      { standing with
        topics := (standing.topics.subscribe (standing.socket = some true) topicName params).1 }
  | .unsubscribe topicName =>
      { standing with
        topics := (standing.topics.unsubscribe (standing.socket = some true) topicName).1 }

theorem standing_afterInput (client : Client) (input : Input) :
    standing (afterInput client input) =
      standingAfter (standing client) client.registry input := by
  cases input with
  | frame frame => exact standing_handleFrame client frame
  | authorize token =>
      rw [afterInput, take, authorize, standingAfter, Client.isOpen,
        show (standing client).socket = client.socket from rfl]
      rcases eq_or_ne client.socket (some true) with hopen | hclosed
      · rw [if_pos (decide_eq_true hopen), if_pos hopen]
        rfl
      · rw [if_neg (by simpa using hclosed), if_neg hclosed]
        rfl
  | subscribe topicName params => rfl
  | unsubscribe topicName => rfl

theorem state_afterInput (client : Client) (input : Input) :
    (afterInput client input).state =
      (standingAfter (standing client) client.registry input).state :=
  congrArg Standing.state (standing_afterInput client input)

theorem keyStore_authorize (client : Client) (token : StdString) :
    keyStore (authorize client token).client = keyStore client := by
  rw [authorize]
  split <;> rfl

def hasType (frameType : FrameType) : Input → Bool
  | .frame frame => frame.frameType = frameType
  | _ => false

def makesReady (client : Client) : Input → Bool
  | .frame frame => (standing client).entersReady client.registry frame
  | _ => false

theorem reconnectActive_afterInput (client : Client) (input : Input) :
    (afterInput client input).reconnectActive =
      (client.reconnectActive && !makesReady client input) := by
  refine (congrArg Standing.reconnectActive (standing_afterInput client input)).trans ?_
  cases input with
  | frame frame => exact (Standing.flags_apply _ _ _).1
  | authorize token =>
      rw [standingAfter]
      split <;> exact (Bool.and_true _).symm
  | subscribe topicName params => exact (Bool.and_true _).symm
  | unsubscribe topicName => exact (Bool.and_true _).symm

theorem intentionalDisconnect_afterInput {client : Client} (input : Input)
    (h : client.intentionalDisconnect = true) :
    (afterInput client input).intentionalDisconnect = true := by
  refine (congrArg Standing.intentionalDisconnect (standing_afterInput client input)).trans ?_
  cases input with
  | frame frame => exact (Standing.flags_apply _ _ _).2 h
  | authorize token =>
      rw [standingAfter]
      split <;> exact h
  | subscribe topicName params => exact h
  | unsubscribe topicName => exact h

theorem socket_afterInput {client : Client} {input : Input}
    (h : hasType .authFail input = false) :
    (afterInput client input).socket = client.socket := by
  have hsocket := congrArg Standing.socket (standing_afterInput client input)
  refine Eq.trans hsocket ?_
  cases input with
  | frame frame =>
      rw [standingAfter, Standing.apply]
      split
      case h_3 htype => simp [hasType, htype] at h
      case h_4 =>
        rw [Standing.startSynchronizing]
        split <;> rfl
      case h_5 =>
        rw [Standing.startSynchronizing]
        split <;> split <;> rfl
      case h_6 => split <;> rfl
      all_goals rfl
  | authorize token =>
      rw [standingAfter]
      split <;> rfl
  | subscribe topicName params => rfl
  | unsubscribe topicName => rfl

theorem socket_afterInput_cases (client : Client) (input : Input) :
    (afterInput client input).socket = client.socket ∨
      (afterInput client input).socket = none := by
  cases hinput : hasType .authFail input with
  | false => exact Or.inl (socket_afterInput hinput)
  | true =>
      cases input with
      | frame frame =>
          have htype : frame.frameType = .authFail := by simpa [hasType] using hinput
          refine Or.inr ?_
          rw [afterInput, take, Client.handleFrame, htype]
          rfl
      | authorize token => cases hinput
      | subscribe topicName params => cases hinput
      | unsubscribe topicName => cases hinput

theorem hasKeyId_apply {keys : KeyStore} {frame : Frame} {keyId : UInt32}
    (hreset : frame.frameType ≠ .serverReset)
    (hdelete : frame.frameType = .serverKeyDelete → frame.keyId ≠ keyId)
    (h : keys.registry.hasKeyId keyId) : (keys.apply frame).registry.hasKeyId keyId := by
  rw [KeyStore.apply]
  split
  · rw [KeyStore.register]
    split
    · split
      · exact h
      · next path registry hregister =>
          rw [KeyStore.registry_applyPending]
          obtain ⟨_, _, hbyId, _, _⟩ := registerOne_ok hregister
          dsimp only
          rw [KeyRegistry.hasKeyId, hbyId, lookup_insert_eq_ite]
          split
          · rfl
          · exact h
    · exact h
  · rw [KeyStore.registry_storeValue]
    exact h
  · next hframe =>
      rw [KeyStore.delete, KeyRegistry.removeByKeyId]
      split
      · exact h
      · dsimp only
        rw [KeyRegistry.hasKeyId, lookup_erase_eq_ite, if_neg (Ne.symm (hdelete hframe))]
        exact h
  · next hframe => exact absurd hframe hreset
  · exact h

theorem hasKeyId_afterInput {client : Client} {input : Input} {keyId : UInt32}
    (hreset : hasType .serverReset input = false)
    (hdelete : ∀ frame, input = .frame frame → frame.frameType = .serverKeyDelete →
      frame.keyId ≠ keyId)
    (h : client.registry.hasKeyId keyId) : (afterInput client input).registry.hasKeyId keyId := by
  cases input with
  | frame frame =>
      by_cases hsync : isSyncFrame frame
      · have hkeys := keyStore_handleFrame client frame hsync
        have hregistry : (client.handleFrame frame).client.registry =
            ((keyStore client).apply frame).registry := congrArg KeyStore.registry hkeys
        rw [afterInput, take, hregistry]
        exact hasKeyId_apply (by simpa [hasType] using hreset) (hdelete frame rfl) h
      · rw [afterInput, take, registry_handleFrame client frame (by simpa using hsync)]
        exact h
  | authorize token =>
      have hkeys := congrArg KeyStore.registry (keyStore_authorize client token)
      rw [afterInput, take, show (authorize client token).client.registry = _ from hkeys]
      exact h
  | subscribe topicName params => exact h
  | unsubscribe topicName => exact h

end DanWs.ClientCalls
