import DanWs.ClientCalls
import DanWs.TopicAgreement

namespace DanWs.Resubscription

open DanWs.ClientCalls
open DanWs.Clients
open DanWs.ClientStanding
open DanWs.ClientTopics
open DanWs.StepRuns
open DanWs.TopicAgreement
open DanWs.TopicParsing
open DanWs.WireTypes

/-- The subscriptions, if there are any, have been announced in full. -/
def Announced (subscriptions : TopicMap) (sent : List Frame) : Prop :=
  subscriptions ≠ ∅ → syncFrames subscriptions <:+: sent

/-- A client that is ready has announced its subscriptions on this connection. -/
structure Announces (client : Client) (sent : List Frame) : Prop where
  socket : client.socket = some true
  ready : client.state = .ready → Announced client.topics.subscriptions sent

theorem Announced.append {subscriptions : TopicMap} {sent : List Frame}
    (h : Announced subscriptions sent) (later : List Frame) :
    Announced subscriptions (sent ++ later) := fun hne =>
  (h hne).trans (List.prefix_append sent later).isInfix

theorem announced_of_suffix {subscriptions : TopicMap} {sent : List Frame}
    (h : syncFrames subscriptions <:+ sent) (earlier : List Frame) :
    Announced subscriptions (earlier ++ sent) := fun _ =>
  (h.trans (List.suffix_append earlier sent)).isInfix

section Steps

variable {client : Client}

theorem sendTopicSync_open (topics : TopicClient) :
    (topics.sendTopicSync true).1.subscriptions = topics.subscriptions ∧
      (topics.sendTopicSync true).2 = syncFrames topics.subscriptions :=
  ⟨subscriptions_sendTopicSync topics, rfl⟩

theorem announced_open {before : Standing} (hopen : before.socket = some true) :
    before.enterReady.topics.subscriptions = before.topics.subscriptions ∧
      (before.topics.subscriptions ≠ ∅ →
        before.announced.2 = syncFrames before.topics.subscriptions) := by
  rw [Standing.enterReady, Standing.announced, hopen]
  dsimp only
  split
  · next hempty => exact ⟨rfl, fun hne => absurd hempty hne⟩
  · exact ⟨(sendTopicSync_open before.topics).1, fun _ => rfl⟩

theorem announces_frame {frame : Frame} {sent : List Frame} (h : Announces client sent)
    (hframe : hasType .authFail (.frame frame) = false) :
    Announces (afterInput client (.frame frame)) (sent ++ sentFor client (.frame frame)) := by
  refine ⟨(socket_afterInput hframe).trans h.socket, fun hready => ?_⟩
  rw [afterInput, take] at hready ⊢
  rw [sentFor, take]
  have hstanding := standing_handleFrame client frame
  by_cases henters : (standing client).entersReady client.registry frame
  · obtain ⟨before, earlier, happly, hsent, htopics, hsocket⟩ := enters_handleFrame henters
    obtain ⟨hkept, hannounced⟩ := announced_open (hsocket.trans h.socket)
    rw [show (client.handleFrame frame).client.topics = before.enterReady.topics from
      congrArg Standing.topics happly, hkept, hsent, ← List.append_assoc]
    intro hne
    rw [hannounced hne]
    exact announced_of_suffix (List.suffix_refl _) _ hne
  · obtain ⟨htopics, hstate⟩ := Standing.apply_of_not_entersReady henters
    refine Announced.append ?_ _
    rw [show (client.handleFrame frame).client.topics = client.topics from
      (congrArg Standing.topics hstanding).trans htopics]
    exact h.ready (hstate ((congrArg Standing.state hstanding).symm.trans hready))

theorem announces_calls {topics : TopicClient} {sent later : List Frame}
    (h : Announces client sent)
    (hlater : topics = client.topics ∨ later = syncFrames topics.subscriptions) :
    Announces { client with topics } (sent ++ later) := by
  refine ⟨h.socket, fun hready => ?_⟩
  rcases hlater with rfl | rfl
  · exact (h.ready hready).append later
  · exact announced_of_suffix (List.suffix_refl _) sent

theorem announces_input {input : Input} {sent : List Frame} (h : Announces client sent)
    (hinput : hasType .authFail input = false) :
    Announces (afterInput client input) (sent ++ sentFor client input) := by
  have hisOpen : client.isOpen = true := decide_eq_true h.socket
  cases input with
  | frame frame => exact announces_frame h hinput
  | authorize token =>
      rw [afterInput, sentFor, take, authorize, if_pos hisOpen]
      exact ⟨h.socket, fun hready => ClientState.noConfusion hready⟩
  | subscribe topicName params =>
      rw [afterInput, sentFor, take, subscribe, hisOpen]
      refine announces_calls h (Or.inr ?_)
      rw [TopicClient.subscribe, (sendTopicSync_open _).1]
      exact (sendTopicSync_open _).2
  | unsubscribe topicName =>
      rw [afterInput, sentFor, take, unsubscribe, hisOpen]
      refine announces_calls h ?_
      rw [TopicClient.unsubscribe]
      split
      · exact Or.inl rfl
      · rw [(sendTopicSync_open _).1]
        exact Or.inr (sendTopicSync_open _).2

theorem announces_run {inputs : List Input} {sent : List Frame} (h : Announces client sent)
    (hinputs : ∀ input ∈ inputs, hasType .authFail input = false) :
    Announces (run afterInput client inputs)
      (sent ++ outputs afterInput sentFor client inputs) := by
  induction inputs generalizing client sent with
  | nil => simpa [outputs] using h
  | cons input inputs ih =>
      rw [run_cons, outputs, ← List.append_assoc]
      exact ih (announces_input h (hinputs input List.mem_cons_self))
        fun other hother => hinputs other (List.mem_cons_of_mem input hother)

end Steps

section Reconnection

variable {client : Client} {before : List Input} {sync : Frame}

theorem announces_handleOpen (hopen : client.socket = some true) (uuidBytes : List UInt8) :
    Announces (handleOpen client uuidBytes).client (handleOpen client uuidBytes).sent := by
  rw [handleOpen]
  dsimp only
  split
  · exact ⟨hopen, fun hready => ClientState.noConfusion hready⟩
  · exact ⟨hopen, fun hready => ClientState.noConfusion hready⟩

/-- A `ServerSync` leads to `Ready` if no keys are left, or if it finds the client there. -/
theorem ready_sync_iff (found : Client) (hsync : sync.frameType = .serverSync) :
    (afterInput found (.frame sync)).state = .ready ↔
      found.registry.byId = ∅ ∨ found.state = .ready := by
  rw [state_afterInput, standingAfter, Standing.apply, hsync]
  dsimp only
  rcases eq_or_ne found.registry.byId ∅ with hempty | hne
  · simp [hempty, Standing.enterReady]
  · rw [if_neg hne, Standing.state_startSynchronizing,
      show (standing found).state = found.state from rfl]
    split
    · next hidentifying => simp [hne, hidentifying]
    · simp [hne]

/-- The first `ServerSync` of a connection makes the client ready, with its
subscriptions announced, if and only if it finds no keys of earlier connections or
a client that one of these keys has made ready. -/
theorem resubscribed_iff (hopen : client.socket = some true) (uuidBytes : List UInt8)
    (hbefore : ∀ input ∈ before, hasType .authFail input = false)
    (hsync : sync.frameType = .serverSync) :
    (run afterInput (handleOpen client uuidBytes).client (before ++ [.frame sync])).state = .ready ∧
        Announced (run afterInput (handleOpen client uuidBytes).client
            (before ++ [.frame sync])).topics.subscriptions
          ((handleOpen client uuidBytes).sent ++
            outputs afterInput sentFor (handleOpen client uuidBytes).client
              (before ++ [.frame sync])) ↔
      (run afterInput (handleOpen client uuidBytes).client before).registry.byId = ∅ ∨
        (run afterInput (handleOpen client uuidBytes).client before).state = .ready := by
  have hinputs : ∀ input ∈ before ++ [.frame sync], hasType .authFail input = false := by
    intro input hinput
    rcases List.mem_append.mp hinput with hinput | hinput
    · exact hbefore input hinput
    · obtain rfl := List.mem_singleton.mp hinput
      simp [hasType, hsync]
  have hannounces := announces_run (announces_handleOpen hopen uuidBytes) hinputs
  rw [and_iff_left_of_imp hannounces.ready, run_append]
  exact ready_sync_iff _ hsync

end Reconnection

section Example

/-- The client of an earlier connection, on which a key was announced. -/
def left : Client :=
  { (Client.new.receive [⟨.serverKeyRegistration, 1, .varInteger, .string (str "a")⟩]).1 with
    state := .connecting
    socket := some true
    topics := { TopicClient.new with
      subscriptions := Finmap.singleton (str "chat") ∅ } }

/-- The key that is left is deleted before the `ServerSync` comes. -/
theorem resubscribed_deleted :
    (run afterInput (handleOpen left (List.replicate 16 0)).client
          ([.frame ⟨.serverKeyDelete, 1, .null, .null⟩] ++
            [.frame (signalFrame .serverSync)])).state = .ready ∧
        Announced (run afterInput (handleOpen left (List.replicate 16 0)).client
            ([.frame ⟨.serverKeyDelete, 1, .null, .null⟩] ++
              [.frame (signalFrame .serverSync)])).topics.subscriptions
          ((handleOpen left (List.replicate 16 0)).sent ++
            outputs afterInput sentFor (handleOpen left (List.replicate 16 0)).client
              ([.frame ⟨.serverKeyDelete, 1, .null, .null⟩] ++
                [.frame (signalFrame .serverSync)])) :=
  (resubscribed_iff rfl _ (by decide) rfl).mpr (Or.inl (by decide +kernel))

/-- The key that is left keeps the client from becoming ready. -/
theorem not_resubscribed :
    ¬ ∀ (client : Client) (uuidBytes : List UInt8) (before : List Input) (sync : Frame),
      client.socket = some true →
      (∀ input ∈ before, hasType .authFail input = false ∧
        hasType .serverKeyRegistration input = false ∧ hasType .serverSync input = false) →
      sync.frameType = .serverSync →
      (run afterInput (handleOpen client uuidBytes).client
          (before ++ [.frame sync])).state = .ready ∧
        Announced (run afterInput (handleOpen client uuidBytes).client
            (before ++ [.frame sync])).topics.subscriptions
          ((handleOpen client uuidBytes).sent ++
            outputs afterInput sentFor (handleOpen client uuidBytes).client
              (before ++ [.frame sync])) := by
  intro h
  have hready := (h left (List.replicate 16 0) [] (signalFrame .serverSync) rfl (by simp) rfl).1
  exact absurd hready (by decide +kernel)

end Example

end DanWs.Resubscription
