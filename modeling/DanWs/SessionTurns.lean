import DanWs.ByteReaders
import DanWs.ReceivedStores
import DanWs.ResyncAnswers
import DanWs.Servers
import DanWs.StockedStates

namespace DanWs.SessionTurns

open DanWs.Allocations
open DanWs.Clients
open DanWs.FiniteMaps
open DanWs.FlatStates
open DanWs.KeyPaths
open DanWs.KeyRequests
open DanWs.KeyStores
open DanWs.ReceivedFrames
open DanWs.Replicas
open DanWs.Replication
open DanWs.ResyncAnswers
open DanWs.Servers.Server
open DanWs.SessionAnswers
open DanWs.SessionCalls
open DanWs.SessionReplication
open DanWs.SessionRows
open DanWs.Sessions
open DanWs.StockedStates
open DanWs.TopicParsing
open DanWs.TopicSync
open DanWs.WireRows
open DanWs.WireTypes

/-- A call of the application, the `ServerSync` of `activateSession`, a frame that the
client has sent, or a heartbeat that is due. -/
inductive Turn where
  | call (call : Call)
  | sync
  | frame (frame : Frame)
  | heartbeat

/-- `tables` is what the client has announced of its topics. -/
structure Conversation where
  activation : Activation
  tables : ClientTables

def attend (session : Session) (tables : ClientTables) : Conversation :=
  ⟨activate session, tables⟩

def Sends (maxBufferSize : Nat) : Call → Prop
  | .set _ value | .topicSet _ _ value => Transmissible maxBufferSize value
  | .clearKey _ | .clear | .createTopicHandle _ _ _ | .removeTopicHandle _ | .topicClearKey _ _
  | .topicClear _ => True

instance (maxBufferSize : Nat) : (call : Call) → Decidable (Sends maxBufferSize call)
  | .set _ value | .topicSet _ _ value =>
      inferInstanceAs (Decidable (Transmissible maxBufferSize value))
  | .clearKey _ | .clear | .createTopicHandle _ _ _ | .removeTopicHandle _ | .topicClearKey _ _
  | .topicClear _ => inferInstanceAs (Decidable True)

section Turns

variable [HashOrder StdString] (conversation : Conversation)

/-- The topic frames of the client are kept from the session. -/
def takeFrame (frame : Frame) : Conversation × List Frame :=
  let session := conversation.activation.session
  if isTopicFrame frame then
    let (tables, outcome) := handleClientTopicFrame session conversation.tables frame
    (⟨{ conversation.activation with session := outcome.session }, tables⟩, outcome.frames)
  else
    let outcome := session.handleFrame none frame
    ({ conversation with
        activation := { conversation.activation with session := outcome.session } },
      outcome.frames)

def turn : Turn → Conversation
  | .call call => { conversation with activation := step conversation.activation call }
  | .frame frame => (takeFrame conversation frame).1
  | .sync | .heartbeat => conversation

def emitted : Turn → List Frame
  | .call call => emit conversation.activation call
  | .sync => [signalFrame .serverSync]
  | .frame frame => (takeFrame conversation frame).2
  | .heartbeat => []

end Turns

/-- Nothing is asked of what the client sends. -/
def Allowed [HashOrder StdString] (maxBufferSize : Nat) (conversation : Conversation) : Turn → Prop
  | .call call => Permitted conversation.activation call ∧ Sends maxBufferSize call
  | .sync | .frame _ | .heartbeat => True

instance [HashOrder StdString] (maxBufferSize : Nat) (conversation : Conversation) :
    (event : Turn) → Decidable (Allowed maxBufferSize conversation event)
  | .call call =>
      inferInstanceAs
        (Decidable (Permitted conversation.activation call ∧ Sends maxBufferSize call))
  | .sync | .frame _ | .heartbeat => inferInstanceAs (Decidable True)

section Stores

def AllStocked (maxBufferSize : Nat) (session : Session) : Prop :=
  ∀ source flat, storeOf session source = some flat → Stocked maxBufferSize flat

variable {maxBufferSize : Nat} {session : Session}

theorem allStocked_update {next : Session} {source : Option StdString} {flat : FlatState}
    (h : AllStocked maxBufferSize session) (hflat : Stocked maxBufferSize flat)
    (hnext : storeOf next = Function.update (storeOf session) source (some flat)) :
    AllStocked maxBufferSize next := by
  intro other found hfound
  rw [hnext, Function.update_apply] at hfound
  split at hfound
  · exact Option.some.inj hfound ▸ hflat
  · exact h other found hfound

theorem allStocked_bindSessionTX (htopics : session.topicHandles = ∅) :
    AllStocked maxBufferSize session.bindSessionTX :=
  fun _ _ hflat => stocked_of_empty (entries_bindSessionTX htopics hflat)

variable [HashOrder StdString]

theorem allStocked_change {target : Option Place} {next : Session} {frames : List Frame}
    (h : AllStocked maxBufferSize session) (hchange : Change session target next frames)
    (htarget : target = none) : AllStocked maxBufferSize next := by
  cases hchange with
  | set => cases htarget
  | clearKey source flat key hstore hnext hid =>
      exact allStocked_update h (stocked_clearKey (h source flat hstore)) hnext
  | resync hsub hid =>
      intro source flat hflat
      obtain ⟨old, hold, rfl | rfl⟩ := hsub source flat hflat
      · exact h source flat hold
      · exact stocked_of_empty rfl
  | silent hkeep hnew hid =>
      intro source flat hflat
      rcases hnew source flat hflat with hold | ⟨-, start, rfl⟩
      · exact h source flat hold
      · exact stocked_of_empty rfl

theorem allStocked_perform (h : AllStocked maxBufferSize session) (hbound : Bound session)
    {call : Call} (hname : NamesNewTopic session call) (hsends : Sends maxBufferSize call) :
    AllStocked maxBufferSize (perform session call).1 := by
  obtain ⟨-, hchange⟩ := change_perform hbound hname
  cases call with
  | set key value =>
      obtain ⟨flat, hflat⟩ := hbound.flat
      simp only [perform, Session.set, hflat]
      exact allStocked_update h (stocked_set (h none flat hflat) hsends)
        (storeOf_flatState session _ _)
  | topicSet name key value =>
      rw [perform, Session.topicSet]
      cases hhandle : session.topicHandles.lookup name with
      | none => exact h
      | some handle =>
          exact allStocked_update h (stocked_set (h _ _ (storeOf_of_lookup hhandle)) hsends)
            (storeOf_storeTopic session name handle _ _)
  | clearKey | clear | createTopicHandle | removeTopicHandle | topicClearKey | topicClear =>
      exact allStocked_change h hchange rfl

theorem sendable_of_mem_sessionWires (h : AllStocked maxBufferSize session) {flat : FlatState}
    (hflat : session.flatState = some flat) (hrows : Announceable (sessionRows session))
    {wire : StdString × Entry} (hwire : wire ∈ sessionWires session flat) :
    Sendable maxBufferSize wire := by
  have hvalid : checkKeyPath wire.1 = .ok () := by
    refine hrows.valid (wireRow wire.1 wire.2) ?_
    rw [← wireRows_sessionWires hflat]
    exact mem_wireRows.mpr ⟨wire, hwire, rfl⟩
  rcases List.mem_append.mp hwire with hwire | hwire
  · exact sendable_of_mem_wires (h none flat hflat) hwire hvalid
  · obtain ⟨handle, hhandle, hwire⟩ := List.mem_flatMap.mp hwire
    obtain ⟨name, hname⟩ := mem_handles.mp hhandle
    exact sendable_of_mem_wires (h _ _ (storeOf_of_lookup hname)) hwire hvalid

theorem carried_change (hroom : pathRoom ≤ maxBufferSize) {target : Option Place}
    {next : Session} {frames : List Frame} (h : AllStocked maxBufferSize next)
    (hbound : Bound next) (hrows : Announceable (sessionRows next))
    (hchange : Change session target next frames) :
    ∀ frame ∈ frames, Carried maxBufferSize frame := by
  cases hchange with
  | set source flat key value hstore hnext hid =>
      obtain ⟨hown, -, hunion⟩ := sessionRows_of_update hnext
      have hvalue := transmissible_of_stocked_set (h source _ hown)
      obtain ⟨entry, hentry⟩ := lookup_set flat session.nextKeyId key value
      have hvalid := hrows.valid _ (hunion ▸ Finset.mem_union_left _ (wireRow_mem_rows hentry))
      rw [wireRow, wirePath_set] at hvalid
      exact carried_set hroom hvalid hvalue
  | clearKey source flat key hstore hnext hid => exact carried_clearKey hroom flat key
  | resync hsub hid =>
      obtain ⟨flat, hflat⟩ := hbound.flat
      rw [triggerSessionResync_eq hflat]
      exact carried_announcement hroom fun wire hwire =>
        sendable_of_mem_sessionWires h hflat hrows hwire
  | silent => simp

end Stores

section Answers

theorem inSync_answer {keys : KeyStore} {rows : Finset WireRow} (h : InSync keys rows)
    (hkeyed : WellKeyed rows) {wire : StdString × Entry}
    (hrow : wireRow wire.1 wire.2 ∈ rows) (hvalid : checkKeyPath wire.1 = .ok ()) :
    InSync (keys.receive (answer wire)) rows := by
  have hsame : insert (wireRow wire.1 wire.2) rows = rows := Finset.insert_eq_of_mem hrow
  have hnamed := tracks_registration h hvalid (hsame.symm ▸ hkeyed) (Or.inl hrow)
  have hvalued := tracks_value hnamed (Finset.mem_insert_self _ rows) (hsame.symm ▸ hkeyed)
  rw [hsame] at hvalued
  exact hvalued

theorem carried_answer {maxBufferSize : Nat} (hroom : pathRoom ≤ maxBufferSize)
    {wire : StdString × Entry} (h : Sendable maxBufferSize wire) :
    ∀ frame ∈ answer wire, Carried maxBufferSize frame := by
  rw [answer, List.forall_mem_cons, List.forall_mem_cons, List.forall_mem_singleton]
  exact ⟨carried_registrationFrame hroom h.valid wire.2, carried_signalFrame hroom rfl,
    carried_valueFrame h.typed h.value⟩

variable [HashOrder StdString] {maxBufferSize : Nat} {session : Session}

/-- Without TX providers a session answers requests for keys and nothing else, and no
frame of the client changes more than its state. -/
theorem handleFrame_cases (htidy : Tidy session) {number : Nat → UInt32} {count : Nat}
    (hids : Allocated number count (placeId session)) {flat : FlatState}
    (hflat : session.flatState = some flat) (frame : Frame) :
    (∃ state, (session.handleFrame none frame).session = { session with state }) ∧
      ((session.handleFrame none frame).frames = [] ∨
        ∃ wire ∈ sessionWires session flat,
          (session.handleFrame none frame).frames = answer wire) := by
  rw [Session.handleFrame]
  split
  · split
    · exact ⟨⟨session.state, rfl⟩, Or.inl rfl⟩
    · dsimp only
      split
      · exact ⟨⟨.ready, rfl⟩, Or.inl rfl⟩
      · exact ⟨⟨session.state, rfl⟩, Or.inl rfl⟩
  · exact ⟨⟨session.state, rfl⟩, Or.inl rfl⟩
  · refine ⟨⟨session.state, rfl⟩, ?_⟩
    by_cases hlive : ∃ wire ∈ sessionWires session flat, wire.2.keyId = frame.keyId
    · obtain ⟨wire, hwire, hid⟩ := hlive
      exact Or.inr ⟨wire, hwire, hid ▸ handleKeyRequest_of_mem htidy hids hflat hwire⟩
    · refine Or.inl (handleKeyRequest_of_forall_ne htidy hflat fun wire hwire hid => ?_)
      exact hlive ⟨wire, hwire, hid⟩
  · exact ⟨⟨session.state, rfl⟩, Or.inl rfl⟩

end Answers

section Runs

/-- The client with the values as they were set follows the session. -/
structure Serves (maxBufferSize : Nat) (start : UInt32) (activation : Activation)
    (keys : KeyStore) : Prop extends Follows start activation keys where
  counter : activation.allocated < 2 ^ 32
  tidy : Tidy activation.session
  stocked : AllStocked maxBufferSize activation.session
  rows : Announceable (sessionRows activation.session)

theorem serves_activate (maxBufferSize : Nat) {session : Session}
    (htopics : session.topicHandles = ∅) :
    Serves maxBufferSize session.nextKeyId (activate session) (keyStore Client.new) := by
  refine ⟨follows_activate htopics, Nat.two_pow_pos 32, tidy_bindSessionTX htopics,
    allStocked_bindSessionTX htopics, ?_⟩
  rw [activate, sessionRows_bindSessionTX htopics]
  exact ⟨by simp, by simp [UniquePaths], by simp⟩

/-- The frames are ones that a client receives as part of a sync, and they get through. -/
def Conveyed (maxBufferSize : Nat) (frames : List Frame) : Prop :=
  ∀ frame ∈ frames, isSyncFrame frame ∧ Carried maxBufferSize frame

variable [HashOrder StdString] {maxBufferSize : Nat} {start : UInt32} {activation : Activation}
  {keys : KeyStore}

omit [HashOrder StdString] in
theorem serves_state (h : Serves maxBufferSize start activation keys) (state : SessionState) :
    Serves maxBufferSize start
      { activation with session := { activation.session with state } } keys :=
  ⟨⟨⟨⟨h.bound.flat, h.bound.topics⟩, h.next, h.ids⟩, h.inSync, h.limit⟩, h.counter,
    ⟨h.tidy.indexed, h.tidy.plain⟩, h.stocked, h.rows⟩

theorem serves_call (hroom : pathRoom ≤ maxBufferSize)
    (h : Serves maxBufferSize start activation keys) {call : Call}
    (hpermitted : Permitted activation call) (hsends : Sends maxBufferSize call) :
    Serves maxBufferSize start (step activation call) (keys.receive (emit activation call)) ∧
      Conveyed maxBufferSize (emit activation call) := by
  have hfollows := follows_step start activation keys call h.toFollows hpermitted
  obtain ⟨hbound, hchange⟩ := change_perform h.bound hpermitted.1.1
  have hstocked := allStocked_perform h.stocked h.bound hpermitted.1.1 hsends
  refine ⟨⟨hfollows, hpermitted.1.2, tidy_step h.toNumbered h.tidy hpermitted.1, hstocked,
    hpermitted.2⟩, ?_⟩
  intro frame hframe
  exact ⟨isSyncFrame_change hchange hbound frame hframe,
    carried_change hroom hstocked hbound hpermitted.2 hchange frame hframe⟩

theorem serves_sessionFrame (hroom : pathRoom ≤ maxBufferSize)
    (h : Serves maxBufferSize start activation keys) (frame : Frame) :
    let outcome := activation.session.handleFrame none frame
    Serves maxBufferSize start { activation with session := outcome.session }
        (keys.receive outcome.frames) ∧
      Conveyed maxBufferSize outcome.frames := by
  intro outcome
  obtain ⟨flat, hflat⟩ := h.bound.flat
  obtain ⟨⟨state, hsession⟩, hframes⟩ := handleFrame_cases h.tidy h.ids hflat frame
  rw [show outcome.session = { activation.session with state } from hsession]
  rcases hframes with hnil | ⟨wire, hwire, hanswer⟩
  · rw [show outcome.frames = [] from hnil]
    exact ⟨serves_state h state, by simp [Conveyed]⟩
  · rw [show outcome.frames = answer wire from hanswer]
    have hsendable := sendable_of_mem_sessionWires h.stocked hflat h.rows hwire
    have hrow : wireRow wire.1 wire.2 ∈ sessionRows activation.session := by
      rw [← wireRows_sessionWires hflat]
      exact mem_wireRows.mpr ⟨wire, hwire, rfl⟩
    have hkeyed : WellKeyed (sessionRows activation.session) :=
      ⟨h.rows.unique, uniqueIds_sessionRows h.ids⟩
    have hnext := serves_state h state
    refine ⟨{ hnext with
      inSync := inSync_answer h.inSync hkeyed hrow hsendable.valid
      limit := (maxKeys_receive _ _).trans h.limit }, fun sent hsent => ?_⟩
    exact ⟨isSyncFrame_answer wire sent hsent, carried_answer hroom hsendable sent hsent⟩

end Runs

section Topics

variable [HashOrder StdString] {maxBufferSize : Nat} {start : UInt32} {activation : Activation}
  {keys : KeyStore} {call : Call} {allocated : Nat} {outcome : SyncOutcome}

omit [HashOrder StdString] in
theorem announceable_subset {rows fewer : Finset WireRow} (h : Announceable rows)
    (hsubset : fewer ⊆ rows) : Announceable fewer where
  valid row hrow := h.valid row (hsubset hrow)
  unique row hrow other hother := h.unique row (hsubset hrow) other (hsubset hother)
  fits := (Finset.card_le_card hsubset).trans h.fits

theorem step_of_nextKeyId
    (hid : (perform activation.session call).1.nextKeyId = activation.session.nextKeyId) :
    step activation call = ⟨(perform activation.session call).1, activation.allocated⟩ := by
  rw [step, if_pos hid]

/-- A call that hands out no id and shows no new key is always permitted. -/
theorem permitted_of_subset (h : Serves maxBufferSize start activation keys)
    (hname : NamesNewTopic activation.session call)
    (hid : (perform activation.session call).1.nextKeyId = activation.session.nextKeyId)
    (hrows : sessionRows (perform activation.session call).1 ⊆ sessionRows activation.session) :
    Permitted activation call := by
  rw [Permitted, WithinCounter, step_of_nextKeyId hid]
  exact ⟨⟨hname, h.counter⟩, announceable_subset h.rows hrows⟩

omit [HashOrder StdString] in
theorem rows_of_storeOf {session next : Session}
    (h : ∀ source flat, storeOf next source = some flat →
      storeOf session source = some flat ∨ rows flat = ∅) :
    sessionRows next ⊆ sessionRows session := by
  intro row hrow
  obtain ⟨source, flat, hflat, hrow⟩ := mem_sessionRows.mp hrow
  rcases h source flat hflat with hold | hnone
  · exact mem_sessionRows.mpr ⟨source, flat, hold, hrow⟩
  · rw [hnone] at hrow
    cases hrow

theorem nextKeyId_removeTopicHandle (session : Session) (name : StdString) :
    (session.removeTopicHandle name).1.nextKeyId = session.nextKeyId := by
  rw [Session.removeTopicHandle]
  split <;> rfl

theorem permitted_removeTopicHandle (h : Serves maxBufferSize start activation keys)
    (name : StdString) : Permitted activation (.removeTopicHandle name) := by
  refine permitted_of_subset h trivial (nextKeyId_removeTopicHandle _ name)
    (rows_of_storeOf fun source flat hflat => Or.inl ?_)
  rw [perform, Session.removeTopicHandle] at hflat
  split at hflat
  · exact hflat
  · rw [storeOf_removeTopicHandle, Function.update_apply] at hflat
    split at hflat
    · cases hflat
    · exact hflat

theorem permitted_createTopicHandle (h : Serves maxBufferSize start activation keys)
    {name : StdString} (hnew : activation.session.topicHandles.lookup name = none)
    (params : FiniteMap StdString Payload) (wireIndex : Int) :
    Permitted activation (.createTopicHandle name params wireIndex) := by
  refine permitted_of_subset h hnew rfl (rows_of_storeOf fun source flat hflat => ?_)
  obtain ⟨start, hstore⟩ := storeOf_createTopicHandle activation.session name params wireIndex
  rw [perform, hstore, Function.update_apply] at hflat
  split at hflat
  · rw [← Option.some.inj hflat]
    exact Or.inr rfl
  · exact Or.inl hflat

/-- A topic sync so far. -/
structure Synced (maxBufferSize : Nat) (start : UInt32) (allocated : Nat) (keys : KeyStore)
    (outcome : SyncOutcome) : Prop where
  serves : Serves maxBufferSize start ⟨outcome.session, allocated⟩ (keys.receive outcome.frames)
  conveyed : Conveyed maxBufferSize outcome.frames

theorem synced_call (hroom : pathRoom ≤ maxBufferSize)
    (h : Synced maxBufferSize start allocated keys outcome)
    (hpermitted : Permitted ⟨outcome.session, allocated⟩ call) (hsends : Sends maxBufferSize call)
    (hid : (perform outcome.session call).1.nextKeyId = outcome.session.nextKeyId)
    {next : SyncOutcome} (hsession : next.session = (perform outcome.session call).1)
    (hframes : next.frames = outcome.frames ++ (perform outcome.session call).2) :
    Synced maxBufferSize start allocated keys next := by
  obtain ⟨hserves, hconveyed⟩ := serves_call hroom h.serves hpermitted hsends
  rw [step_of_nextKeyId hid, emit, ← KeyStore.receive_append] at hserves
  refine ⟨?_, hframes ▸ List.forall_mem_append.mpr ⟨h.conveyed, hconveyed⟩⟩
  rw [hsession, hframes]
  exact hserves

theorem synced_unsubscribeOne (hroom : pathRoom ≤ maxBufferSize)
    (h : Synced maxBufferSize start allocated keys outcome) (newTopics : TopicMap)
    (oldName : StdString) :
    Synced maxBufferSize start allocated keys (unsubscribeOne newTopics outcome oldName) := by
  rw [unsubscribeOne]
  split
  · exact synced_call hroom h (permitted_removeTopicHandle h.serves oldName) trivial
      (nextKeyId_removeTopicHandle _ oldName) rfl rfl
  · exact h

theorem synced_subscribeOne (hroom : pathRoom ≤ maxBufferSize)
    (h : Synced maxBufferSize start allocated keys outcome)
    (nameToIndex : FiniteMap StdString Int) (topic : StdString × FiniteMap StdString Payload) :
    Synced maxBufferSize start allocated keys (subscribeOne nameToIndex outcome topic) := by
  cases hheld : outcome.session.topicHandles.lookup topic.1 with
  | some handle =>
      rw [subscribeOne_of_held hheld]
      exact h
  | none =>
      rw [subscribeOne, Session.getTopicHandle, hheld]
      exact synced_call hroom h (permitted_createTopicHandle h.serves hheld topic.2 _) trivial rfl
        rfl (List.append_nil _).symm

/-- A topic sync is made of calls that are always permitted. -/
theorem synced_applyTopics (hroom : pathRoom ≤ maxBufferSize)
    (h : Serves maxBufferSize start activation keys) (parse : TopicParse) :
    Synced maxBufferSize start activation.allocated keys
      (applyTopics activation.session parse) := by
  exact applyTopics_induction ⟨h, by simp [Conveyed]⟩
    (fun outcome oldName houtcome => synced_unsubscribeOne hroom houtcome _ oldName)
    fun outcome topic houtcome => synced_subscribeOne hroom houtcome _ topic

theorem synced_topicFrame (hroom : pathRoom ≤ maxBufferSize)
    (h : Serves maxBufferSize start activation keys) (tables : ClientTables) (frame : Frame) :
    Synced maxBufferSize start activation.allocated keys
      (handleClientTopicFrame activation.session tables frame).2 := by
  have hbegin : Synced maxBufferSize start activation.allocated keys
      ⟨activation.session, [], [], []⟩ := ⟨h, by simp [Conveyed]⟩
  rw [handleClientTopicFrame, processTopicSync]
  split
  · cases tables.parse with
    | ok parse => exact synced_applyTopics hroom h parse
    | error fault => exact hbegin
  · exact hbegin

end Topics

section Turns

variable [HashOrder StdString] {maxBufferSize : Nat} {start : UInt32}
  {conversation : Conversation} {keys : KeyStore}

theorem serves_frame (hroom : pathRoom ≤ maxBufferSize)
    (h : Serves maxBufferSize start conversation.activation keys) (frame : Frame) :
    Serves maxBufferSize start (takeFrame conversation frame).1.activation
        (keys.receive (takeFrame conversation frame).2) ∧
      Conveyed maxBufferSize (takeFrame conversation frame).2 := by
  rw [takeFrame]
  dsimp only
  split
  · obtain ⟨hserves, hconveyed⟩ := synced_topicFrame hroom h conversation.tables frame
    exact ⟨hserves, hconveyed⟩
  · exact serves_sessionFrame hroom h frame

theorem serves_turn (hroom : pathRoom ≤ maxBufferSize)
    (h : Serves maxBufferSize start conversation.activation keys) (event : Turn)
    (hallowed : Allowed maxBufferSize conversation event) :
    Serves maxBufferSize start (turn conversation event).activation
        (keys.receive (emitted conversation event)) ∧
      Conveyed maxBufferSize (emitted conversation event) := by
  cases event with
  | call call => exact serves_call hroom h hallowed.1 hallowed.2
  | sync =>
      refine ⟨h, ?_⟩
      rw [emitted, Conveyed, List.forall_mem_singleton]
      exact ⟨rfl, carried_signalFrame hroom rfl⟩
  | frame frame => exact serves_frame hroom h frame
  | heartbeat => exact ⟨h, by simp [emitted, Conveyed]⟩

end Turns

end DanWs.SessionTurns
