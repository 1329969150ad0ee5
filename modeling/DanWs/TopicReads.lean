import DanWs.SessionStreams
import DanWs.TopicAgreement

namespace DanWs.TopicReads

open DanWs.Allocations
open DanWs.ByteReaders
open DanWs.ClientReception (DanWebSocketClient)
open DanWs.Clients
open DanWs.ClientTopics
open DanWs.FanOut
open DanWs.FiniteMaps
open DanWs.FlatStates
open DanWs.KeyStores
open DanWs.ReceivedFrames
open DanWs.ReceivedStores
open DanWs.Replicas
open DanWs.Replication
open DanWs.SessionCalls
open DanWs.SessionRows
open DanWs.Sessions
open DanWs.SessionStreams
open DanWs.SessionTurns
open DanWs.StepRuns
open DanWs.TopicAgreement (foldl_number)
open DanWs.TopicParsing
open DanWs.TopicSync
open DanWs.TopicSyncRoundTrip
open DanWs.WireRows
open DanWs.WireTypes

/-- The registry and the store that a handle reads are those of its client. -/
structure TopicClientHandle where
  name : StdString
  index : Int
  deriving DecidableEq, Repr

def topicPrefix (index : Int) : StdString := str "t." ++ toText index ++ str "."

namespace TopicClientHandle

variable (handle : TopicClientHandle) (client : Client)

def storeGet (client : Client) (keyId : UInt32) : Payload := (client.store.lookup keyId).getD .null

def get (key : StdString) : Payload :=
  match client.registry.getByPath (topicPrefix handle.index ++ key) with
  | none => .null
  | some entry => storeGet client entry.keyId

def keys [HashOrder StdString] : List StdString :=
  client.registry.paths.filterMap fun path =>
    if topicPrefix handle.index <+: path then some (path.drop (topicPrefix handle.index).length)
    else none

end TopicClientHandle

/-- `DanWebSocketClient::topic`. A handle that is new has the index of the last sync, if the
topic was in it. -/
def topic (client : TopicClient) (name : StdString) : TopicClient × TopicClientHandle :=
  match client.topicHandles.lookup name with
  | some index => (client, ⟨name, index⟩)
  | none =>
      let index := (client.topicIndexMap.lookup name).getD (-1)
      ({ client with topicHandles := client.topicHandles.insert name index }, ⟨name, index⟩)

/-- A handle that is taken behind a sync has the number of its topic. -/
theorem topic_of_synced {client : TopicClient} {topicName : StdString}
    {params : FiniteMap StdString Payload} {index : Nat}
    (h : ((topicName, params), index) ∈ numberedTopics client.subscriptions) :
    (topic (client.sendTopicSync true).1 topicName).2 = ⟨topicName, index⟩ := by
  have hlookup : (client.sendTopicSync true).1.topicHandles.lookup topicName =
      some (index : Int) := by
    rw [TopicClient.sendTopicSync, if_pos rfl]
    dsimp only
    rw [foldl_number]
    apply lookup_foldl_insert
    · rintro ⟨⟨topicName', params'⟩, index'⟩ hmem rfl
      rw [numberedTopics_index_unique hmem h]
    · exact Or.inr ⟨_, h, rfl⟩
  rw [topic, hlookup]

section Handles

variable [HashOrder StdString] {handle : TopicClientHandle} {client : Client}

omit [HashOrder StdString] in
theorem get_eq (handle : TopicClientHandle) (client : Client) (key : StdString) :
    handle.get client key = client.get (topicPrefix handle.index ++ key) := rfl

theorem mem_keys_iff (key : StdString) :
    key ∈ handle.keys client ↔ topicPrefix handle.index ++ key ∈ client.keys := by
  rw [TopicClientHandle.keys, List.mem_filterMap]
  constructor
  · rintro ⟨path, hpath, hkey⟩
    split at hkey
    · next hprefix =>
        obtain ⟨rest, rfl⟩ := hprefix
        rw [List.drop_left, Option.some.injEq] at hkey
        exact hkey ▸ hpath
    · cases hkey
  · intro hpath
    exact ⟨_, hpath, by rw [if_pos (List.prefix_append _ _), List.drop_left]⟩

theorem nodup_keys (handle : TopicClientHandle) (client : Client) : (handle.keys client).Nodup := by
  refine (HashOrder.order.nodup client.registry.pathToId.keys).filterMap ?_
  intro path other key hpath hother
  rw [Option.mem_def] at hpath hother
  split at hpath
  · next hprefix =>
      split at hother
      · next hprefix' =>
          obtain ⟨rest, rfl⟩ := hprefix
          obtain ⟨rest', rfl⟩ := hprefix'
          rw [List.drop_left, Option.some.injEq] at hpath hother
          rw [hpath, hother]
      · cases hother
  · cases hpath

end Handles

section Prefixes

/-- The keys of a topic have the paths that its index gives them. -/
def Prefixed (session : Session) : Prop :=
  ∀ name handle, session.topicHandles.lookup name = some handle →
    handle.payload.flatState.wirePrefix = topicPrefix handle.payload.index

variable {session : Session} {name : StdString} {handle : TopicHandle}

theorem prefixed_storeTopic (h : Prefixed session)
    (hhandle : session.topicHandles.lookup name = some handle) {flat : FlatState}
    (hflat : flat.wirePrefix = handle.payload.flatState.wirePrefix) :
    Prefixed (session.storeTopic name handle flat) := by
  intro other found hfound
  obtain ⟨-, rfl⟩ | ⟨-, hfound⟩ := lookup_of_lookup_insert hfound
  · exact hflat.trans (h name handle hhandle)
  · exact h other found hfound

theorem prefixed_createTopicHandle (h : Prefixed session) (name : StdString)
    (params : FiniteMap StdString Payload) (wireIndex : Int) :
    Prefixed (session.createTopicHandle name params wireIndex) := by
  intro other found hfound
  obtain ⟨-, rfl⟩ | ⟨-, hfound⟩ := lookup_of_lookup_insert hfound
  · rfl
  · exact h other found hfound

variable [HashOrder StdString]

theorem prefixed_removeTopicHandle (h : Prefixed session) (name : StdString) :
    Prefixed (session.removeTopicHandle name).1 := by
  rw [Session.removeTopicHandle]
  split
  · exact h
  · exact fun other found hfound => h other found (lookup_of_lookup_erase hfound).2

theorem prefixed_perform (h : Prefixed session) (call : Call) :
    Prefixed (perform session call).1 := by
  cases call with
  | set key value =>
      rw [perform, Session.set]
      cases session.flatState <;> exact h
  | clearKey key =>
      rw [perform, Session.clearKey]
      cases session.flatState <;> exact h
  | clear =>
      rw [perform, Session.clear]
      cases session.flatState <;> exact h
  | createTopicHandle name params wireIndex =>
      exact prefixed_createTopicHandle h name params wireIndex
  | removeTopicHandle name => exact prefixed_removeTopicHandle h name
  | topicSet name key value =>
      rw [perform, Session.topicSet]
      cases hhandle : session.topicHandles.lookup name with
      | none => exact h
      | some handle =>
          exact prefixed_storeTopic h hhandle
            (FlatState.wirePrefix_set _ session.nextKeyId key value)
  | topicClearKey name key =>
      rw [perform, Session.topicClearKey]
      cases hhandle : session.topicHandles.lookup name with
      | none => exact h
      | some handle => exact prefixed_storeTopic h hhandle (FlatState.wirePrefix_clearKey _ key)
  | topicClear name =>
      rw [perform, Session.topicClear]
      cases hhandle : session.topicHandles.lookup name with
      | none => exact h
      | some handle => exact prefixed_storeTopic h hhandle (FlatState.wirePrefix_clear _)

theorem prefixed_applyTopics (h : Prefixed session) (parse : TopicParse) :
    Prefixed (applyTopics session parse).session := by
  refine applyTopics_induction (motive := fun outcome => Prefixed outcome.session) h
    (fun outcome oldName houtcome => ?_) fun outcome topic houtcome => ?_
  · rw [unsubscribeOne]
    split
    · exact prefixed_removeTopicHandle houtcome oldName
    · exact houtcome
  · rw [subscribeOne]
    split
    · exact houtcome
    · exact prefixed_createTopicHandle houtcome topic.1 topic.2 _

theorem prefixed_topicFrame (h : Prefixed session) (tables : ClientTables) (frame : Frame) :
    Prefixed (handleClientTopicFrame session tables frame).2.session := by
  rw [handleClientTopicFrame, processTopicSync]
  split
  · cases tables.parse with
    | ok parse => exact prefixed_applyTopics h parse
    | error fault => exact h
  · exact h

theorem prefixed_handleFrame (h : Prefixed session) (frame : Frame) :
    Prefixed (session.handleFrame none frame).session := by
  rw [Session.handleFrame]
  split
  · split
    · exact h
    · dsimp only
      split <;> exact h
  · exact h
  · exact h
  · exact h

theorem prefixed_turn (conversation : Conversation) (event : Turn)
    (h : Prefixed conversation.activation.session) :
    Prefixed (turn conversation event).activation.session := by
  cases event with
  | call call => exact prefixed_perform h call
  | sync => exact h
  | frame frame =>
      rw [turn, takeFrame]
      dsimp only
      split
      · exact prefixed_topicFrame h conversation.tables frame
      · exact prefixed_handleFrame h frame
  | heartbeat => exact h

theorem prefixed_run {session : Session} (htopics : session.topicHandles = ∅)
    (tables : ClientTables) (events : List Turn) :
    Prefixed (run turn (attend session tables) events).activation.session := by
  have hstart : Prefixed (attend session tables).activation.session := by
    intro name handle hhandle
    rw [show (attend session tables).activation.session.topicHandles = ∅ from htopics] at hhandle
    cases hhandle
  exact invariant_run (fun conversation event h _ => prefixed_turn conversation event h) hstart
    (stepsMeet_of_forall fun _ _ => trivial)

end Prefixes

/-- No other store of the session has a key with a path of the index. -/
def Alone (session : Session) (name : StdString) (index : Int) : Prop :=
  ∀ source flat key, source ≠ some name → storeOf session source = some flat →
    key ∈ flat.entries.keys → ¬ topicPrefix index <+: flat.wirePath key

section Reads

variable {session : Session} {name : StdString} {handle : TopicHandle}

theorem topicPrefix_ne_nil (index : Int) : topicPrefix index ≠ [] := by
  simp [topicPrefix, str]

theorem wirePath_of_prefixed (h : Prefixed session)
    (hhandle : session.topicHandles.lookup name = some handle) (key : StdString) :
    handle.payload.flatState.wirePath key = topicPrefix handle.payload.index ++ key := by
  have hstart := h name handle hhandle
  rw [FlatState.wirePath, if_neg (hstart ▸ topicPrefix_ne_nil _), hstart]

theorem mem_sessionRows_of_topic (h : Prefixed session)
    (hhandle : session.topicHandles.lookup name = some handle) {key : StdString} {entry : Entry}
    (hentry : handle.payload.flatState.entries.lookup key = some entry) :
    wireRow (topicPrefix handle.payload.index ++ key) entry ∈ sessionRows session := by
  rw [← wirePath_of_prefixed h hhandle]
  exact mem_sessionRows.mpr ⟨some name, handle.payload.flatState, storeOf_of_lookup hhandle,
    wireRow_mem_rows hentry⟩

theorem source_eq_of_path {number : ℕ → UInt32} {count : ℕ}
    (hids : Allocated number count (placeId session)) (hunique : UniquePaths (sessionRows session))
    {source other : Option StdString} {flat found : FlatState}
    (hflat : storeOf session source = some flat) (hfound : storeOf session other = some found)
    {row next : WireRow} (hrow : row ∈ rows flat) (hnext : next ∈ rows found)
    (hpath : row.path = next.path) : source = other := by
  have heq : row = next := hunique row (mem_sessionRows.mpr ⟨source, flat, hflat, hrow⟩) next
    (mem_sessionRows.mpr ⟨other, found, hfound, hnext⟩) hpath
  obtain ⟨key, -, hplace⟩ := placeId_of_row hflat hrow
  obtain ⟨key', -, hplace'⟩ := placeId_of_row hfound hnext
  rw [heq] at hplace
  exact (Prod.mk.inj (hids.unique _ _ _ hplace hplace')).1

variable [HashOrder StdString] {reading : TopicClientHandle} {client : Client}

theorem get_of_exactCopy (h : Prefixed session)
    (hcopy : ExactCopy client ((sessionRows session).image receivedRow))
    (hhandle : session.topicHandles.lookup name = some handle)
    (hindex : reading.index = handle.payload.index) {key : StdString}
    (hkey : key ∈ handle.payload.flatState.entries.keys) :
    reading.get client key = received (handle.payload.flatState.get key) := by
  obtain ⟨entry, hentry⟩ := mem_keys_iff_lookup.mp hkey
  have hrow := mem_sessionRows_of_topic h hhandle hentry
  rw [get_eq, hindex, FlatState.get, hentry]
  exact hcopy.get _ (Finset.mem_image_of_mem receivedRow hrow)

theorem mem_keys_iff_row (hcopy : ExactCopy client ((sessionRows session).image receivedRow))
    (key : StdString) :
    key ∈ reading.keys client ↔
      ∃ row ∈ sessionRows session, row.path = topicPrefix reading.index ++ key := by
  rw [mem_keys_iff, hcopy.keys]
  exact exists_mem_image_receivedRow fun row => Iff.rfl

/-- A handle lists the keys of its topic and no others exactly when no other store has a key
with such a path. -/
theorem keys_perm_iff {number : ℕ → UInt32} {count : ℕ} (h : Prefixed session)
    (hids : Allocated number count (placeId session)) (hunique : UniquePaths (sessionRows session))
    (hcopy : ExactCopy client ((sessionRows session).image receivedRow))
    (hhandle : session.topicHandles.lookup name = some handle)
    (hindex : reading.index = handle.payload.index) :
    (reading.keys client).Perm handle.payload.flatState.keys ↔
      Alone session name reading.index := by
  rw [FlatState.keys,
    List.perm_ext_iff_of_nodup (nodup_keys reading client) (HashOrder.order.nodup _)]
  have hown : ∀ key entry, handle.payload.flatState.entries.lookup key = some entry →
      wireRow (topicPrefix reading.index ++ key) entry ∈ rows handle.payload.flatState := by
    intro key entry hentry
    rw [hindex, ← wirePath_of_prefixed h hhandle]
    exact wireRow_mem_rows hentry
  constructor
  · rintro hkeys source flat key hsource hflat hkey ⟨rest, hrest⟩
    obtain ⟨entry, hentry⟩ := mem_keys_iff_lookup.mp hkey
    have hrow : wireRow (flat.wirePath key) entry ∈ rows flat := wireRow_mem_rows hentry
    have hread : rest ∈ reading.keys client := (mem_keys_iff_row hcopy rest).mpr
      ⟨_, mem_sessionRows.mpr ⟨source, flat, hflat, hrow⟩, hrest.symm⟩
    have hheld := (HashOrder.order.mem_enumerate _ _).mp ((hkeys rest).mp hread)
    obtain ⟨held, hheld⟩ := mem_keys_iff_lookup.mp hheld
    exact hsource (source_eq_of_path hids hunique hflat (storeOf_of_lookup hhandle) hrow
      (hown rest held hheld) hrest.symm)
  · intro halone key
    rw [mem_keys_iff_row hcopy, HashOrder.order.mem_enumerate]
    constructor
    · rintro ⟨row, hrow, hpath⟩
      obtain ⟨source, flat, hflat, hrow⟩ := mem_sessionRows.mp hrow
      obtain ⟨held, entry, hentry, rfl⟩ := (mem_rows flat).mp hrow
      have hheld : held ∈ flat.entries.keys := mem_keys_iff_lookup.mpr ⟨entry, hentry⟩
      by_cases hsource : source = some name
      · rw [hsource, storeOf_of_lookup hhandle] at hflat
        obtain rfl := Option.some.inj hflat
        rw [wireRow, wirePath_of_prefixed h hhandle, hindex] at hpath
        rwa [← List.append_cancel_left hpath]
      · exact absurd ⟨key, hpath.symm⟩ (halone source flat held hsource hflat hheld)
    · intro hkey
      obtain ⟨entry, hentry⟩ := mem_keys_iff_lookup.mp hkey
      exact ⟨_, mem_sessionRows_of_topic h hhandle hentry, by rw [hindex]; rfl⟩

end Reads

/-- A text of the session and one of a topic, whose handle at the other end has its index. -/
def boardReads : List (FanOut.Event Unit Turn) :=
  [.call .sync, .call (.frame (signalFrame .clientReset)),
    .call (.frame ⟨.clientKeyRegistration, 1, .string, .string (str "topic.0.name")⟩),
    .call (.frame ⟨.clientValue, 1, .string, .string (str "board")⟩),
    .call (.frame (signalFrame .clientSync)), .deliver () 5,
    .call (.call (.set (str "note") (.string (str "n")))),
    .call (.call (.topicSet (str "board") (str "x") (.string (str "v")))), .deliver () 9]

end DanWs.TopicReads
