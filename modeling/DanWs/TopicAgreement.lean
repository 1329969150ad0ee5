import DanWs.StepRuns
import DanWs.TopicSync
import DanWs.TopicSyncRoundTrip

namespace DanWs.TopicAgreement

open DanWs.ClientTopics
open DanWs.FiniteMaps
open DanWs.Sessions
open DanWs.StepRuns
open DanWs.TopicOrder
open DanWs.TopicParsing
open DanWs.TopicSync
open DanWs.TopicSyncRoundTrip
open DanWs.TopicTables
open DanWs.WireTypes

/-- A client and its session at the server. The last member records that a
`ClientSync` has been processed. -/
structure TopicConnection where
  client : TopicClient
  session : Session
  tables : ClientTables
  synced : Bool

inductive Call where
  | subscribe (topicName : StdString) (params : FiniteMap StdString Payload)
  | unsubscribe (topicName : StdString)

def opened (client : TopicClient) (clientUuid principal : StdString) : TopicConnection :=
  ⟨client, ((Session.new clientUuid).authorize principal).bindSessionTX, ClientTables.empty, false⟩

def callClient (client : TopicClient) : Call → TopicClient × List Frame
  | .subscribe topicName params => client.subscribe true topicName params
  | .unsubscribe topicName => client.unsubscribe true topicName

/-- The topics agree: every topic of the client has a handle at the server,
under the index that stands for this topic at the client, and no two handles
share an index. -/
structure Agrees (connection : TopicConnection) : Prop where
  distinct : ∀ topicName topicName' handle handle',
    connection.session.getTopicHandle topicName = some handle →
    connection.session.getTopicHandle topicName' = some handle' →
    handle.payload.index = handle'.payload.index → topicName = topicName'
  indexed : ∀ topicName ∈ connection.client.subscriptions.keys, ∃ handle,
    connection.session.getTopicHandle topicName = some handle ∧
      connection.client.topicIndexMap.lookup topicName = some handle.payload.index ∧
      connection.client.indexToTopic.lookup handle.payload.index = some topicName

/-- Subscriptions whose sync the server reads as they are meant. -/
structure WellFormed (subscriptions : TopicMap) : Prop where
  named : ∀ topicName ∈ subscriptions.keys, topicName ≠ []
  noForgedName : NoForgedName subscriptions
  fits : (topicEntries subscriptions).length ≤ 10000

/-- A call that leaves the topics of the server in their places: a new topic
comes behind all of them, and so does a topic that ends. -/
def KeepsNumbers (connection : TopicConnection) : Call → Prop
  | .subscribe topicName params =>
      WellFormed (connection.client.subscriptions.insert topicName params) ∧
        (topicName ∈ connection.client.subscriptions.keys ∨
          ∀ held ∈ connection.session.topicHandles.keys, held ≤ topicName)
  | .unsubscribe topicName =>
      topicName ∈ connection.client.subscriptions.keys →
        WellFormed (connection.client.subscriptions.erase topicName) ∧
          ∀ held ∈ connection.session.topicHandles.keys, held ≤ topicName

def rank (keys : Finset StdString) (topicName : StdString) : Nat :=
  (keys.filter fun other => ¬ topicName ≤ other).card

theorem eq_rank_of_mem_numberedTopics {subscriptions : TopicMap} {topicName : StdString}
    {params : FiniteMap StdString Payload} {index : Nat}
    (h : ((topicName, params), index) ∈ numberedTopics subscriptions) :
    index = rank subscriptions.keys topicName := by
  rw [numberedTopics, List.mk_mem_zipIdx_iff_le_and_getElem?_sub, Nat.sub_zero] at h
  apply IterationOrder.eq_card_of_getElem?_sorted
  rw [← IterationOrder.map_fst_items, List.getElem?_map, h.2]
  rfl

theorem rank_insert {keys : Finset StdString} {topicName held : StdString}
    (h : held ≤ topicName) : rank (insert topicName keys) held = rank keys held := by
  rw [rank, Finset.filter_insert, if_neg (not_not_intro h), rank]

theorem rank_erase {keys : Finset StdString} {topicName held : StdString}
    (h : held ≤ topicName) : rank (keys.erase topicName) held = rank keys held := by
  rw [rank, Finset.filter_erase, Finset.erase_eq_of_notMem, rank]
  rw [Finset.mem_filter]
  exact fun hmem => hmem.2 h

structure Aligned (subscriptions : TopicMap) (connection : TopicConnection) : Prop where
  topics : connection.session.topicHandles.keys = subscriptions.keys
  indexed : ∀ topicName params index,
    ((topicName, params), index) ∈ numberedTopics subscriptions →
    (connection.session.topicHandles.lookup topicName).map
        (fun handle => handle.payload.index) = some (index : Int) ∧
      connection.client.topicIndexMap.lookup topicName = some (index : Int) ∧
      connection.client.indexToTopic.lookup (index : Int) = some topicName

theorem Aligned.agrees {connection : TopicConnection}
    (h : Aligned connection.client.subscriptions connection) : Agrees connection := by
  have hindex : ∀ topicName handle, connection.session.getTopicHandle topicName = some handle →
      ∃ params index,
        ((topicName, params), index) ∈ numberedTopics connection.client.subscriptions ∧
          handle.payload.index = (index : Int) := by
    intro topicName handle hhandle
    have hmem : topicName ∈ connection.client.subscriptions.keys :=
      h.topics ▸ mem_keys_iff_lookup.mpr ⟨handle, hhandle⟩
    obtain ⟨params, hparams⟩ := mem_keys_iff_lookup.mp hmem
    obtain ⟨index, hnumbered⟩ := exists_mem_numberedTopics hparams
    have hmap := (h.indexed _ _ _ hnumbered).1
    rw [show connection.session.topicHandles.lookup topicName = some handle from hhandle] at hmap
    exact ⟨params, index, hnumbered, Option.some.inj hmap⟩
  constructor
  · intro topicName topicName' handle handle' hhandle hhandle' heq
    obtain ⟨params, index, hnumbered, hpayload⟩ := hindex _ _ hhandle
    obtain ⟨params', index', hnumbered', hpayload'⟩ := hindex _ _ hhandle'
    rw [hpayload, hpayload', Int.ofNat_inj] at heq
    subst heq
    exact numberedTopics_name_unique hnumbered hnumbered'
  · intro topicName hmem
    obtain ⟨handle, hhandle⟩ := mem_keys_iff_lookup.mp (h.topics ▸ hmem)
    obtain ⟨params, index, hnumbered, hpayload⟩ := hindex _ _ hhandle
    refine ⟨handle, hhandle, ?_⟩
    rw [hpayload]
    exact (h.indexed _ _ _ hnumbered).2

section Numbering

variable (client : TopicClient) (list : List ((StdString × FiniteMap StdString Payload) × Nat))

theorem foldl_number :
    (list.foldl (fun client ((topicName, _), index) => client.number topicName index) client) =
      { client with
        topicHandles := list.foldl (fun m a => m.insert a.1.1 (a.2 : Int)) client.topicHandles
        topicIndexMap := list.foldl (fun m a => m.insert a.1.1 (a.2 : Int)) client.topicIndexMap
        indexToTopic :=
          list.foldl (fun m a => m.insert (a.2 : Int) a.1.1) client.indexToTopic } := by
  induction list generalizing client with
  | nil => rfl
  | cons head list ih =>
      rw [List.foldl_cons, ih]
      rfl

theorem lookup_sendTopicSync {topicName : StdString} {params : FiniteMap StdString Payload}
    {index : Nat} (h : ((topicName, params), index) ∈ numberedTopics client.subscriptions) :
    (client.sendTopicSync true).1.topicIndexMap.lookup topicName = some (index : Int) ∧
      (client.sendTopicSync true).1.indexToTopic.lookup (index : Int) = some topicName := by
  rw [TopicClient.sendTopicSync, if_pos rfl]
  dsimp only
  rw [foldl_number]
  constructor
  · apply lookup_foldl_insert
    · rintro ⟨⟨topicName', params'⟩, index'⟩ hmem rfl
      rw [numberedTopics_index_unique hmem h]
    · exact Or.inr ⟨_, h, rfl⟩
  · apply lookup_foldl_insert
    · rintro ⟨⟨topicName', params'⟩, index'⟩ hmem heq
      obtain rfl := Int.ofNat_inj.mp heq
      exact numberedTopics_name_unique hmem h
    · exact Or.inr ⟨_, h, rfl⟩

theorem subscriptions_sendTopicSync :
    (client.sendTopicSync true).1.subscriptions = client.subscriptions := by
  rw [TopicClient.sendTopicSync, if_pos rfl]
  dsimp only
  rw [foldl_number]

end Numbering

section Run

variable [HashOrder StdString]

def deliver (connection : TopicConnection) (frame : Frame) : TopicConnection :=
  let (tables, outcome) :=
    handleClientTopicFrame connection.session connection.tables frame
  { connection with
    session := outcome.session
    tables
    synced := connection.synced || frame.frameType == .clientSync }

/-- A call, with all its frames processed by the server. -/
def step (connection : TopicConnection) (call : Call) : TopicConnection :=
  let (client, frames) := callClient connection.client call
  frames.foldl deliver { connection with client }

theorem deliver_of_ne {frame : Frame} (h : frame.frameType ≠ .clientSync)
    (connection : TopicConnection) :
    deliver connection frame =
      { connection with tables := connection.tables.receive frame } := by
  simp [deliver, handleClientTopicFrame, h]

theorem foldl_deliver_of_ne {frames : List Frame}
    (h : ∀ frame ∈ frames, frame.frameType ≠ .clientSync) (connection : TopicConnection) :
    frames.foldl deliver connection =
      { connection with tables := frames.foldl ClientTables.receive connection.tables } := by
  induction frames generalizing connection with
  | nil => rfl
  | cons frame frames ih =>
      rw [List.foldl_cons, deliver_of_ne (h frame List.mem_cons_self), ih fun other hother =>
        h other (List.mem_cons_of_mem _ hother)]
      rfl

theorem foldl_deliver_syncFrames (connection : TopicConnection) (subscriptions : TopicMap) :
    (syncFrames subscriptions).foldl deliver connection =
      deliver { connection with
          tables := ⟨some (registryOf (topicEntries subscriptions)),
            valuesOf (topicEntries subscriptions)⟩ }
        (signalFrame .clientSync) := by
  have hne : ∀ frame ∈ [signalFrame .clientReset] ++
      registrationFrames (topicEntries subscriptions) ++ valueFrames (topicEntries subscriptions),
      frame.frameType ≠ .clientSync := by
    intro frame hframe
    simp only [registrationFrames, valueFrames, List.mem_append, List.mem_singleton,
      List.mem_map] at hframe
    obtain (rfl | ⟨_, _, rfl⟩) | ⟨_, _, rfl⟩ := hframe
    · exact FrameType.noConfusion
    · exact FrameType.noConfusion
    · exact FrameType.noConfusion
  rw [syncFrames, List.foldl_append, foldl_deliver_of_ne hne, foldl_receive]
  rfl

theorem parse_of_wellFormed {subscriptions : TopicMap} (h : WellFormed subscriptions) :
    ∃ parse, (ClientTables.parse ⟨some (registryOf (topicEntries subscriptions)),
        valuesOf (topicEntries subscriptions)⟩) = .ok parse ∧
      parse.newTopics.keys = subscriptions.keys ∧
      ∀ topicName params index,
        ((topicName, params), index) ∈ numberedTopics subscriptions →
        parse.nameToIndex.lookup topicName = some (index : Int) := by
  obtain ⟨parse, hparse, hparsed⟩ := parsed_parse_syncFrames h.fits h.noForgedName
    ClientTables.empty
  rw [foldl_receive_syncFrames] at hparse
  refine ⟨parse, hparse, keys_newTopics h.fits h.noForgedName h.named hparsed, ?_⟩
  intro topicName params index hnumbered
  have hmem : topicName ∈ subscriptions.keys :=
    mem_keys_iff_lookup.mpr ⟨params, lookup_of_mem_numberedTopics hnumbered⟩
  have hname := (namesTopic_iff h.fits h.noForgedName).mpr
    ⟨h.named topicName hmem, params, index, hnumbered, rfl, rfl⟩
  have hlt := index_lt_length_topicEntries hnumbered
  have hfits := h.fits
  exact hparsed.indexOf _ ((listsPaths_paths _).mem_of_namesTopic hname) _ _ _ hname
    (TopicPaths.stoi_decimal (by omega))

/-- A sync keeps the index of every topic that the server holds, and takes the
number of the client for every other one. -/
theorem topicHandles_applyTopics (session : Session) {parse : TopicParse}
    {subscriptions : TopicMap} (hkeys : parse.newTopics.keys = subscriptions.keys)
    (hindices : ∀ topicName params index,
      ((topicName, params), index) ∈ numberedTopics subscriptions →
      parse.nameToIndex.lookup topicName = some (index : Int)) :
    (applyTopics session parse).session.topicHandles.keys = subscriptions.keys ∧
      ∀ topicName params index, ((topicName, params), index) ∈ numberedTopics subscriptions →
        ((applyTopics session parse).session.topicHandles.lookup topicName).map
            (fun handle => handle.payload.index) =
          ((session.topicHandles.lookup topicName).map fun handle => handle.payload.index).or
            (some (index : Int)) := by
  have hitems : ∀ topicName, topicName ∈ subscriptions.keys ↔
      topicName ∈ ((IterationOrder.sorted StdString).items parse.newTopics).map Prod.fst := by
    intro topicName
    rw [IterationOrder.map_fst_items, IterationOrder.mem_enumerate, hkeys]
  constructor
  · rw [keys_applyTopics, hkeys]
  · intro topicName params index hnumbered
    have hmem : topicName ∈ subscriptions.keys :=
      mem_keys_iff_lookup.mpr ⟨params, lookup_of_mem_numberedTopics hnumbered⟩
    have hnew : parse.newTopics.lookup topicName ≠ none := by
      rw [← hkeys, Finmap.mem_keys, ← Finmap.lookup_isSome] at hmem
      exact Option.isSome_iff_ne_none.mp hmem
    rw [applyTopics, lookup_subscribed (hindices _ _ _ hnumbered) (Int.natCast_nonneg index),
      lookup_unsubscribed, if_neg fun h => hnew h.2,
      if_pos ((hitems topicName).mp hmem)]

/-- What a run keeps: before the first sync the server holds no topic, and from
then on both sides number by name. -/
def Invariant (connection : TopicConnection) : Prop :=
  if connection.synced then Aligned connection.client.subscriptions connection
  else connection.session.topicHandles = ∅

theorem aligned_sync {connection : TopicConnection} (h : Invariant connection)
    (client : TopicClient) (hwell : WellFormed client.subscriptions)
    (hrank : ∀ held ∈ connection.session.topicHandles.keys, held ∈ client.subscriptions.keys →
      rank client.subscriptions.keys held =
        rank connection.client.subscriptions.keys held) :
    Invariant ((client.sendTopicSync true).2.foldl deliver
      { connection with client := (client.sendTopicSync true).1 }) := by
  have hframes : (client.sendTopicSync true).2 = syncFrames client.subscriptions := by
    rw [TopicClient.sendTopicSync, if_pos rfl]
  obtain ⟨parse, hparse, hkeys, hindices⟩ := parse_of_wellFormed hwell
  obtain ⟨htopics, hlookup⟩ := topicHandles_applyTopics connection.session hkeys
    hindices
  have hsynced : (client.sendTopicSync true).2.foldl deliver
      { connection with client := (client.sendTopicSync true).1 } =
      ⟨(client.sendTopicSync true).1, (applyTopics connection.session parse).session,
        ⟨some (registryOf (topicEntries client.subscriptions)),
          valuesOf (topicEntries client.subscriptions)⟩, true⟩ := by
    rw [hframes, foldl_deliver_syncFrames]
    simp [deliver, handleClientTopicFrame, processTopicSync, hparse, signalFrame, Except.map]
  rw [hsynced, Invariant, if_pos rfl]
  dsimp only
  rw [subscriptions_sendTopicSync]
  refine ⟨htopics, fun topicName params index hnumbered => ?_⟩
  refine ⟨?_, lookup_sendTopicSync client hnumbered⟩
  dsimp only
  rw [hlookup _ _ _ hnumbered]
  cases hheld : connection.session.topicHandles.lookup topicName with
  | none => rfl
  | some handle =>
      have hmem : topicName ∈ connection.session.topicHandles.keys :=
        mem_keys_iff_lookup.mpr ⟨handle, hheld⟩
      rw [Invariant] at h
      split at h
      · obtain ⟨params', hparams'⟩ := mem_keys_iff_lookup.mp (h.topics ▸ hmem)
        obtain ⟨index', hnumbered'⟩ := exists_mem_numberedTopics hparams'
        have hindex' := (h.indexed _ _ _ hnumbered').1
        rw [hheld] at hindex'
        have hnew : topicName ∈ client.subscriptions.keys :=
          mem_keys_iff_lookup.mpr ⟨params, lookup_of_mem_numberedTopics hnumbered⟩
        have heq := hrank topicName hmem hnew
        rw [← eq_rank_of_mem_numberedTopics hnumbered,
          ← eq_rank_of_mem_numberedTopics hnumbered'] at heq
        rw [hindex', heq]
        rfl
      · rw [h] at hheld
        cases hheld

theorem invariant_step (connection : TopicConnection) (call : Call) (h : Invariant connection)
    (hkeeps : KeepsNumbers connection call) : Invariant (step connection call) := by
  cases call with
  | subscribe topicName params =>
      obtain ⟨hwell, hplace⟩ := hkeeps
      refine aligned_sync h { connection.client with
        subscriptions := connection.client.subscriptions.insert topicName params } hwell ?_
      intro held hheld _
      dsimp only
      rw [keys_insert]
      rcases hplace with hmem | hlast
      · rw [Finset.insert_eq_self.mpr hmem]
      · exact rank_insert (hlast held hheld)
  | unsubscribe topicName =>
      cases hlookup : connection.client.subscriptions.lookup topicName with
      | none =>
          rw [step, callClient, TopicClient.unsubscribe, if_pos hlookup]
          exact h
      | some params =>
          obtain ⟨hwell, hlast⟩ := hkeeps (mem_keys_iff_lookup.mpr ⟨params, hlookup⟩)
          rw [step, callClient, TopicClient.unsubscribe, if_neg (by rw [hlookup]; simp)]
          refine aligned_sync h { connection.client with
            subscriptions := connection.client.subscriptions.erase topicName
            topicHandles := connection.client.topicHandles.erase topicName } hwell ?_
          intro held hheld _
          dsimp only
          rw [Finmap.keys_erase]
          exact rank_erase (hlast held hheld)

/-- In every run whose calls leave the topics of the server in their places,
client and server agree on the topic indices after every processed sync. -/
theorem agrees_run (client : TopicClient) (clientUuid principal : StdString) (calls : List Call)
    (hkeeps : StepsMeet step KeepsNumbers (opened client clientUuid principal) calls)
    (hsynced : (run step (opened client clientUuid principal) calls).synced = true) :
    Agrees (run step (opened client clientUuid principal) calls) := by
  have hopened : Invariant (opened client clientUuid principal) := rfl
  have h := invariant_run invariant_step hopened hkeeps
  rw [Invariant, if_pos hsynced] at h
  exact h.agrees

end Run

theorem wellFormed_of_no_params {subscriptions : TopicMap}
    (hnamed : ∀ topicName ∈ subscriptions.keys, topicName ≠ [])
    (hparams : ∀ topicName params, subscriptions.lookup topicName = some params → params = ∅)
    (hfits : (topicEntries subscriptions).length ≤ 10000) : WellFormed subscriptions := by
  refine ⟨hnamed, ?_, hfits⟩
  intro topicName params paramKey forged hlookup hvalue _
  rw [hparams topicName params hlookup, Finmap.lookup_empty] at hvalue
  cases hvalue

theorem not_agrees_of_ne {connection : TopicConnection} (topicName : StdString)
    (hmem : topicName ∈ connection.client.subscriptions.keys)
    (hne : (connection.session.getTopicHandle topicName).map (fun handle => handle.payload.index) ≠
      connection.client.topicIndexMap.lookup topicName) : ¬ Agrees connection := by
  intro h
  obtain ⟨handle, hhandle, hindex, _⟩ := h.indexed topicName hmem
  rw [hhandle, hindex] at hne
  exact hne rfl

theorem agrees_run_ab :
    let _ := HashOrder.ascending StdString
    Agrees (run step (opened TopicClient.new (str "u") (str "default"))
      [.subscribe (str "a") ∅, .subscribe (str "b") ∅]) := by
  intro _
  have hempty : ∀ (topicName : StdString) (topics : TopicMap),
      (∀ name params, topics.lookup name = some params → params = ∅) →
      ∀ name params, (topics.insert topicName ∅).lookup name = some params → params = ∅ := by
    intro topicName topics htopics name params hlookup
    rw [lookup_insert_eq_ite] at hlookup
    split at hlookup
    · exact (Option.some.inj hlookup).symm
    · exact htopics name params hlookup
  have hnone : ∀ name params, (∅ : TopicMap).lookup name = some params → params = ∅ := by
    intro name params hlookup
    cases hlookup
  refine agrees_run TopicClient.new (str "u") (str "default") _ ⟨?_, ?_, trivial⟩ (by decide)
  · exact ⟨wellFormed_of_no_params (by decide) (hempty _ _ hnone) (by decide), Or.inr (by decide)⟩
  · exact ⟨wellFormed_of_no_params (by decide) (hempty _ _ (hempty _ _ hnone)) (by decide),
      Or.inr (by decide)⟩

/-- A topic that comes before one the server holds takes its number. -/
theorem not_agrees_run :
    ¬ ∀ (_ : HashOrder StdString) (client : TopicClient) (clientUuid principal : StdString)
        (calls : List Call),
      (run step (opened client clientUuid principal) calls).synced = true →
      Agrees (run step (opened client clientUuid principal) calls) := by
  intro h
  have hagrees := h (HashOrder.ascending StdString) TopicClient.new (str "u") (str "default")
    [.subscribe (str "b") ∅, .subscribe (str "a") ∅] (by decide)
  exact not_agrees_of_ne (str "b") (by decide) (by decide) hagrees

end DanWs.TopicAgreement
