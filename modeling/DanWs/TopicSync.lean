import DanWs.Sessions
import DanWs.TopicParsing

namespace DanWs.TopicSync

open DanWs.FiniteMaps
open DanWs.Sessions
open DanWs.TopicParsing
open DanWs.WireTypes

/-- The result of a topic sync: the session, the enqueued frames, and the topics
for which the unsubscribe and the subscribe callbacks ran. -/
structure SyncOutcome where
  session : Session
  frames : List Frame
  unsubscribed : List StdString
  subscribed : List StdString

def subscribeOne (nameToIndex : FiniteMap StdString Int) (outcome : SyncOutcome)
    (topic : StdString × FiniteMap StdString Payload) : SyncOutcome :=
  match outcome.session.getTopicHandle topic.1 with
  | some _ => outcome
  | none =>
      let clientIdx := (nameToIndex.lookup topic.1).getD outcome.session.topicIndex
      { outcome with
        session := outcome.session.createTopicHandle topic.1 topic.2 clientIdx
        subscribed := outcome.subscribed ++ [topic.1] }

theorem subscribeOne_of_held {nameToIndex : FiniteMap StdString Int} {outcome : SyncOutcome}
    {topic : StdString × FiniteMap StdString Payload} {handle : TopicHandle}
    (h : outcome.session.topicHandles.lookup topic.1 = some handle) :
    subscribeOne nameToIndex outcome topic = outcome := by
  simp only [subscribeOne, Session.getTopicHandle, h]

theorem topicHandles_subscribeOne {nameToIndex : FiniteMap StdString Int} {outcome : SyncOutcome}
    {topic : StdString × FiniteMap StdString Payload}
    (h : outcome.session.topicHandles.lookup topic.1 = none) :
    (subscribeOne nameToIndex outcome topic).session.topicHandles =
      (outcome.session.createTopicHandle topic.1 topic.2
        ((nameToIndex.lookup topic.1).getD outcome.session.topicIndex)).topicHandles := by
  simp only [subscribeOne, Session.getTopicHandle, h]

theorem lookup_subscribed {nameToIndex : FiniteMap StdString Int} {name : StdString} {index : Int}
    (hindex : nameToIndex.lookup name = some index) (hnonneg : 0 ≤ index)
    (topics : List (StdString × FiniteMap StdString Payload)) (outcome : SyncOutcome) :
    ((topics.foldl (subscribeOne nameToIndex) outcome).session.topicHandles.lookup name).map
        (fun handle => handle.payload.index) =
      ((outcome.session.topicHandles.lookup name).map fun handle => handle.payload.index).or
        (if name ∈ topics.map Prod.fst then some index else none) := by
  induction topics generalizing outcome with
  | nil => simp
  | cons topic topics ih =>
      rw [List.foldl_cons, ih, List.map_cons]
      cases htopic : outcome.session.topicHandles.lookup topic.1 with
      | some handle =>
          rw [subscribeOne_of_held htopic]
          rcases eq_or_ne name topic.1 with heq | heq
          · rw [heq, htopic]
            rfl
          · simp only [List.mem_cons, heq, false_or]
      | none =>
          rw [topicHandles_subscribeOne htopic, Session.createTopicHandle, lookup_insert_eq_ite]
          rcases eq_or_ne name topic.1 with rfl | heq
          · simp [htopic, hindex, hnonneg, TopicPayload.new]
          · simp only [List.mem_cons, heq, false_or, if_false]

theorem keys_subscribed (nameToIndex : FiniteMap StdString Int)
    (topics : List (StdString × FiniteMap StdString Payload)) (outcome : SyncOutcome) :
    (topics.foldl (subscribeOne nameToIndex) outcome).session.topicHandles.keys =
      outcome.session.topicHandles.keys ∪ (topics.map Prod.fst).toFinset := by
  induction topics generalizing outcome with
  | nil => simp
  | cons topic topics ih =>
      rw [List.foldl_cons, ih, List.map_cons, List.toFinset_cons]
      cases htopic : outcome.session.topicHandles.lookup topic.1 with
      | some handle =>
          have hmem : topic.1 ∈ outcome.session.topicHandles.keys :=
            mem_keys_iff_lookup.mpr ⟨handle, htopic⟩
          rw [subscribeOne_of_held htopic, Finset.union_insert,
            Finset.insert_eq_self.mpr (Finset.mem_union_left _ hmem)]
      | none =>
          rw [topicHandles_subscribeOne htopic, Session.createTopicHandle, keys_insert,
            Finset.union_insert, Finset.insert_union]

section Diff

variable [HashOrder StdString]

def unsubscribeOne (newTopics : TopicMap) (outcome : SyncOutcome) (oldName : StdString) :
    SyncOutcome :=
  if newTopics.lookup oldName = none then
    let (session, frames) := outcome.session.removeTopicHandle oldName
    { outcome with
      session
      frames := outcome.frames ++ frames
      unsubscribed :=
        if outcome.session.getTopicHandle oldName |>.isSome then outcome.unsubscribed ++ [oldName]
        else outcome.unsubscribed }
  else outcome

def applyTopics (session : Session) (parse : TopicParse) : SyncOutcome :=
  let unsubscribed := session.topics.foldl (unsubscribeOne parse.newTopics) ⟨session, [], [], []⟩
  ((IterationOrder.sorted StdString).items parse.newTopics).foldl
    (subscribeOne parse.nameToIndex) unsubscribed

/-- What the single steps of a topic sync keep holds behind it. -/
theorem applyTopics_induction {motive : SyncOutcome → Prop} {session : Session}
    {parse : TopicParse} (hbegin : motive ⟨session, [], [], []⟩)
    (hunsubscribe : ∀ outcome oldName, motive outcome →
      motive (unsubscribeOne parse.newTopics outcome oldName))
    (hsubscribe : ∀ outcome topic, motive outcome →
      motive (subscribeOne parse.nameToIndex outcome topic)) :
    motive (applyTopics session parse) := by
  have hunsubscribed := List.foldlRecOn session.topics (unsubscribeOne parse.newTopics) hbegin
    fun outcome houtcome oldName _ => hunsubscribe outcome oldName houtcome
  exact List.foldlRecOn _ (subscribeOne parse.nameToIndex) hunsubscribed
    fun outcome houtcome topic _ => hsubscribe outcome topic houtcome

/-- `processTopicSync`. The parse may throw, and does so before any change. -/
def processTopicSync (session : Session) (tables : ClientTables) : Result SyncOutcome :=
  tables.parse.map (applyTopics session)

/-- `handleClientTopicFrame`, with the exceptions dropped as the parser of the
connection drops them. -/
def handleClientTopicFrame (session : Session) (tables : ClientTables) (frame : Frame) :
    ClientTables × SyncOutcome :=
  if frame.frameType = .clientSync then
    match processTopicSync session tables with
    | .ok outcome => (tables, outcome)
    | .error _ => (tables, ⟨session, [], [], []⟩)
  else (tables.receive frame, ⟨session, [], [], []⟩)

theorem lookup_removeTopicHandle (session : Session) (oldName name : StdString) :
    (session.removeTopicHandle oldName).1.topicHandles.lookup name =
      if name = oldName then none else session.topicHandles.lookup name := by
  rw [Session.removeTopicHandle]
  split
  · next hlookup =>
      split
      · next heq => rw [heq, hlookup]
      · rfl
  · exact lookup_erase_eq_ite _ _ _

theorem lookup_unsubscribeOne (newTopics : TopicMap) (outcome : SyncOutcome)
    (oldName name : StdString) :
    (unsubscribeOne newTopics outcome oldName).session.topicHandles.lookup name =
      if name = oldName ∧ newTopics.lookup oldName = none then none
      else outcome.session.topicHandles.lookup name := by
  rw [unsubscribeOne]
  split
  · next hold =>
      simp only [hold, and_true]
      exact lookup_removeTopicHandle _ _ _
  · next hold => simp [hold]

theorem lookup_unsubscribed (newTopics : TopicMap) (names : List StdString)
    (outcome : SyncOutcome) (name : StdString) :
    (names.foldl (unsubscribeOne newTopics) outcome).session.topicHandles.lookup name =
      if name ∈ names ∧ newTopics.lookup name = none then none
      else outcome.session.topicHandles.lookup name := by
  induction names generalizing outcome with
  | nil => simp
  | cons oldName names ih =>
      rw [List.foldl_cons, ih, lookup_unsubscribeOne]
      rcases eq_or_ne name oldName with rfl | heq
      · rcases eq_or_ne (newTopics.lookup name) none with hnew | hnew <;> simp [hnew]
      · simp [heq]

/-- Behind a sync the session holds the topics that were read. -/
theorem keys_applyTopics (session : Session) (parse : TopicParse) :
    (applyTopics session parse).session.topicHandles.keys = parse.newTopics.keys := by
  have hitems : (((IterationOrder.sorted StdString).items parse.newTopics).map Prod.fst).toFinset =
      parse.newTopics.keys := by
    rw [IterationOrder.map_fst_items]
    ext topicName
    rw [List.mem_toFinset, IterationOrder.mem_enumerate]
  rw [applyTopics, keys_subscribed, hitems, Finset.union_eq_right]
  intro topicName hmem
  obtain ⟨handle, hhandle⟩ := mem_keys_iff_lookup.mp hmem
  rw [lookup_unsubscribed] at hhandle
  split at hhandle
  · cases hhandle
  · next hkept =>
      have hold : topicName ∈ session.topics :=
        (IterationOrder.mem_enumerate _ _ _).mpr (mem_keys_iff_lookup.mpr ⟨handle, hhandle⟩)
      rw [Finmap.mem_keys, ← Finmap.lookup_isSome]
      rw [not_and] at hkept
      exact Option.isSome_iff_ne_none.mpr (hkept hold)

end Diff

end DanWs.TopicSync
