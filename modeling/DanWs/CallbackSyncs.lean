import DanWs.TopicSync

/-!
A topic sync with the callbacks of the server's users, which run between its
steps and may do anything but create or remove topic handles. Handles are kept
apart by the objects that they are.
-/

namespace DanWs.CallbackSyncs

open DanWs.FiniteMaps
open DanWs.Sessions
open DanWs.TopicParsing
open DanWs.WireTypes

/-- A session, with the object that stands behind each of its topic handles, and
whatever else the callbacks can reach. -/
structure World (E : Type*) where
  surroundings : E
  session : Session
  objects : FiniteMap StdString ℕ
  created : ℕ
  frames : List Frame

structure SameHandles {E : Type*} (world next : World E) : Prop where
  keys : next.session.topicHandles.keys = world.session.topicHandles.keys
  objects : next.objects = world.objects
  created : next.created = world.created

/-- A callback for a topic. Where it throws, it has done what it did before. -/
structure Callback (E : Type*) where
  run : StdString → World E → World E
  keeps : ∀ topicName world, SameHandles world (run topicName world)

/-- The member `topicNamespace_` of the server. -/
structure TopicNamespace (E : Type*) where
  onSubscribeCbs : List (Callback E)
  onUnsubscribeCbs : List (Callback E)

inductive CallbackKind where
  | subscribe
  | unsubscribe
  deriving DecidableEq

/-- The callback of this number was run for a topic. -/
structure CallbackRun where
  kind : CallbackKind
  number : ℕ
  topicName : StdString
  deriving DecidableEq

structure Progress (E : Type*) where
  world : World E
  runs : List CallbackRun

section Sync

variable {E : Type*}

def runCallback (kind : CallbackKind) (topicName : StdString) (progress : Progress E)
    (callback : Callback E × ℕ) : Progress E :=
  ⟨callback.1.run topicName progress.world,
    progress.runs ++ [⟨kind, callback.2, topicName⟩]⟩

def runCallbacks (kind : CallbackKind) (callbacks : List (Callback E)) (topicName : StdString)
    (progress : Progress E) : Progress E :=
  callbacks.zipIdx.foldl (runCallback kind topicName) progress

def createTopicHandle (world : World E) (name : StdString) (params : FiniteMap StdString Payload)
    (wireIndex : Int) : World E :=
  { world with
    session := world.session.createTopicHandle name params wireIndex
    objects := world.objects.insert name world.created
    created := world.created + 1 }

def subscribeOne (callbacks : List (Callback E)) (nameToIndex : FiniteMap StdString Int)
    (progress : Progress E) (topic : StdString × FiniteMap StdString Payload) : Progress E :=
  match progress.world.session.getTopicHandle topic.1 with
  | some _ => progress
  | none =>
      let clientIdx := (nameToIndex.lookup topic.1).getD progress.world.session.topicIndex
      runCallbacks .subscribe callbacks topic.1
        { progress with world := createTopicHandle progress.world topic.1 topic.2 clientIdx }

variable [HashOrder StdString]

def removeTopicHandle (world : World E) (name : StdString) : World E :=
  let (session, frames) := world.session.removeTopicHandle name
  { world with
    session
    objects := world.objects.erase name
    frames := world.frames ++ frames }

def unsubscribeOne (callbacks : List (Callback E)) (newTopics : TopicMap) (progress : Progress E)
    (oldName : StdString) : Progress E :=
  if newTopics.lookup oldName = none then
    let called := match progress.world.session.getTopicHandle oldName with
      | some _ => runCallbacks .unsubscribe callbacks oldName progress
      | none => progress
    { called with world := removeTopicHandle called.world oldName }
  else progress

def applyTopics (topicNamespace : TopicNamespace E) (world : World E) (parse : TopicParse) :
    Progress E :=
  let unsubscribed := world.session.topics.foldl
    (unsubscribeOne topicNamespace.onUnsubscribeCbs parse.newTopics) ⟨world, []⟩
  ((IterationOrder.sorted StdString).items parse.newTopics).foldl
    (subscribeOne topicNamespace.onSubscribeCbs parse.nameToIndex) unsubscribed

def processTopicSync (topicNamespace : TopicNamespace E) (world : World E) (tables : ClientTables) :
    Result (Progress E) :=
  tables.parse.map (applyTopics topicNamespace world)

end Sync

section Silent

variable {E : Type*} [HashOrder StdString]

/-- The sync has come as far as one without callbacks. -/
structure Follows (frames : List Frame) (progress : Progress E) (outcome : TopicSync.SyncOutcome) :
    Prop where
  session : progress.world.session = outcome.session
  frames : progress.world.frames = frames ++ outcome.frames

theorem follows_unsubscribeOne {frames : List Frame} {progress : Progress E}
    {outcome : TopicSync.SyncOutcome} (h : Follows frames progress outcome) (newTopics : TopicMap)
    (oldName : StdString) :
    Follows frames (unsubscribeOne [] newTopics progress oldName)
      (TopicSync.unsubscribeOne newTopics outcome oldName) := by
  have hcalled : (match progress.world.session.getTopicHandle oldName with
      | some _ => runCallbacks .unsubscribe [] oldName progress
      | none => progress) = progress := by
    split <;> rfl
  rw [unsubscribeOne, TopicSync.unsubscribeOne, hcalled]
  split
  · refine ⟨?_, ?_⟩
    · rw [← h.session]
      rfl
    · change progress.world.frames ++ _ = frames ++ (outcome.frames ++ _)
      rw [h.frames, h.session, List.append_assoc]
      rfl
  · exact h

omit [HashOrder StdString] in
theorem follows_subscribeOne {frames : List Frame} {progress : Progress E}
    {outcome : TopicSync.SyncOutcome} (h : Follows frames progress outcome)
    (nameToIndex : FiniteMap StdString Int) (topic : StdString × FiniteMap StdString Payload) :
    Follows frames (subscribeOne [] nameToIndex progress topic)
      (TopicSync.subscribeOne nameToIndex outcome topic) := by
  rw [subscribeOne, TopicSync.subscribeOne, h.session]
  cases outcome.session.getTopicHandle topic.1 with
  | some handle => exact h
  | none =>
      refine ⟨?_, h.frames⟩
      dsimp only
      rw [← h.session]
      rfl

/-- Without callbacks the sync is the one of the session alone. -/
theorem applyTopics_silent (world : World E) (parse : TopicParse) :
    Follows world.frames (applyTopics ⟨[], []⟩ world parse)
      (TopicSync.applyTopics world.session parse) := by
  have hstart : Follows world.frames (⟨world, []⟩ : Progress E) ⟨world.session, [], [], []⟩ :=
    ⟨rfl, (List.append_nil _).symm⟩
  refine List.foldl_rel (List.foldl_rel hstart ?_) ?_
  · exact fun oldName _ progress outcome h => follows_unsubscribeOne h parse.newTopics oldName
  · exact fun topic _ progress outcome h => follows_subscribeOne h parse.nameToIndex topic

end Silent

section Callbacks

variable {E : Type*} {kind : CallbackKind} {callbacks : List (Callback E)} {topicName : StdString}

theorem SameHandles.trans {first second third : World E} (h : SameHandles first second)
    (h' : SameHandles second third) : SameHandles first third :=
  ⟨h'.keys.trans h.keys, h'.objects.trans h.objects, h'.created.trans h.created⟩

/-- One run of each callback for a topic. -/
def callbackRuns (kind : CallbackKind) (count : ℕ) (topicName : StdString) : List CallbackRun :=
  (List.range count).map fun number => ⟨kind, number, topicName⟩

theorem mem_flatMap_callbackRuns {count : ℕ} {names : List StdString} {callbackRun : CallbackRun} :
    callbackRun ∈ names.flatMap (callbackRuns kind count) ↔
      callbackRun.kind = kind ∧ callbackRun.number < count ∧ callbackRun.topicName ∈ names := by
  simp only [List.mem_flatMap, callbackRuns, List.mem_map, List.mem_range]
  constructor
  · rintro ⟨name, hname, number, hnumber, rfl⟩
    exact ⟨rfl, hnumber, hname⟩
  · rintro ⟨rfl, hnumber, hname⟩
    exact ⟨callbackRun.topicName, hname, callbackRun.number, hnumber, rfl⟩

theorem nodup_flatMap_callbackRuns (kind : CallbackKind) (count : ℕ) {names : List StdString}
    (h : names.Nodup) : (names.flatMap (callbackRuns kind count)).Nodup := by
  rw [List.nodup_flatMap]
  refine ⟨fun name _ => List.nodup_range.map fun number other heq => ?_, h.imp fun hne => ?_⟩
  · exact (CallbackRun.mk.inj heq).2.1
  · intro callbackRun hfirst hsecond
    obtain ⟨number, -, rfl⟩ := List.mem_map.mp hfirst
    obtain ⟨other, -, heq⟩ := List.mem_map.mp hsecond
    exact hne (CallbackRun.mk.inj heq).2.2.symm

theorem runCallbacks_spec (kind : CallbackKind) (callbacks : List (Callback E))
    (topicName : StdString) (progress : Progress E) :
    SameHandles progress.world (runCallbacks kind callbacks topicName progress).world ∧
      (runCallbacks kind callbacks topicName progress).runs =
        progress.runs ++ callbackRuns kind callbacks.length topicName := by
  induction callbacks using List.reverseRecOn with
  | nil => exact ⟨⟨rfl, rfl, rfl⟩, (List.append_nil _).symm⟩
  | append_singleton callbacks callback ih =>
      obtain ⟨hsame, hruns⟩ := ih
      rw [runCallbacks, List.zipIdx_append, List.foldl_append]
      refine ⟨hsame.trans (callback.keeps topicName _), ?_⟩
      rw [List.length_append, List.length_singleton, callbackRuns, List.range_succ, List.map_append,
        ← List.append_assoc]
      change (runCallbacks kind callbacks topicName progress).runs ++ _ = _
      rw [hruns, Nat.zero_add]
      rfl

end Callbacks

section Diff

variable {E : Type*} {callbacks : List (Callback E)}

theorem subscribeOne_of_held {nameToIndex : FiniteMap StdString Int} {progress : Progress E}
    {topic : StdString × FiniteMap StdString Payload}
    (h : topic.1 ∈ progress.world.session.topicHandles.keys) :
    subscribeOne callbacks nameToIndex progress topic = progress := by
  obtain ⟨handle, hhandle⟩ := mem_keys_iff_lookup.mp h
  simp only [subscribeOne, Session.getTopicHandle, hhandle]

theorem subscribeOne_of_new (callbacks : List (Callback E))
    (nameToIndex : FiniteMap StdString Int) {progress : Progress E}
    {topic : StdString × FiniteMap StdString Payload}
    (h : topic.1 ∉ progress.world.session.topicHandles.keys) :
    ∃ wireIndex, subscribeOne callbacks nameToIndex progress topic =
      runCallbacks .subscribe callbacks topic.1
        { progress with world := createTopicHandle progress.world topic.1 topic.2 wireIndex } := by
  rw [Finmap.mem_keys, ← Finmap.lookup_eq_none] at h
  refine ⟨(nameToIndex.lookup topic.1).getD progress.world.session.topicIndex, ?_⟩
  simp only [subscribeOne, Session.getTopicHandle, h]

theorem keys_createTopicHandle (world : World E) (name : StdString)
    (params : FiniteMap StdString Payload) (wireIndex : Int) :
    (createTopicHandle world name params wireIndex).session.topicHandles.keys =
      insert name world.session.topicHandles.keys :=
  keys_insert _ _ _

theorem subscribed_spec (callbacks : List (Callback E)) (nameToIndex : FiniteMap StdString Int)
    {topics : List (StdString × FiniteMap StdString Payload)}
    (hnodup : (topics.map Prod.fst).Nodup) (progress : Progress E) :
    (topics.foldl (subscribeOne callbacks nameToIndex) progress).world.session.topicHandles.keys =
        progress.world.session.topicHandles.keys ∪ (topics.map Prod.fst).toFinset ∧
      (topics.foldl (subscribeOne callbacks nameToIndex) progress).runs =
        progress.runs ++ ((topics.map Prod.fst).filter
          (· ∉ progress.world.session.topicHandles.keys)).flatMap
            (callbackRuns .subscribe callbacks.length) := by
  induction topics generalizing progress with
  | nil => simp
  | cons topic topics ih =>
      rw [List.map_cons, List.nodup_cons] at hnodup
      rw [List.foldl_cons, List.map_cons, List.filter_cons, List.toFinset_cons]
      obtain ⟨hkeys, hruns⟩ := ih hnodup.2 (subscribeOne callbacks nameToIndex progress topic)
      rw [hkeys, hruns]
      by_cases hheld : topic.1 ∈ progress.world.session.topicHandles.keys
      · rw [subscribeOne_of_held hheld, if_neg (by simpa using hheld), Finset.union_insert,
          Finset.insert_eq_self.mpr (Finset.mem_union_left _ hheld)]
        exact ⟨rfl, rfl⟩
      · obtain ⟨wireIndex, hnew⟩ := subscribeOne_of_new callbacks nameToIndex hheld
        obtain ⟨hsame, hcalled⟩ := runCallbacks_spec .subscribe callbacks topic.1
          { progress with world := createTopicHandle progress.world topic.1 topic.2 wireIndex }
        rw [hnew, hsame.keys, hcalled, keys_createTopicHandle, if_pos (by simpa using hheld),
          List.flatMap_cons, List.append_assoc, Finset.union_insert, Finset.insert_union]
        refine ⟨rfl, ?_⟩
        congr 3
        refine List.filter_congr fun name hname => ?_
        rw [decide_eq_decide, Finset.mem_insert, not_or]
        exact and_iff_right fun heq => hnodup.1 (heq ▸ hname)

variable [HashOrder StdString]

theorem unsubscribeOne_of_kept {newTopics : TopicMap} {oldName : StdString}
    (h : oldName ∈ newTopics.keys) (progress : Progress E) :
    unsubscribeOne callbacks newTopics progress oldName = progress := by
  rw [Finmap.mem_keys, ← Finmap.lookup_isSome, Option.isSome_iff_ne_none] at h
  rw [unsubscribeOne, if_neg h]

theorem lookup_removeTopicHandle (world : World E) (oldName name : StdString) :
    (removeTopicHandle world oldName).session.topicHandles.lookup name =
      if name = oldName then none else world.session.topicHandles.lookup name :=
  TopicSync.lookup_removeTopicHandle world.session oldName name

theorem keys_removeTopicHandle (world : World E) (oldName : StdString) :
    (removeTopicHandle world oldName).session.topicHandles.keys =
      world.session.topicHandles.keys.erase oldName := by
  ext name
  rw [mem_keys_iff_lookup, lookup_removeTopicHandle, Finset.mem_erase, mem_keys_iff_lookup]
  split
  · next heq => exact iff_of_false (by rintro ⟨_, ⟨⟩⟩) fun h => h.1 heq
  · next hne => exact (and_iff_right hne).symm

theorem unsubscribeOne_of_removed (callbacks : List (Callback E)) {newTopics : TopicMap}
    {oldName : StdString} (h : oldName ∉ newTopics.keys) {progress : Progress E}
    (hheld : oldName ∈ progress.world.session.topicHandles.keys) :
    (unsubscribeOne callbacks newTopics progress oldName).world.session.topicHandles.keys =
        progress.world.session.topicHandles.keys.erase oldName ∧
      (unsubscribeOne callbacks newTopics progress oldName).runs =
        progress.runs ++ callbackRuns .unsubscribe callbacks.length oldName := by
  obtain ⟨hsame, hcalled⟩ := runCallbacks_spec .unsubscribe callbacks oldName progress
  obtain ⟨handle, hhandle⟩ := mem_keys_iff_lookup.mp hheld
  rw [Finmap.mem_keys, ← Finmap.lookup_eq_none] at h
  have hremoved : unsubscribeOne callbacks newTopics progress oldName =
      { runCallbacks .unsubscribe callbacks oldName progress with
        world := removeTopicHandle
          (runCallbacks .unsubscribe callbacks oldName progress).world oldName } := by
    simp only [unsubscribeOne, h, if_true, Session.getTopicHandle, hhandle]
  rw [hremoved]
  exact ⟨by rw [keys_removeTopicHandle, hsame.keys], hcalled⟩

theorem unsubscribed_spec (callbacks : List (Callback E)) (newTopics : TopicMap)
    {names : List StdString} (hnodup : names.Nodup) (progress : Progress E)
    (hheld : ∀ name ∈ names, name ∈ progress.world.session.topicHandles.keys) :
    (names.foldl (unsubscribeOne callbacks newTopics) progress).world.session.topicHandles.keys =
        progress.world.session.topicHandles.keys.filter
          (fun name => name ∈ names → name ∈ newTopics.keys) ∧
      (names.foldl (unsubscribeOne callbacks newTopics) progress).runs =
        progress.runs ++ (names.filter (· ∉ newTopics.keys)).flatMap
          (callbackRuns .unsubscribe callbacks.length) := by
  induction names generalizing progress with
  | nil => simp
  | cons oldName names ih =>
      rw [List.nodup_cons] at hnodup
      rw [List.forall_mem_cons] at hheld
      rw [List.foldl_cons, List.filter_cons]
      by_cases hkept : oldName ∈ newTopics.keys
      · obtain ⟨hkeys, hruns⟩ := ih hnodup.2 progress hheld.2
        rw [unsubscribeOne_of_kept hkept, hkeys, hruns, if_neg (by simpa using hkept)]
        refine ⟨Finset.filter_congr fun name _ => ?_, rfl⟩
        rw [List.mem_cons, or_imp]
        exact (and_iff_right fun heq => heq ▸ hkept).symm
      · obtain ⟨herased, hruns⟩ := unsubscribeOne_of_removed callbacks hkept hheld.1
        obtain ⟨hkeysRest, hrunsRest⟩ := ih hnodup.2
          (unsubscribeOne callbacks newTopics progress oldName) fun name hname => by
            rw [herased, Finset.mem_erase]
            exact ⟨fun heq => hnodup.1 (heq ▸ hname), hheld.2 name hname⟩
        rw [hkeysRest, hrunsRest, herased, hruns, if_pos (by simpa using hkept), List.flatMap_cons,
          List.append_assoc]
        refine ⟨?_, rfl⟩
        ext name
        simp only [Finset.mem_filter, Finset.mem_erase, List.mem_cons, or_imp]
        constructor
        · rintro ⟨⟨hne, hmem⟩, hrest⟩
          exact ⟨hmem, fun heq => absurd heq hne, hrest⟩
        · rintro ⟨hmem, hfirst, hrest⟩
          exact ⟨⟨fun heq => hkept (heq ▸ hfirst heq), hmem⟩, hrest⟩

end Diff

end DanWs.CallbackSyncs
