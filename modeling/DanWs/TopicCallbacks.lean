import DanWs.CallbackSyncs

namespace DanWs.TopicCallbacks

open DanWs.CallbackSyncs
open DanWs.FiniteMaps
open DanWs.Sessions
open DanWs.TopicParsing
open DanWs.WireTypes

section Kept

variable {E : Type*}

/-- The topic has kept its object, and what it holds is related to what it held. -/
structure Keeps (related : TopicHandle → TopicHandle → Prop) (name : StdString)
    (world next : World E) : Prop where
  object : next.objects.lookup name = world.objects.lookup name
  handle : ∀ handle, world.session.topicHandles.lookup name = some handle →
    ∃ later, next.session.topicHandles.lookup name = some later ∧ related handle later

/-- Whatever a callback does to the topic is of the given kind. -/
def Respects (callbacks : List (Callback E)) (related : TopicHandle → TopicHandle → Prop)
    (name : StdString) : Prop :=
  ∀ callback ∈ callbacks, ∀ topicName world handle later,
    world.session.topicHandles.lookup name = some handle →
    (callback.run topicName world).session.topicHandles.lookup name = some later →
    related handle later

variable {related : TopicHandle → TopicHandle → Prop} {name : StdString}
  {callbacks : List (Callback E)}

theorem Keeps.refl (hrefl : ∀ handle, related handle handle) (world : World E) :
    Keeps related name world world :=
  ⟨rfl, fun handle hhandle => ⟨handle, hhandle, hrefl handle⟩⟩

theorem Keeps.trans
    (htrans : ∀ first second third, related first second → related second third →
      related first third)
    {first second third : World E} (h : Keeps related name first second)
    (h' : Keeps related name second third) : Keeps related name first third := by
  refine ⟨h'.object.trans h.object, fun handle hhandle => ?_⟩
  obtain ⟨later, hlater, hrelated⟩ := h.handle handle hhandle
  obtain ⟨last, hlast, hrelated'⟩ := h'.handle later hlater
  exact ⟨last, hlast, htrans _ _ _ hrelated hrelated'⟩

theorem Keeps.held {world next : World E} (h : Keeps related name world next)
    (hheld : name ∈ world.session.topicHandles.keys) :
    name ∈ next.session.topicHandles.keys := by
  obtain ⟨handle, hhandle⟩ := mem_keys_iff_lookup.mp hheld
  obtain ⟨later, hlater, -⟩ := h.handle handle hhandle
  exact mem_keys_iff_lookup.mpr ⟨later, hlater⟩

theorem Respects.keeps (h : Respects callbacks related name) {callback : Callback E}
    (hmem : callback ∈ callbacks) (topicName : StdString) (world : World E) :
    Keeps related name world (callback.run topicName world) := by
  have hsame := callback.keeps topicName world
  refine ⟨by rw [hsame.objects], fun handle hhandle => ?_⟩
  have hheld : name ∈ (callback.run topicName world).session.topicHandles.keys := by
    rw [hsame.keys]
    exact mem_keys_iff_lookup.mpr ⟨handle, hhandle⟩
  obtain ⟨later, hlater⟩ := mem_keys_iff_lookup.mp hheld
  exact ⟨later, hlater, h callback hmem topicName world handle later hhandle hlater⟩

section Preorder

variable (hrefl : ∀ handle, related handle handle)
  (htrans : ∀ first second third, related first second → related second third →
    related first third)

include hrefl htrans

theorem keeps_foldl {α : Type*} {round : Progress E → α → Progress E} {list : List α}
    (hround : ∀ a ∈ list, ∀ progress : Progress E,
      name ∈ progress.world.session.topicHandles.keys →
        Keeps related name progress.world (round progress a).world)
    (progress : Progress E) (hheld : name ∈ progress.world.session.topicHandles.keys) :
    Keeps related name progress.world (list.foldl round progress).world := by
  induction list generalizing progress with
  | nil => exact Keeps.refl hrefl progress.world
  | cons a list ih =>
      have hfirst := hround a List.mem_cons_self progress hheld
      refine hfirst.trans htrans (ih (fun other hother => ?_) _ (hfirst.held hheld))
      exact hround other (List.mem_cons_of_mem a hother)

theorem keeps_runCallbacks (h : Respects callbacks related name) (kind : CallbackKind)
    (topicName : StdString) (progress : Progress E)
    (hheld : name ∈ progress.world.session.topicHandles.keys) :
    Keeps related name progress.world (runCallbacks kind callbacks topicName progress).world := by
  refine keeps_foldl hrefl htrans (fun callback hcallback progress _ => ?_) progress hheld
  exact h.keeps (List.fst_mem_of_mem_zipIdx hcallback) topicName progress.world

theorem keeps_subscribeOne (h : Respects callbacks related name)
    (nameToIndex : FiniteMap StdString Int) (topic : StdString × FiniteMap StdString Payload)
    {progress : Progress E} (hheld : name ∈ progress.world.session.topicHandles.keys) :
    Keeps related name progress.world
      (subscribeOne callbacks nameToIndex progress topic).world := by
  by_cases htopic : topic.1 ∈ progress.world.session.topicHandles.keys
  · rw [subscribeOne_of_held htopic]
    exact Keeps.refl hrefl progress.world
  · obtain ⟨wireIndex, hnew⟩ := subscribeOne_of_new callbacks nameToIndex htopic
    have hne : name ≠ topic.1 := fun heq => htopic (heq ▸ hheld)
    have hcreated : Keeps related name progress.world
        (createTopicHandle progress.world topic.1 topic.2 wireIndex) := by
      refine ⟨(lookup_insert_eq_ite _ _ _ _).trans (if_neg hne), fun handle hhandle => ?_⟩
      refine ⟨handle, ?_, hrefl handle⟩
      exact ((lookup_insert_eq_ite _ _ _ _).trans (if_neg hne)).trans hhandle
    rw [hnew]
    exact hcreated.trans htrans
      (keeps_runCallbacks hrefl htrans h .subscribe topic.1 ⟨_, _⟩ (hcreated.held hheld))

variable [HashOrder StdString]

theorem keeps_unsubscribeOne (h : Respects callbacks related name) {newTopics : TopicMap}
    (hkept : name ∈ newTopics.keys) (oldName : StdString) {progress : Progress E}
    (hheld : name ∈ progress.world.session.topicHandles.keys) :
    Keeps related name progress.world
      (unsubscribeOne callbacks newTopics progress oldName).world := by
  by_cases hold : oldName ∈ newTopics.keys
  · rw [unsubscribeOne_of_kept hold]
    exact Keeps.refl hrefl progress.world
  · have hne : name ≠ oldName := fun heq => hold (heq ▸ hkept)
    have hremoved : ∀ world : World E,
        Keeps related name world (removeTopicHandle world oldName) := by
      refine fun world => ⟨(lookup_erase_eq_ite _ _ _).trans (if_neg hne), fun handle hhandle => ?_⟩
      exact ⟨handle, (lookup_removeTopicHandle _ _ _).trans ((if_neg hne).trans hhandle),
        hrefl handle⟩
    rw [Finmap.mem_keys, ← Finmap.lookup_eq_none] at hold
    rw [unsubscribeOne, if_pos hold]
    cases progress.world.session.getTopicHandle oldName with
    | none => exact hremoved progress.world
    | some handle =>
        have hcalled := keeps_runCallbacks hrefl htrans h .unsubscribe oldName progress hheld
        exact hcalled.trans htrans (hremoved _)

end Preorder

end Kept

section Results

variable {E : Type*} [HashOrder StdString]

/-- What a sync has done when it is through. -/
structure ExactDiff (topicNamespace : TopicNamespace E) (world : World E) (newTopics : TopicMap)
    (synced : Progress E) : Prop where
  topics : synced.world.session.topics =
    (IterationOrder.sorted StdString).enumerate newTopics.keys
  once : synced.runs.Nodup
  unsubscribed : ∀ number topicName, ⟨.unsubscribe, number, topicName⟩ ∈ synced.runs ↔
    number < topicNamespace.onUnsubscribeCbs.length ∧ topicName ∈ world.session.topics ∧
      topicName ∉ newTopics.keys
  subscribed : ∀ number topicName, ⟨.subscribe, number, topicName⟩ ∈ synced.runs ↔
    number < topicNamespace.onSubscribeCbs.length ∧ topicName ∉ world.session.topics ∧
      topicName ∈ newTopics.keys
  kept : ∀ topicName ∈ world.session.topics, topicName ∈ newTopics.keys →
    ∀ related : TopicHandle → TopicHandle → Prop, (∀ handle, related handle handle) →
      (∀ first second third, related first second → related second third →
        related first third) →
      Respects topicNamespace.onUnsubscribeCbs related topicName →
      Respects topicNamespace.onSubscribeCbs related topicName →
      Keeps related topicName world synced.world

omit [HashOrder StdString] in
theorem mem_topics {session : Session} {name : StdString} :
    name ∈ session.topics ↔ name ∈ session.topicHandles.keys :=
  IterationOrder.mem_enumerate _ _ _

variable (topicNamespace : TopicNamespace E) (world : World E) (parse : TopicParse)

/-- A sync holds the new topics, has run the callbacks of the topics that went, and
then those of the topics that came. -/
theorem applyTopics_spec :
    (applyTopics topicNamespace world parse).world.session.topicHandles.keys =
        parse.newTopics.keys ∧
      (applyTopics topicNamespace world parse).runs =
        (world.session.topics.filter (· ∉ parse.newTopics.keys)).flatMap
            (callbackRuns .unsubscribe topicNamespace.onUnsubscribeCbs.length) ++
          (((IterationOrder.sorted StdString).enumerate parse.newTopics.keys).filter
            (· ∉ world.session.topicHandles.keys)).flatMap
              (callbackRuns .subscribe topicNamespace.onSubscribeCbs.length) := by
  have hitems : ((IterationOrder.sorted StdString).items parse.newTopics).map Prod.fst =
      (IterationOrder.sorted StdString).enumerate parse.newTopics.keys :=
    IterationOrder.map_fst_items _ _
  obtain ⟨hleft, hremoved⟩ := unsubscribed_spec topicNamespace.onUnsubscribeCbs parse.newTopics
    (IterationOrder.nodup _ world.session.topicHandles.keys) ⟨world, []⟩ fun name => mem_topics.mp
  obtain ⟨hkeys, hruns⟩ := subscribed_spec topicNamespace.onSubscribeCbs parse.nameToIndex
    (IterationOrder.nodup_items_keys (IterationOrder.sorted StdString) parse.newTopics)
    (world.session.topics.foldl
      (unsubscribeOne topicNamespace.onUnsubscribeCbs parse.newTopics) ⟨world, []⟩)
  rw [Session.topics, hleft] at hkeys hruns
  rw [hremoved] at hruns
  rw [applyTopics, Session.topics, hkeys, hruns, hitems, List.nil_append]
  constructor
  · ext name
    rw [Finset.mem_union, Finset.mem_filter, List.mem_toFinset, IterationOrder.mem_enumerate,
      IterationOrder.mem_enumerate]
    exact or_iff_right_of_imp fun h => h.2 h.1
  · congr 2
    refine List.filter_congr fun name hname => ?_
    rw [IterationOrder.mem_enumerate] at hname
    rw [decide_eq_decide, Finset.mem_filter, and_iff_left fun _ => hname]

theorem exactDiff_applyTopics :
    ExactDiff topicNamespace world parse.newTopics (applyTopics topicNamespace world parse) := by
  obtain ⟨hkeys, hruns⟩ := applyTopics_spec topicNamespace world parse
  refine ⟨by rw [Session.topics, hkeys], ?_, fun number name => ?_, fun number name => ?_, ?_⟩
  · rw [hruns, List.nodup_append']
    refine ⟨nodup_flatMap_callbackRuns _ _ ((IterationOrder.nodup _ _).filter _),
      nodup_flatMap_callbackRuns _ _ ((IterationOrder.nodup _ _).filter _), ?_⟩
    intro callbackRun hfirst hsecond
    have hkind := (mem_flatMap_callbackRuns.mp hfirst).1
    rw [(mem_flatMap_callbackRuns.mp hsecond).1] at hkind
    cases hkind
  · rw [hruns, List.mem_append, mem_flatMap_callbackRuns, mem_flatMap_callbackRuns, List.mem_filter]
    simp
  · rw [hruns, List.mem_append, mem_flatMap_callbackRuns, mem_flatMap_callbackRuns, mem_topics]
    simp [IterationOrder.mem_enumerate, and_comm]
  · intro name hold hnew related hrefl htrans hunsubscribe hsubscribe
    have hleft : Keeps related name world (world.session.topics.foldl
        (unsubscribeOne topicNamespace.onUnsubscribeCbs parse.newTopics) ⟨world, []⟩).world :=
      keeps_foldl hrefl htrans
        (fun oldName _ _ => keeps_unsubscribeOne hrefl htrans hunsubscribe hnew oldName)
        ⟨world, []⟩ (mem_topics.mp hold)
    refine hleft.trans htrans (keeps_foldl hrefl htrans ?_ _ (hleft.held (mem_topics.mp hold)))
    exact fun topic _ progress =>
      keeps_subscribeOne hrefl htrans hsubscribe parse.nameToIndex topic

omit [HashOrder StdString] in
theorem foldl_eq_self {α β : Type*} {f : β → α → β} {list : List α} {b : β}
    (h : ∀ a ∈ list, f b a = b) : list.foldl f b = b := by
  induction list with
  | nil => rfl
  | cons a list ih =>
      rw [List.foldl_cons, h a List.mem_cons_self]
      exact ih fun other hother => h other (List.mem_cons_of_mem a hother)

/-- A sync that finds the topics it reads changes nothing. -/
theorem applyTopics_of_synced {world : World E}
    (h : world.session.topicHandles.keys = parse.newTopics.keys) :
    applyTopics topicNamespace world parse = ⟨world, []⟩ := by
  have hunsubscribe : ∀ oldName ∈ world.session.topics,
      unsubscribeOne topicNamespace.onUnsubscribeCbs parse.newTopics ⟨world, []⟩ oldName =
        ⟨world, []⟩ := by
    intro oldName hold
    exact unsubscribeOne_of_kept (h ▸ mem_topics.mp hold) ⟨world, []⟩
  have hsubscribe : ∀ topic ∈ (IterationOrder.sorted StdString).items parse.newTopics,
      subscribeOne topicNamespace.onSubscribeCbs parse.nameToIndex ⟨world, []⟩ topic =
        ⟨world, []⟩ := by
    intro topic htopic
    refine subscribeOne_of_held ?_
    rw [h]
    exact mem_keys_iff_lookup.mpr ⟨topic.2, (IterationOrder.mem_items _).mp htopic⟩
  rw [applyTopics, foldl_eq_self hunsubscribe, foldl_eq_self hsubscribe]

end Results

def counting : Callback ℕ :=
  ⟨fun _ world => { world with surroundings := world.surroundings + 1 },
    fun _ _ => ⟨rfl, rfl, rfl⟩⟩

def chatting : World ℕ :=
  ⟨0, (Session.new []).bindSessionTX.createTopicHandle (str "chat") ∅ 0,
    (∅ : FiniteMap StdString ℕ).insert (str "chat") 0, 1, []⟩

def boardTables : ClientTables :=
  (ClientTables.empty.receive
    ⟨.clientKeyRegistration, 1, .string, .string (str "topic.0.name")⟩).receive
    ⟨.clientValue, 1, .string, .string (str "board")⟩

end DanWs.TopicCallbacks
