import DanWs.TopicSync

namespace DanWs.CheckedTopicSyncs

open DanWs.FiniteMaps
open DanWs.Sessions
open DanWs.TopicParsing
open DanWs.TopicSync
open DanWs.WireTypes

section Creation

/-- `createTopicHandle` with its `int` arithmetic checked. -/
def checkedCreateTopicHandle (session : Session) (name : StdString)
    (params : FiniteMap StdString Payload) (wireIndex : Int) : Result Session := do
  let index := if 0 ≤ wireIndex then wireIndex else session.topicIndex
  let topicIndex ← if 0 ≤ wireIndex then .ok session.topicIndex
    else checkedInt (session.topicIndex + 1)
  let topicIndex ← if topicIndex ≤ index then checkedInt (index + 1) else .ok topicIndex
  return { session with
    topicIndex
    topicHandles := session.topicHandles.insert name
      ⟨name, params, TopicPayload.new index session.flatState.isSome⟩ }

def checkedSubscribeOne (nameToIndex : FiniteMap StdString Int) (outcome : SyncOutcome)
    (topic : StdString × FiniteMap StdString Payload) : Result SyncOutcome :=
  match outcome.session.getTopicHandle topic.1 with
  | some _ => .ok outcome
  | none => do
      let clientIdx := (nameToIndex.lookup topic.1).getD outcome.session.topicIndex
      let session ← checkedCreateTopicHandle outcome.session topic.1 topic.2 clientIdx
      return { outcome with session, subscribed := outcome.subscribed ++ [topic.1] }

/-- `processTopicSync` with the `int` arithmetic of the index counter checked. -/
def checkedProcessTopicSync [HashOrder StdString] (session : Session) (tables : ClientTables) :
    Result SyncOutcome := do
  let parse ← tables.parse
  let unsubscribed := session.topics.foldl (unsubscribeOne parse.newTopics) ⟨session, [], [], []⟩
  ((IterationOrder.sorted StdString).items parse.newTopics).foldlM
    (checkedSubscribeOne parse.nameToIndex) unsubscribed

theorem checkedCreateTopicHandle_eq {session : Session} {wireIndex : Int} (hnonneg : 0 ≤ wireIndex)
    (hhigh : wireIndex < 2 ^ 31) (htop : session.topicIndex < 2 ^ 31) (name : StdString)
    (params : FiniteMap StdString Payload) :
    checkedCreateTopicHandle session name params wireIndex =
      if wireIndex = 2 ^ 31 - 1 then .error .undefinedBehaviour
      else .ok (session.createTopicHandle name params wireIndex) := by
  rw [checkedCreateTopicHandle, Session.createTopicHandle, if_pos hnonneg, if_pos hnonneg, ok_bind]
  dsimp only
  rw [if_pos hnonneg]
  by_cases hmax : wireIndex = 2 ^ 31 - 1
  · rw [if_pos hmax, if_pos (by omega), checkedInt, if_neg (by omega)]
    rfl
  · rw [if_neg hmax]
    split
    · rw [checkedInt_eq_ok (by omega) (by omega)]
      rfl
    · rfl

theorem topicIndex_createTopicHandle {session : Session} {wireIndex : Int}
    (hnonneg : 0 ≤ wireIndex) (hhigh : wireIndex < 2 ^ 31 - 1) (htop : session.topicIndex < 2 ^ 31)
    (name : StdString) (params : FiniteMap StdString Payload) :
    (session.createTopicHandle name params wireIndex).topicIndex < 2 ^ 31 := by
  rw [Session.createTopicHandle, if_pos hnonneg, if_pos hnonneg]
  dsimp only
  split <;> omega

variable {nameToIndex : FiniteMap StdString Int} {outcome : SyncOutcome}
  {topics : List (StdString × FiniteMap StdString Payload)}

def Overflows (nameToIndex : FiniteMap StdString Int) (session : Session) (name : StdString) :
    Prop :=
  session.getTopicHandle name = none ∧ nameToIndex.lookup name = some (2 ^ 31 - 1)

theorem checkedSubscribeOne_eq {topic : StdString × FiniteMap StdString Payload} {index : Int}
    (hindex : nameToIndex.lookup topic.1 = some index) (hnonneg : 0 ≤ index)
    (hhigh : index < 2 ^ 31) (htop : outcome.session.topicIndex < 2 ^ 31) :
    (Overflows nameToIndex outcome.session topic.1 ∧
      checkedSubscribeOne nameToIndex outcome topic = .error .undefinedBehaviour) ∨
    (¬ Overflows nameToIndex outcome.session topic.1 ∧
      checkedSubscribeOne nameToIndex outcome topic = .ok (subscribeOne nameToIndex outcome topic) ∧
      (subscribeOne nameToIndex outcome topic).session.topicIndex < 2 ^ 31) := by
  rw [Overflows, checkedSubscribeOne, subscribeOne, hindex]
  cases outcome.session.getTopicHandle topic.1 with
  | some handle => exact Or.inr ⟨fun h => Option.some_ne_none _ h.1, rfl, htop⟩
  | none =>
      dsimp only
      rw [Option.getD_some, checkedCreateTopicHandle_eq hnonneg hhigh htop, Option.some.injEq,
        and_iff_right rfl]
      by_cases hmax : index = 2 ^ 31 - 1
      · rw [if_pos hmax]
        exact Or.inl ⟨hmax, rfl⟩
      · rw [if_neg hmax]
        refine Or.inr ⟨hmax, rfl, ?_⟩
        exact topicIndex_createTopicHandle hnonneg (by omega) htop topic.1 topic.2

theorem getTopicHandle_subscribeOne {topic : StdString × FiniteMap StdString Payload}
    {name : StdString} (h : name ≠ topic.1) :
    (subscribeOne nameToIndex outcome topic).session.getTopicHandle name =
      outcome.session.getTopicHandle name := by
  rw [subscribeOne]
  split
  · rfl
  · exact (lookup_insert_eq_ite _ _ _ _).trans (if_neg h)

theorem foldlM_checkedSubscribeOne
    (hindex : ∀ name ∈ topics.map Prod.fst, ∃ index, nameToIndex.lookup name = some index ∧
      0 ≤ index ∧ index < 2 ^ 31)
    (hnodup : (topics.map Prod.fst).Nodup) (htop : outcome.session.topicIndex < 2 ^ 31) :
    ((∃ name ∈ topics.map Prod.fst, Overflows nameToIndex outcome.session name) ∧
      topics.foldlM (checkedSubscribeOne nameToIndex) outcome = .error .undefinedBehaviour) ∨
    ((∀ name ∈ topics.map Prod.fst, ¬ Overflows nameToIndex outcome.session name) ∧
      topics.foldlM (checkedSubscribeOne nameToIndex) outcome =
        .ok (topics.foldl (subscribeOne nameToIndex) outcome) ∧
      (topics.foldl (subscribeOne nameToIndex) outcome).session.topicIndex < 2 ^ 31) := by
  induction topics generalizing outcome with
  | nil => exact Or.inr ⟨fun name hname => absurd hname List.not_mem_nil, rfl, htop⟩
  | cons topic topics ih =>
      rw [List.map_cons] at hindex hnodup ⊢
      obtain ⟨hfirst, hrest⟩ := List.forall_mem_cons.mp hindex
      obtain ⟨hfresh, hnodup⟩ := List.nodup_cons.mp hnodup
      obtain ⟨index, hlookup, hnonneg, hhigh⟩ := hfirst
      have hsame : ∀ name ∈ topics.map Prod.fst,
          (Overflows nameToIndex (subscribeOne nameToIndex outcome topic).session name ↔
            Overflows nameToIndex outcome.session name) := by
        intro name hname
        rw [Overflows, Overflows, getTopicHandle_subscribeOne fun heq => hfresh (heq ▸ hname)]
      simp only [List.foldlM_cons, List.foldl_cons, List.forall_mem_cons]
      obtain ⟨hover, hfault⟩ | ⟨hfits, hok, hnext⟩ :=
        checkedSubscribeOne_eq hlookup hnonneg hhigh htop
      · rw [hfault]
        exact Or.inl ⟨⟨topic.1, List.mem_cons_self, hover⟩, rfl⟩
      · rw [hok, ok_bind]
        obtain ⟨⟨name, hname, hover⟩, hfault⟩ | ⟨hall, hloop⟩ := ih hrest hnodup hnext
        · have hover := (hsame name hname).mp hover
          exact Or.inl ⟨⟨name, List.mem_cons_of_mem _ hname, hover⟩, hfault⟩
        · refine Or.inr ⟨⟨hfits, fun name hname => ?_⟩, hloop⟩
          exact fun hover => hall name hname ((hsame name hname).mpr hover)

section Syncs

variable [HashOrder StdString]

theorem topicIndex_removeTopicHandle (session : Session) (name : StdString) :
    (session.removeTopicHandle name).1.topicIndex = session.topicIndex := by
  rw [Session.removeTopicHandle]
  split <;> rfl

theorem topicIndex_unsubscribed (newTopics : TopicMap) (names : List StdString)
    (outcome : SyncOutcome) :
    (names.foldl (unsubscribeOne newTopics) outcome).session.topicIndex =
      outcome.session.topicIndex := by
  induction names generalizing outcome with
  | nil => rfl
  | cons name names ih =>
      rw [List.foldl_cons, ih, unsubscribeOne]
      split
      · exact topicIndex_removeTopicHandle outcome.session name
      · rfl

theorem checkedProcessTopicSync_eq {session : Session} {tables : ClientTables} {parse : TopicParse}
    (hparse : tables.parse = .ok parse)
    (hindex : ∀ name ∈ parse.newTopics.keys, ∃ index, parse.nameToIndex.lookup name = some index ∧
      0 ≤ index ∧ index < 2 ^ 31)
    (htop : session.topicIndex < 2 ^ 31) :
    ((∃ name ∈ parse.newTopics.keys, Overflows parse.nameToIndex session name) ∧
      checkedProcessTopicSync session tables = .error .undefinedBehaviour) ∨
    ((∀ name ∈ parse.newTopics.keys, ¬ Overflows parse.nameToIndex session name) ∧
      checkedProcessTopicSync session tables = .ok (applyTopics session parse) ∧
      (applyTopics session parse).session.topicIndex < 2 ^ 31) := by
  have hmem : ∀ name, name ∈ parse.newTopics.keys ↔
      name ∈ ((IterationOrder.sorted StdString).items parse.newTopics).map Prod.fst := by
    intro name
    rw [IterationOrder.map_fst_items, IterationOrder.mem_enumerate]
  have hkept : ∀ name ∈ parse.newTopics.keys,
      (Overflows parse.nameToIndex
          (session.topics.foldl (unsubscribeOne parse.newTopics) ⟨session, [], [], []⟩).session
          name ↔
        Overflows parse.nameToIndex session name) := by
    intro name hname
    rw [Finmap.mem_keys, ← Finmap.lookup_isSome] at hname
    rw [Overflows, Overflows, Session.getTopicHandle, Session.getTopicHandle, lookup_unsubscribed,
      if_neg fun h => Option.isSome_iff_ne_none.mp hname h.2]
  have hloop := foldlM_checkedSubscribeOne (fun name hname => hindex name ((hmem name).mpr hname))
    (IterationOrder.nodup_items_keys _ _)
    ((topicIndex_unsubscribed parse.newTopics session.topics ⟨session, [], [], []⟩).trans_lt htop)
  rw [checkedProcessTopicSync, hparse, ok_bind]
  simp only [← hmem] at hloop
  obtain ⟨⟨name, hname, hover⟩, hfault⟩ | ⟨hall, hok⟩ := hloop
  · exact Or.inl ⟨⟨name, hname, (hkept name hname).mp hover⟩, hfault⟩
  · exact Or.inr ⟨fun name hname hover => hall name hname ((hkept name hname).mpr hover), hok⟩

end Syncs

end Creation

end DanWs.CheckedTopicSyncs
