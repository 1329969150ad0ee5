import DanWs.SessionAnswers

namespace DanWs.ResyncAnswers

open DanWs.Allocations
open DanWs.FiniteMaps
open DanWs.FlatStates
open DanWs.KeyRequests
open DanWs.SessionAnswers
open DanWs.SessionCalls
open DanWs.SessionReplication
open DanWs.SessionRows
open DanWs.Sessions
open DanWs.StepRuns
open DanWs.WireRows
open DanWs.WireTypes

/-- The frames of a kind that come for an id. -/
def framesFor (frameType : FrameType) (keyId : UInt32) (frames : List Frame) : List Frame :=
  frames.filter fun frame => frame.frameType = frameType ∧ frame.keyId = keyId

section Announcements

variable {wires : List (StdString × Entry)} {keyId : UInt32}

theorem filter_eq_nil_or_singleton {α β : Type*} [DecidableEq β] {list : List α} {f : α → β}
    (h : (list.map f).Nodup) (b : β) :
    (list.filter fun a => f a = b) = [] ∨
      ∃ a ∈ list, f a = b ∧ (list.filter fun a => f a = b) = [a] := by
  induction list with
  | nil => exact Or.inl rfl
  | cons first list ih =>
      rw [List.map_cons, List.nodup_cons] at h
      by_cases hfirst : f first = b
      · refine Or.inr ⟨first, List.mem_cons_self, hfirst, ?_⟩
        rw [List.filter_cons, if_pos (decide_eq_true hfirst)]
        refine congrArg _ (List.filter_eq_nil_iff.mpr fun other hother hb => h.1 ?_)
        rw [hfirst, ← of_decide_eq_true hb]
        exact List.mem_map_of_mem hother
      · rw [List.filter_cons_of_neg (by simpa using hfirst)]
        rcases ih h.2 with hnil | ⟨a, ha, hb, hsingle⟩
        · exact Or.inl hnil
        · exact Or.inr ⟨a, List.mem_cons_of_mem _ ha, hb, hsingle⟩

theorem framesFor_map {kind frameType : FrameType} {toFrame : StdString × Entry → Frame}
    (hkind : ∀ wire, (toFrame wire).frameType = kind)
    (hid : ∀ wire, (toFrame wire).keyId = wire.2.keyId) :
    framesFor frameType keyId (wires.map toFrame) =
      if kind = frameType then (wires.filter fun wire => wire.2.keyId = keyId).map toFrame
      else [] := by
  rw [framesFor, List.filter_map]
  simp only [Function.comp_def, hkind, hid]
  split
  · next heq => simp only [heq, true_and]
  · next hne => simp only [hne, false_and, decide_false, List.filter_false, List.map_nil]

theorem framesFor_announcement (wires : List (StdString × Entry)) (keyId : UInt32) :
    framesFor .serverKeyRegistration keyId (announcement wires) =
        registrationFrames (wires.filter fun wire => wire.2.keyId = keyId) ∧
      framesFor .serverValue keyId (announcement wires) =
        valueFrames (wires.filter fun wire => wire.2.keyId = keyId) := by
  have hregistrations : ∀ frameType, framesFor frameType keyId (registrationFrames wires) =
      if FrameType.serverKeyRegistration = frameType then
        registrationFrames (wires.filter fun wire => wire.2.keyId = keyId) else [] :=
    fun _ => framesFor_map (fun _ => rfl) fun _ => rfl
  have hvalues : ∀ frameType, framesFor frameType keyId (valueFrames wires) =
      if FrameType.serverValue = frameType then
        valueFrames (wires.filter fun wire => wire.2.keyId = keyId) else [] :=
    fun _ => framesFor_map (fun _ => rfl) fun _ => rfl
  have happend : ∀ frameType (first second : List Frame),
      framesFor frameType keyId (first ++ second) =
        framesFor frameType keyId first ++ framesFor frameType keyId second :=
    fun _ _ _ => List.filter_append _ _
  rw [announcement]
  simp only [happend, hregistrations, hvalues]
  constructor <;> simp [framesFor, signalFrame]

end Announcements

section Sessions

variable [HashOrder StdString] {session : Session} {number : Nat → UInt32} {count : Nat}
  {source : Option StdString} {flat : FlatState}

theorem exists_place (hstore : storeOf session source = some flat) {wire : StdString × Entry}
    (hwire : wire ∈ wires flat) :
    ∃ key, wire.1 = flat.wirePath key ∧ flat.entries.lookup key = some wire.2 ∧
      placeId session (source, key) = some wire.2.keyId := by
  obtain ⟨key, hentry, hpath⟩ := (mem_wires flat).mp hwire
  refine ⟨key, hpath, hentry, ?_⟩
  rw [placeId, hstore, Option.bind_some, idAt_of_lookup hentry]

theorem nodup_wireIds (hids : Allocated number count (placeId session))
    (hstore : storeOf session source = some flat) :
    ((wires flat).map fun wire => wire.2.keyId).Nodup := by
  refine List.Nodup.map_on (fun wire hwire other hother hid => ?_) (nodup_wires flat).of_map
  obtain ⟨key, hpath, hentry, hplace⟩ := exists_place hstore hwire
  obtain ⟨key', hpath', hentry', hplace'⟩ := exists_place hstore hother
  rw [← hid] at hplace'
  obtain rfl : key = key' := (Prod.mk.inj (hids.unique _ _ _ hplace hplace')).2
  exact Prod.ext (hpath.trans hpath'.symm) (Option.some.inj (hentry.symm.trans hentry'))

theorem disjoint_wireIds (hids : Allocated number count (placeId session))
    (hstore : storeOf session source = some flat) {other : Option StdString} {flat' : FlatState}
    (hother : storeOf session other = some flat') (hne : source ≠ other) :
    ((wires flat).map fun wire => wire.2.keyId).Disjoint
      ((wires flat').map fun wire => wire.2.keyId) := by
  intro id hid hid'
  obtain ⟨wire, hwire, rfl⟩ := List.mem_map.mp hid
  obtain ⟨wire', hwire', hsame⟩ := List.mem_map.mp hid'
  obtain ⟨key, -, -, hplace⟩ := exists_place hstore hwire
  obtain ⟨key', -, -, hplace'⟩ := exists_place hother hwire'
  rw [hsame] at hplace'
  exact hne (Prod.mk.inj (hids.unique _ _ _ hplace hplace')).1

theorem nodup_sessionWires (hids : Allocated number count (placeId session))
    (hflat : session.flatState = some flat) :
    ((sessionWires session flat).map fun wire => wire.2.keyId).Nodup := by
  have hnames : ((IterationOrder.sorted StdString).items session.topicHandles).Pairwise
      fun topic other => topic.1 ≠ other.1 :=
    List.pairwise_map.mp (IterationOrder.nodup_items_keys _ _)
  have hstore : ∀ topic ∈ (IterationOrder.sorted StdString).items session.topicHandles,
      storeOf session (some topic.1) = some topic.2.payload.flatState :=
    fun topic htopic => storeOf_of_lookup (IterationOrder.mem_items _ |>.mp htopic)
  rw [sessionWires, List.map_append, Session.handles, List.flatMap_map, List.map_flatMap,
    List.nodup_append']
  refine ⟨nodup_wireIds hids (show storeOf session none = some flat from hflat), ?_, ?_⟩
  · rw [List.nodup_flatMap]
    refine ⟨fun topic htopic => nodup_wireIds hids (hstore topic htopic), ?_⟩
    refine hnames.imp_of_mem fun htopic hother hne => ?_
    exact disjoint_wireIds hids (hstore _ htopic) (hstore _ hother) fun h => hne (Option.some.inj h)
  · intro id hid hother
    obtain ⟨topic, htopic, hother⟩ := List.mem_flatMap.mp hother
    exact disjoint_wireIds hids (show storeOf session none = some flat from hflat)
      (hstore topic htopic) (Option.some_ne_none topic.1).symm hid hother

theorem handleKeyRequest_of_mem (htidy : Tidy session)
    (hids : Allocated number count (placeId session)) (hflat : session.flatState = some flat)
    {wire : StdString × Entry} (hwire : wire ∈ sessionWires session flat) :
    (session.handleKeyRequest none wire.2.keyId).2 = answer wire := by
  have hanswer : (session.handleKeyRequest none wire.2.keyId).2 =
      ((session.requestFromFlatState wire.2.keyId).or
        (session.requestFromTopics wire.2.keyId)).getD [] := rfl
  obtain ⟨path, entry⟩ := wire
  rw [hanswer]
  rcases List.mem_append.mp hwire with hwire | hwire
  · obtain ⟨key, hentry, rfl⟩ := (mem_wires flat).mp hwire
    rw [requestFromFlatState_own htidy hflat hentry, Option.some_or, Option.getD_some]
  · obtain ⟨handle, hhandle, hwire⟩ := List.mem_flatMap.mp hwire
    obtain ⟨name, hname⟩ := mem_handles.mp hhandle
    obtain ⟨key, hentry, rfl⟩ := (mem_wires handle.payload.flatState).mp hwire
    rw [requestFromFlatState_other htidy hids (placeId_of_handle hname hentry), Option.none_or,
      requestFromTopics_own hids hname hentry, Option.getD_some]

theorem handleKeyRequest_of_forall_ne (htidy : Tidy session)
    (hflat : session.flatState = some flat) {keyId : UInt32}
    (hother : ∀ wire ∈ sessionWires session flat, wire.2.keyId ≠ keyId) :
    (session.handleKeyRequest none keyId).2 = [] := by
  have hown : session.requestFromFlatState keyId = none := by
    have hnone : flat.byKeyId.lookup keyId = none := by
      rw [Option.eq_none_iff_forall_ne_some]
      intro key hkey
      have hid := (htidy.indexed none flat hflat keyId key).mp hkey
      obtain ⟨entry, hentry, hid⟩ := Option.map_eq_some_iff.mp hid
      have hwire := (mem_wires flat).mpr ⟨key, hentry, rfl⟩
      exact hother _ (List.mem_append_left _ hwire) hid
    rw [Session.requestFromFlatState, hflat, Option.bind_some, FlatState.getByKeyId, hnone]
    rfl
  have htopics : session.requestFromTopics keyId = none := by
    rw [Session.requestFromTopics, List.findSome?_eq_none_iff]
    intro handle hhandle
    rw [Option.map_eq_none_iff, List.find?_eq_none, buildKeyFrames_eq]
    intro frame hframe hid
    obtain ⟨wire, hwire, rfl⟩ := List.mem_map.mp hframe
    refine hother wire (List.mem_append_right _ ?_) (beq_iff_eq.mp hid)
    exact List.mem_flatMap.mpr ⟨handle, hhandle, hwire⟩
  change ((session.requestFromFlatState keyId).or (session.requestFromTopics keyId)).getD [] = []
  rw [hown, htopics]
  rfl

end Sessions

/-- The answer to a request agrees with a resync: both have one registration and
one value for the id, or none at all. -/
def Agrees [HashOrder StdString] (session : Session) (keyId : UInt32) : Prop :=
  (framesFor .serverKeyRegistration keyId session.triggerSessionResync = [] ∧
    framesFor .serverValue keyId session.triggerSessionResync = [] ∧
    (session.handleKeyRequest none keyId).2 = []) ∨
  ∃ registration value,
    framesFor .serverKeyRegistration keyId session.triggerSessionResync = [registration] ∧
      framesFor .serverValue keyId session.triggerSessionResync = [value] ∧
      (session.handleKeyRequest none keyId).2 =
        [registration, signalFrame .serverSync, value]

theorem agrees_of_tidy [HashOrder StdString] {session : Session} (htidy : Tidy session)
    {number : Nat → UInt32} {count : Nat} (hids : Allocated number count (placeId session))
    {flat : FlatState} (hflat : session.flatState = some flat) (keyId : UInt32) :
    Agrees session keyId := by
  obtain ⟨hregistrations, hvalues⟩ :=
    framesFor_announcement (sessionWires session flat) keyId
  rw [← triggerSessionResync_eq hflat] at hregistrations hvalues
  rw [Agrees, hregistrations, hvalues]
  rcases filter_eq_nil_or_singleton (nodup_sessionWires hids hflat) keyId with
    hnil | ⟨wire, hwire, rfl, hsingle⟩
  · rw [hnil]
    refine Or.inl ⟨rfl, rfl, handleKeyRequest_of_forall_ne htidy hflat fun wire hwire hid => ?_⟩
    exact List.filter_eq_nil_iff.mp hnil wire hwire (decide_eq_true hid)
  · rw [hsingle]
    exact Or.inr ⟨_, _, rfl, rfl, handleKeyRequest_of_mem htidy hids hflat hwire⟩

section Runs

variable [HashOrder StdString]

/-- What happens to a session in a topic mode. It is bound anew when its client
comes back, and its topics end with it. -/
inductive Event where
  | call (call : Call)
  | bindSessionTX
  | disposeAllTopicHandles

def advance (activation : Activation) : Event → Activation
  | .call call => step activation call
  | .bindSessionTX => { activation with session := activation.session.bindSessionTX }
  | .disposeAllTopicHandles =>
      { activation with session := activation.session.disposeAllTopicHandles }

/-- The id counter has not come round. -/
def WithinAllocations (activation : Activation) : Event → Prop
  | .call call => WithinCounter activation call
  | .bindSessionTX | .disposeAllTopicHandles => True

instance (activation : Activation) :
    (event : Event) → Decidable (WithinAllocations activation event)
  | .call call => inferInstanceAs (Decidable (WithinCounter activation call))
  | .bindSessionTX | .disposeAllTopicHandles => inferInstanceAs (Decidable True)

structure Orderly (start : UInt32) (activation : Activation) : Prop
    extends Numbered start activation where
  tidy : Tidy activation.session

omit [HashOrder StdString] in
theorem orderly_shrink {start : UInt32} {activation : Activation} (h : Orderly start activation)
    {next : Session} (hid : next.nextKeyId = activation.session.nextKeyId) (hbound : Bound next)
    (hsub : ∀ source flat, storeOf next source = some flat →
      storeOf activation.session source = some flat ∨ flat = FlatState.new []) :
    Orderly start { activation with session := next } where
  bound := hbound
  next := hid.trans h.next
  ids := by
    refine h.ids.shrink fun place id hplace => ?_
    obtain ⟨flat, hflat, hkey⟩ := Option.bind_eq_some_iff.mp hplace
    rcases hsub place.1 flat hflat with hold | rfl
    · rw [placeId, hold]
      exact hkey
    · cases hkey
  tidy := by
    refine ⟨fun source flat hflat => ?_, fun flat hflat => ?_⟩
    · rcases hsub source flat hflat with hold | rfl
      · exact h.tidy.indexed source flat hold
      · exact indexed_new []
    · rcases hsub none flat hflat with hold | rfl
      · exact h.tidy.plain flat hold
      · rfl

theorem orderly_advance (start : UInt32) (activation : Activation) (event : Event)
    (h : Orderly start activation) (hwithin : WithinAllocations activation event) :
    Orderly start (advance activation event) := by
  cases event with
  | call call =>
      exact ⟨numbered_step start activation call h.toNumbered hwithin,
        tidy_step h.toNumbered h.tidy hwithin⟩
  | bindSessionTX =>
      refine orderly_shrink h rfl ⟨⟨_, rfl⟩, h.bound.topics⟩ fun source flat hflat => ?_
      cases source with
      | none => exact Or.inr (Option.some.inj hflat).symm
      | some name => exact Or.inl hflat
  | disposeAllTopicHandles =>
      refine orderly_shrink h rfl ⟨h.bound.flat, fun name handle hhandle => ?_⟩
        fun source flat hflat => ?_
      · cases hhandle
      · cases source with
        | none => exact Or.inl hflat
        | some name => cases hflat

theorem answers_agree_run (session : Session) (htopics : session.topicHandles = ∅)
    (events : List Event)
    (hwithin : StepsMeet advance WithinAllocations (activate session) events) (keyId : UInt32) :
    Agrees (run advance (activate session) events).session keyId := by
  have h : Orderly session.nextKeyId (run advance (activate session) events) :=
    invariant_run (orderly_advance session.nextKeyId)
      ⟨numbered_activate htopics, tidy_bindSessionTX htopics⟩ hwithin
  obtain ⟨flat, hflat⟩ := h.bound.flat
  exact agrees_of_tidy h.tidy h.ids hflat keyId

end Runs

theorem answers_agree_run_board :
    let _ := HashOrder.ascending StdString
    Agrees (run advance (activate (Session.new (str "u")))
      [.call (.set (str "name") (.string (str "x"))),
        .call (.createTopicHandle (str "board") ∅ 0),
        .call (.topicSet (str "board") (str "score") (.int32 1)), .bindSessionTX,
        .call (.set (str "name") (.int32 2))]).session 2 := by
  intro _
  exact answers_agree_run (Session.new (str "u")) rfl _ (by decide) 2

end DanWs.ResyncAnswers
