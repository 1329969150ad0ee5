import DanWs.SessionRows

namespace DanWs.SessionCalls

open DanWs.Allocations
open DanWs.FiniteMaps
open DanWs.FlatStates
open DanWs.Replicas
open DanWs.SessionRows
open DanWs.Sessions
open DanWs.WireRows
open DanWs.WireTypes

/-- A key in the store of the session or of one of its topics. -/
abbrev Place := Option StdString × StdString

inductive Call where
  | set (key : StdString) (value : Payload)
  | clearKey (key : StdString)
  | clear
  | createTopicHandle (name : StdString) (params : FiniteMap StdString Payload) (wireIndex : Int)
  | removeTopicHandle (name : StdString)
  | topicSet (name key : StdString) (value : Payload)
  | topicClearKey (name key : StdString)
  | topicClear (name : StdString)

def perform [HashOrder StdString] (session : Session) : Call → Session × List Frame
  | .set key value =>
      match session.set key value with
      | .ok outcome => outcome
      | .error _ => (session, [])
  | .clearKey key => session.clearKey key
  | .clear => session.clear
  | .createTopicHandle name params wireIndex =>
      (session.createTopicHandle name params wireIndex, [])
  | .removeTopicHandle name => session.removeTopicHandle name
  | .topicSet name key value => session.topicSet name key value
  | .topicClearKey name key => session.topicClearKey name key
  | .topicClear name => session.topicClear name

def Call.target : Call → Option Place
  | .set key _ => some (none, key)
  | .topicSet name key _ => some (some name, key)
  | .clearKey _ | .clear | .createTopicHandle _ _ _ | .removeTopicHandle _ | .topicClearKey _ _
  | .topicClear _ => none

/-- A new topic handle does not take the place of another one. -/
def NamesNewTopic (session : Session) : Call → Prop
  | .createTopicHandle name _ _ => session.topicHandles.lookup name = none
  | _ => True

instance (session : Session) : (call : Call) → Decidable (NamesNewTopic session call)
  | .createTopicHandle name _ _ =>
      inferInstanceAs (Decidable (session.topicHandles.lookup name = none))
  | .set _ _ | .clearKey _ | .clear | .removeTopicHandle _ | .topicSet _ _ _
  | .topicClearKey _ _ | .topicClear _ => inferInstanceAs (Decidable True)

/-- `_bindSessionTX` has been called before any topic was created. -/
structure Bound (session : Session) : Prop where
  flat : ∃ flat, session.flatState = some flat
  topics : ∀ name handle, session.topicHandles.lookup name = some handle → handle.payload.bound

theorem bound_bindSessionTX {session : Session} (h : session.topicHandles = ∅) :
    Bound session.bindSessionTX where
  flat := ⟨_, rfl⟩
  topics := by
    intro name handle hhandle
    rw [show session.bindSessionTX.topicHandles = session.topicHandles from rfl, h] at hhandle
    cases hhandle

section Ids

def placeId (session : Session) (place : Place) : Option UInt32 :=
  (storeOf session place.1).bind fun flat => idAt flat place.2

variable {session : Session} {number : Nat → UInt32} {count : Nat}

theorem placeId_of_row {source : Option StdString} {flat : FlatState} {row : WireRow}
    (hflat : storeOf session source = some flat) (hrow : row ∈ rows flat) :
    ∃ key, row.path = flat.wirePath key ∧ placeId session (source, key) = some row.id := by
  obtain ⟨key, entry, hentry, rfl⟩ := (mem_rows flat).mp hrow
  refine ⟨key, rfl, ?_⟩
  rw [placeId, hflat, Option.bind_some, idAt, hentry, Option.map_some]
  rfl

theorem uniqueIds_sessionRows (h : Allocated number count (placeId session)) :
    UniqueIds (sessionRows session) := by
  intro row hrow other hother hid
  obtain ⟨source, flat, hflat, hrow⟩ := mem_sessionRows.mp hrow
  obtain ⟨source', flat', hflat', hother⟩ := mem_sessionRows.mp hother
  obtain ⟨key, hpath, hplace⟩ := placeId_of_row hflat hrow
  obtain ⟨key', hpath', hplace'⟩ := placeId_of_row hflat' hother
  have heq := h.unique _ _ _ hplace (hplace'.trans (congrArg some hid.symm))
  obtain ⟨rfl, rfl⟩ := Prod.mk.inj heq
  obtain rfl := Option.some.inj (hflat.symm.trans hflat')
  exact uniquePaths_rows flat row hrow other hother (hpath.trans hpath'.symm)

theorem disjoint_otherRows (h : Allocated number count (placeId session))
    {source : Option StdString} {flat : FlatState} (hflat : storeOf session source = some flat) :
    Disjoint (rows flat) (otherRows session source) := by
  rw [Finset.disjoint_left]
  intro row hrow hother
  obtain ⟨other, flat', hne, hflat', hrow'⟩ := mem_otherRows.mp hother
  obtain ⟨key, _, hplace⟩ := placeId_of_row hflat hrow
  obtain ⟨key', _, hplace'⟩ := placeId_of_row hflat' hrow'
  exact hne (Prod.mk.inj (h.unique _ _ _ hplace hplace')).1.symm

end Ids

section Stores

variable {session : Session} {name : StdString} {handle : TopicHandle}

theorem storeOf_of_lookup (hhandle : session.topicHandles.lookup name = some handle) :
    storeOf session (some name) = some handle.payload.flatState := by
  rw [storeOf, hhandle, Option.map_some]

theorem storeOf_flatState (session : Session) (flat : Option FlatState) (nextKeyId : UInt32) :
    storeOf { session with flatState := flat, nextKeyId } =
      Function.update (storeOf session) none flat := by
  funext source
  cases source with
  | none => rw [Function.update_self, storeOf]
  | some name => rw [Function.update_of_ne (Option.some_ne_none name), storeOf, storeOf]

theorem storeOf_storeTopic (session : Session) (name : StdString) (handle : TopicHandle)
    (flat : FlatState) (nextKeyId : UInt32) :
    storeOf { session.storeTopic name handle flat with nextKeyId } =
      Function.update (storeOf session) (some name) (some flat) := by
  funext source
  cases source with
  | none => rw [Function.update_of_ne (Option.some_ne_none name).symm, storeOf, storeOf]; rfl
  | some other =>
      simp only [storeOf, Session.storeTopic, lookup_insert_eq_ite, Function.update_apply,
        Option.some.injEq]
      split <;> rfl

theorem storeOf_removeTopicHandle (session : Session) (name : StdString) :
    storeOf { session with topicHandles := session.topicHandles.erase name } =
      Function.update (storeOf session) (some name) none := by
  funext source
  cases source with
  | none => rw [Function.update_of_ne (Option.some_ne_none name).symm, storeOf, storeOf]
  | some other =>
      simp only [storeOf, lookup_erase_eq_ite, Function.update_apply, Option.some.injEq]
      split <;> rfl

theorem storeOf_createTopicHandle (session : Session) (name : StdString)
    (params : FiniteMap StdString Payload) (wireIndex : Int) :
    ∃ start, storeOf (session.createTopicHandle name params wireIndex) =
      Function.update (storeOf session) (some name) (some (FlatState.new start)) := by
  let index := if 0 ≤ wireIndex then wireIndex else session.topicIndex
  refine ⟨str "t." ++ toText index ++ str ".", funext fun source => ?_⟩
  cases source with
  | none => rw [Function.update_of_ne (Option.some_ne_none name).symm, storeOf, storeOf]; rfl
  | some other =>
      simp only [storeOf, Session.createTopicHandle, lookup_insert_eq_ite, Function.update_apply,
        Option.some.injEq]
      split
      · rfl
      · rfl

theorem bound_storeTopic (h : Bound session)
    (hhandle : session.topicHandles.lookup name = some handle) (flat : FlatState)
    (nextKeyId : UInt32) : Bound { session.storeTopic name handle flat with nextKeyId } where
  flat := h.flat
  topics := by
    intro other found hfound
    obtain ⟨-, rfl⟩ | ⟨-, hfound⟩ := lookup_of_lookup_insert hfound
    · exact h.topics name handle hhandle
    · exact h.topics other found hfound

end Stores

section Changes

variable [HashOrder StdString]

/-- What a call does to the stores, where it may set a key, and what it tells of it. -/
inductive Change (session : Session) :
    Option Place → Session → List Frame → Prop
  | set {next : Session} (source : Option StdString) (flat : FlatState) (key : StdString)
      (value : Payload) (hstore : storeOf session source = some flat)
      (hnext : storeOf next = Function.update (storeOf session) source
        (some (flat.set session.nextKeyId key value).1))
      (hid : next.nextKeyId = (flat.set session.nextKeyId key value).2.1) :
      Change session (some (source, key)) next (flat.set session.nextKeyId key value).2.2
  | clearKey {target : Option Place} {next : Session} (source : Option StdString)
      (flat : FlatState) (key : StdString)
      (hstore : storeOf session source = some flat)
      (hnext : storeOf next =
        Function.update (storeOf session) source (some (flat.clearKey key).1))
      (hid : next.nextKeyId = session.nextKeyId) :
      Change session target next (flat.clearKey key).2
  | resync {target : Option Place} {next : Session}
      (hsub : ∀ source flat, storeOf next source = some flat →
        ∃ old, storeOf session source = some old ∧
          (flat = old ∨ flat = FlatState.new old.wirePrefix))
      (hid : next.nextKeyId = session.nextKeyId) :
      Change session target next next.triggerSessionResync
  | silent {target : Option Place} {next : Session}
      (hkeep : ∀ source flat, storeOf session source = some flat → storeOf next source = some flat)
      (hnew : ∀ source flat, storeOf next source = some flat →
        storeOf session source = some flat ∨
          storeOf session source = none ∧ ∃ start, flat = FlatState.new start)
      (hid : next.nextKeyId = session.nextKeyId) : Change session target next []

variable {session : Session} {target : Option Place}

theorem change_none (session : Session) : Change session target session [] :=
  .silent (fun _ _ h => h) (fun _ _ h => Or.inl h) rfl

/-- Clearing a store is silent if it has no keys, and a resync otherwise. -/
theorem change_clear {next : Session} {source : Option StdString} {flat : FlatState}
    (hstore : storeOf session source = some flat)
    (hnext : storeOf next = Function.update (storeOf session) source (some flat.clear.1))
    (hid : next.nextKeyId = session.nextKeyId) :
    Change session target next (if flat.clear.2 then next.triggerSessionResync else []) := by
  rw [FlatState.clear] at hnext ⊢
  rcases eq_or_ne flat.entries ∅ with hempty | hempty
  · rw [if_pos hempty] at hnext ⊢
    rw [← hstore, Function.update_eq_self] at hnext
    exact .silent (fun other found h => hnext ▸ h) (fun other found h => Or.inl (hnext ▸ h)) hid
  · rw [if_neg hempty] at hnext ⊢
    refine .resync (fun other found hfound => ?_) hid
    rw [hnext, Function.update_apply] at hfound
    split at hfound
    · next heq => exact ⟨flat, heq ▸ hstore, Or.inr (Option.some.inj hfound).symm⟩
    · exact ⟨found, hfound, Or.inl rfl⟩

theorem change_createTopicHandle {name : StdString}
    (hnew : session.topicHandles.lookup name = none) (params : FiniteMap StdString Payload)
    (wireIndex : Int) :
    Change session target (session.createTopicHandle name params wireIndex) [] := by
  obtain ⟨start, hstore⟩ := storeOf_createTopicHandle session name params wireIndex
  refine .silent ?_ ?_ rfl
  · intro source found hfound
    rw [hstore, Function.update_of_ne]
    · exact hfound
    · rintro rfl
      rw [storeOf, hnew] at hfound
      cases hfound
  · intro source found hfound
    rw [hstore, Function.update_apply] at hfound
    split at hfound
    · next heq =>
        rw [heq, storeOf, hnew]
        exact Or.inr ⟨rfl, start, (Option.some.inj hfound).symm⟩
    · exact Or.inl hfound

theorem change_perform (h : Bound session) {call : Call} (hname : NamesNewTopic session call) :
    Bound (perform session call).1 ∧
      Change session call.target (perform session call).1 (perform session call).2 := by
  obtain ⟨flat, hflat⟩ := h.flat
  cases call with
  | set key value =>
      simp only [perform, Session.set, hflat]
      exact ⟨⟨⟨_, rfl⟩, h.topics⟩,
        .set none flat key value hflat (storeOf_flatState session _ _) rfl⟩
  | clearKey key =>
      simp only [perform, Session.clearKey, hflat]
      exact ⟨⟨⟨_, rfl⟩, h.topics⟩,
        .clearKey none flat key hflat (storeOf_flatState session _ session.nextKeyId) rfl⟩
  | clear =>
      simp only [perform, Session.clear, hflat]
      exact ⟨⟨⟨_, rfl⟩, h.topics⟩,
        change_clear (show storeOf session none = some flat from hflat)
          (storeOf_flatState session _ session.nextKeyId) rfl⟩
  | createTopicHandle name params wireIndex =>
      refine ⟨⟨⟨flat, hflat⟩, fun other handle hhandle => ?_⟩,
        change_createTopicHandle hname params wireIndex⟩
      obtain ⟨-, rfl⟩ | ⟨-, hhandle⟩ := lookup_of_lookup_insert hhandle
      · rw [TopicPayload.new, hflat]
        rfl
      · exact h.topics other handle hhandle
  | removeTopicHandle name =>
      rw [perform, Session.removeTopicHandle]
      cases hhandle : session.topicHandles.lookup name with
      | none => exact ⟨h, change_none session⟩
      | some handle =>
          refine ⟨⟨⟨flat, hflat⟩, fun other found hfound => ?_⟩, .resync ?_ rfl⟩
          · exact h.topics other found (lookup_of_lookup_erase hfound).2
          · intro source found hfound
            rw [storeOf_removeTopicHandle, Function.update_apply] at hfound
            split at hfound
            · cases hfound
            · exact ⟨found, hfound, Or.inl rfl⟩
  | topicSet name key value =>
      rw [perform, Session.topicSet]
      cases hhandle : session.topicHandles.lookup name with
      | none => exact ⟨h, change_none session⟩
      | some handle =>
          dsimp only
          rw [if_pos (h.topics name handle hhandle)]
          refine ⟨bound_storeTopic h hhandle _ _, ?_⟩
          exact .set (some name) handle.payload.flatState key value (storeOf_of_lookup hhandle)
            (storeOf_storeTopic session name handle _ _) rfl
  | topicClearKey name key =>
      rw [perform, Session.topicClearKey]
      cases hhandle : session.topicHandles.lookup name with
      | none => exact ⟨h, change_none session⟩
      | some handle =>
          dsimp only
          rw [if_pos (h.topics name handle hhandle)]
          refine ⟨bound_storeTopic h hhandle _ session.nextKeyId, ?_⟩
          exact .clearKey (some name) handle.payload.flatState key (storeOf_of_lookup hhandle)
            (storeOf_storeTopic session name handle _ session.nextKeyId) rfl
  | topicClear name =>
      rw [perform, Session.topicClear]
      cases hhandle : session.topicHandles.lookup name with
      | none => exact ⟨h, change_none session⟩
      | some handle =>
          have hbound := h.topics name handle hhandle
          dsimp only
          simp only [hbound, and_true]
          refine ⟨bound_storeTopic h hhandle _ session.nextKeyId, ?_⟩
          exact change_clear (storeOf_of_lookup hhandle)
            (storeOf_storeTopic session name handle _ session.nextKeyId) rfl

end Changes

end DanWs.SessionCalls
