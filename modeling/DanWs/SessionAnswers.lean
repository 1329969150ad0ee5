import DanWs.KeyAcceptance
import DanWs.SessionReplication

namespace DanWs.SessionAnswers

open DanWs.Allocations
open DanWs.FiniteMaps
open DanWs.FlatStates
open DanWs.KeyRequests
open DanWs.Replicas
open DanWs.SessionCalls
open DanWs.SessionReplication
open DanWs.SessionRows
open DanWs.Sessions
open DanWs.WireRows
open DanWs.WireTypes

/-- `byKeyId` holds the keys under their ids, and nothing else. -/
def Indexed (flat : FlatState) : Prop :=
  ∀ id key, flat.byKeyId.lookup id = some key ↔ idAt flat key = some id

section Indexes

variable {flat : FlatState} {nextKeyId : UInt32} {key : StdString} {value : Payload}

theorem indexed_new (start : StdString) : Indexed (FlatState.new start) := by
  intro id key
  constructor <;> intro h <;> cases h

theorem idAt_of_lookup {entry : Entry} (h : flat.entries.lookup key = some entry) :
    idAt flat key = some entry.keyId := by
  rw [idAt, h, Option.map_some]

theorem indexed_update {entries : FiniteMap StdString Entry} {byKeyId : FiniteMap UInt32 StdString}
    (h : Indexed flat) (hfresh : ∀ other, idAt flat other ≠ some nextKeyId)
    (hentries : idAt ⟨flat.wirePrefix, entries, byKeyId⟩ =
      Function.update (idAt flat) key (some nextKeyId))
    (hindex : ∀ id, byKeyId.lookup id =
      if id = nextKeyId then some key
      else if idAt flat key = some id then none else flat.byKeyId.lookup id) :
    Indexed ⟨flat.wirePrefix, entries, byKeyId⟩ := by
  intro id other
  dsimp only
  rw [hindex, hentries, Function.update_apply]
  split
  · next hid =>
      subst hid
      split
      · next heq => simp [heq]
      · next hne =>
          refine iff_of_false (fun hsome => hne (Option.some.inj hsome).symm) (hfresh other)
  · next hid =>
      have hmoved : other = key → ¬ some nextKeyId = some id :=
        fun _ hsome => hid (Option.some.inj hsome).symm
      split
      · next hold =>
          split
          · next heq => exact iff_of_false (Option.some_ne_none other).symm (hmoved heq)
          · next hne =>
              refine iff_of_false (Option.some_ne_none other).symm fun hother => hne ?_
              exact Option.some.inj (((h id other).mpr hother).symm.trans ((h id key).mpr hold))
      · next hold =>
          rw [h id other]
          split
          · next heq =>
              subst heq
              exact iff_of_false hold (hmoved rfl)
          · rfl

theorem indexed_set (h : Indexed flat) (hfresh : ∀ other, idAt flat other ≠ some nextKeyId) :
    Indexed (flat.set nextKeyId key value).1 := by
  have hids := idAt_set flat nextKeyId key value
  have hne : nextKeyId + 1 ≠ nextKeyId := by simp
  cases hold : flat.entries.lookup key with
  | none =>
      simp only [FlatState.set, hold] at hids ⊢
      refine indexed_update h hfresh (hids.resolve_left fun hsame => hne hsame.1).2 fun id => ?_
      simp only [idAt, hold, Option.map_none, (Option.some_ne_none id).symm, if_false]
      rw [lookup_insert_eq_ite]
  | some old =>
      rcases eq_or_ne old.type (detectDataType value) with htype | htype
      · simp only [FlatState.set, hold, if_neg (not_not_intro htype)] at hids ⊢
        have hsame := (hids.resolve_right fun hnew => hne hnew.1.symm).2
        intro id other
        rw [hsame]
        exact h id other
      · simp only [FlatState.set, hold, if_pos htype] at hids ⊢
        refine indexed_update h hfresh (hids.resolve_left fun hsame => hne hsame.1).2 fun id => ?_
        rw [lookup_insert_eq_ite, lookup_erase_eq_ite, idAt_of_lookup hold]
        simp only [Option.some.injEq, eq_comm]

theorem indexed_clearKey (h : Indexed flat) : Indexed (flat.clearKey key).1 := by
  rw [FlatState.clearKey]
  split
  · exact h
  · next old hold =>
      have hself := (h old.keyId key).mpr (idAt_of_lookup hold)
      intro id other
      simp only [idAt, lookup_erase_eq_ite]
      split
      · next hid =>
          refine iff_of_false (Option.some_ne_none other).symm fun hother => ?_
          split at hother
          · cases hother
          · next hne =>
              have hfound := (h id other).mpr hother
              rw [hid, hself] at hfound
              exact hne (Option.some.inj hfound).symm
      · next hid =>
          rw [h id other, idAt]
          split
          · next heq =>
              rw [heq, hold]
              exact iff_of_false (fun hsame => hid (Option.some.inj hsame).symm)
                (Option.some_ne_none id).symm
          · rfl

end Indexes

/-- All stores of a session are indexed, and its own puts nothing before the keys. -/
structure Tidy (session : Session) : Prop where
  indexed : ∀ source flat, storeOf session source = some flat → Indexed flat
  plain : ∀ flat, session.flatState = some flat → flat.wirePrefix = []

theorem tidy_bindSessionTX {session : Session} (htopics : session.topicHandles = ∅) :
    Tidy session.bindSessionTX where
  indexed source flat hflat := by
    cases source with
    | none => exact Option.some.inj hflat ▸ indexed_new []
    | some name =>
        obtain ⟨handle, hhandle, _⟩ := Option.map_eq_some_iff.mp hflat
        rw [show session.bindSessionTX.topicHandles = ∅ from htopics] at hhandle
        cases hhandle
  plain flat hflat := by
    rw [← Option.some.inj hflat]
    rfl

section Changes

variable [HashOrder StdString] {session next : Session} {frames : List Frame}
  {target : Option Place}

theorem tidy_change (h : Tidy session) (hbound : Bound session)
    (hchange : Change session target next frames)
    (hfresh : ∀ place, placeId session place ≠ some session.nextKeyId) : Tidy next := by
  have hupdate : ∀ source (flat changed : FlatState), storeOf session source = some flat →
      storeOf next = Function.update (storeOf session) source (some changed) →
      Indexed changed → changed.wirePrefix = flat.wirePrefix → Tidy next := by
    intro source flat changed hstore hnext hindexed hstart
    refine ⟨fun other found hfound => ?_, fun found hfound => ?_⟩
    · rw [hnext, Function.update_apply] at hfound
      split at hfound
      · exact Option.some.inj hfound ▸ hindexed
      · exact h.indexed other found hfound
    · have hown : storeOf next none = some found := hfound
      rw [hnext, Function.update_apply] at hown
      split at hown
      · next heq =>
          subst heq
          rw [← Option.some.inj hown, hstart]
          exact h.plain flat hstore
      · exact h.plain found hown
  cases hchange with
  | set source flat key value hstore hnext hid =>
      refine hupdate source flat _ hstore hnext ?_ (FlatState.wirePrefix_set flat _ key value)
      refine indexed_set (h.indexed source flat hstore) fun other hother => ?_
      exact hfresh (source, other) (by rw [placeId, hstore, Option.bind_some, hother])
  | clearKey source flat key hstore hnext hid =>
      exact hupdate source flat _ hstore hnext (indexed_clearKey (h.indexed source flat hstore))
        (FlatState.wirePrefix_clearKey flat key)
  | resync hsub hid =>
      refine ⟨fun source flat hflat => ?_, fun flat hflat => ?_⟩
      · obtain ⟨old, hold, rfl | rfl⟩ := hsub source flat hflat
        · exact h.indexed source flat hold
        · exact indexed_new _
      · obtain ⟨old, hold, rfl | rfl⟩ := hsub none flat hflat
        · exact h.plain flat hold
        · exact h.plain old hold
  | silent hkeep hnew hid =>
      refine ⟨fun source flat hflat => ?_, fun flat hflat => ?_⟩
      · rcases hnew source flat hflat with hold | ⟨_, start, rfl⟩
        · exact h.indexed source flat hold
        · exact indexed_new start
      · obtain ⟨own, hown⟩ := hbound.flat
        rcases hnew none flat hflat with hold | ⟨hnone, _⟩
        · exact h.plain flat hold
        · exact absurd (hnone.symm.trans hown) (Option.some_ne_none own).symm

theorem tidy_step {start : UInt32} {activation : Activation} {call : Call}
    (hnumbered : Numbered start activation) (h : Tidy activation.session)
    (hwithin : WithinCounter activation call) : Tidy (step activation call).session := by
  obtain ⟨hname, hcount⟩ := hwithin
  have hbefore : activation.allocated < 2 ^ 32 := by
    refine Nat.lt_of_le_of_lt ?_ hcount
    rw [step]
    dsimp only
    split
    · exact Nat.le_refl _
    · exact Nat.le_succ _
  refine tidy_change h hnumbered.bound (change_perform hnumbered.bound hname).2 fun place => ?_
  rw [hnumbered.next]
  exact hnumbered.ids.fresh (injOn_counterFrom start) hbefore place

end Changes

section OwnStore

variable {session : Session} {number : Nat → UInt32} {count : Nat}

theorem requestFromFlatState_own (htidy : Tidy session) {flat : FlatState}
    (hflat : session.flatState = some flat) {key : StdString} {entry : Entry}
    (hentry : flat.entries.lookup key = some entry) :
    session.requestFromFlatState entry.keyId = some (answer (flat.wirePath key, entry)) := by
  have hindex := (htidy.indexed none flat hflat entry.keyId key).mpr (idAt_of_lookup hentry)
  have hpath : flat.wirePath key = key := by
    rw [FlatState.wirePath, if_pos (htidy.plain flat hflat)]
  rw [Session.requestFromFlatState, hflat, Option.bind_some, FlatState.getByKeyId, hindex,
    Option.bind_some, hentry, Option.map_some, FlatState.getPathByKeyId, hindex, Option.getD_some,
    hpath]
  rfl

theorem requestFromFlatState_other (htidy : Tidy session)
    (hids : Allocated number count (placeId session)) {name key : StdString} {id : UInt32}
    (hid : placeId session (some name, key) = some id) :
    session.requestFromFlatState id = none := by
  rw [Session.requestFromFlatState]
  cases hflat : session.flatState with
  | none => rfl
  | some flat =>
      have hnone : flat.byKeyId.lookup id = none := by
        rw [Option.eq_none_iff_forall_ne_some]
        intro other hother
        have hown : placeId session (none, other) = some id := by
          rw [placeId, show storeOf session none = some flat from hflat, Option.bind_some]
          exact (htidy.indexed none flat hflat id other).mp hother
        exact absurd (Prod.mk.inj (hids.unique _ _ _ hown hid)).1 (Option.some_ne_none name).symm
      rw [Option.bind_some, FlatState.getByKeyId, hnone]
      rfl

theorem placeId_of_handle {name : StdString} {handle : TopicHandle}
    (hhandle : session.topicHandles.lookup name = some handle) {key : StdString} {entry : Entry}
    (hentry : handle.payload.flatState.entries.lookup key = some entry) :
    placeId session (some name, key) = some entry.keyId := by
  rw [placeId, storeOf, hhandle, Option.map_some, Option.bind_some, idAt_of_lookup hentry]

theorem findSome?_unique {α β : Type*} {list : List α} {f : α → Option β} {item : α} {found : β}
    (hmem : item ∈ list) (hitem : f item = some found)
    (hunique : ∀ other ∈ list, other ≠ item → f other = none) : list.findSome? f = some found := by
  cases hfind : list.findSome? f with
  | none =>
      rw [List.findSome?_eq_none_iff.mp hfind item hmem] at hitem
      cases hitem
  | some other =>
      obtain ⟨source, hsource, hother⟩ := List.exists_of_findSome?_eq_some hfind
      by_cases heq : source = item
      · rw [← hother, heq, hitem]
      · rw [hunique source hsource heq] at hother
        cases hother

end OwnStore

section Answers

variable [HashOrder StdString] {session : Session} {number : Nat → UInt32} {count : Nat}

theorem requestFromTopics_own (hids : Allocated number count (placeId session)) {name : StdString}
    {handle : TopicHandle} (hhandle : session.topicHandles.lookup name = some handle)
    {key : StdString} {entry : Entry}
    (hentry : handle.payload.flatState.entries.lookup key = some entry) :
    session.requestFromTopics entry.keyId =
      some (answer (handle.payload.flatState.wirePath key, entry)) := by
  have hwire := (mem_wires handle.payload.flatState).mpr ⟨key, hentry, rfl⟩
  have hrows : UniqueIds (rows handle.payload.flatState) := by
    have hstore : storeOf session (some name) = some handle.payload.flatState := by
      rw [storeOf, hhandle, Option.map_some]
    intro row hrow other hother
    exact uniqueIds_sessionRows hids row (mem_sessionRows.mpr ⟨_, _, hstore, hrow⟩) other
      (mem_sessionRows.mpr ⟨_, _, hstore, hother⟩)
  rw [Session.requestFromTopics]
  apply findSome?_unique (mem_handles.mpr ⟨name, hhandle⟩)
  · have hkey := find?_keyFrame hrows hwire
    have hanswer := keyAnswer_of_wire hrows hwire
    dsimp only at hkey hanswer
    rw [hkey, Option.map_some, hanswer]
  · intro other hother hne
    rw [Option.map_eq_none_iff, List.find?_eq_none]
    intro frame hframe hid
    rw [buildKeyFrames_eq] at hframe
    obtain ⟨⟨path, held⟩, hheld, rfl⟩ := List.mem_map.mp hframe
    obtain ⟨otherName, hotherName⟩ := mem_handles.mp hother
    obtain ⟨otherKey, hotherEntry, rfl⟩ := (mem_wires other.payload.flatState).mp hheld
    have hplace := placeId_of_handle hotherName hotherEntry
    rw [show held.keyId = entry.keyId from beq_iff_eq.mp hid] at hplace
    have hsame := hids.unique _ _ _ hplace (placeId_of_handle hhandle hentry)
    rw [Option.some.inj (Prod.mk.inj hsame).1, hhandle] at hotherName
    exact hne (Option.some.inj hotherName).symm

theorem handleFrame_of_row (htidy : Tidy session) (hids : Allocated number count (placeId session))
    {row : WireRow} (hrow : row ∈ sessionRows session) {frame : Frame}
    (htype : frame.frameType = .clientKeyRequest) (hid : frame.keyId = row.id) :
    ∃ wire : StdString × Entry, wireRow wire.1 wire.2 = row ∧
      (session.handleFrame none frame).frames = answer wire := by
  have hframes : (session.handleFrame none frame).frames =
      ((session.requestFromFlatState row.id).or (session.requestFromTopics row.id)).getD [] := by
    simp only [Session.handleFrame, htype, hid]
    rfl
  rw [hframes]
  obtain ⟨source, flat, hflat, hrow⟩ := mem_sessionRows.mp hrow
  obtain ⟨key, entry, hentry, rfl⟩ := (mem_rows flat).mp hrow
  refine ⟨(flat.wirePath key, entry), rfl, ?_⟩
  have hidRow : (wireRow (flat.wirePath key) entry).id = entry.keyId := rfl
  rw [hidRow]
  cases source with
  | none => rw [requestFromFlatState_own htidy hflat hentry, Option.some_or, Option.getD_some]
  | some name =>
      obtain ⟨handle, hhandle, rfl⟩ := Option.map_eq_some_iff.mp hflat
      rw [requestFromFlatState_other htidy hids (placeId_of_handle hhandle hentry),
        Option.none_or, requestFromTopics_own hids hhandle hentry, Option.getD_some]

end Answers

end DanWs.SessionAnswers
