import DanWs.KeyStores
import DanWs.WireRows

namespace DanWs.Replication

open DanWs.Clients
open DanWs.FiniteMaps
open DanWs.FlatStates
open DanWs.KeyPaths
open DanWs.KeyStores
open DanWs.Replicas
open DanWs.WireRows
open DanWs.WireTypes

/-- Every entry of the registry carries the id it is registered under. -/
def Keyed (registry : KeyRegistry) : Prop :=
  ∀ keyId entry, registry.byId.lookup keyId = some entry → entry.keyId = keyId

/-- The client knows the keys of the rows `named`, holds the values of the rows
`held`, and no value waits for its key. -/
structure Tracks (keys : KeyStore) (named held : Finset WireRow) : Prop where
  keyed : Keyed keys.registry
  names : Names keys.replica named
  holds : Holds keys.replica held
  pending : keys.pendingValues = ∅

def InSync (keys : KeyStore) (rows : Finset WireRow) : Prop := Tracks keys rows rows

theorem InSync.mirrors {keys : KeyStore} {rows : Finset WireRow} (h : InSync keys rows) :
    Mirrors keys.replica rows :=
  ⟨h.names, h.holds⟩

section Registry

variable {registry : KeyRegistry} {keyId : UInt32} {path : StdString} {type : DataType}

theorem registerOne_eq_ok (hvalid : checkKeyPath path = .ok ())
    (hroom : registry.pathToId.lookup path = none →
      registry.byId.keys.card < registry.maxKeys) :
    registry.registerOne keyId path type =
      .ok { registry with
        byId := registry.byId.insert keyId ⟨path, type, keyId⟩
        pathToId := registry.pathToId.insert path keyId
        nextId := if registry.nextId ≤ keyId then keyId + 1 else registry.nextId } := by
  rw [KeyRegistry.registerOne, hvalid]
  dsimp only
  rw [if_neg]
  rintro ⟨hnew, hfull⟩
  exact absurd (hroom hnew) (Nat.not_lt.mpr hfull)

theorem exists_registerOne (hvalid : checkKeyPath path = .ok ())
    (hroom : registry.pathToId.lookup path = none →
      registry.byId.keys.card < registry.maxKeys) (keyId : UInt32) (type : DataType) :
    ∃ registered, registry.registerOne keyId path type = .ok registered :=
  ⟨_, registerOne_eq_ok hvalid hroom⟩

theorem registerOne_ok {registered : KeyRegistry}
    (h : registry.registerOne keyId path type = .ok registered) :
    checkKeyPath path = .ok () ∧
      (registry.pathToId.lookup path = none → registry.byId.keys.card < registry.maxKeys) ∧
      registered.byId = registry.byId.insert keyId ⟨path, type, keyId⟩ ∧
      registered.pathToId = registry.pathToId.insert path keyId ∧
      registered.maxKeys = registry.maxKeys := by
  rw [KeyRegistry.registerOne] at h
  split at h
  · cases h
  · next hvalid =>
      split at h
      · cases h
      · next hroom =>
          cases h
          refine ⟨hvalid, fun hnew => ?_, rfl, rfl, rfl⟩
          exact Nat.lt_of_not_le fun hfull => hroom ⟨hnew, hfull⟩

theorem keyed_insert (h : Keyed registry) (entry : KeyEntry) {registered : KeyRegistry}
    (hinsert : registered.byId = registry.byId.insert keyId entry) (hid : entry.keyId = keyId) :
    Keyed registered := by
  intro other held hheld
  rw [hinsert] at hheld
  obtain ⟨heq, hentry⟩ | ⟨-, hheld⟩ := lookup_of_lookup_insert hheld
  · rw [hentry, hid, heq]
  · exact h other held hheld

theorem keyed_removeByKeyId (h : Keyed registry) (keyId : UInt32) :
    Keyed (registry.removeByKeyId keyId).1 := by
  rw [KeyRegistry.removeByKeyId]
  split
  · exact h
  · intro other held hheld
    exact h other held (lookup_of_lookup_erase hheld).2

theorem maxKeys_removeByKeyId (registry : KeyRegistry) (keyId : UInt32) :
    (registry.removeByKeyId keyId).1.maxKeys = registry.maxKeys := by
  rw [KeyRegistry.removeByKeyId]
  split <;> rfl

end Registry

section Frames

variable {keys : KeyStore} {named held rows : Finset WireRow}

theorem replica_register (registry : KeyRegistry) (keyId : UInt32) (path : StdString)
    (type : DataType) (nextId : UInt32) :
    KeyStore.replica { keys with
        registry := { registry with
          byId := registry.byId.insert keyId ⟨path, type, keyId⟩
          pathToId := registry.pathToId.insert path keyId
          nextId } } =
      (KeyStore.replica { keys with registry }).register keyId path := by
  simp only [KeyStore.replica, Replica.register, Replica.mk.injEq, and_true]
  refine ⟨funext fun id => ?_, funext fun other => ?_⟩
  · rw [lookup_insert_eq_ite, Function.update_apply]
    split <;> rfl
  · rw [lookup_insert_eq_ite, Function.update_apply]

theorem replica_store (keyId : UInt32) (value : Payload) :
    KeyStore.replica { keys with store := keys.store.insert keyId value } =
      keys.replica.put keyId value := by
  simp only [KeyStore.replica, Replica.put, Replica.mk.injEq, true_and]
  funext id
  rw [lookup_insert_eq_ite, Function.update_apply]

theorem replica_delete (keyId : UInt32) :
    (keys.delete keyId).replica = keys.replica.drop keyId := by
  simp only [KeyStore.replica, KeyStore.delete, Replica.drop, Replica.mk.injEq]
  have hstore : (fun id => (keys.store.erase keyId).lookup id) =
      Function.update (fun id => keys.store.lookup id) keyId none := by
    funext id
    rw [lookup_erase_eq_ite, Function.update_apply]
  cases hentry : keys.registry.byId.lookup keyId with
  | none =>
      have hremoved : (keys.registry.removeByKeyId keyId).1 = keys.registry := by
        rw [KeyRegistry.removeByKeyId, hentry]
      rw [hremoved]
      refine ⟨funext fun id => ?_, rfl, hstore⟩
      rw [Function.update_apply]
      split
      · next heq => rw [heq, hentry, Option.map_none]
      · rfl
  | some entry =>
      have hremoved : (keys.registry.removeByKeyId keyId).1 =
          { keys.registry with
            byId := keys.registry.byId.erase keyId
            pathToId := keys.registry.pathToId.erase entry.path } := by
        rw [KeyRegistry.removeByKeyId, hentry]
      rw [hremoved]
      refine ⟨funext fun id => ?_, funext fun path => ?_, hstore⟩
      · rw [lookup_erase_eq_ite, Function.update_apply]
        split <;> rfl
      · simp only [lookup_erase_eq_ite, Option.map_some, Function.update_apply]

theorem pathOf_of_lookup {keyId : UInt32} {entry : KeyEntry}
    (h : keys.registry.byId.lookup keyId = some entry) :
    keys.replica.pathOf keyId = some entry.path :=
  congrArg (Option.map KeyEntry.path) h

theorem card_byId_le (h : Names keys.replica named) :
    keys.registry.byId.keys.card ≤ named.card := by
  have hsub : keys.registry.byId.keys ⊆ named.image Row.id := by
    intro id hid
    obtain ⟨entry, hentry⟩ := mem_keys_iff_lookup.mp hid
    obtain ⟨row, hrow, rfl, _⟩ := (h.pathOf id entry.path).mp (pathOf_of_lookup hentry)
    exact Finset.mem_image_of_mem _ hrow
  exact (Finset.card_le_card hsub).trans Finset.card_image_le

theorem applyPending_of_empty (h : keys.pendingValues = ∅) (keyId : UInt32) :
    keys.applyPending keyId = keys := by
  rw [KeyStore.applyPending, h, Finmap.lookup_empty]

/-- A registration that is accepted, and the value that was waiting for it. -/
theorem apply_registrationFrame {keys : KeyStore} {path : StdString} {entry : Entry}
    {registered : KeyRegistry}
    (h : keys.registry.registerOne entry.keyId path entry.type = .ok registered) :
    keys.apply (registrationFrame path entry) =
      KeyStore.applyPending { keys with registry := registered } entry.keyId := by
  simp only [KeyStore.apply, registrationFrame, KeyStore.register, h]

theorem tracks_registration (h : Tracks keys named held) {path : StdString} {entry : Entry}
    (hvalid : checkKeyPath path = .ok ())
    (hkeyed : WellKeyed (insert (wireRow path entry) named))
    (hroom : wireRow path entry ∈ named ∨ named.card < keys.registry.maxKeys) :
    Tracks (keys.apply (registrationFrame path entry)) (insert (wireRow path entry) named)
      held := by
  have hfits : keys.registry.pathToId.lookup path = none →
      keys.registry.byId.keys.card < keys.registry.maxKeys := by
    intro hnew
    rcases hroom with hmem | hlt
    · have hknown := (h.names.idOf path entry.keyId).mpr ⟨_, hmem, rfl, rfl⟩
      rw [show keys.replica.idOf path = keys.registry.pathToId.lookup path from rfl,
        hnew] at hknown
      cases hknown
    · exact Nat.lt_of_le_of_lt (card_byId_le h.names) hlt
  have hstep : keys.apply (registrationFrame path entry) = { keys with
      registry := { keys.registry with
        byId := keys.registry.byId.insert entry.keyId ⟨path, entry.type, entry.keyId⟩
        pathToId := keys.registry.pathToId.insert path entry.keyId
        nextId :=
          if keys.registry.nextId ≤ entry.keyId then entry.keyId + 1
          else keys.registry.nextId } } := by
    rw [apply_registrationFrame (registerOne_eq_ok hvalid hfits)]
    exact applyPending_of_empty (by exact h.pending) entry.keyId
  rw [hstep]
  refine ⟨keyed_insert h.keyed _ rfl rfl, ?_, ?_, h.pending⟩
  · rw [replica_register]
    have hnames := Replica.names_register h.names hkeyed
    exact hnames
  · rw [replica_register]
    exact Replica.holds_register h.holds entry.keyId path

theorem lookup_byId_of_names (h : Names keys.replica named) {row : WireRow} (hrow : row ∈ named) :
    ∃ entry, keys.registry.byId.lookup row.id = some entry := by
  have hpath := (h.pathOf row.id row.path).mpr ⟨row, hrow, rfl, rfl⟩
  obtain ⟨entry, hentry, _⟩ := Option.map_eq_some_iff.mp hpath
  exact ⟨entry, hentry⟩

theorem apply_valueFrame (h : Names keys.replica named) {row : WireRow} (hrow : row ∈ named)
    {entry : Entry} (hid : row.id = entry.keyId) :
    keys.apply (FlatState.valueFrame entry) =
      { keys with store := keys.store.insert entry.keyId entry.value } := by
  obtain ⟨known, hknown⟩ := lookup_byId_of_names h hrow
  rw [hid] at hknown
  rw [KeyStore.apply, FlatState.valueFrame]
  simp only [KeyStore.storeValue, KeyRegistry.getByKeyId, hknown]

theorem tracks_value (h : Tracks keys named held) {path : StdString} {entry : Entry}
    (hnamed : wireRow path entry ∈ named)
    (hkeyed : WellKeyed (insert (wireRow path entry) held)) :
    Tracks (keys.apply (FlatState.valueFrame entry)) named
      (insert (wireRow path entry) held) := by
  rw [apply_valueFrame h.names hnamed rfl]
  refine ⟨h.keyed, ?_, ?_, h.pending⟩
  · rw [replica_store]
    exact Replica.names_put h.names entry.keyId entry.value
  · rw [replica_store]
    have hholds := Replica.holds_put h.holds hkeyed
    exact hholds

theorem inSync_value (h : InSync keys rows) {path : StdString} {entry : Entry}
    (hrow : wireRow path entry ∈ rows) (value : Payload) :
    InSync (keys.apply (FlatState.valueFrame { entry with value }))
      (insert (wireRow path { entry with value }) (rows.erase (wireRow path entry))) := by
  have hmirrors := Replica.mirrors_put h.mirrors hrow value
  let changed : Entry := { entry with value }
  have hstep : keys.apply (FlatState.valueFrame changed) =
      { keys with store := keys.store.insert entry.keyId value } :=
    apply_valueFrame h.names hrow rfl
  rw [hstep]
  refine ⟨h.keyed, ?_, ?_, h.pending⟩
  · rw [replica_store]
    exact hmirrors.names
  · rw [replica_store]
    exact hmirrors.holds

theorem inSync_delete (h : InSync keys rows) {row : WireRow} (hrow : row ∈ rows) :
    InSync (keys.apply (FlatState.deleteFrame row.id)) (rows.erase row) := by
  have hmirrors := Replica.mirrors_drop h.mirrors hrow
  rw [← replica_delete] at hmirrors
  exact ⟨keyed_removeByKeyId h.keyed row.id, hmirrors.names, hmirrors.holds, h.pending⟩

theorem tracks_reset (keys : KeyStore) : Tracks (keys.apply (signalFrame .serverReset)) ∅ ∅ where
  keyed := by
    intro keyId entry h
    cases h
  names := Replica.names_empty
  holds := Replica.holds_empty
  pending := rfl

theorem apply_sync (keys : KeyStore) : keys.apply (signalFrame .serverSync) = keys := rfl

theorem maxKeys_apply (keys : KeyStore) (frame : Frame) :
    (keys.apply frame).registry.maxKeys = keys.registry.maxKeys := by
  rw [KeyStore.apply]
  split
  · rw [KeyStore.register]
    split
    · split
      · rfl
      · next registered hregistered =>
          rw [KeyStore.registry_applyPending]
          exact (registerOne_ok hregistered).2.2.2.2
    · rfl
  · rw [KeyStore.registry_storeValue]
  · exact maxKeys_removeByKeyId keys.registry frame.keyId
  · rfl
  · rfl

theorem maxKeys_receive (keys : KeyStore) (frames : List Frame) :
    (keys.receive frames).registry.maxKeys = keys.registry.maxKeys := by
  induction frames generalizing keys with
  | nil => rfl
  | cons frame frames ih => rw [KeyStore.receive_cons, ih, maxKeys_apply]

end Frames

section Lists

variable {keys : KeyStore} {named held : Finset WireRow} {all : Finset WireRow}

theorem mem_or_card_lt {row : WireRow} {limit : Nat} (h : (insert row named).card ≤ limit) :
    row ∈ named ∨ named.card < limit := by
  by_cases hmem : row ∈ named
  · exact Or.inl hmem
  · rw [Finset.card_insert_of_notMem hmem] at h
    exact Or.inr h

theorem tracks_registrations (hkeyed : WellKeyed all) (hcard : all.card ≤ keys.registry.maxKeys)
    {list : List (StdString × Entry)}
    (hlist : ∀ wire ∈ list, wireRow wire.1 wire.2 ∈ all ∧ checkKeyPath wire.1 = .ok ())
    (hnamed : named ⊆ all) (h : Tracks keys named held) :
    Tracks (keys.receive (registrationFrames list)) (named ∪ wireRows list) held := by
  induction list generalizing keys named with
  | nil => simpa [registrationFrames, wireRows] using h
  | cons wire list ih =>
      obtain ⟨hmem, hvalid⟩ := hlist wire List.mem_cons_self
      have hsub : insert (wireRow wire.1 wire.2) named ⊆ all :=
        Finset.insert_subset hmem hnamed
      have hroom := mem_or_card_lt ((Finset.card_le_card hsub).trans hcard)
      have hnext := tracks_registration h hvalid (hkeyed.mono hsub) hroom
      have hlimit : all.card ≤
          (keys.apply (registrationFrame wire.1 wire.2)).registry.maxKeys := by
        rwa [maxKeys_apply]
      have hrest := ih hlimit
        (fun other hother => hlist other (List.mem_cons_of_mem _ hother)) hsub hnext
      rw [registrationFrames, List.map_cons, KeyStore.receive_cons]
      rw [union_wireRows_cons]
      exact hrest

theorem tracks_values (hkeyed : WellKeyed named) {list : List (StdString × Entry)}
    (hlist : ∀ wire ∈ list, wireRow wire.1 wire.2 ∈ named) (hheld : held ⊆ named)
    (h : Tracks keys named held) :
    Tracks (keys.receive (valueFrames list)) named (held ∪ wireRows list) := by
  induction list generalizing keys held with
  | nil => simpa [valueFrames, wireRows] using h
  | cons wire list ih =>
      have hmem := hlist wire List.mem_cons_self
      have hsub : insert (wireRow wire.1 wire.2) held ⊆ named :=
        Finset.insert_subset hmem hheld
      have hnext := tracks_value h hmem (hkeyed.mono hsub)
      have hrest := ih (fun other hother => hlist other (List.mem_cons_of_mem _ hother)) hsub hnext
      rw [valueFrames, List.map_cons, KeyStore.receive_cons]
      rw [union_wireRows_cons]
      exact hrest

theorem isSyncFrame_registrationFrames (list : List (StdString × Entry)) :
    ∀ frame ∈ registrationFrames list, isSyncFrame frame := by
  intro frame hframe
  obtain ⟨wire, _, rfl⟩ := List.mem_map.mp hframe
  rfl

theorem isSyncFrame_valueFrames (list : List (StdString × Entry)) :
    ∀ frame ∈ valueFrames list, isSyncFrame frame := by
  intro frame hframe
  obtain ⟨wire, _, rfl⟩ := List.mem_map.mp hframe
  rfl

theorem isSyncFrame_announcement (list : List (StdString × Entry)) :
    ∀ frame ∈ announcement list, isSyncFrame frame := by
  intro frame hframe
  simp only [announcement, List.mem_append, List.mem_singleton] at hframe
  rcases hframe with ((rfl | hframe) | rfl) | hframe
  · rfl
  · exact isSyncFrame_registrationFrames list frame hframe
  · rfl
  · exact isSyncFrame_valueFrames list frame hframe

theorem registry_valueFrames (keys : KeyStore) (list : List (StdString × Entry)) :
    (keys.receive (valueFrames list)).registry = keys.registry := by
  induction list generalizing keys with
  | nil => rfl
  | cons wire list ih =>
      rw [valueFrames, List.map_cons, KeyStore.receive_cons]
      exact (ih _).trans (KeyStore.registry_storeValue keys _)

/-- A full announcement brings any keys and values in step. -/
theorem inSync_announcement (keys : KeyStore) {list : List (StdString × Entry)}
    (hkeyed : WellKeyed (wireRows list)) (hcard : (wireRows list).card ≤ keys.registry.maxKeys)
    (hvalid : ∀ wire ∈ list, checkKeyPath wire.1 = .ok ()) :
    InSync (keys.receive (announcement list)) (wireRows list) := by
  have hmem : ∀ wire ∈ list, wireRow wire.1 wire.2 ∈ wireRows list :=
    fun wire hwire => mem_wireRows.mpr ⟨wire, hwire, rfl⟩
  have hnamed := tracks_registrations hkeyed
    (by rw [maxKeys_apply]; exact hcard) (fun wire hwire => ⟨hmem wire hwire, hvalid wire hwire⟩)
    (Finset.empty_subset _) (tracks_reset keys)
  rw [Finset.empty_union] at hnamed
  have hheld := tracks_values hkeyed hmem (Finset.empty_subset _) hnamed
  rw [Finset.empty_union] at hheld
  rw [announcement, KeyStore.receive_append, KeyStore.receive_append, KeyStore.receive_append]
  exact hheld

end Lists

section Access

variable {client : Client} {rows : Finset WireRow}

theorem get_of_inSync (h : InSync (keyStore client) rows) {row : WireRow} (hrow : row ∈ rows) :
    client.get row.path = row.value := by
  have hid : client.registry.pathToId.lookup row.path = some row.id :=
    (h.names.idOf row.path row.id).mpr ⟨row, hrow, rfl, rfl⟩
  have hvalue : client.store.lookup row.id = some row.value :=
    (h.holds row.id row.value).mpr ⟨row, hrow, rfl, rfl⟩
  obtain ⟨entry, hentry⟩ := lookup_byId_of_names h.names hrow
  rw [show (keyStore client).registry = client.registry from rfl] at hentry
  rw [Client.get, KeyRegistry.getByPath, hid, Option.bind_some, hentry]
  dsimp only
  rw [h.keyed row.id entry hentry, hvalue, Option.getD_some]

theorem mem_keys_of_inSync [HashOrder StdString] (h : InSync (keyStore client) rows)
    (path : StdString) : path ∈ client.keys ↔ ∃ row ∈ rows, row.path = path := by
  rw [Client.keys, KeyRegistry.paths, HashOrder.order.mem_enumerate, mem_keys_iff_lookup]
  constructor
  · rintro ⟨keyId, hid⟩
    obtain ⟨row, hrow, hpath, _⟩ := (h.names.idOf path keyId).mp hid
    exact ⟨row, hrow, hpath⟩
  · rintro ⟨row, hrow, rfl⟩
    exact ⟨row.id, (h.names.idOf row.path row.id).mpr ⟨row, hrow, rfl, rfl⟩⟩

/-- The client has exactly the keys of the rows, under their ids and with their
values, and answers with them. -/
structure ExactCopy [HashOrder StdString] (client : Client) (rows : Finset WireRow) : Prop where
  inSync : InSync (keyStore client) rows
  get : ∀ row ∈ rows, client.get row.path = row.value
  keys : ∀ path, path ∈ client.keys ↔ ∃ row ∈ rows, row.path = path

theorem exactCopy_of_inSync [HashOrder StdString] (h : InSync (keyStore client) rows) :
    ExactCopy client rows :=
  ⟨h, fun _ hrow => get_of_inSync h hrow, mem_keys_of_inSync h⟩

end Access

section SyncFrames

variable (flat : FlatState) (nextKeyId : UInt32) (key : StdString) (value : Payload)

theorem isSyncFrame_entryFrames (entry : Entry) :
    ∀ frame ∈ flat.entryFrames key entry, isSyncFrame frame := by
  intro frame hframe
  simp only [FlatState.entryFrames, List.mem_cons, List.not_mem_nil, or_false] at hframe
  rcases hframe with rfl | rfl | rfl <;> rfl

theorem isSyncFrame_set : ∀ frame ∈ (flat.set nextKeyId key value).2.2, isSyncFrame frame := by
  intro frame hframe
  rw [FlatState.set] at hframe
  split at hframe
  · split at hframe
    · rcases List.mem_cons.mp hframe with rfl | hframe
      · rfl
      · exact isSyncFrame_entryFrames _ _ _ frame hframe
    · rw [List.mem_singleton.mp hframe]
      rfl
  · exact isSyncFrame_entryFrames _ _ _ frame hframe

theorem isSyncFrame_clearKey : ∀ frame ∈ (flat.clearKey key).2, isSyncFrame frame := by
  intro frame hframe
  rw [FlatState.clearKey] at hframe
  split at hframe
  · cases hframe
  · rw [List.mem_singleton.mp hframe]
    rfl

end SyncFrames

section Operations

variable {keys : KeyStore} {flat : FlatState} {others : Finset WireRow} {nextKeyId : UInt32}
  {key : StdString} {value : Payload}

theorem inSync_entryFrames {rows : Finset WireRow} (h : InSync keys rows) {entry : Entry}
    (hvalid : checkKeyPath (flat.wirePath key) = .ok ())
    (hkeyed : WellKeyed (insert (wireRow (flat.wirePath key) entry) rows))
    (hcard : (insert (wireRow (flat.wirePath key) entry) rows).card ≤ keys.registry.maxKeys) :
    InSync (keys.receive (flat.entryFrames key entry))
      (insert (wireRow (flat.wirePath key) entry) rows) := by
  have hnamed := tracks_registration h hvalid hkeyed (mem_or_card_lt hcard)
  exact tracks_value hnamed (Finset.mem_insert_self _ rows) hkeyed

theorem erase_union {mine : Finset WireRow} {row : WireRow} (hdisjoint : Disjoint mine others)
    (hrow : row ∈ mine) : mine.erase row ∪ others = (mine ∪ others).erase row := by
  rw [Finset.erase_union_distrib,
    Finset.erase_eq_of_notMem (Finset.disjoint_left.mp hdisjoint hrow)]

/-- A client that is in step with a store, and with others beside it, stays in
step behind the frames of `set`. -/
theorem inSync_set (h : InSync keys (rows flat ∪ others)) (hdisjoint : Disjoint (rows flat) others)
    (hvalid : checkKeyPath (flat.wirePath key) = .ok ())
    (hkeyed : WellKeyed (rows (flat.set nextKeyId key value).1 ∪ others))
    (hcard : (rows (flat.set nextKeyId key value).1 ∪ others).card ≤ keys.registry.maxKeys) :
    InSync (keys.receive (flat.set nextKeyId key value).2.2)
      (rows (flat.set nextKeyId key value).1 ∪ others) := by
  cases hold : flat.entries.lookup key with
  | none =>
      rw [rows_set_new hold, Finset.insert_union] at hkeyed hcard ⊢
      rw [frames_set_new hold]
      exact inSync_entryFrames h hvalid hkeyed hcard
  | some old =>
      have hrow : wireRow (flat.wirePath key) old ∈ rows flat := wireRow_mem_rows hold
      rcases eq_or_ne old.type (detectDataType value) with htype | htype
      · rw [rows_set_same hold htype, Finset.insert_union, erase_union hdisjoint hrow,
          frames_set_same hold htype]
        exact inSync_value h (Finset.mem_union_left others hrow) value
      · rw [rows_set_retyped hold htype, Finset.insert_union, erase_union hdisjoint hrow]
          at hkeyed hcard ⊢
        rw [frames_set_retyped hold htype, KeyStore.receive_cons]
        have hdeleted := inSync_delete h (Finset.mem_union_left others hrow)
        exact inSync_entryFrames hdeleted hvalid hkeyed (by rw [maxKeys_apply]; exact hcard)

theorem inSync_clearKey (h : InSync keys (rows flat ∪ others))
    (hdisjoint : Disjoint (rows flat) others) :
    InSync (keys.receive (flat.clearKey key).2) (rows (flat.clearKey key).1 ∪ others) := by
  cases hold : flat.entries.lookup key with
  | none =>
      have hsame : flat.clearKey key = (flat, []) := by rw [FlatState.clearKey, hold]
      rw [hsame]
      exact h
  | some old =>
      have hrow : wireRow (flat.wirePath key) old ∈ rows flat := wireRow_mem_rows hold
      rw [rows_clearKey hold, erase_union hdisjoint hrow, frames_clearKey hold]
      exact inSync_delete h (Finset.mem_union_left others hrow)

end Operations

end DanWs.Replication
