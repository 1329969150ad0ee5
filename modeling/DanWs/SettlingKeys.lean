import DanWs.KeyRequests

namespace DanWs.SettlingKeys

open DanWs.FiniteMaps
open DanWs.FlatStates
open DanWs.KeyPaths
open DanWs.KeyRequests
open DanWs.KeyStores
open DanWs.Replicas
open DanWs.Replication
open DanWs.WireRows
open DanWs.WireTypes

/-- The client knows the rows `known` and the keys `done`, and holds the values
of `passed` for what it knows. -/
structure Settling (known : Finset WireRow) (flat : List (StdString × Entry))
    (passed done : List (StdString × Entry)) (keys : KeyStore) : Prop where
  keyed : Keyed keys.registry
  ids : ∀ id, (∃ entry, keys.registry.byId.lookup id = some entry) ↔
    (∃ row ∈ known, row.id = id) ∨ ∃ wire ∈ done, wire.2.keyId = id
  idOf : ∀ path id, keys.registry.pathToId.lookup path = some id ↔
    (∃ wire ∈ done, wire.1 = path ∧ wire.2.keyId = id) ∨
      (∀ wire ∈ done, wire.1 ≠ path) ∧ ∃ row ∈ known, row.path = path ∧ row.id = id
  values : ∀ id value, keys.store.lookup id = some value ↔
    (∃ entry, keys.registry.byId.lookup id = some entry) ∧
      ∃ wire ∈ passed, wire.2.keyId = id ∧ wire.2.value = value
  pending : ∀ id frame, keys.pendingValues.lookup id = some frame →
    ∃ wire ∈ flat, wire.2.keyId = id ∧ wire.2.value = frame.payload
  card : keys.registry.byId.keys.card = known.card + done.length
  limit : keys.registry.maxKeys = 10000

/-- No two keys share a path or an id. -/
structure Distinct (flat : List (StdString × Entry)) : Prop where
  path : ∀ wire ∈ flat, ∀ other ∈ flat, wire.1 = other.1 → wire = other
  id : ∀ wire ∈ flat, ∀ other ∈ flat, wire.2.keyId = other.2.keyId → wire = other

/-- The keys whose ids do not appear in the rows. -/
def unknownWires (known : Finset WireRow) (flat : List (StdString × Entry)) :
    List (StdString × Entry) :=
  flat.filter fun wire => wire.2.keyId ∉ known.image Row.id

def wireIds (list : List (StdString × Entry)) : List UInt32 := list.map fun wire => wire.2.keyId

section Values

variable {known : Finset WireRow} {flat passed done : List (StdString × Entry)} {keys : KeyStore}
  {wire : StdString × Entry}

theorem settling_of_tracks (h : Tracks keys known ∅) (hids : UniqueIds known)
    (hlimit : keys.registry.maxKeys = 10000) : Settling known flat [] [] keys := by
  have hknown : ∀ id, (∃ entry, keys.registry.byId.lookup id = some entry) ↔
      ∃ row ∈ known, row.id = id := by
    intro id
    constructor
    · rintro ⟨entry, hentry⟩
      obtain ⟨row, hrow, hid, _⟩ := (h.names.pathOf id entry.path).mp (pathOf_of_lookup hentry)
      exact ⟨row, hrow, hid⟩
    · rintro ⟨row, hrow, rfl⟩
      exact lookup_byId_of_names h.names hrow
  refine ⟨h.keyed, ?_, ?_, ?_, ?_, ?_, hlimit⟩
  · simpa using hknown
  · intro path id
    have hidOf := h.names.idOf path id
    rw [show keys.replica.idOf path = keys.registry.pathToId.lookup path from rfl] at hidOf
    simpa using hidOf
  · intro id value
    have hvalue := h.holds id value
    rw [show keys.replica.valueOf id = keys.store.lookup id from rfl] at hvalue
    simpa using hvalue
  · intro id frame hframe
    rw [h.pending] at hframe
    cases hframe
  · have himage : keys.registry.byId.keys = known.image Row.id := by
      ext id
      rw [mem_keys_iff_lookup, hknown, Finset.mem_image]
    rw [himage, Finset.card_image_of_injOn]
    · rfl
    · exact fun row hrow other hother => hids row hrow other hother

theorem settling_value (h : Settling known flat passed done keys) (hdistinct : Distinct flat)
    (hpassed : ∀ other ∈ passed, other ∈ flat) (hwire : wire ∈ flat) :
    Settling known flat (passed ++ [wire]) done (keys.apply (FlatState.valueFrame wire.2)) := by
  rw [KeyStore.apply, FlatState.valueFrame]
  dsimp only
  rw [KeyStore.storeValue, KeyRegistry.getByKeyId]
  dsimp only
  cases hknown : keys.registry.byId.lookup wire.2.keyId with
  | none =>
      refine ⟨h.keyed, h.ids, h.idOf, fun id value => ?_, fun id frame hframe => ?_, h.card,
        h.limit⟩
      · rw [h.values id value]
        refine and_congr_right fun hstored => ?_
        have hne : wire.2.keyId ≠ id := by
          rintro rfl
          obtain ⟨entry, hentry⟩ := hstored
          rw [hknown] at hentry
          cases hentry
        simp [hne]
      · obtain ⟨hid, heq⟩ | ⟨-, hframe⟩ := lookup_of_lookup_insert hframe
        · exact ⟨wire, hwire, hid.symm, by rw [heq]⟩
        · exact h.pending id frame hframe
  | some entry =>
      refine ⟨h.keyed, h.ids, h.idOf, fun id value => ?_, h.pending, h.card, h.limit⟩
      rw [lookup_insert_eq_ite]
      split
      · next hid =>
          subst hid
          constructor
          · intro hvalue
            exact ⟨⟨entry, hknown⟩, wire, by simp, rfl, Option.some.inj hvalue⟩
          · rintro ⟨_, other, hother, hid, rfl⟩
            have hmem : other ∈ flat := by
              rcases List.mem_append.mp hother with hother | hother
              · exact hpassed other hother
              · rwa [List.mem_singleton.mp hother]
            rw [hdistinct.id other hmem wire hwire hid]
      · next hne =>
          rw [h.values id value]
          refine and_congr_right fun _ => ?_
          have hne' : wire.2.keyId ≠ id := fun heq => hne heq.symm
          simp [hne']

theorem asks_valueFrame (h : Settling known flat passed [] keys) (wire : StdString × Entry) :
    asks keys (FlatState.valueFrame wire.2) = wireIds (unknownWires known [wire]) := by
  have hknown := h.ids wire.2.keyId
  simp only [List.not_mem_nil, false_and, exists_false, or_false, ← Finset.mem_image] at hknown
  by_cases hmem : wire.2.keyId ∈ known.image Row.id
  · obtain ⟨entry, hentry⟩ := hknown.mpr hmem
    have hne : ¬ keys.registry.byId.lookup wire.2.keyId = none := by
      rw [hentry]
      exact Option.some_ne_none entry
    rw [asks, if_neg fun hvalue => hne hvalue.2, unknownWires,
      List.filter_cons_of_neg (by simpa using hmem)]
    rfl
  · have hnone : keys.registry.byId.lookup wire.2.keyId = none :=
      Option.eq_none_iff_forall_ne_some.mpr fun entry hentry => hmem (hknown.mp ⟨entry, hentry⟩)
    rw [asks, if_pos ⟨rfl, hnone⟩, unknownWires,
      List.filter_cons_of_pos (by simpa using hmem)]
    rfl

theorem settling_values (hdistinct : Distinct flat) {rest : List (StdString × Entry)}
    (hflat : flat = passed ++ rest) (h : Settling known flat passed [] keys) :
    Settling known flat flat [] (keys.receive (valueFrames rest)) ∧
      asksFor keys (valueFrames rest) = wireIds (unknownWires known rest) := by
  induction rest generalizing passed keys with
  | nil =>
      rw [List.append_nil] at hflat
      exact ⟨hflat ▸ h, rfl⟩
  | cons wire rest ih =>
      have hpassed : ∀ other ∈ passed, other ∈ flat := by
        intro other hother
        rw [hflat]
        exact List.mem_append_left _ hother
      have hwire : wire ∈ flat := by
        rw [hflat]
        exact List.mem_append_right _ List.mem_cons_self
      have hnext := settling_value h hdistinct hpassed hwire
      obtain ⟨hsettling, hasks⟩ := ih (by rw [hflat, List.append_assoc]; rfl) hnext
      refine ⟨hsettling, ?_⟩
      have hunknown : unknownWires known (wire :: rest) =
          unknownWires known [wire] ++ unknownWires known rest := List.filter_append [wire] rest
      rw [valueFrames, List.map_cons, asksFor, asks_valueFrame h, hunknown, wireIds, wireIds,
        List.map_append]
      exact congrArg _ hasks

end Values

section Answers

variable {known : Finset WireRow} {flat done : List (StdString × Entry)} {keys : KeyStore}
  {wire : StdString × Entry}

/-- The registration of a key is accepted. -/
def Room (known : Finset WireRow) (done : List (StdString × Entry)) (wire : StdString × Entry) :
    Prop :=
  (∃ row ∈ known, row.path = wire.1) ∨ known.card + done.length < 10000

/-- The key is not known yet, by its id or from an answer. -/
structure Asked (known : Finset WireRow) (flat done : List (StdString × Entry))
    (wire : StdString × Entry) : Prop where
  mem : wire ∈ flat
  unknown : ∀ row ∈ known, row.id ≠ wire.2.keyId
  id : ∀ other ∈ done, other.2.keyId ≠ wire.2.keyId
  path : ∀ other ∈ done, other.1 ≠ wire.1

theorem lookup_of_asked (h : Settling known flat flat done keys)
    (hasked : Asked known flat done wire) : keys.registry.byId.lookup wire.2.keyId = none := by
  rw [Option.eq_none_iff_forall_ne_some]
  intro entry hentry
  rcases (h.ids wire.2.keyId).mp ⟨entry, hentry⟩ with ⟨row, hrow, hid⟩ | ⟨other, hother, hid⟩
  · exact hasked.unknown row hrow hid
  · exact hasked.id other hother hid

theorem path_of_asked (h : Settling known flat flat done keys)
    (hasked : Asked known flat done wire) :
    keys.registry.pathToId.lookup wire.1 = none ↔ ¬ ∃ row ∈ known, row.path = wire.1 := by
  constructor
  · rintro hnone ⟨row, hrow, hpath⟩
    have hidOf := (h.idOf wire.1 row.id).mpr (Or.inr ⟨hasked.path, row, hrow, hpath, rfl⟩)
    rw [hnone] at hidOf
    cases hidOf
  · intro hnew
    rw [Option.eq_none_iff_forall_ne_some]
    intro id hid
    rcases (h.idOf wire.1 id).mp hid with ⟨other, hother, hpath, _⟩ | ⟨_, row, hrow, hpath, _⟩
    · exact hasked.path other hother hpath
    · exact hnew ⟨row, hrow, hpath⟩

theorem idOf_settled (h : Settling known flat flat done keys)
    (hasked : Asked known flat done wire) (path : StdString) (id : UInt32) :
    (keys.registry.pathToId.insert wire.1 wire.2.keyId).lookup path = some id ↔
      (∃ other ∈ done ++ [wire], other.1 = path ∧ other.2.keyId = id) ∨
        (∀ other ∈ done ++ [wire], other.1 ≠ path) ∧
          ∃ row ∈ known, row.path = path ∧ row.id = id := by
  rw [lookup_insert_eq_ite]
  split
  · next heq =>
      constructor
      · intro hsome
        exact Or.inl ⟨wire, by simp, heq.symm, Option.some.inj hsome⟩
      · rintro (⟨other, hother, hpath', hid'⟩ | ⟨hnone, _⟩)
        · rcases List.mem_append.mp hother with hother | hother
          · exact absurd (hpath'.trans heq) (hasked.path other hother)
          · rw [← hid', List.mem_singleton.mp hother]
        · exact absurd heq.symm (hnone wire (by simp))
  · next hne =>
      rw [h.idOf path id]
      have hlast : ∀ other ∈ [wire], other.1 ≠ path := by
        intro other hother
        rw [List.mem_singleton.mp hother]
        exact fun heq => hne heq.symm
      constructor
      · rintro (⟨other, hother, hboth⟩ | ⟨hnone, hrow⟩)
        · exact Or.inl ⟨other, List.mem_append_left _ hother, hboth⟩
        · refine Or.inr ⟨fun other hother => ?_, hrow⟩
          exact (List.mem_append.mp hother).elim (hnone other) (hlast other)
      · rintro (⟨other, hother, hboth⟩ | ⟨hnone, hrow⟩)
        · rcases List.mem_append.mp hother with hother | hother
          · exact Or.inl ⟨other, hother, hboth⟩
          · exact absurd hboth.1 (hlast other hother)
        · exact Or.inr ⟨fun other hother => hnone other (List.mem_append_left _ hother), hrow⟩

theorem settling_answer (h : Settling known flat flat done keys)
    (hasked : Asked known flat done wire) (hdistinct : Distinct flat)
    (hvalid : checkKeyPath wire.1 = .ok ()) (hroom : Room known done wire) :
    Settling known flat flat (done ++ [wire]) (keys.receive (answer wire)) ∧
      asksFor keys (answer wire) = [] := by
  have hunknown := lookup_of_asked h hasked
  have hfits : keys.registry.pathToId.lookup wire.1 = none →
      keys.registry.byId.keys.card < keys.registry.maxKeys := by
    intro hnew
    rw [h.card, h.limit]
    exact hroom.resolve_left ((path_of_asked h hasked).mp hnew)
  obtain ⟨entry, hid, hbyId, hpathToId, hstore, hpending, hasks⟩ := receive_answer hvalid hfits
  refine ⟨⟨keyed_insert h.keyed entry hbyId hid, ?_, ?_, ?_, ?_, ?_, ?_⟩, hasks⟩
  · intro id
    rw [hbyId, lookup_insert_eq_ite]
    split
    · next heq => simp [heq]
    · next hne =>
        have hne' : wire.2.keyId ≠ id := fun heq => hne heq.symm
        simp [h.ids id, hne']
  · intro path id
    rw [hpathToId]
    exact idOf_settled h hasked path id
  · intro id value
    rw [hstore, hbyId, lookup_insert_eq_ite]
    split
    · next heq =>
        subst heq
        constructor
        · intro hsome
          exact ⟨⟨entry, rfl⟩, wire, hasked.mem, rfl, Option.some.inj hsome⟩
        · rintro ⟨_, other, hother, hid', rfl⟩
          rw [hdistinct.id other hother wire hasked.mem hid']
    · exact h.values id value
  · intro id frame hframe
    exact h.pending id frame (hpending id frame hframe)
  · rw [hbyId, keys_insert, Finset.card_insert_of_notMem, h.card, List.length_append]
    · rfl
    · rw [mem_keys_iff_lookup, hunknown]
      simp
  · rw [maxKeys_receive, h.limit]

end Answers

end DanWs.SettlingKeys
