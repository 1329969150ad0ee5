import DanWs.KeyAcceptance
import DanWs.Settlement

namespace DanWs.LeftoverKeys

open DanWs.FiniteMaps
open DanWs.FlatStates
open DanWs.KeyAcceptance
open DanWs.KeyPaths
open DanWs.KeyRequests
open DanWs.KeyStores
open DanWs.Replication
open DanWs.Settlement
open DanWs.WireRows
open DanWs.WireTypes

/-- Each key whose path is new comes while there are fewer than `maxKeys` ids. -/
def HasRoom (maxKeys : Nat) : Finset StdString → Finset UInt32 → List (StdString × Entry) → Prop
  | _, _, [] => True
  | paths, ids, wire :: rest =>
      (wire.1 ∈ paths ∨ ids.card < maxKeys) ∧
        HasRoom maxKeys (insert wire.1 paths) (insert wire.2.keyId ids) rest

instance decidableHasRoom (maxKeys : Nat) (paths : Finset StdString) (ids : Finset UInt32)
    (flat : List (StdString × Entry)) : Decidable (HasRoom maxKeys paths ids flat) :=
  match flat with
  | [] => isTrue trivial
  | wire :: rest =>
      have := decidableHasRoom maxKeys (insert wire.1 paths) (insert wire.2.keyId ids) rest
      inferInstanceAs (Decidable (_ ∧ _))

/-- The registry has room for all keys, one after the other. -/
def FindsRoom (registry : KeyRegistry) (flat : List (StdString × Entry)) : Prop :=
  HasRoom registry.maxKeys registry.pathToId.keys registry.byId.keys flat

instance (registry : KeyRegistry) (flat : List (StdString × Entry)) :
    Decidable (FindsRoom registry flat) :=
  inferInstanceAs (Decidable (HasRoom _ _ _ _))

section Registrations

variable {keys : KeyStore} {flat : List (StdString × Entry)} {wire : StdString × Entry}

theorem apply_registration (hvalid : checkKeyPath wire.1 = .ok ())
    (hroom : wire.1 ∈ keys.registry.pathToId.keys ∨
      keys.registry.byId.keys.card < keys.registry.maxKeys) :
    (keys.apply (registrationFrame wire.1 wire.2)).registry.byId =
        keys.registry.byId.insert wire.2.keyId ⟨wire.1, wire.2.type, wire.2.keyId⟩ ∧
      (keys.apply (registrationFrame wire.1 wire.2)).registry.pathToId =
        keys.registry.pathToId.insert wire.1 wire.2.keyId := by
  have hfits : keys.registry.pathToId.lookup wire.1 = none →
      keys.registry.byId.keys.card < keys.registry.maxKeys := by
    intro hnew
    refine hroom.resolve_left fun hmem => ?_
    obtain ⟨id, hid⟩ := mem_keys_iff_lookup.mp hmem
    exact (Option.some_ne_none id) (hid.symm.trans hnew)
  obtain ⟨_, registered, hregistry, hbyId, hpathToId, _⟩ := registers_of_room hvalid hfits
  rw [hregistry]
  exact ⟨hbyId, hpathToId⟩

theorem receive_registrations (hvalid : ∀ wire ∈ flat, checkKeyPath wire.1 = .ok ())
    (hroom : FindsRoom keys.registry flat) :
    (keys.receive (registrationFrames flat)).registry.byId =
        flat.foldl (fun byId wire =>
          byId.insert wire.2.keyId ⟨wire.1, wire.2.type, wire.2.keyId⟩) keys.registry.byId ∧
      (keys.receive (registrationFrames flat)).registry.pathToId =
        flat.foldl (fun pathToId wire => pathToId.insert wire.1 wire.2.keyId)
          keys.registry.pathToId := by
  induction flat generalizing keys with
  | nil => exact ⟨rfl, rfl⟩
  | cons wire flat ih =>
      obtain ⟨hfirst, hrest⟩ := hroom
      obtain ⟨hbyId, hpathToId⟩ := apply_registration (hvalid wire List.mem_cons_self) hfirst
      have hmax := maxKeys_apply keys (registrationFrame wire.1 wire.2)
      have hnext : FindsRoom (keys.apply (registrationFrame wire.1 wire.2)).registry flat := by
        rw [FindsRoom, hmax, hbyId, hpathToId, keys_insert, keys_insert]
        exact hrest
      have hall := ih (fun other hother => hvalid other (List.mem_cons_of_mem wire hother)) hnext
      rw [hbyId, hpathToId] at hall
      exact hall

def DistinctPaths (flat : List (StdString × Entry)) : Prop :=
  ∀ wire ∈ flat, ∀ other ∈ flat, wire.1 = other.1 → wire = other

/-- Keys that share an id have one value. -/
def Unambiguous (flat : List (StdString × Entry)) : Prop :=
  ∀ wire ∈ flat, ∀ other ∈ flat, wire.2.keyId = other.2.keyId → wire.2.value = other.2.value

instance (flat : List (StdString × Entry)) : Decidable (Unambiguous flat) :=
  inferInstanceAs (Decidable (∀ wire ∈ flat, ∀ other ∈ flat,
    wire.2.keyId = other.2.keyId → wire.2.value = other.2.value))

/-- The registry knows the keys, and no other paths. -/
structure Registered (flat : List (StdString × Entry)) (registry : KeyRegistry) : Prop where
  known : ∀ wire ∈ flat, ∃ entry : KeyEntry,
    registry.byId.lookup wire.2.keyId = some entry ∧ entry.keyId = wire.2.keyId
  idOf : ∀ wire ∈ flat, registry.pathToId.lookup wire.1 = some wire.2.keyId
  only : ∀ path ∈ registry.pathToId.keys, ∃ wire ∈ flat, wire.1 = path

theorem registered_of_room (hdistinct : DistinctPaths flat)
    (hvalid : ∀ wire ∈ flat, checkKeyPath wire.1 = .ok ())
    (hroom : FindsRoom keys.registry flat)
    (honly : ∀ path ∈ keys.registry.pathToId.keys, ∃ wire ∈ flat, wire.1 = path) :
    Registered flat (keys.receive (registrationFrames flat)).registry := by
  obtain ⟨hbyId, hpathToId⟩ := receive_registrations hvalid hroom
  refine ⟨fun wire hwire => ?_, fun wire hwire => ?_, fun path hpath => ?_⟩
  · obtain ⟨other, _, hid, hlookup⟩ := @exists_lookup_foldl_insert _ _ _ _
      (fun wire : StdString × Entry => wire.2.keyId)
      (fun wire => KeyEntry.mk wire.1 wire.2.type wire.2.keyId) wire.2.keyId flat
      keys.registry.byId ⟨wire, hwire, rfl⟩
    rw [hbyId]
    exact ⟨_, hlookup, hid⟩
  · rw [hpathToId]
    refine lookup_foldl_insert (fun other hother hpath => ?_) (Or.inr ⟨wire, hwire, rfl⟩)
    rw [hdistinct other hother wire hwire hpath]
  · rw [hpathToId, mem_keys_foldl_insert] at hpath
    exact hpath.elim (honly path) id

theorem receive_values
    (hknown : ∀ wire ∈ flat, ∃ entry, keys.registry.byId.lookup wire.2.keyId = some entry) :
    (keys.receive (valueFrames flat)).store =
        flat.foldl (fun store wire => store.insert wire.2.keyId wire.2.value) keys.store ∧
      asksFor keys (valueFrames flat) = [] := by
  induction flat generalizing keys with
  | nil => exact ⟨rfl, rfl⟩
  | cons wire flat ih =>
      obtain ⟨entry, hentry⟩ := hknown wire List.mem_cons_self
      have hstep : keys.apply (FlatState.valueFrame wire.2) =
          { keys with store := keys.store.insert wire.2.keyId wire.2.value } := by
        rw [KeyStore.apply, FlatState.valueFrame]
        simp only [KeyStore.storeValue, KeyRegistry.getByKeyId, hentry]
      have hasks : asks keys (FlatState.valueFrame wire.2) = [] := by
        refine if_neg fun hvalue => ?_
        exact (Option.some_ne_none entry) (hentry.symm.trans hvalue.2)
      obtain ⟨hstore, hlater⟩ := @ih (keys.apply (FlatState.valueFrame wire.2)) (by
        rw [hstep]
        exact fun other hother => hknown other (List.mem_cons_of_mem wire hother))
      rw [valueFrames, List.map_cons, KeyStore.receive_cons, asksFor, hasks, List.foldl_cons]
      rw [hstep] at hstore hlater ⊢
      exact ⟨hstore, hlater⟩

/-- The values go to the ids, so keys of one id end up with the same. -/
theorem copies_iff_unambiguous (h : Registered flat keys.registry) :
    Copies (keys.receive (valueFrames flat)) flat ↔ Unambiguous flat := by
  obtain ⟨hstore, _⟩ := receive_values fun wire hwire => (h.known wire hwire).imp fun _ => And.left
  have hregistry := registry_valueFrames keys flat
  have hpaths : ∀ path, (∃ id, (keys.receive (valueFrames flat)).registry.pathToId.lookup path =
      some id) ↔ ∃ wire ∈ flat, wire.1 = path := by
    intro path
    rw [hregistry, ← mem_keys_iff_lookup]
    refine ⟨h.only path, ?_⟩
    rintro ⟨wire, hwire, rfl⟩
    exact mem_keys_iff_lookup.mpr ⟨_, h.idOf wire hwire⟩
  -- what is got for a key is the value of the last one with its id
  have hget : ∀ wire ∈ flat, ∃ other ∈ flat, other.2.keyId = wire.2.keyId ∧
      ∀ same ∈ flat, same.2.keyId = wire.2.keyId →
        getIn (keys.receive (valueFrames flat)) same.1 = other.2.value := by
    intro wire hwire
    obtain ⟨other, hother, hid, hlookup⟩ := @exists_lookup_foldl_insert _ _ _ _
      (fun wire : StdString × Entry => wire.2.keyId) (fun wire => wire.2.value) wire.2.keyId flat
      keys.store ⟨wire, hwire, rfl⟩
    refine ⟨other, hother, hid, fun same hmem hsame => ?_⟩
    obtain ⟨entry, hentry, hentryId⟩ := h.known same hmem
    have hfound : (keys.receive (valueFrames flat)).registry.getByPath same.1 = some entry := by
      rw [hregistry, KeyRegistry.getByPath, h.idOf same hmem, Option.bind_some, hentry]
    rw [getIn, hfound]
    dsimp only
    rw [hstore, hentryId, hsame, hlookup, Option.getD_some]
  constructor
  · rintro ⟨_, hvalues⟩ wire hwire other hother hid
    obtain ⟨_, _, _, hsame⟩ := hget wire hwire
    rw [← hvalues wire hwire, ← hvalues other hother, hsame wire hwire rfl,
      hsame other hother hid.symm]
  · intro hshared
    refine ⟨hpaths, fun wire hwire => ?_⟩
    obtain ⟨other, hother, hid, hsame⟩ := hget wire hwire
    rw [hsame wire hwire rfl, hshared other hother wire hwire hid]

end Registrations

section Divergence

/-- What a session sends about its keys, unless it is asked for a resync. -/
inductive Offered (flat : List (StdString × Entry)) : Frame → Prop
  | registration {wire : StdString × Entry} (h : wire ∈ flat) :
      Offered flat (registrationFrame wire.1 wire.2)
  | sync : Offered flat (signalFrame .serverSync)
  | value {wire : StdString × Entry} (h : wire ∈ flat) :
      Offered flat (FlatState.valueFrame wire.2)

/-- The client has a path that the server does not have, or has no room for a key
of the server. -/
inductive Apart (flat : List (StdString × Entry)) (registry : KeyRegistry) : Prop
  | kept (path : StdString) (h : path ∈ registry.pathToId.keys)
      (hgone : ∀ wire ∈ flat, wire.1 ≠ path)
  | shutOut (wire : StdString × Entry) (h : wire ∈ flat)
      (hnew : registry.pathToId.lookup wire.1 = none)
      (hfull : registry.maxKeys ≤ registry.byId.keys.card)

variable {keys : KeyStore} {flat : List (StdString × Entry)} {wire : StdString × Entry}

theorem isSyncFrame_of_offered {frame : Frame} (h : Offered flat frame) : isSyncFrame frame := by
  cases h <;> rfl

theorem offered_registrationFrames {list : List (StdString × Entry)}
    (hlist : ∀ wire ∈ list, wire ∈ flat) :
    ∀ frame ∈ registrationFrames list, Offered flat frame := by
  intro frame hframe
  obtain ⟨wire, hwire, rfl⟩ := List.mem_map.mp hframe
  exact .registration (hlist wire hwire)

theorem offered_valueFrames : ∀ frame ∈ valueFrames flat, Offered flat frame := by
  intro frame hframe
  obtain ⟨wire, hwire, rfl⟩ := List.mem_map.mp hframe
  exact .value hwire

theorem apart_registerOne {registry registered : KeyRegistry}
    (hregistered : registry.registerOne wire.2.keyId wire.1 wire.2.type = .ok registered)
    (h : Apart flat registry) : Apart flat registered := by
  obtain ⟨_, hroom, hbyId, hpathToId, hmax⟩ := registerOne_ok hregistered
  cases h with
  | kept path h hgone =>
      refine .kept path ?_ hgone
      rw [hpathToId, keys_insert]
      exact Finset.mem_insert_of_mem h
  | shutOut other h hnew hfull =>
      have hne : other.1 ≠ wire.1 := by
        intro hpath
        rw [hpath] at hnew
        exact absurd hfull (Nat.not_le.mpr (hroom hnew))
      refine .shutOut other h ?_ ?_
      · rw [hpathToId, lookup_insert_eq_ite, if_neg hne]
        exact hnew
      · rw [hmax, hbyId, keys_insert]
        exact hfull.trans (Finset.card_le_card (Finset.subset_insert _ _))

/-- Nothing that the session sends brings the two together again. -/
theorem apart_apply {frame : Frame} (hframe : Offered flat frame)
    (h : Apart flat keys.registry) : Apart flat (keys.apply frame).registry := by
  cases hframe with
  | registration _ =>
      rw [KeyStore.apply]
      dsimp only [registrationFrame]
      rw [KeyStore.register]
      dsimp only
      split
      · exact h
      · next registered hregistered =>
          rw [KeyStore.registry_applyPending]
          exact apart_registerOne hregistered h
  | sync => exact h
  | value _ =>
      rw [KeyStore.apply]
      dsimp only [FlatState.valueFrame]
      rw [KeyStore.registry_storeValue]
      exact h

theorem apart_receive {frames : List Frame} (hframes : ∀ frame ∈ frames, Offered flat frame)
    (h : Apart flat keys.registry) : Apart flat (keys.receive frames).registry := by
  induction frames generalizing keys with
  | nil => exact h
  | cons frame frames ih =>
      exact ih (fun other hother => hframes other (List.mem_cons_of_mem frame hother))
        (apart_apply (hframes frame List.mem_cons_self) h)

/-- Without room for all keys, the first that finds none is shut out. -/
theorem apart_of_no_room {list : List (StdString × Entry)} (hlist : ∀ wire ∈ list, wire ∈ flat)
    (hvalid : ∀ wire ∈ flat, checkKeyPath wire.1 = .ok ())
    (h : ¬ FindsRoom keys.registry list) :
    Apart flat (keys.receive (registrationFrames list)).registry := by
  induction list generalizing keys with
  | nil => exact absurd trivial h
  | cons wire list ih =>
      have hwire := hlist wire List.mem_cons_self
      have hrest : ∀ other ∈ list, other ∈ flat :=
        fun other hother => hlist other (List.mem_cons_of_mem wire hother)
      by_cases hroom : wire.1 ∈ keys.registry.pathToId.keys ∨
          keys.registry.byId.keys.card < keys.registry.maxKeys
      · obtain ⟨hbyId, hpathToId⟩ := apply_registration (hvalid wire hwire) hroom
        refine @ih (keys.apply (registrationFrame wire.1 wire.2)) hrest fun hnext => h ⟨hroom, ?_⟩
        rw [FindsRoom, maxKeys_apply, hbyId, hpathToId, keys_insert, keys_insert] at hnext
        exact hnext
      · obtain ⟨hnew, hfull⟩ := not_or.mp hroom
        refine apart_receive (offered_registrationFrames hlist)
          (.shutOut wire hwire ?_ (Nat.le_of_not_lt hfull))
        rw [mem_keys_iff_lookup, not_exists] at hnew
        exact Option.eq_none_iff_forall_ne_some.mpr hnew

theorem not_copies_of_apart (h : Apart flat keys.registry) : ¬ Copies keys flat := by
  rintro ⟨hpaths, _⟩
  cases h with
  | kept path h hgone =>
      obtain ⟨wire, hwire, hpath⟩ := (hpaths path).mp (mem_keys_iff_lookup.mp h)
      exact hgone wire hwire hpath
  | shutOut wire h hnew hfull =>
      obtain ⟨id, hid⟩ := (hpaths wire.1).mpr ⟨wire, h, rfl⟩
      exact (Option.some_ne_none id) (hid.symm.trans hnew)

/-- The client asks for keys that the server has. -/
theorem live_asksFor {frames : List Frame} (hframes : ∀ frame ∈ frames, Offered flat frame) :
    ∀ id ∈ asksFor keys frames, ∃ wire ∈ flat, wire.2.keyId = id := by
  induction frames generalizing keys with
  | nil => simp [asksFor]
  | cons frame frames ih =>
      intro id hid
      rw [asksFor] at hid
      rcases List.mem_append.mp hid with hfirst | hlater
      · rw [asks] at hfirst
        split at hfirst
        · next hvalue =>
            rw [List.mem_singleton.mp hfirst]
            cases hframes frame List.mem_cons_self with
            | registration _ => exact absurd hvalue.1 FrameType.noConfusion
            | sync => exact absurd hvalue.1 FrameType.noConfusion
            | value hwire => exact ⟨_, hwire, rfl⟩
        · cases hfirst
      · exact ih (fun other hother => hframes other (List.mem_cons_of_mem frame hother)) id hlater

end Divergence

end DanWs.LeftoverKeys
