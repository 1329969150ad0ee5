import DanWs.MapChanges
import DanWs.StepRuns

namespace DanWs.ClientMaps

open DanWs.Clients
open DanWs.FiniteMaps
open DanWs.KeyPaths
open DanWs.MapChanges
open DanWs.Replication
open DanWs.StepRuns
open DanWs.WireTypes

section Runs

/-- The maps of a client fit together: what is stored or classified is registered,
what waits is not, and every entry carries the id that it is registered under. -/
structure Consistent (m : Maps) : Prop where
  keyed : Keyed m.registry
  store : ∀ keyId ∈ m.store.keys, m.registry.hasKeyId keyId
  topicKeyCache : ∀ keyId ∈ m.topicKeyCache.keys, m.registry.hasKeyId keyId
  pendingValues : ∀ keyId ∈ m.pendingValues.keys, ¬ m.registry.hasKeyId keyId

variable {m m' : Maps} {frame : Frame}

theorem mem_keys_classify {keyId other : UInt32} {path : StdString}
    (h : other ∈ (m.classify keyId path).topicKeyCache.keys) :
    other = keyId ∨ other ∈ m.topicKeyCache.keys := by
  rw [Maps.classify] at h
  split at h
  · exact Or.inr h
  · rwa [keys_insert, Finset.mem_insert] at h

theorem consistent_classify (h : Consistent m) {keyId : UInt32}
    (hknown : m.registry.hasKeyId keyId) (path : StdString) :
    Consistent (m.classify keyId path) := by
  obtain ⟨hstore, hregistry, hpending⟩ := store_classify m keyId path
  constructor
  · rw [hregistry]
    exact h.keyed
  · rw [hstore, hregistry]
    exact h.store
  · intro other hother
    rw [hregistry]
    rcases mem_keys_classify hother with rfl | hother
    · exact hknown
    · exact h.topicKeyCache other hother
  · rw [hpending, hregistry]
    exact h.pendingValues

theorem consistent_register (h : Consistent m) {path : StdString} {registered : KeyRegistry}
    (hregisters : Registers m.registry frame path registered) :
    Consistent ({ m with registry := registered }.applyPending frame.keyId path) := by
  have hkeyed : Keyed registered := by
    obtain ⟨-, -, hbyId, -⟩ := registerOne_ok hregisters.accepted
    exact keyed_insert h.keyed ⟨path, frame.dataType, frame.keyId⟩ hbyId rfl
  have hknown : registered.hasKeyId frame.keyId :=
    (hregisters.hasKeyId_iff frame.keyId).mpr (Or.inl rfl)
  have hmono : ∀ keyId, m.registry.hasKeyId keyId → registered.hasKeyId keyId :=
    fun keyId hkeyId => (hregisters.hasKeyId_iff keyId).mpr (Or.inr hkeyId)
  have hwaits : ∀ keyId ∈ m.pendingValues.keys, keyId ≠ frame.keyId →
      ¬ registered.hasKeyId keyId := by
    intro keyId hkeyId hne hregistered
    rcases (hregisters.hasKeyId_iff keyId).mp hregistered with heq | hold
    · exact hne heq
    · exact h.pendingValues keyId hkeyId hold
  rw [Maps.applyPending]
  dsimp only
  cases hlookup : m.pendingValues.lookup frame.keyId with
  | none =>
      refine ⟨hkeyed, fun keyId hkeyId => hmono keyId (h.store keyId hkeyId),
        fun keyId hkeyId => hmono keyId (h.topicKeyCache keyId hkeyId), fun keyId hkeyId => ?_⟩
      refine hwaits keyId hkeyId ?_
      rintro rfl
      obtain ⟨pending, hpending⟩ := mem_keys_iff_lookup.mp hkeyId
      rw [hlookup] at hpending
      cases hpending
  | some pending =>
      dsimp only
      obtain ⟨hstore, hregistry, hpending⟩ := store_classify
        (⟨registered, m.store.insert frame.keyId pending.payload, m.pendingValues,
          m.topicKeyCache⟩ : Maps) frame.keyId path
      constructor
      · rw [hregistry]
        exact hkeyed
      · intro keyId hkeyId
        dsimp only at hkeyId ⊢
        rw [hstore, keys_insert, Finset.mem_insert] at hkeyId
        rw [hregistry]
        rcases hkeyId with rfl | hkeyId
        · exact hknown
        · exact hmono keyId (h.store keyId hkeyId)
      · intro keyId hkeyId
        dsimp only at hkeyId ⊢
        rw [hregistry]
        rcases mem_keys_classify hkeyId with rfl | hkeyId
        · exact hknown
        · exact hmono keyId (h.topicKeyCache keyId hkeyId)
      · intro keyId hkeyId
        dsimp only at hkeyId ⊢
        rw [hpending, Finmap.keys_erase, Finset.mem_erase] at hkeyId
        rw [hregistry]
        exact hwaits keyId hkeyId.2 hkeyId.1

theorem consistent_delete (h : Consistent m) (keyId : UInt32) :
    Consistent (m.delete keyId) := by
  have hother : ∀ other, other ≠ keyId → m.registry.hasKeyId other →
      (m.registry.removeByKeyId keyId).1.hasKeyId other := by
    intro other hne hknown
    rw [KeyRegistry.removeByKeyId]
    split
    · exact hknown
    · rw [KeyRegistry.hasKeyId, lookup_erase_eq_ite, if_neg hne]
      exact hknown
  refine ⟨keyed_removeByKeyId h.keyed keyId, fun other hmem => ?_, fun other hmem => ?_,
    fun other hmem hknown => ?_⟩
  · rw [Maps.delete, Finmap.keys_erase, Finset.mem_erase] at hmem
    exact hother other hmem.1 (h.store other hmem.2)
  · rw [Maps.delete, Finmap.keys_erase, Finset.mem_erase] at hmem
    exact hother other hmem.1 (h.topicKeyCache other hmem.2)
  · refine h.pendingValues other hmem ?_
    rw [Maps.delete, KeyRegistry.removeByKeyId] at hknown
    split at hknown
    · exact hknown
    · rw [KeyRegistry.hasKeyId, lookup_erase_eq_ite] at hknown
      split at hknown
      · cases hknown
      · exact hknown

theorem consistent_changes (h : Consistent m) (hchanges : m.Changes frame m') :
    Consistent m' := by
  have hknown : ∀ {entry}, m.registry.getByKeyId frame.keyId = some entry →
      m.registry.hasKeyId frame.keyId :=
    fun hentry => Option.isSome_iff_exists.mpr ⟨_, hentry⟩
  cases hchanges with
  | keep => exact h
  | register hregisters => exact consistent_register h hregisters
  | await _ hunknown =>
      refine ⟨h.keyed, h.store, h.topicKeyCache, fun keyId hkeyId => ?_⟩
      rw [keys_insert, Finset.mem_insert] at hkeyId
      rcases hkeyId with rfl | hkeyId
      · rw [KeyRegistry.hasKeyId, show m.registry.byId.lookup frame.keyId = none from hunknown]
        exact Bool.false_ne_true
      · exact h.pendingValues keyId hkeyId
  | store _ hentry =>
      have hstored : Consistent
          { m with store := m.store.insert frame.keyId frame.payload } := by
        refine ⟨h.keyed, fun keyId hkeyId => ?_, h.topicKeyCache, h.pendingValues⟩
        rw [keys_insert, Finset.mem_insert] at hkeyId
        rcases hkeyId with rfl | hkeyId
        · exact hknown hentry
        · exact h.store keyId hkeyId
      exact consistent_classify hstored (hknown hentry) _
  | @shift entry store _ hentry hstore =>
      have hshifted : Consistent { m with store } := by
        refine ⟨h.keyed, fun keyId hkeyId => ?_, h.topicKeyCache, h.pendingValues⟩
        rcases hstore keyId hkeyId with hkeyId | rfl | ⟨other, held, hheld, rfl⟩
        · exact h.store keyId hkeyId
        · exact hknown hentry
        · rw [h.keyed other held hheld]
          exact Option.isSome_iff_exists.mpr ⟨held, hheld⟩
      exact consistent_classify hshifted (hknown hentry) _
  | delete => exact consistent_delete h frame.keyId
  | reset =>
      refine ⟨fun keyId entry hentry => ?_, fun keyId hkeyId => ?_, fun keyId hkeyId => ?_,
        fun keyId hkeyId => ?_⟩
      · simp [KeyRegistry.clear] at hentry
      all_goals simp at hkeyId

def afterFrame (client : Client) (frame : Frame) : Client := (client.handleFrame frame).client

theorem consistent_afterFrame {client : Client} (h : Consistent (maps client)) (frame : Frame) :
    Consistent (maps (afterFrame client frame)) :=
  consistent_changes h (changes_handleFrame client frame)

theorem consistent_new : Consistent (maps Client.new) := by
  constructor <;> simp [maps, Client.new, Keyed, KeyRegistry.empty, KeyRegistry.new]

theorem consistent_afterFrames (frames : List Frame) :
    Consistent (maps (run afterFrame Client.new frames)) :=
  @invariant_run _ _ afterFrame (fun _ _ => True) (fun client => Consistent (maps client))
    (fun _ frame hclient _ => consistent_afterFrame hclient frame) _ consistent_new frames
    (stepsMeet_of_forall fun _ _ => trivial)

/-- Whatever frames a client has processed, what it holds by key id fits together. -/
theorem consistent_run (frames : List Frame) :
    (∀ keyId ∈ (run afterFrame Client.new frames).store.keys,
        (run afterFrame Client.new frames).registry.hasKeyId keyId) ∧
      (∀ keyId ∈ (run afterFrame Client.new frames).topicKeyCache.keys,
        (run afterFrame Client.new frames).registry.hasKeyId keyId) ∧
      ∀ keyId ∈ (run afterFrame Client.new frames).pendingValues.keys,
        ¬ (run afterFrame Client.new frames).registry.hasKeyId keyId := by
  have h := consistent_afterFrames frames
  exact ⟨h.store, h.topicKeyCache, h.pendingValues⟩

end Runs

end DanWs.ClientMaps
