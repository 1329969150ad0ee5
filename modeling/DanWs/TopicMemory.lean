import DanWs.ClientMaps

namespace DanWs.TopicMemory

open DanWs.ClientMaps
open DanWs.Clients
open DanWs.FiniteMaps
open DanWs.KeyPaths
open DanWs.MapChanges
open DanWs.Replication
open DanWs.WireTypes

section Memory

/-- What is remembered of a key is what its path is read as. -/
def Coherent (m : Maps) : Prop :=
  ∀ keyId info entry, m.topicKeyCache.lookup keyId = some info →
    m.registry.byId.lookup keyId = some entry → info = parseTopicKey entry.path

def Named (m : Maps) : Prop :=
  ∀ keyId entry, m.registry.byId.lookup keyId = some entry → entry.path ≠ []

/-- A key id whose topic is remembered is given no path of another topic. -/
def KeepsTopic (registry : KeyRegistry) (topicKeyCache : FiniteMap UInt32 (Option TopicInfo))
    (frame : Frame) : Prop :=
  ∀ path registered info, Registers registry frame path registered →
    topicKeyCache.lookup frame.keyId = some info → info = parseTopicKey path

variable {m m' : Maps} {frame : Frame}

theorem coherent_classify (h : Coherent m) {keyId : UInt32} {path : StdString}
    (hpath : ∀ entry, m.registry.byId.lookup keyId = some entry → entry.path = path) :
    Coherent (m.classify keyId path) := by
  rw [Maps.classify]
  split
  · exact h
  · intro other info entry hinfo hentry
    obtain ⟨rfl, hparse⟩ | ⟨-, hinfo⟩ := lookup_of_lookup_insert hinfo
    · rw [hpath entry hentry]
      exact hparse
    · exact h other info entry hinfo hentry

theorem coherent_store (h : Coherent m) {keyId : UInt32} {entry : KeyEntry}
    (hentry : m.registry.getByKeyId keyId = some entry) (store : FiniteMap UInt32 Payload) :
    Coherent ({ m with store }.classify keyId entry.path) := by
  have hstored : Coherent { m with store } := h
  refine coherent_classify hstored fun other hother => ?_
  rw [Option.some.inj (hother.symm.trans hentry)]

theorem lookup_registered {path : StdString} {registered : KeyRegistry}
    (h : Registers m.registry frame path registered) (keyId : UInt32) :
    registered.byId.lookup keyId =
      if keyId = frame.keyId then some ⟨path, frame.dataType, frame.keyId⟩
      else m.registry.byId.lookup keyId := by
  obtain ⟨-, -, hbyId, -⟩ := registerOne_ok h.accepted
  rw [hbyId, lookup_insert_eq_ite]

/-- A value that waits has no topic remembered for its key. -/
theorem lookup_topicKeyCache_of_pending (h : Consistent m) {keyId : UInt32} {pending : Frame}
    (hpending : m.pendingValues.lookup keyId = some pending) :
    m.topicKeyCache.lookup keyId = none := by
  cases hlookup : m.topicKeyCache.lookup keyId with
  | none => rfl
  | some info =>
      have hknown := h.topicKeyCache keyId (mem_keys_iff_lookup.mpr ⟨info, hlookup⟩)
      exact absurd hknown (h.pendingValues keyId (mem_keys_iff_lookup.mpr ⟨pending, hpending⟩))

theorem coherent_register_iff (hconsistent : Consistent m) (h : Coherent m) {path : StdString}
    {registered : KeyRegistry} (hregisters : Registers m.registry frame path registered) :
    Coherent ({ m with registry := registered }.applyPending frame.keyId path) ↔
      ∀ info, m.topicKeyCache.lookup frame.keyId = some info → info = parseTopicKey path := by
  have hregistered := lookup_registered hregisters
  have hself : ∀ entry, registered.byId.lookup frame.keyId = some entry → entry.path = path := by
    intro entry hentry
    rw [hregistered, if_pos rfl] at hentry
    rw [← Option.some.inj hentry]
  -- as long as nothing is classified yet, only the key of the frame is in question
  have hkept : (∀ info, m.topicKeyCache.lookup frame.keyId = some info →
      info = parseTopicKey path) → ∀ store, Coherent { m with registry := registered, store } := by
    intro hkeeps store keyId info entry hinfo hentry
    rcases eq_or_ne keyId frame.keyId with rfl | hne
    · rw [hself entry hentry]
      exact hkeeps info hinfo
    · dsimp only at hentry
      rw [hregistered, if_neg hne] at hentry
      exact h keyId info entry hinfo hentry
  rw [Maps.applyPending]
  dsimp only
  cases hpending : m.pendingValues.lookup frame.keyId with
  | none =>
      refine ⟨fun hcoherent info hinfo => ?_, fun hkeeps => hkept hkeeps m.store⟩
      exact hcoherent frame.keyId info ⟨path, frame.dataType, frame.keyId⟩ hinfo
        ((hregistered frame.keyId).trans (if_pos rfl))
  | some pending =>
      have hnone := lookup_topicKeyCache_of_pending hconsistent hpending
      have hkeeps : ∀ info, m.topicKeyCache.lookup frame.keyId = some info →
          info = parseTopicKey path := by
        intro info hinfo
        rw [hnone] at hinfo
        cases hinfo
      exact iff_of_true (coherent_classify (hkept hkeeps _) hself) hkeeps

theorem coherent_delete (h : Coherent m) (keyId : UInt32) : Coherent (m.delete keyId) := by
  intro other info entry hinfo hentry
  obtain ⟨hne, hinfo⟩ := lookup_of_lookup_erase hinfo
  rw [Maps.delete, KeyRegistry.removeByKeyId] at hentry
  split at hentry
  · exact h other info entry hinfo hentry
  · exact h other info entry hinfo (lookup_of_lookup_erase hentry).2

/-- One frame keeps the memory coherent exactly when it gives no remembered key
id a path of another topic. -/
theorem coherent_changes_iff (hconsistent : Consistent m) (h : Coherent m)
    (hchanges : m.Changes frame m') :
    Coherent m' ↔ KeepsTopic m.registry m.topicKeyCache frame := by
  have hnot : frame.frameType ≠ .serverKeyRegistration →
      KeepsTopic m.registry m.topicKeyCache frame :=
    fun htype path registered info hregisters => absurd hregisters.frameType htype
  cases hchanges with
  | keep hregister =>
      exact iff_of_true h fun path registered info hregisters =>
        absurd hregisters (hregister path registered)
  | @register path registered hregisters =>
      rw [coherent_register_iff hconsistent h hregisters]
      refine ⟨fun hkeeps other registered' info hother => ?_, fun hkeeps info hinfo => ?_⟩
      · obtain rfl := Payload.string.inj (hregisters.payload.symm.trans hother.payload)
        exact hkeeps info
      · exact hkeeps path registered info hregisters hinfo
  | await htype => exact iff_of_true h (hnot (by simp [htype]))
  | store htype hknown =>
      exact iff_of_true (coherent_store h hknown _) (hnot (by simp [htype]))
  | shift htype hknown =>
      exact iff_of_true (coherent_store h hknown _)
        (hnot (by rcases htype with htype | htype <;> simp [htype]))
  | delete htype => exact iff_of_true (coherent_delete h frame.keyId) (hnot (by simp [htype]))
  | reset htype =>
      refine iff_of_true (fun keyId info entry hinfo => ?_) (hnot (by simp [htype]))
      simp at hinfo

theorem named_changes (h : Named m) (hchanges : m.Changes frame m') : Named m' := by
  have hclassify : ∀ {n : Maps} {path : StdString}, Named n →
      Named (n.classify frame.keyId path) := by
    intro n path hn keyId entry hentry
    rw [(store_classify n frame.keyId path).2.1] at hentry
    exact hn keyId entry hentry
  cases hchanges with
  | keep => exact h
  | @register path registered hregisters =>
      have hregistered : Named { m with registry := registered } := by
        intro keyId entry hentry
        dsimp only at hentry
        rw [lookup_registered hregisters] at hentry
        split at hentry
        · rw [← Option.some.inj hentry]
          intro hpath
          have hvalid := (registerOne_ok hregisters.accepted).1
          rw [show path = [] from hpath] at hvalid
          cases hvalid
        · exact h keyId entry hentry
      rw [Maps.applyPending]
      split
      · exact hregistered
      · exact hclassify hregistered
  | await => exact h
  | store => exact hclassify h
  | shift => exact hclassify h
  | delete =>
      intro keyId entry hentry
      rw [Maps.delete, KeyRegistry.removeByKeyId] at hentry
      split at hentry
      · exact h keyId entry hentry
      · exact h keyId entry (lookup_of_lookup_erase hentry).2
  | reset =>
      intro keyId entry hentry
      cases hentry

end Memory

end DanWs.TopicMemory
