import DanWs.PathValidation
import DanWs.ReceivedFrames

namespace DanWs.StockedStates

open DanWs.FiniteMaps
open DanWs.FlatStates
open DanWs.KeyPaths
open DanWs.PathValidation
open DanWs.ReceivedFrames
open DanWs.TypedValues
open DanWs.WireRows
open DanWs.WireTypes

structure Stocked (maxBufferSize : Nat) (flat : FlatState) : Prop where
  typed : Typed flat
  values : ∀ key entry, flat.entries.lookup key = some entry →
    Transmissible maxBufferSize entry.value

section Stores

variable {maxBufferSize : Nat} {flat : FlatState} {nextKeyId : UInt32} {key : StdString}
  {value : Payload}

theorem stocked_of_empty (h : flat.entries = ∅) : Stocked maxBufferSize flat := by
  refine ⟨typed_of_empty h, fun key entry hentry => ?_⟩
  rw [h] at hentry
  cases hentry

theorem lookup_set_value (flat : FlatState) (nextKeyId : UInt32) (key : StdString)
    (value : Payload) :
    ∃ entry, (flat.set nextKeyId key value).1.entries.lookup key = some entry ∧
      entry.value = value := by
  simp only [FlatState.set]
  split
  · split <;> exact ⟨_, Finmap.lookup_insert _, rfl⟩
  · exact ⟨_, Finmap.lookup_insert _, rfl⟩

theorem stocked_set (h : Stocked maxBufferSize flat) (hvalue : Transmissible maxBufferSize value) :
    Stocked maxBufferSize (flat.set nextKeyId key value).1 := by
  refine ⟨typed_set h.typed, fun other entry hentry => ?_⟩
  rcases eq_or_ne other key with rfl | hne
  · obtain ⟨new, hnew, rfl⟩ := lookup_set_value flat nextKeyId other value
    obtain rfl := Option.some.inj (hentry.symm.trans hnew)
    exact hvalue
  · rw [lookup_set_of_ne flat nextKeyId value hne] at hentry
    exact h.values other entry hentry

theorem transmissible_of_stocked_set
    (h : Stocked maxBufferSize (flat.set nextKeyId key value).1) :
    Transmissible maxBufferSize value := by
  obtain ⟨entry, hentry, rfl⟩ := lookup_set_value flat nextKeyId key value
  exact h.values key entry hentry

theorem stocked_clearKey (h : Stocked maxBufferSize flat) :
    Stocked maxBufferSize (flat.clearKey key).1 :=
  ⟨typed_clearKey h.typed, fun other entry hentry => h.values other entry (lookup_clearKey hentry)⟩

end Stores

/-- A key whose registration and value are both taken. -/
structure Sendable (maxBufferSize : Nat) (wire : StdString × Entry) : Prop where
  valid : checkKeyPath wire.1 = .ok ()
  typed : wire.2.type = detectDataType wire.2.value
  value : Transmissible maxBufferSize wire.2.value

section Frames

variable {maxBufferSize : Nat} {flat : FlatState} {entry : Entry}

def pathRoom : Nat := 206

theorem carried_signalFrame {frameType : FrameType} (hroom : pathRoom ≤ maxBufferSize)
    (hsignal : frameType.isSignalFrame = true) :
    Carried maxBufferSize (signalFrame frameType) := by
  have hregistration : frameType.isKeyRegistrationFrame = false := by
    cases frameType <;> first | rfl | cases hsignal
  rw [pathRoom] at hroom
  rw [Carried, signalFrame, if_neg (by simp [hregistration]), if_pos hsignal]
  exact ⟨rfl, by omega⟩

theorem carried_deleteFrame (hroom : pathRoom ≤ maxBufferSize) (keyId : UInt32) :
    Carried maxBufferSize (FlatState.deleteFrame keyId) := by
  rw [pathRoom] at hroom
  exact ⟨rfl, by omega⟩

theorem carried_registrationFrame (hroom : pathRoom ≤ maxBufferSize) {path : StdString}
    (hvalid : checkKeyPath path = .ok ()) (entry : Entry) :
    Carried maxBufferSize (registrationFrame path entry) := by
  have hlength := ((checkKeyPath_eq_ok_iff path).mp hvalid).1
  rw [pathRoom] at hroom
  exact ⟨path, rfl, by omega⟩

theorem carried_valueFrame (htype : entry.type = detectDataType entry.value)
    (hvalue : Transmissible maxBufferSize entry.value) :
    Carried maxBufferSize (FlatState.valueFrame entry) :=
  ⟨htype, hvalue⟩

variable {nextKeyId : UInt32} {key : StdString} {value : Payload}

theorem carried_entryFrames (hroom : pathRoom ≤ maxBufferSize)
    (h : Sendable maxBufferSize (flat.wirePath key, entry)) :
    ∀ frame ∈ flat.entryFrames key entry, Carried maxBufferSize frame := by
  rw [FlatState.entryFrames, List.forall_mem_cons, List.forall_mem_cons, List.forall_mem_singleton]
  exact ⟨carried_registrationFrame hroom h.valid entry, carried_signalFrame hroom rfl,
    carried_valueFrame h.typed h.value⟩

theorem carried_set (hroom : pathRoom ≤ maxBufferSize)
    (hvalid : checkKeyPath (flat.wirePath key) = .ok ())
    (hvalue : Transmissible maxBufferSize value) :
    ∀ frame ∈ (flat.set nextKeyId key value).2.2, Carried maxBufferSize frame := by
  rw [FlatState.set]
  split
  · next old hold =>
      split
      · rw [List.forall_mem_cons]
        exact ⟨carried_deleteFrame hroom old.keyId, carried_entryFrames hroom ⟨hvalid, rfl, hvalue⟩⟩
      · next htype =>
          rw [List.forall_mem_singleton]
          exact carried_valueFrame (not_not.mp htype) hvalue
  · exact carried_entryFrames hroom ⟨hvalid, rfl, hvalue⟩

theorem carried_clearKey (hroom : pathRoom ≤ maxBufferSize) (flat : FlatState)
    (key : StdString) : ∀ frame ∈ (flat.clearKey key).2, Carried maxBufferSize frame := by
  rw [FlatState.clearKey]
  split
  · simp
  · rw [List.forall_mem_singleton]
    exact carried_deleteFrame hroom _

theorem carried_announcement (hroom : pathRoom ≤ maxBufferSize) {list : List (StdString × Entry)}
    (h : ∀ wire ∈ list, Sendable maxBufferSize wire) :
    ∀ frame ∈ announcement list, Carried maxBufferSize frame := by
  simp only [announcement, registrationFrames, valueFrames, List.forall_mem_append,
    List.forall_mem_singleton, List.forall_mem_map]
  refine ⟨⟨⟨carried_signalFrame hroom rfl, fun wire hwire => ?_⟩, carried_signalFrame hroom rfl⟩,
    fun wire hwire => ?_⟩
  · exact carried_registrationFrame hroom (h wire hwire).valid wire.2
  · exact carried_valueFrame (h wire hwire).typed (h wire hwire).value

theorem sendable_of_mem_wires [HashOrder StdString] (h : Stocked maxBufferSize flat)
    {wire : StdString × Entry} (hwire : wire ∈ wires flat)
    (hvalid : checkKeyPath wire.1 = .ok ()) : Sendable maxBufferSize wire := by
  obtain ⟨path, entry⟩ := wire
  obtain ⟨key, hentry, rfl⟩ := (mem_wires flat).mp hwire
  exact ⟨hvalid, h.typed key entry hentry, h.values key entry hentry⟩

end Frames

end DanWs.StockedStates
