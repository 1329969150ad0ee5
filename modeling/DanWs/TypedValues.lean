import DanWs.CodecRoundTrip
import DanWs.CompactDecimals
import DanWs.WireRows

namespace DanWs.TypedValues

open DanWs.BinaryFloat
open DanWs.Codec
open DanWs.CodecRoundTrip
open DanWs.CompactDecimals
open DanWs.CompactForms
open DanWs.FiniteMaps
open DanWs.FlatStates
open DanWs.Serializer
open DanWs.SerializerRoundTrip
open DanWs.VarFloats
open DanWs.WireRows
open DanWs.WireTypes

/-- A finite number whose integer part no `uint64_t` holds. -/
def ExceedsUInt64 : Payload → Prop
  | .float bits => binary32.isFinite bits.toNat ∧ 2 ^ 64 ≤ magnitude (floatToDouble bits).toNat
  | .double bits => binary64.isFinite bits.toNat ∧ 2 ^ 64 ≤ magnitude bits.toNat
  | .null | .bool _ | .uint8 _ | .uint16 _ | .uint32 _ | .uint64 _ | .int32 _ | .int64 _
  | .string _ | .binary _ => False

def NeverThrows (frame : Frame) : Prop :=
  ∀ fault, encode frame = .error fault →
    fault = .undefinedBehaviour ∧ ExceedsUInt64 frame.payload

section Conversions

variable {source target : Format} {bits : ℕ}

theorem convert_of_not_finite (h : source.isFinite bits = false)
    (hfraction : 0 < target.fractionBits) :
    ∃ payload < 2 ^ target.fractionBits,
      convert source target bits =
        target.withSign (source.signBit bits) (target.infinity + payload) := by
  rw [convert, h]
  dsimp only
  rw [if_neg Bool.false_ne_true]
  split
  · exact ⟨0, Nat.two_pow_pos _, rfl⟩
  · rw [convertNaN]
    refine ⟨_, Nat.or_lt_two_pow ?_ ?_, rfl⟩
    · rw [Nat.div_lt_iff_lt_mul (Nat.two_pow_pos _), Nat.mul_comm (2 ^ target.fractionBits)]
      exact Nat.mul_lt_mul_of_pos_right (Nat.mod_lt _ (Nat.two_pow_pos _)) (Nat.two_pow_pos _)
    · exact Nat.pow_lt_pow_right (by decide) (Nat.sub_lt hfraction Nat.one_pos)

theorem isFinite_floatToDouble {value : UInt32} (h : binary32.isFinite value.toNat = false) :
    binary64.isFinite (floatToDouble value).toNat = false := by
  obtain ⟨payload, hpayload, hconvert⟩ :=
    @convert_of_not_finite binary32 binary64 value.toNat h (by decide)
  change payload < 4503599627370496 at hpayload
  rw [floatToDouble, hconvert, UInt64.toNat_ofNat', Format.isFinite, bne_eq_false_iff_eq]
  change ((9218868437227405312 + payload) % 9223372036854775808 +
    if _ then 9223372036854775808 else 0) % 18446744073709551616 / 4503599627370496 % 2048 = 2047
  split <;> omega

theorem isFinite_doubleToFloat {value : UInt64} (h : binary64.isFinite value.toNat = false) :
    binary32.isFinite (doubleToFloat value).toNat = false := by
  obtain ⟨payload, hpayload, hconvert⟩ :=
    @convert_of_not_finite binary64 binary32 value.toNat h (by decide)
  change payload < 8388608 at hpayload
  rw [doubleToFloat, hconvert, UInt32.toNat_ofNat', Format.isFinite, bne_eq_false_iff_eq]
  change ((2139095040 + payload) % 2147483648 + if _ then 2147483648 else 0) % 4294967296 /
    8388608 % 256 = 255
  split <;> omega

end Conversions

section Values

/-- What `static_cast<uint64_t>` leaves of the compact form. -/
theorem compactDouble_cases (bits : ℕ) (form : Option (List UInt8) → List UInt8) :
    (∃ data, (compactDouble bits).map form = .ok data) ∨
      (compactDouble bits).map form = .error .undefinedBehaviour ∧ 2 ^ 64 ≤ magnitude bits := by
  rcases lt_or_ge (magnitude bits) (2 ^ 64) with hlt | hge
  · rw [compactDouble_of_lt hlt]
    exact Or.inl ⟨_, rfl⟩
  · rw [compactDouble_eq_error hge.not_gt]
    exact Or.inr ⟨rfl, hge⟩

theorem serializeVarDouble_cases (value : UInt64) :
    (∃ data, serializeVarDouble value = .ok data) ∨
      serializeVarDouble value = .error .undefinedBehaviour ∧ ExceedsUInt64 (.double value) := by
  by_cases hzero : binary64.isZero value.toNat = true ∧ binary64.signBit value.toNat = true
  · rw [serializeVarDouble, if_pos (by simpa using Or.inr hzero)]
    exact Or.inl ⟨_, rfl⟩
  · cases hfinite : binary64.isFinite value.toNat with
    | false =>
        rw [serializeVarDouble, if_pos (by simp [hfinite])]
        exact Or.inl ⟨_, rfl⟩
    | true =>
        rw [serializeVarDouble_eq hfinite hzero]
        refine (compactDouble_cases _ _).imp_right ?_
        rintro ⟨hfault, hexceeds⟩
        exact ⟨hfault, hfinite, hexceeds⟩

theorem serializeVarFloat_cases (value : UInt32) :
    (∃ data, serializeVarFloat (floatToDouble value) = .ok data) ∨
      serializeVarFloat (floatToDouble value) = .error .undefinedBehaviour ∧
        ExceedsUInt64 (.float value) := by
  by_cases hchecks : binary32.isFinite (doubleToFloat (floatToDouble value)).toNat = false ∨
      (binary32.isZero (doubleToFloat (floatToDouble value)).toNat = true ∧
        binary32.signBit (doubleToFloat (floatToDouble value)).toNat = true)
  · rw [serializeVarFloat_eq_fallback hchecks]
    exact Or.inl ⟨_, rfl⟩
  · rw [not_or, Bool.not_eq_false] at hchecks
    have hfinite : binary32.isFinite value.toNat = true := by
      by_contra hnot
      rw [Bool.not_eq_true] at hnot
      rw [isFinite_doubleToFloat (isFinite_floatToDouble hnot)] at hchecks
      exact Bool.false_ne_true hchecks.1
    rw [serializeVarFloat_eq hchecks.1 hchecks.2]
    refine (compactDouble_cases _ _).imp_right ?_
    rintro ⟨hfault, hexceeds⟩
    exact ⟨hfault, hfinite, hexceeds⟩

theorem serialize_detectDataType (value : Payload) :
    (∃ data, serialize (detectDataType value) value = .ok data) ∨
      serialize (detectDataType value) value = .error .undefinedBehaviour ∧
        ExceedsUInt64 value := by
  have hfaithful : Faithful (detectDataType value) value →
      ∃ data, serialize (detectDataType value) value = .ok data := fun h =>
    (deserialize_serialize h).imp fun _ hboth => hboth.1
  cases value with
  | float bits => exact serializeVarFloat_cases bits
  | double bits => exact serializeVarDouble_cases bits
  | null => exact Or.inl (hfaithful trivial)
  | bool value => exact Or.inl (hfaithful trivial)
  | uint8 value => exact Or.inl (hfaithful trivial)
  | uint16 value => exact Or.inl (hfaithful trivial)
  | uint32 value => exact Or.inl (hfaithful trivial)
  | uint64 value => exact Or.inl (hfaithful trivial)
  | int32 value => exact Or.inl (hfaithful trivial)
  | int64 value => exact Or.inl (hfaithful trivial)
  | string value => exact Or.inl (hfaithful trivial)
  | binary value => exact Or.inl (hfaithful trivial)

end Values

section Frames

variable {frame : Frame}

theorem neverThrows_of_wellFormed (h : WellFormed frame) : NeverThrows frame := by
  intro fault hfault
  obtain ⟨body, hbody, _⟩ := parseFrame_rawBody h
  rw [encode_of_rawBody hbody] at hfault
  cases hfault

/-- A frame without a layout of its own is serialized by its data type. -/
theorem neverThrows_of_detected (h : frame.dataType = detectDataType frame.payload)
    (hkey : frame.frameType.isKeyRegistrationFrame = false)
    (hsignal : frame.frameType.isSignalFrame = false) : NeverThrows frame := by
  intro fault hfault
  rw [encode, rawBody, rawPayload, hkey, hsignal, h] at hfault
  rcases serialize_detectDataType frame.payload with ⟨data, hdata⟩ | ⟨herror, hexceeds⟩
  · simp only [Bool.false_eq_true, if_false, hdata] at hfault
    cases hfault
  · simp only [Bool.false_eq_true, if_false, herror] at hfault
    exact ⟨(Except.error.inj hfault).symm, hexceeds⟩

theorem neverThrows_keyFrame (flat : FlatState) (key : StdString) (entry : Entry) :
    NeverThrows (flat.keyFrame key entry) :=
  neverThrows_of_wellFormed ⟨_, rfl⟩

theorem neverThrows_serverSync : NeverThrows (signalFrame .serverSync) :=
  neverThrows_of_wellFormed rfl

theorem neverThrows_deleteFrame (keyId : UInt32) : NeverThrows (FlatState.deleteFrame keyId) :=
  neverThrows_of_wellFormed rfl

theorem neverThrows_valueFrame {entry : Entry} (h : entry.type = detectDataType entry.value) :
    NeverThrows (FlatState.valueFrame entry) :=
  neverThrows_of_detected h rfl rfl

end Frames

def Typed (flat : FlatState) : Prop :=
  ∀ key entry, flat.entries.lookup key = some entry → entry.type = detectDataType entry.value

section Operations

variable {flat : FlatState} {nextKeyId : UInt32} {key : StdString} {value : Payload}

theorem typed_of_empty (h : flat.entries = ∅) : Typed flat := by
  intro key entry hentry
  rw [h] at hentry
  cases hentry

theorem typed_insert {entries : FiniteMap StdString Entry} {byKeyId : FiniteMap UInt32 StdString}
    {entry : Entry} (h : Typed flat) (hentry : entry.type = detectDataType entry.value)
    (hsub : ∀ other held, entries.lookup other = some held →
      flat.entries.lookup other = some held) :
    Typed ⟨flat.wirePrefix, entries.insert key entry, byKeyId⟩ := by
  intro other held hheld
  rw [lookup_insert_eq_ite] at hheld
  split at hheld
  · rw [← Option.some.inj hheld]
    exact hentry
  · exact h other held (hsub other held hheld)

theorem typed_set (h : Typed flat) : Typed (flat.set nextKeyId key value).1 := by
  rw [FlatState.set]
  split
  · next old hold =>
      split
      · exact typed_insert h rfl fun other held hheld => (lookup_of_lookup_erase hheld).2
      · next htype => exact typed_insert h (not_not.mp htype) fun _ _ hheld => hheld
  · exact typed_insert h rfl fun _ _ hheld => hheld

theorem typed_clearKey (h : Typed flat) : Typed (flat.clearKey key).1 :=
  fun other entry hentry => h other entry (lookup_clearKey hentry)

theorem neverThrows_entryFrames (flat : FlatState) (key : StdString) {entry : Entry}
    (h : entry.type = detectDataType entry.value) :
    ∀ frame ∈ flat.entryFrames key entry, NeverThrows frame := by
  rw [FlatState.entryFrames, List.forall_mem_cons, List.forall_mem_cons, List.forall_mem_singleton]
  exact ⟨neverThrows_keyFrame flat key entry, neverThrows_serverSync, neverThrows_valueFrame h⟩

theorem neverThrows_set (flat : FlatState) (nextKeyId : UInt32) (key : StdString)
    (value : Payload) : ∀ frame ∈ (flat.set nextKeyId key value).2.2, NeverThrows frame := by
  rw [FlatState.set]
  split
  · next old hold =>
      split
      · rw [List.forall_mem_cons]
        exact ⟨neverThrows_deleteFrame old.keyId, neverThrows_entryFrames flat key rfl⟩
      · next htype =>
          rw [List.forall_mem_singleton]
          exact neverThrows_valueFrame (not_not.mp htype)
  · exact neverThrows_entryFrames flat key rfl

theorem neverThrows_clearKey (flat : FlatState) (key : StdString) :
    ∀ frame ∈ (flat.clearKey key).2, NeverThrows frame := by
  rw [FlatState.clearKey]
  split
  · simp
  · rw [List.forall_mem_singleton]
    exact neverThrows_deleteFrame _

variable [HashOrder StdString]

theorem neverThrows_buildKeyFrames (flat : FlatState) :
    ∀ frame ∈ flat.buildKeyFrames, NeverThrows frame := by
  rw [FlatState.buildKeyFrames, List.forall_mem_map]
  exact fun item _ => neverThrows_keyFrame flat item.1 item.2

theorem neverThrows_buildValueFrames (h : Typed flat) :
    ∀ frame ∈ flat.buildValueFrames, NeverThrows frame := by
  rw [FlatState.buildValueFrames, List.forall_mem_map]
  rintro ⟨key, entry⟩ hitem
  exact neverThrows_valueFrame (h key entry ((IterationOrder.mem_items HashOrder.order).mp hitem))

end Operations

end DanWs.TypedValues
