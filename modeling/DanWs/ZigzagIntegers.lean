import DanWs.SerializerRoundTrip

namespace DanWs.ZigzagIntegers

open DanWs.ScalarBytes
open DanWs.Serializer
open DanWs.SerializerRoundTrip
open DanWs.WireTypes

section Arithmetic

theorem serializeVarInteger_minValue :
    serializeVarInteger Int64.minValue = .error .undefinedBehaviour := by
  rw [serializeVarInteger, if_neg (by decide), if_pos rfl]

/-- `-value`, undefined where it overflows. -/
def checkedNeg (value : Int64) : Result Int64 :=
  if (-value).toInt = -value.toInt then .ok (-value) else .error .undefinedBehaviour

/-- `value - other`, undefined where it overflows. -/
def checkedSub (value other : Int64) : Result Int64 :=
  if (value - other).toInt = value.toInt - other.toInt then .ok (value - other)
  else .error .undefinedBehaviour

/-- `serializeVarInteger` with every signed operation checked. -/
def checkedSerializeVarInteger (value : Int64) : Result (List UInt8) :=
  if 0 ≤ value then .ok (encodeVarInt (value.toUInt64 * 2))
  else do
    let negated ← checkedNeg value
    return encodeVarInt (negated.toUInt64 * 2 - 1)

/-- `deserializeVarInteger` with every signed operation checked. -/
def checkedDeserializeVarInteger (data : List UInt8) : Result Int64 :=
  if data.length = 0 then
    .error (.danWSError (str "PAYLOAD_SIZE_MISMATCH")
      (str "VarInteger requires at least 1 byte"))
  else
    let zigzag := (decodeVarInt data 0).1
    if zigzag &&& 1 ≠ 0 then do
      let negated ← checkedNeg (zigzag / 2).toInt64
      checkedSub negated 1
    else .ok (zigzag / 2).toInt64

theorem checkedSerializeVarInteger_eq (value : Int64) :
    checkedSerializeVarInteger value = serializeVarInteger value := by
  rw [checkedSerializeVarInteger, serializeVarInteger]
  split
  · rfl
  · split
    · next hmin =>
        subst hmin
        rfl
    · next hmin =>
        rw [checkedNeg, if_pos (toInt_neg_of_ne_minValue hmin)]
        rfl

/-- No byte string makes the zigzag arithmetic overflow. -/
theorem checkedDeserializeVarInteger_eq (data : List UInt8) :
    checkedDeserializeVarInteger data = deserializeVarInteger data := by
  rw [checkedDeserializeVarInteger, deserializeVarInteger]
  split
  · rfl
  · dsimp only
    split
    · generalize (decodeVarInt data 0).1 = zigzag
      have hlt := zigzag.toNat_lt
      have hhalf := toInt_half zigzag
      have hneg : (-(zigzag / 2).toInt64).toInt = -(zigzag / 2).toInt64.toInt := by
        rw [Int64.toInt_neg, hhalf]
        exact Int.bmod_eq_of_le (by omega) (by omega)
      have hsub := toInt_neg_half_sub_one zigzag
      rw [checkedNeg, if_pos hneg]
      change checkedSub _ 1 = _
      rw [checkedSub, if_pos (by rw [hsub, hneg, hhalf]; rfl)]
    · rfl

end Arithmetic

section Range

theorem deserialize_varInteger {data : List UInt8} {value : Int64}
    (h : deserializeVarInteger data = .ok value) :
    deserialize .varInteger data = .ok (varIntegerPayload value) := by
  change (do return varIntegerPayload (← deserializeVarInteger data) : Result Payload) = _
  rw [h]
  rfl

theorem serialize_varIntegerPayload (value : Int64) :
    serialize .varInteger (varIntegerPayload value) = serializeVarInteger value := by
  rw [varIntegerPayload_eq]
  split
  · next hrange =>
      have hvalue : value.toInt32.toInt64 = value := by
        apply Int64.toInt_inj.mp
        rw [Int32.toInt_toInt64, Int64.toInt_toInt32]
        exact Int.bmod_eq_of_le (by omega) (by omega)
      change serializeVarInteger value.toInt32.toInt64 = _
      rw [hvalue]
  · rfl

/-- The value is written and read back without an overflow, as the narrower
integer where it fits. -/
def Lossless (value : Int64) : Prop :=
  ∃ bytes, serialize .varInteger (.int64 value) = .ok bytes ∧
    checkedSerializeVarInteger value = .ok bytes ∧
    checkedDeserializeVarInteger bytes = .ok value ∧
    deserialize .varInteger bytes =
      .ok (if -2 ^ 31 ≤ value.toInt ∧ value.toInt < 2 ^ 31 then .int32 value.toInt32
        else .int64 value)

/-- All integers but the least one are read back, and groups are read back behind
any bytes. -/
theorem lossless_iff (value : Int64) :
    (Lossless value ↔ value ≠ Int64.minValue) ∧
    ∀ groups trailing, decodeVarInt (encodeVarInt groups ++ trailing) 0 =
      (groups, (encodeVarInt groups).length) := by
  refine ⟨⟨?_, fun hmin => ?_⟩, decodeVarInt_encodeVarInt⟩
  · rintro ⟨bytes, -, hwrite, -⟩ rfl
    rw [checkedSerializeVarInteger_eq, serializeVarInteger_minValue] at hwrite
    cases hwrite
  · obtain ⟨bytes, hwrite, hread⟩ := deserializeVarInteger_serializeVarInteger hmin
    refine ⟨bytes, hwrite, ?_, ?_, ?_⟩
    · rw [checkedSerializeVarInteger_eq, hwrite]
    · rw [checkedDeserializeVarInteger_eq, hread]
    · rw [deserialize_varInteger hread, varIntegerPayload_eq]

/-- The negation of the least integer overflows. -/
theorem not_lossless : ¬ ∀ value, Lossless value := by
  intro h
  obtain ⟨bytes, hwrite, -⟩ := h Int64.minValue
  have hfault : serialize .varInteger (.int64 Int64.minValue) = .error .undefinedBehaviour :=
    serializeVarInteger_minValue
  rw [hfault] at hwrite
  cases hwrite

end Range

section Acceptance

theorem intEquivNat_eq_max_iff (value : Int64) :
    Equiv.intEquivNat value.toInt = 2 ^ 64 - 1 ↔ value = Int64.minValue := by
  have hlow := value.le_toInt
  have hhigh := value.toInt_lt
  rw [← Int64.toInt_inj, Int64.toInt_minValue]
  rcases lt_or_ge value.toInt 0 with hneg | hnonneg
  · rw [intEquivNat_neg hneg]
    omega
  · rw [intEquivNat_nonneg hnonneg]
    omega

/-- What is read from the bytes is written as the same bytes. -/
def Canonical (data : List UInt8) : Prop :=
  ∀ payload, deserialize .varInteger data = .ok payload →
    serialize .varInteger payload = .ok data

/-- The bytes that are read and written back are the shortest groups of the
numbers below `2 ^ 64 - 1`. Only the empty string is refused. -/
theorem canonical_iff (data : List UInt8) :
    Canonical data ↔
      data = [] ∨ (Leb128.IsMinimal data ∧ (Leb128.decode data).1 < 2 ^ 64 - 1) := by
  by_cases hempty : data = []
  · subst hempty
    refine iff_of_true ?_ (Or.inl rfl)
    rintro payload ⟨⟩
  · obtain ⟨value, hread, hzigzag⟩ := deserializeVarInteger_eq hempty
    have hcanonical : Canonical data ↔ serializeVarInteger value = .ok data := by
      rw [Canonical, deserialize_varInteger hread, ← serialize_varIntegerPayload]
      constructor
      · intro h
        exact h _ rfl
      · rintro h payload ⟨⟩
        exact h
    rw [hcanonical, or_iff_right hempty]
    have hmax := intEquivNat_eq_max_iff value
    rw [hzigzag] at hmax
    by_cases hmin : value = Int64.minValue
    · have hleast := hmax.mpr hmin
      rw [hmin, serializeVarInteger_minValue]
      refine iff_of_false (by simp) fun h => ?_
      omega
    · have hnotmax : (Leb128.decode data).1 % 2 ^ 64 ≠ 2 ^ 64 - 1 := fun h => hmin (hmax.mp h)
      rw [serializeVarInteger_eq hmin, hzigzag, Except.ok.injEq, Leb128.encode_eq_iff]
      refine and_congr_right fun _ => ?_
      omega

/-- A number whose last group is missing is read as if it were complete. -/
theorem not_canonical : ¬ ∀ data, Canonical data := by
  intro h
  have hwrite := h [0x80] (.int32 0) (by decide)
  exact absurd hwrite (by decide +kernel)

end Acceptance

end DanWs.ZigzagIntegers
