import DanWs.Serializer
import Mathlib.Logic.Equiv.Nat

namespace DanWs.SerializerRoundTrip

open DanWs.ScalarBytes
open DanWs.Serializer
open DanWs.WireTypes

theorem low_bit_ne_zero (value : UInt64) : value &&& 1 ≠ 0 ↔ value.toNat % 2 = 1 := by
  rw [Ne, ← UInt64.toNat_inj, UInt64.toNat_and]
  simp only [UInt64.reduceToNat, Nat.and_one_is_mod]
  omega

theorem toInt_neg_of_ne_minValue {value : Int64} (h : value ≠ Int64.minValue) :
    (-value).toInt = -value.toInt := by
  have hne : value.toInt ≠ -2 ^ 63 := by
    intro heq
    exact h (Int64.toInt_inj.mp (heq.trans Int64.toInt_minValue.symm))
  have hlow := value.le_toInt
  have hhigh := value.toInt_lt
  rw [Int64.toInt_neg]
  exact Int.bmod_eq_of_le (by omega) (by omega)

theorem intEquivNat_nonneg {i : ℤ} (h : 0 ≤ i) : Equiv.intEquivNat i = 2 * i.toNat := by
  cases i with
  | ofNat n =>
      rw [Equiv.intEquivNat, Equiv.trans_apply, Equiv.natSumNatEquivNat_apply]
      rfl
  | negSucc n => exact absurd h (by omega)

theorem intEquivNat_neg {i : ℤ} (h : i < 0) : Equiv.intEquivNat i = 2 * (-i).toNat - 1 := by
  cases i with
  | ofNat n => exact absurd h (by simp)
  | negSucc n =>
      have hnat : Equiv.intEquivNat (Int.negSucc n) = 2 * n + 1 := by
        rw [Equiv.intEquivNat, Equiv.trans_apply, Equiv.natSumNatEquivNat_apply]
        rfl
      omega

theorem intEquivNat_lt (value : Int64) : Equiv.intEquivNat value.toInt < 2 ^ 64 := by
  have hlow := value.le_toInt
  have hhigh := value.toInt_lt
  rcases lt_or_ge value.toInt 0 with hneg | hnonneg
  · rw [intEquivNat_neg hneg]
    omega
  · rw [intEquivNat_nonneg hnonneg]
    omega

theorem serializeVarInteger_eq {value : Int64} (h : value ≠ Int64.minValue) :
    serializeVarInteger value = .ok (Leb128.encode (Equiv.intEquivNat value.toInt)) := by
  have hlow := value.le_toInt
  have hhigh := value.toInt_lt
  have hsign : 0 ≤ value ↔ 0 ≤ value.toInt := by
    rw [Int64.le_iff_toInt_le, Int64.toInt_zero]
  rw [serializeVarInteger]
  by_cases hnonneg : 0 ≤ value
  · have hnat : value.toUInt64.toNat = value.toInt.toNat := Int64.toNat_toUInt64_of_le hnonneg
    rw [if_pos hnonneg, encodeVarInt_eq, intEquivNat_nonneg (hsign.mp hnonneg), UInt64.toNat_mul,
      hnat]
    simp only [UInt64.reduceToNat]
    congr 2
    omega
  · have hneg := toInt_neg_of_ne_minValue h
    have hbelow : value.toInt < 0 := by
      rw [hsign] at hnonneg
      omega
    have hnat : (-value).toUInt64.toNat = (-value).toInt.toNat := by
      apply Int64.toNat_toUInt64_of_le
      rw [Int64.le_iff_toInt_le, Int64.toInt_zero, hneg]
      omega
    rw [if_neg hnonneg, if_neg h, encodeVarInt_eq, intEquivNat_neg hbelow, UInt64.toNat_sub,
      UInt64.toNat_mul, hnat, hneg]
    simp only [UInt64.reduceToNat]
    congr 2
    omega

theorem toInt_half (zigzag : UInt64) : (zigzag / 2).toInt64.toInt = (zigzag.toNat / 2 : Nat) := by
  have hlt := zigzag.toNat_lt
  have hhalf : (zigzag / 2).toNat = zigzag.toNat / 2 := by
    rw [UInt64.toNat_div]
    rfl
  change (zigzag / 2).toBitVec.toInt = _
  rw [BitVec.toInt_eq_toNat_of_lt, UInt64.toNat_toBitVec, hhalf]
  rw [UInt64.toNat_toBitVec, hhalf]
  omega

theorem toInt_neg_half_sub_one (zigzag : UInt64) :
    (-(zigzag / 2).toInt64 - 1).toInt = -(zigzag.toNat / 2 : Nat) - 1 := by
  have hlt := zigzag.toNat_lt
  have hhalf := toInt_half zigzag
  have hneg : (-(zigzag / 2).toInt64).toInt = -(zigzag.toNat / 2 : Nat) := by
    rw [Int64.toInt_neg, hhalf]
    exact Int.bmod_eq_of_le (by omega) (by omega)
  rw [Int64.toInt_sub, hneg]
  exact Int.bmod_eq_of_le (by simp; omega) (by simp; omega)

/-- The integer that the groups stand for, modulo `2 ^ 64`. -/
theorem deserializeVarInteger_eq {data : List UInt8} (h : data ≠ []) :
    ∃ value, deserializeVarInteger data = .ok value ∧
      Equiv.intEquivNat value.toInt = (Leb128.decode data).1 % 2 ^ 64 := by
  have hzigzag : (decodeVarInt data 0).1.toNat = (Leb128.decode data).1 % 2 ^ 64 := by
    rw [decodeVarInt, List.drop_zero, decodeVarIntLoop_eq]
    simp
  rw [deserializeVarInteger, if_neg (by simpa using h)]
  dsimp only
  rw [← hzigzag]
  generalize (decodeVarInt data 0).1 = zigzag
  split
  · next hodd =>
      rw [low_bit_ne_zero] at hodd
      refine ⟨_, rfl, ?_⟩
      rw [toInt_neg_half_sub_one, intEquivNat_neg (by omega)]
      omega
  · next heven =>
      rw [low_bit_ne_zero] at heven
      refine ⟨_, rfl, ?_⟩
      rw [toInt_half, intEquivNat_nonneg (by omega)]
      omega

theorem deserializeVarInteger_serializeVarInteger {value : Int64}
    (h : value ≠ Int64.minValue) :
    ∃ bytes, serializeVarInteger value = .ok bytes ∧
      deserializeVarInteger bytes = .ok value := by
  refine ⟨_, serializeVarInteger_eq h, ?_⟩
  obtain ⟨other, hread, hzigzag⟩ := deserializeVarInteger_eq (Leb128.encode_ne_nil _)
  have hgroups := Leb128.decode_encode_append (Equiv.intEquivNat value.toInt) []
  rw [List.append_nil] at hgroups
  rw [hgroups, Nat.mod_eq_of_lt (intEquivNat_lt value)] at hzigzag
  rw [hread, Int64.toInt_inj.mp (Equiv.intEquivNat.injective hzigzag)]

theorem varIntegerPayload_eq (value : Int64) :
    varIntegerPayload value =
      if -2 ^ 31 ≤ value.toInt ∧ value.toInt < 2 ^ 31 then .int32 value.toInt32
      else .int64 value := by
  have hrange : (Int32.minValue.toInt64 ≤ value ∧ value ≤ Int32.maxValue.toInt64) ↔
      -2 ^ 31 ≤ value.toInt ∧ value.toInt < 2 ^ 31 := by
    simp only [Int64.le_iff_toInt_le, Int32.toInt_toInt64, Int32.toInt_minValue,
      Int32.toInt_maxValue]
    omega
  rw [varIntegerPayload]
  exact if_congr hrange rfl rfl

theorem varIntegerPayload_int32 (value : Int32) :
    varIntegerPayload value.toInt64 = .int32 value := by
  rw [varIntegerPayload_eq, Int32.toInt_toInt64, if_pos ⟨value.le_toInt, value.toInt_lt⟩,
    Int32.toInt32_toInt64]

theorem varIntegerPayload_int64 {value : Int64}
    (h : value < Int32.minValue.toInt64 ∨ Int32.maxValue.toInt64 < value) :
    varIntegerPayload value = .int64 value := by
  simp only [Int64.lt_iff_toInt_lt, Int32.toInt_toInt64, Int32.toInt_minValue,
    Int32.toInt_maxValue] at h
  rw [varIntegerPayload_eq, if_neg (by omega)]

/-- A faithful value is serialized without a fault and read back as itself. -/
theorem deserialize_serialize {dataType : DataType} {value : Payload}
    (h : Faithful dataType value) :
    ∃ bytes, serialize dataType value = .ok bytes ∧ deserialize dataType bytes = .ok value := by
  cases dataType <;> cases value <;> first | exact h.elim | skip
  case null.null => exact ⟨_, rfl, rfl⟩
  case bool.bool v => exact ⟨_, rfl, by cases v <;> rfl⟩
  case uint8.uint8 v => exact ⟨_, rfl, rfl⟩
  case uint16.uint16 v => exact ⟨_, rfl, by simp [deserialize, dataTypeSize, deserializeSized]⟩
  case uint32.uint32 v => exact ⟨_, rfl, by simp [deserialize, dataTypeSize, deserializeSized]⟩
  case uint64.uint64 v => exact ⟨_, rfl, by simp [deserialize, dataTypeSize, deserializeSized]⟩
  case int32.int32 v => exact ⟨_, rfl, by simp [deserialize, dataTypeSize, deserializeSized]⟩
  case int64.int64 v => exact ⟨_, rfl, by simp [deserialize, dataTypeSize, deserializeSized]⟩
  case timestamp.int64 v => exact ⟨_, rfl, by simp [deserialize, dataTypeSize, deserializeSized]⟩
  case float32.float v => exact ⟨_, rfl, by simp [deserialize, dataTypeSize, deserializeSized]⟩
  case float64.double v => exact ⟨_, rfl, by simp [deserialize, dataTypeSize, deserializeSized]⟩
  case string.string v => exact ⟨_, rfl, rfl⟩
  case binary.binary v => exact ⟨_, rfl, rfl⟩
  case varInteger.int32 v =>
    obtain ⟨bytes, hwrite, hread⟩ :=
      deserializeVarInteger_serializeVarInteger v.toInt64_ne_minValue
    refine ⟨bytes, hwrite, ?_⟩
    change (do return varIntegerPayload (← deserializeVarInteger bytes) : Result Payload) = _
    rw [hread]
    exact congrArg Except.ok (varIntegerPayload_int32 v)
  case varInteger.int64 v =>
    obtain ⟨hmin, hrange⟩ := h
    obtain ⟨bytes, hwrite, hread⟩ := deserializeVarInteger_serializeVarInteger hmin
    refine ⟨bytes, hwrite, ?_⟩
    change (do return varIntegerPayload (← deserializeVarInteger bytes) : Result Payload) = _
    rw [hread]
    exact congrArg Except.ok (varIntegerPayload_int64 hrange)

end DanWs.SerializerRoundTrip
