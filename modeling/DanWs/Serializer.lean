import DanWs.VarFloats

namespace DanWs.Serializer

open DanWs.BinaryFloat
open DanWs.ScalarBytes
open DanWs.VarFloats
open DanWs.WireTypes

/-- The zigzag form of an integer. Negating the least `int64_t` overflows. -/
def serializeVarInteger (value : Int64) : Result (List UInt8) :=
  if 0 ≤ value then .ok (encodeVarInt (value.toUInt64 * 2))
  else if value = Int64.minValue then .error .undefinedBehaviour
  else .ok (encodeVarInt ((-value).toUInt64 * 2 - 1))

def deserializeVarInteger (data : List UInt8) : Result Int64 :=
  if data.length = 0 then
    .error (.danWSError (str "PAYLOAD_SIZE_MISMATCH")
      (str "VarInteger requires at least 1 byte"))
  else
    let zigzag := (decodeVarInt data 0).1
    if zigzag &&& 1 ≠ 0 then .ok (-(zigzag / 2).toInt64 - 1)
    else .ok (zigzag / 2).toInt64

/-- `static_cast<int64_t>(double)`, undefined outside the range of `int64_t`. -/
def truncateToInt64 (value : UInt64) : Result Int64 :=
  let bits := value.toNat
  let (numerator, denominator) := binary64.magnitude bits
  let truncated : Int :=
    if binary64.signBit bits then -(numerator / denominator : Nat) else numerator / denominator
  if binary64.isFinite bits ∧ -2 ^ 63 ≤ truncated ∧ truncated < 2 ^ 63 then
    .ok (Int64.ofInt truncated)
  else .error .undefinedBehaviour

/-- `serialize`. A payload alternative that does not match makes `std::get` throw. -/
def serialize (dataType : DataType) (value : Payload) : Result (List UInt8) :=
  match dataType with
  | .null => .ok []
  | .bool =>
      match value with
      | .bool v => .ok [if v then 0x01 else 0x00]
      | _ => .error .badVariantAccess
  | .uint8 =>
      match value with
      | .uint8 v => .ok [v]
      | _ => .error .badVariantAccess
  | .uint16 =>
      match value with
      | .uint16 v => .ok (writeBE16 v)
      | _ => .error .badVariantAccess
  | .uint32 =>
      match value with
      | .uint32 v => .ok (writeBE32 v)
      | _ => .error .badVariantAccess
  | .uint64 =>
      match value with
      | .uint64 v => .ok (writeBE64 v)
      | _ => .error .badVariantAccess
  | .int32 =>
      match value with
      | .int32 v => .ok (writeBE32 v.toUInt32)
      | _ => .error .badVariantAccess
  | .int64 | .timestamp =>
      match value with
      | .int64 v => .ok (writeBE64 v.toUInt64)
      | _ => .error .badVariantAccess
  | .float32 =>
      match value with
      | .float bits => .ok (writeBE32 bits)
      | _ => .error .badVariantAccess
  | .float64 =>
      match value with
      | .double bits => .ok (writeBE64 bits)
      | _ => .error .badVariantAccess
  | .string =>
      match value with
      | .string v => .ok v
      | _ => .error .badVariantAccess
  | .binary =>
      match value with
      | .binary v => .ok v
      | _ => .error .badVariantAccess
  | .varInteger =>
      match value with
      | .int32 v => serializeVarInteger v.toInt64
      | .int64 v => serializeVarInteger v
      | .double bits => do serializeVarInteger (← truncateToInt64 bits)
      | _ => .error (.danWSError (str "INVALID_VALUE_TYPE")
          (str "VarInteger requires integer value"))
  | .varDouble =>
      match value with
      | .double bits => serializeVarDouble bits
      | _ => .error .badVariantAccess
  | .varFloat =>
      match value with
      | .float bits => serializeVarFloat (floatToDouble bits)
      | .double bits => serializeVarFloat bits
      | _ => .error .badVariantAccess
  | .undeclared _ _ =>
      .error (.danWSError (str "UNKNOWN_DATA_TYPE") (str "Unknown data type"))

def payloadSizeMismatch (expected length : Nat) : Fault :=
  .danWSError (str "PAYLOAD_SIZE_MISMATCH")
    (str ("0 expects " ++ toString expected ++ " bytes, got " ++ toString length))

def varIntegerPayload (value : Int64) : Payload :=
  if Int32.minValue.toInt64 ≤ value ∧ value ≤ Int32.maxValue.toInt64 then
    .int32 value.toInt32
  else .int64 value

/-- The part of `deserialize` behind the check of the payload size. -/
def deserializeSized (dataType : DataType) (data : List UInt8) : Result Payload :=
  match dataType with
  | .null => .ok .null
  | .bool =>
      if byteAt data 0 = 0x01 then .ok (.bool true)
      else if byteAt data 0 = 0x00 then .ok (.bool false)
      else .error (.danWSError (str "INVALID_VALUE_TYPE")
        (str "Bool payload must be 0x00 or 0x01"))
  | .uint8 => .ok (.uint8 (byteAt data 0))
  | .uint16 => .ok (.uint16 (readBE16 data))
  | .uint32 => .ok (.uint32 (readBE32 data))
  | .uint64 => .ok (.uint64 (readBE64 data))
  | .int32 => .ok (.int32 (readBE32 data).toInt32)
  | .int64 | .timestamp => .ok (.int64 (readBE64 data).toInt64)
  | .float32 => .ok (.float (readBE32 data))
  | .float64 => .ok (.double (readBE64 data))
  | .string => .ok (.string data)
  | .binary => .ok (.binary data)
  | .varInteger => do return varIntegerPayload (← deserializeVarInteger data)
  | .varDouble => do return .double (← deserializeVarDouble data)
  | .varFloat => do return .double (← deserializeVarFloat data)
  | .undeclared _ _ =>
      .error (.danWSError (str "UNKNOWN_DATA_TYPE") (str "Unknown data type"))

def deserialize (dataType : DataType) (data : List UInt8) : Result Payload :=
  match dataTypeSize dataType with
  | some expected =>
      if data.length ≠ expected then .error (payloadSizeMismatch expected data.length)
      else deserializeSized dataType data
  | none => deserializeSized dataType data

/-- The payload alternative a value of each data type is sent as and read back
as. The floating-point text forms, which round, are left out. -/
def Faithful : DataType → Payload → Prop
  | .null, .null => True
  | .bool, .bool _ => True
  | .uint8, .uint8 _ => True
  | .uint16, .uint16 _ => True
  | .uint32, .uint32 _ => True
  | .uint64, .uint64 _ => True
  | .int32, .int32 _ => True
  | .int64, .int64 _ => True
  | .timestamp, .int64 _ => True
  | .float32, .float _ => True
  | .float64, .double _ => True
  | .string, .string _ => True
  | .binary, .binary _ => True
  | .varInteger, .int32 _ => True
  | .varInteger, .int64 v =>
      v ≠ Int64.minValue ∧ (v < Int32.minValue.toInt64 ∨ Int32.maxValue.toInt64 < v)
  | _, _ => False

end DanWs.Serializer
