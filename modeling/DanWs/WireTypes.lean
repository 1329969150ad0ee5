import Mathlib.Algebra.Group.Int.Defs
import Mathlib.Data.List.Basic

namespace DanWs.WireTypes

/-- A `std::string` or a byte vector: any sequence of bytes. -/
abbrev StdString := List UInt8

def str (literal : String) : StdString :=
  literal.toList.map fun c => UInt8.ofNat c.toNat

/-- The ways a modelled evaluation ends without a value. Everything except
`undefinedBehaviour` is an exception that `catch (const std::exception&)` stops. -/
inductive Fault where
  | danWSError (code message : StdString)
  | badVariantAccess
  | invalidArgument
  | outOfRange
  | undefinedBehaviour
  deriving DecidableEq, Repr

abbrev Result := Except Fault

/-- An expression of type `int`, undefined where it overflows. -/
def checkedInt (n : Int) : Result Int :=
  if -2 ^ 31 ≤ n ∧ n < 2 ^ 31 then .ok n else .error .undefinedBehaviour

theorem checkedInt_eq_ok {n : Int} (hlow : -2 ^ 31 ≤ n) (hhigh : n < 2 ^ 31) :
    checkedInt n = .ok n :=
  if_pos ⟨hlow, hhigh⟩

theorem ok_bind {α β : Type} (a : α) (f : α → Result β) :
    ((.ok a : Result α) >>= f) = f a := rfl

theorem not_mem_map_of_find?_eq_none {α : Type*} {entries : List α} (code : α → UInt8)
    {byte : UInt8} (h : entries.find? (fun t => code t == byte) = none) :
    byte ∉ entries.map code := by
  intro hmem
  obtain ⟨t, ht, rfl⟩ := List.mem_map.mp hmem
  exact List.find?_eq_none.mp h t ht (by simp)

def DLE : UInt8 := 0x10
def STX : UInt8 := 0x02
def ETX : UInt8 := 0x03
def ENQ : UInt8 := 0x05

def dataTypeCodes : List UInt8 :=
  [0x00, 0x01, 0x02, 0x03, 0x04, 0x05, 0x06, 0x07,
   0x08, 0x09, 0x0A, 0x0B, 0x0C, 0x0D, 0x0E, 0x0F]

/-- `enum class DataType : uint8_t`. A cast from a byte may produce a value
without an enumerator, which `undeclared` stands for. -/
inductive DataType where
  | null
  | bool
  | uint8
  | uint16
  | uint32
  | uint64
  | int32
  | int64
  | float32
  | float64
  | string
  | binary
  | timestamp
  | varInteger
  | varDouble
  | varFloat
  | undeclared (code : UInt8) (h : code ∉ dataTypeCodes)
  deriving DecidableEq, Repr

namespace DataType

/-- `static_cast<uint8_t>(dataType)`. -/
def toByte : DataType → UInt8
  | null => 0x00
  | bool => 0x01
  | uint8 => 0x02
  | uint16 => 0x03
  | uint32 => 0x04
  | uint64 => 0x05
  | int32 => 0x06
  | int64 => 0x07
  | float32 => 0x08
  | float64 => 0x09
  | string => 0x0A
  | binary => 0x0B
  | timestamp => 0x0C
  | varInteger => 0x0D
  | varDouble => 0x0E
  | varFloat => 0x0F
  | undeclared code _ => code

def declared : List DataType :=
  [null, bool, uint8, uint16, uint32, uint64, int32, int64, float32, float64,
   string, binary, timestamp, varInteger, varDouble, varFloat]

/-- `static_cast<DataType>(byte)`. -/
def ofByte (byte : UInt8) : DataType :=
  match h : declared.find? (fun t => t.toByte == byte) with
  | some t => t
  | none => undeclared byte (not_mem_map_of_find?_eq_none toByte h)

theorem toByte_ofByte (byte : UInt8) : (ofByte byte).toByte = byte := by
  rw [ofByte]
  split
  · next t h => simpa using List.find?_some h
  · rfl

theorem ofByte_toByte (t : DataType) : ofByte t.toByte = t := by
  cases t with
  | undeclared code h =>
      rw [ofByte]
      split
      · next t' h' =>
          have hcode := List.find?_some h'
          simp only [beq_iff_eq] at hcode
          exact absurd (List.mem_map.mpr ⟨t', List.mem_of_find?_eq_some h', hcode⟩) h
      · rfl
  | _ => rfl

end DataType

def frameTypeCodes : List UInt8 :=
  [0x00, 0x01, 0x02, 0x03, 0x04, 0x05, 0x06, 0x07, 0x08, 0x09, 0x0A, 0x0B,
   0x0C, 0x0D, 0x0E, 0x0F, 0x11, 0x20, 0x21, 0x22, 0x23, 0xFF]

/-- `enum class FrameType : uint8_t`, with the codes that have no enumerator. -/
inductive FrameType where
  | serverKeyRegistration
  | serverValue
  | clientKeyRegistration
  | clientValue
  | serverSync
  | clientReady
  | clientSync
  | serverReady
  | error
  | serverReset
  | clientResyncReq
  | clientReset
  | serverResyncReq
  | identify
  | auth
  | authOk
  | authFail
  | arrayShiftLeft
  | arrayShiftRight
  | serverKeyDelete
  | clientKeyRequest
  | serverFlushEnd
  | undeclared (code : UInt8) (h : code ∉ frameTypeCodes)
  deriving DecidableEq, Repr

namespace FrameType

/-- `static_cast<uint8_t>(frameType)`. -/
def toByte : FrameType → UInt8
  | serverKeyRegistration => 0x00
  | serverValue => 0x01
  | clientKeyRegistration => 0x02
  | clientValue => 0x03
  | serverSync => 0x04
  | clientReady => 0x05
  | clientSync => 0x06
  | serverReady => 0x07
  | error => 0x08
  | serverReset => 0x09
  | clientResyncReq => 0x0A
  | clientReset => 0x0B
  | serverResyncReq => 0x0C
  | identify => 0x0D
  | auth => 0x0E
  | authOk => 0x0F
  | authFail => 0x11
  | arrayShiftLeft => 0x20
  | arrayShiftRight => 0x21
  | serverKeyDelete => 0x22
  | clientKeyRequest => 0x23
  | serverFlushEnd => 0xFF
  | undeclared code _ => code

def declared : List FrameType :=
  [serverKeyRegistration, serverValue, clientKeyRegistration, clientValue,
   serverSync, clientReady, clientSync, serverReady, error, serverReset,
   clientResyncReq, clientReset, serverResyncReq, identify, auth, authOk,
   authFail, arrayShiftLeft, arrayShiftRight, serverKeyDelete,
   clientKeyRequest, serverFlushEnd]

/-- `static_cast<FrameType>(byte)`. -/
def ofByte (byte : UInt8) : FrameType :=
  match h : declared.find? (fun t => t.toByte == byte) with
  | some t => t
  | none => undeclared byte (not_mem_map_of_find?_eq_none toByte h)

theorem toByte_ofByte (byte : UInt8) : (ofByte byte).toByte = byte := by
  rw [ofByte]
  split
  · next t h => simpa using List.find?_some h
  · rfl

theorem ofByte_toByte (t : FrameType) : ofByte t.toByte = t := by
  cases t with
  | undeclared code h =>
      rw [ofByte]
      split
      · next t' h' =>
          have hcode := List.find?_some h'
          simp only [beq_iff_eq] at hcode
          exact absurd (List.mem_map.mpr ⟨t', List.mem_of_find?_eq_some h', hcode⟩) h
      · rfl
  | _ => rfl

/-- `isSignalFrame`: frame types without a payload. -/
def isSignalFrame : FrameType → Bool
  | serverSync | clientReady | clientSync | serverReady | serverReset
  | clientResyncReq | clientReset | serverResyncReq | authOk | serverFlushEnd
  | serverKeyDelete | clientKeyRequest => true
  | _ => false

def isKeyRegistrationFrame : FrameType → Bool
  | serverKeyRegistration | clientKeyRegistration => true
  | _ => false

end FrameType

/-- The payload variant. `float` and `double` hold the IEEE 754 bit patterns,
and `null` is `std::monostate`. -/
inductive Payload where
  | null
  | bool (value : Bool)
  | uint8 (value : UInt8)
  | uint16 (value : UInt16)
  | uint32 (value : UInt32)
  | uint64 (value : UInt64)
  | int32 (value : Int32)
  | int64 (value : Int64)
  | float (bits : UInt32)
  | double (bits : UInt64)
  | string (value : StdString)
  | binary (value : List UInt8)
  deriving DecidableEq, Repr

structure Frame where
  frameType : FrameType
  keyId : UInt32
  dataType : DataType
  payload : Payload
  deriving DecidableEq, Repr

def signalFrame (frameType : FrameType) : Frame :=
  ⟨frameType, 0, .null, .null⟩

/-- `dataTypeSize`, with `none` for the variable-length types. -/
def dataTypeSize : DataType → Option Nat
  | .null => some 0
  | .bool => some 1
  | .uint8 => some 1
  | .uint16 => some 2
  | .uint32 => some 4
  | .uint64 => some 8
  | .int32 => some 4
  | .int64 => some 8
  | .float32 => some 4
  | .float64 => some 8
  | .timestamp => some 8
  | .string | .binary | .varInteger | .varDouble | .varFloat
  | .undeclared _ _ => none

end DanWs.WireTypes
