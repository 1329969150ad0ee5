import DanWs.BinaryFloat
import DanWs.ScalarBytes

/-!
The compact decimal forms of doubles and floats. A value is printed with 17
significant digits and sent as a decimal mantissa and scale when the text has
no exponent and the mantissa is at most 2^53 - 1; otherwise its bits follow a
marker byte. `std::pow` and the floating-point conversions and divisions are
taken to be correctly rounded.
-/

namespace DanWs.VarFloats

open DanWs.BinaryFloat
open DanWs.ScalarBytes
open DanWs.WireTypes

def maxSafeInt : UInt64 := 9007199254740991

/-- `static_cast<uint64_t>` of a non-negative double, undefined from 2^64 on. -/
def truncateToUInt64 (numerator denominator : Nat) : Result UInt64 :=
  if numerator / denominator < 2 ^ 64 then .ok (UInt64.ofNat (numerator / denominator))
  else .error .undefinedBehaviour

/-- `std::stoull` on text without leading blanks or sign; `none` stands for
either exception. -/
def stoull (text : List Char) : Option UInt64 :=
  let digits := text.takeWhile Char.isDigit
  let value := Nat.ofDigitChars 10 digits 0
  if digits = [] ∨ 2 ^ 64 ≤ value then none else some (UInt64.ofNat value)

/-- `find_last_not_of('0')`. -/
def findLastNonZero (text : List Char) : Option Nat :=
  (text.reverse.findIdx? (· ≠ '0')).map fun i => text.length - 1 - i

/-- Scale and mantissa of the rendered text, or `none` for the fallback form.
`truncated` is the integer part, which stays the mantissa of text without a
point. -/
def compactParts (text : List Char) (truncated : UInt64) : Option (Nat × UInt64) :=
  match text.findIdx? (· = '.') with
  | none => some (0, truncated)
  | some dotIdx =>
      if 'e' ∈ text ∨ 'E' ∈ text then none
      else
        let text :=
          match findLastNonZero text with
          | none => text
          | some lastNonZero =>
              if dotIdx < lastNonZero then text.take (lastNonZero + 1)
              else if lastNonZero = dotIdx then text.take dotIdx
              else text
        match text.findIdx? (· = '.') with
        | none => some (0, truncated)
        | some dotIdx =>
            let scale := text.length - dotIdx - 1
            if 63 < scale then none
            else (stoull (text.take dotIdx ++ text.drop (dotIdx + 1))).map (scale, ·)

def compactBytes (negative : Bool) (parts : Option (Nat × UInt64)) : Option (List UInt8) :=
  match parts with
  | none => none
  | some (scale, mantissa) =>
      if maxSafeInt < mantissa then none
      else
        let firstByte := if negative then UInt8.ofNat (scale + 64) else UInt8.ofNat scale
        some (firstByte :: encodeVarInt mantissa)

def compactDouble (bits : Nat) : Result (Option (List UInt8)) := do
  let (numerator, denominator) := binary64.magnitude bits
  let truncated ← truncateToUInt64 numerator denominator
  let text := generalText 17 numerator denominator
  return compactBytes (binary64.signBit bits && !binary64.isZero bits)
    (compactParts text truncated)

def fallbackFloat64 (value : UInt64) : List UInt8 := 0x80 :: writeBE64 value

def serializeVarDouble (value : UInt64) : Result (List UInt8) :=
  let bits := value.toNat
  if !binary64.isFinite bits || (binary64.isZero bits && binary64.signBit bits) then
    .ok (fallbackFloat64 value)
  else do
    let compact ← compactDouble bits
    return compact.getD (fallbackFloat64 value)

/-- `mantissa / 10 ^ scale`, each operation rounded to a double. -/
def scaledDouble (negative : Bool) (mantissa : UInt64) (scale : Nat) : UInt64 :=
  let (numerator, numeratorUnit) :=
    binary64.magnitude (binary64.ofFraction mantissa.toNat 1)
  let (denominator, denominatorUnit) :=
    binary64.magnitude (binary64.ofFraction (10 ^ scale) 1)
  let quotient :=
    binary64.ofFraction (numerator * denominatorUnit) (numeratorUnit * denominator)
  UInt64.ofNat (binary64.withSign negative quotient)

def deserializeCompact (data : List UInt8) : UInt64 :=
  let firstByte := (byteAt data 0).toNat
  let negative := decide (64 ≤ firstByte)
  let scale := if negative then firstByte - 64 else firstByte
  scaledDouble negative (decodeVarInt data 1).1 scale

def deserializeVarDouble (data : List UInt8) : Result UInt64 :=
  if data.length = 0 then
    .error (.danWSError (str "PAYLOAD_SIZE_MISMATCH") (str "VarDouble requires at least 1 byte"))
  else if byteAt data 0 = 0x80 then
    if data.length < 9 then
      .error (.danWSError (str "PAYLOAD_SIZE_MISMATCH")
        (str "VarDouble fallback requires 9 bytes"))
    else .ok (readBE64 (data.drop 1))
  else .ok (deserializeCompact data)

/-- A quiet NaN of the target format that keeps the leading payload bits. -/
def convertNaN (source target : Format) (bits : Nat) : Nat :=
  let payload := source.fractionField bits * 2 ^ target.fractionBits / 2 ^ source.fractionBits
  target.infinity + (payload ||| 2 ^ (target.fractionBits - 1))

def convert (source target : Format) (bits : Nat) : Nat :=
  let magnitude :=
    if source.isFinite bits then
      let (numerator, denominator) := source.magnitude bits
      target.ofFraction numerator denominator
    else if source.fractionField bits = 0 then target.infinity
    else convertNaN source target bits
  target.withSign (source.signBit bits) magnitude

/-- `static_cast<float>(double)`. -/
def doubleToFloat (value : UInt64) : UInt32 :=
  UInt32.ofNat (convert binary64 binary32 value.toNat)

/-- `static_cast<double>(float)`. -/
def floatToDouble (value : UInt32) : UInt64 :=
  UInt64.ofNat (convert binary32 binary64 value.toNat)

def fallbackFloat32 (value : UInt32) : List UInt8 := 0x80 :: writeBE32 value

def serializeVarFloat (value : UInt64) : Result (List UInt8) :=
  let fval := doubleToFloat value
  let fbits := fval.toNat
  if !binary32.isFinite fbits || (binary32.isZero fbits && binary32.signBit fbits) then
    .ok (fallbackFloat32 fval)
  else do
    let compact ← compactDouble value.toNat
    return compact.getD (fallbackFloat32 fval)

def deserializeVarFloat (data : List UInt8) : Result UInt64 :=
  if data.length = 0 then
    .error (.danWSError (str "PAYLOAD_SIZE_MISMATCH") (str "VarFloat requires at least 1 byte"))
  else if byteAt data 0 = 0x80 then
    if data.length < 5 then
      .error (.danWSError (str "PAYLOAD_SIZE_MISMATCH")
        (str "VarFloat fallback requires 5 bytes"))
    else .ok (floatToDouble (readBE32 (data.drop 1)))
  else .ok (deserializeCompact data)

end DanWs.VarFloats
