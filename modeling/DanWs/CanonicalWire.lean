import DanWs.DecoderAgreement

namespace DanWs.CanonicalWire

open DanWs.Codec
open DanWs.CodecRoundTrip
open DanWs.DecoderAgreement
open DanWs.ScalarBytes
open DanWs.Serializer
open DanWs.WireTypes

/-- The data types whose values have several wire forms. -/
def isVarNumeric : DataType → Bool
  | .varInteger | .varDouble | .varFloat => true
  | _ => false

theorem length_of_deserialize {dataType : DataType} {data : List UInt8} {value : Payload}
    {expected : Nat} (hsize : dataTypeSize dataType = some expected)
    (h : deserialize dataType data = .ok value) :
    data.length = expected ∧ deserializeSized dataType data = .ok value := by
  rw [deserialize, hsize] at h
  dsimp only at h
  split at h
  · cases h
  · next hlength => exact ⟨not_not.mp hlength, h⟩

theorem serialize_bool {data : List UInt8} {value : Payload}
    (h : deserialize .bool data = .ok value) : serialize .bool value = .ok data := by
  obtain ⟨hlength, hsized⟩ := length_of_deserialize rfl h
  obtain ⟨byte, rfl⟩ := List.length_eq_one_iff.mp hlength
  simp only [deserializeSized, byteAt, List.getD_cons_zero] at hsized
  split at hsized
  · next hone =>
      cases hsized
      rw [hone]
      rfl
  · split at hsized
    · next hzero =>
        cases hsized
        rw [hzero]
        rfl
    · cases hsized

theorem serialize_deserialize {dataType : DataType} {data : List UInt8} {value : Payload}
    (hvar : isVarNumeric dataType = false) (h : deserialize dataType data = .ok value) :
    serialize dataType value = .ok data := by
  cases dataType with
  | null =>
      obtain ⟨hlength, hsized⟩ := length_of_deserialize rfl h
      rw [List.length_eq_zero_iff.mp hlength]
      rfl
  | bool => exact serialize_bool h
  | uint8 =>
      obtain ⟨hlength, hsized⟩ := length_of_deserialize rfl h
      obtain ⟨byte, rfl⟩ := List.length_eq_one_iff.mp hlength
      cases hsized
      rfl
  | uint16 =>
      obtain ⟨hlength, hsized⟩ := length_of_deserialize rfl h
      cases hsized
      exact congrArg Except.ok (writeBE16_readBE16 hlength)
  | uint32 | int32 | float32 =>
      obtain ⟨hlength, hsized⟩ := length_of_deserialize rfl h
      cases hsized
      exact congrArg Except.ok (writeBE32_readBE32 hlength)
  | uint64 | int64 | timestamp | float64 =>
      obtain ⟨hlength, hsized⟩ := length_of_deserialize rfl h
      cases hsized
      exact congrArg Except.ok (writeBE64_readBE64 hlength)
  | string | binary =>
      cases h
      rfl
  | varInteger | varDouble | varFloat => cases hvar
  | undeclared code hcode => cases h

theorem frameHeader_append {body : List UInt8} (h : 6 ≤ body.length) (payload : Payload) :
    frameHeader ⟨FrameType.ofByte (byteAt body 0), readBE32 (body.drop 1),
      DataType.ofByte (byteAt body 5), payload⟩ ++ body.drop 6 = body := by
  obtain ⟨b, c, d, e, f, g, data, rfl⟩ : ∃ b c d e f g data,
      body = b :: c :: d :: e :: f :: g :: data := by
    match body, h with
    | b :: c :: d :: e :: f :: g :: data, _ => exact ⟨b, c, d, e, f, g, data, rfl⟩
  have hread : readBE32 (c :: d :: e :: f :: g :: data) = readBE32 [c, d, e, f] := rfl
  have hid : writeBE32 (readBE32 [c, d, e, f]) = [c, d, e, f] := writeBE32_readBE32 rfl
  have htype : (FrameType.ofByte b).toByte = b := FrameType.toByte_ofByte b
  have hdata : (DataType.ofByte g).toByte = g := DataType.toByte_ofByte g
  simp only [frameHeader, List.drop_succ_cons, List.drop_zero, byteAt, List.getD_cons_zero,
    List.getD_cons_succ, hread, hid, htype, hdata]
  rfl

/-- The conditions under which a frame has only one wire form. -/
structure OneForm (frame : Frame) : Prop where
  notSignal : ¬ frame.frameType.isSignalFrame
  notVarNumeric : ¬ frame.frameType.isKeyRegistrationFrame → ¬ isVarNumeric frame.dataType

theorem rawPayload_of_parsePayload {frame : Frame} (h : OneForm frame) {data : List UInt8}
    (hparse : parsePayload frame.frameType frame.dataType data = .ok frame.payload) :
    rawPayload frame = .ok data := by
  rw [parsePayload] at hparse
  rw [rawPayload]
  split at hparse
  · next hreg =>
      rw [if_pos hreg, ← Except.ok.inj hparse]
  · next hreg =>
      rw [if_neg h.notSignal] at hparse
      rw [if_neg hreg, if_neg h.notSignal]
      exact serialize_deserialize (Bool.eq_false_iff.mpr (h.notVarNumeric hreg)) hparse

theorem rawBody_of_parseFrame {frame : Frame} (h : OneForm frame) {body : List UInt8}
    (hparse : parseFrame body = .ok frame) : rawBody frame = .ok body := by
  rw [parseFrame] at hparse
  split at hparse
  · cases hparse
  · next hlength =>
      cases hpayload : parsePayload (FrameType.ofByte (byteAt body 0))
          (DataType.ofByte (byteAt body 5)) (body.drop 6) with
      | error e =>
          simp only [hpayload] at hparse
          cases hparse
      | ok payload =>
          simp only [hpayload] at hparse
          cases hparse
          rw [rawBody, rawPayload_of_parsePayload h hpayload]
          exact congrArg Except.ok (frameHeader_append (Nat.le_of_not_lt hlength) payload)

theorem encodeBatch_of_spells {data : List UInt8} {frames : List Frame} (h : Spells data frames)
    (hform : ∀ frame ∈ frames, OneForm frame) : encodeBatch frames = .ok data := by
  induction h with
  | nil => rfl
  | cons hparse _ ih =>
      have hbody := rawBody_of_parseFrame (hform _ List.mem_cons_self) hparse
      rw [encodeBatch, encode_of_rawBody hbody,
        ih fun frame hframe => hform frame (List.mem_cons_of_mem _ hframe)]
      rfl

/-- What decodes to frames of one form each is their encoding, so that no other
byte string decodes to the same frames. -/
theorem encodeBatch_decode {data : List UInt8} {frames : List Frame}
    (h : decode data = .ok frames) (hform : ∀ frame ∈ frames, OneForm frame) :
    encodeBatch frames = .ok data ∧ ∀ other, decode other = .ok frames → other = data := by
  have hdata := encodeBatch_of_spells (decode_eq_ok_iff.mp h) hform
  refine ⟨hdata, fun other hother => ?_⟩
  have hsame := encodeBatch_of_spells (decode_eq_ok_iff.mp hother) hform
  rw [hdata] at hsame
  exact (Except.ok.inj hsame).symm

/-- A registration of an undeclared data type, and a frame of an undeclared type. -/
theorem encodeBatch_decode_undeclared :
    encodeBatch [⟨FrameType.ofByte 0x00, 0x10, DataType.ofByte 0x77, .string [DLE, ETX]⟩,
        ⟨FrameType.ofByte 0x77, 3, .bool, .bool true⟩] =
      .ok [DLE, STX, 0, 0, 0, 0, DLE, DLE, 0x77, DLE, DLE, ETX, DLE, ETX,
        DLE, STX, 0x77, 0, 0, 0, 3, 0x01, 1, DLE, ETX] ∧
      ∀ other, decode other = .ok
          [⟨FrameType.ofByte 0x00, 0x10, DataType.ofByte 0x77, .string [DLE, ETX]⟩,
            ⟨FrameType.ofByte 0x77, 3, .bool, .bool true⟩] →
        other = [DLE, STX, 0, 0, 0, 0, DLE, DLE, 0x77, DLE, DLE, ETX, DLE, ETX,
          DLE, STX, 0x77, 0, 0, 0, 3, 0x01, 1, DLE, ETX] := by
  refine encodeBatch_decode (by decide +kernel) ?_
  intro frame hframe
  simp only [List.mem_cons, List.not_mem_nil, or_false] at hframe
  rcases hframe with rfl | rfl
  · exact ⟨by decide, by decide⟩
  · exact ⟨by decide, by decide⟩

end DanWs.CanonicalWire
