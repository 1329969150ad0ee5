import DanWs.Codec
import DanWs.SerializerRoundTrip

namespace DanWs.CodecRoundTrip

open DanWs.ByteStuffing
open DanWs.Codec
open DanWs.ScalarBytes
open DanWs.SerializerRoundTrip
open DanWs.WireTypes

theorem readBE32_writeBE32_append (v : UInt32) (tail : List UInt8) :
    readBE32 (writeBE32 v ++ tail) = v :=
  readBE32_writeBE32 v

theorem parseFrame_header (frame : Frame) (payload : List UInt8) :
    parseFrame (frameHeader frame ++ payload) =
      (parsePayload frame.frameType frame.dataType payload).map fun value =>
        ⟨frame.frameType, frame.keyId, frame.dataType, value⟩ := by
  have hlength : ¬ (frameHeader frame ++ payload).length < 6 := by
    simp only [frameHeader, List.length_append, List.length_cons, writeBE32_length,
      List.length_nil]
    omega
  have htype : FrameType.ofByte (byteAt (frameHeader frame ++ payload) 0) = frame.frameType :=
    FrameType.ofByte_toByte frame.frameType
  have hkey : readBE32 ((frameHeader frame ++ payload).drop 1) = frame.keyId :=
    readBE32_writeBE32_append frame.keyId (frame.dataType.toByte :: payload)
  have hdata : DataType.ofByte (byteAt (frameHeader frame ++ payload) 5) = frame.dataType :=
    DataType.ofByte_toByte frame.dataType
  have hpayload : (frameHeader frame ++ payload).drop 6 = payload := rfl
  rw [parseFrame, if_neg hlength]
  dsimp only
  rw [htype, hkey, hdata, hpayload]

theorem parsePayload_rawPayload {frame : Frame} (h : WellFormed frame) :
    ∃ bytes, rawPayload frame = .ok bytes ∧
      parsePayload frame.frameType frame.dataType bytes = .ok frame.payload := by
  rw [WellFormed] at h
  unfold rawPayload parsePayload
  split at h
  · next hreg =>
      obtain ⟨path, hpath⟩ := h
      exact ⟨path, by rw [if_pos hreg, hpath], by rw [if_pos hreg, hpath]⟩
  · next hreg =>
      split at h
      · next hsignal =>
          exact ⟨[], by rw [if_neg hreg, if_pos hsignal],
            by rw [if_neg hreg, if_pos hsignal, h]⟩
      · next hsignal =>
          obtain ⟨bytes, hwrite, hread⟩ := deserialize_serialize h
          exact ⟨bytes, by rw [if_neg hreg, if_neg hsignal, hwrite],
            by rw [if_neg hreg, if_neg hsignal, hread]⟩

/-- A well-formed frame has a body, and the body determines the frame. -/
theorem parseFrame_rawBody {frame : Frame} (h : WellFormed frame) :
    ∃ body, rawBody frame = .ok body ∧ parseFrame body = .ok frame := by
  obtain ⟨bytes, hwrite, hread⟩ := parsePayload_rawPayload h
  refine ⟨frameHeader frame ++ bytes, ?_, ?_⟩
  · rw [rawBody, hwrite]
    rfl
  · rw [parseFrame_header, hread]
    rfl

theorem encode_of_rawBody {frame : Frame} {body : List UInt8} (h : rawBody frame = .ok body) :
    encode frame = .ok (wrapBody body) := by
  rw [encode, h]
  rfl

theorem decodeFrom_wrapBody_append {body : List UInt8} {frame : Frame}
    (h : parseFrame body = .ok frame) (offset : Nat) (rest : List UInt8) :
    ∃ next, decodeFrom offset (wrapBody body ++ rest) =
      (decodeFrom next rest).map (frame :: ·) := by
  have hscan : scanBody (dleEncode body ++ DLE :: ETX :: rest) = .ok (dleEncode body, rest) := by
    rw [dleEncode_eq_stuff]
    exact scanBody_stuff body rest
  have hunescape : dleDecode (dleEncode body) = body := by
    rw [dleDecode_eq_unstuff, dleEncode_eq_stuff, unstuff_stuff]
  refine ⟨offset + (dleEncode body).length + 4, ?_⟩
  rw [wrapBody, List.cons_append, List.cons_append, List.append_assoc, decodeFrom,
    if_neg (by simp)]
  simp only [List.cons_append, List.nil_append]
  split
  · next e herror => simp [hscan] at herror
  · next inner behind hfound =>
      obtain ⟨rfl, rfl⟩ : dleEncode body = inner ∧ rest = behind := by
        simpa [hscan] using hfound
      rw [hunescape, h]
      rfl

theorem decodeFrom_encodeBatch {frames : List Frame} (h : ∀ frame ∈ frames, WellFormed frame) :
    ∃ bytes, encodeBatch frames = .ok bytes ∧
      ∀ offset, decodeFrom offset bytes = .ok frames := by
  induction frames with
  | nil => exact ⟨[], rfl, fun offset => by rw [decodeFrom]⟩
  | cons frame frames ih =>
      obtain ⟨body, hbody, hparse⟩ := parseFrame_rawBody (h frame (by simp))
      obtain ⟨rest, hrest, hdecode⟩ := ih fun f hf => h f (by simp [hf])
      refine ⟨wrapBody body ++ rest, ?_, ?_⟩
      · rw [encodeBatch, encode_of_rawBody hbody, hrest]
        rfl
      · intro offset
        obtain ⟨next, hnext⟩ := decodeFrom_wrapBody_append hparse offset rest
        rw [hnext, hdecode]
        rfl

/-- Decoding the encoding of well-formed frames returns the same frames, with
the same key ids, data types and payload alternatives. -/
theorem decode_encodeBatch {frames : List Frame} (h : ∀ frame ∈ frames, WellFormed frame) :
    ∃ bytes, encodeBatch frames = .ok bytes ∧ decode bytes = .ok frames := by
  obtain ⟨bytes, hencode, hdecode⟩ := decodeFrom_encodeBatch h
  exact ⟨bytes, hencode, hdecode 0⟩

/-- A registration whose path and key id are full of delimiter bytes. -/
theorem decode_encodeBatch_escapes :
    ∃ bytes,
      encodeBatch
        [⟨.serverKeyRegistration, 0x10100203, .null, .string [DLE, STX, DLE, ETX, DLE, ENQ]⟩,
          signalFrame .serverSync, ⟨.serverValue, 0x10, .varInteger, .int32 8⟩] = .ok bytes ∧
      decode bytes = .ok
        [⟨.serverKeyRegistration, 0x10100203, .null, .string [DLE, STX, DLE, ETX, DLE, ENQ]⟩,
          signalFrame .serverSync, ⟨.serverValue, 0x10, .varInteger, .int32 8⟩] := by
  apply decode_encodeBatch
  intro frame hframe
  simp only [List.mem_cons, List.not_mem_nil, or_false] at hframe
  rcases hframe with rfl | rfl | rfl
  · exact ⟨_, rfl⟩
  · exact rfl
  · exact trivial

end DanWs.CodecRoundTrip
