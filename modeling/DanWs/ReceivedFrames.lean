import DanWs.ReceivedValues
import DanWs.StreamDelivery

namespace DanWs.ReceivedFrames

open DanWs.Codec
open DanWs.CodecRoundTrip
open DanWs.FlatStates
open DanWs.ReceivedValues
open DanWs.ScalarBytes
open DanWs.Serializer
open DanWs.StreamDelivery
open DanWs.StreamParsing
open DanWs.TypedValues
open DanWs.WireTypes

def received (value : Payload) : Payload :=
  match transmit value with
  | .ok read => read
  | .error _ => value

/-- Only the frames of one value hold one that is read back. -/
def CarriesValue (frame : Frame) : Bool :=
  !frame.frameType.isKeyRegistrationFrame && !frame.frameType.isSignalFrame

def receivedFrame (frame : Frame) : Frame :=
  if CarriesValue frame then { frame with payload := received frame.payload } else frame

/-- A value that can be sent, in a body of at most so many bytes. -/
def Transmissible (maxBufferSize : Nat) (value : Payload) : Prop :=
  ¬ ExceedsUInt64 value ∧
    ∀ bytes, serialize (detectDataType value) value = .ok bytes → bytes.length + 6 ≤ maxBufferSize

instance : (value : Payload) → Decidable (ExceedsUInt64 value)
  | .float _ | .double _ => inferInstanceAs (Decidable (_ ∧ _))
  | .null | .bool _ | .uint8 _ | .uint16 _ | .uint32 _ | .uint64 _ | .int32 _ | .int64 _
  | .string _ | .binary _ => inferInstanceAs (Decidable False)

instance (maxBufferSize : Nat) (value : Payload) : Decidable (Transmissible maxBufferSize value) :=
  match hbytes : serialize (detectDataType value) value with
  | .error _ => decidable_of_iff (¬ ExceedsUInt64 value) (by simp [Transmissible, hbytes])
  | .ok bytes =>
      decidable_of_iff (¬ ExceedsUInt64 value ∧ bytes.length + 6 ≤ maxBufferSize)
        (by simp [Transmissible, hbytes])

/-- A frame that the parser at the other end takes. -/
def Carried (maxBufferSize : Nat) (frame : Frame) : Prop :=
  if frame.frameType.isKeyRegistrationFrame then
    ∃ path, frame.payload = .string path ∧ path.length + 6 ≤ maxBufferSize
  else if frame.frameType.isSignalFrame then frame.payload = .null ∧ 6 ≤ maxBufferSize
  else frame.dataType = detectDataType frame.payload ∧ Transmissible maxBufferSize frame.payload

section Values

variable {value : Payload}

theorem exists_read (h : ¬ ExceedsUInt64 value) :
    ∃ bytes, serialize (detectDataType value) value = .ok bytes ∧
      deserialize (detectDataType value) bytes = .ok (received value) := by
  have htransmit : ∃ read, transmit value = .ok read := by
    obtain ⟨hsmall, hexact⟩ := transmit_cases h
    by_cases hdigit : PrintedAsDigit value
    · exact ⟨_, hsmall hdigit⟩
    · exact ⟨_, hexact hdigit⟩
  obtain ⟨read, hread⟩ := htransmit
  rw [received, hread]
  dsimp only
  rcases serialize_detectDataType value with ⟨bytes, hbytes⟩ | ⟨-, hexceeds⟩
  · rw [transmit, hbytes] at hread
    exact ⟨bytes, hbytes, hread⟩
  · exact absurd hexceeds h

theorem received_eq_iff (value : Payload) (h : ¬ ExceedsUInt64 value) :
    received value = asReceived value ↔ ¬ PrintedAsDigit value := by
  have hiff := transmit_eq_iff value
  obtain ⟨hsmall, hexact⟩ := transmit_cases h
  rw [received]
  by_cases hdigit : PrintedAsDigit value
  · rw [hsmall hdigit]
    simp [hdigit, zeroOf_ne hdigit]
  · rw [hexact hdigit]
    simp [hdigit]

end Values

section Frames

variable {maxBufferSize : Nat} {frame : Frame}

theorem parsePayload_rawPayload (h : Carried maxBufferSize frame) :
    ∃ bytes, rawPayload frame = .ok bytes ∧ bytes.length + 6 ≤ maxBufferSize ∧
      parsePayload frame.frameType frame.dataType bytes = .ok (receivedFrame frame).payload := by
  rw [Carried] at h
  unfold rawPayload parsePayload receivedFrame CarriesValue
  split at h
  · next hreg =>
      obtain ⟨path, hpath, hlength⟩ := h
      exact ⟨path, by rw [if_pos hreg, hpath], hlength, by simp [hreg, hpath]⟩
  · next hreg =>
      split at h
      · next hsignal =>
          exact ⟨[], by rw [if_neg hreg, if_pos hsignal], h.2, by simp [hreg, hsignal, h.1]⟩
      · next hsignal =>
          obtain ⟨htype, hexceeds, hlength⟩ := h
          obtain ⟨bytes, hwrite, hread⟩ := exists_read hexceeds
          refine ⟨bytes, ?_, hlength bytes hwrite, ?_⟩
          · rw [if_neg hreg, if_neg hsignal, htype, hwrite]
          · simp [hreg, hsignal, htype, hread]

theorem receivedFrame_fields (frame : Frame) :
    receivedFrame frame =
      ⟨frame.frameType, frame.keyId, frame.dataType, (receivedFrame frame).payload⟩ := by
  rw [receivedFrame]
  split <;> rfl

theorem parseFrame_rawBody (h : Carried maxBufferSize frame) :
    ∃ body, rawBody frame = .ok body ∧ body.length ≤ maxBufferSize ∧
      parseFrame body = .ok (receivedFrame frame) := by
  obtain ⟨bytes, hwrite, hlength, hread⟩ := parsePayload_rawPayload h
  refine ⟨frameHeader frame ++ bytes, ?_, ?_, ?_⟩
  · rw [rawBody, hwrite]
    rfl
  · simp only [frameHeader, List.length_append, List.length_cons, writeBE32_length, List.length_nil]
    omega
  · rw [parseFrame_header, hread, receivedFrame_fields]
    rfl

end Frames

section Streams

variable {maxBufferSize : Nat}

def CarriedItem (maxBufferSize : Nat) : Item → Prop
  | .frame frame => Carried maxBufferSize frame
  | .heartbeat => True

def receivedItem : Item → Event
  | .frame frame => .frame (receivedFrame frame)
  | .heartbeat => .heartbeat

theorem feed_encodeItem {item : Item} (h : CarriedItem maxBufferSize item) :
    ∃ bytes, encodeItem item = .ok bytes ∧
      StreamParser.feed (.new maxBufferSize) bytes = (.new maxBufferSize, [receivedItem item]) := by
  cases item with
  | frame frame =>
      obtain ⟨body, hbody, hroom, hparse⟩ := parseFrame_rawBody h
      refine ⟨wrapBody body, encode_of_rawBody hbody, ?_⟩
      rw [feed_wrapBody hroom, completeFrame, hparse]
      rfl
  | heartbeat => exact ⟨encodeHeartbeat, rfl, feed_encodeHeartbeat maxBufferSize⟩

theorem feed_encodeItems {items : List Item} (h : ∀ item ∈ items, CarriedItem maxBufferSize item) :
    ∃ bytes, encodeItems items = .ok bytes ∧
      StreamParser.feed (.new maxBufferSize) bytes =
        (.new maxBufferSize, items.map receivedItem) := by
  induction items with
  | nil => exact ⟨[], rfl, rfl⟩
  | cons item items ih =>
      rw [List.forall_mem_cons] at h
      obtain ⟨bytes, hencode, hfeed⟩ := feed_encodeItem h.1
      obtain ⟨rest, hrest, hfeeds⟩ := ih h.2
      refine ⟨bytes ++ rest, ?_, ?_⟩
      · rw [encodeItems, hencode, hrest]
        rfl
      · rw [StreamParser.feed_append, hfeed]
        dsimp only
        rw [hfeeds]
        rfl

/-- Frames of any values arrive in order, with the values as they are received, however
the stream is cut into chunks. -/
theorem feedChunks_carried {items : List Item}
    (h : ∀ item ∈ items, CarriedItem maxBufferSize item) :
    ∃ bytes, encodeItems items = .ok bytes ∧
      ∀ chunks : List (List UInt8), chunks.flatten = bytes →
        StreamParser.feedChunks (.new maxBufferSize) chunks =
          (.new maxBufferSize, items.map receivedItem) := by
  obtain ⟨bytes, hencode, hfeed⟩ := feed_encodeItems h
  refine ⟨bytes, hencode, fun chunks hchunks => ?_⟩
  rw [StreamParser.feedChunks_eq_feed_flatten, hchunks, hfeed]

def sensorItems : List Item :=
  [.frame ⟨.serverKeyRegistration, 1, .varDouble, .string (str "t")⟩,
    .frame ⟨.serverValue, 1, .varDouble, .double 0x3FB999999999999A⟩, .heartbeat]

theorem feedChunks_carried_sensor :
    ∃ bytes, encodeItems sensorItems = .ok bytes ∧
      ∀ chunks : List (List UInt8), chunks.flatten = bytes →
        StreamParser.feedChunks (.new 1048576) chunks =
          (.new 1048576, sensorItems.map receivedItem) := by
  have hregistration : CarriedItem 1048576 (.frame ⟨.serverKeyRegistration, 1, .varDouble,
      .string (str "t")⟩) := ⟨str "t", rfl, by decide⟩
  have hvalue : CarriedItem 1048576 (.frame ⟨.serverValue, 1, .varDouble,
      .double 0x3FB999999999999A⟩) := ⟨rfl, by decide +kernel⟩
  refine feedChunks_carried ?_
  exact List.forall_mem_cons.mpr ⟨hregistration, List.forall_mem_cons.mpr
    ⟨hvalue, List.forall_mem_singleton.mpr trivial⟩⟩

end Streams

end DanWs.ReceivedFrames
