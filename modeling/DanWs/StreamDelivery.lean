import DanWs.CodecRoundTrip
import DanWs.StreamParsing

namespace DanWs.StreamDelivery

open DanWs.ByteStuffing
open DanWs.Codec
open DanWs.CodecRoundTrip
open DanWs.StreamParsing
open DanWs.WireTypes

inductive Item where
  | frame (frame : Frame)
  | heartbeat

def encodeItem : Item → Result (List UInt8)
  | .frame frame => encode frame
  | .heartbeat => .ok encodeHeartbeat

def encodeItems : List Item → Result (List UInt8)
  | [] => .ok []
  | item :: items => do
      let encoded ← encodeItem item
      return encoded ++ (← encodeItems items)

def Item.event : Item → Event
  | .frame f => .frame f
  | .heartbeat => .heartbeat

/-- A heartbeat, or a well-formed frame whose body fits the parser's buffer. -/
def Fits (maxBufferSize : Nat) : Item → Prop
  | .frame frame =>
      WellFormed frame ∧ ∀ body, rawBody frame = .ok body → body.length ≤ maxBufferSize
  | .heartbeat => True

theorem step_idle_DLE (max : Nat) (buffer : List UInt8) :
    StreamParser.step ⟨max, .idle, buffer⟩ DLE = (⟨max, .afterDLE, buffer⟩, []) := by
  simp [StreamParser.step]

theorem step_afterDLE_STX (max : Nat) (buffer : List UInt8) :
    StreamParser.step ⟨max, .afterDLE, buffer⟩ STX = (⟨max, .inFrame, []⟩, []) := by
  simp [StreamParser.step]

theorem step_afterDLE_ENQ (max : Nat) (buffer : List UInt8) :
    StreamParser.step ⟨max, .afterDLE, buffer⟩ ENQ = (⟨max, .idle, buffer⟩, [.heartbeat]) := by
  simp [StreamParser.step, ENQ, STX]

theorem step_inFrame_DLE (max : Nat) (buffer : List UInt8) :
    StreamParser.step ⟨max, .inFrame, buffer⟩ DLE = (⟨max, .inFrameAfterDLE, buffer⟩, []) := by
  simp [StreamParser.step]

theorem step_inFrame_byte {max : Nat} {buffer : List UInt8} {byte : UInt8} (hne : byte ≠ DLE)
    (hroom : buffer.length < max) :
    StreamParser.step ⟨max, .inFrame, buffer⟩ byte =
      (⟨max, .inFrame, buffer ++ [byte]⟩, []) := by
  simp [StreamParser.step, hne, Nat.not_le.mpr hroom]

theorem step_inFrameAfterDLE_DLE (max : Nat) (buffer : List UInt8) :
    StreamParser.step ⟨max, .inFrameAfterDLE, buffer⟩ DLE =
      (⟨max, .inFrame, buffer ++ [DLE]⟩, []) := by
  simp [StreamParser.step, DLE, ETX]

theorem step_inFrameAfterDLE_ETX (max : Nat) (buffer : List UInt8) :
    StreamParser.step ⟨max, .inFrameAfterDLE, buffer⟩ ETX =
      (⟨max, .idle, []⟩, [completeFrame buffer]) := by
  simp [StreamParser.step]

theorem feed_stuff {max : Nat} {buffer raw : List UInt8}
    (hroom : (buffer ++ raw).length ≤ max) (rest : List UInt8) :
    StreamParser.feed ⟨max, .inFrame, buffer⟩ (stuff DLE raw ++ rest) =
      StreamParser.feed ⟨max, .inFrame, buffer ++ raw⟩ rest := by
  induction raw generalizing buffer with
  | nil => simp
  | cons byte raw ih =>
      have hnext : (buffer ++ [byte] ++ raw).length ≤ max := by simpa using hroom
      have hlt : buffer.length < max := by
        simp only [List.length_append, List.length_cons] at hroom
        omega
      have hcollect := ih hnext
      rw [List.append_assoc, List.singleton_append] at hcollect
      rcases eq_or_ne byte DLE with rfl | hbyte
      · rw [stuff_cons_esc, List.cons_append, List.cons_append, StreamParser.feed,
          step_inFrame_DLE]
        dsimp only
        rw [StreamParser.feed, step_inFrameAfterDLE_DLE]
        exact hcollect
      · rw [stuff_cons_of_ne hbyte, List.cons_append, StreamParser.feed,
          step_inFrame_byte hbyte hlt]
        exact hcollect

theorem feed_wrapBody_idle {max : Nat} {buffer body : List UInt8} (hroom : body.length ≤ max) :
    StreamParser.feed ⟨max, .idle, buffer⟩ (wrapBody body) =
      (.new max, [completeFrame body]) := by
  rw [wrapBody, dleEncode_eq_stuff, StreamParser.feed, step_idle_DLE]
  dsimp only
  rw [StreamParser.feed, step_afterDLE_STX]
  dsimp only
  rw [feed_stuff (by simpa using hroom), List.nil_append, StreamParser.feed, step_inFrame_DLE]
  dsimp only
  rw [StreamParser.feed, step_inFrameAfterDLE_ETX]
  rfl

theorem feed_wrapBody {max : Nat} {body : List UInt8} (hroom : body.length ≤ max) :
    StreamParser.feed (.new max) (wrapBody body) = (.new max, [completeFrame body]) :=
  feed_wrapBody_idle hroom

theorem feed_encodeHeartbeat (max : Nat) :
    StreamParser.feed (.new max) encodeHeartbeat = (.new max, [.heartbeat]) := by
  rw [encodeHeartbeat, StreamParser.new, StreamParser.feed, step_idle_DLE]
  dsimp only
  rw [StreamParser.feed, step_afterDLE_ENQ]
  rfl

theorem feed_encodeItem {max : Nat} {item : Item} (h : Fits max item) :
    ∃ bytes, encodeItem item = .ok bytes ∧
      StreamParser.feed (.new max) bytes = (.new max, [item.event]) := by
  cases item with
  | frame frame =>
      obtain ⟨hwf, hroom⟩ := h
      obtain ⟨body, hbody, hparse⟩ := parseFrame_rawBody hwf
      refine ⟨wrapBody body, encode_of_rawBody hbody, ?_⟩
      rw [feed_wrapBody (hroom body hbody), completeFrame, hparse]
      rfl
  | heartbeat => exact ⟨encodeHeartbeat, rfl, feed_encodeHeartbeat max⟩

theorem feed_encodeItems {max : Nat} {items : List Item} (h : ∀ item ∈ items, Fits max item) :
    ∃ bytes, encodeItems items = .ok bytes ∧
      StreamParser.feed (.new max) bytes = (.new max, items.map Item.event) := by
  induction items with
  | nil => exact ⟨[], rfl, rfl⟩
  | cons item items ih =>
      obtain ⟨bytes, hencode, hfeed⟩ := feed_encodeItem (h item (by simp))
      obtain ⟨rest, hrest, hfeeds⟩ := ih fun i hi => h i (by simp [hi])
      refine ⟨bytes ++ rest, ?_, ?_⟩
      · rw [encodeItems, hencode, hrest]
        rfl
      · rw [StreamParser.feed_append, hfeed]
        dsimp only
        rw [hfeeds]
        rfl

/-- However the encoded stream is cut into chunks, a fresh parser reports
exactly the items that were sent, in order, and ends at rest. -/
theorem feedChunks_encodeItems {max : Nat} {items : List Item}
    (h : ∀ item ∈ items, Fits max item) :
    ∃ bytes, encodeItems items = .ok bytes ∧
      ∀ chunks : List (List UInt8), chunks.flatten = bytes →
        StreamParser.feedChunks (.new max) chunks = (.new max, items.map Item.event) := by
  obtain ⟨bytes, hencode, hfeed⟩ := feed_encodeItems h
  refine ⟨bytes, hencode, ?_⟩
  intro chunks hchunks
  rw [StreamParser.feedChunks_eq_feed_flatten, hchunks, hfeed]

/-- A heartbeat between two frames, one of them full of delimiter bytes. -/
theorem feedChunks_encodeItems_escapes :
    ∃ bytes,
      encodeItems
        [.frame (signalFrame .serverSync), .heartbeat,
          .frame ⟨.serverValue, 0x10, .binary, .binary [DLE, ETX, DLE]⟩] = .ok bytes ∧
      ∀ chunks : List (List UInt8), chunks.flatten = bytes →
        StreamParser.feedChunks (.new 9) chunks =
          (.new 9, [.frame (signalFrame .serverSync), .heartbeat,
            .frame ⟨.serverValue, 0x10, .binary, .binary [DLE, ETX, DLE]⟩]) := by
  apply feedChunks_encodeItems
  intro item hitem
  simp only [List.mem_cons, List.not_mem_nil, or_false] at hitem
  rcases hitem with rfl | rfl | rfl
  · refine ⟨rfl, fun body hbody => ?_⟩
    cases hbody
    decide
  · trivial
  · refine ⟨trivial, fun body hbody => ?_⟩
    cases hbody
    decide

end DanWs.StreamDelivery
