import DanWs.KeyStores
import DanWs.ReceivedFrames
import DanWs.StreamRecovery

namespace DanWs.ByteReaders

open DanWs.Clients
open DanWs.Codec
open DanWs.ReceivedFrames
open DanWs.StreamDelivery
open DanWs.StreamParsing
open DanWs.StreamRecovery
open DanWs.WireTypes

theorem deliveredFrames_append (first second : List Event) :
    deliveredFrames (first ++ second) = deliveredFrames first ++ deliveredFrames second :=
  List.filterMap_append

structure Reader where
  parser : StreamParser
  client : Client

namespace Reader

def read (reader : Reader) (byte : UInt8) : Reader :=
  let (parser, events) := reader.parser.step byte
  ⟨parser, (reader.client.receive (deliveredFrames events)).1⟩

theorem foldl_read (reader : Reader) (bytes : List UInt8) :
    bytes.foldl read reader =
      ⟨(reader.parser.feed bytes).1,
        (reader.client.receive (deliveredFrames (reader.parser.feed bytes).2)).1⟩ := by
  induction bytes generalizing reader with
  | nil => rfl
  | cons byte bytes ih =>
      rw [List.foldl_cons, ih, StreamParser.feed]
      dsimp only [read]
      rw [deliveredFrames_append, Client.receive_append]

end Reader

/-- Frames as they are handed to the connection, one behind the other. -/
def wire (frames : List Frame) : List UInt8 :=
  frames.flatMap fun frame => (encode frame).toOption.getD []

section Reading

variable {maxBufferSize : Nat} {frames : List Frame}

theorem feed_wire (h : ∀ frame ∈ frames, Carried maxBufferSize frame) :
    StreamParser.feed (.new maxBufferSize) (wire frames) =
      (.new maxBufferSize, frames.map fun frame => .frame (receivedFrame frame)) := by
  induction frames with
  | nil => rfl
  | cons frame frames ih =>
      rw [List.forall_mem_cons] at h
      obtain ⟨bytes, hencode, hfeed⟩ := feed_encodeItem (show CarriedItem _ (.frame frame) from h.1)
      have hbytes : wire (frame :: frames) = bytes ++ wire frames := by
        rw [wire, List.flatMap_cons, show encode frame = .ok bytes from hencode]
        rfl
      rw [hbytes, StreamParser.feed_append, hfeed]
      dsimp only
      rw [ih h.2]
      rfl

/-- A reader at rest is at rest again behind whole frames, and the client has handled
each of them as it is received. -/
theorem foldl_read_wire (h : ∀ frame ∈ frames, Carried maxBufferSize frame) (client : Client) :
    (wire frames).foldl Reader.read ⟨.new maxBufferSize, client⟩ =
      ⟨.new maxBufferSize, (client.receive (frames.map receivedFrame)).1⟩ := by
  have hdelivered : deliveredFrames (frames.map fun frame => .frame (receivedFrame frame)) =
      frames.map receivedFrame := by
    rw [deliveredFrames, List.filterMap_map]
    exact List.filterMap_eq_map ▸ rfl
  rw [Reader.foldl_read]
  dsimp only
  rw [feed_wire h]
  dsimp only
  rw [hdelivered]

theorem foldl_read_heartbeat (client : Client) :
    encodeHeartbeat.foldl Reader.read ⟨.new maxBufferSize, client⟩ =
      ⟨.new maxBufferSize, client⟩ := by
  rw [Reader.foldl_read, feed_encodeHeartbeat]
  rfl

end Reading

end DanWs.ByteReaders
