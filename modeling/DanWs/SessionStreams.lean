import DanWs.ClientReception
import DanWs.FanOut
import DanWs.SessionTurns

namespace DanWs.SessionStreams

open DanWs.ByteReaders
open DanWs.ClientReception (DanWebSocketClient)
open DanWs.Clients
open DanWs.Codec
open DanWs.FanOut
open DanWs.FiniteMaps
open DanWs.KeyStores
open DanWs.ReceivedFrames
open DanWs.ReceivedStores
open DanWs.Replication
open DanWs.SessionRows
open DanWs.SessionTurns
open DanWs.Sessions
open DanWs.StepRuns
open DanWs.StockedStates
open DanWs.TopicParsing
open DanWs.WireTypes

def sent [HashOrder StdString] (conversation : Conversation) (event : Turn) : List UInt8 :=
  match event with
  | .heartbeat => encodeHeartbeat
  | .call _ | .sync | .frame _ => wire (emitted conversation event)

def parties [HashOrder StdString] : Parties Unit Conversation Reader UInt8 Turn where
  call := turn
  emit := fun conversation event _ => sent conversation event
  consume := Reader.read

section Streams

variable [HashOrder StdString] {maxBufferSize : Nat} {start : UInt32}
  {conversation : Conversation} {reader : Reader}

/-- The reader is between two frames, and its client has what it receives of the rows. -/
structure Linked (maxBufferSize : Nat) (start : UInt32) (conversation : Conversation)
    (reader : Reader) : Prop where
  parser : reader.parser = .new maxBufferSize
  keys : ∃ keys, Reads keys (keyStore reader.client) ∧
    Serves maxBufferSize start conversation.activation keys

theorem linked_wire (hroom : pathRoom ≤ maxBufferSize)
    (h : Linked maxBufferSize start conversation reader) (event : Turn)
    (hallowed : Allowed maxBufferSize conversation event) :
    Linked maxBufferSize start (turn conversation event)
      ((wire (emitted conversation event)).foldl Reader.read reader) := by
  obtain ⟨parser, client⟩ := reader
  obtain ⟨rfl, keys, hreads, hserves⟩ := h
  obtain ⟨hnext, hframes⟩ := serves_turn hroom hserves event hallowed
  have hsync : ∀ frame ∈ (emitted conversation event).map receivedFrame, isSyncFrame frame := by
    rw [List.forall_mem_map]
    intro frame hframe
    rw [receivedFrame_fields]
    exact (hframes frame hframe).1
  rw [foldl_read_wire fun frame hframe => (hframes frame hframe).2]
  refine ⟨rfl, _, ?_, hnext⟩
  rw [keyStore_receive client hsync]
  exact reads_receive hreads _

theorem linked_turn (hroom : pathRoom ≤ maxBufferSize)
    (h : Linked maxBufferSize start conversation reader) (event : Turn)
    (hallowed : Allowed maxBufferSize conversation event) :
    Linked maxBufferSize start (turn conversation event)
      ((sent conversation event).foldl Reader.read reader) := by
  cases event with
  | heartbeat =>
      obtain ⟨parser, client⟩ := reader
      obtain ⟨rfl, hkeys⟩ := h
      rw [sent, foldl_read_heartbeat]
      exact ⟨rfl, hkeys⟩
  | call | sync | frame => exact linked_wire hroom h _ hallowed

theorem linked_run {session : Session} (htopics : session.topicHandles = ∅) {client : Client}
    (hfresh : keyStore client = keyStore Client.new) {tables : ClientTables}
    {events : List (FanOut.Event Unit Turn)}
    (hmeet : StepsMeet turn (Allowed DanWebSocketClient.maxBufferSize) (attend session tables)
      (callsOf events)) :
    let network := run parties.step
      ⟨attend session tables, fun _ => ⟨.new DanWebSocketClient.maxBufferSize, client⟩,
        fun _ => []⟩ events
    Linked DanWebSocketClient.maxBufferSize session.nextKeyId network.sender
      (parties.drained network ()) := by
  intro network
  have hstart : Linked DanWebSocketClient.maxBufferSize session.nextKeyId (attend session tables)
      ⟨.new DanWebSocketClient.maxBufferSize, client⟩ :=
    ⟨rfl, _, hfresh ▸ reads_new, serves_activate _ htopics⟩
  have hstep : ∀ conversation reader event,
      Linked DanWebSocketClient.maxBufferSize session.nextKeyId conversation reader →
      Allowed DanWebSocketClient.maxBufferSize conversation event →
      Linked DanWebSocketClient.maxBufferSize session.nextKeyId (turn conversation event)
        ((sent conversation event).foldl Reader.read reader) :=
    fun _ _ event hlinked => linked_turn (by decide) hlinked event
  rw [parties.sender_run, parties.drained_run]
  exact related_run hstep hstart hmeet

theorem exactCopy_of_linked (h : Linked maxBufferSize start conversation reader) :
    ExactCopy reader.client ((sessionRows conversation.activation.session).image receivedRow) := by
  obtain ⟨-, keys, hreads, hserves⟩ := h
  exact exactCopy_of_inSync (inSync_of_reads hreads hserves.inSync)

end Streams

/-- A topic that the client asks for and gives up, a double and texts on their way, and
the first bytes of them delivered in between. -/
def boardEvents : List (FanOut.Event Unit Turn) :=
  [.call .sync, .deliver () 3, .call (.frame (signalFrame .clientReset)),
    .call (.frame ⟨.clientKeyRegistration, 1, .string, .string (str "topic.0.name")⟩),
    .call (.frame ⟨.clientValue, 1, .string, .string (str "board")⟩),
    .call (.frame (signalFrame .clientSync)),
    .call (.call (.set (str "pi") (.double 0x400921FB54442D18))), .deliver () 20,
    .call (.call (.topicSet (str "board") (str "x") (.string (str "v")))),
    .call (.frame (signalFrame .clientReady)), .call .heartbeat, .deliver () 7,
    .call (.frame ⟨.clientKeyRequest, 1, .null, .null⟩),
    .call (.frame (signalFrame .clientReset)), .call (.frame (signalFrame .clientSync)),
    .call (.call (.set (str "pi") (.double 0x3FB999999999999A))), .deliver () 1000]

end DanWs.SessionStreams
