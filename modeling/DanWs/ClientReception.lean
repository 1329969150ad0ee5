import DanWs.ClientLifecycle
import DanWs.StreamRecovery

namespace DanWs.ClientReception

open DanWs.ClientLifecycle
open DanWs.StepRuns
open DanWs.StreamParsing
open DanWs.StreamRecovery
open DanWs.WireTypes

structure DanWebSocketClient where
  live : LiveClient
  parser : StreamParser

inductive Event where
  | message (chunk : List UInt8)
  /-- Any event but the arrival of a frame. -/
  | happens (event : ClientLifecycle.Event)

namespace DanWebSocketClient

def maxBufferSize : Nat := 1048576

def new (uuidBytes : List UInt8) (options : ReconnectOptions) : DanWebSocketClient :=
  ⟨LiveClient.new uuidBytes options, StreamParser.new maxBufferSize⟩

def receives (whole : DanWebSocketClient) : Bool :=
  !whole.live.terminated && whole.live.client.isOpen

def delivered (whole : DanWebSocketClient) : Event → List Frame
  | .message chunk =>
      if whole.receives then deliveredFrames (whole.parser.feed chunk).2 else []
  | .happens _ => []

/-- What an event comes to without the parser. -/
def events (whole : DanWebSocketClient) : Event → List ClientLifecycle.Event
  | .message chunk => (whole.delivered (.message chunk)).map fun frame => .input (.frame frame)
  | .happens (.input (.frame _)) => []
  | .happens event => [event]

def step (whole : DanWebSocketClient) (event : Event) : DanWebSocketClient :=
  let live := run ClientLifecycle.step whole.live (whole.events event)
  match event with
  | .message chunk =>
      if whole.receives then ⟨live, (whole.parser.feed chunk).1⟩ else ⟨live, whole.parser⟩
  | .happens _ => ⟨live, whole.parser⟩

theorem events_happens (whole : DanWebSocketClient) (event : ClientLifecycle.Event) :
    whole.events (.happens event) = [] ∨ whole.events (.happens event) = [event] := by
  rw [events.eq_def]
  split
  · next hevent => cases hevent
  · exact Or.inl rfl
  · next hevent =>
      cases hevent
      exact Or.inr rfl

/-- Behind any run, the client is where the frames and the other events lead it. -/
theorem live_run (whole : DanWebSocketClient) (history : List Event) :
    (run step whole history).live =
      run ClientLifecycle.step whole.live (outputs step events whole history) := by
  induction history generalizing whole with
  | nil => rfl
  | cons event history ih =>
      rw [run_cons, ih, outputs, run_append]
      congr 1
      cases event with
      | message chunk =>
          rw [step]
          split <;> rfl
      | happens event => rfl

end DanWebSocketClient

end DanWs.ClientReception
