import DanWs.Codec

namespace DanWs.StreamParsing

open DanWs.Codec
open DanWs.WireTypes

inductive State where
  | idle
  | afterDLE
  | inFrame
  | inFrameAfterDLE
  deriving DecidableEq, Repr

structure StreamParser where
  maxBufferSize : Nat
  state : State
  buffer : List UInt8
  deriving DecidableEq, Repr

/-- One round of callbacks. -/
inductive Event where
  | frame (frame : Frame)
  | heartbeat
  | error (message : StdString)
  deriving DecidableEq, Repr

/-- `e.what()` of the exceptions that frame parsing raises. -/
def what : Fault → StdString
  | .danWSError _ message => message
  | .badVariantAccess => str "std::get: wrong index for variant"
  | .invalidArgument | .outOfRange => str "stoi"
  | .undefinedBehaviour => []

def completeFrame (body : List UInt8) : Event :=
  match parseFrame body with
  | .ok frame => .frame frame
  | .error e => .error (what e)

namespace StreamParser

def new (maxBufferSize : Nat) : StreamParser := ⟨maxBufferSize, .idle, []⟩

def reset (parser : StreamParser) : StreamParser := { parser with state := .idle, buffer := [] }

def step (parser : StreamParser) (byte : UInt8) : StreamParser × List Event :=
  match parser.state with
  | .idle =>
      if byte = DLE then ({ parser with state := .afterDLE }, [])
      else (parser, [.error (str ("Unexpected byte 0x" ++ hexText byte ++ " outside frame"))])
  | .afterDLE =>
      if byte = STX then ({ parser with state := .inFrame, buffer := [] }, [])
      else if byte = ENQ then ({ parser with state := .idle }, [.heartbeat])
      else ({ parser with state := .idle },
        [.error (str ("Invalid DLE sequence: 0x10 0x" ++ hexText byte))])
  | .inFrame =>
      if byte = DLE then ({ parser with state := .inFrameAfterDLE }, [])
      else if parser.maxBufferSize ≤ parser.buffer.length then
        ({ parser with state := .idle, buffer := [] },
          [.error (str "Frame exceeds maximum buffer size")])
      else ({ parser with buffer := parser.buffer ++ [byte] }, [])
  | .inFrameAfterDLE =>
      if byte = ETX then
        ({ parser with state := .idle, buffer := [] }, [completeFrame parser.buffer])
      else if byte = DLE then
        -- no size check here: an escaped DLE is stored even in a full buffer
        ({ parser with state := .inFrame, buffer := parser.buffer ++ [DLE] }, [])
      else ({ parser with state := .idle, buffer := [] },
        [.error (str ("Invalid DLE sequence in frame: 0x10 0x" ++ hexText byte))])

def feed (parser : StreamParser) : List UInt8 → StreamParser × List Event
  | [] => (parser, [])
  | byte :: rest =>
      let (parser, events) := parser.step byte
      let (parser, later) := parser.feed rest
      (parser, events ++ later)

def feedChunks (parser : StreamParser) : List (List UInt8) → StreamParser × List Event
  | [] => (parser, [])
  | chunk :: chunks =>
      let (parser, events) := parser.feed chunk
      let (parser, later) := parser.feedChunks chunks
      (parser, events ++ later)

theorem feed_append (parser : StreamParser) (first second : List UInt8) :
    parser.feed (first ++ second) =
      (((parser.feed first).1.feed second).1,
        (parser.feed first).2 ++ ((parser.feed first).1.feed second).2) := by
  induction first generalizing parser with
  | nil => rfl
  | cons byte first ih =>
      simp only [List.cons_append, feed]
      rw [ih]
      simp

theorem feedChunks_eq_feed_flatten (parser : StreamParser) (chunks : List (List UInt8)) :
    parser.feedChunks chunks = parser.feed chunks.flatten := by
  induction chunks generalizing parser with
  | nil => rfl
  | cons chunk chunks ih =>
      simp only [feedChunks, List.flatten_cons]
      rw [feed_append, ih]

end StreamParser

end DanWs.StreamParsing
