import DanWs.StreamDelivery

namespace DanWs.StreamRecovery

open DanWs.ByteStuffing
open DanWs.Codec
open DanWs.CodecRoundTrip
open DanWs.StreamDelivery
open DanWs.StreamParsing
open DanWs.WireTypes

def OnlyErrors (events : List Event) : Prop := ∀ event ∈ events, ∃ message, event = .error message

/-- The frame callbacks among the events. -/
def deliveredFrames (events : List Event) : List Frame :=
  events.filterMap fun
    | .frame frame => some frame
    | _ => none

theorem OnlyErrors.append {first second : List Event} (hfirst : OnlyErrors first)
    (hsecond : OnlyErrors second) : OnlyErrors (first ++ second) := by
  intro event hevent
  rcases List.mem_append.mp hevent with hevent | hevent
  · exact hfirst event hevent
  · exact hsecond event hevent

theorem onlyErrors_nil : OnlyErrors [] := fun _ hevent => absurd hevent List.not_mem_nil

theorem onlyErrors_singleton (message : StdString) : OnlyErrors [.error message] := by
  intro event hevent
  exact ⟨message, List.mem_singleton.mp hevent⟩

theorem OnlyErrors.deliveredFrames {events : List Event} (h : OnlyErrors events) :
    deliveredFrames events = [] := by
  rw [StreamRecovery.deliveredFrames, List.filterMap_eq_nil_iff]
  intro event hevent
  obtain ⟨message, rfl⟩ := h event hevent
  rfl

theorem OnlyErrors.heartbeat_notMem {events : List Event} (h : OnlyErrors events) :
    .heartbeat ∉ events := by
  intro hevent
  obtain ⟨message, hmessage⟩ := h _ hevent
  cases hmessage

theorem step_idle_byte {byte : UInt8} (h : byte ≠ DLE) (max : Nat) (buffer : List UInt8) :
    ∃ message, StreamParser.step ⟨max, .idle, buffer⟩ byte =
      (⟨max, .idle, buffer⟩, [.error message]) :=
  ⟨_, if_neg h⟩

theorem step_afterDLE_byte {byte : UInt8} (hstx : byte ≠ STX) (henq : byte ≠ ENQ) (max : Nat)
    (buffer : List UInt8) :
    ∃ message, StreamParser.step ⟨max, .afterDLE, buffer⟩ byte =
      (⟨max, .idle, buffer⟩, [.error message]) :=
  ⟨_, (if_neg hstx).trans (if_neg henq)⟩

theorem step_inFrameAfterDLE_byte {byte : UInt8} (hetx : byte ≠ ETX) (hdle : byte ≠ DLE)
    (max : Nat) (buffer : List UInt8) :
    ∃ message, StreamParser.step ⟨max, .inFrameAfterDLE, buffer⟩ byte =
      (⟨max, .idle, []⟩, [.error message]) :=
  ⟨_, (if_neg hetx).trans (if_neg hdle)⟩

theorem step_inFrame_full {byte : UInt8} (h : byte ≠ DLE) {max : Nat} {buffer : List UInt8}
    (hfull : max ≤ buffer.length) :
    ∃ message, StreamParser.step ⟨max, .inFrame, buffer⟩ byte =
      (⟨max, .idle, []⟩, [.error message]) :=
  ⟨_, (if_neg h).trans (if_pos hfull)⟩

theorem feed_idle_DLE_byte {byte : UInt8} (hstx : byte ≠ STX) (henq : byte ≠ ENQ) (max : Nat)
    (buffer : List UInt8) :
    ∃ message, ∀ rest, StreamParser.feed ⟨max, .idle, buffer⟩ (DLE :: byte :: rest) =
      ((StreamParser.feed ⟨max, .idle, buffer⟩ rest).1,
        .error message :: (StreamParser.feed ⟨max, .idle, buffer⟩ rest).2) := by
  obtain ⟨message, hstep⟩ := step_afterDLE_byte hstx henq max buffer
  refine ⟨message, fun rest => ?_⟩
  rw [StreamParser.feed, step_idle_DLE]
  dsimp only
  rw [StreamParser.feed, hstep]
  rfl

theorem feed_idle_stuff (max : Nat) (buffer raw : List UInt8) :
    ∃ events, OnlyErrors events ∧
      StreamParser.feed ⟨max, .idle, buffer⟩ (stuff DLE raw) = (⟨max, .idle, buffer⟩, events) := by
  induction raw with
  | nil => exact ⟨[], onlyErrors_nil, rfl⟩
  | cons byte raw ih =>
      obtain ⟨events, herrors, hfeed⟩ := ih
      rcases eq_or_ne byte DLE with rfl | hbyte
      · have hstx : DLE ≠ STX := by decide
        obtain ⟨message, hpair⟩ := feed_idle_DLE_byte hstx (by decide) max buffer
        refine ⟨.error message :: events, (onlyErrors_singleton message).append herrors, ?_⟩
        rw [stuff_cons_esc, hpair, hfeed]
      · obtain ⟨message, hstep⟩ := step_idle_byte hbyte max buffer
        refine ⟨.error message :: events, (onlyErrors_singleton message).append herrors, ?_⟩
        rw [stuff_cons_of_ne hbyte, StreamParser.feed, hstep]
        dsimp only
        rw [hfeed]
        rfl

/-- Inside a frame an escaped body is collected, or it is dropped for its size
and the rest of it is read at rest. -/
theorem feed_inFrame_stuff (max : Nat) (buffer raw : List UInt8) :
    StreamParser.feed ⟨max, .inFrame, buffer⟩ (stuff DLE raw) =
        (⟨max, .inFrame, buffer ++ raw⟩, []) ∨
      ∃ events, OnlyErrors events ∧
        StreamParser.feed ⟨max, .inFrame, buffer⟩ (stuff DLE raw) = (⟨max, .idle, []⟩, events) := by
  induction raw generalizing buffer with
  | nil => exact Or.inl (by simp [StreamParser.feed])
  | cons byte raw ih =>
      rcases eq_or_ne byte DLE with rfl | hbyte
      · -- an escaped DLE is stored without a look at the size
        have hpair : StreamParser.feed ⟨max, .inFrame, buffer⟩ (stuff DLE (DLE :: raw)) =
            StreamParser.feed ⟨max, .inFrame, buffer ++ [DLE]⟩ (stuff DLE raw) := by
          rw [stuff_cons_esc, StreamParser.feed, step_inFrame_DLE]
          dsimp only
          rw [StreamParser.feed, step_inFrameAfterDLE_DLE]
          rfl
        rw [hpair]
        simpa using ih (buffer ++ [DLE])
      · rw [stuff_cons_of_ne hbyte, StreamParser.feed]
        rcases Nat.lt_or_ge buffer.length max with hroom | hfull
        · rw [step_inFrame_byte hbyte hroom]
          simpa using ih (buffer ++ [byte])
        · obtain ⟨message, hstep⟩ := step_inFrame_full hbyte hfull
          obtain ⟨events, herrors, hfeed⟩ := feed_idle_stuff max [] raw
          refine Or.inr ⟨.error message :: events,
            (onlyErrors_singleton message).append herrors, ?_⟩
          rw [hstep]
          dsimp only
          rw [hfeed]
          rfl

theorem feed_idle_end (max : Nat) (buffer : List UInt8) :
    ∃ message, StreamParser.feed ⟨max, .idle, buffer⟩ [DLE, ETX] =
      (⟨max, .idle, buffer⟩, [.error message]) := by
  have hstx : ETX ≠ STX := by decide
  obtain ⟨message, hpair⟩ := feed_idle_DLE_byte hstx (by decide) max buffer
  exact ⟨message, hpair []⟩

theorem feed_inFrame_end (max : Nat) (buffer : List UInt8) :
    StreamParser.feed ⟨max, .inFrame, buffer⟩ [DLE, ETX] =
      (⟨max, .idle, []⟩, [completeFrame buffer]) := by
  rw [StreamParser.feed, step_inFrame_DLE]
  dsimp only
  rw [StreamParser.feed, step_inFrameAfterDLE_ETX]
  rfl

theorem feed_idle_body (max : Nat) (buffer raw : List UInt8) :
    ∃ events, OnlyErrors events ∧
      StreamParser.feed ⟨max, .idle, buffer⟩ (stuff DLE raw ++ [DLE, ETX]) =
        (⟨max, .idle, buffer⟩, events) := by
  obtain ⟨events, herrors, hfeed⟩ := feed_idle_stuff max buffer raw
  obtain ⟨message, hend⟩ := feed_idle_end max buffer
  refine ⟨events ++ [.error message], herrors.append (onlyErrors_singleton message), ?_⟩
  rw [StreamParser.feed_append, hfeed]
  dsimp only
  rw [hend]

/-- The body of a frame, read inside a frame to its end: the frame is completed,
or it is dropped. -/
theorem feed_inFrame_body (max : Nat) (buffer raw : List UInt8) :
    ∃ events, (events = [completeFrame (buffer ++ raw)] ∨ OnlyErrors events) ∧
      StreamParser.feed ⟨max, .inFrame, buffer⟩ (stuff DLE raw ++ [DLE, ETX]) =
        (⟨max, .idle, []⟩, events) := by
  rw [StreamParser.feed_append]
  rcases feed_inFrame_stuff max buffer raw with hfeed | ⟨events, herrors, hfeed⟩
  · refine ⟨_, Or.inl rfl, ?_⟩
    rw [hfeed]
    dsimp only
    rw [feed_inFrame_end]
    rfl
  · obtain ⟨message, hend⟩ := feed_idle_end max []
    refine ⟨events ++ [.error message],
      Or.inr (herrors.append (onlyErrors_singleton message)), ?_⟩
    rw [hfeed]
    dsimp only
    rw [hend]

theorem feed_idle_wrapBody (max : Nat) (buffer body : List UInt8) :
    ∃ events, (events = [completeFrame body] ∨ OnlyErrors events) ∧
      StreamParser.feed ⟨max, .idle, buffer⟩ (wrapBody body) = (⟨max, .idle, []⟩, events) := by
  obtain ⟨events, hevents, hfeed⟩ := feed_inFrame_body max [] body
  refine ⟨events, hevents, ?_⟩
  rw [wrapBody, dleEncode_eq_stuff, StreamParser.feed, step_idle_DLE]
  dsimp only
  rw [StreamParser.feed, step_afterDLE_STX]
  dsimp only
  rw [hfeed]
  rfl

/-- One wrapped body brings the parser to rest from each of its four states. -/
theorem feed_wrapBody_state (parser : StreamParser) (body : List UInt8) :
    (parser.feed (wrapBody body)).1.state = .idle := by
  obtain ⟨max, state, buffer⟩ := parser
  cases state with
  | idle =>
      obtain ⟨_, _, hfeed⟩ := feed_idle_wrapBody max buffer body
      rw [hfeed]
  | afterDLE =>
      -- the DLE of the delimiter ends a pair, and STX is a byte outside any frame
      have hne : DLE ≠ STX := by decide
      obtain ⟨_, hdle⟩ := step_afterDLE_byte hne (by decide) max buffer
      obtain ⟨_, hstx⟩ := step_idle_byte hne.symm max buffer
      obtain ⟨_, _, hbody⟩ := feed_idle_body max buffer body
      rw [wrapBody, dleEncode_eq_stuff, StreamParser.feed, hdle]
      dsimp only
      rw [StreamParser.feed, hstx]
      dsimp only
      rw [hbody]
  | inFrame =>
      have hne : STX ≠ ETX := by decide
      obtain ⟨_, hstx⟩ := step_inFrameAfterDLE_byte hne (by decide) max buffer
      obtain ⟨_, _, hbody⟩ := feed_idle_body max [] body
      rw [wrapBody, dleEncode_eq_stuff, StreamParser.feed, step_inFrame_DLE]
      dsimp only
      rw [StreamParser.feed, hstx]
      dsimp only
      rw [hbody]
  | inFrameAfterDLE =>
      -- the DLE of the delimiter is taken as an escaped one, and STX as data
      rw [wrapBody, dleEncode_eq_stuff, StreamParser.feed, step_inFrameAfterDLE_DLE]
      dsimp only
      rw [StreamParser.feed]
      rcases Nat.lt_or_ge (buffer ++ [DLE]).length max with hroom | hfull
      · obtain ⟨_, _, hbody⟩ := feed_inFrame_body max (buffer ++ [DLE] ++ [STX]) body
        rw [step_inFrame_byte (by decide) hroom]
        dsimp only
        rw [hbody]
      · have hne : STX ≠ DLE := by decide
        obtain ⟨_, hstx⟩ := step_inFrame_full hne hfull
        obtain ⟨_, _, hbody⟩ := feed_idle_body max [] body
        rw [hstx]
        dsimp only
        rw [hbody]

theorem encode_ok {frame : Frame} {encoded : List UInt8} (h : encode frame = .ok encoded) :
    ∃ body, encoded = wrapBody body := by
  rw [encode] at h
  cases hbody : rawBody frame with
  | error e => simp [hbody, bind, Except.bind] at h
  | ok body =>
      rw [hbody] at h
      exact ⟨body, (Except.ok.inj h).symm⟩

theorem step_maxBufferSize (parser : StreamParser) (byte : UInt8) :
    (parser.step byte).1.maxBufferSize = parser.maxBufferSize := by
  rw [StreamParser.step]
  split
  · split <;> rfl
  · split
    · rfl
    · split <;> rfl
  · split
    · rfl
    · split <;> rfl
  · split
    · rfl
    · split <;> rfl

theorem feed_maxBufferSize (parser : StreamParser) (bytes : List UInt8) :
    (parser.feed bytes).1.maxBufferSize = parser.maxBufferSize := by
  induction bytes generalizing parser with
  | nil => rfl
  | cons byte rest ih =>
      rw [StreamParser.feed]
      dsimp only
      rw [ih, step_maxBufferSize]

theorem feed_encodeBatch {parser : StreamParser} (hidle : parser.state = .idle)
    {frames : List Frame} (h : ∀ frame ∈ frames, Fits parser.maxBufferSize (.frame frame)) :
    ∃ bytes, encodeBatch frames = .ok bytes ∧ (parser.feed bytes).1.state = .idle ∧
      (parser.feed bytes).2 = frames.map .frame := by
  obtain ⟨max, state, buffer⟩ := parser
  obtain rfl : state = .idle := hidle
  induction frames generalizing buffer with
  | nil => exact ⟨[], rfl, rfl, rfl⟩
  | cons frame frames ih =>
      obtain ⟨hwf, hroom⟩ := h frame (by simp)
      obtain ⟨body, hbody, hparse⟩ := parseFrame_rawBody hwf
      obtain ⟨rest, hrest, hstate, hevents⟩ := ih [] fun f hf => h f (by simp [hf])
      have hfeed : StreamParser.feed ⟨max, .idle, buffer⟩ (wrapBody body) =
          (.new max, [.frame frame]) := by
        rw [feed_wrapBody_idle (hroom body hbody), completeFrame, hparse]
      refine ⟨wrapBody body ++ rest, ?_, ?_, ?_⟩
      · rw [encodeBatch, encode_of_rawBody hbody, hrest]
        rfl
      · rw [StreamParser.feed_append, hfeed]
        exact hstate
      · rw [StreamParser.feed_append, hfeed]
        dsimp only [StreamParser.new]
        rw [hevents]
        rfl

/-- Whatever a parser has been fed before, one encoded frame brings it to rest,
and the frames behind it are all delivered, as the last callbacks. -/
theorem feed_recovers (parser : StreamParser) (garbage : List UInt8) {frame : Frame}
    {encoded : List UInt8} (hencode : encode frame = .ok encoded) {frames : List Frame}
    (h : ∀ frame ∈ frames, Fits parser.maxBufferSize (.frame frame)) :
    ((parser.feed garbage).1.feed encoded).1.state = .idle ∧
      ∃ bytes, encodeBatch frames = .ok bytes ∧
        (parser.feed (garbage ++ encoded ++ bytes)).1.state = .idle ∧
        (parser.feed (garbage ++ encoded ++ bytes)).2 =
          (parser.feed (garbage ++ encoded)).2 ++ frames.map .frame := by
  obtain ⟨body, rfl⟩ := encode_ok hencode
  have hidle := feed_wrapBody_state (parser.feed garbage).1 body
  refine ⟨hidle, ?_⟩
  have hstate : (parser.feed (garbage ++ wrapBody body)).1.state = .idle := by
    rw [StreamParser.feed_append]
    exact hidle
  rw [← feed_maxBufferSize parser (garbage ++ wrapBody body)] at h
  obtain ⟨bytes, hbytes, hend, hevents⟩ := feed_encodeBatch hstate h
  refine ⟨bytes, hbytes, ?_, ?_⟩
  · rw [StreamParser.feed_append]
    exact hend
  · rw [StreamParser.feed_append]
    dsimp only
    rw [hevents]

/-- The garbage ends behind a DLE inside a frame, and the intact frame that
follows is too large for the buffer. -/
theorem feed_recovers_midEscape :
    ((StreamParser.feed (.new 6) [DLE, STX, 0x41, DLE]).1.feed
        [DLE, STX, 0x01, 0, 0, 0, 7, 0x0B, DLE, DLE, ENQ, DLE, ETX]).1.state = .idle ∧
      ∃ bytes, encodeBatch [signalFrame .serverSync] = .ok bytes ∧
        (StreamParser.feed (.new 6) ([DLE, STX, 0x41, DLE] ++
          [DLE, STX, 0x01, 0, 0, 0, 7, 0x0B, DLE, DLE, ENQ, DLE, ETX] ++ bytes)).1.state = .idle ∧
        (StreamParser.feed (.new 6) ([DLE, STX, 0x41, DLE] ++
          [DLE, STX, 0x01, 0, 0, 0, 7, 0x0B, DLE, DLE, ENQ, DLE, ETX] ++ bytes)).2 =
          (StreamParser.feed (.new 6) ([DLE, STX, 0x41, DLE] ++
            [DLE, STX, 0x01, 0, 0, 0, 7, 0x0B, DLE, DLE, ENQ, DLE, ETX])).2 ++
            [.frame (signalFrame .serverSync)] := by
  have hencode : encode ⟨.serverValue, 7, .binary, .binary [DLE, ENQ]⟩ =
      .ok [DLE, STX, 0x01, 0, 0, 0, 7, 0x0B, DLE, DLE, ENQ, DLE, ETX] := rfl
  refine feed_recovers (.new 6) _ hencode ?_
  intro frame hframe
  obtain rfl := List.mem_singleton.mp hframe
  refine ⟨rfl, fun body hbody => ?_⟩
  cases hbody
  decide

/-- An encoded frame cannot smuggle in another one: a parser at rest completes
this frame or drops it, whatever the payload and the size of the buffer. -/
theorem feed_encode_idle {frame : Frame} (h : WellFormed frame) (max : Nat)
    (buffer : List UInt8) :
    ∃ encoded, encode frame = .ok encoded ∧
      .heartbeat ∉ (StreamParser.feed ⟨max, .idle, buffer⟩ encoded).2 ∧
      (deliveredFrames (StreamParser.feed ⟨max, .idle, buffer⟩ encoded).2 = [] ∨
        deliveredFrames (StreamParser.feed ⟨max, .idle, buffer⟩ encoded).2 = [frame]) ∧
      (StreamParser.feed ⟨max, .idle, buffer⟩ encoded).1.state = .idle := by
  obtain ⟨body, hbody, hparse⟩ := parseFrame_rawBody h
  obtain ⟨events, hevents, hfeed⟩ := feed_idle_wrapBody max buffer body
  refine ⟨wrapBody body, encode_of_rawBody hbody, ?_⟩
  rw [hfeed]
  rcases hevents with rfl | herrors
  · rw [completeFrame, hparse]
    exact ⟨by simp, Or.inr rfl, rfl⟩
  · exact ⟨herrors.heartbeat_notMem, Or.inl herrors.deliveredFrames, rfl⟩

/-- A payload that spells a heartbeat and the start of a frame, dropped midway. -/
theorem feed_encode_idle_dropped :
    ∃ encoded,
      encode ⟨.serverValue, 7, .binary, .binary [0x41, DLE, ENQ, DLE, STX, DLE, ETX]⟩ =
        .ok encoded ∧
      .heartbeat ∉ (StreamParser.feed ⟨6, .idle, []⟩ encoded).2 ∧
      (deliveredFrames (StreamParser.feed ⟨6, .idle, []⟩ encoded).2 = [] ∨
        deliveredFrames (StreamParser.feed ⟨6, .idle, []⟩ encoded).2 =
          [⟨.serverValue, 7, .binary, .binary [0x41, DLE, ENQ, DLE, STX, DLE, ETX]⟩]) ∧
      (StreamParser.feed ⟨6, .idle, []⟩ encoded).1.state = .idle := by
  have hfits :
      WellFormed ⟨.serverValue, 7, .binary, .binary [0x41, DLE, ENQ, DLE, STX, DLE, ETX]⟩ := trivial
  exact feed_encode_idle hfits 6 []

end DanWs.StreamRecovery
