import DanWs.ClientReception

namespace DanWs.CleanStarts

open DanWs.ClientCalls
open DanWs.ClientLifecycle hiding Event step
open DanWs.ClientReception
open DanWs.Clients
open DanWs.Codec
open DanWs.CodecRoundTrip
open DanWs.StepRuns
open DanWs.StreamDelivery
open DanWs.StreamParsing hiding Event
open DanWs.StreamRecovery
open DanWs.WireTypes

section Parsing

/-- Two parsers that report the same from here on: outside a frame, the buffer is not read. -/
structure Alike (first second : StreamParser) : Prop where
  max : first.maxBufferSize = second.maxBufferSize
  state : first.state = second.state
  buffer : first.state = .idle ∨ first.state = .afterDLE ∨ first.buffer = second.buffer

theorem alike_step {first second : StreamParser} (h : Alike first second) (byte : UInt8) :
    Alike (first.step byte).1 (second.step byte).1 ∧
      (first.step byte).2 = (second.step byte).2 := by
  obtain ⟨max, state, buffer⟩ := first
  obtain ⟨_, _, other⟩ := second
  obtain ⟨rfl, rfl, hbuffer⟩ := h
  dsimp only at hbuffer
  rw [StreamParser.step, StreamParser.step]
  cases state with
  | idle =>
      dsimp only
      split
      · exact ⟨⟨rfl, rfl, Or.inr (Or.inl rfl)⟩, rfl⟩
      · exact ⟨⟨rfl, rfl, Or.inl rfl⟩, rfl⟩
  | afterDLE =>
      dsimp only
      split
      · exact ⟨⟨rfl, rfl, Or.inr (Or.inr rfl)⟩, rfl⟩
      · split <;> exact ⟨⟨rfl, rfl, Or.inl rfl⟩, rfl⟩
  | inFrame =>
      obtain rfl : buffer = other := by simpa using hbuffer
      exact ⟨⟨rfl, rfl, Or.inr (Or.inr rfl)⟩, rfl⟩
  | inFrameAfterDLE =>
      obtain rfl : buffer = other := by simpa using hbuffer
      exact ⟨⟨rfl, rfl, Or.inr (Or.inr rfl)⟩, rfl⟩

theorem feed_of_alike {first second : StreamParser} (h : Alike first second)
    (bytes : List UInt8) : (first.feed bytes).2 = (second.feed bytes).2 := by
  induction bytes generalizing first second with
  | nil => rfl
  | cons byte bytes ih =>
      obtain ⟨hnext, hevents⟩ := alike_step h byte
      rw [StreamParser.feed, StreamParser.feed]
      dsimp only
      rw [hevents, ih hnext]

theorem feed_of_idle {parser : StreamParser} (h : parser.state = .idle) (bytes : List UInt8) :
    (parser.feed bytes).2 = ((StreamParser.new parser.maxBufferSize).feed bytes).2 := by
  have halike : Alike parser (StreamParser.new parser.maxBufferSize) := ⟨rfl, h, Or.inl h⟩
  exact feed_of_alike halike bytes

/-- A parser that is not at rest drops the body, or takes it for the end of the
frame that it has in its buffer. -/
theorem feed_misread {parser : StreamParser} (h : parser.state ≠ .idle) (body : List UInt8) :
    (parser.feed (wrapBody body)).2 = [completeFrame (parser.buffer ++ DLE :: STX :: body)] ∨
      deliveredFrames (parser.feed (wrapBody body)).2 = [] := by
  obtain ⟨max, state, buffer⟩ := parser
  rw [wrapBody, dleEncode_eq_stuff]
  cases state with
  | idle => exact absurd rfl h
  | afterDLE =>
      -- the DLE of the delimiter ends a pair, and STX is a byte outside any frame
      have hne : DLE ≠ STX := by decide
      obtain ⟨first, hdle⟩ := step_afterDLE_byte hne (by decide) max buffer
      obtain ⟨second, hstx⟩ := step_idle_byte hne.symm max buffer
      obtain ⟨events, herrors, hbody⟩ := feed_idle_body max buffer body
      refine Or.inr ?_
      rw [StreamParser.feed, hdle]
      dsimp only
      rw [StreamParser.feed, hstx]
      dsimp only
      rw [hbody]
      exact ((onlyErrors_singleton first).append
        ((onlyErrors_singleton second).append herrors)).deliveredFrames
  | inFrame =>
      have hne : STX ≠ ETX := by decide
      obtain ⟨message, hstx⟩ := step_inFrameAfterDLE_byte hne (by decide) max buffer
      obtain ⟨events, herrors, hbody⟩ := feed_idle_body max [] body
      refine Or.inr ?_
      rw [StreamParser.feed, step_inFrame_DLE]
      dsimp only
      rw [StreamParser.feed, hstx]
      dsimp only
      rw [hbody]
      exact ((onlyErrors_singleton message).append herrors).deliveredFrames
  | inFrameAfterDLE =>
      -- the DLE of the delimiter is taken as an escaped one, and STX as data
      rw [StreamParser.feed, step_inFrameAfterDLE_DLE]
      dsimp only
      rw [StreamParser.feed]
      rcases Nat.lt_or_ge (buffer ++ [DLE]).length max with hroom | hfull
      · obtain ⟨events, hevents, hbody⟩ := feed_inFrame_body max (buffer ++ [DLE] ++ [STX]) body
        rw [step_inFrame_byte (by decide) hroom]
        dsimp only
        rw [hbody]
        refine hevents.imp (fun hcomplete => ?_) fun herrors => herrors.deliveredFrames
        rw [hcomplete]
        simp
      · have hne : STX ≠ DLE := by decide
        obtain ⟨message, hstx⟩ := step_inFrame_full hne hfull
        obtain ⟨events, herrors, hbody⟩ := feed_idle_body max [] body
        refine Or.inr ?_
        rw [hstx]
        dsimp only
        rw [hbody]
        exact ((onlyErrors_singleton message).append herrors).deliveredFrames

theorem frameType_of_completeFrame {first : UInt8} {rest : List UInt8} {frame : Frame}
    (h : completeFrame (first :: rest) = .frame frame) :
    frame.frameType = FrameType.ofByte first := by
  rw [completeFrame] at h
  cases hparse : parseFrame (first :: rest) with
  | error e => simp [hparse] at h
  | ok parsed =>
      rw [hparse] at h
      obtain rfl := StreamParsing.Event.frame.inj h
      rw [parseFrame] at hparse
      split at hparse
      · cases hparse
      · simp only [Except.map] at hparse
        split at hparse
        · cases hparse
        · cases hparse
          rfl

/-- What a parser that is not at rest delivers is of a type that it has read before. -/
theorem frameType_of_misread {parser : StreamParser} (h : parser.state ≠ .idle)
    {body : List UInt8} {frame : Frame}
    (hdelivered : deliveredFrames (parser.feed (wrapBody body)).2 = [frame]) :
    frame.frameType = FrameType.ofByte (parser.buffer.headD DLE) := by
  rcases feed_misread h body with hevents | hnone
  · rw [hevents] at hdelivered
    have hcomplete : completeFrame (parser.buffer ++ DLE :: STX :: body) = .frame frame := by
      cases hevent : completeFrame (parser.buffer ++ DLE :: STX :: body) with
      | frame parsed => simpa [hevent, deliveredFrames] using hdelivered
      | heartbeat => simp [hevent, deliveredFrames] at hdelivered
      | error message => simp [hevent, deliveredFrames] at hdelivered
    cases hbuffer : parser.buffer with
    | nil =>
        rw [hbuffer] at hcomplete
        exact frameType_of_completeFrame hcomplete
    | cons first rest =>
        rw [hbuffer] at hcomplete
        exact frameType_of_completeFrame hcomplete
  · rw [hnone] at hdelivered
    cases hdelivered

end Parsing

section Connections

open DanWebSocketClient (step new delivered maxBufferSize)

/-- The heartbeat runs on a connection only. -/
def Wired (live : LiveClient) : Prop :=
  live.heartbeat.running → live.client.socket ≠ none

theorem running_stop (heartbeat : HeartbeatManager) : heartbeat.stop.running = false := by
  rw [HeartbeatManager.stop]
  split
  · rfl
  · next hstopped => simpa using hstopped

theorem stop_of_stopped {heartbeat : HeartbeatManager} (h : heartbeat.running = false) :
    heartbeat.stop = heartbeat := by
  rw [HeartbeatManager.stop, if_neg (by simp [h])]

theorem stable_wired : Stable Wired where
  engine _ _ _ h := h
  terminated _ h := h
  state _ _ _ _ _ h := h
  closed live _ hrunning :=
    absurd (hrunning.symm.trans (running_stop live.heartbeat)) Bool.noConfusion
  dialed _ _ _ := Option.some_ne_none false

theorem socket_handleOpen (client : Client) (uuidBytes : List UInt8) :
    (handleOpen client uuidBytes).client.socket = client.socket := by
  rw [handleOpen]
  dsimp only
  split <;> rfl

/-- The connection is open, even if the start of the heartbeat ends the program. -/
theorem socket_opened (live : LiveClient) : live.handleOpen.client.socket = some true := by
  rw [LiveClient.handleOpen]
  split
  · rfl
  · exact socket_handleOpen _ _

theorem wired_step {live : LiveClient} (h : Wired live) (event : ClientLifecycle.Event) :
    Wired (ClientLifecycle.step live event) := by
  refine stable_step stable_wired h (fun hrunning => Bool.noConfusion hrunning) (fun _ _ _ => ?_)
    fun input _ hrunning => ?_
  · rw [socket_opened]
    exact Option.some_ne_none true
  · rw [LiveClient.take] at hrunning ⊢
    dsimp only at hrunning ⊢
    split at hrunning
    · exact absurd (hrunning.symm.trans (running_stop live.heartbeat)) Bool.noConfusion
    · next hinput =>
        rw [socket_afterInput (by simpa using hinput)]
        exact h hrunning

theorem wired_run {live : LiveClient} (h : Wired live) (events : List ClientLifecycle.Event) :
    Wired (run ClientLifecycle.step live events) := by
  induction events generalizing live with
  | nil => exact h
  | cons event events ih => exact ih (wired_step h event)

/-- No connection is open, and the heartbeat rests. -/
structure Resting (heartbeat : HeartbeatManager) (live : LiveClient) : Prop where
  heartbeat_eq : live.heartbeat = heartbeat
  socket : live.client.socket ≠ some true

theorem stable_resting {heartbeat : HeartbeatManager} (hstopped : heartbeat.running = false) :
    Stable (Resting heartbeat) where
  engine _ _ _ h := ⟨h.heartbeat_eq, h.socket⟩
  terminated _ h := ⟨h.heartbeat_eq, h.socket⟩
  state _ _ _ _ _ h := ⟨h.heartbeat_eq, h.socket⟩
  closed live h := by
    refine ⟨?_, (Option.some_ne_none true).symm⟩
    rw [h.heartbeat_eq]
    exact stop_of_stopped hstopped
  dialed _ h := ⟨h.heartbeat_eq, fun hopen => by cases hopen⟩

theorem resting_step {heartbeat : HeartbeatManager} (hstopped : heartbeat.running = false)
    {live : LiveClient} (h : Resting heartbeat live) {event : ClientLifecycle.Event}
    (hevent : event ≠ .opened) : Resting heartbeat (ClientLifecycle.step live event) := by
  refine stable_step (stable_resting hstopped) h ⟨?_, h.socket⟩
    (fun hopened _ => absurd hopened hevent) fun input _ => ⟨?_, ?_⟩
  · rw [HeartbeatManager.timeout, h.heartbeat_eq, ← hstopped]
  · rw [LiveClient.take]
    dsimp only
    rw [h.heartbeat_eq, stop_of_stopped hstopped, ite_self]
  · rw [LiveClient.take]
    dsimp only
    rcases socket_afterInput_cases live.client input with hkept | hclosed
    · rw [hkept]
      exact h.socket
    · rw [hclosed]
      exact (Option.some_ne_none true).symm

theorem resting_whole {heartbeat : HeartbeatManager} (hstopped : heartbeat.running = false)
    {whole : DanWebSocketClient} (h : Resting heartbeat whole.live) {event : Event}
    (hevent : event ≠ .happens .opened) :
    Resting heartbeat (step whole event).live ∧ (step whole event).parser = whole.parser := by
  cases event with
  | message chunk =>
      have hclosed : whole.receives = false := by
        simp [DanWebSocketClient.receives, Client.isOpen, h.socket]
      rw [step, if_neg (by simp [hclosed]), DanWebSocketClient.events,
        DanWebSocketClient.delivered, if_neg (by simp [hclosed])]
      exact ⟨h, rfl⟩
  | happens event =>
      refine ⟨?_, rfl⟩
      rw [step]
      rcases whole.events_happens event with hnone | hevents
      · rw [hnone]
        exact h
      · rw [hevents]
        exact resting_step hstopped h fun hopened => hevent (congrArg Event.happens hopened)

theorem resting_between {heartbeat : HeartbeatManager} (hstopped : heartbeat.running = false)
    {whole : DanWebSocketClient} (h : Resting heartbeat whole.live) {between : List Event}
    (hbetween : ∀ event ∈ between, event ≠ .happens .opened) :
    Resting heartbeat (run step whole between).live ∧
      (run step whole between).parser = whole.parser := by
  induction between generalizing whole with
  | nil => exact ⟨h, rfl⟩
  | cons event between ih =>
      obtain ⟨hnext, hparser⟩ := resting_whole hstopped h (hbetween event List.mem_cons_self)
      obtain ⟨hlast, hkept⟩ := ih hnext fun other hother =>
        hbetween other (List.mem_cons_of_mem event hother)
      exact ⟨hlast, hkept.trans hparser⟩

theorem terminated_frames (live : LiveClient) (frames : List Frame) :
    (run ClientLifecycle.step live
      (frames.map fun frame => .input (.frame frame))).terminated = live.terminated := by
  induction frames generalizing live with
  | nil => rfl
  | cons frame frames ih =>
      rw [List.map_cons, run_cons, ih, ClientLifecycle.step.eq_def]
      split <;> rfl

/-- The chunks come while the connection is open. -/
def Lasts (opened : DanWebSocketClient) (chunks : List (List UInt8)) : Prop :=
  StepsMeet step (fun whole _ => whole.live.client.isOpen) opened (chunks.map .message)

theorem outputs_of_lasts {opened : DanWebSocketClient} (hrunning : opened.live.terminated = false)
    {chunks : List (List UInt8)} (h : Lasts opened chunks) :
    outputs step delivered opened (chunks.map .message) =
      deliveredFrames (opened.parser.feedChunks chunks).2 := by
  induction chunks generalizing opened with
  | nil => rfl
  | cons chunk chunks ih =>
      have hreceives : opened.receives := by
        rw [DanWebSocketClient.receives, hrunning, h.1]
        rfl
      have hparser : (step opened (.message chunk)).parser = (opened.parser.feed chunk).1 := by
        rw [step, if_pos hreceives]
      have hnext : (step opened (.message chunk)).live.terminated = false := by
        rw [step, if_pos hreceives]
        exact (terminated_frames _ _).trans hrunning
      rw [List.map_cons, outputs, ih hnext h.2, hparser, delivered, if_pos hreceives,
        StreamParser.feedChunks]
      exact List.filterMap_append.symm

theorem outputs_of_terminated {opened : DanWebSocketClient}
    (hterminated : opened.live.terminated) (chunks : List (List UInt8)) :
    outputs step delivered opened (chunks.map .message) = [] := by
  have hclosed : opened.receives = false := by
    rw [DanWebSocketClient.receives, hterminated]
    rfl
  induction chunks with
  | nil => rfl
  | cons chunk chunks ih =>
      have hkept : step opened (.message chunk) = opened := by
        rw [step, if_neg (by simp [hclosed]), DanWebSocketClient.events, delivered,
          if_neg (by simp [hclosed])]
        rfl
      rw [List.map_cons, outputs, hkept, ih, delivered, if_neg (by simp [hclosed]),
        List.append_nil]

/-- Whatever frames and heartbeats the server sends, and however the connection
cuts them up, the frames are delivered. Bytes behind them are read as by a new parser. -/
def Delivers (opened : DanWebSocketClient) : Prop :=
  ∀ (items : List Item) (bytes tail : List UInt8) (chunks : List (List UInt8)),
    (∀ item ∈ items, Fits maxBufferSize item) → encodeItems items = .ok bytes →
    chunks.flatten = bytes ++ tail → Lasts opened chunks →
    outputs step delivered opened (chunks.map .message) =
      deliveredFrames (items.map Item.event) ++
        deliveredFrames ((StreamParser.new maxBufferSize).feed tail).2

theorem delivers_of_idle {opened : DanWebSocketClient}
    (hrunning : opened.live.terminated = false) (hidle : opened.parser.state = .idle)
    (hmax : opened.parser.maxBufferSize = maxBufferSize) : Delivers opened := by
  intro items bytes tail chunks hfits hencode hchunks hlasts
  obtain ⟨sent, hsent, hfeed⟩ := feed_encodeItems hfits
  obtain rfl : sent = bytes := Except.ok.inj (hsent.symm.trans hencode)
  rw [outputs_of_lasts hrunning hlasts, StreamParser.feedChunks_eq_feed_flatten, hchunks,
    feed_of_idle hidle, hmax, StreamParser.feed_append, hfeed]
  exact List.filterMap_append

theorem outputs_signal {opened : DanWebSocketClient} (h : Delivers opened)
    (hopen : opened.live.client.isOpen) {frame : Frame} {body : List UInt8}
    (hwellFormed : WellFormed frame) (hbody : rawBody frame = .ok body)
    (hroom : body.length ≤ maxBufferSize) :
    outputs step delivered opened [.message (wrapBody body)] = [frame] := by
  have hfits : ∀ item ∈ [Item.frame frame], Fits maxBufferSize item := by
    intro item hitem
    obtain rfl := List.mem_singleton.mp hitem
    refine ⟨hwellFormed, fun other hother => ?_⟩
    obtain rfl : body = other := Except.ok.inj (hbody.symm.trans hother)
    exact hroom
  have hencode : encodeItems [.frame frame] = .ok (wrapBody body) := by
    rw [encodeItems, encodeItem, encode_of_rawBody hbody]
    simp [encodeItems, bind, Except.bind, pure, Except.pure]
  exact h _ _ [] [wrapBody body] hfits hencode (by simp) ⟨hopen, trivial⟩

theorem idle_of_delivers {opened : DanWebSocketClient} (h : Delivers opened)
    (hrunning : opened.live.terminated = false) (hopen : opened.live.client.isOpen) :
    opened.parser.state = .idle := by
  by_contra hstate
  -- the buffer cannot hold the type of both frames
  have htype : ∀ (frame : Frame) (body : List UInt8), WellFormed frame →
      rawBody frame = .ok body → body.length ≤ maxBufferSize →
      frame.frameType = FrameType.ofByte (opened.parser.buffer.headD DLE) := by
    intro frame body hwellFormed hbody hroom
    have hdelivered := outputs_signal h hopen hwellFormed hbody hroom
    have hlasts : Lasts opened [wrapBody body] := ⟨hopen, trivial⟩
    rw [show [Event.message (wrapBody body)] = [wrapBody body].map .message from rfl,
      outputs_of_lasts hrunning hlasts, StreamParser.feedChunks_eq_feed_flatten,
      List.flatten_singleton] at hdelivered
    exact frameType_of_misread hstate hdelivered
  have hsync := htype (signalFrame .serverSync) _ rfl rfl (by decide)
  have hreset := htype (signalFrame .serverReset) _ rfl rfl (by decide)
  exact absurd (hsync.trans hreset.symm) FrameType.noConfusion

theorem running_of_delivers {opened : DanWebSocketClient} (h : Delivers opened)
    (hopen : opened.live.client.isOpen) : opened.live.terminated = false := by
  by_contra hterminated
  have hdelivered : outputs step delivered opened [.message (wrapBody [0x04, 0, 0, 0, 0, 0])] =
      [signalFrame .serverSync] := outputs_signal h hopen rfl rfl (by decide)
  have hnone := outputs_of_terminated (by simpa using hterminated)
    [wrapBody [0x04, 0, 0, 0, 0, 0]]
  exact absurd (hdelivered.symm.trans hnone) (List.cons_ne_nil _ _)

/-- The start of the heartbeat ends the program if the thread of it has not been joined. -/
theorem terminated_handleOpen {live : LiveClient} (hrunning : live.terminated = false)
    (hstopped : live.heartbeat.running = false) :
    live.handleOpen.terminated = live.heartbeat.joinable := by
  rw [LiveClient.handleOpen, HeartbeatManager.start, stop_of_stopped hstopped]
  cases live.heartbeat.joinable with
  | true => rfl
  | false => exact hrunning

theorem step_opened {whole : DanWebSocketClient} (hopening : whole.live.client.socket = some false)
    (hrunning : whole.live.terminated = false) :
    step whole (.happens .opened) = ⟨whole.live.handleOpen, whole.parser⟩ := by
  rw [step]
  exact congrArg (fun live => DanWebSocketClient.mk live whole.parser)
    (ClientLifecycle.step_opened hopening hrunning)

theorem maxBufferSize_run (whole : DanWebSocketClient) (history : List Event) :
    (run step whole history).parser.maxBufferSize = whole.parser.maxBufferSize := by
  induction history generalizing whole with
  | nil => rfl
  | cons event history ih =>
      rw [run_cons, ih]
      cases event with
      | message chunk =>
          rw [step]
          split
          · exact feed_maxBufferSize whole.parser chunk
          · rfl
      | happens event => rfl

/-- A connection that opens behind the end of another one starts clean if and only
if that one left the parser at rest, and did not end by a timeout of the heartbeat. -/
theorem delivers_iff (uuidBytes : List UInt8) (options : ReconnectOptions)
    {history between : List Event}
    (hended : (run step (new uuidBytes options) history).live.client.socket = none)
    (hbetween : ∀ event ∈ between, event ≠ .happens .opened)
    (hopening : (run step (new uuidBytes options)
      (history ++ between)).live.client.socket = some false)
    (hrunning : (run step (new uuidBytes options) (history ++ between)).live.terminated = false) :
    Delivers (run step (new uuidBytes options) (history ++ between ++ [.happens .opened])) ↔
      (run step (new uuidBytes options) history).parser.state = .idle ∧
        (run step (new uuidBytes options) history).live.heartbeat.joinable = false := by
  let ended := run step (new uuidBytes options) history
  let opening := run step (new uuidBytes options) (history ++ between)
  have hstopped : ended.live.heartbeat.running = false := by
    have hwired : Wired ended.live := by
      rw [show ended.live = _ from DanWebSocketClient.live_run _ history]
      exact wired_run (fun hstarted => Bool.noConfusion hstarted) _
    by_contra hstarted
    exact hwired (by simpa using hstarted) hended
  have hresting : Resting ended.live.heartbeat ended.live := by
    refine ⟨rfl, ?_⟩
    rw [show ended.live.client.socket = none from hended]
    exact (Option.some_ne_none true).symm
  obtain ⟨hrest, hparser⟩ := resting_between hstopped hresting hbetween
  rw [show run step ended between = opening from (run_append step _ history between).symm]
    at hrest hparser
  have hterminated : opening.live.handleOpen.terminated = ended.live.heartbeat.joinable := by
    rw [terminated_handleOpen hrunning (by rw [hrest.heartbeat_eq]; exact hstopped),
      hrest.heartbeat_eq]
  let opened : DanWebSocketClient := ⟨opening.live.handleOpen, opening.parser⟩
  have hopen : opened.live.client.isOpen := decide_eq_true (socket_opened opening.live)
  have hmax : opening.parser.maxBufferSize = maxBufferSize := maxBufferSize_run _ _
  rw [run_append, run_cons, run_nil, step_opened hopening hrunning, ← hterminated, ← hparser]
  change Delivers opened ↔ opened.parser.state = .idle ∧ opened.live.terminated = false
  constructor
  · intro h
    have hterminates := running_of_delivers h hopen
    exact ⟨idle_of_delivers h hterminates hopen, hterminates⟩
  · rintro ⟨hidle, hjoined⟩
    exact delivers_of_idle hjoined hidle hmax

end Connections

section Example

open DanWebSocketClient (step new)

def firstConnection (bytes : List UInt8) : List Event :=
  [.happens (.connect .starts .starts), .happens .opened, .message bytes,
    .happens (.closed .starts)]

/-- The first connection ends behind a whole frame. -/
theorem delivers_whole :
    Delivers (run step (new (List.replicate 16 0) ⟨true, 10⟩)
      (firstConnection (wrapBody [0x09, 0, 0, 0, 0, 0]) ++ [.happens (.timer .starts)] ++
        [.happens .opened])) :=
  (delivers_iff _ _ (by decide +kernel) (by simp) (by decide +kernel) (by decide +kernel)).mpr
    ⟨by decide +kernel, by decide +kernel⟩

/-- The first connection ends inside a frame, and the first frame of the second is lost. -/
theorem not_delivers :
    ¬ ∀ (uuidBytes : List UInt8) (options : ReconnectOptions) (history between : List Event),
      (run step (new uuidBytes options) history).live.client.socket = none →
      (∀ event ∈ between, event ≠ .happens .opened) →
      (run step (new uuidBytes options) (history ++ between)).live.client.socket = some false →
      (run step (new uuidBytes options) (history ++ between)).live.terminated = false →
      Delivers (run step (new uuidBytes options)
        (history ++ between ++ [.happens .opened])) := by
  intro h
  have hdelivers := h (List.replicate 16 0) ⟨true, 10⟩ (firstConnection [DLE, STX, 0x01])
    [.happens (.timer .starts)] (by decide +kernel) (by simp) (by decide +kernel)
    (by decide +kernel)
  have hframe : outputs step DanWebSocketClient.delivered (run step
      (new (List.replicate 16 0) ⟨true, 10⟩) (firstConnection [DLE, STX, 0x01] ++
        [.happens (.timer .starts)] ++ [.happens .opened]))
      [.message (wrapBody [0x04, 0, 0, 0, 0, 0])] = [signalFrame .serverSync] :=
    outputs_signal hdelivers (by decide +kernel) rfl rfl (by decide)
  exact absurd hframe (by decide +kernel)

end Example

end DanWs.CleanStarts
