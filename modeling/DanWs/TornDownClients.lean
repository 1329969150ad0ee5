import DanWs.CallbackCalls
import DanWs.StreamRecovery

namespace DanWs.TornDownClients

open DanWs.CallbackCalls
open DanWs.Clients
open DanWs.ClientStanding
open DanWs.KeyPaths
open DanWs.StepRuns
open DanWs.StreamParsing
open DanWs.StreamRecovery
open DanWs.WireTypes

/-- A client and the parser that hands it its frames. -/
structure Fed where
  parser : StreamParser
  client : Client

/-- What the parser does with a byte, where the callbacks in `calls` disconnect. -/
def deliver (calls : Notice → Bool) (client : Client) : Event → Client
  | .frame frame => handleFrame calls client frame
  | .heartbeat | .error _ => client

def feedByte (fed : Fed) (byte : UInt8 × (Notice → Bool)) : Fed :=
  let (parser, events) := fed.parser.step byte.1
  ⟨parser, events.foldl (deliver byte.2) fed.client⟩

/-- A client without a socket is not on a connection. -/
def Down (client : Client) : Prop :=
  client.socket = none → client.state = .disconnected ∨ client.state = .reconnecting

/-- The frame moves the state whatever it is, and no callback takes that back. -/
def Raises (calls : Notice → Bool) (client : Client) (frame : Frame) : Prop :=
  frame.frameType = .authOk ∨ frame.frameType = .serverReset ∨
    frame.frameType = .serverSync ∧ client.registry.byId = ∅ ∧ ¬ Interrupts calls client

/-- No frame that raises the state comes while there is no socket. -/
def StaysDown (fed : Fed) (byte : UInt8 × (Notice → Bool)) : Prop :=
  ∀ frame, .frame frame ∈ (fed.parser.step byte.1).2 → fed.client.socket = none →
    ¬ Raises byte.2 fed.client frame

section Frames

variable {calls : Notice → Bool} {client : Client} {frame : Frame}

theorem down_of_torn (h : Torn client) : Down client := fun _ => Or.inl h.state

theorem socket_apply (standing : Standing) (registry : KeyRegistry) (frame : Frame) :
    (standing.apply registry frame).socket = standing.socket ∨
      (standing.apply registry frame).state = .disconnected := by
  have hstart : standing.startSynchronizing.socket = standing.socket := by
    rw [Standing.startSynchronizing]
    split <;> rfl
  rw [Standing.apply]
  split
  case h_3 => exact Or.inr rfl
  case h_4 => exact Or.inl hstart
  case h_5 =>
    split
    · exact Or.inl hstart
    · exact Or.inl hstart
  case h_6 => split <;> exact Or.inl rfl
  all_goals exact Or.inl rfl

theorem interrupts_startSynchronizing :
    Interrupts calls client.startSynchronizing ↔ Interrupts calls client := by
  rw [Interrupts, Interrupts, Client.startSynchronizing]
  split <;> rfl

theorem emptySync_cases (calls : Notice → Bool) (htype : frame.frameType = .serverSync)
    (hempty : client.registry.byId = ∅) :
    (Interrupts calls client ∧ Torn (handleFrame calls client frame)) ∨
      (¬ Interrupts calls client ∧ (handleFrame calls client frame).state = .ready ∧
        (handleFrame calls client frame).socket = client.socket) := by
  have hregistry : client.startSynchronizing.registry.byId = ∅ := by
    rw [registry_startSynchronizing]
    exact hempty
  have hsocket : client.startSynchronizing.socket = client.socket := by
    rw [Client.startSynchronizing]
    split <;> rfl
  rw [handleFrame, htype]
  dsimp only
  rw [handleServerSync, if_pos hregistry, ← interrupts_startSynchronizing]
  refine enterReady_cases.imp id (And.imp_right fun hready => ⟨?_, ?_⟩)
  · exact congrArg Standing.state hready
  · exact (congrArg Standing.socket hready).trans hsocket

theorem state_of_raises (h : Raises calls client frame) :
    ((handleFrame calls client frame).state = .synchronizing ∨
        (handleFrame calls client frame).state = .ready) ∧
      (handleFrame calls client frame).socket = client.socket := by
  rcases h with htype | htype | ⟨htype, hempty, hinterrupts⟩
  · have hhandled : handleFrame calls client frame = { client with state := .synchronizing } := by
      rw [handleFrame, htype]
      dsimp only
      rw [Client.handleFrame, htype]
      rfl
    rw [hhandled]
    exact ⟨Or.inl rfl, rfl⟩
  · have hhandled : handleFrame calls client frame = client.handleServerReset.client := by
      rw [handleFrame, htype]
      dsimp only
      rw [Client.handleFrame, htype]
      rfl
    rw [hhandled]
    exact ⟨Or.inl rfl, rfl⟩
  · rcases emptySync_cases calls htype hempty with ⟨hcalls, _⟩ | ⟨_, hstate, hsocket⟩
    · exact absurd hcalls hinterrupts
    · exact ⟨Or.inr hstate, hsocket⟩

/-- Without a socket, the state moves only for a frame that raises it. -/
theorem state_apply_of_down {standing : Standing} {registry : KeyRegistry}
    (h : standing.state = .disconnected ∨ standing.state = .reconnecting)
    (hauthOk : frame.frameType ≠ .authOk) (hreset : frame.frameType ≠ .serverReset)
    (hsync : frame.frameType = .serverSync → registry.byId ≠ ∅) :
    (standing.apply registry frame).state = .disconnected ∨
      (standing.apply registry frame).state = .reconnecting := by
  have hstart : standing.startSynchronizing = standing := by
    rw [Standing.startSynchronizing, if_neg]
    rcases h with h | h <;> simp [h]
  rw [Standing.apply]
  split
  case h_1 htype => exact absurd htype hauthOk
  case h_2 htype => exact absurd htype hreset
  case h_3 => exact Or.inl rfl
  case h_4 =>
    rw [hstart]
    exact h
  case h_5 htype =>
    rw [if_neg (hsync htype), hstart]
    exact h
  case h_6 =>
    rw [if_neg]
    · exact h
    · rintro ⟨_, hstate⟩
      rcases h with h | h <;> simp [hstate] at h
  case h_7 => exact h

theorem down_handleFrame_iff (h : Down client) :
    Down (handleFrame calls client frame) ↔
      (client.socket = none → ¬ Raises calls client frame) := by
  constructor
  · intro hdown hsocket hraises
    obtain ⟨hstate, hkept⟩ := state_of_raises hraises
    rcases hdown (hkept.trans hsocket) with hdown | hdown <;> simp [hdown] at hstate
  · intro hcondition
    rcases torn_or_handleFrame calls client frame with htorn | hstanding
    · exact down_of_torn htorn
    · intro hnone
      have hstate := congrArg Standing.state hstanding
      have hsocket := congrArg Standing.socket hstanding
      rw [show (standing (handleFrame calls client frame)).state =
        (handleFrame calls client frame).state from rfl] at hstate
      rcases socket_apply (standing client) client.registry frame with hkept | hdisconnected
      · have hbefore : client.socket = none := (hsocket.trans hkept).symm.trans hnone
        have hraises := hcondition hbefore
        by_cases hsync : frame.frameType = .serverSync ∧ client.registry.byId = ∅
        · rcases emptySync_cases calls hsync.1 hsync.2 with ⟨_, htorn⟩ | ⟨hcalls, _⟩
          · exact down_of_torn htorn hnone
          · exact absurd (Or.inr (Or.inr ⟨hsync.1, hsync.2, hcalls⟩)) hraises
        · rw [hstate]
          exact state_apply_of_down (h hbefore) (fun htype => hraises (Or.inl htype))
            (fun htype => hraises (Or.inr (Or.inl htype)))
            fun htype hempty => hsync ⟨htype, hempty⟩
      · exact Or.inl (hstate.trans hdisconnected)

end Frames

section Chunks

theorem step_events (parser : StreamParser) (byte : UInt8) :
    (parser.step byte).2 = [] ∨ ∃ event, (parser.step byte).2 = [event] := by
  rw [StreamParser.step]
  split
  · split
    · exact Or.inl rfl
    · exact Or.inr ⟨_, rfl⟩
  · split
    · exact Or.inl rfl
    · split <;> exact Or.inr ⟨_, rfl⟩
  · split
    · exact Or.inl rfl
    · split
      · exact Or.inr ⟨_, rfl⟩
      · exact Or.inl rfl
  · split
    · exact Or.inr ⟨_, rfl⟩
    · split
      · exact Or.inl rfl
      · exact Or.inr ⟨_, rfl⟩

theorem down_feedByte_iff (fed : Fed) (byte : UInt8 × (Notice → Bool)) (h : Down fed.client) :
    Down (feedByte fed byte).client ↔ StaysDown fed byte := by
  rw [feedByte, StaysDown]
  dsimp only
  rcases step_events fed.parser byte.1 with hevents | ⟨event, hevents⟩
  · rw [hevents]
    simpa using h
  · rw [hevents]
    dsimp only [List.foldl_cons, List.foldl_nil]
    cases event with
    | frame frame =>
        rw [deliver, down_handleFrame_iff h]
        simp
    | heartbeat => simpa [deliver] using h
    | error message => simpa [deliver] using h

/-- In every state between the frames of a chunk, a client without a socket is
`Disconnected` or `Reconnecting`, if and only if it is so at first and no frame
raises the state while there is no socket. -/
theorem down_throughout_iff (fed : Fed) (chunk : List (UInt8 × (Notice → Bool))) :
    (∀ before, before <+: chunk → Down (run feedByte fed before).client) ↔
      Down fed.client ∧ StepsMeet feedByte StaysDown fed chunk := by
  have hiff : Down fed.client →
      ((∀ before, before <+: chunk → Down (run feedByte fed before).client) ↔
        StepsMeet feedByte StaysDown fed chunk) := fun hdown =>
    @forall_prefix_iff_stepsMeet _ _ feedByte StaysDown (fun fed => Down fed.client)
      down_feedByte_iff fed hdown chunk
  constructor
  · intro h
    have hdown : Down fed.client := h [] List.nil_prefix
    exact ⟨hdown, (hiff hdown).mp h⟩
  · rintro ⟨hdown, hmeet⟩
    exact (hiff hdown).mpr hmeet

theorem foldl_deliver_silent (client : Client) (events : List Event) :
    events.foldl (deliver silent) client = (client.receive (deliveredFrames events)).1 := by
  induction events generalizing client with
  | nil => rfl
  | cons event events ih =>
      rw [List.foldl_cons, ih]
      cases event with
      | frame frame => rw [deliver, handleFrame_silent]; rfl
      | heartbeat | error _ => rfl

/-- Byte by byte, a client gets the frames that its parser reports for the chunk. -/
theorem run_feedByte_silent (fed : Fed) (chunk : List UInt8) :
    run feedByte fed (chunk.map fun byte => (byte, silent)) =
      ⟨(fed.parser.feed chunk).1,
        (fed.client.receive (deliveredFrames (fed.parser.feed chunk).2)).1⟩ := by
  induction chunk generalizing fed with
  | nil => rfl
  | cons byte chunk ih =>
      have hdelivered : deliveredFrames (fed.parser.feed (byte :: chunk)).2 =
          deliveredFrames (fed.parser.step byte).2 ++
            deliveredFrames ((fed.parser.step byte).1.feed chunk).2 :=
        List.filterMap_append
      rw [List.map_cons, run_cons, ih, hdelivered, Client.receive_append, feedByte]
      dsimp only
      rw [foldl_deliver_silent]
      rfl

end Chunks

section Example

def identifying : Client := { Client.new with state := .identifying, socket := some true }

/-- The bytes of an `AuthFail` frame, and of an `AuthOk` frame behind it. -/
def rejection : List UInt8 :=
  [DLE, STX, 0x11, 0, 0, 0, 0, 0x0A, 0x6E, 0x6F, DLE, ETX,
    DLE, STX, 0x0F, 0, 0, 0, 0, 0, DLE, ETX]

/-- The `AuthOk` moves a client that the `AuthFail` has torn down. -/
theorem not_down_throughout :
    ¬ ∀ (fed : Fed) (chunk : List (UInt8 × (Notice → Bool))), Down fed.client →
      ∀ before, before <+: chunk → Down (run feedByte fed before).client := by
  intro h
  have hdown : Down identifying := fun hsocket => nomatch hsocket
  have hlast := h ⟨.new 1048576, identifying⟩ (rejection.map fun byte => (byte, silent)) hdown _
    (List.prefix_refl _)
  have hstate : (run feedByte ⟨.new 1048576, identifying⟩
      (rejection.map fun byte => (byte, silent))).client.state = .synchronizing := by
    decide +kernel
  have hsocket : (run feedByte ⟨.new 1048576, identifying⟩
      (rejection.map fun byte => (byte, silent))).client.socket = none := by
    decide +kernel
  rcases hlast hsocket with hlast | hlast <;> simp [hstate] at hlast

end Example

end DanWs.TornDownClients
