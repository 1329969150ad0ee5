import DanWs.ClientCalls

/-!
The client with the layers that keep it connected: the heartbeat, the reconnect
engine and their timer threads. Delays and the callbacks of the application are
left out; an event names the next thing that happens. A thread object that C++
would not let go ends the program.
-/

namespace DanWs.ClientLifecycle

open DanWs.ClientCalls
open DanWs.Clients

/-- `joinable` stays true when the thread has run to its end. -/
structure HeartbeatManager where
  running : Bool
  stopRequested : Bool
  joinable : Bool
  deriving DecidableEq, Repr

namespace HeartbeatManager

def new : HeartbeatManager := ⟨false, false, false⟩

def stop (heartbeat : HeartbeatManager) : HeartbeatManager :=
  if heartbeat.running then ⟨false, true, false⟩ else heartbeat

/-- A thread is assigned to `timerThread_`, which must not hold one. -/
def start (heartbeat : HeartbeatManager) : Option HeartbeatManager :=
  if heartbeat.stop.joinable then none else some ⟨true, false, true⟩

/-- The timer thread finds that the server is silent, reports it and returns. -/
def timeout (heartbeat : HeartbeatManager) : HeartbeatManager := { heartbeat with running := false }

end HeartbeatManager

structure ReconnectOptions where
  enabled : Bool
  /-- 0 for any number of attempts. -/
  maxRetries : Int32
  deriving DecidableEq, Repr

inductive TimerThread where
  | none
  | waiting
  /-- It runs its attempt or has run it, and has not been joined. -/
  | fired
  deriving DecidableEq, Repr

/-- The engine, less `active_`, which is with the client. -/
structure ReconnectEngine where
  options : ReconnectOptions
  attempt : Int32
  stopRequested : Bool
  timerThread : TimerThread
  deriving DecidableEq, Repr

namespace ReconnectEngine

def new (options : ReconnectOptions) : ReconnectEngine := ⟨options, 0, false, .none⟩

/-- A timer thread that waits is woken, makes no attempt and is joined. -/
def stop (engine : ReconnectEngine) : ReconnectEngine :=
  { engine with attempt := 0, stopRequested := true, timerThread := .none }

def exhausted (engine : ReconnectEngine) : Prop :=
  0 < engine.options.maxRetries ∧ engine.options.maxRetries < engine.attempt

instance (engine : ReconnectEngine) : Decidable engine.exhausted :=
  inferInstanceAs (Decidable (_ ∧ _))

end ReconnectEngine

structure LiveClient where
  uuidBytes : List UInt8
  client : Client
  heartbeat : HeartbeatManager
  engine : ReconnectEngine
  terminated : Bool

/-- Whether the factory gives a socket that starts to connect, or one of them throws. -/
inductive Dial where
  | starts
  | fails
  deriving DecidableEq, Repr

namespace LiveClient

def new (uuidBytes : List UInt8) (options : ReconnectOptions) : LiveClient :=
  ⟨uuidBytes, Client.new, HeartbeatManager.new, ReconnectEngine.new options, false⟩

def onExhausted (live : LiveClient) : LiveClient :=
  { live with client := { live.client with state := .disconnected, reconnectActive := false } }

section Reconnecting

-- what it comes to when the thread that runs the code joins the timer thread
variable (join : LiveClient → LiveClient)

def scheduleNext (live : LiveClient) : LiveClient :=
  let counted := { live with engine := { live.engine with attempt := live.engine.attempt + 1 } }
  if counted.engine.exhausted then counted.onExhausted
  else
    let joined := join counted
    if joined.terminated then joined
    else { joined with engine := { joined.engine with timerThread := .waiting } }

def start (live : LiveClient) : LiveClient :=
  if live.engine.options.enabled = false ∨ live.client.reconnectActive then live
  else
    scheduleNext join { live with
      client := { live.client with reconnectActive := true }
      engine := { live.engine with attempt := 0, stopRequested := false } }

def retry (live : LiveClient) : LiveClient :=
  if live.client.reconnectActive then scheduleNext join live else live

def handleClose (live : LiveClient) : LiveClient :=
  let closed := { live with heartbeat := live.heartbeat.stop, client := live.client.cleanup }
  if closed.client.intentionalDisconnect then closed
  else
    let lost := { closed with client := { closed.client with state := .reconnecting } }
    if lost.client.reconnectActive then lost.retry join else lost.start join

def connect (dial : Dial) (live : LiveClient) : LiveClient :=
  if live.client.state ≠ .disconnected ∧ live.client.state ≠ .reconnecting then live
  else
    let connecting := { live with
      client := { live.client with intentionalDisconnect := false, state := .connecting } }
    match dial with
    | .starts => { connecting with client := { connecting.client with socket := some false } }
    | .fails => connecting.handleClose join

end Reconnecting

def joinSelf (live : LiveClient) : LiveClient :=
  if live.engine.timerThread = .none then live else { live with terminated := true }

/-- The end of `timerLoop`, on the timer thread. -/
def fire (dial : Dial) (live : LiveClient) : LiveClient :=
  let fired := { live with engine := { live.engine with timerThread := .fired } }
  if fired.engine.stopRequested then fired else fired.connect joinSelf dial

/-- Another thread joins the timer thread. If that one still waits, it makes its
attempt first, with the outcome `dial`. -/
def joinTimer (dial : Dial) (live : LiveClient) : LiveClient :=
  let finished := if live.engine.timerThread = .waiting then live.fire dial else live
  { finished with engine := { finished.engine with timerThread := .none } }

def disconnect (live : LiveClient) : LiveClient :=
  { live with
    client := (ClientCalls.disconnect live.client).client
    heartbeat := live.heartbeat.stop
    engine := live.engine.stop }

def handleOpen (live : LiveClient) : LiveClient :=
  let opened := { live.client with socket := some true }
  match live.heartbeat.start with
  | none => { live with client := opened, terminated := true }
  | some heartbeat =>
      { live with client := (ClientCalls.handleOpen opened live.uuidBytes).client, heartbeat }

/-- A frame that makes the client ready stops the engine, if it is active, and an
`AuthFail` stops the heartbeat. -/
def take (live : LiveClient) (input : Input) : LiveClient :=
  let client := afterInput live.client input
  { live with
    client
    heartbeat := if hasType .authFail input then live.heartbeat.stop else live.heartbeat
    engine :=
      if live.client.reconnectActive ∧ ¬ client.reconnectActive then live.engine.stop
      else live.engine }

end LiveClient

/-- Events that may have to wait for a timer thread come with the outcome that
the attempt of that thread then has. -/
inductive Event where
  | connect (dial waited : Dial)
  | disconnect
  | opened
  | closed (waited : Dial)
  | heartbeatTimeout (waited : Dial)
  | timer (dial : Dial)
  | input (input : Input)

/-- An event that cannot happen in a state changes nothing. -/
def step (live : LiveClient) (event : Event) : LiveClient :=
  if live.terminated then live
  else
    match event with
    | .connect dial waited => live.connect (LiveClient.joinTimer waited) dial
    | .disconnect => live.disconnect
    | .opened => if live.client.socket = some false then live.handleOpen else live
    | .closed waited =>
        if live.client.socket = none then live
        else live.handleClose (LiveClient.joinTimer waited)
    | .heartbeatTimeout waited =>
        if live.heartbeat.running then
          LiveClient.handleClose (LiveClient.joinTimer waited)
            { live with heartbeat := live.heartbeat.timeout }
        else live
    | .timer dial => if live.engine.timerThread = .waiting then live.fire dial else live
    | .input input => live.take input

theorem step_of_terminated {live : LiveClient} (h : live.terminated) (event : Event) :
    step live event = live := by
  rw [step.eq_def, if_pos h]

theorem step_opened {live : LiveClient} (hopening : live.client.socket = some false)
    (hrunning : live.terminated = false) : step live .opened = live.handleOpen := by
  rw [step.eq_def, if_neg (by simp [hrunning])]
  exact if_pos hopening

/-- A property that the single assignments of the engine and of the close keep. -/
structure Stable (property : LiveClient → Prop) : Prop where
  engine : ∀ live engine, engine.options = live.engine.options → property live →
    property { live with engine }
  terminated : ∀ live, property live → property { live with terminated := true }
  /-- The engine is only ever started if it is enabled. -/
  state : ∀ live state intentionalDisconnect (reconnectActive : Bool),
    (reconnectActive → live.client.reconnectActive ∨ live.engine.options.enabled) →
    property live →
    property { live with
      client := { live.client with state, intentionalDisconnect, reconnectActive } }
  closed : ∀ live, property live →
    property { live with heartbeat := live.heartbeat.stop, client := live.client.cleanup }
  dialed : ∀ live, property live →
    property { live with client := { live.client with socket := some false } }

namespace Stable

variable {property : LiveClient → Prop} {live : LiveClient} {join : LiveClient → LiveClient}

theorem scheduleNext (h : Stable property) (hjoin : ∀ live, property live → property (join live))
    (hlive : property live) : property (live.scheduleNext join) := by
  have hcounted := h.engine live { live.engine with attempt := live.engine.attempt + 1 } rfl hlive
  rw [LiveClient.scheduleNext]
  dsimp only
  split
  · exact h.state _ .disconnected live.client.intentionalDisconnect false
      (fun hactive => Bool.noConfusion hactive) hcounted
  · have hjoined := hjoin _ hcounted
    split
    · exact hjoined
    · exact h.engine _ _ rfl hjoined

theorem retry (h : Stable property) (hjoin : ∀ live, property live → property (join live))
    (hlive : property live) : property (live.retry join) := by
  rw [LiveClient.retry]
  split
  · exact h.scheduleNext hjoin hlive
  · exact hlive

theorem start (h : Stable property) (hjoin : ∀ live, property live → property (join live))
    (hlive : property live) : property (live.start join) := by
  rw [LiveClient.start]
  split
  · exact hlive
  · next hstart =>
      have henabled : live.engine.options.enabled := by simpa using (not_or.mp hstart).1
      let started : LiveClient :=
        { live with client := { live.client with reconnectActive := true } }
      have hstarted : property started := h.state live live.client.state
        live.client.intentionalDisconnect true (fun _ => Or.inr henabled) hlive
      exact h.scheduleNext hjoin
        (h.engine started { live.engine with attempt := 0, stopRequested := false } rfl hstarted)

theorem handleClose (h : Stable property) (hjoin : ∀ live, property live → property (join live))
    (hlive : property live) : property (live.handleClose join) := by
  let closed : LiveClient :=
    { live with heartbeat := live.heartbeat.stop, client := live.client.cleanup }
  have hclosed : property closed := h.closed live hlive
  rw [LiveClient.handleClose]
  dsimp only
  split
  · exact hclosed
  · have hlost := h.state closed .reconnecting closed.client.intentionalDisconnect
      closed.client.reconnectActive Or.inl hclosed
    split
    · exact h.retry hjoin hlost
    · exact h.start hjoin hlost

theorem connect (h : Stable property) (hjoin : ∀ live, property live → property (join live))
    (hlive : property live) (dial : Dial) : property (live.connect join dial) := by
  rw [LiveClient.connect]
  split
  · exact hlive
  · have hconnecting := h.state live .connecting false live.client.reconnectActive Or.inl hlive
    cases dial with
    | starts => exact h.dialed _ hconnecting
    | fails => exact h.handleClose hjoin hconnecting

theorem joinSelf (h : Stable property) (live : LiveClient) (hlive : property live) :
    property live.joinSelf := by
  rw [LiveClient.joinSelf]
  split
  · exact hlive
  · exact h.terminated live hlive

theorem fire (h : Stable property) (hlive : property live) (dial : Dial) :
    property (live.fire dial) := by
  have hfired := h.engine live { live.engine with timerThread := .fired } rfl hlive
  rw [LiveClient.fire]
  dsimp only
  split
  · exact hfired
  · exact h.connect h.joinSelf hfired dial

theorem joinTimer (h : Stable property) (dial : Dial) (live : LiveClient) (hlive : property live) :
    property (live.joinTimer dial) := by
  rw [LiveClient.joinTimer]
  dsimp only
  split
  · exact h.engine _ _ rfl (h.fire hlive dial)
  · exact h.engine _ _ rfl hlive

theorem disconnect (h : Stable property) (hlive : property live) : property live.disconnect := by
  let closed : LiveClient :=
    { live with heartbeat := live.heartbeat.stop, client := live.client.cleanup }
  have hclosed : property closed := h.closed live hlive
  let stopped : LiveClient := { closed with engine := live.engine.stop }
  have hstopped : property stopped := h.engine closed live.engine.stop rfl hclosed
  exact h.state stopped .disconnected true false (fun hactive => Bool.noConfusion hactive) hstopped

end Stable

/-- A stable property is kept by a step if the timeout of the heartbeat, the
opening of a connection and the input keep it, too. -/
theorem stable_step {property : LiveClient → Prop} (h : Stable property) {live : LiveClient}
    {event : Event} (hlive : property live)
    (htimeout : property { live with heartbeat := live.heartbeat.timeout })
    (hopened : event = .opened → live.client.socket = some false → property live.handleOpen)
    (htake : ∀ input, event = .input input → property (live.take input)) :
    property (step live event) := by
  rw [step.eq_def]
  split
  · exact hlive
  · cases event with
    | connect dial waited => exact h.connect (h.joinTimer waited) hlive dial
    | disconnect => exact h.disconnect hlive
    | opened =>
        dsimp only
        split
        · next hsocket => exact hopened rfl hsocket
        · exact hlive
    | closed waited =>
        dsimp only
        split
        · exact hlive
        · exact h.handleClose (h.joinTimer waited) hlive
    | heartbeatTimeout waited =>
        dsimp only
        split
        · exact h.handleClose (h.joinTimer waited) htimeout
        · exact hlive
    | timer dial =>
        dsimp only
        split
        · exact h.fire hlive dial
        · exact hlive
    | input input => exact htake input rfl

end DanWs.ClientLifecycle
