import DanWs.ClientLifecycle

/-!
The reconnect engine with the threads that its code runs on. What the socket
delivers inside `connect()`, and what a callback of the application does there,
happens on the timer thread, and a timer thread that joins itself throws. An
exception that leaves the thread ends the program.
-/

namespace DanWs.ReconnectThreads

open DanWs.ClientCalls
open DanWs.ClientLifecycle (Dial LiveClient ReconnectOptions)
open DanWs.StepRuns

/-- What `handleClose` comes to: its end, or the join in front of the next timer
thread. -/
inductive Closing where
  | ends (live : LiveClient)
  | joins (counted : LiveClient)

section Closing

variable (live : LiveClient)

def counted : LiveClient :=
  { live with engine := { live.engine with attempt := live.engine.attempt + 1 } }

/-- `scheduleNext()` up to the join. -/
def scheduling : Closing :=
  if (counted live).engine.exhausted then .ends (counted live).onExhausted
  else .joins (counted live)

/-- `handleClose()` up to the join. -/
def closing : Closing :=
  let closed := { live with heartbeat := live.heartbeat.stop, client := live.client.cleanup }
  if closed.client.intentionalDisconnect then .ends closed
  else
    let lost := { closed with client := { closed.client with state := .reconnecting } }
    if lost.client.reconnectActive then scheduling lost
    else if lost.engine.options.enabled = false then .ends lost
    else
      scheduling { lost with
        client := { lost.client with reconnectActive := true }
        engine := { lost.engine with attempt := 0, stopRequested := false } }

def startTimer : LiveClient :=
  { live with engine := { live.engine with timerThread := .waiting } }

/-- The join and what is behind it. -/
def Closing.proceed (join : LiveClient → LiveClient) : Closing → LiveClient
  | .ends ended => ended
  | .joins counted =>
      let joined := join counted
      if joined.terminated then joined else startTimer joined

theorem scheduleNext_eq (join : LiveClient → LiveClient) :
    live.scheduleNext join = (scheduling live).proceed join := by
  rw [scheduling]
  by_cases hexhausted : (counted live).engine.exhausted
  · rw [if_pos hexhausted]
    exact if_pos hexhausted
  · rw [if_neg hexhausted]
    exact if_neg hexhausted

theorem handleClose_eq (join : LiveClient → LiveClient) :
    live.handleClose join = (closing live).proceed join := by
  rw [LiveClient.handleClose, closing]
  dsimp only
  split
  · rfl
  · split
    · next hactive =>
        rw [LiveClient.retry, if_pos hactive]
        exact scheduleNext_eq _ join
    · next hinactive =>
        rw [LiveClient.start]
        dsimp only
        split
        · next hdisabled => rw [if_pos (hdisabled.resolve_right hinactive)]; rfl
        · next henabled =>
            rw [if_neg (not_or.mp henabled).1]
            exact scheduleNext_eq _ join

end Closing

/-- What happens on the timer thread while it is inside `connect()`. The calls among
the inputs are made by callbacks of the application. -/
inductive Delivery where
  | opened
  | input (input : Input)
  | closed
  | disconnect

/-- How the calls of the factory and of the socket end: the exception may be a
`std::exception` or not. -/
inductive Ending where
  | returns
  | throws
  | throwsOther
  deriving DecidableEq, Repr

structure Outcome where
  deliveries : List Delivery
  ending : Ending

/-- An attempt on the timer thread. -/
structure Attempt where
  live : LiveClient
  /-- The connection was lost, or the call has thrown. -/
  failed : Bool
  joinedSelf : Bool
  /-- An exception is on its way out of the call. -/
  raised : Bool

def isFrame : Input → Bool
  | .frame _ => true
  | _ => false

namespace Attempt

/-- `connect()` up to the call of the socket. -/
def dial (live : LiveClient) : Attempt where
  live :=
    { live with
      client :=
        { live.client with
          intentionalDisconnect := false
          state := .connecting
          socket := some false }
      engine := { live.engine with timerThread := .fired } }
  failed := false
  joinedSelf := false
  raised := false

section Deliveries

variable (attempt : Attempt)

/-- `handleClose()`. The timer thread is joinable as long as it runs. -/
def close : Attempt :=
  match closing attempt.live with
  | .ends live => { attempt with live, failed := true }
  | .joins live => { attempt with live, failed := true, joinedSelf := true, raised := true }

/-- A frame that makes the client ready stops the engine. The join throws, so the
statements behind it are not reached; the parser drops the exception. -/
def take (input : Input) : Attempt :=
  let client := afterInput attempt.live.client input
  if attempt.live.client.reconnectActive ∧ ¬ client.reconnectActive then
    { attempt with
      live :=
        { attempt.live with
          client := { client with topics := attempt.live.client.topics }
          engine := { attempt.live.engine with attempt := 0, stopRequested := true } }
      joinedSelf := true }
  else { attempt with live := attempt.live.take input }

/-- `disconnect()` ends in the join as well, and `emit` drops the exception. -/
def disconnect : Attempt :=
  { attempt with
    live :=
      { attempt.live with
        client :=
          { attempt.live.client with intentionalDisconnect := true, reconnectActive := false }
        engine := { attempt.live.engine with attempt := 0, stopRequested := true } }
    joinedSelf := true }

/-- A socket that was closed has lost its handlers. -/
def deliver (delivery : Delivery) : Attempt :=
  if attempt.raised ∨ attempt.live.terminated then attempt
  else
    match delivery with
    | .opened =>
        if attempt.live.client.socket = some false then
          { attempt with live := attempt.live.handleOpen }
        else attempt
    | .input input =>
        if isFrame input ∧ attempt.live.client.socket = none then attempt else attempt.take input
    | .closed => if attempt.live.client.socket = none then attempt else attempt.close
    | .disconnect => attempt.disconnect

/-- The end of `connect()`, whose `catch` calls `handleClose()` again. -/
def conclude (ending : Ending) : Attempt :=
  if attempt.live.terminated then attempt
  else
    let caught :=
      if attempt.raised ∨ ending = .throws then { attempt with raised := false }.close
      else if ending = .throwsOther then { attempt with failed := true, raised := true }
      else attempt
    { caught with live := { caught.live with terminated := caught.raised } }

end Deliveries

def make (live : LiveClient) (outcome : Outcome) : Attempt :=
  (run deliver (dial live) outcome.deliveries).conclude outcome.ending

end Attempt

/-- `onAttempt_` gets past the first line of `connect()`. -/
def Dials (live : LiveClient) : Prop :=
  live.engine.stopRequested = false ∧
    (live.client.state = .disconnected ∨ live.client.state = .reconnecting)

instance (live : LiveClient) : Decidable (Dials live) := inferInstanceAs (Decidable (_ ∧ _))

/-- The client, and the attempts that its timer threads have made. -/
structure World where
  live : LiveClient
  attempts : List Attempt

namespace World

def new (uuidBytes : List UInt8) (options : ReconnectOptions) : World :=
  ⟨LiveClient.new uuidBytes options, []⟩

section Threads

variable (world : World)

/-- The end of `timerLoop`. -/
def fire (outcome : Outcome) : World :=
  if Dials world.live then
    let attempt := Attempt.make world.live outcome
    ⟨attempt.live, world.attempts ++ [attempt]⟩
  else
    { world with
      live := { world.live with engine := { world.live.engine with timerThread := .fired } } }

/-- Another thread joins the timer thread. If that one still waits, it makes its
attempt first. -/
def joinTimer (outcome : Outcome) : World :=
  let finished := if world.live.engine.timerThread = .waiting then world.fire outcome else world
  { finished with
    live := { finished.live with engine := { finished.live.engine with timerThread := .none } } }

/-- `handleClose()` on another thread. -/
def close (waited : Outcome) : World :=
  match closing world.live with
  | .ends live => { world with live }
  | .joins counted =>
      let joined := joinTimer { world with live := counted } waited
      if joined.live.terminated then joined else { joined with live := startTimer joined.live }

/-- `connect()` on another thread. What is delivered inside it may as well be
delivered behind it. -/
def connect (dial : Dial) (waited : Outcome) : World :=
  if world.live.client.state ≠ .disconnected ∧ world.live.client.state ≠ .reconnecting then world
  else
    let connecting := { world.live with
      client :=
        { world.live.client with intentionalDisconnect := false, state := .connecting } }
    match dial with
    | .starts =>
        { world with
          live := { connecting with client := { connecting.client with socket := some false } } }
    | .fails => close { world with live := connecting } waited

end Threads

end World

/-- Events that may have to wait for a timer thread come with the outcome that the
attempt of that thread then has. In `thrown` the call of the socket inside another
thread's `connect()` throws. -/
inductive Event where
  | connect (dial : Dial) (waited : Outcome)
  | disconnect
  | opened
  | closed (waited : Outcome)
  | thrown (waited : Outcome)
  | heartbeatTimeout (waited : Outcome)
  | timer (outcome : Outcome)
  | input (input : Input)

/-- An event that cannot happen in a state changes nothing. -/
def step (world : World) (event : Event) : World :=
  if world.live.terminated then world
  else
    match event with
    | .connect dial waited => world.connect dial waited
    | .disconnect => { world with live := world.live.disconnect }
    | .opened =>
        if world.live.client.socket = some false then { world with live := world.live.handleOpen }
        else world
    | .closed waited => if world.live.client.socket = none then world else world.close waited
    | .thrown waited => world.close waited
    | .heartbeatTimeout waited =>
        if world.live.heartbeat.running then
          World.close { world with
            live := { world.live with heartbeat := world.live.heartbeat.timeout } } waited
        else world
    | .timer outcome =>
        if world.live.engine.timerThread = .waiting then world.fire outcome else world
    | .input input => { world with live := world.live.take input }

section Lifecycle

variable {live : LiveClient}

def plain : Dial → Outcome
  | .starts => ⟨[], .returns⟩
  | .fails => ⟨[], .throws⟩

def ofLifecycle : ClientLifecycle.Event → Event
  | .connect dial waited => .connect dial (plain waited)
  | .disconnect => .disconnect
  | .opened => .opened
  | .closed waited => .closed (plain waited)
  | .heartbeatTimeout waited => .heartbeatTimeout (plain waited)
  | .timer dial => .timer (plain dial)
  | .input input => .input input

def Closing.reached : Closing → LiveClient
  | .ends live | .joins live => live

theorem reached_scheduling (live : LiveClient) :
    (scheduling live).reached.terminated = live.terminated ∧
      (scheduling live).reached.engine.timerThread = live.engine.timerThread := by
  rw [scheduling]
  split <;> exact ⟨rfl, rfl⟩

theorem reached_closing (live : LiveClient) :
    (closing live).reached.terminated = live.terminated ∧
      (closing live).reached.engine.timerThread = live.engine.timerThread := by
  rw [closing]
  dsimp only
  split
  · exact ⟨rfl, rfl⟩
  · split
    · exact reached_scheduling _
    · split
      · exact ⟨rfl, rfl⟩
      · exact reached_scheduling _

theorem Attempt.conclude_close {attempt : Attempt} (halive : attempt.live.terminated = false)
    (hcaught : attempt.raised = false) :
    attempt.conclude .throws =
      { attempt.close with
        live := { attempt.close.live with terminated := attempt.close.raised } } := by
  have hquiet : { attempt with raised := false } = attempt := by rw [← hcaught]
  rw [Attempt.conclude, if_neg (by simp [halive])]
  dsimp only
  rw [if_pos (Or.inr rfl), hquiet]

theorem live_make_plain (halive : live.terminated = false)
    (hdials : live.client.state = .disconnected ∨ live.client.state = .reconnecting) (dial : Dial) :
    (Attempt.make live (plain dial)).live =
      LiveClient.connect LiveClient.joinSelf dial
        { live with engine := { live.engine with timerThread := .fired } } := by
  have hconnects : ¬ (live.client.state ≠ .disconnected ∧ live.client.state ≠ .reconnecting) :=
    fun hneither => hdials.elim hneither.1 hneither.2
  have hdead : (Attempt.dial live).live.terminated = false := halive
  rw [LiveClient.connect, if_neg hconnects]
  cases dial with
  | starts =>
      rw [Attempt.make, plain, run_nil, Attempt.conclude, if_neg (by simp [hdead])]
      simp [Attempt.dial, halive]
  | fails =>
      rw [Attempt.make, plain, run_nil, Attempt.conclude_close hdead rfl]
      dsimp only
      rw [handleClose_eq]
      change _ = (closing (Attempt.dial live).live).proceed LiveClient.joinSelf
      obtain ⟨hterminated, htimer⟩ := reached_closing (Attempt.dial live).live
      rw [Attempt.close]
      cases hclosing : closing (Attempt.dial live).live with
      | ends ended =>
          rw [hclosing] at hterminated
          have hended : ended.terminated = false := hterminated.trans hdead
          dsimp only [Closing.proceed]
          rw [show (Attempt.dial live).raised = ended.terminated from hended.symm]
      | joins joining =>
          rw [hclosing] at htimer
          have hfired : joining.engine.timerThread ≠ .none := by
            rw [show joining.engine.timerThread = .fired from htimer]
            decide
          have hjoin : joining.joinSelf = { joining with terminated := true } := if_neg hfired
          dsimp only [Closing.proceed]
          rw [hjoin]
          rfl

variable {world : World}

theorem live_fire_plain (halive : world.live.terminated = false) (dial : Dial) :
    (world.fire (plain dial)).live = world.live.fire dial := by
  rw [World.fire, LiveClient.fire]
  dsimp only
  by_cases hdials : Dials world.live
  · rw [if_pos hdials, if_neg (by simp [hdials.1])]
    exact live_make_plain halive hdials.2 dial
  · rw [if_neg hdials]
    split
    · rfl
    · next hrequested =>
        have hstate : ¬ (world.live.client.state = .disconnected ∨
            world.live.client.state = .reconnecting) :=
          fun hstate => hdials ⟨Bool.eq_false_of_not_eq_true hrequested, hstate⟩
        rw [LiveClient.connect, if_pos (not_or.mp hstate)]

theorem live_joinTimer_plain (halive : world.live.terminated = false) (waited : Dial) :
    (world.joinTimer (plain waited)).live = world.live.joinTimer waited := by
  rw [World.joinTimer, LiveClient.joinTimer]
  dsimp only
  split
  · rw [live_fire_plain halive]
  · rfl

theorem live_close_plain (halive : world.live.terminated = false) (waited : Dial) :
    (world.close (plain waited)).live =
      world.live.handleClose (LiveClient.joinTimer waited) := by
  rw [World.close, handleClose_eq]
  have hreached := (reached_closing world.live).1
  cases hclosing : closing world.live with
  | ends ended => rfl
  | joins joining =>
      rw [hclosing] at hreached
      have hjoined := @live_joinTimer_plain { world with live := joining }
        (hreached.trans halive) waited
      dsimp only [Closing.proceed] at hjoined ⊢
      rw [← hjoined]
      split <;> rfl

/-- With attempts in which nothing is delivered, the client is the one whose timer
thread ends the program when it joins itself. -/
theorem live_step_ofLifecycle (world : World) (event : ClientLifecycle.Event) :
    (step world (ofLifecycle event)).live = ClientLifecycle.step world.live event := by
  rw [step.eq_def, ClientLifecycle.step.eq_def]
  by_cases hdead : world.live.terminated = true
  · rw [if_pos hdead, if_pos hdead]
  · rw [if_neg hdead, if_neg hdead]
    have hclose : ∀ (lost : LiveClient) waited, lost.terminated = world.live.terminated →
        (World.close ⟨lost, world.attempts⟩ (plain waited)).live =
          lost.handleClose (LiveClient.joinTimer waited) := by
      intro lost waited hlost
      exact @live_close_plain ⟨lost, world.attempts⟩
        (hlost.trans (Bool.eq_false_of_not_eq_true hdead)) waited
    cases event with
    | connect dial waited =>
        dsimp only [ofLifecycle]
        rw [World.connect, LiveClient.connect]
        split
        · rfl
        · cases dial with
          | starts => rfl
          | fails => exact hclose _ waited rfl
    | disconnect => rfl
    | opened =>
        dsimp only [ofLifecycle]
        split <;> rfl
    | closed waited =>
        dsimp only [ofLifecycle]
        split
        · rfl
        · exact hclose _ waited rfl
    | heartbeatTimeout waited =>
        dsimp only [ofLifecycle]
        split
        · exact hclose _ waited rfl
        · rfl
    | timer dial =>
        dsimp only [ofLifecycle]
        split
        · exact live_fire_plain (Bool.eq_false_of_not_eq_true hdead) dial
        · rfl
    | input input => rfl

end Lifecycle

end DanWs.ReconnectThreads
