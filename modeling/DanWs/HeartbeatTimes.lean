import DanWs.Beacons
import DanWs.StepRuns
import Mathlib.Algebra.Order.Ring.Nat
import Mathlib.Data.Fintype.Defs
import Mathlib.Data.Finset.Insert

namespace DanWs.HeartbeatTimes

def sendIntervalMs : Nat := 10000

def timeoutThresholdMs : Nat := 15000

def checkIntervalMs : Nat := 5000

/-- Times are in nanoseconds. -/
def milliseconds (count : Nat) : Nat := count * 1000000

/-- `duration_cast<milliseconds>`. -/
def durationCast (duration : Nat) : Nat := duration / 1000000

/-- The times of a `HeartbeatManager`, since when its loop has been waiting, and whether it
has called `onTimeout_`. -/
structure HeartbeatTimer where
  running : Bool
  lastReceived : Nat
  lastSent : Nat
  waitingSince : Nat
  timedOut : Bool
  deriving DecidableEq, Repr

namespace HeartbeatTimer

/-- `start()` of a manager that has not been started before. -/
def start (now : Nat) : HeartbeatTimer := ⟨true, now, now, now, false⟩

def received (timer : HeartbeatTimer) (now : Nat) : HeartbeatTimer :=
  { timer with lastReceived := now }

/-- `timerLoop()` from the end of one wait to the next wait, or to its return, and whether it
sends a heartbeat. -/
def check (timer : HeartbeatTimer) (now : Nat) : HeartbeatTimer × Bool :=
  if timeoutThresholdMs < durationCast (now - timer.lastReceived) then
    ({ timer with running := false, timedOut := true }, false)
  else if sendIntervalMs ≤ durationCast (now - timer.lastSent) then
    ({ timer with lastSent := now, waitingSince := now }, true)
  else ({ timer with waitingSince := now }, false)

end HeartbeatTimer

inductive Side where
  | client
  | server
  deriving DecidableEq, Repr

instance : Fintype Side := ⟨{.client, .server}, fun side => by cases side <;> simp⟩

def Side.peer : Side → Side
  | .client => .server
  | .server => .client

/-- What the bytes on their way come to. -/
inductive Item where
  | identify
  | heartbeat
  | other
  deriving DecidableEq, Repr

structure Parcel where
  item : Item
  sentAt : Nat
  deriving DecidableEq, Repr

/-- A connection with the timers at its ends, and what is on its way to each of them. The
session has no timer before its client has identified itself. -/
structure Conversation where
  now : Nat
  timers : Side → Option HeartbeatTimer
  inbound : Side → List Parcel

inductive Event where
  | elapse (duration : Nat)
  /-- The timer of a side gets past its wait. -/
  | check (side : Side)
  /-- A side reads what comes next. -/
  | deliver (side : Side)
  /-- A side sends anything but a heartbeat. -/
  | send (side : Side)
  deriving DecidableEq, Repr

namespace Conversation

/-- The client behind `handleOpen()`. -/
def opened (now : Nat) : Conversation where
  now := now
  timers
    | .client => some (.start now)
    | .server => none
  inbound
    | .client => []
    | .server => [⟨.identify, now⟩]

section Moves

variable (conversation : Conversation)

def put (side : Side) (timer : HeartbeatTimer) : Conversation :=
  { conversation with timers := Function.update conversation.timers side (some timer) }

def push (side : Side) (item : Item) : Conversation :=
  { conversation with
    inbound := Function.update conversation.inbound side
      (conversation.inbound side ++ [⟨item, conversation.now⟩]) }

def take (side : Side) (parcels : List Parcel) : Conversation :=
  { conversation with inbound := Function.update conversation.inbound side parcels }

def checkTimer (side : Side) (timer : HeartbeatTimer) : Conversation :=
  let (checked, sends) := timer.check conversation.now
  if sends then (conversation.put side checked).push side.peer .heartbeat
  else conversation.put side checked

/-- The parser knows heartbeats by themselves. An `Identify` frame starts the timer of the
session. -/
def handle (side : Side) : Item → Conversation
  | .identify =>
      match conversation.timers side with
      | none => conversation.put side (.start conversation.now)
      | some _ => conversation
  | .heartbeat =>
      match conversation.timers side with
      | none => conversation
      | some timer => conversation.put side (timer.received conversation.now)
  | .other => conversation

def step : Event → Conversation
  | .elapse duration => { conversation with now := conversation.now + duration }
  | .check side =>
      match conversation.timers side with
      | none => conversation
      | some timer =>
          if timer.running then conversation.checkTimer side timer else conversation
  | .deliver side =>
      match conversation.inbound side with
      | [] => conversation
      | parcel :: parcels => (conversation.take side parcels).handle side parcel.item
  | .send side => conversation.push side.peer .other

end Moves

def lastReceived (conversation : Conversation) (side : Side) : Option Nat :=
  (conversation.timers side).map HeartbeatTimer.lastReceived

def lastSent (conversation : Conversation) (side : Side) : Option Nat :=
  (conversation.timers side).map HeartbeatTimer.lastSent

end Conversation

open Conversation

/-- No wait ends too early or is overrun by more than the slack, and nothing is on its way
for longer than the delay. -/
def Timely (slack delay : Nat) (conversation : Conversation) : Event → Prop
  | .elapse duration =>
      ∀ side,
        (∀ timer ∈ conversation.timers side, timer.running → conversation.now + duration ≤
          timer.waitingSince + (milliseconds checkIntervalMs + slack)) ∧
        ∀ parcel ∈ conversation.inbound side, conversation.now + duration ≤ parcel.sentAt + delay
  | .check side =>
      ∀ timer ∈ conversation.timers side,
        timer.waitingSince + milliseconds checkIntervalMs ≤ conversation.now
  | .deliver _ | .send _ => True

instance (slack delay : Nat) (conversation : Conversation) :
    (event : Event) → Decidable (Timely slack delay conversation event)
  | .elapse duration => inferInstanceAs (Decidable (∀ side,
      (∀ timer ∈ conversation.timers side, timer.running → conversation.now + duration ≤
        timer.waitingSince + (milliseconds checkIntervalMs + slack)) ∧
      ∀ parcel ∈ conversation.inbound side, conversation.now + duration ≤ parcel.sentAt + delay))
  | .check side => inferInstanceAs (Decidable (∀ timer ∈ conversation.timers side,
      timer.waitingSince + milliseconds checkIntervalMs ≤ conversation.now))
  | .deliver _ | .send _ => inferInstanceAs (Decidable True)

section Rounds

variable {slack now later : Nat} {timer : HeartbeatTimer}

def wait (slack : Nat) : Nat := milliseconds checkIntervalMs + slack

def gap (slack : Nat) : Nat := wait slack + wait slack

theorem check_cases (timer : HeartbeatTimer) (now : Nat) :
    timer.lastReceived + milliseconds (timeoutThresholdMs + 1) ≤ now ∧
        timer.check now = ({ timer with running := false, timedOut := true }, false) ∨
      now < timer.lastReceived + milliseconds (timeoutThresholdMs + 1) ∧
        (timer.lastSent + milliseconds sendIntervalMs ≤ now ∧
            timer.check now = ({ timer with lastSent := now, waitingSince := now }, true) ∨
          now < timer.lastSent + milliseconds sendIntervalMs ∧
            timer.check now = ({ timer with waitingSince := now }, false)) := by
  have htimeout : timeoutThresholdMs < durationCast (now - timer.lastReceived) ↔
      timer.lastReceived + milliseconds (timeoutThresholdMs + 1) ≤ now := by
    unfold durationCast milliseconds timeoutThresholdMs
    omega
  have hsend : sendIntervalMs ≤ durationCast (now - timer.lastSent) ↔
      timer.lastSent + milliseconds sendIntervalMs ≤ now := by
    unfold durationCast milliseconds sendIntervalMs
    omega
  rw [HeartbeatTimer.check]
  by_cases hlost : timer.lastReceived + milliseconds (timeoutThresholdMs + 1) ≤ now
  · exact .inl ⟨hlost, if_pos (htimeout.mpr hlost)⟩
  · rw [if_neg (mt htimeout.mp hlost)]
    refine .inr ⟨Nat.lt_of_not_le hlost, ?_⟩
    by_cases hdue : timer.lastSent + milliseconds sendIntervalMs ≤ now
    · exact .inl ⟨hdue, if_pos (hsend.mpr hdue)⟩
    · exact .inr ⟨Nat.lt_of_not_le hdue, if_neg (mt hsend.mp hdue)⟩

/-- A timer that goes round: it waits, and has last sent a heartbeat at the last round or at
the one before. -/
structure Steady (slack now : Nat) (timer : HeartbeatTimer) : Prop where
  running : timer.running
  lives : timer.timedOut = false
  begun : timer.waitingSince ≤ now
  ends : now ≤ timer.waitingSince + wait slack
  rounds : timer.waitingSince = timer.lastSent ∨
    timer.lastSent + milliseconds checkIntervalMs ≤ timer.waitingSince ∧
      timer.waitingSince ≤ timer.lastSent + wait slack

theorem steady_start (slack now : Nat) : Steady slack now (.start now) :=
  ⟨rfl, rfl, Nat.le_refl now, Nat.le_add_right now _, .inl rfl⟩

namespace Steady

theorem received (h : Steady slack now timer) : Steady slack now (timer.received now) :=
  ⟨h.running, h.lives, h.begun, h.ends, h.rounds⟩

theorem elapse (h : Steady slack now timer) (hnow : now ≤ later)
    (hends : later ≤ timer.waitingSince + wait slack) : Steady slack later timer :=
  ⟨h.running, h.lives, h.begun.trans hnow, hends, h.rounds⟩

theorem now_le (h : Steady slack now timer) : now ≤ timer.lastSent + gap slack := by
  have hends := h.ends
  have hrounds := h.rounds
  unfold gap
  omega

/-- A round that does not find a timeout keeps the timer going, and a heartbeat is sent
every second round. -/
theorem check (h : Steady slack now timer)
    (hreceived : now < timer.lastReceived + milliseconds (timeoutThresholdMs + 1))
    (hbegun : timer.waitingSince + milliseconds checkIntervalMs ≤ now) :
    Steady slack now (timer.check now).1 ∧
      (timer.check now = ({ timer with lastSent := now, waitingSince := now }, true) ∨
        timer.check now = ({ timer with waitingSince := now }, false)) := by
  have hends := h.ends
  rcases check_cases timer now with ⟨hlost, -⟩ | ⟨-, ⟨-, heq⟩ | ⟨hlater, heq⟩⟩
  · exact absurd hreceived (Nat.not_lt_of_le hlost)
  · rw [heq]
    exact ⟨⟨h.running, h.lives, Nat.le_refl now, Nat.le_add_right now _, .inl rfl⟩, .inl rfl⟩
  · rw [heq]
    refine ⟨⟨h.running, h.lives, Nat.le_refl now, Nat.le_add_right now _, .inr ?_⟩, .inr rfl⟩
    have hsent : timer.waitingSince = timer.lastSent := by
      rcases h.rounds with hrounds | ⟨hrounds, -⟩
      · exact hrounds
      · -- two waits are as long as the interval
        unfold milliseconds sendIntervalMs at hlater
        unfold milliseconds checkIntervalMs at hrounds hbegun
        omega
    rw [← hsent]
    exact ⟨hbegun, hends⟩

end Steady

end Rounds

end DanWs.HeartbeatTimes
