import DanWs.HeartbeatDeadlines

namespace DanWs.LiveHeartbeats

open DanWs.HeartbeatDeadlines
open DanWs.HeartbeatTimes
open DanWs.HeartbeatTimes.Conversation
open DanWs.StepRuns

section Steps

variable {slack delay : Nat} {conversation : Conversation} {side : Side}
  {timer : HeartbeatTimer}

theorem introduced_tail {started : Bool} {parcel : Parcel} {parcels : List Parcel}
    (h : Introduced started (parcel :: parcels)) : Introduced true parcels := by
  cases started with
  | false => exact h.2
  | true => exact fun later hlater => h later (List.mem_cons_of_mem parcel hlater)

theorem alive_take (h : Alive slack delay conversation) {parcel : Parcel} {parcels : List Parcel}
    (hinbound : conversation.inbound side = parcel :: parcels) (hother : parcel.item = .other) :
    Alive slack delay (conversation.take side parcels) := by
  have hstarted : ∃ time, conversation.lastSent side = some time := by
    have hintroduced := h.introduced side
    rw [hinbound] at hintroduced
    cases hsent : conversation.lastSent side with
    | some time => exact ⟨time, rfl⟩
    | none =>
        rw [hsent] at hintroduced
        exact absurd (hother.symm.trans hintroduced.1) Item.noConfusion
  obtain ⟨time, hsent⟩ := hstarted
  have hsame : ∀ other,
      Introduced (conversation.lastSent other).isSome
          ((conversation.take side parcels).inbound other) ∧
        beats ((conversation.take side parcels).inbound other) =
          beats (conversation.inbound other) ∧
        nextBy slack delay (conversation.lastSent other)
            ((conversation.take side parcels).inbound other) =
          nextBy slack delay (conversation.lastSent other) (conversation.inbound other) := by
    intro other
    rw [take]
    dsimp only
    rcases eq_or_ne other side with rfl | hne
    · have hintroduced := h.introduced other
      rw [hinbound] at hintroduced
      rw [Function.update_self, hinbound, beats_cons, if_pos hother, hsent]
      exact ⟨introduced_tail hintroduced, rfl, rfl⟩
    · rw [Function.update_of_ne hne]
      exact ⟨h.introduced other, rfl, rfl⟩
  refine ⟨h.steady, fun other => (hsame other).1, fun other => ?_⟩
  have hwatch := h.watch other
  rw [← (hsame other).2.1, ← (hsame other.peer).2.2] at hwatch
  exact hwatch

theorem alive_hear (h : Alive slack delay conversation) {parcel : Parcel} {parcels : List Parcel}
    (hinbound : conversation.inbound side = parcel :: parcels) (hbeat : parcel.item ≠ .other)
    {next : HeartbeatTimer} (hnext : Steady slack conversation.now next)
    (hreceived : next.lastReceived = conversation.now)
    (hsent : next.lastSent + gap slack ≤
      nextBy slack delay (conversation.lastSent side) (conversation.inbound side)) :
    Alive slack delay ((conversation.take side parcels).put side next) := by
  have hlast : ((conversation.take side parcels).put side next).lastSent side =
      some next.lastSent := by
    rw [lastSent, put]
    dsimp only
    rw [Function.update_self, Option.map_some]
  have hheard : ((conversation.take side parcels).put side next).lastReceived side =
      some conversation.now := by
    rw [lastReceived, put]
    dsimp only
    rw [Function.update_self, Option.map_some, hreceived]
  have hothers : ∀ other, other ≠ side →
      ((conversation.take side parcels).put side next).timers other = conversation.timers other ∧
        ((conversation.take side parcels).put side next).inbound other =
          conversation.inbound other :=
    fun other hne => ⟨Function.update_of_ne hne _ _, Function.update_of_ne hne _ _⟩
  have htaken : ((conversation.take side parcels).put side next).inbound side = parcels :=
    Function.update_self _ _ _
  refine ⟨?_, fun other => ?_, fun other => ?_⟩
  · intro other timer htimer
    rcases eq_or_ne other side with rfl | hne
    · obtain rfl : next = timer := by
        rw [put] at htimer
        dsimp only at htimer
        rw [Function.update_self] at htimer
        exact Option.some.inj htimer
      exact hnext
    · rw [(hothers other hne).1] at htimer
      exact h.steady other timer htimer
  · rcases eq_or_ne other side with rfl | hne
    · have hintroduced := h.introduced other
      rw [hinbound] at hintroduced
      rw [hlast, htaken]
      exact introduced_tail hintroduced
    · rw [lastSent, (hothers other hne).1, (hothers other hne).2]
      exact h.introduced other
  · rcases eq_or_eq_peer side other with rfl | rfl
    · have hwatch := h.watch other
      rw [hinbound, beats_cons, if_neg hbeat] at hwatch
      rw [hheard, htaken, lastSent, (hothers other.peer (peer_ne other)).1,
        (hothers other.peer (peer_ne other)).2]
      exact hwatch.hear
    · have hwatch := h.watch side.peer
      rw [peer_peer] at hwatch
      rw [lastReceived, (hothers side.peer (peer_ne side)).1,
        (hothers side.peer (peer_ne side)).2, peer_peer, hlast]
      exact hwatch.hasten hsent hnext.now_le

theorem alive_deliver (h : Alive slack delay conversation) :
    Alive slack delay (conversation.step (.deliver side)) := by
  rw [step]
  cases hinbound : conversation.inbound side with
  | nil => exact h
  | cons parcel parcels =>
      have hintroduced := h.introduced side
      rw [hinbound] at hintroduced
      have htimers : (conversation.take side parcels).timers side = conversation.timers side := rfl
      dsimp only
      cases hitem : parcel.item with
      | other => exact alive_take h hinbound hitem
      | heartbeat =>
          rw [handle, htimers]
          cases htimer : conversation.timers side with
          | none =>
              rw [lastSent, htimer] at hintroduced
              exact absurd (hitem.symm.trans hintroduced.1) Item.noConfusion
          | some timer =>
              refine alive_hear h hinbound (by simp [hitem])
                (h.steady side timer htimer).received rfl ?_
              rw [lastSent, htimer]
              exact Nat.le_refl _
      | identify =>
          rw [handle, htimers]
          cases htimer : conversation.timers side with
          | none =>
              refine alive_hear h hinbound (by simp [hitem]) (steady_start slack _) rfl ?_
              have hparcel := (h.watch side).sent parcel.sentAt (by
                rw [hinbound, beats_cons, if_neg (by simp [hitem])]
                exact List.mem_cons_self)
              rw [lastSent, htimer, hinbound]
              exact Nat.add_le_add_right hparcel.2 _
          | some timer =>
              rw [lastSent, htimer] at hintroduced
              exact absurd hitem (hintroduced parcel List.mem_cons_self)

theorem alive_step (hbound : gap slack + delay + delay < milliseconds (timeoutThresholdMs + 1))
    (h : Alive slack delay conversation) {event : Event}
    (htimely : Timely slack delay conversation event) :
    Alive slack delay (conversation.step event) := by
  cases event with
  | elapse duration => exact alive_elapse h htimely
  | check side => exact alive_check hbound h htimely
  | deliver side => exact alive_deliver h
  | send side => exact alive_send h side.peer

/-- As long as two rounds and two deliveries take less than the threshold, neither side ever
gives the other up. -/
theorem keeps_running {now : Nat}
    (hbound : 2 * (milliseconds checkIntervalMs + slack) + 2 * delay <
      milliseconds (timeoutThresholdMs + 1))
    {events : List Event} (htimely : StepsMeet step (Timely slack delay) (opened now) events)
    (htimer : (run step (opened now) events).timers side = some timer) :
    timer.running ∧ timer.timedOut = false := by
  have hrounds : gap slack + delay + delay < milliseconds (timeoutThresholdMs + 1) := by
    unfold gap wait
    omega
  have hstep : ∀ conversation event, Alive slack delay conversation →
      Timely slack delay conversation event → Alive slack delay (conversation.step event) :=
    fun _ _ halive hevent => alive_step hrounds halive hevent
  have hsteady :=
    (invariant_run hstep (alive_opened slack delay now) htimely).steady side timer htimer
  exact ⟨hsteady.running, hsteady.lives⟩

def slowEvents : List Event :=
  [.elapse (milliseconds 1000), .deliver .server, .elapse (milliseconds 5000), .check .client,
    .elapse (milliseconds 1000), .check .server, .send .server, .elapse (milliseconds 500),
    .deliver .client, .elapse (milliseconds 4500), .check .client, .elapse (milliseconds 1000),
    .check .server, .deliver .server, .elapse (milliseconds 1000), .deliver .client,
    .elapse (milliseconds 4000), .check .client]

theorem keeps_running_slow :
    ∃ timer, (run step (opened 0) slowEvents).timers .client = some timer ∧
      timer.running ∧ timer.timedOut = false := by
  have htimely : StepsMeet step (Timely (milliseconds 1000) (milliseconds 1000)) (opened 0)
      slowEvents := by decide +kernel
  have htimer : ((run step (opened 0) slowEvents).timers .client).isSome := by decide +kernel
  obtain ⟨timer, htimer⟩ := Option.isSome_iff_exists.mp htimer
  exact ⟨timer, htimer, keeps_running (by decide) htimely htimer⟩

end Steps

end DanWs.LiveHeartbeats
