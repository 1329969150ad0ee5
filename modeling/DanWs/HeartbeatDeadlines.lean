import DanWs.HeartbeatTimes

namespace DanWs.HeartbeatDeadlines

open DanWs.Beacons
open DanWs.HeartbeatTimes
open DanWs.HeartbeatTimes.Conversation

section Sides

variable {conversation : Conversation} {side other : Side} {timer : HeartbeatTimer}

@[simp] theorem peer_peer (side : Side) : side.peer.peer = side := by cases side <;> rfl

theorem peer_ne (side : Side) : side.peer ≠ side := by cases side <;> simp [Side.peer]

theorem eq_or_eq_peer (side other : Side) : other = side ∨ other = side.peer := by
  cases side <;> cases other <;> simp [Side.peer]

/-- When what a timer reacts to was sent. -/
def beats (parcels : List Parcel) : List Nat :=
  (parcels.filter fun parcel => parcel.item ≠ .other).map Parcel.sentAt

theorem beats_cons (parcel : Parcel) (parcels : List Parcel) :
    beats (parcel :: parcels) =
      if parcel.item = .other then beats parcels else parcel.sentAt :: beats parcels := by
  rw [beats, List.filter_cons]
  by_cases hother : parcel.item = .other
  · simp [hother, beats]
  · simp [hother, beats]

theorem beats_concat (parcels : List Parcel) (parcel : Parcel) :
    beats (parcels ++ [parcel]) =
      if parcel.item = .other then beats parcels else beats parcels ++ [parcel.sentAt] := by
  rw [beats, List.filter_append]
  by_cases hother : parcel.item = .other
  · simp [hother, beats]
  · simp [hother, beats]

theorem mem_of_mem_beats {parcels : List Parcel} {time : Nat} (h : time ∈ beats parcels) :
    ∃ parcel ∈ parcels, parcel.sentAt = time := by
  obtain ⟨parcel, hparcel, rfl⟩ := List.mem_map.mp h
  exact ⟨parcel, (List.mem_filter.mp hparcel).1, rfl⟩

/-- A side that has no timer yet has the `Identify` frame in front of it, and no side has it
anywhere else. -/
def Introduced : Bool → List Parcel → Prop
  | false, [] => False
  | false, parcel :: parcels =>
      parcel.item = .identify ∧ ∀ later ∈ parcels, later.item ≠ .identify
  | true, parcels => ∀ parcel ∈ parcels, parcel.item ≠ .identify

theorem introduced_concat {started : Bool} {parcels : List Parcel}
    (h : Introduced started parcels) {parcel : Parcel} (hparcel : parcel.item ≠ .identify) :
    Introduced started (parcels ++ [parcel]) := by
  cases started with
  | false =>
      cases parcels with
      | nil => cases h
      | cons first parcels =>
          refine ⟨h.1, List.forall_mem_append.mpr ⟨h.2, ?_⟩⟩
          rwa [List.forall_mem_singleton]
  | true =>
      rw [Introduced, List.forall_mem_append, List.forall_mem_singleton]
      exact ⟨h, hparcel⟩

/-- The time by which a side sends its next heartbeat, from when it has last sent one. -/
def nextBy (slack delay : Nat) : Option Nat → List Parcel → Nat
  | some lastSent, _ => lastSent + gap slack
  | none, [] => 0
  | none, parcel :: _ => parcel.sentAt + delay + gap slack

theorem nextBy_concat {slack delay : Nat} {lastSent : Option Nat} {parcels : List Parcel}
    (h : Introduced lastSent.isSome parcels) (parcel : Parcel) :
    nextBy slack delay lastSent (parcels ++ [parcel]) = nextBy slack delay lastSent parcels := by
  cases lastSent with
  | none =>
      cases parcels with
      | nil => cases h
      | cons first parcels => rfl
  | some time => rfl

/-- Both sides go round, and each is about to hear the other in time. -/
structure Alive (slack delay : Nat) (conversation : Conversation) : Prop where
  steady : ∀ side, ∀ timer ∈ conversation.timers side, Steady slack conversation.now timer
  introduced : ∀ side,
    Introduced (conversation.lastSent side).isSome (conversation.inbound side)
  watch : ∀ side, Watch (gap slack + delay) delay conversation.now
    (conversation.lastReceived side) (beats (conversation.inbound side))
    (nextBy slack delay (conversation.lastSent side.peer) (conversation.inbound side.peer))

end Sides

section Steps

variable {slack delay : Nat} {conversation : Conversation} {side : Side}
  {timer : HeartbeatTimer}

theorem alive_opened (slack delay now : Nat) : Alive slack delay (opened now) where
  steady side timer htimer := by
    cases side with
    | client =>
        obtain rfl : HeartbeatTimer.start now = timer := Option.some.inj htimer
        exact steady_start slack now
    | server => cases htimer
  introduced side := by
    cases side with
    | client => exact fun parcel hparcel => absurd hparcel List.not_mem_nil
    | server => exact ⟨rfl, fun parcel hparcel => absurd hparcel List.not_mem_nil⟩
  watch side := by
    cases side with
    | client =>
        -- the first heartbeat of the session is counted from its `Identify` frame on
        have hfirst : now + delay + gap slack ≤ now + (gap slack + delay) := by omega
        refine ⟨.cons_cons hfirst (.singleton _),
          fun time htime => absurd htime List.not_mem_nil, ?_⟩
        exact (Nat.le_add_right now delay).trans (Nat.le_add_right _ _)
    | server =>
        have hfirst : now + gap slack ≤ now + (gap slack + delay) := by omega
        refine ⟨.cons_cons hfirst (.singleton _), ?_, Nat.le_add_right now _⟩
        exact List.forall_mem_singleton.mpr ⟨Nat.le_refl now, Nat.le_add_right now delay⟩

theorem alive_elapse (h : Alive slack delay conversation) {duration : Nat}
    (htimely : Timely slack delay conversation (.elapse duration)) :
    Alive slack delay (conversation.step (.elapse duration)) := by
  have hnow : conversation.now ≤ conversation.now + duration := Nat.le_add_right _ _
  have hsteady : ∀ side, ∀ timer ∈ conversation.timers side,
      Steady slack (conversation.now + duration) timer := fun side timer htimer =>
    (h.steady side timer htimer).elapse hnow
      ((htimely side).1 timer htimer (h.steady side timer htimer).running)
  refine ⟨hsteady, h.introduced, fun side => (h.watch side).elapse hnow ?_ ?_⟩
  · have hintroduced := h.introduced side.peer
    have hparcels := (htimely side.peer).2
    cases htimer : conversation.timers side.peer with
    | none =>
        rw [lastSent, htimer] at hintroduced ⊢
        cases hinbound : conversation.inbound side.peer with
        | nil =>
            rw [hinbound] at hintroduced
            cases hintroduced
        | cons parcel parcels =>
            rw [hinbound] at hparcels
            exact (hparcels parcel List.mem_cons_self).trans (Nat.le_add_right _ _)
    | some timer =>
        rw [lastSent, htimer]
        exact (hsteady side.peer timer htimer).now_le
  · intro time htime
    obtain ⟨parcel, hparcel, rfl⟩ := mem_of_mem_beats htime
    exact (htimely side).2 parcel hparcel

theorem alive_send (h : Alive slack delay conversation) (target : Side) :
    Alive slack delay (conversation.push target .other) := by
  have hsame : ∀ side,
      Introduced (conversation.lastSent side).isSome
          ((conversation.push target .other).inbound side) ∧
        beats ((conversation.push target .other).inbound side) =
          beats (conversation.inbound side) ∧
        nextBy slack delay (conversation.lastSent side)
            ((conversation.push target .other).inbound side) =
          nextBy slack delay (conversation.lastSent side) (conversation.inbound side) := by
    intro side
    rw [push]
    dsimp only
    rcases eq_or_ne side target with rfl | hne
    · rw [Function.update_self, beats_concat, if_pos rfl, nextBy_concat (h.introduced side)]
      exact ⟨introduced_concat (h.introduced side) Item.noConfusion, rfl, rfl⟩
    · rw [Function.update_of_ne hne]
      exact ⟨h.introduced side, rfl, rfl⟩
  refine ⟨h.steady, fun side => (hsame side).1, fun side => ?_⟩
  have hwatch := h.watch side
  rw [← (hsame side).2.1, ← (hsame side.peer).2.2] at hwatch
  exact hwatch

theorem steady_put (h : Alive slack delay conversation) {next : HeartbeatTimer}
    (hnext : Steady slack conversation.now next) (other : Side) :
    ∀ timer ∈ (conversation.put side next).timers other, Steady slack conversation.now timer := by
  rw [put]
  dsimp only
  rcases eq_or_ne other side with rfl | hne
  · rw [Function.update_self]
    rintro _ ⟨⟩
    exact hnext
  · rw [Function.update_of_ne hne]
    exact h.steady other

theorem lastReceived_put (htimer : conversation.timers side = some timer) {next : HeartbeatTimer}
    (hreceived : next.lastReceived = timer.lastReceived) :
    (conversation.put side next).lastReceived = conversation.lastReceived := by
  funext other
  rw [lastReceived, lastReceived, put]
  dsimp only
  rcases eq_or_ne other side with rfl | hne
  · rw [Function.update_self, htimer, Option.map_some, Option.map_some, hreceived]
  · rw [Function.update_of_ne hne]

theorem lastSent_put (htimer : conversation.timers side = some timer) {next : HeartbeatTimer}
    (hsent : next.lastSent = timer.lastSent) :
    (conversation.put side next).lastSent = conversation.lastSent := by
  funext other
  rw [lastSent, lastSent, put]
  dsimp only
  rcases eq_or_ne other side with rfl | hne
  · rw [Function.update_self, htimer, Option.map_some, Option.map_some, hsent]
  · rw [Function.update_of_ne hne]

theorem alive_put (h : Alive slack delay conversation) {next : HeartbeatTimer}
    (htimer : conversation.timers side = some timer) (hnext : Steady slack conversation.now next)
    (hreceived : next.lastReceived = timer.lastReceived) (hsent : next.lastSent = timer.lastSent) :
    Alive slack delay (conversation.put side next) := by
  refine ⟨steady_put h hnext, fun other => ?_, fun other => ?_⟩
  · rw [lastSent_put htimer hsent]
    exact h.introduced other
  · rw [lastReceived_put htimer hreceived, lastSent_put htimer hsent]
    exact h.watch other

theorem alive_beat (h : Alive slack delay conversation) {next : HeartbeatTimer}
    (htimer : conversation.timers side = some timer) (hnext : Steady slack conversation.now next)
    (hreceived : next.lastReceived = timer.lastReceived)
    (hsent : next.lastSent = conversation.now) :
    Alive slack delay ((conversation.put side next).push side.peer .heartbeat) := by
  have hlast : (conversation.put side next).lastSent side = some conversation.now := by
    rw [lastSent, put]
    dsimp only
    rw [Function.update_self, Option.map_some, hsent]
  have hothers : (conversation.put side next).lastSent side.peer =
      conversation.lastSent side.peer := by
    rw [lastSent, lastSent, put]
    dsimp only
    rw [Function.update_of_ne (peer_ne side)]
  have hinbound : ((conversation.put side next).push side.peer .heartbeat).inbound side =
      conversation.inbound side := Function.update_of_ne (peer_ne side).symm _ _
  have hpushed : ((conversation.put side next).push side.peer .heartbeat).inbound side.peer =
      conversation.inbound side.peer ++ [⟨.heartbeat, conversation.now⟩] :=
    Function.update_self _ _ _
  refine ⟨steady_put h hnext, fun other => ?_, fun other => ?_⟩
  · change Introduced ((conversation.put side next).lastSent other).isSome _
    rcases eq_or_eq_peer side other with rfl | rfl
    · have hintroduced := h.introduced other
      rw [lastSent, htimer] at hintroduced
      rw [hlast, hinbound]
      exact hintroduced
    · rw [hothers, hpushed]
      exact introduced_concat (h.introduced side.peer) Item.noConfusion
  · change Watch _ _ _ ((conversation.put side next).lastReceived other) _
      (nextBy slack delay ((conversation.put side next).lastSent other.peer) _)
    rw [lastReceived_put htimer hreceived]
    rcases eq_or_eq_peer side other with rfl | rfl
    · rw [hothers, hinbound, hpushed, nextBy_concat (h.introduced other.peer)]
      exact h.watch other
    · rw [peer_peer, hlast, hpushed, beats_concat, if_neg Item.noConfusion]
      exact (h.watch side.peer).send (Nat.le_add_right _ _) (by rw [nextBy]; omega)

theorem alive_check (hbound : gap slack + delay + delay < milliseconds (timeoutThresholdMs + 1))
    (h : Alive slack delay conversation)
    (htimely : Timely slack delay conversation (.check side)) :
    Alive slack delay (conversation.step (.check side)) := by
  rw [step]
  cases htimer : conversation.timers side with
  | none => exact h
  | some timer =>
      have hsteady := h.steady side timer htimer
      have hwatch := h.watch side
      rw [lastReceived, htimer, Option.map_some] at hwatch
      have hreceived : conversation.now <
          timer.lastReceived + milliseconds (timeoutThresholdMs + 1) := by
        have hnow := hwatch.now_le
        omega
      obtain ⟨hnext, hcheck⟩ := hsteady.check hreceived (htimely timer htimer)
      dsimp only
      rw [if_pos hsteady.running, checkTimer]
      rcases hcheck with hcheck | hcheck
      · rw [hcheck] at hnext ⊢
        exact alive_beat h htimer hnext rfl rfl
      · rw [hcheck] at hnext ⊢
        exact alive_put h htimer hnext rfl rfl

end Steps

end DanWs.HeartbeatDeadlines
