import DanWs.HeartbeatTimes

namespace DanWs.LostHeartbeats

open DanWs.HeartbeatTimes
open DanWs.HeartbeatTimes.Conversation
open DanWs.StepRuns

section Losses

variable {slack delay : Nat} {conversation : Conversation} {event : Event} {side : Side}
  {timer : HeartbeatTimer}

def Hears (side : Side) (conversation : Conversation) (event : Event) : Prop :=
  event = .deliver side ∧
    (conversation.inbound side).head?.map Parcel.item = some .heartbeat

instance (side : Side) (conversation : Conversation) (event : Event) :
    Decidable (Hears side conversation event) :=
  inferInstanceAs (Decidable (_ ∧ _))

theorem timers_step_cases (conversation : Conversation) (event : Event) (side : Side) :
    (conversation.step event).timers side = conversation.timers side ∨
      (∃ timer, conversation.timers side = some timer ∧ timer.running ∧
        (conversation.step event).timers side = some (timer.check conversation.now).1) ∨
      (Hears side conversation event ∧ ∃ timer, conversation.timers side = some timer ∧
        (conversation.step event).timers side = some (timer.received conversation.now)) ∨
      conversation.timers side = none ∧
        (conversation.step event).timers side = some (.start conversation.now) := by
  cases event with
  | elapse duration => exact .inl rfl
  | send sender => exact .inl rfl
  | check checked =>
      rw [step]
      cases htimer : conversation.timers checked with
      | none => exact .inl rfl
      | some timer =>
          dsimp only
          split
          · next hrunning =>
              have hput : (conversation.checkTimer checked timer).timers =
                  Function.update conversation.timers checked
                    (some (timer.check conversation.now).1) := by
                rw [checkTimer]
                dsimp only
                split <;> rfl
              rw [hput]
              rcases eq_or_ne side checked with rfl | hne
              · rw [Function.update_self]
                exact .inr (.inl ⟨timer, htimer, hrunning, rfl⟩)
              · exact .inl (Function.update_of_ne hne _ _)
          · exact .inl rfl
  | deliver reader =>
      rw [step]
      cases hinbound : conversation.inbound reader with
      | nil => exact .inl rfl
      | cons parcel parcels =>
          have htimers : (conversation.take reader parcels).timers reader =
              conversation.timers reader := rfl
          dsimp only
          cases hitem : parcel.item with
          | other => exact .inl rfl
          | identify =>
              rw [handle, htimers]
              cases htimer : conversation.timers reader with
              | some timer => exact .inl rfl
              | none =>
                  dsimp only [put]
                  rcases eq_or_ne side reader with rfl | hne
                  · exact .inr (.inr (.inr ⟨htimer, Function.update_self _ _ _⟩))
                  · exact .inl (Function.update_of_ne hne _ _)
          | heartbeat =>
              rw [handle, htimers]
              cases htimer : conversation.timers reader with
              | none => exact .inl rfl
              | some timer =>
                  dsimp only [put]
                  rcases eq_or_ne side reader with rfl | hne
                  · refine .inr (.inr (.inl ⟨⟨rfl, ?_⟩, timer, htimer, Function.update_self _ _ _⟩))
                    rw [hinbound, List.head?_cons, Option.map_some, hitem]
                  · exact .inl (Function.update_of_ne hne _ _)

/-- A timer that goes round has not overslept, and had not waited too long when it last
looked. One that does not has given the other side up. -/
structure Attentive (slack now : Nat) (timer : HeartbeatTimer) : Prop where
  begun : timer.waitingSince ≤ now
  ends : timer.running → now ≤ timer.waitingSince + wait slack
  heard : timer.running →
    timer.waitingSince < timer.lastReceived + milliseconds (timeoutThresholdMs + 1)
  stopped : timer.running = false → timer.timedOut

theorem attentive_check (h : Attentive slack conversation.now timer) :
    Attentive slack conversation.now (timer.check conversation.now).1 := by
  rcases check_cases timer conversation.now with ⟨-, heq⟩ | ⟨hheard, ⟨-, heq⟩ | ⟨-, heq⟩⟩
  · rw [heq]
    exact ⟨h.begun, fun hrunning => absurd hrunning Bool.false_ne_true,
      fun hrunning => absurd hrunning Bool.false_ne_true, fun _ => rfl⟩
  · rw [heq]
    exact ⟨Nat.le_refl _, fun _ => Nat.le_add_right _ _, fun _ => hheard, h.stopped⟩
  · rw [heq]
    exact ⟨Nat.le_refl _, fun _ => Nat.le_add_right _ _, fun _ => hheard, h.stopped⟩

theorem attentive_of_heard (h : Attentive slack conversation.now timer) :
    Attentive slack conversation.now (timer.received conversation.now) :=
  ⟨h.begun, h.ends, fun _ => Nat.lt_of_le_of_lt h.begun
    (Nat.lt_add_of_pos_right (by decide)), h.stopped⟩

theorem attentive_start (slack now : Nat) : Attentive slack now (.start now) :=
  ⟨Nat.le_refl now, fun _ => Nat.le_add_right now _,
    fun _ => Nat.lt_add_of_pos_right (by decide),
    fun hstopped => absurd hstopped (Bool.false_ne_true ∘ Eq.symm)⟩

theorem now_handle (conversation : Conversation) (side : Side) (item : Item) :
    (conversation.handle side item).now = conversation.now := by
  unfold handle
  split
  · split <;> rfl
  · split <;> rfl
  · rfl

theorem now_step (h : ∀ duration, event ≠ .elapse duration) :
    (conversation.step event).now = conversation.now := by
  unfold step
  split
  · next duration => exact absurd rfl (h duration)
  · split
    · rfl
    · split
      · rw [checkTimer]
        dsimp only
        split <;> rfl
      · rfl
  · split
    · rfl
    · exact now_handle _ _ _
  · rfl

theorem attentive_step
    (h : ∀ side, ∀ timer ∈ conversation.timers side, Attentive slack conversation.now timer)
    (htimely : Timely slack delay conversation event) (side : Side) :
    ∀ timer ∈ (conversation.step event).timers side,
      Attentive slack (conversation.step event).now timer := by
  intro timer htimer
  by_cases hpasses : ∃ duration, event = .elapse duration
  · obtain ⟨duration, rfl⟩ := hpasses
    obtain ⟨hbegun, -, hheard, hstopped⟩ := h side timer htimer
    exact ⟨hbegun.trans (Nat.le_add_right _ _), (htimely side).1 timer htimer, hheard, hstopped⟩
  · rw [now_step fun duration heq => hpasses ⟨duration, heq⟩]
    obtain hsame | ⟨before, hbefore, -, hafter⟩ | ⟨-, before, hbefore, hafter⟩ | ⟨-, hafter⟩ :=
      timers_step_cases conversation event side
    · exact h side timer (hsame ▸ htimer)
    · obtain rfl := Option.some.inj (hafter.symm.trans htimer)
      exact attentive_check (h side before hbefore)
    · obtain rfl := Option.some.inj (hafter.symm.trans htimer)
      exact attentive_of_heard (h side before hbefore)
    · obtain rfl := Option.some.inj (hafter.symm.trans htimer)
      exact attentive_start slack _

theorem attentive_run {now : Nat} {events : List Event}
    (htimely : StepsMeet step (Timely slack delay) (opened now) events) (side : Side) :
    ∀ timer ∈ (run step (opened now) events).timers side,
      Attentive slack (run step (opened now) events).now timer := by
  have hopened : ∀ side, ∀ timer ∈ (opened now).timers side,
      Attentive slack (opened now).now timer := by
    intro side timer htimer
    cases side with
    | client =>
        obtain rfl : HeartbeatTimer.start now = timer := Option.some.inj htimer
        exact attentive_start slack now
    | server => cases htimer
  have hstep : ∀ conversation event,
      (∀ side, ∀ timer ∈ conversation.timers side, Attentive slack conversation.now timer) →
      Timely slack delay conversation event →
      ∀ side, ∀ timer ∈ (conversation.step event).timers side,
        Attentive slack (conversation.step event).now timer :=
    fun _ _ hattentive hevent => attentive_step hattentive hevent
  exact invariant_run hstep hopened htimely side

/-- A timer keeps what it has last received until it hears a heartbeat. -/
theorem lastReceived_step {time : Nat} (h : conversation.lastReceived side = some time)
    (hsilent : ¬ Hears side conversation event) :
    (conversation.step event).lastReceived side = some time := by
  obtain ⟨timer, htimer, rfl⟩ := Option.map_eq_some_iff.mp h
  obtain hsame | ⟨before, hbefore, -, hafter⟩ | ⟨hhears, -⟩ | ⟨hnone, -⟩ :=
    timers_step_cases conversation event side
  · rw [lastReceived, hsame]
    exact h
  · obtain rfl := Option.some.inj (hbefore.symm.trans htimer)
    rw [lastReceived, hafter, Option.map_some]
    rcases check_cases before conversation.now with ⟨-, heq⟩ | ⟨-, ⟨-, heq⟩ | ⟨-, heq⟩⟩
    · rw [heq]
    · rw [heq]
    · rw [heq]
  · exact absurd hhears hsilent
  · cases hnone.symm.trans htimer

theorem lastReceived_run {time : Nat} (h : conversation.lastReceived side = some time)
    {events : List Event}
    (hsilent : StepsMeet step (fun conversation event => ¬ Hears side conversation event)
      conversation events) :
    (run step conversation events).lastReceived side = some time := by
  have hstep : ∀ conversation event, lastReceived conversation side = some time →
      ¬ Hears side conversation event →
      (conversation.step event).lastReceived side = some time :=
    fun _ _ hreceived hevent => lastReceived_step hreceived hevent
  exact invariant_run hstep h hsilent

/-- A side that hears nothing any more gives the other one up, at the first round behind
the threshold. -/
theorem timedOut_of_silent {now : Nat} {before after : List Event}
    (htimely : StepsMeet step (Timely slack delay) (opened now) (before ++ after)) {time : Nat}
    (hreceived : (run step (opened now) before).lastReceived side = some time)
    (hsilent : StepsMeet step (fun conversation event => ¬ Hears side conversation event)
      (run step (opened now) before) after)
    (hlong : time + milliseconds (timeoutThresholdMs + 1) + (milliseconds checkIntervalMs + slack) ≤
      (run step (opened now) (before ++ after)).now) :
    ∃ timer, (run step (opened now) (before ++ after)).timers side = some timer ∧
      timer.timedOut := by
  have hlast := lastReceived_run hreceived hsilent
  rw [← run_append] at hlast
  obtain ⟨timer, htimer, rfl⟩ := Option.map_eq_some_iff.mp hlast
  obtain ⟨-, hends, hheard, hstopped⟩ := attentive_run htimely side timer htimer
  refine ⟨timer, htimer, hstopped (Bool.eq_false_iff.mpr fun hrunning => ?_)⟩
  have hnow := hends hrunning
  have htime := hheard hrunning
  unfold wait at hnow
  omega

def silentEvents : List Event :=
  (List.replicate 4 [.elapse (milliseconds 5000), .check .client, .check .server]).flatten ++
    [.elapse (milliseconds 1)]

theorem timedOut_of_silent_rounds :
    ∃ timer, (run step (opened 0) ([.deliver .server] ++ silentEvents)).timers .client =
        some timer ∧ timer.timedOut := by
  have htimely : StepsMeet step (Timely 0 (milliseconds 60000)) (opened 0)
      ([.deliver .server] ++ silentEvents) := by decide +kernel
  have hsilent : StepsMeet step (fun conversation event => ¬ Hears .client conversation event)
      (run step (opened 0) [.deliver .server]) silentEvents := by decide +kernel
  have hreceived : (run step (opened 0) [.deliver .server]).lastReceived .client = some 0 := by
    decide +kernel
  exact timedOut_of_silent htimely hreceived hsilent (by decide +kernel)

end Losses

end DanWs.LostHeartbeats
