import DanWs.ClientLifecycle
import DanWs.ClientMaps

namespace DanWs.ClientHistories

open DanWs.ClientCalls
open DanWs.ClientLifecycle
open DanWs.Clients
open DanWs.MapChanges
open DanWs.StepRuns

/-- Code outside of `handleFrame` may do anything to the client but reach the maps
that are keyed by key ids. -/
structure Callback where
  run : Client → Client
  keeps : ∀ client, maps (run client) = maps client

section Others

variable (live : LiveClient)

theorem maps_handleOpen : maps live.handleOpen.client = maps live.client := by
  rw [LiveClient.handleOpen]
  split
  · rfl
  · dsimp only
    rw [handleOpen]
    dsimp only
    split <;> rfl

theorem maps_take {input : Input} (h : ∀ frame, input ≠ .frame frame) :
    maps (live.take input).client = maps live.client := by
  rw [LiveClient.take]
  dsimp only
  rw [afterInput]
  cases input with
  | frame frame => exact absurd rfl (h frame)
  | authorize token =>
      rw [take, authorize]
      split <;> rfl
  | subscribe topicName params => rfl
  | unsubscribe topicName => rfl

/-- Calls of the application, connections that open or close, the heartbeat and
the reconnect engine leave the maps alone. -/
theorem maps_lifecycle {event : ClientLifecycle.Event}
    (h : ∀ frame, event ≠ .input (.frame frame)) :
    maps (ClientLifecycle.step live event).client = maps live.client := by
  have hstable : Stable fun reached => maps reached.client = maps live.client :=
    ⟨fun _ _ _ hmaps => hmaps, fun _ hmaps => hmaps, fun _ _ _ _ _ hmaps => hmaps,
      fun _ hmaps => hmaps, fun _ hmaps => hmaps⟩
  refine stable_step hstable rfl rfl (fun _ _ => maps_handleOpen live) fun input hinput => ?_
  exact maps_take live fun frame hframe => h frame (hinput.trans (congrArg _ hframe))

end Others

/-- What happens to a client from its construction on, where `φ` says what there
is to a frame that arrives. -/
inductive Event (φ : Type) where
  | frame (arrival : φ)
  | other (event : ClientLifecycle.Event) (h : ∀ frame, event ≠ .input (.frame frame))
  | call (callback : Callback)

section Histories

variable {φ : Type} (takeFrame : LiveClient → φ → LiveClient)

def step (live : LiveClient) : Event φ → LiveClient
  | .frame arrival => if live.terminated then live else takeFrame live arrival
  | .other event _ => ClientLifecycle.step live event
  | .call callback =>
      if live.terminated then live else { live with client := callback.run live.client }

/-- A condition on the frames that are taken. -/
def OnFrames (condition : Client → φ → Prop) (live : LiveClient) : Event φ → Prop
  | .frame arrival => live.terminated = false → condition live.client arrival
  | _ => True

variable {takeFrame} {condition : Client → φ → Prop} {live : LiveClient} {events : List (Event φ)}

theorem OnFrames.mono {weaker : Client → φ → Prop}
    (hweaker : ∀ client arrival, condition client arrival → weaker client arrival)
    {live : LiveClient} {event : Event φ} (h : OnFrames condition live event) :
    OnFrames weaker live event := by
  cases event with
  | frame arrival => exact fun hrunning => hweaker live.client arrival (h hrunning)
  | other event hother => trivial
  | call callback => trivial

theorem maps_step_call (callback : Callback) :
    maps (step takeFrame live (.call callback)).client = maps live.client := by
  rw [step]
  split
  · rfl
  · exact callback.keeps live.client

theorem onFrames_iff_prefixes :
    StepsMeet (step takeFrame) (OnFrames condition) live events ↔
      ∀ before arrival, before ++ [.frame arrival] <+: events →
        (run (step takeFrame) live before).terminated = false →
        condition (run (step takeFrame) live before).client arrival := by
  rw [stepsMeet_iff_prefixes]
  constructor
  · exact fun h before arrival hbefore => h before (.frame arrival) hbefore
  · intro h before event hbefore
    cases event with
    | frame arrival => exact h before arrival hbefore
    | other event hother => trivial
    | call callback => trivial

theorem maps_step_iff {motive : Maps → Prop}
    (hframe : ∀ live arrival, motive (maps live.client) →
      (motive (maps (takeFrame live arrival).client) ↔ condition live.client arrival))
    (live : LiveClient) (event : Event φ) (h : motive (maps live.client)) :
    motive (maps (step takeFrame live event).client) ↔ OnFrames condition live event := by
  cases event with
  | frame arrival =>
      rw [step, OnFrames]
      cases hterminated : live.terminated with
      | true => exact iff_of_true h fun hrunning => Bool.noConfusion hrunning
      | false =>
          refine (hframe live arrival h).trans ?_
          exact ⟨fun hcondition _ => hcondition, fun hcondition => hcondition rfl⟩
  | other event hother =>
      rw [step, maps_lifecycle live hother]
      exact iff_of_true h trivial
  | call callback =>
      rw [maps_step_call]
      exact iff_of_true h trivial

theorem maps_step {motive : Maps → Prop}
    (hframe : ∀ live arrival, motive (maps live.client) →
      motive (maps (takeFrame live arrival).client))
    (live : LiveClient) (event : Event φ) (h : motive (maps live.client)) :
    motive (maps (step takeFrame live event).client) := by
  cases event with
  | frame arrival =>
      rw [step]
      split
      · exact h
      · exact hframe live arrival h
  | other event hother =>
      rw [step, maps_lifecycle live hother]
      exact h
  | call callback =>
      rw [maps_step_call]
      exact h

theorem maps_run {motive : Maps → Prop}
    (hframe : ∀ live arrival, motive (maps live.client) →
      motive (maps (takeFrame live arrival).client))
    (h : motive (maps live.client)) (events : List (Event φ)) :
    motive (maps (run (step takeFrame) live events).client) := by
  induction events generalizing live with
  | nil => exact h
  | cons event events ih => exact ih (maps_step hframe live event h)

end Histories

end DanWs.ClientHistories
