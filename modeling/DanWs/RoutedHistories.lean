import DanWs.ClientHistories
import DanWs.TopicRouting

namespace DanWs.RoutedHistories

open DanWs.ClientHistories
open DanWs.ClientLifecycle
open DanWs.ClientMaps
open DanWs.Clients
open DanWs.MapChanges
open DanWs.StepRuns
open DanWs.TopicMemory
open DanWs.TopicRouting
open DanWs.WireTypes

/-- A frame is handled as a whole, and its callbacks are calls that follow. -/
def takeWhole (live : LiveClient) (frame : Frame) : LiveClient := live.take (.frame frame)

/-- A frame gives no remembered key id a path of another topic, and deletes no key
of a topic while there are topics to look up. -/
def KeepsRoutes (client : Client) (frame : Frame) : Prop :=
  KeepsTopic client.registry client.topicKeyCache frame ∧ DeletesNoTopicKey client frame

/-- The memory of the topics agrees with the paths, and the values of a frame go
where the paths lead. -/
structure Sound (m : Maps) : Prop where
  consistent : Consistent m
  named : Named m
  coherent : Coherent m

theorem sound_new (uuidBytes : List UInt8) (options : ReconnectOptions) :
    Sound (maps (LiveClient.new uuidBytes options).client) := by
  refine ⟨consistent_new, fun keyId entry hentry => ?_, fun keyId info entry hinfo => ?_⟩
  · cases hentry
  · cases hinfo

theorem sound_takeWhole_iff (live : LiveClient) (frame : Frame) (h : Sound (maps live.client)) :
    Sound (maps (takeWhole live frame).client) ↔
      KeepsTopic live.client.registry live.client.topicKeyCache frame := by
  have hchanges := changes_handleFrame live.client frame
  have hiff := coherent_changes_iff h.consistent h.coherent hchanges
  refine ⟨fun hsound => hiff.mp hsound.coherent, fun hkeeps => ?_⟩
  exact ⟨consistent_changes h.consistent hchanges, named_changes h.named hchanges,
    hiff.mpr hkeeps⟩

section Histories

variable (uuidBytes : List UInt8) (options : ReconnectOptions) (events : List (Event Frame))

def after (before : List (Event Frame)) : LiveClient :=
  run (step takeWhole) (LiveClient.new uuidBytes options) before

theorem consistent_named_after (before : List (Event Frame)) :
    Consistent (maps (after uuidBytes options before).client) ∧
      Named (maps (after uuidBytes options before).client) := by
  have hnew := sound_new uuidBytes options
  have hframe : ∀ live frame, Consistent (maps live.client) ∧ Named (maps live.client) →
      Consistent (maps (takeWhole live frame).client) ∧
        Named (maps (takeWhole live frame).client) := by
    rintro live frame ⟨hconsistent, hnamed⟩
    have hchanges := changes_handleFrame live.client frame
    exact ⟨consistent_changes hconsistent hchanges, named_changes hnamed hchanges⟩
  exact maps_run (motive := fun m => Consistent m ∧ Named m) hframe
    ⟨hnew.consistent, hnew.named⟩ before

/-- The remembered topics are right throughout exactly when no frame makes one wrong. -/
theorem keepsTopic_throughout_iff :
    (∀ before, before <+: events → Coherent (maps (after uuidBytes options before).client)) ↔
      StepsMeet (step takeWhole)
        (OnFrames fun client frame => KeepsTopic client.registry client.topicKeyCache frame)
        (LiveClient.new uuidBytes options) events := by
  rw [← forall_prefix_iff_stepsMeet (maps_step_iff sound_takeWhole_iff)
    (sound_new uuidBytes options) events]
  refine forall₂_congr fun before _ => ⟨fun hcoherent => ?_, Sound.coherent⟩
  obtain ⟨hconsistent, hnamed⟩ := consistent_named_after uuidBytes options before
  exact ⟨hconsistent, hnamed, hcoherent⟩

/-- Throughout the life of a client the remembered topics are those of the current paths, and
the values of every frame are routed by them, exactly when every frame meets the condition. -/
theorem routed_throughout_iff :
    ((∀ before, before <+: events →
        Coherent (maps (after uuidBytes options before).client)) ∧
      ∀ before frame, before ++ [.frame frame] <+: events →
        (after uuidBytes options before).terminated = false →
        Routed (after uuidBytes options before).client frame) ↔
      StepsMeet (step takeWhole) (OnFrames KeepsRoutes) (LiveClient.new uuidBytes options)
        events := by
  have hrouted : ∀ before, Coherent (maps (after uuidBytes options before).client) → ∀ frame,
      (Routed (after uuidBytes options before).client frame ↔
        DeletesNoTopicKey (after uuidBytes options before).client frame) := by
    intro before hcoherent frame
    obtain ⟨hconsistent, hnamed⟩ := consistent_named_after uuidBytes options before
    exact routed_iff hconsistent hcoherent hnamed
  constructor
  · rintro ⟨hcoherent, hroutes⟩
    have hkeeps := onFrames_iff_prefixes.mp
      ((keepsTopic_throughout_iff uuidBytes options events).mp hcoherent)
    rw [onFrames_iff_prefixes]
    intro before frame hbefore hrunning
    have hprefix := hcoherent before ((List.prefix_append before [.frame frame]).trans hbefore)
    exact ⟨hkeeps before frame hbefore hrunning,
      (hrouted before hprefix frame).mp (hroutes before frame hbefore hrunning)⟩
  · intro h
    have hcoherent := (keepsTopic_throughout_iff uuidBytes options events).mpr
      (stepsMeet_mono (fun _ _ hevent => hevent.mono fun _ _ hkeeps => hkeeps.1) h)
    refine ⟨hcoherent, fun before frame hbefore hrunning => ?_⟩
    have hprefix := hcoherent before ((List.prefix_append before [.frame frame]).trans hbefore)
    have hkeeps := onFrames_iff_prefixes.mp h before frame hbefore hrunning
    exact (hrouted before hprefix frame).mpr hkeeps.2

/-- The handle of the topic is there, and the value of its key goes to `onReceive_`. -/
theorem not_routed_throughout :
    ¬ ∀ (uuidBytes : List UInt8) (options : ReconnectOptions) (events : List (Event Frame)),
      (∀ before, before <+: events →
        Coherent (maps (after uuidBytes options before).client)) ∧
      ∀ before frame, before ++ [.frame frame] <+: events →
        (after uuidBytes options before).terminated = false →
        Routed (after uuidBytes options before).client frame := by
  intro h
  let subscribed : List (Event Frame) :=
    [.other (.connect .starts .starts) (by simp), .other .opened (by simp),
      .other (.input (.subscribe (str "board") ∅)) (by simp)]
  let told : List (Event Frame) :=
    [.frame ⟨.serverKeyRegistration, 1, .varInteger, .string (str "a")⟩,
      .frame ⟨.serverValue, 1, .varInteger, .int32 1⟩,
      .frame ⟨.serverKeyRegistration, 1, .varInteger, .string (str "t.0.a")⟩]
  have hrouted := (h (List.replicate 16 7) ⟨true, 0⟩ _).2 (subscribed ++ told)
    ⟨.serverValue, 1, .varInteger, .int32 2⟩ List.prefix_rfl (by decide +kernel)
  exact absurd hrouted (by decide +kernel)

end Histories

end DanWs.RoutedHistories
