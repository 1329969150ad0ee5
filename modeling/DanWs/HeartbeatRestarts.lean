import DanWs.ClientLifecycle

namespace DanWs.HeartbeatRestarts

open DanWs.ClientLifecycle (HeartbeatManager)
open DanWs.StepRuns

inductive Thread where
  | timer
  | other
  deriving DecidableEq, Repr

inductive Call where
  | start
  | stop
  | received
  deriving DecidableEq, Repr

/-- The calls that a timeout comes with are those that `onTimeout_` makes. Calls that
`onSend_` makes, on the same thread, are not among the events. -/
inductive Event where
  | call (call : Call)
  | timeout (calls : List Call)
  deriving DecidableEq, Repr

/-- `mutexHeld` means that the timer thread keeps `mutex_` for good, and
`terminated` that the program has ended in `std::terminate`. -/
structure ManagedHeartbeat where
  heartbeat : HeartbeatManager
  mutexHeld : Bool
  joinedSelf : Bool
  terminated : Bool
  deriving DecidableEq, Repr

namespace ManagedHeartbeat

def new : ManagedHeartbeat := ⟨HeartbeatManager.new, false, false, false⟩

section Calls

variable (managed : ManagedHeartbeat)

/-- `stop()` on one of the threads. It joins the timer thread if it holds one. -/
def stop (thread : Thread) : ManagedHeartbeat :=
  match thread with
  | .other => { managed with heartbeat := managed.heartbeat.stop }
  | .timer =>
      if managed.heartbeat.running then
        { managed with
          heartbeat := ⟨false, true, managed.heartbeat.joinable⟩
          joinedSelf := managed.joinedSelf || managed.heartbeat.joinable }
      else managed

/-- `start()` on a thread other than the timer thread. It locks `mutex_` before
it assigns the new thread. -/
def start : ManagedHeartbeat :=
  if managed.mutexHeld then managed.stop .other
  else
    match managed.heartbeat.start with
    | none => { managed.stop .other with terminated := true }
    | some heartbeat => { managed with heartbeat }

end Calls

/-- `onTimeout_` on the timer thread, which has locked `mutex_`: a call that locks
it again never returns. -/
def onTimeout (managed : ManagedHeartbeat) : List Call → ManagedHeartbeat
  | [] => { managed with mutexHeld := false }
  | .stop :: calls => onTimeout (managed.stop .timer) calls
  | .start :: _ => managed.stop .timer
  | .received :: _ => managed

/-- Only a timer loop that runs can find a timeout. -/
def step (managed : ManagedHeartbeat) (event : Event) : ManagedHeartbeat :=
  if managed.terminated then managed
  else
    match event with
    | .call .start => managed.start
    | .call .stop => managed.stop .other
    | .call .received => managed
    | .timeout calls =>
        if managed.heartbeat.running then
          onTimeout
            { managed with heartbeat := managed.heartbeat.timeout, mutexHeld := true } calls
        else managed

/-- `~HeartbeatManager()`, with the destruction of the thread object behind it. -/
def destroy (managed : ManagedHeartbeat) : ManagedHeartbeat :=
  if managed.terminated then managed
  else { managed.stop .other with terminated := (managed.stop .other).heartbeat.joinable }

end ManagedHeartbeat

open ManagedHeartbeat

/-- The manager lives through the calls and its destruction. -/
structure Safe (events : List Event) : Prop where
  lives : (run step new events).destroy.terminated = false
  joins : (run step new events).destroy.joinedSelf = false

def NoTimeout (managed : ManagedHeartbeat) : Event → Prop
  | .call _ => True
  | .timeout _ => managed.heartbeat.running = false

/-- A thread object that runs, or none. -/
structure Clean (managed : ManagedHeartbeat) : Prop where
  lives : managed.terminated = false
  free : managed.mutexHeld = false
  joinable : managed.heartbeat.joinable = managed.heartbeat.running

/-- A thread that has run to its end is still there, and `stop()` passes it by. -/
def Left (managed : ManagedHeartbeat) : Prop :=
  managed.terminated = true ∨
    managed.heartbeat.running = false ∧ managed.heartbeat.joinable = true

section Steps

variable {managed : ManagedHeartbeat}

theorem stop_of_stopped (h : managed.heartbeat.running = false) (thread : Thread) :
    managed.stop thread = managed := by
  cases thread with
  | timer => rw [stop, h, if_neg Bool.false_ne_true]
  | other => rw [stop, HeartbeatManager.stop, h, if_neg Bool.false_ne_true]

/-- `onTimeout_` runs with `running_` cleared, so that its calls of `stop()` do nothing. -/
theorem heartbeat_onTimeout (h : managed.heartbeat.running = false) (calls : List Call) :
    (managed.onTimeout calls).heartbeat = managed.heartbeat ∧
      (managed.onTimeout calls).joinedSelf = managed.joinedSelf ∧
      (managed.onTimeout calls).terminated = managed.terminated := by
  induction calls with
  | nil => exact ⟨rfl, rfl, rfl⟩
  | cons call calls ih =>
      cases call with
      | start =>
          rw [onTimeout, stop_of_stopped h]
          exact ⟨rfl, rfl, rfl⟩
      | stop =>
          rw [onTimeout, stop_of_stopped h]
          exact ih
      | received => exact ⟨rfl, rfl, rfl⟩

theorem joinedSelf_start (managed : ManagedHeartbeat) :
    managed.start.joinedSelf = managed.joinedSelf := by
  rw [start]
  split
  · rfl
  · split <;> rfl

theorem joinedSelf_step (managed : ManagedHeartbeat) (event : Event) :
    (managed.step event).joinedSelf = managed.joinedSelf := by
  rw [step.eq_def]
  split
  · rfl
  · split
    · exact joinedSelf_start managed
    · rfl
    · rfl
    · split
      · exact (heartbeat_onTimeout rfl _).2.1
      · rfl

theorem clean_step (h : Clean managed) {event : Event} (hevent : NoTimeout managed event) :
    Clean (managed.step event) := by
  obtain ⟨⟨running, stopRequested, joinable⟩, mutexHeld, joinedSelf, terminated⟩ := managed
  obtain ⟨hlives, hfree, hjoinable⟩ := h
  dsimp only at hlives hfree hjoinable
  subst hlives hfree hjoinable
  cases event with
  | call call =>
      cases call with
      | start => cases joinable <;> exact ⟨rfl, rfl, rfl⟩
      | stop => cases joinable <;> exact ⟨rfl, rfl, rfl⟩
      | received => exact ⟨rfl, rfl, rfl⟩
  | timeout calls =>
      obtain rfl : joinable = false := hevent
      exact ⟨rfl, rfl, rfl⟩

theorem left_of_timeout (h : Clean managed) {event : Event}
    (hevent : ¬ NoTimeout managed event) : Left (managed.step event) := by
  cases event with
  | call call => exact absurd trivial hevent
  | timeout calls =>
      have hrunning : managed.heartbeat.running = true := Bool.eq_true_of_not_eq_false hevent
      right
      rw [step.eq_def, if_neg (by simp [h.lives])]
      dsimp only
      rw [if_pos hrunning, (heartbeat_onTimeout rfl calls).1]
      exact ⟨rfl, h.joinable.trans hrunning⟩

theorem left_step (h : Left managed) (event : Event) : Left (managed.step event) := by
  rcases h with hterminated | ⟨hstopped, hjoinable⟩
  · rw [step.eq_def, if_pos hterminated]
    exact Or.inl hterminated
  · rw [step.eq_def]
    split
    · next hterminated => exact Or.inl hterminated
    · split
      · rw [start, stop_of_stopped hstopped]
        split
        · exact Or.inr ⟨hstopped, hjoinable⟩
        · have hstart : managed.heartbeat.start = none := by
            rw [HeartbeatManager.start, HeartbeatManager.stop, hstopped,
              if_neg Bool.false_ne_true, if_pos hjoinable]
          rw [hstart]
          exact Or.inl rfl
      · rw [stop_of_stopped hstopped]
        exact Or.inr ⟨hstopped, hjoinable⟩
      · exact Or.inr ⟨hstopped, hjoinable⟩
      · rw [hstopped, if_neg Bool.false_ne_true]
        exact Or.inr ⟨hstopped, hjoinable⟩

theorem terminated_destroy_of_clean (h : Clean managed) : managed.destroy.terminated = false := by
  obtain ⟨⟨running, stopRequested, joinable⟩, mutexHeld, joinedSelf, terminated⟩ := managed
  obtain ⟨hlives, hfree, hjoinable⟩ := h
  dsimp only at hlives hfree hjoinable
  subst hlives hfree hjoinable
  cases joinable <;> rfl

theorem terminated_destroy_of_left (h : Left managed) : managed.destroy.terminated = true := by
  rw [destroy]
  split
  · next hterminated => exact hterminated
  · next hlives =>
      obtain ⟨hstopped, hjoinable⟩ := h.resolve_left hlives
      rw [stop_of_stopped hstopped]
      exact hjoinable

end Steps

section Runs

theorem joinedSelf_run (events : List Event) : (run step new events).joinedSelf = false := by
  have hstep : ∀ managed event, managed.joinedSelf = false → True →
      (step managed event).joinedSelf = false :=
    fun managed event h _ => (joinedSelf_step managed event).trans h
  exact invariant_run hstep rfl (stepsMeet_of_forall fun _ _ => trivial)

theorem joinedSelf_destroy (managed : ManagedHeartbeat) :
    managed.destroy.joinedSelf = managed.joinedSelf := by
  rw [destroy]
  split <;> rfl

/-- The timer thread never joins itself, and the manager lives through its calls
and its destruction exactly if no timeout is ever found. -/
theorem safe_iff (events : List Event) :
    (Safe events ↔ StepsMeet step NoTimeout new events) ∧
      (run step new events).destroy.joinedSelf = false := by
  have hjoins : (run step new events).destroy.joinedSelf = false := by
    rw [joinedSelf_destroy, joinedSelf_run]
  refine ⟨?_, hjoins⟩
  have hlives : (run step new events).destroy.terminated = false ↔
      StepsMeet step NoTimeout new events := by
    have hrejected : ∀ managed, Left managed → ¬ managed.destroy.terminated = false :=
      fun managed hleft => by simp [terminated_destroy_of_left hleft]
    exact run_iff_stepsMeet (fun _ _ hclean => clean_step hclean)
      (fun _ _ hclean => left_of_timeout hclean) (fun _ event hleft => left_step hleft event)
      (fun _ => terminated_destroy_of_clean)
      hrejected ⟨rfl, rfl, rfl⟩ events
  exact ⟨fun h => hlives.mp h.lives, fun h => ⟨hlives.mpr h, hjoins⟩⟩

/-- A connection that times out and is opened again. -/
theorem not_safe : ¬ ∀ events, Safe events := by
  intro h
  exact absurd (h [.call .start, .timeout [.stop], .call .start]).lives (by decide)

end Runs

end DanWs.HeartbeatRestarts
