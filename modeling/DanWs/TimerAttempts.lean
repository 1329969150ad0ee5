import DanWs.ReconnectThreads

namespace DanWs.TimerAttempts

open DanWs.ClientCalls
open DanWs.ClientLifecycle (LiveClient ReconnectOptions)
open DanWs.ReconnectThreads
open DanWs.StepRuns

/-- The timer thread has not joined itself, no exception has left it, and an attempt
that failed has scheduled the next one, unless it was the last or the client is to
stay disconnected. -/
structure Fine (attempt : Attempt) : Prop where
  joins : attempt.joinedSelf = false
  caught : attempt.raised = false
  next : attempt.failed = true → attempt.live.engine.options.enabled = true →
    attempt.live.client.intentionalDisconnect = true ∨
      attempt.live.engine.timerThread = .waiting ∨ attempt.live.engine.exhausted

/-- No further attempt is due when the connection is lost: the client is to stay
disconnected, or this attempt was the last one, or reconnecting is disabled. -/
def NoneDue (live : LiveClient) : Prop :=
  live.client.intentionalDisconnect = true ∨
    if live.client.reconnectActive then (counted live).engine.exhausted
    else live.engine.options.enabled = false

/-- What may be delivered inside `connect()` on the timer thread. -/
def Harmless (live : LiveClient) : Delivery → Prop
  | .opened => True
  | .input input =>
      (isFrame input → live.client.socket ≠ none) → live.client.reconnectActive = true →
        makesReady live.client input = false
  | .closed => live.client.socket ≠ none → NoneDue live
  | .disconnect => False

def EndsWell (live : LiveClient) : Ending → Prop
  | .returns => True
  | .throws => NoneDue live
  | .throwsOther => False

section Attempts

variable {live : LiveClient} {attempt : Attempt}

/-- A cycle that has just begun allows at least one attempt. -/
theorem not_exhausted_of_first (h : live.engine.attempt = 0) :
    ¬ (counted live).engine.exhausted := by
  rintro ⟨hpositive, hless⟩
  have hfirst : (counted live).engine.attempt = 1 := by
    rw [counted, h]
    rfl
  rw [hfirst, Int32.lt_iff_toInt_lt] at hless
  rw [Int32.lt_iff_toInt_lt] at hpositive
  have hone : (1 : Int32).toInt = 1 := by decide
  have hzero : (0 : Int32).toInt = 0 := by decide
  omega

theorem closing_of_noneDue (h : NoneDue live) :
    ∃ ended, closing live = .ends ended ∧ (ended.engine.options.enabled = true →
      ended.client.intentionalDisconnect = true ∨ ended.engine.exhausted) := by
  rw [closing]
  dsimp only
  split
  · next hintentional => exact ⟨_, rfl, fun _ => Or.inl hintentional⟩
  · next hwanted =>
      have hdue := h.resolve_left hwanted
      split
      · next hactive =>
          rw [if_pos (show live.client.reconnectActive = true from hactive)] at hdue
          exact ⟨_, if_pos hdue, fun _ => Or.inr hdue⟩
      · next hinactive =>
          rw [if_neg (show ¬ live.client.reconnectActive = true from hinactive)] at hdue
          rw [if_pos hdue]
          exact ⟨_, rfl, fun henabled => absurd (hdue.symm.trans henabled) Bool.false_ne_true⟩

theorem closing_of_due (h : ¬ NoneDue live) : ∃ joining, closing live = .joins joining := by
  rw [NoneDue, not_or] at h
  obtain ⟨hwanted, hdue⟩ := h
  rw [closing]
  dsimp only
  split
  · next hintentional => exact absurd hintentional hwanted
  · split
    · next hactive =>
        rw [if_pos (show live.client.reconnectActive = true from hactive)] at hdue
        exact ⟨_, if_neg hdue⟩
    · next hinactive =>
        rw [if_neg (show ¬ live.client.reconnectActive = true from hinactive)] at hdue
        rw [if_neg hdue]
        exact ⟨_, if_neg (not_exhausted_of_first rfl)⟩

end Attempts

section Delivering

variable {attempt : Attempt}

theorem joinedSelf_close_of_joined (h : attempt.joinedSelf = true) :
    attempt.close.joinedSelf = true := by
  rw [Attempt.close]
  split
  · exact h
  · rfl

theorem joinedSelf_deliver (h : attempt.joinedSelf = true) (delivery : Delivery) :
    (attempt.deliver delivery).joinedSelf = true := by
  rw [Attempt.deliver.eq_def]
  split
  · exact h
  · cases delivery with
    | opened => dsimp only; split <;> exact h
    | input input =>
        dsimp only
        split
        · exact h
        · rw [Attempt.take]
          dsimp only
          split
          · rfl
          · exact h
    | closed =>
        dsimp only
        split
        · exact h
        · exact joinedSelf_close_of_joined h
    | disconnect => rfl

theorem fine_close (h : NoneDue attempt.live) (hjoins : attempt.joinedSelf = false)
    (hcaught : attempt.raised = false) : Fine attempt.close := by
  obtain ⟨ended, hended, hnext⟩ := closing_of_noneDue h
  rw [Attempt.close, hended]
  exact ⟨hjoins, hcaught, fun _ henabled => (hnext henabled).imp id Or.inr⟩

theorem joinedSelf_close (h : ¬ NoneDue attempt.live) : attempt.close.joinedSelf = true := by
  obtain ⟨joining, hjoins⟩ := closing_of_due h
  rw [Attempt.close, hjoins]

theorem fine_take (h : Fine attempt) {input : Input}
    (hready : attempt.live.client.reconnectActive = true →
      makesReady attempt.live.client input = false) : Fine (attempt.take input) := by
  have hkeeps : ¬ (attempt.live.client.reconnectActive = true ∧
      ¬ (afterInput attempt.live.client input).reconnectActive = true) := by
    rintro ⟨hactive, hstopped⟩
    rw [reconnectActive_afterInput, hactive, hready hactive] at hstopped
    exact hstopped rfl
  rw [Attempt.take, if_neg hkeeps]
  refine ⟨h.joins, h.caught, fun hfailed henabled => ?_⟩
  have hengine : (attempt.live.take input).engine = attempt.live.engine := if_neg hkeeps
  rw [hengine] at henabled ⊢
  exact (h.next hfailed henabled).imp (intentionalDisconnect_afterInput input) id

theorem joinedSelf_take {input : Input} (hactive : attempt.live.client.reconnectActive = true)
    (hready : makesReady attempt.live.client input = true) :
    (attempt.take input).joinedSelf = true := by
  have hstopped : ¬ (afterInput attempt.live.client input).reconnectActive = true := by
    rw [reconnectActive_afterInput, hready]
    simp
  rw [Attempt.take, if_pos ⟨hactive, hstopped⟩]

theorem fine_handleOpen (h : Fine attempt) :
    Fine { attempt with live := attempt.live.handleOpen } := by
  refine ⟨h.joins, h.caught, fun hfailed henabled => ?_⟩
  have hflags : attempt.live.handleOpen.engine = attempt.live.engine ∧
      attempt.live.handleOpen.client.intentionalDisconnect =
        attempt.live.client.intentionalDisconnect := by
    rw [LiveClient.handleOpen]
    split
    · exact ⟨rfl, rfl⟩
    · refine ⟨rfl, ?_⟩
      dsimp only
      rw [handleOpen]
      split <;> rfl
  dsimp only at henabled ⊢
  rw [hflags.1] at henabled
  rw [hflags.1, hflags.2]
  exact h.next hfailed henabled

/-- What is delivered to an attempt that the program outlives. -/
def HarmlessWhileAlive (attempt : Attempt) (delivery : Delivery) : Prop :=
  attempt.live.terminated = false → Harmless attempt.live delivery

theorem fine_deliver (h : Fine attempt) {delivery : Delivery}
    (hharmless : HarmlessWhileAlive attempt delivery) : Fine (attempt.deliver delivery) := by
  rw [Attempt.deliver.eq_def]
  split
  · exact h
  · next halive =>
      replace hharmless := hharmless (Bool.eq_false_of_not_eq_true (not_or.mp halive).2)
      cases delivery with
      | opened =>
          dsimp only
          split
          · exact fine_handleOpen h
          · exact h
      | input input =>
          dsimp only
          split
          · exact h
          · next hheard =>
              exact fine_take h (hharmless fun hframe hsocket => hheard ⟨hframe, hsocket⟩)
      | closed =>
          dsimp only
          split
          · exact h
          · next hsocket => exact fine_close (hharmless hsocket) h.joins h.caught
      | disconnect => exact absurd hharmless id

theorem joinedSelf_deliver_of_harmful (h : Fine attempt) {delivery : Delivery}
    (hharmful : ¬ HarmlessWhileAlive attempt delivery) :
    (attempt.deliver delivery).joinedSelf = true := by
  obtain ⟨halive, hharmful⟩ := Classical.not_imp.mp hharmful
  rw [Attempt.deliver.eq_def, if_neg (by simp [h.caught, halive])]
  cases delivery with
  | opened => exact absurd trivial hharmful
  | input input =>
      obtain ⟨hheard, hrest⟩ := Classical.not_imp.mp hharmful
      obtain ⟨hactive, hready⟩ := Classical.not_imp.mp hrest
      dsimp only
      rw [if_neg fun hdeaf => hheard hdeaf.1 hdeaf.2]
      exact joinedSelf_take hactive (Bool.eq_true_of_not_eq_false hready)
  | closed =>
      obtain ⟨hsocket, hdue⟩ := Classical.not_imp.mp hharmful
      dsimp only
      rw [if_neg hsocket]
      exact joinedSelf_close hdue
  | disconnect => rfl

def EndsWellWhileAlive (attempt : Attempt) (ending : Ending) : Prop :=
  attempt.live.terminated = false → EndsWell attempt.live ending

theorem fine_conclude_iff (h : Fine attempt) (ending : Ending) :
    Fine (attempt.conclude ending) ↔ EndsWellWhileAlive attempt ending := by
  cases halive : attempt.live.terminated with
  | true =>
      rw [Attempt.conclude, if_pos halive]
      exact iff_of_true h fun hdead => absurd (halive.symm.trans hdead) (by decide)
  | false =>
      have hends : EndsWellWhileAlive attempt ending ↔ EndsWell attempt.live ending :=
        ⟨fun hall => hall halive, fun hends _ => hends⟩
      rw [hends]
      cases ending with
      | returns =>
          have hreturns : attempt.conclude .returns =
              { attempt with live := { attempt.live with terminated := attempt.raised } } := by
            rw [Attempt.conclude, if_neg (by simp [halive])]
            simp [h.caught]
          rw [hreturns]
          exact iff_of_true ⟨h.joins, h.caught, h.next⟩ trivial
      | throws =>
          rw [Attempt.conclude_close halive h.caught]
          by_cases hdue : NoneDue attempt.live
          · have hclosed := fine_close hdue h.joins h.caught
            exact iff_of_true ⟨hclosed.joins, hclosed.caught, hclosed.next⟩ hdue
          · refine iff_of_false (fun hfine => ?_) hdue
            have hjoins := hfine.joins
            rw [show _ = attempt.close.joinedSelf from rfl, joinedSelf_close hdue] at hjoins
            exact absurd hjoins (by decide)
      | throwsOther =>
          refine iff_of_false (fun hfine => ?_) id
          have hraised := hfine.caught
          rw [Attempt.conclude, if_neg (by simp [halive])] at hraised
          simp [h.caught] at hraised

theorem joinedSelf_conclude (h : attempt.joinedSelf = true) (ending : Ending) :
    (attempt.conclude ending).joinedSelf = true := by
  rw [Attempt.conclude]
  split
  · exact h
  · dsimp only
    split
    · exact joinedSelf_close_of_joined h
    · split <;> exact h

theorem fine_dial (live : LiveClient) : Fine (.dial live) :=
  ⟨rfl, rfl, fun hfailed => Bool.noConfusion hfailed⟩

/-- Everything that is delivered inside `connect()` is harmless, and so is its end. -/
structure Undisturbed (live : LiveClient) (outcome : Outcome) : Prop where
  deliveries : StepsMeet Attempt.deliver HarmlessWhileAlive (.dial live) outcome.deliveries
  ending : EndsWellWhileAlive (run Attempt.deliver (.dial live) outcome.deliveries) outcome.ending

theorem fine_make_iff (live : LiveClient) (outcome : Outcome) :
    Fine (.make live outcome) ↔ Undisturbed live outcome := by
  have hkeep : ∀ (attempt : Attempt) delivery, Fine attempt →
      HarmlessWhileAlive attempt delivery → Fine (attempt.deliver delivery) :=
    fun _ _ hfine => fine_deliver hfine
  have hjoined : ∀ (attempt : Attempt) delivery, attempt.joinedSelf = true →
      (attempt.deliver delivery).joinedSelf = true :=
    fun _ delivery hjoined => joinedSelf_deliver hjoined delivery
  have hjoins : (run Attempt.deliver (.dial live) outcome.deliveries).joinedSelf = false ↔
      StepsMeet Attempt.deliver HarmlessWhileAlive (.dial live) outcome.deliveries :=
    run_iff_stepsMeet hkeep (fun _ _ hfine => joinedSelf_deliver_of_harmful hfine) hjoined
      (fun _ hfine => hfine.joins) (fun _ hjoined => by simp [hjoined]) (fine_dial live)
      outcome.deliveries
  by_cases hmeet : StepsMeet Attempt.deliver HarmlessWhileAlive (.dial live) outcome.deliveries
  · have hfine := invariant_run hkeep (fine_dial live) hmeet
    rw [Attempt.make, fine_conclude_iff hfine]
    exact ⟨fun hends => ⟨hmeet, hends⟩, fun h => h.ending⟩
  · refine iff_of_false (fun hfine => ?_) fun h => hmeet h.deliveries
    have hself : (run Attempt.deliver (.dial live) outcome.deliveries).joinedSelf = true :=
      Bool.eq_true_of_not_eq_false fun hnot => hmeet (hjoins.mp hnot)
    have hend := hfine.joins
    rw [Attempt.make, joinedSelf_conclude hself] at hend
    exact absurd hend (by decide)

end Delivering

def due (live : LiveClient) (outcome : Outcome) : List (LiveClient × Outcome) :=
  if live.engine.timerThread = .waiting ∧ Dials live then [(live, outcome)] else []

/-- The attempt that `handleClose()` on another thread waits for. -/
def dueInClose (live : LiveClient) (waited : Outcome) : List (LiveClient × Outcome) :=
  match closing live with
  | .ends _ => []
  | .joins counted => due counted waited

def attempted (live : LiveClient) : Event → List (LiveClient × Outcome)
  | .connect .fails waited =>
      if live.client.state ≠ .disconnected ∧ live.client.state ≠ .reconnecting then []
      else
        dueInClose { live with
          client := { live.client with intentionalDisconnect := false, state := .connecting } }
          waited
  | .closed waited => if live.client.socket = none then [] else dueInClose live waited
  | .thrown waited => dueInClose live waited
  | .heartbeatTimeout waited =>
      if live.heartbeat.running then
        dueInClose { live with heartbeat := live.heartbeat.timeout } waited
      else []
  | .timer outcome => due live outcome
  | .connect .starts _ | .disconnect | .opened | .input _ => []

/-- The attempt of a step, if it makes one, is undisturbed. -/
def MakesUndisturbed (world : World) (event : Event) : Prop :=
  world.live.terminated = false →
    ∀ made ∈ attempted world.live event, Undisturbed made.1 made.2

section Runs

variable (world : World)

theorem attempts_fire (h : world.live.engine.timerThread = .waiting) (outcome : Outcome) :
    (world.fire outcome).attempts =
      world.attempts ++ (due world.live outcome).map fun made => .make made.1 made.2 := by
  rw [World.fire, due]
  by_cases hdials : Dials world.live
  · rw [if_pos hdials, if_pos ⟨h, hdials⟩]
    rfl
  · rw [if_neg hdials, if_neg fun hdue => hdials hdue.2]
    exact (List.append_nil _).symm

theorem attempts_joinTimer (outcome : Outcome) :
    (world.joinTimer outcome).attempts =
      world.attempts ++ (due world.live outcome).map fun made => .make made.1 made.2 := by
  rw [World.joinTimer]
  dsimp only
  split
  · next hwaiting => exact attempts_fire world hwaiting outcome
  · next hidle =>
      rw [due, if_neg fun hdue => hidle hdue.1]
      exact (List.append_nil _).symm

theorem attempts_close (waited : Outcome) :
    (world.close waited).attempts =
      world.attempts ++ (dueInClose world.live waited).map fun made => .make made.1 made.2 := by
  rw [World.close, dueInClose]
  cases closing world.live with
  | ends ended => exact (List.append_nil _).symm
  | joins joining =>
      have hjoined := attempts_joinTimer { world with live := joining } waited
      dsimp only at hjoined ⊢
      split <;> exact hjoined

theorem attempts_step (halive : world.live.terminated = false) (event : Event) :
    (step world event).attempts =
      world.attempts ++ (attempted world.live event).map fun made => .make made.1 made.2 := by
  have hnone : world.attempts = world.attempts ++ [] := (List.append_nil _).symm
  rw [step.eq_def, if_neg (by simp [halive])]
  cases event with
  | connect dial waited =>
      dsimp only
      rw [World.connect]
      cases dial with
      | starts => split <;> exact hnone
      | fails =>
          rw [attempted]
          split
          · exact hnone
          · exact attempts_close _ waited
  | disconnect => exact hnone
  | opened => dsimp only; split <;> exact hnone
  | closed waited =>
      dsimp only
      rw [attempted]
      split
      · exact hnone
      · exact attempts_close world waited
  | thrown waited => exact attempts_close world waited
  | heartbeatTimeout waited =>
      dsimp only
      rw [attempted]
      split
      · exact attempts_close _ waited
      · exact hnone
  | timer outcome =>
      dsimp only
      rw [attempted]
      split
      · next hwaiting => exact attempts_fire world hwaiting outcome
      · next hidle =>
          rw [due, if_neg fun hdue => hidle hdue.1]
          exact hnone
  | input input => exact hnone

variable {world}

theorem fine_step_iff (h : ∀ attempt ∈ world.attempts, Fine attempt) (event : Event) :
    (∀ attempt ∈ (step world event).attempts, Fine attempt) ↔ MakesUndisturbed world event := by
  cases halive : world.live.terminated with
  | true =>
      rw [step.eq_def, if_pos halive]
      exact iff_of_true h fun hdead => absurd (halive.symm.trans hdead) (by decide)
  | false =>
      rw [attempts_step world halive event, MakesUndisturbed]
      constructor
      · intro hall _ made hmade
        exact (fine_make_iff made.1 made.2).mp
          (hall _ (List.mem_append_right _ (List.mem_map_of_mem hmade)))
      · intro hmade attempt hattempt
        rcases List.mem_append.mp hattempt with hold | hnew
        · exact h attempt hold
        · obtain ⟨made, hmem, rfl⟩ := List.mem_map.mp hnew
          exact (fine_make_iff made.1 made.2).mpr (hmade halive made hmem)

/-- All attempts of a run are fine exactly if nothing disturbs them on their thread. -/
theorem fine_throughout_iff (uuidBytes : List UInt8) (options : ReconnectOptions)
    (events : List Event) :
    (∀ before, before <+: events →
      ∀ attempt ∈ (run step (World.new uuidBytes options) before).attempts, Fine attempt) ↔
      StepsMeet step MakesUndisturbed (World.new uuidBytes options) events := by
  have hstep : ∀ (world : World) event, (∀ attempt ∈ world.attempts, Fine attempt) →
      ((∀ attempt ∈ (step world event).attempts, Fine attempt) ↔ MakesUndisturbed world event) :=
    fun _ event hfine => fine_step_iff hfine event
  have hnew : ∀ attempt ∈ (World.new uuidBytes options).attempts, Fine attempt :=
    fun _ hattempt => absurd hattempt List.not_mem_nil
  exact forall_prefix_iff_stepsMeet hstep hnew events

/-- A connection that was lost, and a first attempt in which the socket throws. -/
theorem not_fine_throughout : ¬ ∀ (uuidBytes : List UInt8) (options : ReconnectOptions)
    (events before : List Event), before <+: events →
    ∀ attempt ∈ (run step (World.new uuidBytes options) before).attempts, Fine attempt := by
  intro hall
  have hself : (run step (World.new [] ⟨true, 10⟩)
      [.connect .starts ⟨[], .returns⟩, .opened, .closed ⟨[], .returns⟩,
        .timer ⟨[], .throws⟩]).attempts.map Attempt.joinedSelf = [true] := rfl
  have hjoined : ∀ joined ∈ [true], joined = false := by
    rw [← hself]
    intro joined hmem
    obtain ⟨attempt, hattempt, rfl⟩ := List.mem_map.mp hmem
    exact (hall _ _ _ _ List.prefix_rfl attempt hattempt).joins
  exact absurd (hjoined true List.mem_cons_self) (by decide)

end Runs

end DanWs.TimerAttempts
