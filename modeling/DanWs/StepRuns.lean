import Mathlib.Data.List.Infix

/-!
Runs of a state machine given by a total step function, and the rules by which a
property is carried from one step to whole runs. A machine that emits outputs on
its way may be followed by another one that consumes them.
-/

namespace DanWs.StepRuns

variable {σ ε : Type*} (step : σ → ε → σ)

def run (s : σ) (events : List ε) : σ := events.foldl step s

@[simp] theorem run_nil (s : σ) : run step s [] = s := rfl

@[simp] theorem run_cons (s : σ) (event : ε) (events : List ε) :
    run step s (event :: events) = run step (step s event) events := rfl

theorem run_append (s : σ) (first second : List ε) :
    run step s (first ++ second) = run step (run step s first) second :=
  List.foldl_append

variable (condition : σ → ε → Prop)

/-- Every event of a run meets a condition in the state it finds. -/
def StepsMeet (s : σ) : List ε → Prop
  | [] => True
  | event :: events => condition s event ∧ StepsMeet (step s event) events

instance StepsMeet.decidable [∀ s event, Decidable (condition s event)] :
    (s : σ) → (events : List ε) → Decidable (StepsMeet step condition s events)
  | _, [] => inferInstanceAs (Decidable True)
  | s, event :: events =>
      have := StepsMeet.decidable (step s event) events
      inferInstanceAs
        (Decidable (condition s event ∧ StepsMeet step condition (step s event) events))

theorem stepsMeet_append (s : σ) (first second : List ε) :
    StepsMeet step condition s (first ++ second) ↔
      StepsMeet step condition s first ∧
        StepsMeet step condition (run step s first) second := by
  induction first generalizing s with
  | nil => simp [StepsMeet]
  | cons event events ih =>
      rw [List.cons_append]
      simp only [StepsMeet, run_cons]
      rw [ih, and_assoc]

theorem stepsMeet_iff_prefixes (s : σ) (events : List ε) :
    StepsMeet step condition s events ↔
      ∀ before event, before ++ [event] <+: events → condition (run step s before) event := by
  constructor
  · rintro h before event ⟨after, rfl⟩
    rw [stepsMeet_append, stepsMeet_append] at h
    exact h.1.2.1
  · intro h
    induction events generalizing s with
    | nil => trivial
    | cons event events ih =>
        refine ⟨h [] event ⟨events, rfl⟩, ih _ fun before other hbefore => ?_⟩
        exact h (event :: before) other (List.cons_prefix_cons.mpr ⟨rfl, hbefore⟩)

variable {step condition} {invariant : σ → Prop}

theorem stepsMeet_mono {weaker : σ → ε → Prop}
    (hweaker : ∀ s event, condition s event → weaker s event) {s : σ} {events : List ε}
    (h : StepsMeet step condition s events) : StepsMeet step weaker s events := by
  induction events generalizing s with
  | nil => trivial
  | cons event events ih => exact ⟨hweaker s event h.1, ih h.2⟩

/-- Conditions that agree as long as they are met agree over whole runs. -/
theorem stepsMeet_congr {other : σ → ε → Prop}
    (hiff : ∀ s event, invariant s → (condition s event ↔ other s event))
    (hkeep : ∀ s event, invariant s → condition s event → invariant (step s event))
    {s : σ} (h : invariant s) {events : List ε} :
    StepsMeet step condition s events ↔ StepsMeet step other s events := by
  induction events generalizing s with
  | nil => exact Iff.rfl
  | cons event events ih =>
      refine (and_congr_right fun hevent => ih (hkeep s event h hevent)).trans ?_
      exact and_congr_left fun _ => hiff s event h

/-- A condition that follows from a kept invariant is met where the kept one is. -/
theorem stepsMeet_of_invariant {other : σ → ε → Prop}
    (hkeep : ∀ s event, invariant s → condition s event → invariant (step s event))
    (hother : ∀ s event, invariant s → condition s event → other s event)
    {s : σ} (h : invariant s) {events : List ε} (hmeet : StepsMeet step condition s events) :
    StepsMeet step other s events := by
  induction events generalizing s with
  | nil => trivial
  | cons event events ih =>
      exact ⟨hother s event h hmeet.1, ih (hkeep s event h hmeet.1) hmeet.2⟩

theorem stepsMeet_of_forall {good : ε → Prop} {s : σ} {events : List ε}
    (h : ∀ event ∈ events, good event) : StepsMeet step (fun _ event => good event) s events := by
  induction events generalizing s with
  | nil => trivial
  | cons event events ih =>
      exact ⟨h event List.mem_cons_self, ih fun other hother =>
        h other (List.mem_cons_of_mem event hother)⟩

/-- A property kept by every step that meets the condition holds behind every
run whose steps meet it. -/
theorem invariant_run
    (hstep : ∀ s event, invariant s → condition s event → invariant (step s event))
    {s : σ} (h : invariant s) {events : List ε} (hmeet : StepsMeet step condition s events) :
    invariant (run step s events) := by
  induction events generalizing s with
  | nil => exact h
  | cons event events ih => exact ih (hstep s event h hmeet.1) hmeet.2

/-- Where the condition is also necessary for one step, a run keeps the
property throughout exactly when all of its steps meet the condition. -/
theorem forall_prefix_iff_stepsMeet
    (hstep : ∀ s event, invariant s → (invariant (step s event) ↔ condition s event))
    {s : σ} (h : invariant s) (events : List ε) :
    (∀ before, before <+: events → invariant (run step s before)) ↔
      StepsMeet step condition s events := by
  constructor
  · intro hall
    induction events generalizing s with
    | nil => trivial
    | cons event events ih =>
        have hnext : invariant (step s event) := hall [event] ⟨events, rfl⟩
        refine ⟨(hstep s event h).mp hnext, ih hnext fun before hbefore => ?_⟩
        exact hall (event :: before) (List.cons_prefix_cons.mpr ⟨rfl, hbefore⟩)
  · rintro hmeet before ⟨after, rfl⟩
    exact invariant_run (fun t event ht => (hstep t event ht).mpr) h
      ((stepsMeet_append step condition s before after).mp hmeet).1

/-- Where a step that misses the condition does a damage that no later step
repairs, the end of a run tells whether all of its steps have met it. -/
theorem run_iff_stepsMeet {good bad accepted : σ → Prop}
    (hmeet : ∀ s event, good s → condition s event → good (step s event))
    (hmiss : ∀ s event, good s → ¬ condition s event → bad (step s event))
    (hbad : ∀ s event, bad s → bad (step s event))
    (haccepted : ∀ s, good s → accepted s) (hrejected : ∀ s, bad s → ¬ accepted s)
    {s : σ} (h : good s) (events : List ε) :
    accepted (run step s events) ↔ StepsMeet step condition s events := by
  induction events generalizing s with
  | nil => exact iff_of_true (haccepted s h) trivial
  | cons event events ih =>
      by_cases hevent : condition s event
      · exact (ih (hmeet s event h hevent)).trans (and_iff_right hevent).symm
      · have hkept : ∀ t other, bad t → True → bad (step t other) :=
          fun t other ht _ => hbad t other ht
        have hend : bad (run step (step s event) events) :=
          invariant_run hkept (hmiss s event h hevent) (stepsMeet_of_forall fun _ _ => trivial)
        exact iff_of_false (hrejected _ hend) fun hall => hevent hall.1

section SideBySide

variable {τ : Type*} (step : σ → ε → σ) (step' : τ → ε → τ)

def both (pair : σ × τ) (event : ε) : σ × τ := (step pair.1 event, step' pair.2 event)

theorem run_both (s : σ) (t : τ) (events : List ε) :
    run (both step step') (s, t) events = (run step s events, run step' t events) := by
  induction events generalizing s t with
  | nil => rfl
  | cons event events ih => exact ih (step s event) (step' t event)

theorem stepsMeet_both (condition : τ → ε → Prop) (s : σ) (t : τ) (events : List ε) :
    StepsMeet (both step step') (fun pair event => condition pair.2 event) (s, t) events ↔
      StepsMeet step' condition t events := by
  induction events generalizing s t with
  | nil => exact Iff.rfl
  | cons event events ih => exact and_congr_right fun _ => ih (step s event) (step' t event)

end SideBySide

section Outputs

variable {ω τ : Type*} (step : σ → ε → σ) (emit : σ → ε → List ω) (consume : τ → ω → τ)

/-- The outputs of a run, in order. -/
def outputs (s : σ) : List ε → List ω
  | [] => []
  | event :: events => emit s event ++ outputs (step s event) events

theorem outputs_append (s : σ) (first second : List ε) :
    outputs step emit s (first ++ second) =
      outputs step emit s first ++ outputs step emit (run step s first) second := by
  induction first generalizing s with
  | nil => rfl
  | cons event events ih =>
      rw [List.cons_append, outputs, ih, ← List.append_assoc, outputs, run_cons]

variable {step emit consume} {condition : σ → ε → Prop} {related : σ → τ → Prop}

/-- Two machines that stay related while the second consumes what one step of
the first emits are related behind whole runs. -/
theorem related_run
    (hstep : ∀ s t event, related s t → condition s event →
      related (step s event) ((emit s event).foldl consume t))
    {s : σ} {t : τ} (h : related s t) {events : List ε}
    (hmeet : StepsMeet step condition s events) :
    related (run step s events) ((outputs step emit s events).foldl consume t) := by
  induction events generalizing s t with
  | nil => exact h
  | cons event events ih =>
      rw [run_cons, outputs, List.foldl_append]
      exact ih (hstep s t event h hmeet.1) hmeet.2

theorem forall_outputs {invariant : σ → Prop} {good : ω → Prop}
    (hstep : ∀ s event, invariant s → condition s event →
      invariant (step s event) ∧ ∀ out ∈ emit s event, good out)
    {s : σ} (h : invariant s) {events : List ε} (hmeet : StepsMeet step condition s events) :
    ∀ out ∈ outputs step emit s events, good out := by
  induction events generalizing s with
  | nil => simp [outputs]
  | cons event events ih =>
      obtain ⟨hnext, hgood⟩ := hstep s event h hmeet.1
      intro out hout
      rcases List.mem_append.mp hout with hout | hout
      · exact hgood out hout
      · exact ih hnext hmeet.2 out hout

end Outputs

end DanWs.StepRuns
