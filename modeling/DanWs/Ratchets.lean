import DanWs.StepRuns

namespace DanWs.Ratchets

open DanWs.StepRuns

variable {σ ε : Type*}

/-- The steps that meet the condition keep the property, the others lose it for good. -/
structure Ratchet (step : σ → ε → σ) (invariant : σ → Prop) (condition : σ → ε → Prop)
    (property : σ → Prop) : Prop where
  keep : ∀ {s} event, invariant s → invariant (step s event)
  iff : ∀ {s} event, invariant s → (property (step s event) ↔ property s ∧ condition s event)

variable {step : σ → ε → σ} {invariant property : σ → Prop} {condition : σ → ε → Prop}

theorem Ratchet.run (h : Ratchet step invariant condition property) {s : σ} (hs : invariant s)
    (events : List ε) :
    invariant (run step s events) ∧
      (property (run step s events) ↔ property s ∧ StepsMeet step condition s events) := by
  induction events generalizing s with
  | nil => exact ⟨hs, (and_iff_left trivial).symm⟩
  | cons event events ih =>
      obtain ⟨hkept, hiff⟩ := ih (h.keep event hs)
      exact ⟨hkept, hiff.trans (by rw [h.iff event hs, StepsMeet, and_assoc])⟩

theorem Ratchet.of_parts {τ : Type*} {whole : σ → τ → σ} {parts : σ → τ → List ε}
    (h : Ratchet step invariant condition property)
    (hwhole : ∀ s event, StepRuns.run step s (parts s event) = whole s event) :
    Ratchet whole invariant (fun s event => StepsMeet step condition s (parts s event))
      property where
  keep event hs := by
    rw [← hwhole]
    exact (h.run hs _).1
  iff event hs := by
    rw [← hwhole]
    exact (h.run hs _).2

/-- A run that starts with the property has it throughout exactly if all of its steps
meet the condition. -/
theorem Ratchet.throughout_iff (h : Ratchet step invariant condition property) {s : σ}
    (hs : invariant s) (hstart : property s) (events : List ε) :
    (∀ before, before <+: events → property (StepRuns.run step s before)) ↔
      StepsMeet step condition s events := by
  constructor
  · intro hall
    exact ((h.run hs events).2.mp (hall events List.prefix_rfl)).2
  · rintro hmeet before ⟨after, rfl⟩
    rw [stepsMeet_append] at hmeet
    exact (h.run hs before).2.mpr ⟨hstart, hmeet.1⟩

end DanWs.Ratchets
