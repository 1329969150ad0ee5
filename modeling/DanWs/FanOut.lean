import DanWs.StepRuns
import Mathlib.Logic.Function.Basic

/-!
One sender and any number of receivers, each at the end of a channel of its own that
loses nothing and keeps the order. Calls on the sender and deliveries happen in any
order, and a delivery takes as much off a channel as has arrived. What a receiver will
be when its channel is empty does not depend on the deliveries.
-/

namespace DanWs.FanOut

open DanWs.StepRuns

structure Network (ι σ τ μ : Type*) where
  sender : σ
  receivers : ι → τ
  channels : ι → List μ

inductive Event (ι ε : Type*) where
  | call (operation : ε)
  | deliver (receiver : ι) (count : ℕ)

def callsOf {ι ε : Type*} (events : List (Event ι ε)) : List ε :=
  events.filterMap fun
    | .call operation => some operation
    | .deliver _ _ => none

/-- `emit` is what a call puts on each of the channels. -/
structure Parties (ι σ τ μ ε : Type*) where
  call : σ → ε → σ
  emit : σ → ε → ι → List μ
  consume : τ → μ → τ

namespace Parties

variable {ι σ τ μ ε : Type*} (parties : Parties ι σ τ μ ε)

/-- A receiver when it has taken in all that is on its channel. -/
def drained (network : Network ι σ τ μ) (i : ι) : τ :=
  (network.channels i).foldl parties.consume (network.receivers i)

theorem drained_of_empty {network : Network ι σ τ μ} {i : ι} (h : network.channels i = []) :
    parties.drained network i = network.receivers i := by
  rw [drained, h, List.foldl_nil]

variable [DecidableEq ι]

def step (network : Network ι σ τ μ) : Event ι ε → Network ι σ τ μ
  | .call operation =>
      { network with
        sender := parties.call network.sender operation
        channels := fun i => network.channels i ++ parties.emit network.sender operation i }
  | .deliver i count =>
      { network with
        receivers := Function.update network.receivers i
          (((network.channels i).take count).foldl parties.consume (network.receivers i))
        channels := Function.update network.channels i ((network.channels i).drop count) }

theorem drained_deliver (network : Network ι σ τ μ) (i : ι) (count : ℕ) (j : ι) :
    parties.drained (parties.step network (.deliver i count)) j = parties.drained network j := by
  rw [drained, drained, step]
  dsimp only
  rcases eq_or_ne j i with rfl | hne
  · rw [Function.update_self, Function.update_self, ← List.foldl_append, List.take_append_drop]
  · rw [Function.update_of_ne hne, Function.update_of_ne hne]

theorem drained_call (network : Network ι σ τ μ) (operation : ε) (j : ι) :
    parties.drained (parties.step network (.call operation)) j =
      (parties.emit network.sender operation j).foldl parties.consume
        (parties.drained network j) := by
  rw [drained, drained, step, List.foldl_append]

theorem sender_run (network : Network ι σ τ μ) (events : List (Event ι ε)) :
    (run parties.step network events).sender =
      run parties.call network.sender (callsOf events) := by
  induction events generalizing network with
  | nil => rfl
  | cons event events ih =>
      rw [run_cons, ih]
      cases event with
      | call operation => rfl
      | deliver i count => rfl

/-- Whatever the deliveries, a drained receiver has taken in what the calls emit to it,
in order. -/
theorem drained_run (network : Network ι σ τ μ) (events : List (Event ι ε)) (j : ι) :
    parties.drained (run parties.step network events) j =
      (outputs parties.call (fun sender operation => parties.emit sender operation j)
        network.sender (callsOf events)).foldl parties.consume (parties.drained network j) := by
  induction events generalizing network with
  | nil => rfl
  | cons event events ih =>
      rw [run_cons, ih]
      cases event with
      | call operation =>
          rw [drained_call, ← List.foldl_append]
          rfl
      | deliver i count =>
          rw [drained_deliver]
          rfl

end Parties

end DanWs.FanOut
