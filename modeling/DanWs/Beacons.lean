import Mathlib.Algebra.Order.Monoid.Unbundled.Basic
import Mathlib.Algebra.Order.Monoid.Canonical.Defs
import Mathlib.Data.List.Chain

/-!
A watcher that hears from a source again and again. What the source has sent is on its way
in order and for a bounded time, and the source lets no more than a certain gap pass before
it sends again.
-/

namespace DanWs.Beacons

variable {τ : Type*} [AddCommMonoid τ] [LinearOrder τ]

/-- Each of the times is no more than the gap behind the one before. -/
def Spaced (gap : τ) (times : List τ) : Prop :=
  times.IsChain fun earlier later => later ≤ earlier + gap

/-- What the watcher knows: the time it has last heard the source, if it has, the times at
which what is on its way was sent, and the time by which the source sends again. -/
structure Watch (gap delay now : τ) (heard : Option τ) (sent : List τ) (due : τ) : Prop where
  spaced : Spaced gap (heard.toList ++ sent ++ [due])
  sent : ∀ time ∈ sent, time ≤ now ∧ now ≤ time + delay
  due : now ≤ due

section Times

variable {gap delay now later due : τ} {heard : Option τ} {sent : List τ}

theorem spaced_concat_iff {times : List τ} :
    Spaced gap (times ++ [due]) ↔
      Spaced gap times ∧ ∀ last ∈ times.getLast?, due ≤ last + gap := by
  rw [Spaced, Spaced, List.isChain_append]
  simp

theorem Spaced.mono_last {times : List τ} (h : Spaced gap (times ++ [due])) (hlater : later ≤ due) :
    Spaced gap (times ++ [later]) := by
  rw [spaced_concat_iff] at h ⊢
  exact ⟨h.1, fun last hlast => hlater.trans (h.2 last hlast)⟩

namespace Watch

theorem elapse (h : Watch gap delay now heard sent due) (hnow : now ≤ later) (hdue : later ≤ due)
    (hsent : ∀ time ∈ sent, later ≤ time + delay) : Watch gap delay later heard sent due :=
  ⟨h.spaced, fun time htime => ⟨(h.sent time htime).1.trans hnow, hsent time htime⟩, hdue⟩

theorem hasten {earlier : τ} (h : Watch gap delay now heard sent due) (hdue : earlier ≤ due)
    (hnow : now ≤ earlier) : Watch gap delay now heard sent earlier :=
  ⟨h.spaced.mono_last hdue, h.sent, hnow⟩

theorem send [CanonicallyOrderedAdd τ] (h : Watch gap delay now heard sent due) {next : τ}
    (hnow : now ≤ next) (hnext : next ≤ now + gap) :
    Watch gap delay now heard (sent ++ [now]) next := by
  refine ⟨?_, ?_, hnow⟩
  · rw [← List.append_assoc, spaced_concat_iff]
    refine ⟨h.spaced.mono_last h.due, fun last hlast => ?_⟩
    rw [List.getLast?_concat, Option.mem_some_iff] at hlast
    rwa [← hlast]
  · rw [List.forall_mem_append, List.forall_mem_singleton]
    exact ⟨h.sent, le_rfl, le_self_add⟩

end Watch

variable [IsOrderedAddMonoid τ]

theorem Spaced.mono_head {earlier : τ} {times : List τ} (h : Spaced gap (earlier :: times))
    (hlater : earlier ≤ later) : Spaced gap (later :: times) :=
  h.imp_head fun hnext => hnext.trans (add_le_add_left hlater gap)

namespace Watch

theorem hear {time : τ} (h : Watch gap delay now heard (time :: sent) due) :
    Watch gap delay now (some now) sent due := by
  have htail : Spaced gap (time :: (sent ++ [due])) := by
    have hspaced := h.spaced
    rw [List.append_assoc] at hspaced
    exact hspaced.right_of_append
  refine ⟨htail.mono_head (h.sent time List.mem_cons_self).1, ?_, h.due⟩
  exact fun other hother => h.sent other (List.mem_cons_of_mem time hother)

/-- A watcher that has heard the source once need not wait longer than this. -/
theorem now_le [CanonicallyOrderedAdd τ] {last : τ}
    (h : Watch gap delay now (some last) sent due) : now ≤ last + gap + delay := by
  cases sent with
  | nil =>
      have hspaced : due ≤ last + gap := (List.isChain_cons_cons.mp h.spaced).1
      exact (h.due.trans hspaced).trans le_self_add
  | cons time sent =>
      have hspaced : time ≤ last + gap := (List.isChain_cons_cons.mp h.spaced).1
      exact (h.sent time List.mem_cons_self).2.trans (add_le_add_left hspaced delay)

end Watch

end Times

end DanWs.Beacons
