import DanWs.StepRuns
import Mathlib.Order.Basic

/-!
Counters of arrivals in windows of a fixed width. A window starts at the first
arrival behind the end of the one before, and lets as many arrivals pass as its
limit allows.
-/

namespace DanWs.FixedWindows

open DanWs.StepRuns

structure Window where
  start : ℕ
  count : ℕ

structure Arrival where
  time : ℕ
  resets : Bool
  passes : Bool
  deriving DecidableEq

def Arrival.within (arrival : Arrival) (first last : ℕ) : Bool :=
  first ≤ arrival.time && arrival.time ≤ last

section Windows

variable (width limit : ℕ)

def Window.expired (window : Window) (now : ℕ) : Bool := width ≤ now - window.start

def Window.arrive (window : Window) (now : ℕ) : Window :=
  if window.expired width now then ⟨now, 1⟩ else { window with count := window.count + 1 }

def Window.arrival (window : Window) (now : ℕ) : Arrival :=
  ⟨now, window.expired width now, (window.arrive width now).count ≤ limit⟩

def arrivals (window : Window) : List ℕ → List Arrival
  | [] => []
  | now :: times => window.arrival width limit now :: arrivals (window.arrive width now) times

end Windows

variable {width limit : ℕ}

theorem map_time_arrivals (width limit : ℕ) (window : Window) (times : List ℕ) :
    (arrivals width limit window times).map Arrival.time = times := by
  induction times generalizing window with
  | nil => rfl
  | cons now times ih => rw [arrivals, List.map_cons, ih]; rfl

theorem length_arrivals (window : Window) (times : List ℕ) :
    (arrivals width limit window times).length = times.length := by
  induction times generalizing window with
  | nil => rfl
  | cons now times ih => rw [arrivals, List.length_cons, ih, List.length_cons]

theorem arrivals_append (window : Window) (first second : List ℕ) :
    arrivals width limit window (first ++ second) = arrivals width limit window first ++
      arrivals width limit (run (Window.arrive width) window first) second := by
  induction first generalizing window with
  | nil => rfl
  | cons now first ih => rw [List.cons_append, arrivals, ih, arrivals]; rfl

theorem arrivals_of_infix {window : Window} {times : List ℕ} {segment : List Arrival}
    (h : segment <:+: arrivals width limit window times) :
    ∃ other, segment = arrivals width limit other (segment.map Arrival.time) := by
  obtain ⟨before, after, heq⟩ := h
  have htimes : times = before.map Arrival.time ++ segment.map Arrival.time ++
      after.map Arrival.time := by
    rw [← map_time_arrivals width limit window times, ← heq,
      List.map_append, List.map_append]
  rw [htimes, arrivals_append, arrivals_append] at heq
  have hlength : ∀ (other : Window) (part : List Arrival),
      part.length = (arrivals width limit other (part.map Arrival.time)).length := by
    intro other part
    rw [length_arrivals, List.length_map]
  obtain ⟨hfirst, -⟩ := List.append_inj heq (by simp only [List.length_append, ← hlength])
  exact ⟨_, (List.append_inj hfirst (hlength window before)).2⟩

def Window.left (limit : ℕ) (window : Window) : ℕ := limit - window.count

/-- An arrival takes what it passes from what the window has left, or from a new one. -/
theorem passes_add_left (width limit : ℕ) (window : Window) (now : ℕ) :
    (if (window.arrival width limit now).passes then 1 else 0) +
        (window.arrive width now).left limit =
      if window.expired width now then limit else window.left limit := by
  rw [Window.arrival, Window.arrive]
  split
  · simp only [Window.left, decide_eq_true_eq]
    split <;> omega
  · simp only [Window.left, decide_eq_true_eq]
    split <;> omega

theorem left_le (window : Window) : window.left limit ≤ limit := Nat.sub_le limit window.count

theorem passes_of_no_reset {window : Window} {times : List ℕ}
    (h : ∀ arrival ∈ arrivals width limit window times, ¬ arrival.resets) :
    (arrivals width limit window times).countP Arrival.passes ≤ window.left limit := by
  induction times generalizing window with
  | nil => exact Nat.zero_le _
  | cons now times ih =>
      have hfirst : ¬ window.expired width now := h _ List.mem_cons_self
      have hrest := ih fun arrival harrival => h arrival (List.mem_cons_of_mem _ harrival)
      have hnow := passes_add_left width limit window now
      rw [if_neg hfirst] at hnow
      rw [arrivals, List.countP_cons]
      omega

/-- Where only the first arrival may reset the window, at most `limit` pass. -/
theorem passes_of_one_reset {window : Window} {times : List ℕ}
    (h : ∀ arrival ∈ (arrivals width limit window times).tail, ¬ arrival.resets) :
    (arrivals width limit window times).countP Arrival.passes ≤ limit := by
  cases times with
  | nil => exact Nat.zero_le _
  | cons now times =>
      have hrest := passes_of_no_reset h
      have hnow := passes_add_left width limit window now
      have hlimit : (if window.expired width now then limit else window.left limit) ≤ limit := by
        split
        · exact le_rfl
        · exact left_le window
      rw [arrivals, List.countP_cons]
      omega

section Intervals

variable {first last : ℕ}

def passesWithin (first last : ℕ) (arrival : Arrival) : Bool :=
  arrival.passes && arrival.within first last

theorem passesWithin_of_after {window : Window} {times : List ℕ} (h : ∀ time ∈ times, last < time) :
    (arrivals width limit window times).countP (passesWithin first last) = 0 := by
  rw [List.countP_eq_zero]
  intro arrival harrival hpasses
  have htime : arrival.time ∈ times := by
    rw [← map_time_arrivals width limit window times]
    exact List.mem_map_of_mem harrival
  have hwithin : arrival.time ≤ last := by
    simp only [passesWithin, Arrival.within, Bool.and_eq_true, decide_eq_true_eq] at hpasses
    exact hpasses.2.2
  exact absurd (h _ htime) hwithin.not_gt

theorem countP_passesWithin_cons (arrival : Arrival) (arrivals : List Arrival) :
    (arrival :: arrivals).countP (passesWithin first last) ≤
      arrivals.countP (passesWithin first last) + if arrival.passes then 1 else 0 := by
  rw [List.countP_cons, passesWithin]
  cases arrival.passes with
  | false => exact le_rfl
  | true =>
      rw [Bool.true_and, if_pos rfl]
      split <;> omega

theorem arrivals_after {now : ℕ} {times : List ℕ} (hsorted : (now :: times).Pairwise (· ≤ ·))
    (hafter : last < now) (window : Window) :
    (arrivals width limit window (now :: times)).countP (passesWithin first last) = 0 := by
  refine passesWithin_of_after fun time htime => ?_
  rcases List.mem_cons.mp htime with rfl | htime
  · exact hafter
  · exact hafter.trans_le (List.rel_of_pairwise_cons hsorted htime)

/-- A window that starts in an interval shorter than its width lasts to the end of it. -/
theorem passesWithin_of_started (hwidth : 0 < width) (hshort : last < first + width)
    (limit : ℕ) {window : Window} {times : List ℕ} (hsorted : times.Pairwise (· ≤ ·))
    (hstart : first ≤ window.start) :
    (arrivals width limit window times).countP (passesWithin first last) ≤ window.left limit := by
  induction times generalizing window with
  | nil => exact Nat.zero_le _
  | cons now times ih =>
      rcases lt_or_ge last now with hafter | hnow
      · rw [arrivals_after hsorted hafter]
        exact Nat.zero_le _
      · have hexpired : ¬ window.expired width now := by
          simp only [Window.expired, decide_eq_true_eq]
          omega
        have hkept : first ≤ (window.arrive width now).start := by
          rwa [Window.arrive, if_neg hexpired]
        have hrest := ih hsorted.of_cons hkept
        have htaken := passes_add_left width limit window now
        rw [if_neg hexpired] at htaken
        rw [arrivals]
        exact (countP_passesWithin_cons _ _).trans (by omega)

/-- From a time in the interval on, the window and at most one more let arrivals pass. -/
theorem passesWithin_of_entered (hwidth : 0 < width) (hshort : last < first + width)
    (limit : ℕ) (window : Window) {times : List ℕ} (hsorted : times.Pairwise (· ≤ ·))
    (hentered : ∀ time ∈ times, first ≤ time) :
    (arrivals width limit window times).countP (passesWithin first last) ≤
      window.left limit + limit := by
  induction times generalizing window with
  | nil => exact Nat.zero_le _
  | cons now times ih =>
      have htaken := passes_add_left width limit window now
      rw [arrivals]
      refine (countP_passesWithin_cons _ _).trans ?_
      by_cases hexpired : window.expired width now
      · have hstart : first ≤ (window.arrive width now).start := by
          rw [Window.arrive, if_pos hexpired]
          exact hentered now List.mem_cons_self
        have hrest := passesWithin_of_started hwidth hshort limit hsorted.of_cons hstart
        rw [if_pos hexpired] at htaken
        omega
      · have hrest := ih (window.arrive width now) hsorted.of_cons
          fun time htime => hentered time (List.mem_cons_of_mem now htime)
        rw [if_neg hexpired] at htaken
        omega

/-- In an interval shorter than the width at most twice the limit passes. -/
theorem passesWithin_le (hwidth : 0 < width) (hshort : last < first + width) (window : Window)
    {times : List ℕ} (hsorted : times.Pairwise (· ≤ ·)) :
    (arrivals width limit window times).countP (passesWithin first last) ≤ 2 * limit := by
  induction times generalizing window with
  | nil => exact Nat.zero_le _
  | cons now times ih =>
      rcases lt_or_ge now first with hbefore | hnow
      · have houtside : passesWithin first last (window.arrival width limit now) = false := by
          simp [passesWithin, Arrival.within, Window.arrival, not_le.mpr hbefore]
        rw [arrivals, List.countP_cons_of_neg (by simp [houtside])]
        exact ih (window.arrive width now) hsorted.of_cons
      · have hentered : ∀ time ∈ now :: times, first ≤ time := List.forall_mem_cons.mpr
          ⟨hnow, fun time htime => hnow.trans (List.rel_of_pairwise_cons hsorted htime)⟩
        have hall := passesWithin_of_entered hwidth hshort limit window hsorted hentered
        have hleft : window.left limit ≤ limit := left_le window
        omega

end Intervals

end DanWs.FixedWindows
