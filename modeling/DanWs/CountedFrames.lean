import DanWs.FrameLimits

namespace DanWs.CountedFrames

open DanWs.FiniteMaps
open DanWs.FixedWindows
open DanWs.FrameCounters
open DanWs.FrameLimits
open DanWs.ServerActions
open DanWs.Servers
open DanWs.StepRuns
open DanWs.WireTypes

/-- How an event that lets `arrived` arrive for a session moves its count. -/
inductive Moved (count : Int) : List Arrival → Int → Prop
  | kept : Moved count [] count
  | zero (arrived : List Arrival) : Moved count arrived 0
  | counted (arrival : Arrival) : Moved count [arrival] (if arrival.resets then 1 else count + 1)

theorem Moved.of_keeps {server next : Server} {a : Addr} {count : Int} {arrived : List Arrival}
    (h : Moved count arrived (server.heap a).frameCount) (hkeeps : Keeps server next) :
    Moved count arrived (next.heap a).frameCount := by
  obtain hkept | ⟨-, hzero⟩ := hkeeps.counter a
  · have hcount : (next.heap a).frameCount = (server.heap a).frameCount := congrArg Prod.fst hkept
    rwa [hcount]
  · rw [hzero]
    exact .zero arrived

theorem frameCount_countFrame (internal : InternalSession) (max : Int) (now : Nat) :
    (Server.countFrame internal max now).1.frameCount =
      if 1000 ≤ now - internal.windowStart then 1 else internal.frameCount + 1 := by
  rw [Server.countFrame]
  split <;> rfl

theorem moved_limitFrame (server : Server) (a : Addr) (ws : ConnId) (now : Nat) (passes : Bool) :
    Moved (server.heap a).frameCount
      (if limits server a ws then
        [⟨now, 1000 ≤ now - (server.heap a).windowStart, passes⟩]
      else [])
      ((server.limitFrame ws now).1.heap a).frameCount := by
  by_cases hlimits : limits server a ws
  · have hcounted : Moved (server.heap a).frameCount
        [⟨now, 1000 ≤ now - (server.heap a).windowStart, passes⟩] _ := .counted _
    simp only [decide_eq_true_eq] at hcounted
    rwa [if_pos hlimits, heap_limitFrame hlimits, frameCount_countFrame]
  · rw [if_neg hlimits, limitFrame_of_not_limits hlimits]
    exact .kept

section Steps

variable [HashOrder StdString] [HashOrder Addr] (server : Server) (a : Addr)

theorem moved_step_frame (ws : ConnId) (frame : Frame) (now : Nat) :
    Moved (server.heap a).frameCount (arrivalsOf a server (.frame ws frame now))
      ((step server (.frame ws frame now)).heap a).frameCount := by
  rw [arrivalsOf]
  by_cases hlistens : ¬ server.undefinedBehaviour ∧ (server.connections ws).listening
  · have hlimits : (¬ server.undefinedBehaviour ∧ (server.connections ws).listening ∧
        limits server a ws) ↔ limits server a ws := by
      rw [← and_assoc, and_iff_right hlistens]
    rw [if_congr hlimits rfl rfl]
    have hcounted := moved_limitFrame { server with framesIn := server.framesIn + 1 } a ws now
      (server.limitFrame ws now).2
    exact hcounted.of_keeps (keeps_step_frame hlistens.1 hlistens.2 frame now)
  · have hignored : step server (.frame ws frame now) = server := by
      rw [← run_actions, actions]
      split
      · rfl
      · next hdefined =>
          rw [handleActions, if_neg fun h => hlistens ⟨hdefined, h⟩]
          rfl
    rw [hignored, if_neg fun h => hlistens ⟨h.1, h.2.1⟩]
    exact .kept

theorem moved_step (event : Event) :
    Moved (server.heap a).frameCount (arrivalsOf a server event)
      ((step server event).heap a).frameCount := by
  cases event with
  | frame ws frame now => exact moved_step_frame server a ws frame now
  | setMaxFramesPerSec max =>
      rw [step]
      split <;> exact .kept
  | _ => exact Moved.kept.of_keeps (keeps_step (by simp) (by simp))

end Steps

/-- The arrivals of one window: only the first of them may reset it. -/
def OneWindow (arrived : List Arrival) : Prop := ∀ arrival ∈ arrived.tail, ¬ arrival.resets

theorem oneWindow_singleton (arrival : Arrival) : OneWindow [arrival] := List.forall_mem_nil _

theorem OneWindow.append {counted : List Arrival} (h : OneWindow counted) {arrival : Arrival}
    (harrival : ¬ arrival.resets) : OneWindow (counted ++ [arrival]) := by
  cases counted with
  | nil => exact oneWindow_singleton arrival
  | cons first counted =>
      rintro other hother
      rcases List.mem_append.mp hother with hother | hother
      · exact h other hother
      · rwa [List.mem_singleton.mp hother]

theorem Moved.oneWindow {counted arrived : List Arrival} {next : Int}
    (hmoved : Moved counted.length arrived next) (hwindow : OneWindow counted) :
    ∃ last, last <:+ counted ++ arrived ∧ OneWindow last ∧ next = last.length := by
  cases hmoved with
  | kept => exact ⟨counted, by rw [List.append_nil], hwindow, rfl⟩
  | zero => exact ⟨[], List.nil_suffix, List.forall_mem_nil _, rfl⟩
  | counted arrival =>
      split
      · exact ⟨[arrival], List.suffix_append _ _, oneWindow_singleton arrival, rfl⟩
      · next hresets =>
          refine ⟨counted ++ [arrival], List.suffix_rfl, hwindow.append hresets, ?_⟩
          rw [List.length_append, Nat.cast_add, List.length_singleton, Nat.cast_one]

section Runs

variable [HashOrder StdString] [HashOrder Addr]

/-- The count of a session is the number of the last arrivals of the run that belong
to one window. -/
theorem frameCount_run {server : Server} {a : Addr} (hzero : (server.heap a).frameCount = 0)
    (events : List Event) :
    ∃ counted, counted <:+ arrivalsIn a server events ∧ OneWindow counted ∧
      ((run step server events).heap a).frameCount = counted.length := by
  induction events using List.reverseRecOn with
  | nil => exact ⟨[], List.nil_suffix, List.forall_mem_nil _, hzero⟩
  | append_singleton events event ih =>
      obtain ⟨counted, ⟨before, hbefore⟩, hwindow, hcount⟩ := ih
      have hmoved := moved_step (run step server events) a event
      rw [hcount] at hmoved
      obtain ⟨last, hsuffix, hlast, hnext⟩ := hmoved.oneWindow hwindow
      refine ⟨last, ?_, hlast, ?_⟩
      · rw [arrivalsIn, outputs_append, ← arrivalsIn, ← hbefore, outputs, outputs,
          List.append_nil, List.append_assoc]
        exact hsuffix.trans (List.suffix_append before _)
      · rwa [run_append, run_cons, run_nil]

/-- The count of a session fits an `int` while fewer than `2 ^ 31` frames arrive for
it in one window. -/
theorem frameCount_lt (mode : ServerMode) (a : Addr) {events : List Event}
    (h : ∀ segment, segment <:+: arrivalsIn a (Server.new mode) events → OneWindow segment →
      segment.length < 2 ^ 31) :
    ((run step (Server.new mode) events).heap a).frameCount < 2 ^ 31 := by
  have hzero : ((Server.new mode).heap a).frameCount = 0 := rfl
  obtain ⟨counted, hsuffix, hwindow, hcount⟩ := frameCount_run hzero events
  have hlength := h counted hsuffix.isInfix hwindow
  omega

end Runs

end DanWs.CountedFrames
