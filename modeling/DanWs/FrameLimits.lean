import DanWs.FixedWindows
import DanWs.FrameCounters

namespace DanWs.FrameLimits

open DanWs.FiniteMaps
open DanWs.FixedWindows
open DanWs.FrameCounters
open DanWs.Registration
open DanWs.ServerActions
open DanWs.ServerConditions
open DanWs.ServerMoves
open DanWs.Servers
open DanWs.ServerSteps
open DanWs.StepRuns
open DanWs.WireTypes

section Arrivals

variable (server : Server) (a : Addr)

/-- The frame of a connection is counted for the session `a`. -/
def limits (ws : ConnId) : Prop :=
  0 < server.maxFramesPerSec ∧ (server.connections ws).clientUuid ≠ [] ∧
    server.sessionOf (server.connections ws).clientUuid = some a

instance (ws : ConnId) : Decidable (limits server a ws) :=
  inferInstanceAs (Decidable (_ ∧ _ ∧ _))

/-- What the limiter makes of a frame that arrives for the session `a`. -/
def arrivalsOf (server : Server) : Event → List Arrival
  | .frame ws _ now =>
      if ¬ server.undefinedBehaviour ∧ (server.connections ws).listening ∧ limits server a ws then
        [⟨now, 1000 ≤ now - (server.heap a).windowStart, (server.limitFrame ws now).2⟩]
      else []
  | _ => []

end Arrivals

section Counting

def window (internal : InternalSession) : Window :=
  ⟨internal.windowStart, internal.frameCount.toNat⟩

variable {server next : Server} {a : Addr} {max : Int}

theorem passes_iff {count : Int} (hcount : 0 ≤ count) (hmax : 0 < max) :
    decide (count ≤ max) = decide (count.toNat ≤ max.toNat) :=
  decide_eq_decide.mpr (by omega)

/-- The limiter is a window of a second. -/
theorem window_countFrame {internal : InternalSession} (hcount : 0 ≤ internal.frameCount)
    (hmax : 0 < max) (now : Nat) :
    0 ≤ (Server.countFrame internal max now).1.frameCount ∧
      window (Server.countFrame internal max now).1 = (window internal).arrive 1000 now ∧
      (⟨now, 1000 ≤ now - internal.windowStart, (Server.countFrame internal max now).2⟩ : Arrival) =
        (window internal).arrival 1000 max.toNat now := by
  by_cases hexpired : 1000 ≤ now - internal.windowStart
  · have hcurrent : (window internal).expired 1000 now = true := decide_eq_true hexpired
    have hcounted : Server.countFrame internal max now =
        ({ internal with frameCount := 1, windowStart := now }, decide (1 ≤ max)) := by
      rw [Server.countFrame, if_pos hexpired]
      rfl
    rw [Window.arrival, Window.arrive, hcounted, if_pos hcurrent, hcurrent, decide_eq_true hexpired,
      passes_iff Int.one_nonneg hmax]
    exact ⟨Int.one_nonneg, rfl, rfl⟩
  · have hcurrent : ¬ (window internal).expired 1000 now := by
      rwa [Window.expired, decide_eq_true_eq]
    have hcounted : Server.countFrame internal max now =
        ({ internal with frameCount := internal.frameCount + 1 },
          decide (internal.frameCount + 1 ≤ max)) := by
      rw [Server.countFrame, if_neg hexpired]
    have hnext : (internal.frameCount + 1).toNat = internal.frameCount.toNat + 1 := by omega
    have hnonneg : 0 ≤ internal.frameCount + 1 := by omega
    rw [Window.arrival, Window.arrive, hcounted, if_neg hcurrent, passes_iff hnonneg hmax, hnext]
    refine ⟨hnonneg, ?_, rfl⟩
    rw [window, hnext]
    rfl

theorem limitFrame_of_limits {ws : ConnId} (h : limits server a ws) (now : Nat) :
    server.limitFrame ws now =
      (server.put a (Server.countFrame (server.heap a) server.maxFramesPerSec now).1,
        (Server.countFrame (server.heap a) server.maxFramesPerSec now).2) := by
  rw [Server.limitFrame]
  dsimp only
  rw [if_pos ⟨h.1, h.2.1⟩, h.2.2]

theorem heap_limitFrame {ws : ConnId} (h : limits server a ws) (now : Nat) :
    (server.limitFrame ws now).1.heap a =
      (Server.countFrame (server.heap a) server.maxFramesPerSec now).1 := by
  rw [limitFrame_of_limits h]
  exact Function.update_self _ _ _

theorem limitFrame_of_not_limits {ws : ConnId} (h : ¬ limits server a ws) (now : Nat) :
    (server.limitFrame ws now).1.heap a = server.heap a := by
  rw [Server.limitFrame]
  dsimp only
  split
  · next hlimit =>
      cases hsession : server.sessionOf (server.connections ws).clientUuid with
      | none => rfl
      | some b =>
          have hne : a ≠ b := by
            rintro rfl
            exact h ⟨hlimit.1, hlimit.2, hsession⟩
          exact Function.update_of_ne hne _ _
  · rfl

def Nonneg (server : Server) : Prop := ∀ a, 0 ≤ (server.heap a).frameCount

theorem nonneg_of_keeps (h : Keeps server next) (hserver : Nonneg server) : Nonneg next := by
  intro a
  obtain hkept | ⟨-, hzero⟩ := h.counter a
  · exact (hserver a).trans_eq (congrArg Prod.fst hkept).symm
  · exact hzero.ge

theorem window_of_counter {internal other : InternalSession}
    (h : counter internal = counter other) :
    window internal = window other := by
  have hcount : internal.frameCount = other.frameCount := congrArg Prod.fst h
  have hstart : internal.windowStart = other.windowStart := congrArg Prod.snd h
  rw [window, hcount, hstart, ← window]

theorem window_of_keeps (h : Keeps server next) (ha : a < server.nextAddr) :
    window (next.heap a) = window (server.heap a) := by
  obtain hkept | ⟨hnew, -⟩ := h.counter a
  · exact window_of_counter hkept
  · exact absurd ha hnew.not_gt

end Counting

section Steps

/-- A server that limits frames, as far as the limiter reads it. -/
structure Limited (max : Int) (server : Server) : Prop where
  registered : Registered server
  maxFramesPerSec : server.maxFramesPerSec = max
  nonneg : Nonneg server

/-- How an event that lets `arrivals` arrive for the session `a` moves its window. -/
structure Counts (max : Int) (a : Addr) (server next : Server) (arrivals : List Arrival) :
    Prop where
  nextAddr : server.nextAddr ≤ next.nextAddr
  maxFramesPerSec : next.maxFramesPerSec = max
  moved :
    (arrivals = [] ∧ (a < server.nextAddr → window (next.heap a) = window (server.heap a))) ∨
    a < server.nextAddr ∧ ∃ now, arrivals = [(window (server.heap a)).arrival 1000 max.toNat now] ∧
      window (next.heap a) = (window (server.heap a)).arrive 1000 now

variable {server next : Server} {max : Int}

theorem lt_of_limits {a : Addr} {ws : ConnId} (h : Registered server)
    (hlimits : limits server a ws) :
    a < server.nextAddr := by
  obtain ⟨-, -, hsession⟩ := hlimits
  rw [Server.sessionOf, Option.or_eq_some_iff] at hsession
  obtain hactive | ⟨-, hpending⟩ := hsession
  · exact (h.active hactive).lt
  · exact (h.pending hpending).lt

theorem counts_of_keeps (h : Keeps server next) (hserver : Limited max server) (a : Addr) :
    Counts max a server next [] :=
  ⟨h.nextAddr, h.maxFramesPerSec.trans hserver.maxFramesPerSec, .inl ⟨rfl, window_of_keeps h⟩⟩

theorem Counts.trans_keeps {mid : Server} {a : Addr} {arrivals : List Arrival}
    (h : Counts max a server mid arrivals) (hkeeps : Keeps mid next) :
    Counts max a server next arrivals := by
  have hwindow : a < server.nextAddr → window (next.heap a) = window (mid.heap a) :=
    fun ha => window_of_keeps hkeeps (ha.trans_le h.nextAddr)
  refine ⟨h.nextAddr.trans hkeeps.nextAddr, hkeeps.maxFramesPerSec.trans h.maxFramesPerSec, ?_⟩
  obtain ⟨hnone, hkept⟩ | ⟨ha, now, hone, harrive⟩ := h.moved
  · exact .inl ⟨hnone, fun ha => (hwindow ha).trans (hkept ha)⟩
  · exact .inr ⟨ha, now, hone, (hwindow ha).trans harrive⟩

theorem counts_limitFrame (hserver : Limited max server) (hmax : 0 < max) (a : Addr) (ws : ConnId)
    (now : Nat) :
    Counts max a server (server.limitFrame ws now).1
      (if limits server a ws then
        [⟨now, 1000 ≤ now - (server.heap a).windowStart, (server.limitFrame ws now).2⟩]
      else []) := by
  obtain ⟨heap, hheap⟩ := limitFrame_eq server ws now
  refine ⟨by rw [hheap], by rw [hheap]; exact hserver.maxFramesPerSec, ?_⟩
  by_cases hlimits : limits server a ws
  · obtain ⟨-, harrive, harrival⟩ := window_countFrame (hserver.nonneg a) hmax now
    refine .inr ⟨lt_of_limits hserver.registered hlimits, now, ?_, ?_⟩
    · rw [if_pos hlimits, limitFrame_of_limits hlimits, hserver.maxFramesPerSec, harrival]
    · rw [heap_limitFrame hlimits, hserver.maxFramesPerSec, harrive]
  · rw [if_neg hlimits, limitFrame_of_not_limits hlimits]
    exact .inl ⟨rfl, fun _ => rfl⟩

variable [HashOrder StdString] [HashOrder Addr]

theorem keeps_run {actions : List Action} (h : Unlimited actions) (server : Server) :
    Keeps server (run perform server actions) := by
  induction actions generalizing server with
  | nil => exact keeps_refl server
  | cons action actions ih =>
      rw [unlimited_cons] at h
      exact (keeps_perform server h.1).trans (ih h.2 _)

theorem nonneg_perform (h : Nonneg server) (action : Action) : Nonneg (perform server action) := by
  intro a
  by_cases hlimits : Limits action
  · cases action with
    | limit ws now =>
        rw [perform]
        by_cases hcounted : limits server a ws
        · rw [heap_limitFrame hcounted]
          exact (window_countFrame (h a) hcounted.1 now).1
        · rw [limitFrame_of_not_limits hcounted]
          exact h a
    | setMaxFramesPerSec max => exact h a
    | _ => cases hlimits
  · exact nonneg_of_keeps (keeps_perform server hlimits) h a

theorem nonneg_step (h : Nonneg server) (event : Event) : Nonneg (step server event) := by
  rw [← run_actions]
  have hkeep : ∀ server action, Nonneg server → True → Nonneg (perform server action) :=
    fun _ action hserver _ => nonneg_perform hserver action
  exact invariant_run hkeep h (stepsMeet_of_forall fun _ _ => trivial)

theorem step_of_undefined (h : server.undefinedBehaviour) (event : Event) :
    step server event = server := by
  rw [step, if_pos h]

theorem keeps_step_frame {ws : ConnId} (hdefined : ¬ server.undefinedBehaviour)
    (hlistening : (server.connections ws).listening) (frame : Frame) (now : Nat) :
    Keeps ({ server with framesIn := server.framesIn + 1 }.limitFrame ws now).1
      (step server (.frame ws frame now)) := by
  obtain ⟨rest, hactions, hrest⟩ := onFrameActions_eq server ws frame now
  rw [← run_actions, actions, if_neg hdefined, handleActions, if_pos hlistening, hactions]
  exact keeps_run hrest _

/-- Only a frame is counted, and only a new limit changes the limit. -/
theorem keeps_step {event : Event} (hframe : ∀ ws frame now, event ≠ .frame ws frame now)
    (hmax : ∀ max, event ≠ .setMaxFramesPerSec max) : Keeps server (step server event) := by
  by_cases hundefined : server.undefinedBehaviour
  · rw [step_of_undefined hundefined]
    exact keeps_refl server
  · rw [← run_actions, actions, if_neg hundefined]
    exact keeps_run (unlimited_handleActions server hframe hmax) server

theorem counts_step_frame (hserver : Limited max server) (hmax : 0 < max)
    (hdefined : ¬ server.undefinedBehaviour) (a : Addr) (ws : ConnId) (frame : Frame) (now : Nat) :
    Counts max a server (step server (.frame ws frame now))
      (arrivalsOf a server (.frame ws frame now)) := by
  rw [arrivalsOf]
  by_cases hlistening : (server.connections ws).listening
  · let received : Server := { server with framesIn := server.framesIn + 1 }
    have hreceived : Limited max received :=
      ⟨registered_quiet hserver.registered (quiet_settings Permits.any server _ _ _ _ _ _),
        hserver.maxFramesPerSec, hserver.nonneg⟩
    have hcounted := (counts_limitFrame hreceived hmax a ws now).trans_keeps
      (keeps_step_frame hdefined hlistening frame now)
    have hpasses : (received.limitFrame ws now).2 = (server.limitFrame ws now).2 := by
      obtain ⟨heap, heq⟩ := limitFrame_framesIn server ws now
      have heq : received.limitFrame ws now = _ := heq
      rw [heq]
    have hlimits : (¬ server.undefinedBehaviour ∧ (server.connections ws).listening ∧
        limits server a ws) ↔ limits server a ws := by
      simp [hdefined, hlistening]
    rw [if_congr hlimits rfl rfl]
    rw [hpasses] at hcounted
    exact ⟨hcounted.nextAddr, hcounted.maxFramesPerSec, hcounted.moved⟩
  · rw [if_neg fun h => hlistening h.2.1, ← run_actions, actions, if_neg hdefined,
      handleActions, if_neg hlistening]
    exact counts_of_keeps (keeps_refl server) hserver a

theorem counts_step (hserver : Limited max server) (hmax : 0 < max) {event : Event}
    (hfixed : ∀ other, event = .setMaxFramesPerSec other → other = max) (a : Addr) :
    Counts max a server (step server event) (arrivalsOf a server event) := by
  by_cases hundefined : server.undefinedBehaviour
  · have hnone : arrivalsOf a server event = [] := by
      cases event with
      | frame => simp [arrivalsOf, hundefined]
      | _ => rfl
    rw [step_of_undefined hundefined, hnone]
    exact counts_of_keeps (keeps_refl server) hserver a
  · cases event with
    | frame ws frame now => exact counts_step_frame hserver hmax hundefined a ws frame now
    | setMaxFramesPerSec other =>
        rw [hfixed other rfl, step, if_neg hundefined]
        exact ⟨le_rfl, rfl, .inl ⟨rfl, fun _ => rfl⟩⟩
    | _ => exact counts_of_keeps (keeps_step (by simp) (by simp)) hserver a

theorem limited_step (hserver : Limited max server) (hmax : 0 < max) {event : Event}
    (hfixed : ∀ other, event = .setMaxFramesPerSec other → other = max) :
    Limited max (step server event) := by
  have hcounts := counts_step hserver hmax hfixed 0
  exact ⟨moves_keep (fun _ _ => registered_move) hserver.registered
    (moves_step server (stepMeets_any server event)), hcounts.maxFramesPerSec,
    nonneg_step hserver.nonneg event⟩

theorem outputs_arrivalsOf (hserver : Limited max server) (hmax : 0 < max) {events : List Event}
    (hfixed : ∀ event ∈ events, ∀ other, event = .setMaxFramesPerSec other → other = max)
    (a : Addr) :
    ∃ (start : Window) (times : List ℕ),
      outputs step (arrivalsOf a) server events = arrivals 1000 max.toNat start times ∧
      (a < server.nextAddr → start = window (server.heap a)) := by
  induction events generalizing server with
  | nil => exact ⟨window (server.heap a), [], rfl, fun _ => rfl⟩
  | cons event events ih =>
      have hfirst := hfixed event List.mem_cons_self
      have hcounts := counts_step hserver hmax hfirst a
      obtain ⟨start, times, hrest, hstart⟩ := ih (limited_step hserver hmax hfirst)
        fun other hother => hfixed other (List.mem_cons_of_mem event hother)
      rw [outputs, hrest]
      obtain ⟨hnone, hkept⟩ | ⟨ha, now, hone, harrive⟩ := hcounts.moved
      · rw [hnone]
        exact ⟨start, times, rfl,
          fun ha => (hstart (ha.trans_le hcounts.nextAddr)).trans (hkept ha)⟩
      · rw [hone, hstart (ha.trans_le hcounts.nextAddr), harrive]
        exact ⟨window (server.heap a), now :: times, rfl, fun _ => rfl⟩

end Steps

section Runs

variable [HashOrder StdString] [HashOrder Addr]

theorem limited_before (mode : ServerMode) {max : Int} {before : List Event}
    (hmax : (run step (Server.new mode) before).maxFramesPerSec = max) :
    Limited max (run step (Server.new mode) before) where
  registered := moves_run (fun _ _ => registered_move) (registered_new mode)
    (stepsMeet_mono (fun server event _ => stepMeets_any server event)
      (stepsMeet_of_forall fun _ _ => trivial))
  maxFramesPerSec := hmax
  nonneg := by
    have hkeep : ∀ server event, Nonneg server → True → Nonneg (step server event) :=
      fun _ event hserver _ => nonneg_step hserver event
    have hnew : Nonneg (Server.new mode) := fun _ => le_rfl
    exact invariant_run hkeep hnew (stepsMeet_of_forall fun _ _ => trivial)

def arrivalsIn (a : Addr) (server : Server) (events : List Event) : List Arrival :=
  outputs step (arrivalsOf a) server events

/-- Under a limit `max` at most `2 * max` of the frames that arrive for a session pass
in less than a second, and at most `max` between two resets of its window. -/
theorem frames_limited (mode : ServerMode) {before events : List Event} {max : Int}
    (hmax : 0 < max) (hsetting : (run step (Server.new mode) before).maxFramesPerSec = max)
    (hfixed : ∀ event ∈ events, ∀ other, event = .setMaxFramesPerSec other → other = max)
    (a : Addr)
    (hsorted : ((arrivalsIn a (run step (Server.new mode) before) events).map
      Arrival.time).Pairwise (· ≤ ·)) :
    let arrived := arrivalsIn a (run step (Server.new mode) before) events
    (∀ first last, last < first + 1000 →
      (arrived.countP (passesWithin first last) : Int) ≤ 2 * max) ∧
    ∀ segment, segment <:+: arrived → (∀ arrival ∈ segment.tail, ¬ arrival.resets) →
      (segment.countP Arrival.passes : Int) ≤ max := by
  obtain ⟨start, times, harrived, -⟩ :=
    outputs_arrivalsOf (limited_before mode hsetting) hmax hfixed a
  dsimp only
  rw [arrivalsIn, harrived] at hsorted ⊢
  rw [map_time_arrivals] at hsorted
  constructor
  · intro first last hshort
    have hpasses : (arrivals 1000 max.toNat start times).countP (passesWithin first last) ≤
        2 * max.toNat :=
      passesWithin_le (by decide) hshort start hsorted
    omega
  · intro segment hinfix hresets
    obtain ⟨other, hsegment⟩ := arrivals_of_infix hinfix
    rw [hsegment] at hresets ⊢
    have hpasses := passes_of_one_reset hresets
    omega

end Runs

/-- Two frames around the end of a window pass under the limit 1. -/
theorem frames_limited_boundary :
    let _ := HashOrder.ascending StdString
    let _ := HashOrder.ascending Addr
    let server := run step (Server.new .broadcast)
      [.setMaxFramesPerSec 1, .connect 1 false,
        .frame 1 (Server.identifyFrame (List.replicate 16 0)) 0]
    let events : List Event :=
      [.frame 1 (signalFrame .clientReady) 999, .frame 1 (signalFrame .clientReady) 1000]
    arrivalsIn 0 server events = [⟨999, false, true⟩, ⟨1000, true, true⟩] ∧
      ∀ first last, last < first + 1000 →
        ((arrivalsIn 0 server events).countP (passesWithin first last) : Int) ≤ 2 * 1 := by
  intro _ _ server events
  have hfixed : ∀ event ∈ events, ∀ other, event = .setMaxFramesPerSec other → other = 1 := by
    simp [events]
  exact ⟨by decide +kernel,
    (frames_limited .broadcast (by decide) (by decide +kernel) hfixed 0 (by decide +kernel)).1⟩

end DanWs.FrameLimits
