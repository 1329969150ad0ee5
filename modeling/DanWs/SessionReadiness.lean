import DanWs.ReadinessHistories
import DanWs.Registration

/-!
Readiness: an activated session becomes ready, once, when its client asks for it.
In the topic modes the activation sends `ServerSync` without noting that it was
sent, so no request ever makes such a session ready.
-/

namespace DanWs.SessionReadiness

open DanWs.CalmActions
open DanWs.FiniteMaps
open DanWs.ReadinessHistories
open DanWs.ServerCalls
open DanWs.ServerConditions
open DanWs.ServerMoves
open DanWs.ServerSteps
open DanWs.ServerTurns
open DanWs.Servers
open DanWs.SessionStanding
open DanWs.Sessions
open DanWs.StepRuns
open DanWs.WireTypes

section Activated

variable {server next : Server} {a : Addr} {since older : List Effect}

/-- How far a session can be since its activation, with what was recorded since. -/
structure Reached (session : Session) (a : Addr) (since : List Effect) : Prop where
  sent : session.serverSyncSent = true
  stage : (session.state = .synchronizing ∧ since.count (.onReady a) = 0) ∨
    (session.state = .ready ∧ since.count (.onReady a) = 1)

/-- At any point since the last activation of `a`, unless it was interrupted. -/
def Progresses (a : Addr) (server : Server) : Prop :=
  ∀ since older, server.history = since ++ .onConnection a :: older →
    (∀ effect ∈ since, ¬ interrupts a effect) → Reached (server.heap a).session a since

theorem Reached.congr {session changed : Session} {since later : List Effect}
    (h : Reached session a since) (hstage : SessionStanding.stage changed =
      SessionStanding.stage session) (hcount : later.count (.onReady a) = 0) :
    Reached changed a (later ++ since) := by
  have hstate : changed.state = session.state := congrArg Stage.state hstage
  have hsent : changed.serverSyncSent = session.serverSyncSent :=
    congrArg Stage.serverSyncSent hstage
  refine ⟨hsent.trans h.sent, ?_⟩
  rw [hstate, List.count_append, hcount, Nat.zero_add]
  exact h.stage

theorem progresses_next {effects : List Effect} (h : Progresses a server)
    (hhistory : next.history = effects ++ server.history)
    (hactivation : Effect.onConnection a ∉ effects)
    (hkeep : (∀ effect ∈ effects, ¬ interrupts a effect) →
      effects.count (.onReady a) = 0 ∧
        stage (next.heap a).session = stage (server.heap a).session) :
    Progresses a next := by
  intro since older hsplit hcontinuous
  rw [hhistory] at hsplit
  obtain ⟨earlier, rfl, hearlier⟩ := split_behind hsplit hactivation
  rw [List.forall_mem_append] at hcontinuous
  obtain ⟨hcount, hstage⟩ := hkeep hcontinuous.1
  exact (h earlier older hearlier hcontinuous.2).congr hstage hcount

theorem count_unmarked {effects : List Effect} (h : ∀ effect ∈ effects, ¬ Marks effect)
    (a : Addr) : Effect.onConnection a ∉ effects ∧ effects.count (.onReady a) = 0 :=
  ⟨fun hmem => h _ hmem trivial, List.count_eq_zero.mpr fun hmem => h _ hmem trivial⟩

theorem stage_update {heap : Addr → InternalSession} {b : Addr} {internal : InternalSession}
    (h : a = b → stage internal.session = stage (heap b).session) :
    stage (Function.update heap b internal a).session = stage (heap a).session :=
  apply_update (fun internal => stage internal.session) h

/-- Nothing is asked of a session that is interrupted, and the others are left alone. -/
theorem progresses_interrupted {b : Addr} {internal : InternalSession} {effects : List Effect}
    (h : Progresses a server) (hheap : next.heap = Function.update server.heap b internal)
    (hhistory : next.history = effects ++ server.history)
    (hactivation : Effect.onConnection a ∉ effects) (hcount : effects.count (.onReady a) = 0)
    (hinterrupts : ∃ effect ∈ effects, interrupts b effect) : Progresses a next := by
  refine progresses_next h hhistory hactivation fun hcontinuous => ⟨hcount, ?_⟩
  rw [hheap]
  apply stage_update
  rintro rfl
  obtain ⟨effect, heffect, hinterrupted⟩ := hinterrupts
  exact absurd hinterrupted (hcontinuous effect heffect)

theorem progresses_closeSession (h : Progresses a server) (b : Addr) :
    Progresses a (server.closeSession b) := by
  obtain ⟨connections, heq⟩ := closeSession_eq server b
  rw [heq]
  exact progresses_interrupted h rfl List.singleton_append.symm (by simp) (by simp)
    (by simp [interrupts])

theorem progresses_accept (h : Progresses a server) {b : Addr} (hne : a ≠ b) (uuid : StdString)
    (principal : StdString) (via : Via) : Progresses a (server.accept uuid b principal via) := by
  obtain ⟨effects, framesOut, heq, hsent⟩ := accept_eq server uuid b principal via
  have hunmarked : ∀ effect ∈ effects, ¬ Marks effect := by
    intro effect heffect
    obtain ⟨ws, -, rfl⟩ := hsent effect heffect
    exact id
  obtain ⟨hactivation, hcount⟩ := count_unmarked hunmarked a
  rw [heq]
  refine progresses_next h rfl (by simp [hactivation]) fun _ => ⟨by simp [hcount], ?_⟩
  exact stage_update fun heq => absurd heq hne

variable [HashOrder StdString]

theorem progresses_activateSession {b : Addr} {uuid : StdString} {ws : Option ConnId}
    {rest : List Effect} (hentered : server.history = .activated uuid b ws :: rest)
    (h : a ≠ b → Progresses a server) (htopic : server.isTopicMode = false)
    (principal : StdString) : Progresses a (server.activateSession b principal) := by
  obtain ⟨principals, effects, heq, hunmarked⟩ :=
    activateSession_principal server htopic b principal
  obtain ⟨hactivation, hcount⟩ := count_unmarked hunmarked a
  rw [heq]
  rcases eq_or_ne a b with rfl | hne
  · intro since older hsplit hcontinuous
    obtain ⟨earlier, rfl, hearlier⟩ := split_behind hsplit hactivation
    cases earlier with
    | nil =>
        dsimp only
        rw [Function.update_self, List.append_nil]
        exact ⟨rfl, .inl ⟨rfl, hcount⟩⟩
    | cons head earlier =>
        rw [List.cons_append, List.cons.injEq, hentered] at hearlier
        obtain ⟨-, hrest⟩ := hearlier
        cases earlier with
        | nil => cases hrest
        | cons entry earlier =>
            rw [List.cons_append, List.cons.injEq] at hrest
            obtain ⟨rfl, -⟩ := hrest
            exact absurd (by simp [interrupts]) (hcontinuous (.activated uuid a ws) (by simp))
  · have hhistory : effects ++ .onConnection b :: server.history =
        (effects ++ [.onConnection b]) ++ server.history := by simp
    refine progresses_next (h hne) hhistory (by simp [hactivation, hne]) fun _ => ⟨?_, ?_⟩
    · simp [hcount]
    · exact stage_update fun heq => absurd heq hne

theorem progresses_answer (h : Progresses a server) (b : Addr) (frame : Frame) :
    Progresses a (server.runSession b fun session tx => session.handleFrame tx frame) := by
  obtain ⟨principals, effects, heq, hunmarked⟩ := runSession_eq server b
    fun session tx => session.handleFrame tx frame
  obtain ⟨hactivation, hcount⟩ := count_unmarked hunmarked a
  rw [heq]
  obtain ⟨hquiet, hstage⟩ | ⟨hready, hstate, hsent, hstage⟩ :=
    handleFrame_cases (server.heap b).session
      ((server.heap b).session.txProvider.bind server.principals.principals.lookup) frame
  · rw [hquiet]
    refine progresses_next h rfl (by simpa using hactivation) fun _ => ⟨by simpa using hcount, ?_⟩
    exact stage_update fun _ => hstage
  · rw [hready]
    rcases eq_or_ne a b with rfl | hne
    · intro since older hsplit hcontinuous
      obtain ⟨earlier, rfl, hearlier⟩ := split_behind hsplit (by simp [hactivation])
      rw [List.forall_mem_append] at hcontinuous
      have hreached := h earlier older hearlier hcontinuous.2
      have hcount' : earlier.count (.onReady a) = 0 :=
        (hreached.stage.resolve_right fun hdone => hstate hdone.1).2
      dsimp only
      rw [Function.update_self]
      refine ⟨(congrArg Stage.serverSyncSent hstage).trans hsent, .inr
        ⟨congrArg Stage.state hstage, ?_⟩⟩
      simp [hcount, hcount']
    · refine progresses_next h rfl (by simp [hactivation]) fun _ => ⟨by simp [hcount, hne.symm], ?_⟩
      exact stage_update fun heq => absurd heq hne

theorem progresses_turn {permits : Permits} {terms : Terms}
    (htopic : server.isTopicMode = false) (h : Progresses a server)
    (hturn : Turn permits terms server next) : Progresses a next := by
  cases hturn with
  | calm hcalm =>
      obtain ⟨effects, hhistory, hunmarked⟩ := hcalm.unmarked
      obtain ⟨hactivation, hcount⟩ := count_unmarked hunmarked a
      exact progresses_next h hhistory hactivation fun _ => ⟨hcount, hcalm.stage a⟩
  | answer hactive frame => exact progresses_answer h _ frame
  | disconnect hpermitted =>
      rename_i uuid cause
      obtain heq | ⟨b, -, heq⟩ | ⟨b, -, heq⟩ := handleSessionDisconnect_cases server uuid cause <;>
        rw [heq]
      · exact h
      · refine progresses_next h List.singleton_append.symm (by simp) fun _ => ⟨by simp, ?_⟩
        exact stage_update fun _ => rfl
      · obtain ⟨index, principals, heq, -⟩ := tearDownActive_eq server uuid cause b
        rw [heq]
        have hhistory : .onDisconnect b :: .tornDown cause b (server.heap b).ws :: server.history =
            [.onDisconnect b, .tornDown cause b (server.heap b).ws] ++ server.history := rfl
        exact progresses_interrupted h rfl hhistory (by simp) (by simp) (by simp [interrupts])
  | authorize hpending hprincipal hpermitted =>
      rename_i uuid principal b via
      obtain ⟨effects, framesOut, heq, -⟩ := accept_eq server uuid b principal via
      have hentered : (server.accept uuid b principal via).history =
          .activated uuid b (server.heap b).ws ::
            (effects ++ [.authorized b (server.heap b).ws via] ++ server.history) := by
        rw [heq]
        rfl
      refine progresses_activateSession hentered
        (fun hne => progresses_accept h hne uuid principal via) ?_ principal
      rw [heq]
      exact htopic
  | attach ws hactive htakeover =>
      rename_i uuid b
      rw [Server.attach]
      split
      · exact progresses_interrupted h rfl List.singleton_append.symm (by simp) (by simp)
          (by simp [interrupts])
      · have hentered : ∀ principal, (server.attachAuthorized uuid b ws principal).history =
            .activated uuid b (some ws) :: server.history := fun _ => rfl
        refine progresses_activateSession (hentered _) (fun hne => ?_) htopic _
        refine progresses_next h List.singleton_append.symm (by simp) fun _ => ⟨by simp, ?_⟩
        exact (stage_update fun heq => absurd heq hne).trans
          (stage_update fun heq => absurd heq hne)
  | create ws now hnone hroom =>
      rename_i uuid
      rw [Server.createSession]
      split
      · exact progresses_interrupted h rfl List.singleton_append.symm (by simp) (by simp)
          (by simp [interrupts])
      · have hentered : ∀ principal, (server.createAuthorized uuid ws now principal).history =
            .activated uuid server.nextAddr (some ws) :: server.history := fun _ => rfl
        refine progresses_activateSession (hentered _) (fun hne => ?_) htopic _
        refine progresses_next h List.singleton_append.symm (by simp) fun _ => ⟨by simp, ?_⟩
        exact stage_update fun heq => absurd heq hne
  | close => exact List.foldlRecOn _ _ h fun _ hmid b _ => progresses_closeSession hmid b
  | connect | withdraw | enable | limit | listen | undefined => exact h

end Activated

section Events

variable [HashOrder StdString] [HashOrder Addr] {server : Server} {a : Addr}

theorem state_readies {event : Event} (h : readies server a event)
    (hsent : (server.heap a).session.serverSyncSent = true) :
    ((step server event).heap a).session.state = .ready := by
  cases event with
  | frame ws frame now =>
      simp only [readies, Bool.and_eq_true, Bool.not_eq_true', decide_eq_true_eq] at h
      obtain ⟨⟨⟨⟨⟨hdefined, hlistening⟩, hpasses⟩, hidentified⟩, hframe⟩, hactive⟩ := h
      obtain ⟨heap, hheap⟩ := limitFrame_framesIn server ws now
      have hcalm : Calm Permits.any { server with framesIn := server.framesIn + 1 }
          ({ server with framesIn := server.framesIn + 1 }.limitFrame ws now).1 :=
        calm_limitFrame _ ws now
      rw [hheap] at hcalm
      have hsent' : (heap a).session.serverSyncSent = true :=
        (congrArg Stage.serverSyncSent (hcalm.stage a)).trans hsent
      rw [step, if_neg (by simp [hdefined]), handle, if_pos hlistening, Server.onFrame, hheap]
      dsimp only
      rw [if_neg (by simp [hpasses]), if_neg (by simp [hidentified]), if_neg (by simp [hframe]),
        Server.dispatchSession]
      dsimp only
      rw [hactive]
      dsimp only
      rw [if_neg (by simp [Server.isTopicFrame, hframe])]
      obtain ⟨principals, effects, heq, -⟩ := runSession_eq _ a
        fun session tx => session.handleFrame tx frame
      rw [heq]
      dsimp only
      rw [Function.update_self]
      exact handleFrame_clientReady _ _ frame hframe hsent'
  | _ => cases h

theorem history_run (server : Server) (events : List Event) :
    ∃ effects, (run step server events).history = effects ++ server.history := by
  have hmeet : StepsMeet step (fun server event => stepMeets Permits.any server event) server
      events :=
    stepsMeet_mono (fun server event _ => stepMeets_any server event)
      (stepsMeet_of_forall fun _ _ => trivial)
  have hkeep : ∀ mid next, (∃ effects, mid.history = effects ++ server.history) →
      Move Permits.any mid next → ∃ effects, next.history = effects ++ server.history := by
    rintro mid next ⟨earlier, hearlier⟩ hmove
    obtain ⟨effects, hhistory, -⟩ := recorded_move hmove
    exact ⟨effects ++ earlier, by rw [hhistory, hearlier, List.append_assoc]⟩
  exact moves_run hkeep ⟨[], rfl⟩ hmeet

theorem turns_run_any {invariant : Server → Prop} {mode : ServerMode}
    (hturn : ∀ server next, server.mode = mode → invariant server →
      Turn Permits.any Terms.any server next → invariant next)
    (h : invariant (Server.new mode)) (events : List Event) :
    invariant (run step (Server.new mode) events) ∧
      (run step (Server.new mode) events).mode = mode := by
  have hmeet : StepsMeet step (fun server event => stepMeets Permits.any server event ∧
      Terms.any.Meets server event) (Server.new mode) events :=
    stepsMeet_mono (fun server event _ => ⟨stepMeets_any server event, fun _ => trivial,
      fun _ _ => trivial, fun _ _ => trivial⟩) (stepsMeet_of_forall fun _ _ => trivial)
  have hkeep : ∀ server next, (invariant server ∧ server.mode = mode) →
      Turn Permits.any Terms.any server next → invariant next ∧ next.mode = mode :=
    fun server next hserver hnext =>
      ⟨hturn server next hserver.2 hserver.1 hnext, (mode_turn hnext).trans hserver.2⟩
  exact turns_run hkeep ⟨h, rfl⟩ hmeet

end Events

section Runs

variable {mode : ServerMode} {a : Addr}

theorem isTopicMode_of_mode {server : Server} (h : server.mode = mode) :
    server.isTopicMode = (Server.new mode).isTopicMode := by
  rw [Server.isTopicMode, h, Server.isTopicMode]
  rfl

variable [HashOrder StdString] [HashOrder Addr]

theorem progresses_run (htopic : (Server.new mode).isTopicMode = false) (events : List Event) :
    Progresses a (run step (Server.new mode) events) := by
  refine (turns_run_any (fun server next hmode h hturn => ?_) ?_ events).1
  · exact progresses_turn ((isTopicMode_of_mode hmode).trans htopic) h hturn
  · intro since older hsplit
    simp [Server.new] at hsplit

theorem unready_run (htopic : (Server.new mode).isTopicMode = true) (events : List Event) :
    Unready (run step (Server.new mode) events) := by
  refine (turns_run_any (fun server next hmode h hturn => ?_) ?_ events).1
  · exact unready_turn ((isTopicMode_of_mode hmode).trans htopic) h hturn
  · exact fun _ => ⟨rfl, nofun⟩

theorem reached_run (htopic : (Server.new mode).isTopicMode = false) {before after : List Event}
    {event : Event} {since older : List Effect}
    (hready : readies (run step (Server.new mode) before) a event)
    (hhistory : (run step (Server.new mode) (before ++ event :: after)).history =
      since ++ .onConnection a :: older)
    (hactivated : older.length < (run step (Server.new mode) before).history.length)
    (hcontinuous : ∀ effect ∈ since, ¬ interrupts a effect) :
    ((run step (Server.new mode) (before ++ event :: after)).heap a).session.state = .ready ∧
      since.count (.onReady a) = 1 := by
  have hprogress := @progresses_run mode a _ _ htopic
  have hlast := hprogress (before ++ event :: after) since older hhistory hcontinuous
  rw [run_append, run_cons] at hhistory
  have hbefore := hprogress before
  have hbehind : Progresses a (step (run step (Server.new mode) before) event) := by
    have h := hprogress (before ++ [event])
    rwa [run_append] at h
  revert hready hhistory hactivated hbefore hbehind
  generalize run step (Server.new mode) before = server
  intro hready hhistory hactivated hbefore hbehind
  obtain ⟨effects, heffects⟩ : ∃ effects, (step server event).history =
      effects ++ server.history := history_run server [event]
  obtain ⟨later, hlater⟩ := history_run (step server event) after
  rw [hlater, heffects, ← List.append_assoc] at hhistory
  obtain ⟨earlier, rfl, hearlier⟩ := split_before hhistory hactivated
  simp only [List.forall_mem_append] at hcontinuous
  -- the frame finds the session activated, and leaves it ready for the first time
  have hreached := hbefore earlier older hearlier hcontinuous.2
  have hstate := state_readies hready hreached.sent
  have hnow := hbehind (effects ++ earlier) older (by rw [heffects, hearlier, List.append_assoc])
    (List.forall_mem_append.mpr ⟨hcontinuous.1.2, hcontinuous.2⟩)
  have hcount := (hnow.stage.resolve_left fun hsync => by
    rw [hstate] at hsync
    cases hsync.1).2
  refine hlast.stage.resolve_left fun hsync => ?_
  rw [List.append_assoc, List.count_append, hcount] at hsync
  omega

end Runs

/-- Behind an activation, a session whose client has sent `ClientReady` since is
ready, and became so once, exactly in the modes with principals. -/
theorem readyOnce_run [HashOrder StdString] [HashOrder Addr] (mode : ServerMode)
    {before after : List Event} {event : Event} {a : Addr} {since older : List Effect}
    (hready : readies (run step (Server.new mode) before) a event)
    (hhistory : (run step (Server.new mode) (before ++ event :: after)).history =
      since ++ .onConnection a :: older)
    (hactivated : older.length < (run step (Server.new mode) before).history.length)
    (hcontinuous : ∀ effect ∈ since, ¬ interrupts a effect) :
    let server := run step (Server.new mode) (before ++ event :: after)
    ((server.heap a).session.state = .ready ∧ since.count (.onReady a) = 1) ↔
      mode = .broadcast ∨ mode = .principal := by
  constructor
  · rintro ⟨hstate, -⟩
    by_contra hmode
    have htopic : (Server.new mode).isTopicMode = true := by
      cases mode <;> first | rfl | exact absurd (by decide) hmode
    exact (unready_run htopic (before ++ event :: after) a).2 hstate
  · intro hmode
    have htopic : (Server.new mode).isTopicMode = false := by
      rcases hmode with rfl | rfl <;> rfl
    exact reached_run htopic hready hhistory hactivated hcontinuous

def arrival : List Event :=
  [.connect 1 false, .frame 1 (Server.identifyFrame (List.replicate 16 0)) 0]

def arrived : Effect := .activated (bytesToUuid (List.replicate 16 0)) 0 (some 1)

def clientReady : Event := .frame 1 (signalFrame .clientReady) 0

theorem readyOnce_run_arrival :
    let _ := HashOrder.ascending StdString
    let _ := HashOrder.ascending Addr
    let since : List Effect :=
      [.onReady 0, .dispatched 1 0 (some 1), .sent 1 (signalFrame .serverSync)]
    let server := run step (Server.new .principal) (arrival ++ [clientReady])
    (server.heap 0).session.state = .ready ∧ since.count (.onReady 0) = 1 := by
  intro _ _ since
  refine (@readyOnce_run _ _ .principal arrival [] clientReady 0 since [arrived] ?_ ?_ ?_ ?_).mpr
    (.inr rfl)
  all_goals decide +kernel

/-- In the topic modes a session never becomes ready. -/
theorem not_readyOnce_run :
    ¬ ∀ (_ : HashOrder StdString) (_ : HashOrder Addr) (mode : ServerMode)
      (before after : List Event) (event : Event) (a : Addr) (since older : List Effect),
      readies (run step (Server.new mode) before) a event →
      (run step (Server.new mode) (before ++ event :: after)).history =
        since ++ .onConnection a :: older →
      older.length < (run step (Server.new mode) before).history.length →
      (∀ effect ∈ since, ¬ interrupts a effect) →
      ((run step (Server.new mode) (before ++ event :: after)).heap a).session.state = .ready ∧
        since.count (.onReady a) = 1 := by
  intro h
  have hready := h (HashOrder.ascending StdString) (HashOrder.ascending Addr) .sessionTopic
    arrival [] clientReady 0 [.dispatched 1 0 (some 1), .sent 1 (signalFrame .serverSync)]
    [arrived] (by decide +kernel) (by decide +kernel) (by decide +kernel) (by decide +kernel)
  exact absurd hready.2 (by decide)

end DanWs.SessionReadiness
