import DanWs.GuardedQueues
import DanWs.UnsharedRuns

namespace DanWs.GuardedRuns

open DanWs.AuthorizationGate
open DanWs.CalmActions
open DanWs.ConnectionOwners
open DanWs.FiniteMaps
open DanWs.GuardedQueues
open DanWs.PermittedActions
open DanWs.Registration
open DanWs.ServerActions
open DanWs.ServerCalls
open DanWs.ServerConditions
open DanWs.ServerMoves
open DanWs.ServerSteps
open DanWs.Servers
open DanWs.StepRuns
open DanWs.UnsharedRuns
open DanWs.UnsharedUuids
open DanWs.WireTypes

section Entries

variable {server next : Server}

theorem guarded_createPending (h : Guarded server) (hregistered : Registered server)
    (uuid : StdString) (ws : ConnId) (now : Nat) :
    Guarded (server.createPending uuid ws now) := by
  have hothers : ∀ b, b < server.nextAddr →
      (server.createPending uuid ws now).heap b = server.heap b :=
    fun b hb => Function.update_of_ne hb.ne _ _
  refine ⟨h.authEnabled, fun b => ?_, fun name b hindexed => ?_, fun htopic b hactive => ?_⟩
  · rcases eq_or_ne b server.nextAddr with rfl | hne
    · have hnew : (server.createPending uuid ws now).heap server.nextAddr =
          InternalSession.new uuid ws now := Function.update_self _ _ _
      rw [hnew]
      exact ⟨fun hbound => absurd hbound Bool.false_ne_true, fun _ => rfl⟩
    · have hold : (server.createPending uuid ws now).heap b = server.heap b :=
        Function.update_of_ne hne _ _
      rw [hold]
      exact sealed_follows (h.objects b) rfl (follows_of_eq rfl rfl)
        [.pended uuid server.nextAddr (some ws)]
  · obtain ⟨hlt, hgranted⟩ := h.indexed name b hindexed
    rw [hothers b hlt]
    exact ⟨hlt.trans (Nat.lt_succ_self _), granted_append hgranted [_]⟩
  · obtain ⟨u, hu⟩ := hactive
    rw [hothers b (hregistered.active hu).lt]
    exact h.topics htopic b ⟨u, hu⟩

/-- The object alone has entered `sessions_`, behind a granted connection. -/
structure Enters (a : Addr) (server next : Server) : Prop where
  authEnabled : next.authEnabled = server.authEnabled
  mode : next.mode = server.mode
  nextAddr : next.nextAddr = server.nextAddr
  others : ∀ b, b ≠ a → next.heap b = server.heap b
  flushTarget : (next.heap a).flushTarget = (server.heap a).flushTarget
  session : Follows (server.heap a).session (next.heap a).session
  indexed : ∀ name b, Indexed next name b → Indexed server name b
  active : ∀ b, Active next b → Active server b ∨ b = a
  history : ∃ effects, next.history = effects ++ server.history
  granted : granted next.history (server.heap a).flushTarget

theorem enters_accept {uuid principal : StdString} {a : Addr} {via : Via}
    (hregistered : Registered server) (hpending : server.tmpSessions.lookup uuid = some a) :
    Enters a server (server.accept uuid a principal via) := by
  have hholds := hregistered.pending hpending
  obtain ⟨effects, framesOut, heq, -⟩ := accept_eq server uuid a principal via
  have hheap : (server.accept uuid a principal via).heap a =
      { server.heap a with session := (server.heap a).session.authorize principal } := by
    rw [heq]
    exact Function.update_self _ _ _
  rw [heq] at hheap ⊢
  refine ⟨rfl, rfl, rfl, fun b hne => Function.update_of_ne hne _ _, ?_, ?_, fun _ _ => id, ?_,
    ⟨_, rfl⟩, ?_⟩
  · rw [hheap]
  · rw [hheap]
    exact follows_of_eq rfl rfl
  · rintro b ⟨u, hu⟩
    dsimp only at hu
    rw [lookup_insert_eq_ite] at hu
    split at hu
    · exact .inr (Option.some.inj hu).symm
    · exact .inl ⟨u, hu⟩
  · simp [AuthorizationGate.granted, hholds.target]

theorem Enters.guarded {a : Addr} {mid : Server} (h : Enters a server mid)
    (hserver : Guarded server) (ha : a < server.nextAddr) {internal : InternalSession}
    (hauth : next.authEnabled = mid.authEnabled) (hmode : next.mode = mid.mode)
    (hnextAddr : next.nextAddr = mid.nextAddr) (hsessions : next.sessions = mid.sessions)
    (hheap : next.heap = Function.update mid.heap a internal)
    (htarget : internal.flushTarget = (mid.heap a).flushTarget)
    (hbare : internal.session.flatState = none → internal.session.topicHandles = ∅)
    (htopics : mid.isTopicMode → internal.session.flatState.isSome)
    (hindexed : ∀ name b, Indexed next name b → Indexed mid name b ∨ b = a)
    (hhistory : ∃ effects, next.history = effects ++ mid.history) : Guarded next := by
  obtain ⟨later, hlater⟩ := hhistory
  obtain ⟨effects, heffects⟩ := h.history
  have hself : next.heap a = internal := by
    rw [hheap]
    exact Function.update_self _ _ _
  have hothers : ∀ b, b ≠ a → next.heap b = server.heap b := by
    intro b hne
    rw [hheap, Function.update_of_ne hne, h.others b hne]
  have hgranted : AuthorizationGate.granted next.history (next.heap a).flushTarget := by
    rw [hself, htarget, h.flushTarget, hlater]
    exact granted_append h.granted later
  have hextended : next.history = (later ++ effects) ++ server.history := by
    rw [hlater, heffects, List.append_assoc]
  refine ⟨hauth.trans (h.authEnabled.trans hserver.authEnabled), fun b => ?_,
    fun name b hb => ?_, fun htopic b hb => ?_⟩
  · rcases eq_or_ne b a with rfl | hne
    · exact ⟨fun _ => hgranted, by rwa [hself]⟩
    · rw [hothers b hne, hextended]
      exact sealed_follows (hserver.objects b) rfl (follows_of_eq rfl rfl) _
  · rw [hnextAddr, h.nextAddr]
    rcases eq_or_ne b a with rfl | hne
    · exact ⟨ha, hgranted⟩
    · obtain ⟨hlt, hold⟩ := hserver.indexed name b
        (h.indexed name b ((hindexed name b hb).resolve_right hne))
      rw [hothers b hne, hextended]
      exact ⟨hlt, granted_append hold _⟩
  · rw [isTopicMode_of_mode hmode] at htopic
    rcases eq_or_ne b a with rfl | hne
    · rw [hself]
      exact htopics htopic
    · rw [isTopicMode_of_mode h.mode] at htopic
      rw [Active, hsessions] at hb
      rw [hothers b hne]
      exact hserver.topics htopic b ((h.active b hb).resolve_right hne)

theorem guarded_activateSession [HashOrder StdString] {a : Addr} {mid : Server}
    (h : Enters a server mid) (hserver : Guarded server) (ha : a < server.nextAddr)
    (principal : StdString) : Guarded (mid.activateSession a principal) := by
  have hbare : (mid.heap a).session.flatState = none → (mid.heap a).session.topicHandles = ∅ :=
    (sealed_follows (hserver.objects a) h.flushTarget h.session []).bare
  cases htopic : mid.isTopicMode with
  | true =>
      obtain ⟨effects, heq, -⟩ := activateSession_topic mid htopic a principal
      rw [heq]
      exact h.guarded hserver ha rfl rfl rfl rfl rfl rfl
        (fun hnone => absurd hnone (Option.some_ne_none _)) (fun _ => rfl) (fun _ _ => .inl)
        ⟨effects ++ [.onConnection a], by simp⟩
  | false =>
      obtain ⟨principals, effects, heq, -⟩ := activateSession_principal mid htopic a principal
      rw [heq]
      refine h.guarded hserver ha rfl rfl rfl rfl rfl rfl hbare (fun hmode => ?_)
        (fun name b hb => ?_) ⟨effects ++ [.onConnection a], by simp⟩
      · rw [htopic] at hmode
        cases hmode
      · exact ((indexed_indexAddSession_iff mid).mp hb).imp_right And.right

theorem guarded_authorize [HashOrder StdString] [HashOrder Addr] (h : Guarded server)
    (hregistered : Registered server) (uuid principal : StdString) (via : Via) :
    Guarded (perform server (.authorize uuid principal via)) := by
  rw [perform, Server.authorize]
  split
  · exact h
  · cases hpending : server.tmpSessions.lookup uuid with
    | none => exact h
    | some a =>
        exact guarded_activateSession (enters_accept hregistered hpending) h
          (hregistered.pending hpending).lt principal

end Entries

section Runs

variable [HashOrder StdString] [HashOrder Addr] {among : List Event} {server : Server}
  (hkeeps : ∀ event ∈ among, KeepsAuthorization event) (h : Guarded server)

include hkeeps h

theorem guarded_perform (hnamed : Named among server) {action : Action}
    (hfits : Fits among server action) : Guarded (perform server action) := by
  have hextends : ∀ mid next, (∃ effects, mid.history = effects ++ server.history) →
      Move Permits.any mid next → ∃ effects, next.history = effects ++ server.history := by
    rintro mid next ⟨effects, heffects⟩ hmove
    obtain ⟨later, hlater, -⟩ := recorded_move hmove
    exact ⟨later ++ effects, by rw [hlater, heffects, List.append_assoc]⟩
  have hhistory : ∃ effects, (perform server action).history = effects ++ server.history :=
    moves_keep hextends ⟨[], rfl⟩ (moves_perform (permitted_any hfits))
  cases action with
  | takeOver => exact hfits.elim
  | create uuid ws now =>
      rw [perform]
      cases server.sessions.lookup uuid with
      | some a => exact h
      | none =>
          dsimp only
          rw [Server.createSession, if_pos h.authEnabled]
          exact guarded_createPending h hnamed.registered uuid ws now
  | authorize uuid principal via => exact guarded_authorize h hnamed.registered uuid principal via
  | enableAuthorization enabled =>
      exact ⟨hkeeps _ hfits, h.objects, h.indexed, h.topics⟩
  | answerTopic a frame =>
      have hplain : Plain server (.answerTopic a frame) := h.topics hfits.1 a hfits.2
      exact guarded_keeps h (keeps_perform server hplain) hhistory
  | _ => exact guarded_keeps h (keeps_perform server trivial) hhistory

theorem permitted_gatesWrites {action : Action} (hfits : Fits among server action) :
    Permitted gatesWrites server action := by
  cases action with
  | callSession a call =>
      rw [Permitted, changeMeets, Bool.or_eq_true]
      cases hflat : (server.heap a).session.flatState with
      | none =>
          rw [operation_of_bare hflat ((h.objects a).bare hflat) call]
          exact .inl rfl
      | some flat => exact .inr ((h.objects a).bound (by rw [hflat]; rfl))
  | clearPrincipal name =>
      rw [Permitted, clearMeets, Bool.or_eq_true, List.all_eq_true]
      refine .inr fun a ha => ?_
      rw [Bool.or_eq_true]
      exact .inr (h.indexed name a (mem_recipients server ha).1).2
  | enableAuthorization enabled => exact hkeeps _ hfits
  | takeOver => exact hfits.elim
  | dispatch ws a => exact ⟨hfits.2, fun _ => rfl, fun _ => rfl⟩
  | answerTopic => exact hfits.2
  | answer => exact hfits
  | disconnect | authorize | onAuthorize => rfl
  | _ => trivial

end Runs

theorem guarded_authorizing (mode : ServerMode) : Guarded (authorizing mode) := by
  refine ⟨rfl, fun a => ⟨fun hbound => absurd hbound Bool.false_ne_true, fun _ => rfl⟩, ?_, ?_⟩
  · rintro name a ⟨members, hmembers, -⟩
    simp [authorizing, Server.new] at hmembers
  · rintro - a ⟨uuid, huuid⟩
    simp [authorizing, Server.new] at huuid

/-- Where no two connections share a uuid and authorization stays enabled, the gate
holds whatever the application writes. -/
theorem gated_of_unshared [HashOrder StdString] [HashOrder Addr] (mode : ServerMode)
    {events : List Event} (hunshared : Unshared events)
    (hkeeps : ∀ event ∈ events, KeepsAuthorization event) :
    Gated (run step (authorizing mode) events).history := by
  have hnew : Named events (Server.new mode) := named_new mode
  have hnamed : Named events (authorizing mode) :=
    ⟨registered_of_empty rfl rfl, hnew.introduced, hnew.objects, hnew.unnamed⟩
  have howned : Owned (authorizing mode) := owned_step (owned_new mode) (.enableAuthorization true)
  have hmeet : StepsMeet step (fun server event => stepMeets gatesWrites server event)
      (authorizing mode) events := by
    refine stepsMeet_unshared hunshared (fun _ _ _ => rfl) (fun server action hnamed h hfits => ?_)
      (fun server action hnamed h hfits => ?_) hnamed howned (guarded_authorizing mode)
    · exact guarded_perform hkeeps h hnamed hfits
    · exact permitted_gatesWrites hkeeps h hfits
  exact gated_run mode hmeet

end DanWs.GuardedRuns
