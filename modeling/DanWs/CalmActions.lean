import DanWs.ServerMoves

namespace DanWs.CalmActions

open DanWs.FiniteMaps
open DanWs.Principals
open DanWs.ServerConditions
open DanWs.ServerMoves
open DanWs.Servers
open DanWs.SessionStanding
open DanWs.Sessions
open DanWs.WireTypes

section Calm

variable {permits : Permits} {server : Server}

theorem calm_put_enqueue (server : Server) (a : Addr) (internal : InternalSession)
    (frames : List Frame) (hattachment : attachment internal = attachment (server.heap a))
    (htarget : internal.heartbeatTarget = (server.heap a).heartbeatTarget)
    (hstage : stage internal.session = stage (server.heap a).session)
    (hsent : ∀ frame ∈ frames, (server.connections (server.heap a).flushTarget).isOpen →
      Allowed permits server (.sent (server.heap a).flushTarget frame)) :
    Calm permits server ((server.put a internal).enqueue a frames) := by
  have hflush : internal.flushTarget = (server.heap a).flushTarget :=
    congrArg Attachment.flushTarget hattachment
  refine (calm_put permits server a internal server.principals hattachment htarget
    hstage).then_emits (emits_enqueue _ a _ fun frame hframe hopen => ⟨?_, id⟩)
  simp only [Server.put, Function.update_self, hflush] at hopen ⊢
  exact hsent frame hframe hopen

theorem calm_record (server : Server) (effect : Effect) (h : Allowed permits server effect)
    (hmarks : ¬ Marks effect) : Calm permits server (server.record effect) :=
  calm_of_emits (Emits.record server effect ⟨h, hmarks⟩)

theorem calm_principals (server : Server) (principals : PrincipalManager) :
    Calm permits server { server with principals } :=
  calm_settings permits server _ _ _ principals

theorem calm_sendFrame (server : Server) (a : Addr) (frame : Frame)
    (h : frame.frameType = .authFail) : Calm permits server (server.sendFrame a frame) := by
  rw [Server.sendFrame]
  split
  · exact Calm.refl permits server
  · next ws hws =>
      split
      · exact (calm_settings permits server _ _ (server.framesOut + 1) _).then_emits
          (Emits.record _ (.sent ws frame) ⟨.inl h, id⟩)
      · exact Calm.refl permits server

theorem calm_limitFrame (server : Server) (ws : ConnId) (now : Nat) :
    Calm permits server (server.limitFrame ws now).1 := by
  rw [Server.limitFrame]
  dsimp only
  split
  · split
    · exact Calm.refl permits server
    · next a _ =>
        refine calm_put permits server a _ _ ?_ ?_ ?_ <;>
          unfold Server.countFrame <;> dsimp only <;> split <;> rfl
  · exact Calm.refl permits server

theorem calm_changeSession (server : Server) {a : Addr}
    {operation : Session → Session × List Frame}
    (hkeep : ∀ session, footing (operation session).1 = footing session)
    (h : changeMeets permits server a operation) :
    Calm permits server (server.changeSession a operation) := by
  rw [Server.changeSession]
  have hfooting := hkeep (server.heap a).session
  refine calm_put_enqueue server a _ _ ?_ rfl (stage_of_footing hfooting) ?_
  · simp only [attachment, identity_of_standing (standing_of_footing hfooting)]
  · intro frame hframe hopen
    rw [changeMeets] at h
    have hwrite : permits.write server a = true := by
      have hsome : (operation (server.heap a).session).2.isEmpty = false :=
        List.isEmpty_eq_false_iff.mpr (List.ne_nil_of_mem hframe)
      simpa [hsome, hopen] using h
    exact .inr ⟨a, rfl, .inr (.inr hwrite)⟩

theorem calm_dispatchTopic [HashOrder StdString] {a : Addr} (hactive : Active server a)
    (frame : Frame) : Calm permits server (server.dispatchTopic a frame) := by
  rw [Server.dispatchTopic]
  dsimp only
  have hfooting := footing_handleClientTopicFrame (server.heap a).session
    (server.heap a).tables frame
  refine calm_put_enqueue server a _ _ ?_ rfl (stage_of_footing hfooting) ?_
  · simp only [attachment, identity_of_standing (standing_of_footing hfooting)]
  · exact fun frame _ _ => .inr ⟨a, rfl, .inl hactive⟩

theorem emits_enqueueFrom (server : Server) {allowed : Effect → Prop} {name : StdString}
    {a : Addr} {frame : Frame}
    (henqueued : allowed (.enqueued name a (server.heap a).session.principal frame))
    (hsent : (server.connections (server.heap a).flushTarget).isOpen →
      allowed (.sent (server.heap a).flushTarget frame)) :
    Emits allowed server (server.enqueueFrom name a frame) := by
  refine (Emits.record server _ henqueued).trans (emits_enqueue _ a _ fun other hother hopen => ?_)
  rw [List.mem_singleton.mp hother]
  exact hsent hopen

section Recipients

variable [HashOrder Addr]

theorem mem_recipients (server : Server) {name : StdString} {wants : Session → Bool} {a : Addr}
    (h : a ∈ server.recipients name wants) :
    Indexed server name a ∧ wants (server.heap a).session := by
  rw [Server.recipients] at h
  cases hlookup : server.principalIndex.lookup name with
  | none => simp [hlookup] at h
  | some indexed =>
      rw [hlookup] at h
      simp only [List.mem_filter, Bool.and_eq_true] at h
      exact ⟨⟨indexed, hlookup, (HashOrder.order.mem_enumerate _ _).mp h.1⟩, h.2.1⟩

theorem calm_changePrincipal (server : Server) (name : StdString)
    (operation : PrincipalTX → PrincipalTX × List Frame) :
    Calm permits server (server.changePrincipal name operation) := by
  rw [Server.changePrincipal]
  dsimp only
  split
  · refine (calm_principals server _).then_emits (Emits.foldl fun history frame _ => ?_)
    apply Emits.foldl
    intro history a ha
    obtain ⟨hindexed, hready⟩ := mem_recipients _ ha
    have hready : (server.heap a).session.state = .ready := by simpa using hready
    exact emits_enqueueFrom _ ⟨⟨hindexed, rfl⟩, id⟩
      fun _ => ⟨.inr ⟨a, rfl, .inr (.inl hready)⟩, id⟩
  · exact calm_principals server _

theorem calm_clearPrincipal [HashOrder StdString] (server : Server) {name : StdString}
    (h : clearMeets permits server name) : Calm permits server (server.clearPrincipal name) := by
  rw [Server.clearPrincipal]
  rw [clearMeets] at h
  dsimp only
  cases hresync : (server.principals.principal name).2.clear.2 with
  | none => exact calm_principals server _
  | some keyFrames =>
      rw [hresync, Option.isNone_some, Bool.false_or, List.all_eq_true] at h
      refine (calm_principals server _).then_emits (Emits.foldl fun history a ha => ?_)
      apply Emits.foldl
      intro history frame _
      refine emits_enqueueFrom _ ⟨⟨(mem_recipients _ ha).1, rfl⟩, id⟩ fun hopen => ⟨?_, id⟩
      have hwrite := h a ha
      have hopen : (server.connections (server.heap a).flushTarget).isOpen = true := hopen
      rw [hopen, Bool.not_true, Bool.false_or] at hwrite
      exact .inr ⟨a, rfl, .inr (.inr hwrite)⟩

end Recipients

end Calm

end DanWs.CalmActions
