import DanWs.ReferenceReads

namespace DanWs.SilentReferences

open DanWs.ClientCalls
open DanWs.ClientLifecycle
open DanWs.Clients
open DanWs.ReferenceHandling
open DanWs.ReferenceReads
open DanWs.TopicReferences
open DanWs.TopicRouting
open DanWs.WireTypes

section Silent

def silent (_ : Notice) : List Callback := []

theorem notify_silent {client : Client} {keyId : UInt32} {info : Option TopicInfo}
    (h : resolve client keyId = info) (path : StdString) (value : Payload) :
    notify silent (begin client) (info.map fun _ => keyId) path value =
      ⟨client, client.notify info path value, true⟩ := by
  cases info with
  | none => rfl
  | some info =>
      rw [notify_some]
      refine (lookUp_of_live h).trans ?_
      dsimp only [begin]
      cases handleOf client info <;> rfl

theorem notifyLength_silent {client : Client} {keyId : UInt32} {info : Option TopicInfo}
    (h : resolve client keyId = info) (path : StdString) (length : Int) :
    notifyLength silent (begin client) (info.map fun _ => keyId) path length =
      ⟨client, client.notifyLength info path length, true⟩ := by
  cases info with
  | none => rfl
  | some info =>
      rw [Client.notifyLength, Option.map_some, Option.map_some, notify_some]
      have hcopied : handleOf client
          ⟨info.topicIdx, Client.dropLength info.userKey ++ str ".length"⟩ =
            handleOf client info := rfl
      refine (lookUp_of_live h).trans ?_
      dsimp only [begin]
      rw [hcopied]
      cases handleOf client info <;> rfl

theorem notifyReady_silent (progress : Progress) :
    notifyReady silent progress =
      ⟨{ progress.client with state := .ready, reconnectActive := false },
        progress.notices ++
          .onReady :: if progress.client.reconnectActive then [.onReconnect] else [],
        progress.live⟩ := by
  obtain ⟨⟨state, intentional, socket, registry, store, pending, cache, topics, active⟩,
    notices, live⟩ := progress
  cases active <;> simp [notifyReady, emit, silent]

theorem enterReady_silent (progress : Progress) :
    enterReady silent progress =
      ⟨progress.client.enterReady.client,
        progress.notices ++ progress.client.enterReady.notices, progress.live⟩ := by
  rw [enterReady, notifyReady_silent, announce, Client.enterReady]
  dsimp only
  split <;> rfl

theorem foldl_emit_silent (list : List Notice) (progress : Progress) :
    list.foldl (emit silent) progress = { progress with notices := progress.notices ++ list } := by
  induction list generalizing progress with
  | nil => rw [List.append_nil]; rfl
  | cons notice list ih =>
      rw [List.foldl_cons, ih]
      simp [emit, silent]

variable (client : Client) (frame : Frame)

theorem applyPending_silent (path : StdString) :
    applyPending silent client frame path =
      ⟨(client.applyPending frame path).client, (client.applyPending frame path).notices,
        true⟩ := by
  rw [applyPending, Client.applyPending]
  cases client.pendingValues.lookup frame.keyId with
  | none => rfl
  | some pending =>
      dsimp only
      rw [getTopicInfo_eq_map]
      dsimp only
      rw [notify_silent (resolve_getTopicInfo _ frame.keyId path)]

theorem handleServerKeyRegistration_silent :
    handleServerKeyRegistration silent client frame =
      ⟨(client.handleServerKeyRegistration frame).client,
        (client.handleServerKeyRegistration frame).notices, true⟩ := by
  rw [handleServerKeyRegistration, Client.handleServerKeyRegistration]
  dsimp only
  cases frame.payload with
  | string path =>
      dsimp only
      cases client.startSynchronizing.registry.registerOne frame.keyId path frame.dataType with
      | error e => rfl
      | ok registered => exact applyPending_silent _ frame path
  | _ => rfl

theorem handleServerSync_silent :
    handleServerSync silent client =
      ⟨client.handleServerSync.client, client.handleServerSync.notices, true⟩ := by
  rw [handleServerSync, Client.handleServerSync]
  dsimp only
  split
  · rw [enterReady_silent]
    rfl
  · rfl

theorem handleServerValue_silent :
    handleServerValue silent client frame =
      ⟨(client.handleServerValue frame).client, (client.handleServerValue frame).notices,
        true⟩ := by
  rw [handleServerValue, Client.handleServerValue]
  cases client.registry.getByKeyId frame.keyId with
  | none => rfl
  | some entry =>
      dsimp only
      rw [getTopicInfo_eq_map, Client.storeValue]
      dsimp only
      rw [notify_silent (resolve_getTopicInfo _ frame.keyId entry.path)]
      dsimp only
      split
      · rw [enterReady_silent]
      · rfl

theorem handleArrayShiftLeft_silent :
    handleArrayShiftLeft silent client frame =
      ⟨(client.handleArrayShiftLeft frame).client, (client.handleArrayShiftLeft frame).notices,
        true⟩ := by
  rw [handleArrayShiftLeft, Client.handleArrayShiftLeft]
  cases client.registry.getByKeyId frame.keyId with
  | none => rfl
  | some entry =>
      have hresolve := resolve_getTopicInfo client frame.keyId entry.path
      dsimp only
      rw [getTopicInfo_eq_map]
      dsimp only
      rw [notifyLength_silent]
      · rfl
      · refine (resolve_of_cache ?_ frame.keyId).trans hresolve
        exact topicKeyCache_moveElements _ (Client.dropLength entry.path) (fun i => i + _)
          (fun i => i) _

theorem handleArrayShiftRight_silent :
    handleArrayShiftRight silent client frame =
      ⟨(client.handleArrayShiftRight frame).client, (client.handleArrayShiftRight frame).notices,
        true⟩ := by
  rw [handleArrayShiftRight, Client.handleArrayShiftRight]
  cases client.registry.getByKeyId frame.keyId with
  | none => rfl
  | some entry =>
      have hresolve := resolve_getTopicInfo client frame.keyId entry.path
      dsimp only
      rw [getTopicInfo_eq_map]
      dsimp only
      rw [notifyLength_silent]
      · rfl
      · refine (resolve_of_cache ?_ frame.keyId).trans hresolve
        exact topicKeyCache_moveElements _ (Client.dropLength entry.path) (fun i => i)
          (fun i => i + _) _

theorem handleServerFlushEnd_silent (h : frame.frameType = .serverFlushEnd) :
    handleServerFlushEnd silent client =
      ⟨(client.handleFrame frame).client, (client.handleFrame frame).notices, true⟩ := by
  rw [handleServerFlushEnd, Client.handleFrame, h]
  dsimp only
  rw [← List.foldl_map, foldl_emit_silent]
  rfl

theorem handleFrame_silent_of_ne (h : frame.frameType ≠ .serverKeyDelete) :
    handleFrame silent client frame =
      ⟨(client.handleFrame frame).client, (client.handleFrame frame).notices, true⟩ := by
  rw [handleFrame]
  split
  · next htype =>
      rw [Client.handleFrame, htype]
      rfl
  · next htype =>
      rw [Client.handleFrame, htype]
      exact handleServerKeyRegistration_silent client frame
  · next htype =>
      rw [Client.handleFrame, htype]
      exact handleServerSync_silent client
  · next htype =>
      rw [Client.handleFrame, htype]
      exact handleServerValue_silent client frame
  · next htype =>
      rw [Client.handleFrame, htype]
      exact handleArrayShiftLeft_silent client frame
  · next htype =>
      rw [Client.handleFrame, htype]
      exact handleArrayShiftRight_silent client frame
  · next htype => exact handleServerFlushEnd_silent client frame htype
  · next htype => exact absurd htype h
  · exact foldl_emit_silent _ _

theorem dangling_notMem_enterReady (client : Client) :
    .danglingTopicInfo ∉ client.enterReady.notices := by
  rw [Client.enterReady]
  dsimp only
  split <;> split <;> simp

/-- Only a deletion reads a topic that it has forgotten. -/
theorem dangling_notMem (h : frame.frameType ≠ .serverKeyDelete) :
    .danglingTopicInfo ∉ (client.handleFrame frame).notices := by
  rw [Client.handleFrame]
  cases htype : frame.frameType
  case serverKeyDelete => exact absurd htype h
  case serverKeyRegistration =>
      dsimp only
      rw [Client.handleServerKeyRegistration]
      dsimp only
      cases frame.payload with
      | string path =>
          dsimp only
          cases client.startSynchronizing.registry.registerOne frame.keyId path
              frame.dataType with
          | error e => exact List.not_mem_nil
          | ok registered =>
              dsimp only
              rw [notices_applyPending]
              split
              · exact List.not_mem_nil
              · exact dangling_notMem_notify _ _ _ _
      | _ => exact List.not_mem_nil
  case serverSync =>
      dsimp only
      rw [Client.handleServerSync]
      dsimp only
      split
      · exact dangling_notMem_enterReady _
      · exact List.not_mem_nil
  case serverValue =>
      dsimp only
      rw [Client.handleServerValue]
      cases client.registry.getByKeyId frame.keyId with
      | none => exact List.not_mem_nil
      | some entry =>
          dsimp only
          rw [notices_storeValue, List.mem_append, not_or]
          refine ⟨dangling_notMem_notify _ _ _ _, ?_⟩
          split
          · exact dangling_notMem_enterReady client
          · exact List.not_mem_nil
  case arrayShiftLeft =>
      dsimp only
      rw [notices_handleArrayShiftLeft]
      split
      · exact List.not_mem_nil
      · exact dangling_notMem_notify _ _ _ _
  case arrayShiftRight =>
      dsimp only
      rw [notices_handleArrayShiftRight]
      split
      · exact List.not_mem_nil
      · exact dangling_notMem_notify _ _ _ _
  all_goals simp [Client.handled, Client.handleAuthFail, Client.handleServerReset]

/-- The callbacks that there is something to say about. -/
def told (client : Client) (notices : List Notice) : Progress :=
  ⟨client, notices.filter (· ≠ .danglingTopicInfo), decide (.danglingTopicInfo ∉ notices)⟩

theorem handleFrame_silent_of_delete (htype : frame.frameType = .serverKeyDelete) :
    handleFrame silent client frame =
      told (deleted client frame) (client.handleServerKeyDelete frame).notices := by
  rw [notices_handleServerKeyDelete]
  cases hentry : client.registry.getByKeyId frame.keyId with
  | none =>
      rw [handleFrame_of_delete_unnamed silent htype (by rw [hentry]; rfl)]
      rfl
  | some entry =>
      dsimp only
      by_cases hpath : entry.path = []
      · rw [handleFrame_of_delete_unnamed silent htype (by rw [hentry]; exact hpath),
          deletionNotices.eq_def, if_pos hpath]
        rfl
      · rw [handleFrame_of_delete silent htype hentry hpath, deletionNotices.eq_def, if_neg hpath]
        cases (client.getTopicInfo frame.keyId entry.path).2 with
        | none => rfl
        | some info =>
            dsimp only
            split <;> rfl

/-- Without callbacks frames are handled as by a client that copies its topic infos, except that
nothing is said about what becomes of a deletion that reads an erased one. -/
theorem handleFrame_silent :
    handleFrame silent client frame =
      told (client.handleFrame frame).client (client.handleFrame frame).notices := by
  by_cases htype : frame.frameType = .serverKeyDelete
  · have hdeletes : client.handleFrame frame = client.handleServerKeyDelete frame := by
      rw [Client.handleFrame, htype]
    rw [handleFrame_silent_of_delete client frame htype, hdeletes, deleted]
  · have hnone : .danglingTopicInfo ∉ (client.handleFrame frame).notices :=
      dangling_notMem client frame htype
    have hall : (client.handleFrame frame).notices.filter (· ≠ .danglingTopicInfo) =
        (client.handleFrame frame).notices := by
      rw [List.filter_eq_self]
      intro notice hnotice
      exact decide_eq_true fun heq => hnone (heq ▸ hnotice)
    rw [handleFrame_silent_of_ne client frame htype, told, hall, decide_eq_true hnone]

/-- A client in the course of its life handles its frames in this way. -/
theorem takeCalling_silent (live : LiveClient) :
    takeCalling live ⟨silent, frame⟩ = live.take (.frame frame) := by
  have hclient := congrArg Progress.client (handleFrame_silent live.client frame)
  rw [takeCalling, LiveClient.take, hclient]
  simp only [hasType, decide_eq_true_eq]
  rfl

end Silent

end DanWs.SilentReferences
