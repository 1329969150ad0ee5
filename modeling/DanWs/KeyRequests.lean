import DanWs.ClientProgress
import DanWs.KeyFrameCache
import DanWs.Sessions

namespace DanWs.KeyRequests

open DanWs.ClientProgress
open DanWs.ClientTopics
open DanWs.Clients
open DanWs.FiniteMaps
open DanWs.FlatStates
open DanWs.KeyFrameCache
open DanWs.KeyPaths
open DanWs.KeyStores
open DanWs.Principals
open DanWs.Replicas
open DanWs.Replication
open DanWs.Sessions
open DanWs.WireRows
open DanWs.WireTypes

def requestsIn (frames : List Frame) : List UInt32 :=
  frames.filterMap fun frame =>
    if frame.frameType = .clientKeyRequest then some frame.keyId else none

/-- The frames that a client sends on its own, without its key requests. -/
def Unsolicited (frame : Frame) : Prop :=
  frame.frameType ≠ .clientKeyRequest ∧ frame.frameType ≠ .clientResyncReq

theorem requestsIn_append (first second : List Frame) :
    requestsIn (first ++ second) = requestsIn first ++ requestsIn second :=
  List.filterMap_append

theorem requestsIn_eq_nil {frames : List Frame} (h : ∀ frame ∈ frames, Unsolicited frame) :
    requestsIn frames = [] := by
  rw [requestsIn, List.filterMap_eq_nil_iff]
  exact fun frame hframe => if_neg (h frame hframe).1

section Client

def asks (keys : KeyStore) (frame : Frame) : List UInt32 :=
  if frame.frameType = .serverValue ∧ keys.registry.byId.lookup frame.keyId = none then
    [frame.keyId]
  else []

def asksFor (keys : KeyStore) : List Frame → List UInt32
  | [] => []
  | frame :: frames => asks keys frame ++ asksFor (keys.apply frame) frames

variable (client : Client) (frame : Frame)

theorem unsolicited_enterReady : ∀ sent ∈ client.enterReady.sent, Unsolicited sent := by
  intro sent hsent
  rw [Client.enterReady] at hsent
  dsimp only at hsent
  split at hsent
  · cases hsent
  · rw [TopicClient.sendTopicSync] at hsent
    split at hsent
    · simp only [syncFrames, ClientTopics.registrationFrames, ClientTopics.valueFrames,
        List.mem_append, List.mem_singleton, List.mem_map] at hsent
      rcases hsent with ((rfl | ⟨entry, _, rfl⟩) | ⟨entry, _, rfl⟩) | rfl
      all_goals exact ⟨FrameType.noConfusion, FrameType.noConfusion⟩
    · cases hsent

theorem sent_handleServerKeyRegistration :
    (client.handleServerKeyRegistration frame).sent = [] := by
  rw [Client.handleServerKeyRegistration]
  dsimp only
  split
  · split
    · rfl
    · rw [Client.applyPending]
      split <;> rfl
  · rfl

theorem unsolicited_handleServerSync :
    ∀ sent ∈ client.handleServerSync.sent, Unsolicited sent := by
  intro sent hsent
  rw [Client.handleServerSync] at hsent
  dsimp only at hsent
  have hanswer : ∀ frame ∈ (if client.startSynchronizing.state = .ready then []
      else [signalFrame .clientReady]), Unsolicited frame := by
    intro frame hframe
    split at hframe
    · cases hframe
    · rw [List.mem_singleton.mp hframe]
      exact ⟨FrameType.noConfusion, FrameType.noConfusion⟩
  split at hsent
  · rcases List.mem_append.mp hsent with hsent | hsent
    · exact hanswer sent hsent
    · exact unsolicited_enterReady _ sent hsent
  · exact hanswer sent hsent

theorem unsolicited_storeValue (entry : KeyEntry) :
    ∀ sent ∈ (client.storeValue frame entry).sent, Unsolicited sent := by
  intro sent hsent
  rw [Client.storeValue] at hsent
  dsimp only at hsent
  split at hsent
  · exact unsolicited_enterReady _ sent hsent
  · cases hsent

/-- A client asks for the key of an unknown value, and for nothing else. -/
theorem sent_handleFrame (h : isSyncFrame frame) :
    requestsIn (client.handleFrame frame).sent = asks (keyStore client) frame ∧
      ∀ sent ∈ (client.handleFrame frame).sent, sent.frameType ≠ .clientResyncReq := by
  have hquiet : ∀ {sent : List Frame}, (∀ frame ∈ sent, Unsolicited frame) →
      asks (keyStore client) frame = [] →
      requestsIn sent = asks (keyStore client) frame ∧
        ∀ frame ∈ sent, frame.frameType ≠ .clientResyncReq := by
    intro sent hsent hasks
    rw [hasks]
    exact ⟨requestsIn_eq_nil hsent, fun other hother => (hsent other hother).2⟩
  have hasks : frame.frameType ≠ .serverValue → asks (keyStore client) frame = [] :=
    fun hne => if_neg fun hvalue => hne hvalue.1
  rw [Client.handleFrame]
  simp only [isSyncFrame, Bool.or_eq_true, decide_eq_true_eq] at h
  rcases h with (((htype | htype) | htype) | htype) | htype
  all_goals rw [htype] at hasks ⊢
  · refine hquiet ?_ (hasks FrameType.noConfusion)
    rw [sent_handleServerKeyRegistration]
    simp
  · exact hquiet (unsolicited_handleServerSync client) (hasks FrameType.noConfusion)
  · dsimp only
    rw [Client.handleServerValue]
    cases hknown : client.registry.getByKeyId frame.keyId with
    | none =>
        have hunknown : (keyStore client).registry.byId.lookup frame.keyId = none := hknown
        rw [asks, if_pos ⟨htype, hunknown⟩]
        refine ⟨rfl, fun sent hsent => ?_⟩
        rw [List.mem_singleton.mp hsent]
        exact FrameType.noConfusion
    | some entry =>
        refine hquiet (unsolicited_storeValue client frame entry) (if_neg fun hvalue => ?_)
        rw [show (keyStore client).registry.byId.lookup frame.keyId = some entry from hknown]
          at hvalue
        exact absurd hvalue.2 (Option.some_ne_none entry)
  · exact hquiet (by simp [Client.handleServerKeyDelete, Client.handled])
      (hasks FrameType.noConfusion)
  · exact hquiet (by simp [Client.handleServerReset, Client.handled])
      (hasks FrameType.noConfusion)

theorem sent_receive {frames : List Frame} (h : ∀ frame ∈ frames, isSyncFrame frame) :
    requestsIn (client.receive frames).2 = asksFor (keyStore client) frames ∧
      ∀ sent ∈ (client.receive frames).2, sent.frameType ≠ .clientResyncReq := by
  induction frames generalizing client with
  | nil => exact ⟨rfl, by simp [Client.receive]⟩
  | cons frame frames ih =>
      obtain ⟨hasks, hresync⟩ := sent_handleFrame client frame (h frame List.mem_cons_self)
      obtain ⟨hasksFor, hresyncs⟩ := ih (client.handleFrame frame).client
        fun other hother => h other (List.mem_cons_of_mem _ hother)
      rw [Client.receive]
      dsimp only
      rw [requestsIn_append, hasks, hasksFor, asksFor,
        keyStore_handleFrame client frame (h frame List.mem_cons_self)]
      refine ⟨rfl, fun sent hsent => ?_⟩
      rcases List.mem_append.mp hsent with hsent | hsent
      · exact hresync sent hsent
      · exact hresyncs sent hsent

theorem unsolicited_receive {client : Client} {frames : List Frame}
    (h : ∀ frame ∈ frames, isSyncFrame frame) (hasks : asksFor (keyStore client) frames = []) :
    ∀ frame ∈ (client.receive frames).2, Unsolicited frame := by
  obtain ⟨hrequests, hresync⟩ := sent_receive client h
  rw [hasks, requestsIn, List.filterMap_eq_nil_iff] at hrequests
  intro frame hframe
  refine ⟨fun htype => ?_, hresync frame hframe⟩
  have hnone := hrequests frame hframe
  rw [if_pos htype] at hnone
  cases hnone

theorem sent_registrationFrames (client : Client) (wires : List (StdString × Entry)) :
    (client.receive (WireRows.registrationFrames wires)).2 = [] := by
  induction wires generalizing client with
  | nil => rfl
  | cons wire wires ih =>
      rw [WireRows.registrationFrames, List.map_cons, Client.receive, Client.handleFrame]
      dsimp only [WireRows.registrationFrame]
      rw [sent_handleServerKeyRegistration]
      exact ih _

theorem sent_handleServerSync {client : Client} (h : client.state ≠ .ready) :
    ∃ rest, client.handleServerSync.sent = signalFrame .clientReady :: rest ∧
      ∀ frame ∈ rest, Unsolicited frame := by
  have hall := unsolicited_handleServerSync client
  have hstate := startSynchronizing_ne_ready h
  rw [Client.handleServerSync] at hall ⊢
  dsimp only at hall ⊢
  rw [if_neg hstate] at hall ⊢
  split
  · next hempty =>
      rw [if_pos hempty] at hall
      exact ⟨_, rfl, fun frame hframe => hall frame (List.mem_cons_of_mem _ hframe)⟩
  · exact ⟨[], rfl, by simp⟩

theorem clientReady_mem_sent (client : Client) (wires : List (StdString × Entry)) :
    signalFrame .clientReady ∈ (client.receive (signalFrame .serverReset ::
      (WireRows.registrationFrames wires ++ [signalFrame .serverSync]))).2 := by
  let reset := (client.handleFrame (signalFrame .serverReset)).client
  have hstate : (reset.receive (WireRows.registrationFrames wires)).1.state = .synchronizing :=
    state_registrationFrames rfl
  have hne : (reset.receive (WireRows.registrationFrames wires)).1.state ≠ .ready := by
    rw [hstate]
    exact ClientState.noConfusion
  obtain ⟨rest, hsent, _⟩ := sent_handleServerSync hne
  rw [Client.receive]
  refine List.mem_append_right _ ?_
  rw [Client.receive_append]
  refine List.mem_append_right _ (List.mem_append_left _ ?_)
  exact hsent ▸ List.mem_cons_self

end Client

def answer (wire : StdString × Entry) : List Frame :=
  [WireRows.registrationFrame wire.1 wire.2, signalFrame .serverSync, FlatState.valueFrame wire.2]

section Answers

variable {keys : KeyStore} {wire : StdString × Entry}

theorem isSyncFrame_answer (wire : StdString × Entry) :
    ∀ frame ∈ answer wire, isSyncFrame frame := by
  intro frame hframe
  simp only [answer, List.mem_cons, List.not_mem_nil, or_false] at hframe
  rcases hframe with rfl | rfl | rfl <;> rfl

theorem lookup_applyPending (keys : KeyStore) (keyId : UInt32) :
    (∀ other ≠ keyId, (keys.applyPending keyId).store.lookup other = keys.store.lookup other) ∧
      ∀ other frame, (keys.applyPending keyId).pendingValues.lookup other = some frame →
        keys.pendingValues.lookup other = some frame := by
  rw [KeyStore.applyPending]
  split
  · exact ⟨fun _ _ => rfl, fun _ _ h => h⟩
  · exact ⟨fun other hne => Finmap.lookup_insert_of_ne _ hne,
      fun other frame h => (lookup_of_lookup_erase h).2⟩

theorem receive_answer (hvalid : checkKeyPath wire.1 = .ok ())
    (hfits : keys.registry.pathToId.lookup wire.1 = none →
      keys.registry.byId.keys.card < keys.registry.maxKeys) :
    ∃ entry : KeyEntry, entry.keyId = wire.2.keyId ∧
      (keys.receive (answer wire)).registry.byId = keys.registry.byId.insert wire.2.keyId entry ∧
      (keys.receive (answer wire)).registry.pathToId =
        keys.registry.pathToId.insert wire.1 wire.2.keyId ∧
      (∀ other, (keys.receive (answer wire)).store.lookup other =
        if other = wire.2.keyId then some wire.2.value else keys.store.lookup other) ∧
      (∀ other frame, (keys.receive (answer wire)).pendingValues.lookup other = some frame →
        keys.pendingValues.lookup other = some frame) ∧
      asksFor keys (answer wire) = [] := by
  obtain ⟨registered, hregistered⟩ := exists_registerOne hvalid hfits wire.2.keyId wire.2.type
  obtain ⟨_, _, hbyId, hpathToId, _⟩ := registerOne_ok hregistered
  have hregistry := KeyStore.registry_applyPending { keys with registry := registered } wire.2.keyId
  obtain ⟨hstore, hpending⟩ :=
    lookup_applyPending { keys with registry := registered } wire.2.keyId
  have hstep : keys.apply (WireRows.registrationFrame wire.1 wire.2) =
      KeyStore.applyPending { keys with registry := registered } wire.2.keyId :=
    apply_registrationFrame hregistered
  generalize KeyStore.applyPending { keys with registry := registered } wire.2.keyId = behind
    at hstep hregistry hstore hpending
  have hknown : behind.registry.byId.lookup wire.2.keyId =
      some ⟨wire.1, wire.2.type, wire.2.keyId⟩ := by
    rw [hregistry, hbyId, Finmap.lookup_insert]
  have hbehind : keys.receive (answer wire) =
      { behind with store := behind.store.insert wire.2.keyId wire.2.value } := by
    rw [answer, KeyStore.receive_cons, hstep, KeyStore.receive_cons, apply_sync,
      KeyStore.receive_cons, KeyStore.receive_nil, KeyStore.apply, FlatState.valueFrame]
    simp only [KeyStore.storeValue, KeyRegistry.getByKeyId, hknown]
  rw [hbehind]
  refine ⟨_, rfl, by rw [hregistry, hbyId], by rw [hregistry, hpathToId], fun other => ?_,
    hpending, ?_⟩
  · rw [lookup_insert_eq_ite]
    split
    · rfl
    · next hne => exact hstore other hne
  · rw [answer, asksFor, asksFor, asksFor, asksFor, hstep, apply_sync, asks, asks, asks,
      if_neg fun h => FrameType.noConfusion h.1, if_neg fun h => FrameType.noConfusion h.1, if_neg]
    · rfl
    · rintro ⟨_, hnone⟩
      exact absurd (hknown.symm.trans hnone) (Option.some_ne_none _)

theorem receive_answer_rejected (hnew : keys.registry.pathToId.lookup wire.1 = none)
    (hfull : keys.registry.maxKeys ≤ keys.registry.byId.keys.card) :
    (keys.receive (answer wire)).registry = keys.registry ∧
      asksFor keys (answer wire) = asks keys (FlatState.valueFrame wire.2) := by
  have hstep : keys.apply (WireRows.registrationFrame wire.1 wire.2) = keys := by
    simp only [KeyStore.apply, WireRows.registrationFrame, KeyStore.register]
    split
    · rfl
    · next registered hregistered =>
        have hroom := (registerOne_ok hregistered).2.1 hnew
        exact absurd hfull (Nat.not_le.mpr hroom)
  constructor
  · rw [answer, KeyStore.receive_cons, hstep, KeyStore.receive_cons, apply_sync,
      KeyStore.receive_cons, KeyStore.receive_nil, KeyStore.apply, FlatState.valueFrame]
    dsimp only
    rw [KeyStore.storeValue]
    split <;> rfl
  · rw [answer, asksFor, asksFor, asksFor, asksFor, hstep, apply_sync, asks, asks,
      if_neg fun h => FrameType.noConfusion h.1, if_neg fun h => FrameType.noConfusion h.1,
      List.append_nil]
    rfl

end Answers

section Wires

theorem find?_unique {α : Type*} {list : List α} {test : α → Bool} {item : α}
    (hmem : item ∈ list) (htest : test item)
    (hunique : ∀ other ∈ list, test other → other = item) : list.find? test = some item := by
  cases hfind : list.find? test with
  | none => exact absurd htest (List.find?_eq_none.mp hfind item hmem)
  | some other =>
      rw [hunique other (List.mem_of_find?_eq_some hfind) (List.find?_some hfind)]

variable [HashOrder StdString] {flat : FlatState} {wire : StdString × Entry}

/-- With one key frame per id, the key frame of an id is found, and its value. -/
theorem keyAnswer_of_wire (hids : UniqueIds (rows flat)) (hwire : wire ∈ wires flat) :
    Session.keyAnswer wire.2.keyId (WireRows.registrationFrame wire.1 wire.2)
      flat.buildValueFrames = answer wire := by
  have hvalue : (flat.buildValueFrames.find? fun frame => frame.keyId == wire.2.keyId) =
      some (FlatState.valueFrame wire.2) := by
    rw [buildValueFrames_eq]
    apply find?_unique
    · exact List.mem_map.mpr ⟨wire, hwire, rfl⟩
    · simp [FlatState.valueFrame]
    · intro frame hframe htest
      obtain ⟨other, hother, rfl⟩ := List.mem_map.mp hframe
      rw [wire_unique flat hids hwire hother (beq_iff_eq.mp htest)]
  rw [Session.keyAnswer, hvalue]
  rfl

theorem find?_keyFrame (hids : UniqueIds (rows flat)) (hwire : wire ∈ wires flat) :
    (flat.buildKeyFrames.find? fun frame => frame.keyId == wire.2.keyId) =
      some (WireRows.registrationFrame wire.1 wire.2) := by
  rw [buildKeyFrames_eq]
  apply find?_unique
  · exact List.mem_map.mpr ⟨wire, hwire, rfl⟩
  · simp [WireRows.registrationFrame]
  · intro frame hframe htest
    obtain ⟨other, hother, rfl⟩ := List.mem_map.mp hframe
    rw [wire_unique flat hids hwire hother (beq_iff_eq.mp htest)]

end Wires

section Session

variable [HashOrder StdString] {session : Session} {ptx : PrincipalTX}

/-- A `Ready` session answers key requests and requests for a resync only. -/
theorem handleFrame_of_unsolicited {tx : Option PrincipalTX} (hready : session.state = .ready)
    {frame : Frame} (h : Unsolicited frame) :
    (session.handleFrame tx frame).session = session ∧
      (session.handleFrame tx frame).frames = [] := by
  simp only [Session.handleFrame]
  split
  · rw [if_pos hready]
    exact ⟨rfl, rfl⟩
  · next htype => exact absurd htype h.2
  · next htype => exact absurd htype h.1
  · exact ⟨rfl, rfl⟩

theorem uncachedKeyFrames_eq (ptx : PrincipalTX) :
    ptx.uncachedKeyFrames =
      registrationFrames (wires ptx.flatState) ++ [signalFrame .serverSync] := by
  rw [PrincipalTX.uncachedKeyFrames, buildKeyFrames_eq]

/-- The values do not depend on whether the cache has been filled. -/
theorem buildValueFrames_buildKeyFrames (ptx : PrincipalTX) :
    ptx.buildKeyFrames.1.buildValueFrames = valueFrames (wires ptx.flatState) := by
  rw [PrincipalTX.buildValueFrames, (buildKeyFrames_fst ptx).1, buildValueFrames_eq]

/-- The answer to a request for a live key, where the key frames are up to date
and no two keys have one id. -/
theorem handleKeyRequest_of_wire (hexact : ptx.buildKeyFrames.2 = ptx.uncachedKeyFrames)
    (hids : UniqueIds (rows ptx.flatState)) {wire : StdString × Entry}
    (hwire : wire ∈ wires ptx.flatState) :
    (session.handleKeyRequest (some ptx) wire.2.keyId).2 = answer wire := by
  have hkey : (ptx.uncachedKeyFrames.find? fun frame =>
      frame.frameType == .serverKeyRegistration && frame.keyId == wire.2.keyId) =
      some (WireRows.registrationFrame wire.1 wire.2) := by
    rw [uncachedKeyFrames_eq]
    apply find?_unique
    · exact List.mem_append_left _ (List.mem_map.mpr ⟨wire, hwire, rfl⟩)
    · simp [WireRows.registrationFrame]
    · intro frame hframe htest
      rw [Bool.and_eq_true, beq_iff_eq, beq_iff_eq] at htest
      rcases List.mem_append.mp hframe with hframe | hframe
      · obtain ⟨other, hother, rfl⟩ := List.mem_map.mp hframe
        rw [wire_unique ptx.flatState hids hwire hother htest.2]
      · rw [List.mem_singleton.mp hframe] at htest
        exact absurd htest.1 FrameType.noConfusion
  have hflat : ptx.buildKeyFrames.1.flatState = ptx.flatState := (buildKeyFrames_fst ptx).1
  have hanswer : (Session.requestFromTx (some ptx) wire.2.keyId).2 = some (answer wire) := by
    simp only [Session.requestFromTx, hexact, hkey, Option.map_some, PrincipalTX.buildValueFrames,
      hflat, keyAnswer_of_wire hids hwire]
  rw [Session.handleKeyRequest]
  dsimp only
  rw [hanswer, Option.some_or, Option.some_or, Option.getD_some]

end Session

end DanWs.KeyRequests
