import DanWs.TopicReferences

namespace DanWs.ReferenceHandling

open DanWs.ClientHistories
open DanWs.Clients
open DanWs.FiniteMaps
open DanWs.MapChanges
open DanWs.TopicReferences
open DanWs.TopicRouting
open DanWs.WireTypes

section Pointers

variable {client : Client} {keyId slot : UInt32} {path : StdString}

theorem resolve_of_cache {other : Client} (h : client.topicKeyCache = other.topicKeyCache)
    (slot : UInt32) : resolve client slot = resolve other slot := by
  rw [resolve, resolve, h]

theorem resolve_of_maps {other : Client} (h : maps client = maps other) (slot : UInt32) :
    resolve client slot = resolve other slot :=
  resolve_of_cache (congrArg Maps.topicKeyCache h) slot

theorem resolve_of_erase {cache : FiniteMap UInt32 (Option TopicInfo)}
    (h : client.topicKeyCache = cache.erase slot) : resolve client slot = none := by
  rw [resolve, h, Finmap.lookup_erase]
  rfl

theorem getTopicInfo_eq_map (client : Client) (keyId : UInt32) (path : StdString) :
    getTopicInfo client keyId path =
      ((client.getTopicInfo keyId path).1,
        (client.getTopicInfo keyId path).2.map fun _ => keyId) := by
  rw [getTopicInfo, Client.getTopicInfo]
  cases client.topicKeyCache.lookup keyId <;> rfl

theorem resolve_getTopicInfo (client : Client) (keyId : UInt32) (path : StdString) :
    resolve (client.getTopicInfo keyId path).1 keyId = (client.getTopicInfo keyId path).2 := by
  rw [Client.getTopicInfo]
  cases hlookup : client.topicKeyCache.lookup keyId with
  | none => rw [resolve, Finmap.lookup_insert]; rfl
  | some info => rw [resolve, hlookup]; rfl

end Pointers

def Readable (client : Client) (topicInfo : Option UInt32) : Prop :=
  ∀ slot, topicInfo = some slot → (resolve client slot).isSome

/-- What callbacks leave alone. -/
structure Kept (before after : Progress) : Prop where
  maps : maps after.client = maps before.client
  live : after.live = before.live

section Callbacks

variable (callbacks : Notice → List Callback) {progress next : Progress}

theorem Kept.refl (progress : Progress) : Kept progress progress := ⟨rfl, rfl⟩

theorem Kept.trans {first second third : Progress} (h : Kept first second)
    (h' : Kept second third) : Kept first third :=
  ⟨h'.maps.trans h.maps, h'.live.trans h.live⟩

theorem maps_foldl_callback (list : List Callback) (client : Client) :
    maps (list.foldl (fun client callback => callback.run client) client) = maps client := by
  induction list generalizing client with
  | nil => rfl
  | cons callback list ih => exact (ih (callback.run client)).trans (callback.keeps client)

theorem kept_emit (progress : Progress) (notice : Notice) :
    Kept progress (emit callbacks progress notice) :=
  ⟨maps_foldl_callback (callbacks notice) progress.client, rfl⟩

/-- No callback erases the slot that the next one reads. -/
theorem kept_callWithKey {slot : UInt32} (list : List Callback)
    (h : (resolve progress.client slot).isSome) :
    Kept progress (list.foldl (callWithKey slot) progress) := by
  induction list generalizing progress with
  | nil => exact Kept.refl progress
  | cons callback list ih =>
      have hmaps := callback.keeps progress.client
      have hcall : Kept progress (callWithKey slot progress callback) :=
        ⟨hmaps, by rw [callWithKey, h, Bool.and_true]⟩
      refine hcall.trans (ih ?_)
      rw [callWithKey, resolve_of_maps hmaps]
      exact h

theorem lookUp_of_empty {slot : UInt32} {found : TopicInfo → StdString → Progress}
    (h : progress.client.topics.indexToTopic = ∅) : lookUp progress slot found = progress := by
  rw [lookUp, if_pos h]

theorem lookUp_of_gone {slot : UInt32} {found : TopicInfo → StdString → Progress}
    (hindices : progress.client.topics.indexToTopic ≠ ∅)
    (h : resolve progress.client slot = none) :
    lookUp progress slot found = dangling progress := by
  rw [lookUp, if_neg hindices, h]

/-- A reference that can be read leads to the handle of its topic. -/
theorem lookUp_of_live {slot : UInt32} {found : TopicInfo → StdString → Progress}
    {info : TopicInfo} (h : resolve progress.client slot = some info) :
    lookUp progress slot found =
      ((handleOf progress.client info).map (found info)).getD progress := by
  by_cases hempty : progress.client.topics.indexToTopic = ∅
  · rw [lookUp_of_empty hempty, handleOf_of_empty hempty]
    rfl
  · rw [lookUp, if_neg hempty, h]
    dsimp only
    cases handleOf progress.client info <;> rfl

theorem kept_lookUp {slot : UInt32} {found : TopicInfo → StdString → Progress}
    (h : (resolve progress.client slot).isSome)
    (hfound : ∀ info topicName, Kept progress (found info topicName)) :
    Kept progress (lookUp progress slot found) := by
  obtain ⟨info, hinfo⟩ := Option.isSome_iff_exists.mp h
  rw [lookUp_of_live hinfo]
  cases handleOf progress.client info with
  | none => exact Kept.refl progress
  | some topicName => exact hfound info topicName

theorem kept_notify {topicInfo : Option UInt32} (h : Readable progress.client topicInfo)
    (path : StdString) (value : Payload) :
    Kept progress (notify callbacks progress topicInfo path value) := by
  cases topicInfo with
  | none => exact kept_emit callbacks progress _
  | some slot =>
      refine kept_lookUp (h slot rfl) fun info topicName => ?_
      have hnoted : Kept progress { progress with
          notices := progress.notices ++ [.notifyTopic topicName info.userKey value] } :=
        ⟨rfl, rfl⟩
      exact hnoted.trans (kept_callWithKey _ (h slot rfl))

theorem kept_notifyLength {topicInfo : Option UInt32} (h : Readable progress.client topicInfo)
    (path : StdString) (length : Int) :
    Kept progress (notifyLength callbacks progress topicInfo path length) := by
  cases topicInfo with
  | none => exact kept_emit callbacks progress _
  | some slot => exact kept_lookUp (h slot rfl) fun info topicName => kept_emit callbacks progress _

theorem kept_notifyReady (progress : Progress) :
    Kept progress (notifyReady callbacks progress) := by
  have hready : Kept progress
      { progress with client := { progress.client with state := .ready } } := ⟨rfl, rfl⟩
  have hnoticed := hready.trans (kept_emit callbacks _ .onReady)
  rw [notifyReady]
  dsimp only
  split
  · refine (hnoticed.trans ?_).trans (kept_emit callbacks _ .onReconnect)
    exact ⟨rfl, rfl⟩
  · exact hnoticed

theorem kept_announce (progress : Progress) : Kept progress (announce progress) := by
  rw [announce]
  split
  · exact Kept.refl progress
  · exact ⟨rfl, rfl⟩

theorem kept_enterReady (progress : Progress) : Kept progress (enterReady callbacks progress) :=
  (kept_notifyReady callbacks progress).trans (kept_announce _)

end Callbacks

section Frames

variable (callbacks : Notice → List Callback) (client : Client) (frame : Frame)

/-- A frame has been handled with live reads only, and has changed the maps as it does without
callbacks. -/
structure Settled (handled : Handled) (progress : Progress) : Prop where
  maps : maps progress.client = maps handled.client
  live : progress.live = true

theorem readable_getTopicInfo {cached moved : Client} {info : Option TopicInfo} {keyId : UInt32}
    (hresolve : resolve cached keyId = info)
    (hmaps : (maps moved).topicKeyCache = (maps cached).topicKeyCache) :
    Readable moved (info.map fun _ => keyId) := by
  intro slot hslot
  obtain ⟨held, hheld, rfl⟩ := Option.map_eq_some_iff.mp hslot
  rw [resolve_of_cache (show moved.topicKeyCache = cached.topicKeyCache from hmaps), hresolve,
    hheld]
  rfl

theorem settled_handleAuthFail :
    Settled (client.handleAuthFail frame) (handleAuthFail callbacks client frame) := by
  have hrejected := kept_emit callbacks (begin { client with intentionalDisconnect := true })
    (.onError (str "AUTH_REJECTED") (Client.textOf frame (str "Authentication failed")))
  have hkept : Kept (begin { client with intentionalDisconnect := true })
      (handleAuthFail callbacks client frame) := by
    rw [handleAuthFail]
    refine (hrejected.trans ?_).trans (kept_emit callbacks _ .onDisconnect)
    exact ⟨rfl, rfl⟩
  exact ⟨hkept.maps, hkept.live⟩

theorem settled_applyPending (path : StdString) :
    Settled (client.applyPending frame path) (applyPending callbacks client frame path) := by
  rw [applyPending, Client.applyPending]
  cases client.pendingValues.lookup frame.keyId with
  | none => exact ⟨rfl, rfl⟩
  | some pending =>
      let stored := { client with store := client.store.insert frame.keyId pending.payload }
      let cached := stored.getTopicInfo frame.keyId path
      have hreadable : Readable cached.1 (cached.2.map fun _ => frame.keyId) :=
        readable_getTopicInfo (resolve_getTopicInfo stored frame.keyId path) rfl
      have hnotified := @kept_notify callbacks (begin cached.1) _ hreadable path pending.payload
      dsimp only
      rw [getTopicInfo_eq_map]
      exact ⟨congrArg (fun m : Maps => { m with
        pendingValues := m.pendingValues.erase frame.keyId }) hnotified.maps, hnotified.live⟩

theorem settled_handleServerKeyRegistration :
    Settled (client.handleServerKeyRegistration frame)
      (handleServerKeyRegistration callbacks client frame) := by
  rw [handleServerKeyRegistration, Client.handleServerKeyRegistration]
  dsimp only
  cases frame.payload with
  | string path =>
      dsimp only
      cases client.startSynchronizing.registry.registerOne frame.keyId path frame.dataType with
      | error e => exact ⟨rfl, rfl⟩
      | ok registered => exact settled_applyPending callbacks _ frame path
  | _ => exact ⟨rfl, rfl⟩

theorem settled_handleServerSync :
    Settled client.handleServerSync (handleServerSync callbacks client) := by
  rw [handleServerSync, Client.handleServerSync]
  dsimp only
  split
  · have hready := kept_enterReady callbacks (begin client.startSynchronizing)
    exact ⟨hready.maps.trans (maps_enterReady _).symm, hready.live⟩
  · exact ⟨rfl, rfl⟩

theorem settled_handleServerValue :
    Settled (client.handleServerValue frame) (handleServerValue callbacks client frame) := by
  rw [handleServerValue, Client.handleServerValue]
  cases client.registry.getByKeyId frame.keyId with
  | none => exact ⟨rfl, rfl⟩
  | some entry =>
      let stored := { client with store := client.store.insert frame.keyId frame.payload }
      let cached := stored.getTopicInfo frame.keyId entry.path
      have hreadable : Readable cached.1 (cached.2.map fun _ => frame.keyId) :=
        readable_getTopicInfo (resolve_getTopicInfo stored frame.keyId entry.path) rfl
      have hnotified :=
        @kept_notify callbacks (begin cached.1) _ hreadable entry.path frame.payload
      have hstored : maps (client.storeValue frame entry).client = maps cached.1 := by
        rw [Client.storeValue]
        dsimp only
        split
        · exact maps_enterReady _
        · rfl
      dsimp only
      rw [getTopicInfo_eq_map]
      dsimp only
      split
      · have hready := hnotified.trans (kept_enterReady callbacks _)
        exact ⟨hready.maps.trans hstored.symm, hready.live⟩
      · exact ⟨hnotified.maps.trans hstored.symm, hnotified.live⟩

theorem topicKeyCache_moveElements (start : StdString) (source target : ℕ → ℕ)
    (indices : List ℕ) :
    (maps (indices.foldl (fun client i => client.moveElement start (source i) (target i))
      client)).topicKeyCache = (maps client).topicKeyCache := by
  obtain ⟨store, hmaps, _⟩ := maps_moveElements client start source target indices
  rw [hmaps]

theorem settled_notifyLength {client : Client} {topicInfo : Option UInt32}
    (h : Readable client topicInfo) (path : StdString) (length : Int) (handled : Handled)
    (hclient : handled.client = client) :
    Settled handled (notifyLength callbacks (begin client) topicInfo path length) := by
  have hkept := @kept_notifyLength callbacks (begin client) _ h path length
  exact ⟨hkept.maps.trans (congrArg _ hclient.symm), hkept.live⟩

theorem settled_handleArrayShiftLeft :
    Settled (client.handleArrayShiftLeft frame) (handleArrayShiftLeft callbacks client frame) := by
  rw [handleArrayShiftLeft, Client.handleArrayShiftLeft]
  cases client.registry.getByKeyId frame.keyId with
  | none => exact ⟨rfl, rfl⟩
  | some entry =>
      have hresolve := resolve_getTopicInfo client frame.keyId entry.path
      dsimp only
      rw [getTopicInfo_eq_map]
      dsimp only
      refine settled_notifyLength callbacks (readable_getTopicInfo hresolve ?_) entry.path _ _ rfl
      exact topicKeyCache_moveElements _ (Client.dropLength entry.path) (fun i => i + _)
        (fun i => i) _

theorem settled_handleArrayShiftRight :
    Settled (client.handleArrayShiftRight frame)
      (handleArrayShiftRight callbacks client frame) := by
  rw [handleArrayShiftRight, Client.handleArrayShiftRight]
  cases client.registry.getByKeyId frame.keyId with
  | none => exact ⟨rfl, rfl⟩
  | some entry =>
      have hresolve := resolve_getTopicInfo client frame.keyId entry.path
      dsimp only
      rw [getTopicInfo_eq_map]
      dsimp only
      refine settled_notifyLength callbacks (readable_getTopicInfo hresolve ?_) entry.path _ _ rfl
      exact topicKeyCache_moveElements _ (Client.dropLength entry.path) (fun i => i)
        (fun i => i + _) _

theorem kept_foldl_emit {α : Type*} (notice : α → Notice) (list : List α) (progress : Progress) :
    Kept progress (list.foldl (fun progress item => emit callbacks progress (notice item))
      progress) := by
  induction list generalizing progress with
  | nil => exact Kept.refl progress
  | cons item list ih => exact (kept_emit callbacks progress (notice item)).trans (ih _)

theorem settled_handleServerFlushEnd (h : frame.frameType = .serverFlushEnd) :
    Settled (client.handleFrame frame) (handleServerFlushEnd callbacks client) := by
  have hkept : Kept (begin client) (handleServerFlushEnd callbacks client) :=
    (kept_emit callbacks (begin client) .onUpdate).trans (kept_foldl_emit callbacks .flushTopic _ _)
  rw [Client.handleFrame, h]
  exact ⟨hkept.maps, hkept.live⟩

/-- Only a deletion may read a slot that is gone. -/
theorem settled_handleFrame (h : frame.frameType ≠ .serverKeyDelete) :
    Settled (client.handleFrame frame) (handleFrame callbacks client frame) := by
  have hlast := kept_foldl_emit callbacks id (client.handleFrame frame).notices
    (begin (client.handleFrame frame).client)
  rw [handleFrame]
  split
  · next htype =>
      rw [Client.handleFrame, htype]
      exact settled_handleAuthFail callbacks client frame
  · next htype =>
      rw [Client.handleFrame, htype]
      exact settled_handleServerKeyRegistration callbacks client frame
  · next htype =>
      rw [Client.handleFrame, htype]
      exact settled_handleServerSync callbacks client
  · next htype =>
      rw [Client.handleFrame, htype]
      exact settled_handleServerValue callbacks client frame
  · next htype =>
      rw [Client.handleFrame, htype]
      exact settled_handleArrayShiftLeft callbacks client frame
  · next htype =>
      rw [Client.handleFrame, htype]
      exact settled_handleArrayShiftRight callbacks client frame
  · next htype => exact settled_handleServerFlushEnd callbacks client frame htype
  · next htype => exact absurd htype h
  · exact ⟨hlast.maps, hlast.live⟩

end Frames

end DanWs.ReferenceHandling
