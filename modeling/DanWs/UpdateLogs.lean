import DanWs.PrincipalReplication
import DanWs.ReceivedStores

namespace DanWs.UpdateLogs

open DanWs.Clients
open DanWs.FiniteMaps
open DanWs.FlatStates
open DanWs.KeyFrameCache
open DanWs.KeyPaths
open DanWs.KeyStores
open DanWs.PrincipalReplication
open DanWs.Principals
open DanWs.ReceivedFrames
open DanWs.ReceivedStores
open DanWs.Replicas
open DanWs.Replication
open DanWs.StepRuns
open DanWs.WireRows
open DanWs.WireTypes

/-- The path and the value of a call of `onReceive_`. -/
abbrev Update := StdString × Payload

def updateOf : Notice → Option Update
  | .onReceive path value => some (path, value)
  | _ => none

def updates (notices : List Notice) : List Update := notices.filterMap updateOf

/-- A path that is not taken for the key of a topic. -/
def Ordinary (path : StdString) : Prop := path ≠ [] ∧ parseTopicKey path = none

instance (path : StdString) : Decidable (Ordinary path) :=
  inferInstanceAs (Decidable (_ ∧ _))

def OrdinaryFrame (frame : Frame) : Prop :=
  frame.frameType = .serverKeyRegistration → ∀ path, frame.payload = .string path → Ordinary path

def OrdinaryKeys (keys : KeyStore) : Prop :=
  ∀ keyId entry, keys.registry.byId.lookup keyId = some entry → Ordinary entry.path

/-- No key that the client remembers was taken for the key of a topic. -/
def PlainCache (client : Client) : Prop :=
  ∀ keyId info, client.topicKeyCache.lookup keyId = some info → info = none

/-- What the callbacks are told of a frame. -/
def told (keys : KeyStore) (frame : Frame) : List Update :=
  match frame.frameType with
  | .serverKeyRegistration =>
      match frame.payload with
      | .string path =>
          match keys.registry.registerOne frame.keyId path frame.dataType with
          | .error _ => []
          | .ok _ =>
              ((keys.pendingValues.lookup frame.keyId).map fun pending =>
                (path, pending.payload)).toList
      | _ => []
  | .serverValue =>
      ((keys.registry.getByKeyId frame.keyId).map fun entry => (entry.path, frame.payload)).toList
  | .serverKeyDelete =>
      ((keys.registry.getByKeyId frame.keyId).map fun entry => (entry.path, .null)).toList
  | _ => []

section Frames

variable {client : Client} {frame : Frame}

theorem updates_append (first second : List Notice) :
    updates (first ++ second) = updates first ++ updates second :=
  List.filterMap_append

theorem updates_enterReady (client : Client) : updates client.enterReady.notices = [] := by
  have hnotices : client.enterReady.notices =
      .onReady :: if client.reconnectActive then [.onReconnect] else [] := by
    rw [Client.enterReady]
    dsimp only
    split <;> rfl
  rw [hnotices]
  split <;> rfl

theorem topicKeyCache_enterReady (client : Client) :
    client.enterReady.client.topicKeyCache = client.topicKeyCache := by
  rw [Client.enterReady]
  dsimp only
  split <;> rfl

theorem plainCache_startSynchronizing (h : PlainCache client) :
    PlainCache client.startSynchronizing := by
  rw [Client.startSynchronizing]
  split
  · exact h
  · exact h

theorem getTopicInfo_of_plain (h : PlainCache client) (keyId : UInt32) {path : StdString}
    (hpath : Ordinary path) :
    (client.getTopicInfo keyId path).2 = none ∧ PlainCache (client.getTopicInfo keyId path).1 := by
  rw [Client.getTopicInfo]
  cases hlookup : client.topicKeyCache.lookup keyId with
  | some info => exact ⟨h keyId info hlookup, h⟩
  | none =>
      refine ⟨hpath.2, fun other info hother => ?_⟩
      dsimp only at hother
      obtain ⟨-, rfl⟩ | ⟨-, hheld⟩ := lookup_of_lookup_insert hother
      · exact hpath.2
      · exact h other info hheld

theorem updates_storeValue (h : PlainCache client) (frame : Frame) {entry : KeyEntry}
    (hpath : Ordinary entry.path) :
    updates (client.storeValue frame entry).notices = [(entry.path, frame.payload)] ∧
      PlainCache (client.storeValue frame entry).client := by
  obtain ⟨hinfo, hcache⟩ := @getTopicInfo_of_plain
    { client with store := client.store.insert frame.keyId frame.payload } h frame.keyId _ hpath
  rw [Client.storeValue]
  dsimp only
  rw [hinfo]
  split
  · refine ⟨?_, ?_⟩
    · dsimp only
      rw [updates_append, updates_enterReady]
      rfl
    · dsimp only
      rw [PlainCache, topicKeyCache_enterReady]
      exact hcache
  · exact ⟨rfl, hcache⟩

theorem updates_applyPending (h : PlainCache client) (frame : Frame) {path : StdString}
    (hpath : Ordinary path) :
    updates (client.applyPending frame path).notices =
        ((client.pendingValues.lookup frame.keyId).map fun pending =>
          (path, pending.payload)).toList ∧
      PlainCache (client.applyPending frame path).client := by
  rw [Client.applyPending]
  cases hpending : client.pendingValues.lookup frame.keyId with
  | none => exact ⟨rfl, h⟩
  | some pending =>
      obtain ⟨hinfo, hcache⟩ := @getTopicInfo_of_plain
        { client with store := client.store.insert frame.keyId pending.payload } h frame.keyId _
        hpath
      dsimp only
      rw [hinfo]
      exact ⟨rfl, hcache⟩

theorem updates_handleServerKeyRegistration (h : PlainCache client)
    (hordinary : ∀ path, frame.payload = .string path → Ordinary path)
    (htype : frame.frameType = .serverKeyRegistration) :
    updates (client.handleServerKeyRegistration frame).notices = told (keyStore client) frame ∧
      PlainCache (client.handleServerKeyRegistration frame).client := by
  have hstart := keyStore_startSynchronizing client
  have hcache := plainCache_startSynchronizing h
  rw [Client.handleServerKeyRegistration, told, htype, ← hstart]
  dsimp only
  generalize client.startSynchronizing = started at hcache ⊢
  cases hpayload : frame.payload with
  | string path =>
      dsimp only
      rw [show (keyStore started).registry = started.registry from rfl]
      cases started.registry.registerOne frame.keyId path frame.dataType with
      | error fault => exact ⟨rfl, hcache⟩
      | ok registry =>
          exact @updates_applyPending { started with registry } hcache frame path
            (hordinary path hpayload)
  | _ => exact ⟨rfl, hcache⟩

theorem updates_handleServerSync (h : PlainCache client) :
    updates client.handleServerSync.notices = [] ∧ PlainCache client.handleServerSync.client := by
  have hcache := plainCache_startSynchronizing h
  rw [Client.handleServerSync]
  dsimp only
  split
  · refine ⟨updates_enterReady _, ?_⟩
    dsimp only
    rw [PlainCache, topicKeyCache_enterReady]
    exact hcache
  · exact ⟨rfl, hcache⟩

theorem updates_handleServerValue (h : PlainCache client) (hkeys : OrdinaryKeys (keyStore client))
    (htype : frame.frameType = .serverValue) :
    updates (client.handleServerValue frame).notices = told (keyStore client) frame ∧
      PlainCache (client.handleServerValue frame).client := by
  rw [Client.handleServerValue, told, htype]
  dsimp only
  rw [show (keyStore client).registry = client.registry from rfl]
  cases hentry : client.registry.getByKeyId frame.keyId with
  | none => exact ⟨rfl, h⟩
  | some entry => exact updates_storeValue h frame (hkeys frame.keyId entry hentry)

theorem plainCache_erase (h : PlainCache client) (keyId : UInt32) :
    PlainCache { client with topicKeyCache := client.topicKeyCache.erase keyId } :=
  fun other info hother => h other info (lookup_of_lookup_erase hother).2

theorem updates_handleServerKeyDelete (h : PlainCache client)
    (hkeys : OrdinaryKeys (keyStore client)) (htype : frame.frameType = .serverKeyDelete) :
    updates (client.handleServerKeyDelete frame).notices = told (keyStore client) frame ∧
      PlainCache (client.handleServerKeyDelete frame).client := by
  rw [Client.handleServerKeyDelete, told, htype]
  dsimp only
  rw [show (keyStore client).registry = client.registry from rfl]
  cases hentry : client.registry.getByKeyId frame.keyId with
  | none => exact ⟨rfl, plainCache_erase h frame.keyId⟩
  | some entry =>
      have hordinary := hkeys frame.keyId entry hentry
      obtain ⟨hinfo, hcache⟩ := getTopicInfo_of_plain h frame.keyId hordinary
      dsimp only [Option.map_some, Option.getD_some]
      rw [hinfo, if_neg hordinary.1]
      exact ⟨rfl, plainCache_erase hcache frame.keyId⟩

theorem updates_handleFrame (h : PlainCache client) (hkeys : OrdinaryKeys (keyStore client))
    (hordinary : OrdinaryFrame frame) (hsync : isSyncFrame frame) :
    updates (client.handleFrame frame).notices = told (keyStore client) frame ∧
      PlainCache (client.handleFrame frame).client := by
  rw [Client.handleFrame]
  simp only [isSyncFrame, Bool.or_eq_true, decide_eq_true_eq] at hsync
  rcases hsync with (((htype | htype) | htype) | htype) | htype
  all_goals rw [htype]
  · exact updates_handleServerKeyRegistration h (hordinary htype) htype
  · have htold : told (keyStore client) frame = [] := by rw [told, htype]
    rw [htold]
    exact updates_handleServerSync h
  · exact updates_handleServerValue h hkeys htype
  · exact updates_handleServerKeyDelete h hkeys htype
  · have htold : told (keyStore client) frame = [] := by rw [told, htype]
    rw [htold]
    refine ⟨rfl, fun keyId info hinfo => ?_⟩
    cases hinfo

theorem ordinaryKeys_apply {keys : KeyStore} (h : OrdinaryKeys keys)
    (hordinary : OrdinaryFrame frame) : OrdinaryKeys (keys.apply frame) := by
  rw [KeyStore.apply]
  split
  · next htype =>
      rw [KeyStore.register]
      split
      · next path hpayload =>
          split
          · exact h
          · next registry hregistered =>
              have hinsert := (registerOne_ok hregistered).2.2.1
              intro keyId entry hentry
              rw [KeyStore.registry_applyPending] at hentry
              rw [hinsert] at hentry
              obtain ⟨-, rfl⟩ | ⟨-, hheld⟩ := lookup_of_lookup_insert hentry
              · exact hordinary htype path hpayload
              · exact h keyId entry hheld
      · exact h
  · rw [OrdinaryKeys, KeyStore.registry_storeValue]
    exact h
  · intro keyId entry hentry
    rw [KeyStore.delete, KeyRegistry.removeByKeyId] at hentry
    split at hentry
    · exact h keyId entry hentry
    · exact h keyId entry (lookup_of_lookup_erase hentry).2
  · intro keyId entry hentry
    cases hentry
  · exact h

def heard (client : Client) (frames : List Frame) : List Update :=
  outputs (fun client frame => (client.handleFrame frame).client)
    (fun client frame => updates (client.handleFrame frame).notices) client frames

theorem heard_append (client : Client) (first second : List Frame) :
    heard client (first ++ second) =
      heard client first ++ heard (client.receive first).1 second := by
  induction first generalizing client with
  | nil => rfl
  | cons frame first ih =>
      rw [List.cons_append, heard, heard, outputs, outputs, List.append_assoc]
      exact congrArg _ (ih _)

theorem heard_eq (h : PlainCache client) (hkeys : OrdinaryKeys (keyStore client))
    {frames : List Frame} (hframes : ∀ frame ∈ frames, OrdinaryFrame frame ∧ isSyncFrame frame) :
    heard client frames = outputs KeyStore.apply told (keyStore client) frames ∧
      PlainCache (client.receive frames).1 ∧ OrdinaryKeys (keyStore (client.receive frames).1) := by
  induction frames generalizing client with
  | nil => exact ⟨rfl, h, hkeys⟩
  | cons frame frames ih =>
      obtain ⟨⟨hordinary, hsync⟩, hrest⟩ := List.forall_mem_cons.mp hframes
      obtain ⟨hnotices, hcache⟩ := updates_handleFrame h hkeys hordinary hsync
      have hnext := keyStore_handleFrame client frame hsync
      have hkept := ordinaryKeys_apply hkeys hordinary
      rw [← hnext] at hkept
      obtain ⟨hheard, hend⟩ := ih hcache hkept hrest
      refine ⟨?_, hend⟩
      rw [heard, outputs, outputs, hnotices, ← hnext]
      exact congrArg _ hheard

end Frames

section Received

variable {keys read : KeyStore}

def receivedUpdate (update : Update) : Update := (update.1, received update.2)

theorem ordinary_receivedFrame {frame : Frame} (h : OrdinaryFrame frame) :
    OrdinaryFrame (receivedFrame frame) := by
  intro htype
  have hregistration : frame.frameType = .serverKeyRegistration := by
    rwa [receivedFrame_fields] at htype
  rw [receivedFrame_of_not_valued (by rw [CarriesValue, hregistration]; rfl)]
  exact h hregistration

/-- With the values as they are received, the callbacks are told the same. -/
theorem told_receivedFrame (h : Reads keys read) (frame : Frame) :
    told read (receivedFrame frame) = (told keys frame).map receivedUpdate := by
  have htype : (receivedFrame frame).frameType = frame.frameType := by
    rw [receivedFrame_fields]
  have hkeyId : (receivedFrame frame).keyId = frame.keyId := by
    rw [receivedFrame_fields]
  rw [told, told, htype, hkeyId, h.registry, h.pending]
  split
  · next hregistration =>
      rw [receivedFrame_of_not_valued (by rw [CarriesValue, hregistration]; rfl)]
      split
      · split
        · rfl
        · cases hpending : keys.pendingValues.lookup frame.keyId with
          | none => rfl
          | some pending =>
              dsimp only [Option.map_some]
              rw [receivedFrame_of_valued (h.valued frame.keyId pending hpending)]
              rfl
      · rfl
  · next hvalue =>
      rw [receivedFrame_of_valued (by rw [CarriesValue, hvalue]; rfl)]
      cases keys.registry.getByKeyId frame.keyId <;> rfl
  · cases keys.registry.getByKeyId frame.keyId <;> rfl
  · rfl

theorem told_received (h : Reads keys read) (frames : List Frame) :
    outputs KeyStore.apply told read (frames.map receivedFrame) =
      (outputs KeyStore.apply told keys frames).map receivedUpdate := by
  induction frames generalizing keys read with
  | nil => rfl
  | cons frame frames ih =>
      rw [List.map_cons, outputs, outputs, List.map_append, told_receivedFrame h,
        ih (reads_apply h frame)]

end Received

section Rows

variable {keys : KeyStore} {rows : Finset WireRow}

theorem getByKeyId_of_names (h : Names keys.replica rows) {row : WireRow} (hrow : row ∈ rows) :
    ∃ entry, keys.registry.getByKeyId row.id = some entry ∧ entry.path = row.path := by
  have hpath := (h.pathOf row.id row.path).mpr ⟨row, hrow, rfl, rfl⟩
  exact Option.map_eq_some_iff.mp hpath

theorem told_valueFrame (h : Names keys.replica rows) {row : WireRow} (hrow : row ∈ rows)
    {entry : Entry} (hid : row.id = entry.keyId) :
    told keys (FlatState.valueFrame entry) = [(row.path, entry.value)] := by
  obtain ⟨known, hknown, hpath⟩ := getByKeyId_of_names h hrow
  rw [hid] at hknown
  rw [told, FlatState.valueFrame]
  dsimp only
  rw [hknown, ← hpath]
  rfl

theorem told_deleteFrame (h : Names keys.replica rows) {row : WireRow} (hrow : row ∈ rows) :
    told keys (FlatState.deleteFrame row.id) = [(row.path, .null)] := by
  obtain ⟨known, hknown, hpath⟩ := getByKeyId_of_names h hrow
  rw [told, FlatState.deleteFrame]
  dsimp only
  rw [hknown, ← hpath]
  rfl

theorem told_registrationFrame (h : keys.pendingValues = ∅) (path : StdString) (entry : Entry) :
    told keys (registrationFrame path entry) = [] := by
  rw [told, registrationFrame, h]
  dsimp only
  split <;> rfl

theorem told_entryFrames (h : InSync keys rows) {flat : FlatState} {key : StdString}
    {entry : Entry} (hvalid : checkKeyPath (flat.wirePath key) = .ok ())
    (hkeyed : WellKeyed (insert (wireRow (flat.wirePath key) entry) rows))
    (hcard : (insert (wireRow (flat.wirePath key) entry) rows).card ≤ keys.registry.maxKeys) :
    outputs KeyStore.apply told keys (flat.entryFrames key entry) =
      [(flat.wirePath key, entry.value)] := by
  have hnamed := tracks_registration h hvalid hkeyed (mem_or_card_lt hcard)
  have hregistration : told keys (flat.keyFrame key entry) = [] :=
    told_registrationFrame h.pending (flat.wirePath key) entry
  have hvalue := told_valueFrame hnamed.names (Finset.mem_insert_self _ rows) rfl
  rw [FlatState.entryFrames, outputs, hregistration, List.nil_append]
  exact congrArg (· ++ []) hvalue

end Rows

section Operations

variable [HashOrder StdString] {counted : Counted} {keys : KeyStore}

def updatesOf (ptx : PrincipalTX) : Operation → List Update
  | .set key value =>
      match ptx.flatState.entries.lookup key with
      | none => [(key, value)]
      | some old =>
          if old.type = detectDataType value then [(key, value)] else [(key, .null), (key, value)]
  | .clearKey key => if ptx.flatState.entries.lookup key = none then [] else [(key, .null)]
  | .clear | .buildKeyFrames => []

omit [HashOrder StdString] in
theorem told_set {flat : FlatState} {nextKeyId : UInt32} {key : StdString} {value : Payload}
    (h : InSync keys (rows flat)) (hvalid : checkKeyPath (flat.wirePath key) = .ok ())
    (hkeyed : WellKeyed (rows (flat.set nextKeyId key value).1))
    (hcard : (rows (flat.set nextKeyId key value).1).card ≤ keys.registry.maxKeys) :
    outputs KeyStore.apply told keys (flat.set nextKeyId key value).2.2 =
      match flat.entries.lookup key with
      | none => [(flat.wirePath key, value)]
      | some old =>
          if old.type = detectDataType value then [(flat.wirePath key, value)]
          else [(flat.wirePath key, .null), (flat.wirePath key, value)] := by
  cases hold : flat.entries.lookup key with
  | none =>
      rw [rows_set_new hold] at hkeyed hcard
      rw [frames_set_new hold]
      exact told_entryFrames h hvalid hkeyed hcard
  | some old =>
      have hrow : wireRow (flat.wirePath key) old ∈ rows flat := wireRow_mem_rows hold
      dsimp only
      rcases eq_or_ne old.type (detectDataType value) with htype | htype
      · have hvalue := @told_valueFrame keys (rows flat) h.names _ hrow { old with value } rfl
        rw [if_pos htype, frames_set_same hold htype]
        exact congrArg (· ++ []) hvalue
      · rw [rows_set_retyped hold htype] at hkeyed hcard
        rw [if_neg htype, frames_set_retyped hold htype, outputs]
        have hdeleted := inSync_delete h hrow
        have hdelete := told_deleteFrame h.names hrow
        have hrest := told_entryFrames hdeleted hvalid hkeyed (by rw [maxKeys_apply]; exact hcard)
        rw [show FlatState.deleteFrame old.keyId =
          FlatState.deleteFrame (wireRow (flat.wirePath key) old).id from rfl, hdelete, hrest]
        rfl

/-- The callbacks of a client that follows a principal hear of each call exactly once. -/
theorem told_emit (h : Follows counted keys) {operation : Operation}
    (hpermitted : Permitted counted operation) (hnext : Numbered (count counted operation)) :
    outputs KeyStore.apply told keys (emit counted operation) =
      updatesOf counted.ptx operation := by
  cases operation with
  | set key value =>
      have hcard := (card_rows_le _).trans hpermitted.2.2
      have hset := told_set h.inSync (by rw [h.wirePath]; exact hpermitted.2.1) hnext.wellKeyed
        (hcard.trans h.limit.ge)
      rw [h.wirePath] at hset
      exact hset
  | clearKey key =>
      have hframes : emit counted (.clearKey key) = (counted.flat.clearKey key).2 := rfl
      rw [hframes, updatesOf]
      cases hold : counted.flat.entries.lookup key with
      | none =>
          rw [FlatState.clearKey, hold, if_pos rfl]
          rfl
      | some old =>
          have hdelete := told_deleteFrame h.inSync.names (wireRow_mem_rows hold)
          rw [h.wirePath] at hdelete
          rw [frames_clearKey hold, if_neg (Option.some_ne_none old)]
          exact congrArg (· ++ []) hdelete
  | clear =>
      rw [emit_clear h.bound]
      split <;> rfl
  | buildKeyFrames => rfl

end Operations

end DanWs.UpdateLogs
