import DanWs.FrameCounts
import DanWs.SessionRows

namespace DanWs.EmptyAnswers

open DanWs.FiniteMaps
open DanWs.FlatStates
open DanWs.Principals
open DanWs.ServerActions
open DanWs.Servers
open DanWs.SessionRows
open DanWs.Sessions
open DanWs.TopicParsing
open DanWs.TopicSync
open DanWs.UncountedFrames
open DanWs.WireTypes

section Stores

theorem items_eq_nil_iff {κ ν : Type*} [DecidableEq κ] (order : IterationOrder κ)
    (m : FiniteMap κ ν) : order.items m = [] ↔ m = ∅ := by
  rw [← List.length_eq_zero_iff, IterationOrder.length_items, Finset.card_eq_zero]
  constructor
  · intro hkeys
    refine Finmap.ext_lookup fun key => ?_
    rw [Finmap.lookup_empty, Finmap.lookup_eq_none, ← Finmap.mem_keys, hkeys]
    exact Finset.notMem_empty key
  · rintro rfl
    exact Finmap.keys_empty

def Holds (flat : FlatState) (keyId : UInt32) : Prop :=
  ∃ key entry, flat.entries.lookup key = some entry ∧ entry.keyId = keyId

variable [HashOrder StdString]

theorem buildValueFrames_eq_nil_iff (flat : FlatState) :
    flat.buildValueFrames = [] ↔ flat.entries = ∅ := by
  rw [FlatState.buildValueFrames, List.map_eq_nil_iff, items_eq_nil_iff]

theorem find_keyFrame_eq_none_iff (flat : FlatState) (keyId : UInt32) :
    (flat.buildKeyFrames.find? fun frame => frame.keyId == keyId) = none ↔ ¬ Holds flat keyId := by
  rw [List.find?_eq_none, FlatState.buildKeyFrames, List.forall_mem_map]
  simp only [Prod.forall, IterationOrder.mem_items, FlatState.keyFrame, beq_iff_eq, Holds,
    not_exists, not_and]

end Stores

theorem getD_eq_nil_iff {α : Type*} {answer : Option (List α)} (h : answer ≠ some []) :
    answer.getD [] = [] ↔ answer = none := by
  cases answer with
  | none => exact iff_of_true rfl rfl
  | some frames => exact iff_of_false (fun hnil => h (congrArg some hnil)) (Option.some_ne_none _)

section Answers

variable (session : Session) (tx : Option PrincipalTX)

theorem requestFromFlatState_eq_none_iff (keyId : UInt32) :
    session.requestFromFlatState keyId = none ↔
      ∀ flat, session.flatState = some flat → flat.getByKeyId keyId = none := by
  rw [Session.requestFromFlatState, Option.bind_eq_none_iff]
  exact forall₂_congr fun flat _ => Option.map_eq_none_iff

theorem requestFromFlatState_ne_nil (keyId : UInt32) :
    session.requestFromFlatState keyId ≠ some [] := by
  intro h
  obtain ⟨flat, -, hanswer⟩ := Option.bind_eq_some_iff.mp h
  obtain ⟨entry, -, hframes⟩ := Option.map_eq_some_iff.mp hanswer
  exact absurd hframes (List.cons_ne_nil _ _)

variable [HashOrder StdString]

/-- The key frames of the principal, which may come from its cache, register the id. -/
def Registers (tx : Option PrincipalTX) (keyId : UInt32) : Prop :=
  ∃ ptx, tx = some ptx ∧ ∃ frame ∈ ptx.buildKeyFrames.2,
    frame.frameType = .serverKeyRegistration ∧ frame.keyId = keyId

/-- When a session sends nothing for a frame of its client. -/
def Unanswered (frame : Frame) : Prop :=
  match frame.frameType with
  | .clientReady => session.state = .ready ∨ ∀ ptx, tx = some ptx → ptx.flatState.entries = ∅
  | .clientResyncReq => tx = none
  | .clientKeyRequest =>
      ¬ Registers tx frame.keyId ∧
        (∀ flat, session.flatState = some flat → flat.getByKeyId frame.keyId = none) ∧
        ∀ name handle, session.topicHandles.lookup name = some handle →
          ¬ Holds handle.payload.flatState frame.keyId
  | _ => True

theorem requestFromTx_eq_none_iff (keyId : UInt32) :
    (Session.requestFromTx tx keyId).2 = none ↔ ¬ Registers tx keyId := by
  cases tx with
  | none => simp [Session.requestFromTx, Registers]
  | some ptx =>
      simp only [Session.requestFromTx, Option.map_eq_none_iff, List.find?_eq_none, Registers,
        Option.some.injEq, Bool.and_eq_true, beq_iff_eq]
      grind

theorem requestFromTopics_eq_none_iff (keyId : UInt32) :
    session.requestFromTopics keyId = none ↔
      ∀ name handle, session.topicHandles.lookup name = some handle →
        ¬ Holds handle.payload.flatState keyId := by
  rw [Session.requestFromTopics, List.findSome?_eq_none_iff]
  simp only [Option.map_eq_none_iff, find_keyFrame_eq_none_iff, mem_handles]
  exact ⟨fun h name handle hname => h handle ⟨name, hname⟩,
    fun h handle ⟨name, hname⟩ => h name handle hname⟩

theorem requestFromTx_ne_nil (keyId : UInt32) :
    (Session.requestFromTx tx keyId).2 ≠ some [] := by
  cases tx with
  | none => exact Option.some_ne_none [] |>.symm
  | some ptx => simp [Session.requestFromTx, Session.keyAnswer]

theorem requestFromTopics_ne_nil (keyId : UInt32) : session.requestFromTopics keyId ≠ some [] := by
  intro h
  obtain ⟨-, handle, -, -, hanswer, -⟩ := List.findSome?_eq_some_iff.mp h
  simp [Session.keyAnswer] at hanswer

theorem handleKeyRequest_eq_nil_iff (keyId : UInt32) :
    (session.handleKeyRequest tx keyId).2 = [] ↔
      (Session.requestFromTx tx keyId).2 = none ∧ session.requestFromFlatState keyId = none ∧
        session.requestFromTopics keyId = none := by
  have hanswer : (((Session.requestFromTx tx keyId).2.or (session.requestFromFlatState keyId)).or
      (session.requestFromTopics keyId)) ≠ some [] := by
    rw [Ne, Option.or_eq_some_iff, Option.or_eq_some_iff]
    rintro ((htx | ⟨-, hflat⟩) | ⟨-, htopics⟩)
    · exact requestFromTx_ne_nil tx keyId htx
    · exact requestFromFlatState_ne_nil session keyId hflat
    · exact requestFromTopics_ne_nil session keyId htopics
  have hnil := getD_eq_nil_iff hanswer
  rwa [Option.or_eq_none_iff, Option.or_eq_none_iff, and_assoc] at hnil

theorem handleFrame_eq_nil_iff (frame : Frame) :
    (session.handleFrame tx frame).frames = [] ↔ Unanswered session tx frame := by
  rw [Session.handleFrame.eq_def, Unanswered]
  cases frame.frameType with
  | clientReady =>
      dsimp only
      split
      · next hready => exact iff_of_true rfl (.inl hready)
      · next hready =>
          rw [or_iff_right hready]
          cases tx with
          | none => split <;> simp
          | some ptx =>
              have hvalues := buildValueFrames_eq_nil_iff ptx.flatState
              rw [← PrincipalTX.buildValueFrames] at hvalues
              split <;> simpa using hvalues
  | clientResyncReq =>
      cases tx with
      | none => exact iff_of_true rfl rfl
      | some ptx => simp
  | clientKeyRequest =>
      rw [← requestFromTx_eq_none_iff, ← requestFromFlatState_eq_none_iff,
        ← requestFromTopics_eq_none_iff, ← handleKeyRequest_eq_nil_iff]
  | _ => exact iff_of_true rfl trivial

end Answers

section Topics

theorem frames_subscribed (nameToIndex : FiniteMap StdString Int)
    (topics : List (StdString × FiniteMap StdString Payload)) (outcome : SyncOutcome) :
    (topics.foldl (subscribeOne nameToIndex) outcome).frames = outcome.frames := by
  induction topics generalizing outcome with
  | nil => rfl
  | cons topic topics ih =>
      rw [List.foldl_cons, ih, subscribeOne]
      split <;> rfl

variable [HashOrder StdString]

/-- When a session sends nothing for a topic frame: no sync is read that leaves out a
topic it holds. -/
def Untouched (session : Session) (tables : ClientTables) (frame : Frame) : Prop :=
  frame.frameType = .clientSync → ∀ parse, tables.parse = .ok parse →
    session.flatState = none ∨ session.topicHandles.keys ⊆ parse.newTopics.keys

theorem triggerSessionResync_eq_nil_iff (session : Session) :
    session.triggerSessionResync = [] ↔ session.flatState = none := by
  rw [Session.triggerSessionResync]
  cases session.flatState <;> simp

theorem removeTopicHandle_eq_nil_iff (session : Session) (name : StdString) :
    (session.removeTopicHandle name).2 = [] ↔
      session.topicHandles.lookup name = none ∨ session.flatState = none := by
  rw [Session.removeTopicHandle]
  cases session.topicHandles.lookup name with
  | none => exact iff_of_true rfl (.inl rfl)
  | some handle =>
      rw [or_iff_right (Option.some_ne_none handle)]
      exact triggerSessionResync_eq_nil_iff _

theorem flatState_unsubscribeOne (newTopics : TopicMap) (outcome : SyncOutcome)
    (oldName : StdString) :
    (unsubscribeOne newTopics outcome oldName).session.flatState = outcome.session.flatState := by
  rw [unsubscribeOne]
  split
  · dsimp only
    rw [Session.removeTopicHandle]
    split <;> rfl
  · rfl

theorem frames_unsubscribeOne_eq_nil_iff (newTopics : TopicMap) (outcome : SyncOutcome)
    (oldName : StdString) :
    (unsubscribeOne newTopics outcome oldName).frames = [] ↔
      outcome.frames = [] ∧ (newTopics.lookup oldName = none →
        outcome.session.topicHandles.lookup oldName = none ∨
          outcome.session.flatState = none) := by
  rw [unsubscribeOne]
  split
  · next hold =>
      dsimp only
      rw [List.append_eq_nil_iff, removeTopicHandle_eq_nil_iff, imp_iff_right hold]
  · next hold => exact (and_iff_left fun h => absurd h hold).symm

/-- Unsubscribing sends a resync for every topic that is held and not new. -/
theorem frames_unsubscribed_eq_nil_iff (newTopics : TopicMap) (names : List StdString)
    (outcome : SyncOutcome) :
    (names.foldl (unsubscribeOne newTopics) outcome).frames = [] ↔
      outcome.frames = [] ∧ (outcome.session.flatState = none ∨
        ∀ name ∈ names, newTopics.lookup name = none →
          outcome.session.topicHandles.lookup name = none) := by
  induction names generalizing outcome with
  | nil => simp
  | cons oldName names ih =>
      rw [List.foldl_cons, ih, frames_unsubscribeOne_eq_nil_iff, flatState_unsubscribeOne,
        List.forall_mem_cons, and_assoc]
      refine and_congr_right fun _ => ?_
      by_cases hflat : outcome.session.flatState = none
      · simp only [hflat, or_true, true_or, implies_true, and_self]
      · simp only [hflat, or_false, false_or]
        refine and_congr_right fun hold => forall₂_congr fun name _ => ?_
        rw [lookup_unsubscribeOne]
        refine imp_congr_right fun hnew => ?_
        split
        · next hname =>
            obtain ⟨rfl, -⟩ := hname
            exact iff_of_true rfl (hold hnew)
        · rfl

theorem frames_applyTopics_eq_nil_iff (session : Session) (parse : TopicParse) :
    (applyTopics session parse).frames = [] ↔
      session.flatState = none ∨ session.topicHandles.keys ⊆ parse.newTopics.keys := by
  rw [applyTopics, frames_subscribed, frames_unsubscribed_eq_nil_iff, and_iff_right rfl]
  refine or_congr_right ⟨fun h name hheld => ?_, fun h name hheld hnew => ?_⟩
  · rw [Finmap.mem_keys, ← Finmap.lookup_isSome, Option.isSome_iff_ne_none]
    intro hnew
    have hnone := h name ((IterationOrder.mem_enumerate _ _ _).mpr hheld) hnew
    exact Finmap.lookup_eq_none.mp hnone (Finmap.mem_keys.mp hheld)
  · have hkept := h ((IterationOrder.mem_enumerate _ _ _).mp hheld)
    exact absurd (Finmap.mem_keys.mp hkept) (Finmap.lookup_eq_none.mp hnew)

theorem handleClientTopicFrame_eq_nil_iff (session : Session) (tables : ClientTables)
    (frame : Frame) :
    (handleClientTopicFrame session tables frame).2.frames = [] ↔
      Untouched session tables frame := by
  rw [handleClientTopicFrame, Untouched]
  by_cases htype : frame.frameType = .clientSync
  · rw [if_pos htype, imp_iff_right htype, processTopicSync]
    cases htables : tables.parse with
    | error fault => exact iff_of_true rfl fun _ h => nomatch h
    | ok parse =>
        have happlied := frames_applyTopics_eq_nil_iff session parse
        exact happlied.trans ⟨fun h _ hparse => Except.ok.inj hparse ▸ h, fun h => h parse rfl⟩
  · rw [if_neg htype]
    exact iff_of_true rfl fun h => absurd h htype

end Topics

section Calls

theorem set_ne_nil (flat : FlatState) (nextKeyId : UInt32) (key : StdString) (value : Payload) :
    (flat.set nextKeyId key value).2.2 ≠ [] := by
  rw [FlatState.set]
  split
  · split <;> exact List.cons_ne_nil _ _
  · exact List.cons_ne_nil _ _

theorem clearKey_eq_nil_iff (flat : FlatState) (key : StdString) :
    (flat.clearKey key).2 = [] ↔ flat.entries.lookup key = none := by
  rw [FlatState.clearKey]
  cases flat.entries.lookup key <;> simp

theorem clear_iff (flat : FlatState) : flat.clear.2 = true ↔ flat.entries ≠ ∅ := by
  rw [FlatState.clear]
  split <;> simp_all

variable [HashOrder StdString]

/-- When a call on a session sends nothing. -/
def Unsent (session : Session) : SessionCall → Prop
  | .set _ _ => session.flatState = none
  | .clear => ∀ flat, session.flatState = some flat → flat.entries = ∅
  | .clearKey key => ∀ flat, session.flatState = some flat → flat.entries.lookup key = none
  | .topicSet name _ _ =>
      ∀ handle, session.topicHandles.lookup name = some handle → ¬ handle.payload.bound
  | .topicClear name =>
      ∀ handle, session.topicHandles.lookup name = some handle → handle.payload.bound →
        handle.payload.flatState.entries ≠ ∅ → session.flatState = none
  | .topicClearKey name key =>
      ∀ handle, session.topicHandles.lookup name = some handle → handle.payload.bound →
        handle.payload.flatState.entries.lookup key = none

theorem operation_eq_nil_iff (session : Session) (call : SessionCall) :
    (call.operation session).2 = [] ↔ Unsent session call := by
  cases call with
  | set key value =>
      simp only [SessionCall.operation, Unsent, Session.set]
      cases session.flatState with
      | none => exact iff_of_true rfl rfl
      | some flat => exact iff_of_false (set_ne_nil flat _ key value) (Option.some_ne_none flat)
  | clear =>
      simp only [SessionCall.operation, Unsent, Session.clear]
      cases session.flatState with
      | none => simp
      | some flat => simp [clear_iff, triggerSessionResync_eq_nil_iff]
  | clearKey key =>
      simp only [SessionCall.operation, Unsent, Session.clearKey]
      cases session.flatState with
      | none => simp
      | some flat => simp [clearKey_eq_nil_iff]
  | topicSet name key value =>
      simp only [SessionCall.operation, Unsent, Session.topicSet]
      cases session.topicHandles.lookup name with
      | none => simp
      | some handle => simp [set_ne_nil]
  | topicClear name =>
      simp only [SessionCall.operation, Unsent, Session.topicClear]
      cases session.topicHandles.lookup name with
      | none => simp
      | some handle =>
          simp only [clear_iff, Session.storeTopic, Option.some.injEq, forall_eq']
          split
          · next hcleared => simp [triggerSessionResync_eq_nil_iff, hcleared]
          · next hkept =>
              exact iff_of_true rfl fun hbound hentries => absurd ⟨hentries, hbound⟩ hkept
  | topicClearKey name key =>
      simp only [SessionCall.operation, Unsent, Session.topicClearKey]
      cases session.topicHandles.lookup name with
      | none => simp
      | some handle => simp [clearKey_eq_nil_iff]

theorem clear_eq_none_iff (ptx : PrincipalTX) :
    ptx.clear.2 = none ↔ ptx.flatState.entries = ∅ ∨ ¬ ptx.bound := by
  rw [PrincipalTX.clear, FlatState.clear]
  by_cases hempty : ptx.flatState.entries = ∅
  · rw [if_pos hempty]
    exact iff_of_true rfl (.inl hempty)
  · rw [if_neg hempty, or_iff_right hempty]
    simp only [if_true, PrincipalTX.triggerResync]
    split
    · next hbound => exact iff_of_false (Option.some_ne_none _) (not_not.mpr hbound)
    · next hbound => exact iff_of_true rfl hbound

end Calls

section Actions

variable [HashOrder StdString] [HashOrder Addr] (server : Server)

theorem queuesNone_answerTopic (a : Addr) (frame : Frame) :
    QueuesNone server (.answerTopic a frame) ↔
      Untouched (server.heap a).session (server.heap a).tables frame ∨ ¬ flushes server a :=
  or_congr_left (handleClientTopicFrame_eq_nil_iff _ _ frame)

theorem queuesNone_answer (a : Addr) (frame : Frame) :
    QueuesNone server (.answer a frame) ↔
      Unanswered (server.heap a).session
        ((server.heap a).session.txProvider.bind server.principals.principals.lookup) frame ∨
      ¬ flushes server a :=
  or_congr_left (handleFrame_eq_nil_iff _ _ frame)

theorem queuesNone_callSession (a : Addr) (call : SessionCall) :
    QueuesNone server (.callSession a call) ↔
      Unsent (server.heap a).session call ∨ ¬ flushes server a :=
  or_congr_left (operation_eq_nil_iff _ call)

/-- No ready session of the principal flushes to an open connection. -/
def Unreached (name : StdString) : Prop :=
  ∀ a ∈ server.recipients name (fun session => session.state = .ready), ¬ flushes server a

theorem queuesNone_set (name key : StdString) (value : Payload) :
    QueuesNone server (.callPrincipal name (.set key value)) ↔
      ¬ (server.principals.principal name).2.bound ∨ Unreached server name := by
  have hset := set_ne_nil (server.principals.principal name).2.flatState
    (server.principals.principal name).2.nextKeyId key value
  rw [QueuesNone]
  dsimp only [PrincipalCall.operation, PrincipalTX.set]
  rw [or_iff_right hset, Unreached]

theorem queuesNone_clearKey (name key : StdString) :
    QueuesNone server (.callPrincipal name (.clearKey key)) ↔
      ¬ (server.principals.principal name).2.bound ∨
        (server.principals.principal name).2.flatState.entries.lookup key = none ∨
          Unreached server name := by
  rw [QueuesNone]
  dsimp only [PrincipalCall.operation, PrincipalTX.clearKey]
  rw [clearKey_eq_nil_iff, Unreached]

theorem queuesNone_clearPrincipal (name : StdString) :
    QueuesNone server (.clearPrincipal name) ↔
      (server.principals.principal name).2.flatState.entries = ∅ ∨
        ¬ (server.principals.principal name).2.bound ∨
          ∀ a ∈ server.recipients name Session.connected, ¬ flushes server a := by
  rw [QueuesNone, clear_eq_none_iff, or_assoc]

end Actions

end DanWs.EmptyAnswers
