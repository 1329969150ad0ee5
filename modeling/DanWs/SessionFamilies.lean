import DanWs.ResyncAnswers
import DanWs.StateFamilies

namespace DanWs.SessionFamilies

open DanWs.FiniteMaps
open DanWs.FlatStates
open DanWs.KeyFrameCache
open DanWs.Principals
open DanWs.ResyncAnswers
open DanWs.SessionCalls
open DanWs.SessionRows
open DanWs.Sessions
open DanWs.StateFamilies
open DanWs.StepRuns
open DanWs.TypedValues
open DanWs.WireTypes

def sessionFamily (session : Session) : Family (Option StdString) :=
  ⟨storeOf session, session.nextKeyId⟩

/-- The calls on the states that an event on the session makes. -/
def sessionCalls (session : Session) : Event → List (StateFamilies.Call (Option StdString))
  | .call (.set key value) => [.set none key value]
  | .call (.clearKey key) => [.clearKey none key]
  | .call .clear => [.clear none]
  | .call (.createTopicHandle name _ wireIndex) =>
      let index := if 0 ≤ wireIndex then wireIndex else session.topicIndex
      [.create (some name) (str "t." ++ toText index ++ str ".")]
  | .call (.removeTopicHandle name) => [.drop (some name)]
  | .call (.topicSet name key value) => [.set (some name) key value]
  | .call (.topicClearKey name key) => [.clearKey (some name) key]
  | .call (.topicClear name) => [.clear (some name)]
  | .bindSessionTX => [.create none []]
  | .disposeAllTopicHandles => session.topics.map fun name => .drop (some name)

section Family

variable {session : Session}

theorem sessionFamily_flatState (session : Session) (flat : Option FlatState)
    (nextKeyId : UInt32) :
    sessionFamily { session with flatState := flat, nextKeyId } =
      { (sessionFamily session).update none flat with nextKeyId } := by
  rw [sessionFamily, storeOf_flatState]
  rfl

theorem sessionFamily_storeTopic (session : Session) (name : StdString) (handle : TopicHandle)
    (flat : FlatState) (nextKeyId : UInt32) :
    sessionFamily { session.storeTopic name handle flat with nextKeyId } =
      { (sessionFamily session).update (some name) (some flat) with nextKeyId } := by
  rw [sessionFamily, storeOf_storeTopic]
  rfl

theorem states_none (session : Session) : (sessionFamily session).states none = session.flatState :=
  rfl

theorem states_some (session : Session) (name : StdString) :
    (sessionFamily session).states (some name) =
      (session.topicHandles.lookup name).map fun handle => handle.payload.flatState :=
  rfl

theorem update_of_states {family : Family (Option StdString)} {name : Option StdString}
    (h : family.states name = none) : family.update name none = family := by
  rw [Family.update, ← h, Function.update_eq_self]

theorem sessionFamily_createTopicHandle (session : Session) (name : StdString)
    (params : FiniteMap StdString Payload) (wireIndex : Int) :
    sessionFamily (session.createTopicHandle name params wireIndex) =
      run Family.step (sessionFamily session)
        (sessionCalls session (.call (.createTopicHandle name params wireIndex))) := by
  obtain ⟨start, hstore⟩ := storeOf_createTopicHandle session name params wireIndex
  let index := if 0 ≤ wireIndex then wireIndex else session.topicIndex
  have hsame : FlatState.new start = FlatState.new (str "t." ++ toText index ++ str ".") := by
    have hself := congrFun hstore (some name)
    rw [Function.update_self, storeOf, Session.createTopicHandle, lookup_insert_eq_ite,
      if_pos rfl, Option.map_some] at hself
    exact (Option.some.inj hself).symm
  rw [sessionFamily, hstore, hsame]
  rfl

theorem run_drop (family : Family (Option StdString)) (names : List StdString) :
    (run Family.step family (names.map fun name => .drop (some name))).nextKeyId =
        family.nextKeyId ∧
      ∀ source, (run Family.step family (names.map fun name => .drop (some name))).states source =
        if source ∈ names.map some then none else family.states source := by
  induction names generalizing family with
  | nil => exact ⟨rfl, fun source => (if_neg List.not_mem_nil).symm⟩
  | cons name names ih =>
      obtain ⟨hnext, hstates⟩ := ih (family.step (.drop (some name)))
      refine ⟨hnext, fun source => (hstates source).trans ?_⟩
      simp only [Family.step, Family.update, Function.update_apply, List.map_cons,
        List.mem_cons]
      by_cases hmem : source ∈ names.map some
      · rw [if_pos hmem, if_pos (Or.inr hmem)]
      · simp only [hmem, if_false, or_false]

theorem sessionFamily_disposeAllTopicHandles (session : Session) :
    sessionFamily session.disposeAllTopicHandles =
      run Family.step (sessionFamily session) (sessionCalls session .disposeAllTopicHandles) := by
  obtain ⟨hnext, hstates⟩ := run_drop (sessionFamily session) session.topics
  refine Family.ext (funext fun source => ?_) hnext.symm
  refine Eq.trans ?_ (hstates source).symm
  cases source with
  | none => rw [if_neg (by simp)]; rfl
  | some name =>
      rw [states_some, states_some]
      split
      · rfl
      · next hmem =>
          have hnone : session.topicHandles.lookup name = none := by
            rw [Option.eq_none_iff_forall_ne_some]
            intro handle hhandle
            refine hmem (List.mem_map_of_mem ?_)
            rw [Session.topics, IterationOrder.mem_enumerate]
            exact mem_keys_iff_lookup.mpr ⟨handle, hhandle⟩
          rw [hnone]
          rfl

end Family

section Events

variable [HashOrder StdString] {session : Session}

def sessionStep (session : Session) : Event → Session
  | .call call => (perform session call).1
  | .bindSessionTX => session.bindSessionTX
  | .disposeAllTopicHandles => session.disposeAllTopicHandles

def sessionFrames (session : Session) : Event → List Frame
  | .call call => (perform session call).2
  | .bindSessionTX | .disposeAllTopicHandles => []

theorem sessionFamily_perform (session : Session) (call : SessionCalls.Call) :
    sessionFamily (perform session call).1 =
      run Family.step (sessionFamily session) (sessionCalls session (.call call)) := by
  cases call with
  | set key value =>
      rw [perform, Session.set, sessionCalls, run_cons, run_nil, Family.step, states_none]
      cases hflat : session.flatState with
      | none => rfl
      | some flat => exact sessionFamily_flatState session _ _
  | clearKey key =>
      rw [perform, Session.clearKey, sessionCalls, run_cons, run_nil, Family.step, states_none]
      cases hflat : session.flatState with
      | none => rfl
      | some flat => exact sessionFamily_flatState session _ session.nextKeyId
  | clear =>
      rw [perform, Session.clear, sessionCalls, run_cons, run_nil, Family.step, states_none]
      cases hflat : session.flatState with
      | none => rfl
      | some flat => exact sessionFamily_flatState session _ session.nextKeyId
  | createTopicHandle name params wireIndex =>
      exact sessionFamily_createTopicHandle session name params wireIndex
  | removeTopicHandle name =>
      rw [perform, Session.removeTopicHandle, sessionCalls, run_cons, run_nil, Family.step]
      cases hhandle : session.topicHandles.lookup name with
      | none => exact (update_of_states (by rw [states_some, hhandle, Option.map_none])).symm
      | some handle =>
          dsimp only
          rw [sessionFamily, storeOf_removeTopicHandle]
          rfl
  | topicSet name key value =>
      rw [perform, Session.topicSet, sessionCalls, run_cons, run_nil, Family.step, states_some]
      cases hhandle : session.topicHandles.lookup name with
      | none => rfl
      | some handle => exact sessionFamily_storeTopic session name handle _ _
  | topicClearKey name key =>
      rw [perform, Session.topicClearKey, sessionCalls, run_cons, run_nil, Family.step, states_some]
      cases hhandle : session.topicHandles.lookup name with
      | none => rfl
      | some handle => exact sessionFamily_storeTopic session name handle _ session.nextKeyId
  | topicClear name =>
      rw [perform, Session.topicClear, sessionCalls, run_cons, run_nil, Family.step, states_some]
      cases hhandle : session.topicHandles.lookup name with
      | none => rfl
      | some handle => exact sessionFamily_storeTopic session name handle _ session.nextKeyId

theorem sessionFamily_step (session : Session) (event : Event) :
    sessionFamily (sessionStep session event) =
      run Family.step (sessionFamily session) (sessionCalls session event) := by
  cases event with
  | call call => exact sessionFamily_perform session call
  | bindSessionTX => exact sessionFamily_flatState session _ session.nextKeyId
  | disposeAllTopicHandles => exact sessionFamily_disposeAllTopicHandles session

theorem sessionFamily_run (session : Session) (events : List Event) :
    sessionFamily (run sessionStep session events) =
      run Family.step (sessionFamily session)
        (outputs sessionStep sessionCalls session events) := by
  induction events generalizing session with
  | nil => rfl
  | cons event events ih =>
      rw [run_cons, ih, sessionFamily_step, outputs, run_append]

theorem neverThrows_triggerSessionResync
    (h : ∀ source flat, storeOf session source = some flat → Typed flat) :
    ∀ frame ∈ session.triggerSessionResync, NeverThrows frame := by
  rw [Session.triggerSessionResync]
  cases hflat : session.flatState with
  | none => simp
  | some flat =>
      have hreset : NeverThrows (signalFrame .serverReset) := neverThrows_of_wellFormed rfl
      have htopic : ∀ handle ∈ session.handles, Typed handle.payload.flatState := by
        intro handle hhandle
        obtain ⟨name, hname⟩ := mem_handles.mp hhandle
        exact h (some name) _ (storeOf_of_lookup hname)
      simp only [List.forall_mem_append, List.forall_mem_singleton, List.forall_mem_flatMap]
      refine ⟨⟨⟨⟨⟨hreset, neverThrows_buildKeyFrames flat⟩, fun handle _ => ?_⟩,
        neverThrows_serverSync⟩, neverThrows_buildValueFrames (h none flat hflat)⟩,
        fun handle hhandle => ?_⟩
      · exact neverThrows_buildKeyFrames handle.payload.flatState
      · exact neverThrows_buildValueFrames (htopic handle hhandle)

/-- The frames of a call come from one of the states, or from a resync behind it. -/
theorem neverThrows_perform (call : SessionCalls.Call)
    (h : ∀ source flat, storeOf (perform session call).1 source = some flat → Typed flat) :
    ∀ frame ∈ (perform session call).2, NeverThrows frame := by
  have hnone : ∀ frame ∈ ([] : List Frame), NeverThrows frame := by simp
  cases call with
  | set key value =>
      rw [perform, Session.set]
      cases session.flatState with
      | none => exact hnone
      | some flat => exact neverThrows_set flat _ key value
  | clearKey key =>
      rw [perform, Session.clearKey]
      cases session.flatState with
      | none => exact hnone
      | some flat => exact neverThrows_clearKey flat key
  | clear =>
      rw [perform, Session.clear] at h ⊢
      cases hflat : session.flatState with
      | none => exact hnone
      | some flat =>
          rw [hflat] at h
          dsimp only at h ⊢
          split
          · exact neverThrows_triggerSessionResync h
          · exact hnone
  | createTopicHandle name params wireIndex => exact hnone
  | removeTopicHandle name =>
      rw [perform, Session.removeTopicHandle] at h ⊢
      cases hhandle : session.topicHandles.lookup name with
      | none => exact hnone
      | some handle =>
          rw [hhandle] at h
          exact neverThrows_triggerSessionResync h
  | topicSet name key value =>
      rw [perform, Session.topicSet]
      cases session.topicHandles.lookup name with
      | none => exact hnone
      | some handle =>
          dsimp only
          split
          · exact neverThrows_set handle.payload.flatState _ key value
          · exact hnone
  | topicClearKey name key =>
      rw [perform, Session.topicClearKey]
      cases session.topicHandles.lookup name with
      | none => exact hnone
      | some handle =>
          dsimp only
          split
          · exact neverThrows_clearKey handle.payload.flatState key
          · exact hnone
  | topicClear name =>
      rw [perform, Session.topicClear] at h ⊢
      cases hhandle : session.topicHandles.lookup name with
      | none => exact hnone
      | some handle =>
          rw [hhandle] at h
          dsimp only at h ⊢
          split
          · exact neverThrows_triggerSessionResync h
          · exact hnone

theorem sound_session_run {start : UInt32} {count : Nat}
    (h : Sound start count (sessionFamily session)) {events : List Event}
    (hcount : count + (sessionFamily session).allocations
      (outputs sessionStep sessionCalls session events) < 2 ^ 32) :
    (∃ later, Sound start later (sessionFamily (run sessionStep session events))) ∧
      ∀ frame ∈ outputs sessionStep sessionFrames session events, NeverThrows frame := by
  induction events generalizing session count with
  | nil => exact ⟨⟨count, h⟩, by simp [outputs]⟩
  | cons event events ih =>
      rw [outputs, allocations_append, ← Nat.add_assoc, ← sessionFamily_step] at hcount
      have hnext := sound_run h ((Nat.le_add_right _ _).trans_lt hcount)
      rw [← sessionFamily_step] at hnext
      obtain ⟨hend, hframes⟩ := ih hnext hcount
      rw [run_cons, outputs, List.forall_mem_append]
      refine ⟨hend, ?_, hframes⟩
      cases event with
      | call call =>
          exact neverThrows_perform call
            fun source flat hflat => (hnext.states source flat hflat).typed
      | bindSessionTX => simp [sessionFrames]
      | disposeAllTopicHandles => simp [sessionFrames]

/-- A session and its topics, from the start of the session on. -/
theorem safe_session_run (clientUuid : StdString) (events : List Event)
    (hcount : (sessionFamily (Session.new clientUuid)).allocations
      (outputs sessionStep sessionCalls (Session.new clientUuid) events) < 2 ^ 32) :
    Safe (sessionFamily (run sessionStep (Session.new clientUuid) events))
      (outputs sessionStep sessionFrames (Session.new clientUuid) events) := by
  have hnew : Sound 1 0 (sessionFamily (Session.new clientUuid)) := by
    refine sound_of_empty rfl fun source flat hflat => ?_
    cases source <;> cases hflat
  obtain ⟨⟨later, hsound⟩, hframes⟩ := sound_session_run hnew ((Nat.zero_add _).trans_lt hcount)
  exact hsound.coherent.safe hframes

/-- Below 2^32 allocations, whatever the calls: on states that share a counter, on a session
and its topics, and on a principal that starts its counter again. -/
theorem representation_kept (Name : Type*) [DecidableEq Name] :
    (∀ (start : UInt32) (calls : List (StateFamilies.Call Name)),
      (Family.new start : Family Name).allocations calls < 2 ^ 32 →
      Safe (run Family.step (Family.new start) calls)
        (outputs Family.step Family.frames (Family.new start) calls)) ∧
    (∀ (clientUuid : StdString) (events : List Event),
      (sessionFamily (Session.new clientUuid)).allocations
        (outputs sessionStep sessionCalls (Session.new clientUuid) events) < 2 ^ 32 →
      Safe (sessionFamily (run sessionStep (Session.new clientUuid) events))
        (outputs sessionStep sessionFrames (Session.new clientUuid) events)) ∧
    ∀ (name : StdString) (bound : Bool) (operations : List Operation),
      principalAllocations (PrincipalTX.new name bound) operations < 2 ^ 32 →
      Safe (principalFamily (run apply (PrincipalTX.new name bound) operations))
        (outputs apply principalFrames (PrincipalTX.new name bound) operations) :=
  ⟨safe_family_run, safe_session_run, safe_principal_run⟩

end Events

/-- Calls on two states with a change of type, a session whose topic comes and goes, and a
principal that is cleared and set again. -/
theorem representation_kept_changes :
    let _ := HashOrder.ascending StdString
    let calls : List (StateFamilies.Call Bool) :=
      [.create true [], .create false (str "t.0."), .set true (str "a") (.int32 1),
        .set false (str "a") (.bool true), .set true (str "a") (.string (str "x")),
        .clearKey false (str "a"), .drop false]
    let events : List Event :=
      [.bindSessionTX, .call (.set (str "a") (.int32 1)),
        .call (.createTopicHandle (str "board") ∅ 0),
        .call (.topicSet (str "board") (str "a") (.bool true)),
        .call (.removeTopicHandle (str "board")), .call .clear]
    let operations : List Operation :=
      [.set (str "a") (.int32 1), .buildKeyFrames, .clear, .set (str "b") (.double 0)]
    Safe (run Family.step (Family.new 1) calls)
        (outputs Family.step Family.frames (Family.new 1) calls) ∧
      Safe (sessionFamily (run sessionStep (Session.new (str "u")) events))
        (outputs sessionStep sessionFrames (Session.new (str "u")) events) ∧
      Safe (principalFamily (run apply (PrincipalTX.new (str "p") true) operations))
        (outputs apply principalFrames (PrincipalTX.new (str "p") true) operations) := by
  intro _ calls events operations
  obtain ⟨hfamily, hsession, hprincipal⟩ := representation_kept Bool
  exact ⟨hfamily 1 calls (by decide), hsession (str "u") events (by decide),
    hprincipal (str "p") true operations (by decide)⟩

end DanWs.SessionFamilies
