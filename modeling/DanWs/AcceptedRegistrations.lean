import DanWs.PrincipalReplication
import DanWs.SessionAnswers

namespace DanWs.AcceptedRegistrations

open DanWs.Allocations
open DanWs.Clients
open DanWs.FiniteMaps
open DanWs.KeyAcceptance
open DanWs.KeyFrameCache
open DanWs.KeyRequests
open DanWs.KeyStores
open DanWs.Principals
open DanWs.Replication
open DanWs.SessionAnswers
open DanWs.SessionCalls
open DanWs.SessionRows
open DanWs.Sessions
open DanWs.StepRuns
open DanWs.WireRows
open DanWs.WireTypes

section Principals

open DanWs.PrincipalReplication

variable [HashOrder StdString]

/-- What a session sends to a client that joins: the keys, and the values on `ClientReady`. -/
def joinFrames (session : Session) (ptx : PrincipalTX) : List Frame :=
  let start := session.startSync (some ptx)
  start.frames ++ (start.session.handleFrame start.tx (signalFrame .clientReady)).frames

/-- The principal behind `_startSync`, which has filled its cache. -/
def joined (counted : Counted) : Counted := count counted .buildKeyFrames

/-- A key that is set is one that a client accepts. -/
def SetsAccepted (counted : Counted) : Operation → Prop
  | .set key _ => Accommodates (rows counted.flat) counted.flat key
  | .clearKey _ | .clear | .buildKeyFrames => True

instance (counted : Counted) : (operation : Operation) → Decidable (SetsAccepted counted operation)
  | .set key _ => inferInstanceAs (Decidable (Accommodates (rows counted.flat) counted.flat key))
  | .clearKey _ | .clear | .buildKeyFrames => inferInstanceAs (Decidable True)

def KeepsAccepted (counted : Counted) (operation : Operation) : Prop :=
  WithinCounter counted operation ∧ SetsAccepted counted operation

instance (counted : Counted) (operation : Operation) :
    Decidable (KeepsAccepted counted operation) :=
  inferInstanceAs (Decidable (_ ∧ _))

theorem joinFrames_eq {ptx : PrincipalTX} (hexact : BuildsExactly ptx) (session : Session) :
    joinFrames session ptx = registrationFrames (wires ptx.flatState) ++
      [signalFrame .serverSync] ++ valueFrames (wires ptx.flatState) := by
  have hvalues := buildValueFrames_buildKeyFrames ptx
  have hkeys := hexact.trans (uncachedKeyFrames_eq ptx)
  rw [← hvalues, ← hkeys]
  have hne : ptx.buildKeyFrames.2 ≠ [] := by
    rw [hkeys]
    simp
  simp only [joinFrames, Session.startSync, if_pos hne]
  rfl

theorem acceptable_count {counted : Counted} {operation : Operation}
    (h : Acceptable (rows counted.flat)) (hsets : SetsAccepted counted operation) :
    Acceptable (rows (count counted operation).flat) := by
  cases operation with
  | set key value =>
      rw [SetsAccepted, ← Finset.union_empty (rows counted.flat)] at hsets
      rw [← Finset.union_empty (rows counted.flat)] at h
      rw [← Finset.union_empty (rows (count counted _).flat)]
      exact acceptable_set h (Finset.disjoint_empty_right _) hsets
  | clearKey key => exact h.mono (rows_clearKey_subset counted.flat key)
  | clear =>
      rw [rows_count_clear]
      exact h.mono (Finset.empty_subset _)
  | buildKeyFrames =>
      rw [flat_count_buildKeyFrames]
      exact h

theorem accepts_emit {counted : Counted} {keys : KeyStore} {operation : Operation}
    (hnumbered : Numbered counted) (h : KnowsOnly keys.registry (rows counted.flat))
    (hwithin : WithinCounter counted operation)
    (hacceptable : Acceptable (rows (count counted operation).flat)) :
    Accepts keys (emit counted operation) ∧
      KnowsOnly (keys.receive (emit counted operation)).registry
        (rows (count counted operation).flat) := by
  have hdisjoint : ∀ flat, Disjoint (rows flat) ∅ := fun flat => Finset.disjoint_empty_right _
  cases operation with
  | set key value =>
      have hids := (numbered_step counted (.set key value) hnumbered hwithin).wellKeyed.id
      rw [← Finset.union_empty (rows counted.flat)] at h
      rw [← Finset.union_empty (rows (count counted _).flat)] at hids hacceptable ⊢
      exact accepts_set h (hdisjoint _) (hdisjoint _) hids hacceptable
  | clearKey key =>
      rw [← Finset.union_empty (rows counted.flat)] at h
      rw [← Finset.union_empty (rows (count counted _).flat)]
      exact accepts_clearKey h (hdisjoint _)
  | clear =>
      rw [rows_count_clear, emit_clear hnumbered.bound]
      split
      · next hempty =>
          rw [rows_of_empty hempty] at h
          exact ⟨trivial, h⟩
      · refine ⟨⟨fun htype => FrameType.noConfusion htype,
          fun htype => FrameType.noConfusion htype, trivial⟩, fun id entry hentry => ?_, h.limit⟩
        cases hentry
  | buildKeyFrames =>
      rw [flat_count_buildKeyFrames]
      exact ⟨trivial, h⟩

/-- The client knows live keys only, and all keys are ones that it accepts. -/
structure Accepting (counted : Counted) (keys : KeyStore) : Prop extends Numbered counted where
  acceptable : Acceptable (rows counted.flat)
  knows : KnowsOnly keys.registry (rows counted.flat)

theorem accepting_step (counted : Counted) (keys : KeyStore) (operation : Operation)
    (h : Accepting counted keys) (hkeeps : KeepsAccepted counted operation) :
    Accepts keys (emit counted operation) ∧
      Accepting (count counted operation) (keys.receive (emit counted operation)) := by
  obtain ⟨hwithin, hsets⟩ := hkeeps
  have hrows := acceptable_count h.acceptable hsets
  obtain ⟨haccepts, hknows⟩ := accepts_emit h.toNumbered h.knows hwithin hrows
  exact ⟨haccepts, numbered_step counted operation h.toNumbered hwithin, hrows, hknows⟩

theorem accepts_join {counted : Counted} {client : Client} (session : Session)
    {calls : List Operation} (hnumbered : Numbered counted) (hexact : BuildsExactly counted.ptx)
    (hacceptable : Acceptable (rows counted.flat)) (hfresh : keyStore client = keyStore Client.new)
    (hmeet : StepsMeet count KeepsAccepted (joined counted) calls) :
    let frames := joinFrames session counted.ptx ++ outputs count emit (joined counted) calls
    let last := run count (joined counted) calls
    AcceptsRegistrations client frames ∧ Accepting last (keyStore (client.receive frames).1) := by
  intro frames last
  have hjoined := numbered_buildKeyFrames hnumbered
  have hrows : rows (joined counted).flat = wireRows (wires counted.flat) := by
    rw [wireRows_wires, show (joined counted).flat = counted.flat from
      (buildKeyFrames_fst counted.ptx).1]
  have hempty : (keyStore client).registry.byId = ∅ := hfresh ▸ rfl
  have hlimit : (keyStore client).registry.maxKeys = 10000 := hfresh ▸ rfl
  rw [← wireRows_wires] at hacceptable
  obtain ⟨hjoin, hknows⟩ := accepts_keysAndValues hempty hlimit hacceptable
  rw [← joinFrames_eq hexact session] at hjoin hknows
  rw [← hrows] at hacceptable hknows
  obtain ⟨hcalls, hlast⟩ := accepts_run accepting_step ⟨hjoined, hacceptable, hknows⟩ hmeet
  have hsync : ∀ frame ∈ frames, isSyncFrame frame := by
    intro frame hframe
    rcases List.mem_append.mp hframe with hframe | hframe
    · rw [joinFrames_eq hexact session] at hframe
      exact isSyncFrame_announcement (wires counted.flat) frame (List.mem_cons_of_mem _ hframe)
    · exact isSyncFrame_outputs hjoined (stepsMeet_mono (fun _ _ h => h.1) hmeet) frame hframe
  refine ⟨acceptsRegistrations_of_accepts hsync ?_, ?_⟩
  · exact (accepts_append _ _ _).mpr ⟨hjoin, hcalls⟩
  · rw [keyStore_receive client hsync, KeyStore.receive_append]
    exact hlast

end Principals

section Sessions

open DanWs.SessionReplication

variable [HashOrder StdString]

def CallSetsAccepted (session : Session) : Option Place → Prop
  | none => True
  | some (source, key) =>
      ∀ flat ∈ storeOf session source, Accommodates (sessionRows session) flat key

instance (session : Session) : (target : Option Place) → Decidable (CallSetsAccepted session target)
  | none => inferInstanceAs (Decidable True)
  | some (source, key) =>
      inferInstanceAs
        (Decidable (∀ flat ∈ storeOf session source, Accommodates (sessionRows session) flat key))

def CallKeepsAccepted (activation : Activation) (call : Call) : Prop :=
  WithinCounter activation call ∧ CallSetsAccepted activation.session call.target

instance (activation : Activation) (call : Call) : Decidable (CallKeepsAccepted activation call) :=
  inferInstanceAs (Decidable (_ ∧ _))

theorem acceptable_change {session next : Session} {frames : List Frame} {target : Option Place}
    (hchange : Change session target next frames) {number : Nat → UInt32} {count : Nat}
    (hids : Allocated number count (placeId session)) (h : Acceptable (sessionRows session))
    (hsets : CallSetsAccepted session target) : Acceptable (sessionRows next) := by
  cases hchange with
  | set source flat key value hstore hnext hid =>
      have haccommodates := hsets flat hstore
      rw [sessionRows_eq_union hstore] at h haccommodates
      rw [(sessionRows_of_update hnext).2.2]
      exact acceptable_set h (disjoint_otherRows hids hstore) haccommodates
  | clearKey source flat key hstore hnext hid =>
      rw [sessionRows_eq_union hstore] at h
      rw [(sessionRows_of_update hnext).2.2]
      exact h.mono (Finset.union_subset_union_left (rows_clearKey_subset flat key))
  | resync hsub hid =>
      refine h.mono fun row hrow => ?_
      obtain ⟨source, flat, hflat, hrow⟩ := mem_sessionRows.mp hrow
      obtain ⟨old, hold, rfl | rfl⟩ := hsub source flat hflat
      · exact mem_sessionRows.mpr ⟨source, flat, hold, hrow⟩
      · cases hrow
  | silent hkeep hnew hid =>
      rw [sessionRows_of_silent hkeep hnew]
      exact h

theorem accepts_change {session next : Session} {frames : List Frame} {target : Option Place}
    {keys : KeyStore} (hchange : Change session target next frames) (hbound : Bound next)
    {number : Nat → UInt32} {count nextCount : Nat}
    (hids : Allocated number count (placeId session))
    (hnextIds : Allocated number nextCount (placeId next))
    (h : KnowsOnly keys.registry (sessionRows session))
    (hacceptable : Acceptable (sessionRows next)) :
    Accepts keys frames ∧ KnowsOnly (keys.receive frames).registry (sessionRows next) := by
  cases hchange with
  | set source flat key value hstore hnext hid =>
      obtain ⟨hnextStore, hothers, hrows⟩ := sessionRows_of_update hnext
      have hafter := disjoint_otherRows hnextIds hnextStore
      have hunique := uniqueIds_sessionRows hnextIds
      rw [sessionRows_eq_union hstore] at h
      rw [hothers] at hafter
      rw [hrows] at hacceptable hunique ⊢
      exact accepts_set h (disjoint_otherRows hids hstore) hafter hunique hacceptable
  | clearKey source flat key hstore hnext hid =>
      rw [sessionRows_eq_union hstore] at h
      rw [(sessionRows_of_update hnext).2.2]
      exact accepts_clearKey h (disjoint_otherRows hids hstore)
  | resync hsub hid =>
      obtain ⟨flat, hflat⟩ := hbound.flat
      have hrows := wireRows_sessionWires hflat
      rw [triggerSessionResync_eq hflat, ← hrows]
      exact accepts_announcement h.limit (hrows ▸ hacceptable)
  | silent hkeep hnew hid =>
      rw [sessionRows_of_silent hkeep hnew]
      exact ⟨trivial, h⟩

/-- The client knows live keys only, and all keys are ones that it accepts. -/
structure Following (start : UInt32) (activation : Activation) (keys : KeyStore) : Prop
    extends Numbered start activation where
  tidy : Tidy activation.session
  acceptable : Acceptable (sessionRows activation.session)
  knows : KnowsOnly keys.registry (sessionRows activation.session)

theorem following_step {start : UInt32} (activation : Activation) (keys : KeyStore) (call : Call)
    (h : Following start activation keys) (hkeeps : CallKeepsAccepted activation call) :
    Accepts keys (emit activation call) ∧
      Following start (step activation call) (keys.receive (emit activation call)) := by
  obtain ⟨hwithin, hsets⟩ := hkeeps
  obtain ⟨hbound, hchange⟩ := change_perform h.bound hwithin.1
  have hrows := acceptable_change hchange h.ids h.acceptable hsets
  have hnext := numbered_step start activation call h.toNumbered hwithin
  obtain ⟨haccepts, hknows⟩ := accepts_change hchange hbound h.ids hnext.ids h.knows hrows
  exact ⟨haccepts, hnext, tidy_step h.toNumbered h.tidy hwithin, hrows, hknows⟩

theorem accepts_activation {session : Session} {client : Client} {before after : List Call}
    (htopics : session.topicHandles = ∅) (hfresh : keyStore client = keyStore Client.new)
    (hmeet : StepsMeet step CallKeepsAccepted (activate session) (before ++ after)) :
    let frames := activationFrames session before after
    let last := run step (activate session) (before ++ after)
    AcceptsRegistrations client frames ∧
      Following session.nextKeyId last (keyStore (client.receive frames).1) := by
  intro frames last
  have hempty : sessionRows (activate session).session = ∅ := sessionRows_bindSessionTX htopics
  have hstart : KnowsOnly (keyStore client).registry (sessionRows (activate session).session) := by
    rw [hfresh]
    refine ⟨fun id entry hentry => ?_, rfl⟩
    cases hentry
  have hacceptable : Acceptable (sessionRows (activate session).session) := by
    rw [hempty]
    exact ⟨fun row hrow => absurd hrow (Finset.notMem_empty row), Nat.zero_le _⟩
  obtain ⟨hbefore, hafter⟩ := (stepsMeet_append step CallKeepsAccepted _ before after).mp hmeet
  obtain ⟨hfirst, hmiddle⟩ := accepts_run following_step
    ⟨numbered_activate htopics, tidy_bindSessionTX htopics, hacceptable, hstart⟩ hbefore
  obtain ⟨hsecond, hlast⟩ := accepts_run following_step hmiddle hafter
  have hsync := isSyncFrame_activationFrames htopics (stepsMeet_mono (fun _ _ h => h.1) hmeet)
  rw [← run_append] at hlast
  refine ⟨acceptsRegistrations_of_accepts hsync ?_, ?_⟩
  · exact (accepts_append _ _ _).mpr ⟨hfirst, fun htype => FrameType.noConfusion htype, hsecond⟩
  · rw [keyStore_receive client hsync, activationFrames, KeyStore.receive_append,
      KeyStore.receive_cons, apply_sync]
    exact hlast

end Sessions

section Registrations

variable [HashOrder StdString]

/-- Every registration that is sent to a client is accepted, and a client that asks
for a live key gets it, as long as no call leaves a key that clients turn down. -/
theorem accepts_registrations {client : Client} (hfresh : keyStore client = keyStore Client.new) :
    (∀ (name : StdString) (history calls : List Operation) (counted : PrincipalReplication.Counted)
        (session : Session),
      counted = run PrincipalReplication.count (PrincipalReplication.Counted.new name) history →
      StepsMeet PrincipalReplication.count PrincipalReplication.WithinCounter
        (PrincipalReplication.Counted.new name) history →
      BuildsExactly counted.ptx → Acceptable (rows counted.flat) →
      StepsMeet PrincipalReplication.count KeepsAccepted (joined counted) calls →
      let frames := joinFrames session counted.ptx ++
        outputs PrincipalReplication.count PrincipalReplication.emit (joined counted) calls
      let last := run PrincipalReplication.count (joined counted) calls
      AcceptsRegistrations client frames ∧
        KnowsOnly (client.receive frames).1.registry (rows last.flat) ∧
        (BuildsExactly last.ptx → AnswersRequests (rows last.flat) fun request =>
          (session.handleFrame (some last.ptx) request).frames)) ∧
      ∀ (session : Session) (before after : List Call), session.topicHandles = ∅ →
        StepsMeet SessionReplication.step CallKeepsAccepted (SessionReplication.activate session)
          (before ++ after) →
        let frames := SessionReplication.activationFrames session before after
        let last := run SessionReplication.step (SessionReplication.activate session)
          (before ++ after)
        AcceptsRegistrations client frames ∧
          KnowsOnly (client.receive frames).1.registry (sessionRows last.session) ∧
          AnswersRequests (sessionRows last.session) fun request =>
            (last.session.handleFrame none request).frames := by
  constructor
  · intro name history calls counted session hcounted hhistory hexact hacceptable hmeet frames last
    have hnumbered : PrincipalReplication.Numbered counted :=
      hcounted ▸ PrincipalReplication.numbered_run name hhistory
    obtain ⟨haccepts, hlast⟩ := accepts_join session hnumbered hexact hacceptable hfresh hmeet
    refine ⟨haccepts, hlast.knows, fun hlastExact => ?_⟩
    refine answersRequests_of_answer hlast.acceptable fun row hrow => ?_
    rw [← wireRows_wires] at hrow
    obtain ⟨wire, hwire, rfl⟩ := mem_wireRows.mp hrow
    exact ⟨wire, rfl, handleKeyRequest_of_wire hlastExact hlast.wellKeyed.id hwire⟩
  · intro session before after htopics hmeet frames last
    obtain ⟨haccepts, hlast⟩ := accepts_activation htopics hfresh hmeet
    refine ⟨haccepts, hlast.knows, ?_⟩
    refine answersRequests_of_answer hlast.acceptable fun row hrow => ?_
    exact handleFrame_of_row hlast.tidy hlast.ids hrow rfl rfl

end Registrations

section Example

local instance stringOrder : HashOrder StdString := HashOrder.ascending StdString

def announcedA : PrincipalReplication.Counted :=
  run PrincipalReplication.count (PrincipalReplication.Counted.new (str "p"))
    [.set (str "a") (.int32 1)]

/-- A key comes and goes behind the filled cache, and another one is set again. -/
def passingB : List Operation :=
  [.set (str "b") .null, .clearKey (str "b"), .set (str "a") (.int32 2)]

theorem accepts_registrations_board :
    (AcceptsRegistrations Client.new (joinFrames (Session.new (str "u")) announcedA.ptx ++
        outputs PrincipalReplication.count PrincipalReplication.emit (joined announcedA) passingB) ∧
      AnswersRequests (rows (run PrincipalReplication.count (joined announcedA) passingB).flat)
        fun request => ((Session.new (str "u")).handleFrame
          (some (run PrincipalReplication.count (joined announcedA) passingB).ptx)
            request).frames) ∧
      AcceptsRegistrations Client.new
        (SessionReplication.activationFrames (Session.new (str "u"))
          [SessionReplication.createBoard] SessionReplication.boardCalls) := by
  obtain ⟨hprincipal, hsession⟩ := @accepts_registrations stringOrder Client.new rfl
  have hjoin := hprincipal (str "p") [.set (str "a") (.int32 1)] passingB announcedA
    (Session.new (str "u")) rfl (by decide +kernel) (by rfl) (by decide +kernel) (by decide +kernel)
  have hboard := hsession (Session.new (str "u")) [SessionReplication.createBoard]
    SessionReplication.boardCalls rfl (by decide +kernel)
  refine ⟨⟨hjoin.1, hjoin.2.2 ?_⟩, hboard.1⟩
  rw [BuildsExactly]
  decide +kernel

/-- `set` takes a key that no client accepts. -/
theorem not_acceptsRegistrations :
    ¬ ∀ (_ : HashOrder StdString) (name : StdString) (session : Session) (calls : List Operation),
      AcceptsRegistrations Client.new
        (joinFrames session (PrincipalReplication.Counted.new name).ptx ++
          outputs PrincipalReplication.count PrincipalReplication.emit
            (joined (PrincipalReplication.Counted.new name)) calls) := by
  intro h
  have haccepts := h stringOrder (str "p") (Session.new (str "u"))
    [.set (str "bad key!") (.int32 1)]
  obtain ⟨path, registered, hpath, hregistered⟩ := haccepts [signalFrame .serverSync]
    (WireRows.registrationFrame (str "bad key!") ⟨1, .varInteger, .int32 1⟩) (by decide +kernel) rfl
  cases hpath
  exact absurd (registerOne_ok hregistered).1 (by decide)

end Example

end DanWs.AcceptedRegistrations
