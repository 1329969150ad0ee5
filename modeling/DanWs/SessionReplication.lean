import DanWs.SessionCalls
import DanWs.StepRuns

namespace DanWs.SessionReplication

open DanWs.Allocations
open DanWs.Clients
open DanWs.FiniteMaps
open DanWs.FlatStates
open DanWs.KeyStores
open DanWs.Replicas
open DanWs.Replication
open DanWs.SessionCalls
open DanWs.SessionRows
open DanWs.Sessions
open DanWs.StepRuns
open DanWs.WireRows
open DanWs.WireTypes

section Changes

variable [HashOrder StdString] {session next : Session} {frames : List Frame}
  {target : Option Place}

/-- A change takes the next id for one place at most; others keep or lose theirs. -/
theorem placeId_change (h : Change session target next frames) :
    (next.nextKeyId = session.nextKeyId ∧
        ∀ place id, placeId next place = some id → placeId session place = some id) ∨
      (next.nextKeyId = session.nextKeyId + 1 ∧
        ∃ place, placeId next = Function.update (placeId session) place
          (some session.nextKeyId)) := by
  cases h with
  | set source flat key value hstore hnext hid =>
      have hplace : ∀ place, placeId next place =
          if place.1 = source then idAt (flat.set session.nextKeyId key value).1 place.2
          else placeId session place := by
        intro place
        rw [placeId, hnext, Function.update_apply]
        split <;> rfl
      rw [hid]
      rcases idAt_set flat session.nextKeyId key value with ⟨hsame, hids⟩ | ⟨hsucc, hids⟩
      · refine Or.inl ⟨hsame, fun place id hplaceId => ?_⟩
        rw [hplace, hids] at hplaceId
        split at hplaceId
        · next heq => rwa [placeId, heq, hstore, Option.bind_some]
        · exact hplaceId
      · refine Or.inr ⟨hsucc, (source, key), funext fun place => ?_⟩
        obtain ⟨other, otherKey⟩ := place
        rw [hplace, hids, Function.update_apply, Function.update_apply]
        rcases eq_or_ne other source with rfl | hne
        · simp only [if_true, Prod.mk.injEq, true_and, placeId, hstore, Option.bind_some]
        · simp only [hne, if_false, Prod.mk.injEq, false_and]
  | clearKey source flat key hstore hnext hid =>
      refine Or.inl ⟨hid, fun place id hplaceId => ?_⟩
      rw [placeId, hnext, Function.update_apply] at hplaceId
      split at hplaceId
      · next heq =>
          rw [placeId, heq, hstore]
          exact idAt_clearKey hplaceId
      · exact hplaceId
  | resync hsub hid =>
      refine Or.inl ⟨hid, fun place id hplaceId => ?_⟩
      obtain ⟨flat, hflat, hidAt⟩ := Option.bind_eq_some_iff.mp hplaceId
      obtain ⟨old, hold, rfl | rfl⟩ := hsub place.1 flat hflat
      · rw [placeId, hold]
        exact hidAt
      · cases hidAt
  | silent hkeep hnew hid =>
      refine Or.inl ⟨hid, fun place id hplaceId => ?_⟩
      obtain ⟨flat, hflat, hidAt⟩ := Option.bind_eq_some_iff.mp hplaceId
      rcases hnew place.1 flat hflat with hold | ⟨_, start, rfl⟩
      · rw [placeId, hold]
        exact hidAt
      · cases hidAt

theorem inSync_change (hchange : Change session target next frames) (hbound : Bound next)
    {keys : KeyStore} (h : InSync keys (sessionRows session))
    {number : Nat → UInt32} {count : Nat} (hids : Allocated number count (placeId session))
    (hnextIds : UniqueIds (sessionRows next)) (hrows : Announceable (sessionRows next))
    (hlimit : keys.registry.maxKeys = 10000) :
    InSync (keys.receive frames) (sessionRows next) := by
  cases hchange with
  | set source flat key value hstore hnext hid =>
      have hrow : ∃ row ∈ rows (flat.set session.nextKeyId key value).1,
          row.path = flat.wirePath key := by
        obtain ⟨entry, hentry⟩ := lookup_set flat session.nextKeyId key value
        exact ⟨_, wireRow_mem_rows hentry, by rw [wireRow, wirePath_set]⟩
      have hunion := (sessionRows_of_update hnext).2.2
      rw [sessionRows_eq_union hstore] at h
      rw [hunion] at hrows hnextIds ⊢
      obtain ⟨row, hmem, hpath⟩ := hrow
      have hvalid := hrows.valid row (Finset.mem_union_left _ hmem)
      exact inSync_set h (disjoint_otherRows hids hstore) (hpath ▸ hvalid)
        ⟨hrows.unique, hnextIds⟩ (hlimit ▸ hrows.fits)
  | clearKey source flat key hstore hnext hid =>
      rw [sessionRows_eq_union hstore] at h
      rw [(sessionRows_of_update hnext).2.2]
      exact inSync_clearKey h (disjoint_otherRows hids hstore)
  | resync hsub hid =>
      obtain ⟨flat, hflat⟩ := hbound.flat
      exact inSync_resync hflat hrows hnextIds hlimit
  | silent hkeep hnew hid =>
      rw [sessionRows_of_silent hkeep hnew]
      exact h

theorem isSyncFrame_change (h : Change session target next frames) (hbound : Bound next) :
    ∀ frame ∈ frames, isSyncFrame frame := by
  cases h with
  | set source flat key value hstore hnext hid => exact isSyncFrame_set flat _ key value
  | clearKey source flat key hstore hnext hid => exact isSyncFrame_clearKey flat key
  | resync hsub hid =>
      obtain ⟨flat, hflat⟩ := hbound.flat
      rw [triggerSessionResync_eq hflat]
      exact isSyncFrame_announcement (sessionWires next flat)
  | silent hkeep hnew hid => simp

end Changes

section Runs

/-- An activated session and the number of ids that it has handed out. -/
structure Activation where
  session : Session
  allocated : Nat

def activate (session : Session) : Activation := ⟨session.bindSessionTX, 0⟩

/-- The ids of the session are the first values of the counter. -/
structure Numbered (start : UInt32) (activation : Activation) : Prop where
  bound : Bound activation.session
  next : activation.session.nextKeyId = counterFrom start activation.allocated
  ids : Allocated (counterFrom start) activation.allocated (placeId activation.session)

/-- The client follows the session. -/
structure Follows (start : UInt32) (activation : Activation) (keys : KeyStore) : Prop
    extends Numbered start activation where
  inSync : InSync keys (sessionRows activation.session)
  limit : keys.registry.maxKeys = 10000

theorem entries_bindSessionTX {session : Session} (htopics : session.topicHandles = ∅)
    {source : Option StdString} {flat : FlatState}
    (hflat : storeOf session.bindSessionTX source = some flat) : flat.entries = ∅ := by
  cases source with
  | none => rw [← Option.some.inj hflat]; rfl
  | some name =>
      obtain ⟨handle, hhandle, _⟩ := Option.map_eq_some_iff.mp hflat
      rw [show session.bindSessionTX.topicHandles = ∅ from htopics] at hhandle
      cases hhandle

theorem sessionRows_bindSessionTX {session : Session} (htopics : session.topicHandles = ∅) :
    sessionRows session.bindSessionTX = ∅ := by
  rw [Finset.eq_empty_iff_forall_notMem]
  intro row hrow
  obtain ⟨source, flat, hflat, hrow⟩ := mem_sessionRows.mp hrow
  obtain ⟨key, entry, hentry, _⟩ := (mem_rows flat).mp hrow
  rw [entries_bindSessionTX htopics hflat] at hentry
  cases hentry

theorem numbered_activate {session : Session} (htopics : session.topicHandles = ∅) :
    Numbered session.nextKeyId (activate session) := by
  have hplaces : placeId session.bindSessionTX = fun _ => none := by
    funext place
    rw [placeId, Option.bind_eq_none_iff]
    intro flat hflat
    rw [idAt, entries_bindSessionTX htopics hflat]
    rfl
  refine ⟨bound_bindSessionTX htopics, (counterFrom_zero _).symm, ?_⟩
  rw [activate, hplaces]
  exact allocated_none _ 0

theorem follows_activate {session : Session} (htopics : session.topicHandles = ∅) :
    Follows session.nextKeyId (activate session) (keyStore Client.new) := by
  refine ⟨numbered_activate htopics, ?_, rfl⟩
  rw [activate, sessionRows_bindSessionTX htopics]
  exact tracks_reset (keyStore Client.new)

variable [HashOrder StdString]

def step (activation : Activation) (call : Call) : Activation :=
  let session := (perform activation.session call).1
  ⟨session,
    if session.nextKeyId = activation.session.nextKeyId then activation.allocated
    else activation.allocated + 1⟩

def emit (activation : Activation) (call : Call) : List Frame :=
  (perform activation.session call).2

/-- The id counter has not come round. -/
def WithinCounter (activation : Activation) (call : Call) : Prop :=
  NamesNewTopic activation.session call ∧ (step activation call).allocated < 2 ^ 32

instance (activation : Activation) (call : Call) : Decidable (WithinCounter activation call) :=
  inferInstanceAs (Decidable (_ ∧ _))

/-- The call also leaves keys that a client accepts. -/
def Permitted (activation : Activation) (call : Call) : Prop :=
  WithinCounter activation call ∧ Announceable (sessionRows (step activation call).session)

instance (activation : Activation) (call : Call) : Decidable (Permitted activation call) :=
  inferInstanceAs (Decidable (_ ∧ _))

/-- The frames of an activation: the `onConnection_` callbacks make the first
calls, then `activateSession` enqueues a `ServerSync`. -/
def activationFrames (session : Session) (before after : List Call) : List Frame :=
  outputs step emit (activate session) before ++ signalFrame .serverSync ::
    outputs step emit (run step (activate session) before) after

theorem numbered_step (start : UInt32) (activation : Activation) (call : Call)
    (h : Numbered start activation) (hwithin : WithinCounter activation call) :
    Numbered start (step activation call) := by
  obtain ⟨hname, hcount⟩ := hwithin
  obtain ⟨hbound, hchange⟩ := change_perform h.bound hname
  rw [step] at hcount ⊢
  dsimp only at hcount ⊢
  rcases placeId_change hchange with ⟨hsame, hsub⟩ | ⟨hsucc, place, hplace⟩
  · rw [if_pos hsame]
    exact ⟨hbound, hsame.trans h.next, h.ids.shrink hsub⟩
  · have hne : (perform activation.session call).1.nextKeyId ≠ activation.session.nextKeyId := by
      rw [hsucc]
      simp
    rw [if_neg hne] at hcount ⊢
    rw [h.next] at hsucc hplace
    refine ⟨hbound, hsucc.trans (counterFrom_succ start activation.allocated).symm, ?_⟩
    dsimp only
    rw [hplace]
    exact h.ids.update (injOn_counterFrom start) ((Nat.lt_succ_self _).trans hcount) place

theorem numbered_run {start : UInt32} {activation : Activation} (h : Numbered start activation)
    {calls : List Call} (hmeet : StepsMeet step WithinCounter activation calls) :
    Numbered start (run step activation calls) :=
  invariant_run (numbered_step start) h hmeet

theorem follows_step (start : UInt32) (activation : Activation) (keys : KeyStore) (call : Call)
    (h : Follows start activation keys) (hpermitted : Permitted activation call) :
    Follows start (step activation call) (keys.receive (emit activation call)) := by
  obtain ⟨hwithin, hrows⟩ := hpermitted
  obtain ⟨hbound, hchange⟩ := change_perform h.bound hwithin.1
  have hnext := numbered_step start activation call h.toNumbered hwithin
  refine ⟨hnext, ?_, (maxKeys_receive _ _).trans h.limit⟩
  exact inSync_change hchange hbound h.inSync h.ids (uniqueIds_sessionRows hnext.ids) hrows h.limit

theorem follows_run {start : UInt32} {activation : Activation} {keys : KeyStore}
    (h : Follows start activation keys) {calls : List Call}
    (hmeet : StepsMeet step Permitted activation calls) :
    Follows start (run step activation calls)
      (keys.receive (outputs step emit activation calls)) :=
  related_run (follows_step start) h hmeet

theorem isSyncFrame_outputs {activation : Activation} (h : Bound activation.session)
    {calls : List Call} (hmeet : StepsMeet step WithinCounter activation calls) :
    ∀ frame ∈ outputs step emit activation calls, isSyncFrame frame := by
  have hstep : ∀ (activation : Activation) (call : Call), Bound activation.session →
      WithinCounter activation call → Bound (step activation call).session ∧
        ∀ frame ∈ emit activation call, isSyncFrame frame := by
    intro activation call hbound hwithin
    obtain ⟨hnext, hchange⟩ := change_perform hbound hwithin.1
    exact ⟨hnext, isSyncFrame_change hchange hnext⟩
  exact forall_outputs hstep h hmeet

theorem isSyncFrame_activationFrames {session : Session} (htopics : session.topicHandles = ∅)
    {before after : List Call}
    (hmeet : StepsMeet step WithinCounter (activate session) (before ++ after)) :
    ∀ frame ∈ activationFrames session before after, isSyncFrame frame := by
  obtain ⟨hbefore, hafter⟩ := (stepsMeet_append step WithinCounter _ before after).mp hmeet
  have hstart := numbered_activate htopics
  have hmiddle := numbered_run hstart hbefore
  intro frame hframe
  rcases List.mem_append.mp hframe with hframe | hframe
  · exact isSyncFrame_outputs hstart.bound hbefore frame hframe
  · rcases List.mem_cons.mp hframe with rfl | hframe
    · rfl
    · exact isSyncFrame_outputs hmiddle.bound hafter frame hframe

/-- Incremental sync keeps a fresh client exact, from the activation on and
behind every sequence of calls. -/
theorem exactCopy_activation {session : Session} (htopics : session.topicHandles = ∅)
    {client : Client} (hfresh : keyStore client = keyStore Client.new) {before after : List Call}
    (hmeet : StepsMeet step Permitted (activate session) (before ++ after)) :
    ExactCopy (client.receive (activationFrames session before after)).1
      (sessionRows (run step (activate session) (before ++ after)).session) := by
  have hfollows := follows_activate htopics
  obtain ⟨hbefore, hafter⟩ := (stepsMeet_append step Permitted _ before after).mp hmeet
  have hmiddle := follows_run hfollows hbefore
  have hend := follows_run hmiddle hafter
  have hsync := isSyncFrame_activationFrames htopics (stepsMeet_mono (fun _ _ h => h.1) hmeet)
  apply exactCopy_of_inSync
  rw [keyStore_receive client hsync, hfresh, activationFrames, KeyStore.receive_append,
    KeyStore.receive_cons, apply_sync, run_append]
  exact hend.inSync

end Runs

def createBoard : Call := .createTopicHandle (str "board") ∅ (-1)

def boardCalls : List Call :=
  [.set (str "k") (.int32 1), .topicSet (str "board") (str "x") (.string (str "v")),
    .set (str "k") (.string (str "text")), .topicClear (str "board"), .clearKey (str "k")]

theorem exactCopy_activation_board :
    let _ := HashOrder.ascending StdString
    let session := Session.new (str "uuid")
    ExactCopy (Client.new.receive (activationFrames session [createBoard] boardCalls)).1
      (sessionRows (run step (activate session) ([createBoard] ++ boardCalls)).session) := by
  have hpermitted : @StepsMeet _ _ (@step (HashOrder.ascending StdString))
      (@Permitted (HashOrder.ascending StdString)) (activate (Session.new (str "uuid")))
      ([createBoard] ++ boardCalls) := by decide +kernel
  intro _ session
  exact exactCopy_activation rfl rfl hpermitted

end DanWs.SessionReplication
