import DanWs.ClientMaps

namespace DanWs.PendingValues

open DanWs.ClientMaps
open DanWs.Clients
open DanWs.FiniteMaps
open DanWs.KeyPaths
open DanWs.MapChanges
open DanWs.StepRuns
open DanWs.WireTypes

def Deletes (keyId : UInt32) (frame : Frame) : Prop :=
  frame.frameType = .serverKeyDelete ∧ frame.keyId = keyId

/-- The frame neither resets the client nor brings a value for the key. -/
def LeavesWaiting (keyId : UInt32) (frame : Frame) : Prop :=
  frame.frameType ≠ .serverReset ∧ (frame.frameType = .serverValue → frame.keyId ≠ keyId)

/-- The value was received for the key, behind its last deletion and the last
reset. -/
def Fresh (frames : List Frame) (keyId : UInt32) (value : Frame) : Prop :=
  ∃ older newer, frames = older ++ value :: newer ∧ value.frameType = .serverValue ∧
    value.keyId = keyId ∧
      ∀ frame ∈ newer, frame.frameType ≠ .serverReset ∧ ¬ Deletes keyId frame

section Steps

variable {m m' : Maps} {frame pending : Frame} {keyId : UInt32}

theorem unknown_of_pending (h : Consistent m)
    (hpending : m.pendingValues.lookup keyId = some pending) :
    m.registry.getByKeyId keyId = none := by
  have hunknown := h.pendingValues keyId (mem_keys_iff_lookup.mpr ⟨pending, hpending⟩)
  rwa [KeyRegistry.hasKeyId, Bool.not_eq_true, Option.isSome_eq_false_iff,
    Option.isNone_iff_eq_none] at hunknown

theorem pendingValues_applyPending (m : Maps) (other : UInt32) (path : StdString) :
    (m.applyPending other path).pendingValues.lookup keyId =
      if keyId = other then none else m.pendingValues.lookup keyId := by
  rw [Maps.applyPending]
  split
  · next hnone =>
      split
      · next heq => rw [heq, hnone]
      · rfl
  · next pending _ =>
      obtain ⟨-, -, hpending⟩ := store_classify
        { m with store := m.store.insert other pending.payload } other path
      dsimp only
      rw [hpending, lookup_erase_eq_ite]

/-- A value waits behind a frame because the frame brought it, or because it has
waited before. -/
theorem pending_changes (h : Consistent m) (hchanges : m.Changes frame m')
    (hpending : m'.pendingValues.lookup keyId = some pending) :
    (pending = frame ∧ frame.frameType = .serverValue ∧ frame.keyId = keyId) ∨
      (m.pendingValues.lookup keyId = some pending ∧ LeavesWaiting keyId frame) := by
  have hother : frame.frameType ≠ .serverReset → frame.frameType ≠ .serverValue →
      LeavesWaiting keyId frame := fun hreset hvalue => ⟨hreset, fun htype => absurd htype hvalue⟩
  cases hchanges with
  | keep _ hvalue _ hreset => exact Or.inr ⟨hpending, hother hreset hvalue⟩
  | register hregisters =>
      rw [pendingValues_applyPending] at hpending
      split at hpending
      · cases hpending
      · exact Or.inr ⟨hpending, hother (by simp [hregisters.frameType])
          (by simp [hregisters.frameType])⟩
  | await htype =>
      obtain ⟨heq, hframe⟩ | ⟨hne, hpending⟩ := lookup_of_lookup_insert hpending
      · exact Or.inl ⟨hframe, htype, heq.symm⟩
      · exact Or.inr ⟨hpending, by simp [htype], fun _ => Ne.symm hne⟩
  | store htype hknown =>
      rw [(store_classify _ _ _).2.2] at hpending
      refine Or.inr ⟨hpending, by simp [htype], ?_⟩
      rintro - rfl
      rw [unknown_of_pending h hpending] at hknown
      cases hknown
  | shift htype =>
      rw [(store_classify _ _ _).2.2] at hpending
      refine Or.inr ⟨hpending, hother ?_ ?_⟩ <;> rcases htype with htype | htype <;> simp [htype]
  | delete htype => exact Or.inr ⟨hpending, hother (by simp [htype]) (by simp [htype])⟩
  | reset => simp at hpending

theorem pending_kept (hchanges : m.Changes frame m')
    (hpending : m.pendingValues.lookup keyId = some pending) (hleaves : LeavesWaiting keyId frame)
    (hregister : ∀ path registered, Registers m.registry frame path registered →
      frame.keyId ≠ keyId) :
    m'.pendingValues.lookup keyId = some pending := by
  cases hchanges with
  | keep => exact hpending
  | register hregisters =>
      rw [pendingValues_applyPending, if_neg (Ne.symm (hregister _ _ hregisters))]
      exact hpending
  | await htype =>
      rw [lookup_insert_eq_ite, if_neg (Ne.symm (hleaves.2 htype))]
      exact hpending
  | store =>
      rw [(store_classify _ _ _).2.2]
      exact hpending
  | shift =>
      rw [(store_classify _ _ _).2.2]
      exact hpending
  | delete => exact hpending
  | reset htype => exact absurd htype hleaves.1

theorem stored_of_changes {path : StdString} {registered : KeyRegistry}
    (hregisters : Registers m.registry frame path registered) (hchanges : m.Changes frame m')
    (hpending : m.pendingValues.lookup frame.keyId = some pending) :
    m'.store.lookup frame.keyId = some pending.payload ∧
      m'.pendingValues.lookup frame.keyId = none := by
  rw [hregisters.eq_of_changes hchanges]
  refine ⟨?_, by rw [pendingValues_applyPending, if_pos rfl]⟩
  rw [Maps.applyPending]
  dsimp only
  rw [hpending]
  dsimp only
  rw [(store_classify _ _ _).1]
  dsimp only
  rw [lookup_insert_eq_ite, if_pos rfl]

end Steps

section Runs

variable {client : Client} {keyId : UInt32} {pending : Frame}

def waiting (client : Client) (keyId : UInt32) : Option Frame := client.pendingValues.lookup keyId

/-- A waiting value was received at some point, and has waited ever since. -/
theorem exists_received {frames : List Frame}
    (h : waiting (run afterFrame Client.new frames) keyId = some pending) :
    ∃ older newer, frames = older ++ pending :: newer ∧ pending.frameType = .serverValue ∧
      pending.keyId = keyId ∧ (∀ frame ∈ newer, LeavesWaiting keyId frame) ∧
      ∀ first, first <+: newer →
        waiting (run afterFrame Client.new (older ++ pending :: first)) keyId = some pending := by
  induction frames using List.reverseRecOn with
  | nil => simp [waiting, Client.new] at h
  | append_singleton frames frame ih =>
      have hlast := h
      rw [run_append, run_cons, run_nil] at h
      rcases pending_changes (consistent_afterFrames frames)
        (changes_handleFrame (run afterFrame Client.new frames) frame) h with
        ⟨rfl, htype, hkeyId⟩ | ⟨hbefore, hleaves⟩
      · refine ⟨frames, [], rfl, htype, hkeyId, by simp, fun first hfirst => ?_⟩
        obtain rfl := List.prefix_nil.mp hfirst
        exact hlast
      · obtain ⟨older, newer, rfl, htype, hkeyId, hnewer, hwaits⟩ := ih hbefore
        refine ⟨older, newer ++ [frame], by simp, htype, hkeyId, ?_, fun first hfirst => ?_⟩
        · intro other hother
          rcases List.mem_append.mp hother with hother | hother
          · exact hnewer other hother
          · obtain rfl := List.mem_singleton.mp hother
            exact hleaves
        · rcases List.prefix_concat_iff.mp hfirst with rfl | hfirst
          · simpa using hlast
          · exact hwaits first hfirst

/-- Behind frames that neither replace nor drop a waiting value, it waits still,
or one of them has given it to its key. -/
theorem waits_or_applied {frames : List Frame} (h : waiting client keyId = some pending)
    (hframes : ∀ frame ∈ frames, LeavesWaiting keyId frame) :
    waiting (run afterFrame client frames) keyId = some pending ∨
      ∃ first registration second path registered, frames = first ++ registration :: second ∧
        registration.keyId = keyId ∧
        Registers (run afterFrame client first).registry registration path registered ∧
        waiting (run afterFrame client first) keyId = some pending := by
  induction frames generalizing client with
  | nil => exact Or.inl h
  | cons frame frames ih =>
      by_cases hregisters : ∃ path registered,
        Registers client.registry frame path registered ∧ frame.keyId = keyId
      · obtain ⟨path, registered, hregisters, hkeyId⟩ := hregisters
        exact Or.inr ⟨[], frame, frames, path, registered, rfl, hkeyId, hregisters, h⟩
      · have hnext : waiting (afterFrame client frame) keyId = some pending :=
          pending_kept (changes_handleFrame client frame) h (hframes frame List.mem_cons_self)
            fun path registered hregister hkeyId =>
              hregisters ⟨path, registered, hregister, hkeyId⟩
        rcases ih hnext fun other hother => hframes other (List.mem_cons_of_mem frame hother) with
          hwaits | ⟨first, registration, second, path, registered, rfl, hkeyId, hrest⟩
        · exact Or.inl hwaits
        · exact Or.inr ⟨frame :: first, registration, second, path, registered, rfl, hkeyId,
            hrest⟩

/-- Every waiting value that is given to a key was received for it since the key
was last deleted. -/
def AppliesFresh (frames : List Frame) : Prop :=
  ∀ before registration path registered pending, before ++ [registration] <+: frames →
    Registers (run afterFrame Client.new before).registry registration path registered →
    waiting (run afterFrame Client.new before) registration.keyId = some pending →
      Fresh before registration.keyId pending

/-- No key is deleted while a value waits for it and then registered again, with
no other value for it and no reset in between. -/
def RevivesNone (frames : List Frame) : Prop :=
  ∀ before deletion between registration path registered,
    before ++ deletion :: between ++ [registration] <+: frames →
    Deletes registration.keyId deletion →
    (∀ frame ∈ between, LeavesWaiting registration.keyId frame) →
    Registers (run afterFrame Client.new (before ++ deletion :: between)).registry registration
      path registered →
      waiting (run afterFrame Client.new before) registration.keyId = none

theorem appliesFresh_of_revivesNone {frames : List Frame} (h : RevivesNone frames) :
    AppliesFresh frames := by
  intro before registration path registered pending hprefix hregisters hpending
  obtain ⟨older, newer, rfl, htype, hkeyId, hnewer, hwaits⟩ := exists_received hpending
  refine ⟨older, newer, rfl, htype, hkeyId, fun frame hframe => ⟨(hnewer frame hframe).1, ?_⟩⟩
  intro hdeletes
  obtain ⟨first, second, rfl⟩ := List.append_of_mem hframe
  have hsplit : older ++ pending :: (first ++ frame :: second) =
      older ++ pending :: first ++ frame :: second := by simp
  rw [hsplit] at hprefix hregisters
  have hnone := h (older ++ pending :: first) frame second registration path registered hprefix
    hdeletes (fun other hother => hnewer other (by simp [hother])) hregisters
  rw [hwaits first (List.prefix_append first _)] at hnone
  cases hnone

theorem mem_of_fresh {before between : List Frame} {deletion value : Frame}
    (hdeletes : Deletes keyId deletion)
    (h : Fresh (before ++ deletion :: between) keyId value) : value ∈ between := by
  obtain ⟨older, newer, hsplit, htype, -, hnewer⟩ := h
  have hne : deletion ≠ value := by
    rintro rfl
    cases hdeletes.1.symm.trans htype
  rcases List.append_eq_append_iff.mp hsplit with ⟨middle, -, hmiddle⟩ | ⟨middle, -, hmiddle⟩
  · cases middle with
    | nil => exact absurd (List.cons.inj hmiddle).1 hne
    | cons first middle =>
        rw [(List.cons.inj hmiddle).2]
        simp
  · cases middle with
    | nil => exact absurd (List.cons.inj hmiddle).1.symm hne
    | cons first middle =>
        have hdeletion : deletion ∈ newer := by
          rw [(List.cons.inj hmiddle).2]
          simp
        exact absurd hdeletes (hnewer deletion hdeletion).2

theorem revivesNone_of_appliesFresh {frames : List Frame} (h : AppliesFresh frames) :
    RevivesNone frames := by
  intro before deletion between registration path registered hprefix hdeletes hbetween hregisters
  by_contra hwaiting
  obtain ⟨pending, hpending⟩ := Option.ne_none_iff_exists'.mp hwaiting
  -- the registration, or an earlier one between, is the first to be given the value
  have hfirst : ∃ first later path registered, first ++ [later] <+: between ++ [registration] ∧
      first <+: between ∧ later.keyId = registration.keyId ∧
      Registers (run afterFrame Client.new (before ++ deletion :: first)).registry later path
        registered ∧
      waiting (run afterFrame Client.new (before ++ deletion :: first)) registration.keyId =
        some pending := by
    have hdeleted : LeavesWaiting registration.keyId deletion := by
      refine ⟨by simp [hdeletes.1], fun htype => ?_⟩
      cases hdeletes.1.symm.trans htype
    have hkept : waiting (run afterFrame Client.new (before ++ [deletion])) registration.keyId =
        some pending := by
      rw [run_append]
      refine pending_kept (changes_handleFrame _ deletion) hpending hdeleted ?_
      intro other registered' hother
      cases hdeletes.1.symm.trans hother.frameType
    have hsplit : ∀ rest, before ++ deletion :: rest = before ++ [deletion] ++ rest := by simp
    rcases waits_or_applied hkept hbetween with
      hstill | ⟨first, later, second, path', registered', rfl, hkeyId, hlater, hwaits⟩
    · refine ⟨between, registration, path, registered, List.prefix_rfl, List.prefix_rfl, rfl,
        hregisters, ?_⟩
      rw [hsplit, run_append]
      exact hstill
    · refine ⟨first, later, path', registered', ⟨second ++ [registration], by simp⟩,
        List.prefix_append first _, hkeyId, ?_, ?_⟩
      · rw [hsplit, run_append]
        exact hlater
      · rw [hsplit, run_append]
        exact hwaits
  obtain ⟨first, later, path', registered', hlast, hfirst, hkeyId, hlater, hwaits⟩ := hfirst
  have hreached : before ++ deletion :: first ++ [later] <+: frames := by
    refine List.IsPrefix.trans ?_ hprefix
    simpa using hlast
  rw [← hkeyId] at hwaits hdeletes
  have hfresh := h _ later path' registered' pending hreached hlater hwaits
  have hmem := mem_of_fresh hdeletes hfresh
  obtain ⟨-, -, -, htype, hvalue, -⟩ := hfresh
  exact (hbetween pending (hfirst.subset hmem)).2 htype (hvalue.trans hkeyId)

/-- Waiting values go to the keys that they were sent for exactly in the runs in
which no deleted key comes back while a value from before waits for it. -/
theorem appliesFresh_iff (frames : List Frame) : AppliesFresh frames ↔ RevivesNone frames :=
  ⟨revivesNone_of_appliesFresh, appliesFresh_of_revivesNone⟩

/-- A waiting value outlives the deletion of its key. -/
theorem not_appliesFresh : ¬ ∀ frames, AppliesFresh frames := by
  intro h
  have hnone := revivesNone_of_appliesFresh (h [⟨.serverValue, 1, .varInteger, .int32 1⟩,
    ⟨.serverKeyDelete, 1, .null, .null⟩,
    ⟨.serverKeyRegistration, 1, .varInteger, .string (str "a")⟩])
    [⟨.serverValue, 1, .varInteger, .int32 1⟩] ⟨.serverKeyDelete, 1, .null, .null⟩ []
    ⟨.serverKeyRegistration, 1, .varInteger, .string (str "a")⟩ (str "a") _ List.prefix_rfl
    ⟨rfl, rfl⟩ (by simp) ⟨rfl, rfl, rfl⟩
  exact absurd hnone (by decide +kernel)

end Runs

end DanWs.PendingValues
