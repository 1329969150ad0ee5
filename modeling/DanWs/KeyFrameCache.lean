import DanWs.Principals
import DanWs.StepRuns

namespace DanWs.KeyFrameCache

open DanWs.FiniteMaps
open DanWs.FlatStates
open DanWs.Principals
open DanWs.StepRuns
open DanWs.WireTypes

inductive Operation where
  | set (key : StdString) (value : Payload)
  | clearKey (key : StdString)
  | clear
  | buildKeyFrames

section Lookup

variable {flat : FlatState} {nextKeyId : UInt32} {key : StdString} {value : Payload}

def HoldsType (flat : FlatState) (key : StdString) (type : DataType) : Prop :=
  (flat.entries.lookup key).map Entry.type = some type

instance (flat : FlatState) (key : StdString) (type : DataType) :
    Decidable (HoldsType flat key type) :=
  inferInstanceAs (Decidable (_ = _))

theorem registration_set (other : StdString) (h : HoldsType flat key (detectDataType value)) :
    (flat.set nextKeyId key value).1.registration other = flat.registration other := by
  obtain ⟨held, hheld, htype⟩ := Option.map_eq_some_iff.mp h
  simp only [FlatState.set, hheld, htype, ne_eq, not_true_eq_false, if_false,
    FlatState.registration, lookup_insert_eq_ite]
  split
  · next hother =>
      subst hother
      simp [hheld, htype]
  · rfl

variable (flat nextKeyId key value) in
theorem registration_type_set :
    ((flat.set nextKeyId key value).1.registration key).map Prod.snd =
      some (detectDataType value) := by
  simp only [FlatState.set, FlatState.registration]
  split
  · next held hheld =>
      split
      · simp [Finmap.lookup_insert]
      · next htype =>
          rw [ne_eq, not_not] at htype
          simp [Finmap.lookup_insert, htype]
  · simp [Finmap.lookup_insert]

theorem registrations_set_iff :
    (∀ other, (flat.set nextKeyId key value).1.registration other = flat.registration other) ↔
      HoldsType flat key (detectDataType value) := by
  constructor
  · intro h
    have htype := registration_type_set flat nextKeyId key value
    rw [h key, FlatState.registration, Option.map_map] at htype
    exact htype
  · exact fun h other => registration_set other h

theorem registrations_clearKey_iff :
    (∀ other, (flat.clearKey key).1.registration other = flat.registration other) ↔
      flat.entries.lookup key = none := by
  cases hheld : flat.entries.lookup key with
  | none => simp [FlatState.clearKey, hheld]
  | some held =>
      simp only [FlatState.clearKey, hheld, FlatState.registration, reduceCtorEq, iff_false]
      intro h
      have hkey := h key
      rw [Finmap.lookup_erase, hheld] at hkey
      cases hkey

end Lookup

section Cache

variable [HashOrder StdString]

def apply (ptx : PrincipalTX) : Operation → PrincipalTX
  | .set key value => (ptx.set key value).1
  | .clearKey key => (ptx.clearKey key).1
  | .clear => ptx.clear.1
  | .buildKeyFrames => ptx.buildKeyFrames.1

/-- A `_buildKeyFrames` call would now return what an uncached rebuild does. -/
def BuildsExactly (ptx : PrincipalTX) : Prop :=
  ptx.buildKeyFrames.2 = ptx.uncachedKeyFrames

def BuildsExactlyThroughout (ptx : PrincipalTX) (operations : List Operation) : Prop :=
  ∀ before, before <+: operations → BuildsExactly (run apply ptx before)

/-- The operation leaves the registrations behind a filled cache alone, or asks
for a resync. -/
def KeepsCachedKeys (ptx : PrincipalTX) : Operation → Prop
  | .set key value => ptx.keyFramesCached → HoldsType ptx.flatState key (detectDataType value)
  | .clearKey key => ptx.keyFramesCached → ptx.flatState.entries.lookup key = none
  | .clear => True
  | .buildKeyFrames => True

theorem buildKeyFrames_fst (ptx : PrincipalTX) :
    ptx.buildKeyFrames.1.flatState = ptx.flatState ∧
      ptx.buildKeyFrames.1.nextKeyId = ptx.nextKeyId ∧
      ptx.buildKeyFrames.1.bound = ptx.bound := by
  rw [PrincipalTX.buildKeyFrames]
  split <;> exact ⟨rfl, rfl, rfl⟩

theorem buildsExactly_iff (ptx : PrincipalTX) :
    BuildsExactly ptx ↔
      (ptx.keyFramesCached → ptx.cachedKeyFrames = ptx.uncachedKeyFrames) := by
  unfold BuildsExactly PrincipalTX.buildKeyFrames
  split
  · next h => simp [h]
  · next h => simp [h]

theorem buildsExactly_update_iff {ptx : PrincipalTX} (h : BuildsExactly ptx) {flat : FlatState}
    (hstart : flat.wirePrefix = ptx.flatState.wirePrefix) (nextKeyId : UInt32) :
    BuildsExactly { ptx with flatState := flat, nextKeyId := nextKeyId } ↔
      (ptx.keyFramesCached → ∀ key, flat.registration key = ptx.flatState.registration key) := by
  rw [buildsExactly_iff] at h ⊢
  apply forall_congr'
  intro hcached
  rw [← FlatState.buildKeyFrames_eq_iff hstart]
  dsimp only
  rw [h hcached, PrincipalTX.uncachedKeyFrames, PrincipalTX.uncachedKeyFrames,
    List.append_left_inj, eq_comm]

theorem buildsExactly_set_iff {ptx : PrincipalTX} (h : BuildsExactly ptx) (key : StdString)
    (value : Payload) :
    BuildsExactly (ptx.set key value).1 ↔
      (ptx.keyFramesCached → HoldsType ptx.flatState key (detectDataType value)) := by
  have hset := @registrations_set_iff ptx.flatState ptx.nextKeyId key value
  rw [← hset]
  exact buildsExactly_update_iff h (FlatState.wirePrefix_set _ _ key value) _

theorem buildsExactly_clearKey_iff {ptx : PrincipalTX} (h : BuildsExactly ptx)
    (key : StdString) :
    BuildsExactly (ptx.clearKey key).1 ↔
      (ptx.keyFramesCached → ptx.flatState.entries.lookup key = none) := by
  rw [← registrations_clearKey_iff]
  exact buildsExactly_update_iff h (FlatState.wirePrefix_clearKey _ key) ptx.nextKeyId

theorem buildsExactly_buildKeyFrames {ptx : PrincipalTX} (h : BuildsExactly ptx) :
    BuildsExactly ptx.buildKeyFrames.1 := by
  rw [PrincipalTX.buildKeyFrames]
  split
  · exact h
  · exact (buildsExactly_iff _).mpr fun _ => rfl

theorem buildsExactly_triggerResync (ptx : PrincipalTX) :
    BuildsExactly ptx.triggerResync.1 := by
  rw [PrincipalTX.triggerResync]
  dsimp only
  split
  · exact buildsExactly_buildKeyFrames rfl
  · rfl

theorem buildsExactly_nextKeyId {ptx : PrincipalTX} (h : BuildsExactly ptx)
    (nextKeyId : UInt32) : BuildsExactly { ptx with nextKeyId := nextKeyId } :=
  (buildsExactly_update_iff h rfl nextKeyId).mpr fun _ _ => rfl

theorem buildsExactly_clear {ptx : PrincipalTX} (h : BuildsExactly ptx) :
    BuildsExactly ptx.clear.1 := by
  unfold PrincipalTX.clear FlatState.clear
  rcases eq_or_ne ptx.flatState.entries ∅ with hempty | hempty
  · rw [if_pos hempty]
    exact buildsExactly_nextKeyId h 1
  · rw [if_neg hempty]
    exact buildsExactly_nextKeyId (buildsExactly_triggerResync _) 1

theorem buildsExactly_apply_iff (ptx : PrincipalTX) (operation : Operation)
    (h : BuildsExactly ptx) :
    BuildsExactly (apply ptx operation) ↔ KeepsCachedKeys ptx operation := by
  cases operation with
  | set key value => exact buildsExactly_set_iff h key value
  | clearKey key => exact buildsExactly_clearKey_iff h key
  | clear => exact iff_true_intro (buildsExactly_clear h)
  | buildKeyFrames => exact iff_true_intro (buildsExactly_buildKeyFrames h)

/-- The answers are exact throughout a run if and only if no operation of the
run creates, retypes or deletes a key while the cache is filled. -/
theorem buildsExactlyThroughout_iff (name : StdString) (bound : Bool)
    (operations : List Operation) :
    BuildsExactlyThroughout (PrincipalTX.new name bound) operations ↔
      StepsMeet apply KeepsCachedKeys (PrincipalTX.new name bound) operations := by
  have hnew : BuildsExactly (PrincipalTX.new name bound) := rfl
  exact forall_prefix_iff_stepsMeet buildsExactly_apply_iff hnew operations

end Cache

/-- A key created after the first answer is missing from the next one. -/
theorem not_buildsExactlyThroughout_new :
    ¬ ∀ (_ : HashOrder StdString) (name : StdString) (bound : Bool)
        (operations : List Operation),
      BuildsExactlyThroughout (PrincipalTX.new name bound) operations := by
  intro h
  let _ := HashOrder.ascending StdString
  have hstale := h inferInstance (str "alice") true
    [.buildKeyFrames, .set (str "a") (.int32 1)] _ (List.prefix_refl _)
  revert hstale
  rw [BuildsExactly]
  decide

end DanWs.KeyFrameCache
