import DanWs.PrincipalReplication
import DanWs.SessionAnswers
import DanWs.TypedValues

namespace DanWs.StateFamilies

open DanWs.Allocations
open DanWs.FiniteMaps
open DanWs.FlatStates
open DanWs.KeyFrameCache
open DanWs.PrincipalReplication
open DanWs.Principals
open DanWs.SessionAnswers
open DanWs.StepRuns
open DanWs.TypedValues
open DanWs.WireRows
open DanWs.WireTypes

/-- The states that live, and the counter behind `allocateKeyId` of all of them. -/
@[ext]
structure Family (Name : Type*) where
  states : Name → Option FlatState
  nextKeyId : UInt32

inductive Call (Name : Type*) where
  | create (name : Name) (wirePrefix : StdString)
  | drop (name : Name)
  | set (name : Name) (key : StdString) (value : Payload)
  | clearKey (name : Name) (key : StdString)
  | clear (name : Name)

namespace Family

variable {Name : Type*}

def new (start : UInt32) : Family Name := ⟨fun _ => none, start⟩

def idOf (family : Family Name) (place : Name × StdString) : Option UInt32 :=
  (family.states place.1).bind fun flat => idAt flat place.2

/-- The frames that the state enqueues itself. `clear()` leaves them to `onResync`. -/
def frames (family : Family Name) : Call Name → List Frame
  | .set name key value =>
      match family.states name with
      | none => []
      | some flat => (flat.set family.nextKeyId key value).2.2
  | .clearKey name key =>
      match family.states name with
      | none => []
      | some flat => (flat.clearKey key).2
  | .create _ _ | .drop _ | .clear _ => []

/-- A call takes an id for a new key and for a key of another type. -/
def allocated (family : Family Name) : Call Name → Nat
  | .set name key value =>
      match family.states name with
      | none => 0
      | some flat => if HoldsType flat key (detectDataType value) then 0 else 1
  | .create _ _ | .drop _ | .clearKey _ _ | .clear _ => 0

variable [DecidableEq Name]

def update (family : Family Name) (name : Name) (state : Option FlatState) : Family Name :=
  { family with states := Function.update family.states name state }

def step (family : Family Name) : Call Name → Family Name
  | .create name wirePrefix => family.update name (some (FlatState.new wirePrefix))
  | .drop name => family.update name none
  | .set name key value =>
      match family.states name with
      | none => family
      | some flat =>
          let (changed, nextKeyId, _) := flat.set family.nextKeyId key value
          { family.update name (some changed) with nextKeyId }
  | .clearKey name key =>
      match family.states name with
      | none => family
      | some flat => family.update name (some (flat.clearKey key).1)
  | .clear name =>
      match family.states name with
      | none => family
      | some flat => family.update name (some flat.clear.1)

def allocations (family : Family Name) : List (Call Name) → Nat
  | [] => 0
  | call :: calls => family.allocated call + allocations (family.step call) calls

end Family

/-- `byKeyId_` is the exact inverse of `entries_`, and the types are those of the values. -/
structure Represented (flat : FlatState) : Prop where
  indexed : Indexed flat
  typed : Typed flat

/-- Every state is well represented, and no id is live twice. -/
structure Coherent {Name : Type*} (family : Family Name) : Prop where
  states : ∀ name flat, family.states name = some flat → Represented flat
  distinct : ∀ place other id, family.idOf place = some id → family.idOf other = some id →
    place = other

/-- Behind `count` allocations the live ids are among the first values of the counter. -/
structure Sound {Name : Type*} (start : UInt32) (count : Nat) (family : Family Name) : Prop where
  next : family.nextKeyId = counterFrom start count
  ids : Allocated (counterFrom start) count family.idOf
  states : ∀ name flat, family.states name = some flat → Represented flat

theorem Sound.coherent {Name : Type*} {family : Family Name} {start : UInt32} {count : Nat}
    (h : Sound start count family) : Coherent family :=
  ⟨h.states, h.ids.unique⟩

section Operations

variable {flat : FlatState} {nextKeyId : UInt32} {key : StdString} {value : Payload}

theorem nextKeyId_set (flat : FlatState) (nextKeyId : UInt32) (key : StdString)
    (value : Payload) :
    (flat.set nextKeyId key value).2.1 =
      if HoldsType flat key (detectDataType value) then nextKeyId else nextKeyId + 1 := by
  by_cases hholds : HoldsType flat key (detectDataType value)
  · obtain ⟨old, hold, htype⟩ := Option.map_eq_some_iff.mp hholds
    rw [if_pos hholds]
    simp [FlatState.set, hold, htype]
  · rw [if_neg hholds, FlatState.set]
    split
    · next old hold =>
        rw [if_pos]
        intro htype
        exact hholds (by rw [HoldsType, hold, Option.map_some, htype])
    · rfl

theorem represented_new (wirePrefix : StdString) : Represented (FlatState.new wirePrefix) :=
  ⟨indexed_new wirePrefix, typed_of_empty rfl⟩

theorem represented_set (h : Represented flat)
    (hfresh : ∀ other, idAt flat other ≠ some nextKeyId) :
    Represented (flat.set nextKeyId key value).1 :=
  ⟨indexed_set h.indexed hfresh, typed_set h.typed⟩

theorem represented_clearKey (h : Represented flat) : Represented (flat.clearKey key).1 :=
  ⟨indexed_clearKey h.indexed, typed_clearKey h.typed⟩

theorem represented_clear (h : Represented flat) : Represented flat.clear.1 := by
  rw [FlatState.clear]
  split
  · exact h
  · exact represented_new flat.wirePrefix

end Operations

section Steps

variable {Name : Type*} {family : Family Name} {start : UInt32} {count : Nat}

theorem sound_of_empty (hnext : family.nextKeyId = start)
    (hstates : ∀ name flat, family.states name = some flat →
      Represented flat ∧ idAt flat = fun _ => none) : Sound start 0 family where
  next := hnext.trans (counterFrom_zero start).symm
  ids := by
    refine (allocated_none (counterFrom start) 0).shrink fun place id hid => ?_
    obtain ⟨flat, hflat, hkey⟩ := Option.bind_eq_some_iff.mp hid
    rw [(hstates place.1 flat hflat).2] at hkey
    exact hkey
  states name flat hflat := (hstates name flat hflat).1

variable [DecidableEq Name] {name : Name} {flat : FlatState}

theorem idOf_update (family : Family Name) (name : Name) (state : Option FlatState)
    (place : Name × StdString) :
    (family.update name state).idOf place =
      if place.1 = name then state.bind fun flat => idAt flat place.2 else family.idOf place := by
  simp only [Family.idOf, Family.update, Function.update_apply]
  split <;> rfl

theorem states_update (h : Sound start count family) (name : Name) {state : Option FlatState}
    (hstate : ∀ flat, state = some flat → Represented flat) :
    ∀ other found, (family.update name state).states other = some found → Represented found := by
  intro other found hfound
  simp only [Family.update, Function.update_apply] at hfound
  split at hfound
  · exact hstate found hfound
  · exact h.states other found hfound

/-- A state may come in place of another one, with none of its keys or some of them. -/
theorem sound_update (h : Sound start count family) (name : Name) {state : Option FlatState}
    (hstate : ∀ flat, state = some flat → Represented flat ∧
      ∀ key id, idAt flat key = some id → family.idOf (name, key) = some id) :
    Sound start count (family.update name state) where
  next := h.next
  ids := by
    refine h.ids.shrink fun place id hid => ?_
    obtain ⟨other, key⟩ := place
    rw [idOf_update] at hid
    split at hid
    · next heq =>
        obtain ⟨flat, hflat, hkey⟩ := Option.bind_eq_some_iff.mp hid
        rw [show other = name from heq]
        exact (hstate flat hflat).2 key id hkey
    · exact hid
  states := states_update h name fun flat hflat => (hstate flat hflat).1

omit [DecidableEq Name] in
theorem idOf_of_state (hflat : family.states name = some flat) (key : StdString) :
    family.idOf (name, key) = idAt flat key := by
  rw [Family.idOf, hflat, Option.bind_some]

theorem idOf_update_key (hflat : family.states name = some flat) {changed : FlatState}
    {key : StdString} {id : UInt32}
    (h : idAt changed = Function.update (idAt flat) key (some id)) :
    (family.update name (some changed)).idOf =
      Function.update family.idOf (name, key) (some id) := by
  funext place
  obtain ⟨other, otherKey⟩ := place
  rw [idOf_update, Function.update_apply]
  rcases eq_or_ne other name with rfl | hne
  · simp only [if_true, Option.bind_some, h, Function.update_apply, Prod.mk.injEq, true_and,
      idOf_of_state hflat]
  · simp only [hne, if_false, Prod.mk.injEq, false_and]

theorem sound_set (h : Sound start count family) (hflat : family.states name = some flat)
    {key : StdString} {value : Payload}
    (hcount : count + (if HoldsType flat key (detectDataType value) then 0 else 1) < 2 ^ 32) :
    Sound start (count + if HoldsType flat key (detectDataType value) then 0 else 1)
      { family.update name (some (flat.set family.nextKeyId key value).1) with
        nextKeyId := (flat.set family.nextKeyId key value).2.1 } := by
  have hfresh : ∀ place, family.idOf place ≠ some family.nextKeyId := by
    rw [h.next]
    exact h.ids.fresh (injOn_counterFrom start) ((Nat.le_add_right _ _).trans_lt hcount)
  have hset : Represented (flat.set family.nextKeyId key value).1 := by
    refine represented_set (h.states name flat hflat) fun other hother => ?_
    exact hfresh (name, other) ((idOf_of_state hflat other).trans hother)
  have hids := idAt_set flat family.nextKeyId key value
  have hne : family.nextKeyId + 1 ≠ family.nextKeyId := by simp
  rw [nextKeyId_set] at hids ⊢
  by_cases hholds : HoldsType flat key (detectDataType value)
  · simp only [if_pos hholds, Nat.add_zero] at hids ⊢
    have hsame := (hids.resolve_right fun hnew => hne hnew.1.symm).2
    refine sound_update h name fun changed hchanged => ?_
    obtain rfl := Option.some.inj hchanged
    refine ⟨hset, fun other id hid => ?_⟩
    rw [idOf_of_state hflat, ← hsame]
    exact hid
  · simp only [if_neg hholds] at hids hcount ⊢
    have hnew := (hids.resolve_left fun hsame => hne hsame.1).2
    refine ⟨?_, ?_, states_update h name fun changed hchanged => ?_⟩
    · rw [counterFrom_succ, ← h.next]
    · have htaken := h.ids.update (injOn_counterFrom start) (Nat.lt_of_succ_lt hcount) (name, key)
      rw [← h.next, ← idOf_update_key hflat hnew] at htaken
      exact htaken
    · exact Option.some.inj hchanged ▸ hset

theorem sound_step (family : Family Name) (call : Call Name) (h : Sound start count family)
    (hcount : count + family.allocated call < 2 ^ 32) :
    Sound start (count + family.allocated call) (family.step call) := by
  cases call with
  | create name wirePrefix =>
      refine sound_update h name fun flat hflat => ?_
      obtain rfl := Option.some.inj hflat
      exact ⟨represented_new wirePrefix, fun key id hid => by cases hid⟩
  | drop name => exact sound_update h name fun flat hflat => by cases hflat
  | set name key value =>
      rw [Family.allocated] at hcount ⊢
      rw [Family.step]
      cases hflat : family.states name with
      | none => exact h
      | some flat =>
          rw [hflat] at hcount
          exact sound_set h hflat hcount
  | clearKey name key =>
      rw [Family.step]
      cases hflat : family.states name with
      | none => exact h
      | some flat =>
          refine sound_update h name fun changed hchanged => ?_
          obtain rfl := Option.some.inj hchanged
          refine ⟨represented_clearKey (h.states name flat hflat), fun other id hid => ?_⟩
          rw [idOf_of_state hflat]
          exact idAt_clearKey hid
  | clear name =>
      rw [Family.step]
      cases hflat : family.states name with
      | none => exact h
      | some flat =>
          refine sound_update h name fun changed hchanged => ?_
          obtain rfl := Option.some.inj hchanged
          refine ⟨represented_clear (h.states name flat hflat), fun other id hid => ?_⟩
          rw [idAt_clear] at hid
          cases hid

theorem allocations_append (family : Family Name) (first second : List (Call Name)) :
    family.allocations (first ++ second) =
      family.allocations first + (run Family.step family first).allocations second := by
  induction first generalizing family with
  | nil => rw [List.nil_append, Family.allocations, Nat.zero_add, run_nil]
  | cons call calls ih =>
      rw [List.cons_append, Family.allocations, Family.allocations, ih, run_cons, Nat.add_assoc]

theorem sound_run {calls : List (Call Name)} (h : Sound start count family)
    (hcount : count + family.allocations calls < 2 ^ 32) :
    Sound start (count + family.allocations calls) (run Family.step family calls) := by
  induction calls generalizing family count with
  | nil => exact h
  | cons call calls ih =>
      rw [Family.allocations, ← Nat.add_assoc] at hcount ⊢
      exact ih (sound_step family call h ((Nat.le_add_right _ _).trans_lt hcount)) hcount

end Steps

section Frames

variable {Name : Type*}

theorem neverThrows_frames (family : Family Name) (call : Call Name) :
    ∀ frame ∈ family.frames call, NeverThrows frame := by
  cases call with
  | set name key value =>
      rw [Family.frames]
      split
      · simp
      · exact neverThrows_set _ _ _ _
  | clearKey name key =>
      rw [Family.frames]
      split
      · simp
      · exact neverThrows_clearKey _ _
  | create name wirePrefix => simp [Family.frames]
  | drop name => simp [Family.frames]
  | clear name => simp [Family.frames]

theorem neverThrows_outputs [DecidableEq Name] (family : Family Name) (calls : List (Call Name)) :
    ∀ frame ∈ outputs Family.step Family.frames family calls, NeverThrows frame := by
  induction calls generalizing family with
  | nil => simp [outputs]
  | cons call calls ih =>
      rw [outputs, List.forall_mem_append]
      exact ⟨neverThrows_frames family call, ih (family.step call)⟩

variable [HashOrder StdString]

/-- The family is coherent, and encoding throws on no frame that was emitted and on none that
its states rebuild. -/
structure Safe (family : Family Name) (emitted : List Frame) : Prop where
  coherent : Coherent family
  emits : ∀ frame ∈ emitted, NeverThrows frame
  rebuilds : ∀ name flat, family.states name = some flat →
    ∀ frame ∈ flat.buildKeyFrames ++ flat.buildValueFrames, NeverThrows frame

theorem Coherent.safe {family : Family Name} {emitted : List Frame} (h : Coherent family)
    (hemits : ∀ frame ∈ emitted, NeverThrows frame) : Safe family emitted where
  coherent := h
  emits := hemits
  rebuilds name flat hflat := List.forall_mem_append.mpr
    ⟨neverThrows_buildKeyFrames flat, neverThrows_buildValueFrames (h.states name flat hflat).typed⟩

theorem safe_family_run [DecidableEq Name] (start : UInt32) (calls : List (Call Name))
    (hcount : (Family.new start).allocations calls < 2 ^ 32) :
    Safe (run Family.step (Family.new start) calls)
      (outputs Family.step Family.frames (Family.new start) calls) := by
  have hempty : Sound start 0 (Family.new start : Family Name) :=
    sound_of_empty rfl fun name flat hflat => by cases hflat
  have hsound := sound_run hempty ((Nat.zero_add _).trans_lt hcount)
  exact hsound.coherent.safe (neverThrows_outputs (Family.new start) calls)

end Frames

section Principals

variable [HashOrder StdString]

def principalFamily (ptx : PrincipalTX) : Family Unit :=
  ⟨fun _ => some ptx.flatState, ptx.nextKeyId⟩

/-- The frames that a principal hands on. `clear()` builds the key frames again if it
asks for a resync. -/
def principalFrames (ptx : PrincipalTX) : Operation → List Frame
  | .set key value => (ptx.set key value).2
  | .clearKey key => (ptx.clearKey key).2
  | .clear => ptx.clear.2.getD []
  | .buildKeyFrames => ptx.buildKeyFrames.2

def principalAllocated (ptx : PrincipalTX) : Operation → Nat
  | .set key value => (principalFamily ptx).allocated (.set () key value)
  | .clearKey _ | .clear | .buildKeyFrames => 0

def principalAllocations (ptx : PrincipalTX) : List Operation → Nat
  | [] => 0
  | operation :: operations =>
      principalAllocated ptx operation + principalAllocations (apply ptx operation) operations

/-- Behind at most `count` allocations since the counter was at 1. -/
structure SoundPrincipal (count : Nat) (ptx : PrincipalTX) : Prop
    extends Sound 1 count (principalFamily ptx) where
  cached : ∀ frame ∈ ptx.cachedKeyFrames, NeverThrows frame

variable {ptx : PrincipalTX} {count : Nat}

omit [HashOrder StdString] in
theorem soundPrincipal_new (name : StdString) (bound : Bool) :
    SoundPrincipal 0 (PrincipalTX.new name bound) where
  toSound := sound_of_empty rfl fun _ flat hflat =>
    (Option.some.inj hflat : FlatState.new [] = flat) ▸ ⟨represented_new [], rfl⟩
  cached := by simp [PrincipalTX.new]

theorem neverThrows_uncachedKeyFrames (ptx : PrincipalTX) :
    ∀ frame ∈ ptx.uncachedKeyFrames, NeverThrows frame := by
  rw [PrincipalTX.uncachedKeyFrames, List.forall_mem_append, List.forall_mem_singleton]
  exact ⟨neverThrows_buildKeyFrames ptx.flatState, neverThrows_serverSync⟩

theorem neverThrows_principalKeyFrames (h : ∀ frame ∈ ptx.cachedKeyFrames, NeverThrows frame) :
    (∀ frame ∈ ptx.buildKeyFrames.1.cachedKeyFrames, NeverThrows frame) ∧
      ∀ frame ∈ ptx.buildKeyFrames.2, NeverThrows frame := by
  rw [PrincipalTX.buildKeyFrames]
  split
  · exact ⟨h, h⟩
  · exact ⟨neverThrows_uncachedKeyFrames ptx, neverThrows_uncachedKeyFrames ptx⟩

theorem neverThrows_principalClear (h : ∀ frame ∈ ptx.cachedKeyFrames, NeverThrows frame) :
    (∀ frame ∈ ptx.clear.1.cachedKeyFrames, NeverThrows frame) ∧
      ∀ frame ∈ ptx.clear.2.getD [], NeverThrows frame := by
  have hnone : ∀ frame ∈ ([] : List Frame), NeverThrows frame := by simp
  rw [PrincipalTX.clear]
  dsimp only
  split
  · rw [PrincipalTX.triggerResync]
    dsimp only
    split
    · exact neverThrows_principalKeyFrames hnone
    · exact ⟨hnone, hnone⟩
  · exact ⟨h, hnone⟩

theorem neverThrows_principalFrames (h : ∀ frame ∈ ptx.cachedKeyFrames, NeverThrows frame)
    (operation : Operation) :
    (∀ frame ∈ (apply ptx operation).cachedKeyFrames, NeverThrows frame) ∧
      ∀ frame ∈ principalFrames ptx operation, NeverThrows frame := by
  cases operation with
  | set key value => exact ⟨h, neverThrows_set ptx.flatState ptx.nextKeyId key value⟩
  | clearKey key => exact ⟨h, neverThrows_clearKey ptx.flatState key⟩
  | clear => exact neverThrows_principalClear h
  | buildKeyFrames => exact neverThrows_principalKeyFrames h

theorem soundPrincipal_step (h : SoundPrincipal count ptx) (operation : Operation)
    (hcount : count + principalAllocated ptx operation < 2 ^ 32) :
    ∃ later ≤ count + principalAllocated ptx operation,
      SoundPrincipal later (apply ptx operation) := by
  have hcached := (neverThrows_principalFrames h.cached operation).1
  cases operation with
  | set key value =>
      have hfamily : principalFamily (apply ptx (.set key value)) =
          (principalFamily ptx).step (.set () key value) := rfl
      refine ⟨_, le_rfl, ?_, hcached⟩
      rw [hfamily]
      exact sound_step (principalFamily ptx) (.set () key value) h.toSound hcount
  | clearKey key =>
      have hfamily : principalFamily (apply ptx (.clearKey key)) =
          (principalFamily ptx).step (.clearKey () key) := rfl
      refine ⟨_, le_rfl, ?_, hcached⟩
      rw [hfamily]
      exact sound_step (principalFamily ptx) (.clearKey () key) h.toSound hcount
  | clear =>
      obtain ⟨hflat, hnext, _⟩ := clear_fst ptx
      refine ⟨0, Nat.zero_le _, sound_of_empty hnext fun _ flat hstate => ?_, hcached⟩
      obtain rfl := Option.some.inj hstate
      rw [apply, hflat]
      exact ⟨represented_clear (h.states () ptx.flatState rfl), idAt_clear ptx.flatState⟩
  | buildKeyFrames =>
      obtain ⟨hflat, hnext, _⟩ := buildKeyFrames_fst ptx
      have hfamily : principalFamily (apply ptx .buildKeyFrames) = principalFamily ptx := by
        rw [principalFamily, apply, hflat, hnext, principalFamily]
      exact ⟨count, le_rfl, hfamily ▸ h.toSound, hcached⟩

theorem soundPrincipal_run (h : SoundPrincipal count ptx) {operations : List Operation}
    (hcount : count + principalAllocations ptx operations < 2 ^ 32) :
    (∃ later, SoundPrincipal later (run apply ptx operations)) ∧
      ∀ frame ∈ outputs apply principalFrames ptx operations, NeverThrows frame := by
  induction operations generalizing ptx count with
  | nil => exact ⟨⟨count, h⟩, by simp [outputs]⟩
  | cons operation operations ih =>
      rw [principalAllocations, ← Nat.add_assoc] at hcount
      obtain ⟨later, hle, hlater⟩ :=
        soundPrincipal_step h operation ((Nat.le_add_right _ _).trans_lt hcount)
      obtain ⟨hend, hframes⟩ := ih hlater ((Nat.add_le_add_right hle _).trans_lt hcount)
      rw [run_cons, outputs, List.forall_mem_append]
      exact ⟨hend, (neverThrows_principalFrames h.cached operation).2, hframes⟩

theorem safe_principal_run (name : StdString) (bound : Bool) (operations : List Operation)
    (hcount : principalAllocations (PrincipalTX.new name bound) operations < 2 ^ 32) :
    Safe (principalFamily (run apply (PrincipalTX.new name bound) operations))
      (outputs apply principalFrames (PrincipalTX.new name bound) operations) := by
  obtain ⟨⟨later, hsound⟩, hframes⟩ :=
    soundPrincipal_run (soundPrincipal_new name bound) ((Nat.zero_add _).trans_lt hcount)
  exact hsound.coherent.safe hframes

end Principals

end DanWs.StateFamilies
