import DanWs.KeyFrameCache
import DanWs.Replication

namespace DanWs.PrincipalReplication

open DanWs.Allocations
open DanWs.FiniteMaps
open DanWs.FlatStates
open DanWs.KeyFrameCache
open DanWs.KeyPaths
open DanWs.KeyStores
open DanWs.Principals
open DanWs.Replicas
open DanWs.Replication
open DanWs.StepRuns
open DanWs.WireRows
open DanWs.WireTypes

/-- A principal and the number of ids that it has handed out since its counter
was at 1. -/
structure Counted where
  ptx : PrincipalTX
  allocated : Nat

namespace Counted

def new (name : StdString) : Counted := ⟨PrincipalTX.new name true, 0⟩

abbrev flat (counted : Counted) : FlatState := counted.ptx.flatState

end Counted

/-- The ids of the principal are the first values of the counter. -/
structure Numbered (counted : Counted) : Prop where
  bound : counted.ptx.bound
  wirePrefix : counted.flat.wirePrefix = []
  next : counted.ptx.nextKeyId = counterFrom 1 counted.allocated
  ids : Allocated (counterFrom 1) counted.allocated (idAt counted.flat)

theorem numbered_new (name : StdString) : Numbered (Counted.new name) where
  bound := rfl
  wirePrefix := rfl
  next := (counterFrom_zero 1).symm
  ids := allocated_none _ 0

section Numbers

variable {counted : Counted}

theorem Numbered.wellKeyed (h : Numbered counted) : WellKeyed (rows counted.flat) :=
  ⟨uniquePaths_rows counted.flat, uniqueIds_rows h.ids⟩

theorem Numbered.wirePath (h : Numbered counted) (key : StdString) :
    counted.flat.wirePath key = key := by
  rw [FlatState.wirePath, if_pos h.wirePrefix]

variable [HashOrder StdString]

def allocatedBehind (counted : Counted) : Operation → Nat
  | .set key value =>
      if (counted.ptx.set key value).1.nextKeyId = counted.ptx.nextKeyId then counted.allocated
      else counted.allocated + 1
  | .clear => 0
  | .clearKey _ | .buildKeyFrames => counted.allocated

def count (counted : Counted) (operation : Operation) : Counted :=
  ⟨apply counted.ptx operation, allocatedBehind counted operation⟩

/-- The id counter has not come round. -/
def WithinCounter (counted : Counted) (operation : Operation) : Prop :=
  (count counted operation).allocated < 2 ^ 32

instance (counted : Counted) (operation : Operation) :
    Decidable (WithinCounter counted operation) :=
  inferInstanceAs (Decidable (_ < _))

theorem clear_fst (ptx : PrincipalTX) :
    ptx.clear.1.flatState = ptx.flatState.clear.1 ∧ ptx.clear.1.nextKeyId = 1 ∧
      ptx.clear.1.bound = ptx.bound := by
  rw [PrincipalTX.clear]
  dsimp only
  split
  · rw [PrincipalTX.triggerResync]
    dsimp only
    split
    · obtain ⟨hflat, _, hbound⟩ := buildKeyFrames_fst
        { ptx with
          flatState := ptx.flatState.clear.1, cachedKeyFrames := [], keyFramesCached := false }
      exact ⟨hflat, rfl, hbound⟩
    · exact ⟨rfl, rfl, rfl⟩
  · exact ⟨rfl, rfl, rfl⟩

theorem wirePrefix_count (counted : Counted) (operation : Operation) :
    (count counted operation).flat.wirePrefix = counted.flat.wirePrefix := by
  cases operation with
  | set key value => exact FlatState.wirePrefix_set counted.flat counted.ptx.nextKeyId key value
  | clearKey key => exact FlatState.wirePrefix_clearKey counted.flat key
  | clear =>
      exact (congrArg FlatState.wirePrefix (clear_fst counted.ptx).1).trans
        (FlatState.wirePrefix_clear counted.flat)
  | buildKeyFrames => exact congrArg FlatState.wirePrefix (buildKeyFrames_fst counted.ptx).1

theorem numbered_set (h : Numbered counted) {key : StdString} {value : Payload}
    (hwithin : WithinCounter counted (.set key value)) :
    Numbered (count counted (.set key value)) := by
  have hnew : (counted.ptx.set key value).1.nextKeyId =
      (counted.flat.set counted.ptx.nextKeyId key value).2.1 := rfl
  have hstart := (wirePrefix_count counted (.set key value)).trans h.wirePrefix
  rw [WithinCounter, count, allocatedBehind, hnew] at hwithin
  rw [count, allocatedBehind, hnew]
  rcases idAt_set counted.flat counted.ptx.nextKeyId key value with ⟨hsame, hids⟩ | ⟨hsucc, hids⟩
  · rw [if_pos hsame]
    exact ⟨h.bound, hstart, hsame.trans h.next, hids ▸ h.ids⟩
  · have hne : (counted.flat.set counted.ptx.nextKeyId key value).2.1 ≠ counted.ptx.nextKeyId := by
      rw [hsucc]
      simp
    rw [if_neg hne] at hwithin ⊢
    refine ⟨h.bound, hstart, ?_, ?_⟩
    · rw [counterFrom_succ, ← h.next]
      exact hsucc
    · have hupdate := h.ids.update (injOn_counterFrom 1)
        ((Nat.lt_succ_self _).trans hwithin) key
      rw [← h.next, ← hids] at hupdate
      exact hupdate

theorem flat_count_buildKeyFrames (counted : Counted) :
    (count counted .buildKeyFrames).flat = counted.flat := (buildKeyFrames_fst counted.ptx).1

theorem flat_count_clear (counted : Counted) :
    (count counted .clear).flat = counted.flat.clear.1 := (clear_fst counted.ptx).1

theorem rows_count_clear (counted : Counted) : rows (count counted .clear).flat = ∅ := by
  rw [flat_count_clear]
  exact rows_clear counted.flat

theorem numbered_buildKeyFrames (h : Numbered counted) :
    Numbered (count counted .buildKeyFrames) := by
  obtain ⟨_, hnext, hbound⟩ := buildKeyFrames_fst counted.ptx
  refine ⟨hbound.trans h.bound, (wirePrefix_count counted .buildKeyFrames).trans h.wirePrefix,
    hnext.trans h.next, ?_⟩
  rw [flat_count_buildKeyFrames]
  exact h.ids

theorem numbered_step (counted : Counted) (operation : Operation) (h : Numbered counted)
    (hwithin : WithinCounter counted operation) : Numbered (count counted operation) := by
  cases operation with
  | set key value => exact numbered_set h hwithin
  | clearKey key =>
      exact ⟨h.bound, (wirePrefix_count counted (.clearKey key)).trans h.wirePrefix, h.next,
        h.ids.shrink fun other id hid => idAt_clearKey hid⟩
  | clear =>
      obtain ⟨_, hnext, hbound⟩ := clear_fst counted.ptx
      refine ⟨hbound.trans h.bound, (wirePrefix_count counted .clear).trans h.wirePrefix, hnext, ?_⟩
      rw [flat_count_clear, idAt_clear]
      exact allocated_none _ 0
  | buildKeyFrames => exact numbered_buildKeyFrames h

theorem numbered_run (name : StdString) {history : List Operation}
    (h : StepsMeet count WithinCounter (Counted.new name) history) :
    Numbered (run count (Counted.new name) history) :=
  invariant_run numbered_step (numbered_new name) h

end Numbers

section Clients

variable [HashOrder StdString] {counted : Counted} {keys : KeyStore}

/-- What an operation enqueues to a `Ready` session. -/
def emit (counted : Counted) : Operation → List Frame
  | .set key value => (counted.ptx.set key value).2
  | .clearKey key => (counted.ptx.clearKey key).2
  | .clear =>
      match counted.ptx.clear.2 with
      | none => []
      | some keyFrames => signalFrame .serverReset :: keyFrames
  | .buildKeyFrames => []

def ValidKey : Operation → Prop
  | .set key _ => checkKeyPath key = .ok ()
  | .clearKey _ | .clear | .buildKeyFrames => True

instance : (operation : Operation) → Decidable (ValidKey operation)
  | .set key _ => inferInstanceAs (Decidable (checkKeyPath key = .ok ()))
  | .clearKey _ | .clear | .buildKeyFrames => inferInstanceAs (Decidable True)

/-- The keys that an operation leaves are ones that a client accepts. -/
def Permitted (counted : Counted) (operation : Operation) : Prop :=
  WithinCounter counted operation ∧ ValidKey operation ∧
    (count counted operation).flat.entries.keys.card ≤ 10000

instance (counted : Counted) (operation : Operation) : Decidable (Permitted counted operation) :=
  inferInstanceAs (Decidable (_ ∧ _ ∧ _))

/-- The client follows the principal. -/
structure Follows (counted : Counted) (keys : KeyStore) : Prop extends Numbered counted where
  inSync : InSync keys (rows counted.flat)
  limit : keys.registry.maxKeys = 10000

theorem clear_snd (ptx : PrincipalTX) (hbound : ptx.bound) :
    ptx.clear.2 =
      if ptx.flatState.entries = ∅ then none else some [signalFrame .serverSync] := by
  rw [PrincipalTX.clear, FlatState.clear]
  rcases eq_or_ne ptx.flatState.entries ∅ with hempty | hne
  · rw [if_pos hempty, if_pos hempty]
    rfl
  · rw [if_neg hne, if_neg hne]
    simp only [if_true, PrincipalTX.triggerResync, hbound]
    rw [PrincipalTX.buildKeyFrames, if_neg Bool.false_ne_true]
    have hitems : HashOrder.order.items (∅ : FiniteMap StdString Entry) = [] := by
      rw [List.eq_nil_iff_forall_not_mem]
      rintro ⟨key, entry⟩ hitem
      have hlookup := (IterationOrder.mem_items HashOrder.order).mp hitem
      cases hlookup
    simp [PrincipalTX.uncachedKeyFrames, FlatState.buildKeyFrames, hitems]

theorem emit_clear (hbound : counted.ptx.bound) :
    emit counted .clear =
      if counted.flat.entries = ∅ then []
      else [signalFrame .serverReset, signalFrame .serverSync] := by
  rw [emit, clear_snd counted.ptx hbound]
  rcases eq_or_ne counted.flat.entries ∅ with hempty | hne
  · rw [if_pos hempty, if_pos hempty]
  · rw [if_neg hne, if_neg hne]

theorem inSync_emit (h : Follows counted keys) {operation : Operation}
    (hpermitted : Permitted counted operation) (hnext : Numbered (count counted operation)) :
    InSync (keys.receive (emit counted operation)) (rows (count counted operation).flat) := by
  have hdisjoint := Finset.disjoint_empty_right (rows counted.flat)
  have hsync := h.inSync
  cases operation with
  | set key value =>
      rw [← Finset.union_empty (rows counted.flat)] at hsync
      have hwellKeyed := hnext.wellKeyed
      have hcard := (card_rows_le _).trans hpermitted.2.2
      rw [← Finset.union_empty (rows (count counted _).flat)] at hwellKeyed hcard ⊢
      refine inSync_set hsync hdisjoint ?_ hwellKeyed (hcard.trans h.limit.ge)
      rw [h.wirePath]
      exact hpermitted.2.1
  | clearKey key =>
      rw [← Finset.union_empty (rows counted.flat)] at hsync
      rw [← Finset.union_empty (rows (count counted _).flat)]
      exact inSync_clearKey hsync hdisjoint
  | clear =>
      rw [rows_count_clear, emit_clear h.bound]
      split
      · next hempty =>
          rwa [rows_of_empty hempty] at hsync
      · exact tracks_reset keys
  | buildKeyFrames =>
      rw [flat_count_buildKeyFrames]
      exact hsync

theorem isSyncFrame_emit (hbound : counted.ptx.bound) (operation : Operation) :
    ∀ frame ∈ emit counted operation, isSyncFrame frame := by
  cases operation with
  | set key value => exact isSyncFrame_set counted.flat _ key value
  | clearKey key => exact isSyncFrame_clearKey counted.flat key
  | clear =>
      intro frame hframe
      rw [emit_clear hbound] at hframe
      split at hframe
      · cases hframe
      · rcases List.mem_cons.mp hframe with rfl | hframe
        · rfl
        · rw [List.mem_singleton.mp hframe]
          rfl
  | buildKeyFrames => simp [emit]

theorem isSyncFrame_outputs (h : Numbered counted) {operations : List Operation}
    (hmeet : StepsMeet count WithinCounter counted operations) :
    ∀ frame ∈ outputs count emit counted operations, isSyncFrame frame := by
  refine forall_outputs (fun counted operation hnumbered hwithin => ?_) h hmeet
  exact ⟨numbered_step counted operation hnumbered hwithin,
    isSyncFrame_emit hnumbered.bound operation⟩

theorem follows_step (counted : Counted) (keys : KeyStore) (operation : Operation)
    (h : Follows counted keys) (hpermitted : Permitted counted operation) :
    Follows (count counted operation) (keys.receive (emit counted operation)) := by
  have hnext := numbered_step counted operation h.toNumbered hpermitted.1
  exact ⟨hnext, inSync_emit h hpermitted hnext, (maxKeys_receive _ _).trans h.limit⟩

theorem follows_run (h : Follows counted keys) {operations : List Operation}
    (hmeet : StepsMeet count Permitted counted operations) :
    Follows (run count counted operations)
      (keys.receive (outputs count emit counted operations)) :=
  related_run follows_step h hmeet

end Clients

end DanWs.PrincipalReplication
