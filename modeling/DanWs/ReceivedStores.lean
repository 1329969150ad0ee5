import DanWs.ReceivedFrames
import DanWs.Replication

namespace DanWs.ReceivedStores

open DanWs.Clients
open DanWs.FiniteMaps
open DanWs.FlatStates
open DanWs.KeyStores
open DanWs.ReceivedFrames
open DanWs.Replicas
open DanWs.Replication
open DanWs.WireRows
open DanWs.WireTypes

/-- The second store holds what is received of the values in the first one. -/
structure Reads (keys read : KeyStore) : Prop where
  registry : read.registry = keys.registry
  store : ∀ keyId, read.store.lookup keyId = (keys.store.lookup keyId).map received
  pending : ∀ keyId,
    read.pendingValues.lookup keyId = (keys.pendingValues.lookup keyId).map receivedFrame
  valued : ∀ keyId frame, keys.pendingValues.lookup keyId = some frame → CarriesValue frame

def receivedRow (row : WireRow) : WireRow := ⟨row.path, row.id, received row.value⟩

section Frames

variable {keys read : KeyStore} {frame : Frame}

theorem receivedFrame_of_valued (h : CarriesValue frame) :
    receivedFrame frame = { frame with payload := received frame.payload } := if_pos h

theorem receivedFrame_of_not_valued (h : CarriesValue frame = false) :
    receivedFrame frame = frame :=
  if_neg (by simp [h])

theorem reads_new : Reads (keyStore Client.new) (keyStore Client.new) :=
  ⟨rfl, fun _ => rfl, fun _ => rfl, fun _ _ hheld => by cases hheld⟩

theorem reads_insert {store other : FiniteMap UInt32 Payload}
    (h : ∀ keyId, other.lookup keyId = (store.lookup keyId).map received) (keyId : UInt32)
    (value : Payload) (id : UInt32) :
    (other.insert keyId (received value)).lookup id =
      ((store.insert keyId value).lookup id).map received := by
  rw [lookup_insert_eq_ite, lookup_insert_eq_ite, h]
  split <;> rfl

theorem reads_applyPending (h : Reads keys read) (keyId : UInt32) :
    Reads (keys.applyPending keyId) (read.applyPending keyId) := by
  rw [KeyStore.applyPending, KeyStore.applyPending, h.pending]
  cases hpending : keys.pendingValues.lookup keyId with
  | none => exact h
  | some pending =>
      have hvalued := h.valued keyId pending hpending
      refine ⟨h.registry, ?_, fun id => ?_, fun id held hheld => ?_⟩
      · rw [Option.map_some, receivedFrame_of_valued hvalued]
        exact reads_insert h.store keyId pending.payload
      · dsimp only [Option.map_some]
        rw [lookup_erase_eq_ite, lookup_erase_eq_ite, h.pending]
        split <;> rfl
      · exact h.valued id held (lookup_of_lookup_erase hheld).2

theorem reads_register (h : Reads keys read) (frame : Frame) :
    Reads (keys.register frame) (read.register frame) := by
  rw [KeyStore.register, KeyStore.register]
  cases frame.payload with
  | string path =>
      dsimp only
      rw [h.registry]
      cases keys.registry.registerOne frame.keyId path frame.dataType with
      | error fault => exact h
      | ok registry =>
          exact @reads_applyPending { keys with registry } { read with registry }
            ⟨rfl, h.store, h.pending, h.valued⟩ frame.keyId
  | _ => exact h

theorem reads_storeValue (h : Reads keys read) (hvalued : CarriesValue frame) :
    Reads (keys.storeValue frame) (read.storeValue (receivedFrame frame)) := by
  rw [KeyStore.storeValue, KeyStore.storeValue, h.registry, receivedFrame_of_valued hvalued]
  dsimp only
  cases keys.registry.getByKeyId frame.keyId with
  | some entry =>
      dsimp only
      exact ⟨rfl, reads_insert h.store _ _, h.pending, h.valued⟩
  | none =>
      dsimp only
      refine ⟨rfl, h.store, fun id => ?_, fun id held hheld => ?_⟩
      · rw [lookup_insert_eq_ite, lookup_insert_eq_ite, h.pending]
        split
        · rw [Option.map_some, receivedFrame_of_valued hvalued]
        · rfl
      · obtain ⟨-, rfl⟩ | ⟨-, hheld⟩ := lookup_of_lookup_insert hheld
        · exact hvalued
        · exact h.valued id held hheld

theorem reads_delete (h : Reads keys read) (keyId : UInt32) :
    Reads (keys.delete keyId) (read.delete keyId) := by
  refine ⟨?_, fun id => ?_, h.pending, h.valued⟩
  · rw [KeyStore.delete, KeyStore.delete, h.registry]
  · rw [KeyStore.delete, KeyStore.delete, lookup_erase_eq_ite, lookup_erase_eq_ite, h.store]
    split <;> rfl

theorem reads_reset (h : Reads keys read) : Reads keys.reset read.reset := by
  refine ⟨?_, fun _ => rfl, fun _ => rfl, fun _ _ hheld => ?_⟩
  · rw [KeyStore.reset, KeyStore.reset, h.registry]
  · cases hheld

theorem reads_apply (h : Reads keys read) (frame : Frame) :
    Reads (keys.apply frame) (read.apply (receivedFrame frame)) := by
  have htype : (receivedFrame frame).frameType = frame.frameType := by
    rw [receivedFrame_fields]
  have hkeyId : (receivedFrame frame).keyId = frame.keyId := by
    rw [receivedFrame_fields]
  rw [KeyStore.apply, KeyStore.apply, htype, hkeyId]
  split
  · next hregistration =>
      rw [receivedFrame_of_not_valued (by rw [CarriesValue, hregistration]; rfl)]
      exact reads_register h frame
  · next hvalue => exact reads_storeValue h (by rw [CarriesValue, hvalue]; rfl)
  · exact reads_delete h frame.keyId
  · exact reads_reset h
  · exact h

theorem reads_receive (h : Reads keys read) (frames : List Frame) :
    Reads (keys.receive frames) (read.receive (frames.map receivedFrame)) := by
  induction frames generalizing keys read with
  | nil => exact h
  | cons frame frames ih => exact ih (reads_apply h frame)

end Frames

section Tables

variable {keys read : KeyStore} {rows : Finset WireRow}

theorem exists_mem_image_receivedRow {property : WireRow → Prop}
    (h : ∀ row, property (receivedRow row) ↔ property row) :
    (∃ row ∈ rows.image receivedRow, property row) ↔ ∃ row ∈ rows, property row := by
  simp only [Finset.exists_mem_image, h]

theorem inSync_of_reads (h : Reads keys read) (hsync : InSync keys rows) :
    InSync read (rows.image receivedRow) := by
  refine ⟨h.registry ▸ hsync.keyed, ⟨fun id path => ?_, fun path id => ?_⟩, fun id value => ?_, ?_⟩
  · rw [exists_mem_image_receivedRow fun row => Iff.rfl]
    have hpathOf := hsync.names.pathOf id path
    rw [KeyStore.replica] at hpathOf ⊢
    rwa [h.registry]
  · rw [exists_mem_image_receivedRow fun row => Iff.rfl]
    have hidOf := hsync.names.idOf path id
    rw [KeyStore.replica] at hidOf ⊢
    rwa [h.registry]
  · have hvalueOf := hsync.holds id
    change read.store.lookup id = some value ↔ _
    rw [h.store id, Option.map_eq_some_iff, Finset.exists_mem_image]
    constructor
    · rintro ⟨held, hheld, rfl⟩
      obtain ⟨row, hrow, hid, hvalue⟩ := (hvalueOf held).mp hheld
      exact ⟨row, hrow, hid, congrArg received hvalue⟩
    · rintro ⟨row, hrow, hid, hvalue⟩
      exact ⟨row.value, (hvalueOf row.value).mpr ⟨row, hrow, hid, rfl⟩, hvalue⟩
  · refine Finmap.ext_lookup fun id => ?_
    rw [h.pending, hsync.pending]
    rfl

theorem exists_store {rows : Finset WireRow} (hunique : UniqueIds rows) :
    ∃ store : FiniteMap UInt32 Payload, ∀ id value,
      store.lookup id = some value ↔ ∃ row ∈ rows, row.id = id ∧ row.value = value := by
  induction rows using Finset.induction_on with
  | empty => exact ⟨∅, fun id value => by simp⟩
  | insert row rows hnew ih =>
      obtain ⟨store, hstore⟩ := ih fun first hfirst second hsecond =>
        hunique first (Finset.mem_insert_of_mem hfirst) second (Finset.mem_insert_of_mem hsecond)
      refine ⟨store.insert row.id row.value, fun id value => ?_⟩
      rw [lookup_insert_eq_ite, Finset.exists_mem_insert]
      split
      · next heq =>
          subst heq
          rw [Option.some.injEq, eq_self, true_and, iff_self_or]
          rintro ⟨other, hother, hid, -⟩
          have hsame := hunique other (Finset.mem_insert_of_mem hother) row
            (Finset.mem_insert_self row rows) hid
          exact absurd (hsame ▸ hother) hnew
      · next hne => rw [hstore, or_iff_right fun h => hne h.1.symm]

/-- A client that is in step with what is received of the rows is what became of one
that is in step with the rows. -/
theorem exists_reads (hunique : UniqueIds rows) (h : InSync read (rows.image receivedRow)) :
    ∃ keys, Reads keys read ∧ InSync keys rows := by
  obtain ⟨store, hstore⟩ := exists_store hunique
  refine ⟨{ read with store }, ⟨rfl, fun id => ?_, fun id => ?_, fun id frame hframe => ?_⟩,
    h.keyed, ⟨fun id path => ?_, fun path id => ?_⟩, hstore, h.pending⟩
  · refine Option.ext fun value => ?_
    have hholds : read.store.lookup id = some value ↔ _ := h.holds id value
    rw [hholds, Finset.exists_mem_image, Option.map_eq_some_iff]
    constructor
    · rintro ⟨row, hrow, hid, hvalue⟩
      exact ⟨row.value, (hstore id row.value).mpr ⟨row, hrow, hid, rfl⟩, hvalue⟩
    · rintro ⟨held, hheld, hvalue⟩
      obtain ⟨row, hrow, hid, rfl⟩ := (hstore id held).mp hheld
      exact ⟨row, hrow, hid, hvalue⟩
  · rw [h.pending]
    rfl
  · rw [h.pending] at hframe
    cases hframe
  · rw [← exists_mem_image_receivedRow fun row => Iff.rfl]
    exact h.names.pathOf id path
  · rw [← exists_mem_image_receivedRow fun row => Iff.rfl]
    exact h.names.idOf path id

end Tables

end DanWs.ReceivedStores
