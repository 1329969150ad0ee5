import DanWs.Replication

namespace DanWs.ClientProgress

open DanWs.Clients
open DanWs.FiniteMaps
open DanWs.FlatStates
open DanWs.KeyPaths
open DanWs.KeyStores
open DanWs.Replicas
open DanWs.Replication
open DanWs.WireRows
open DanWs.WireTypes

section Frames

variable (client : Client) (frame : Frame)

theorem state_enterReady : client.enterReady.client.state = .ready := by
  rw [Client.enterReady]
  dsimp only
  split <;> rfl

theorem state_applyPending (path : StdString) :
    (client.applyPending frame path).client.state = client.state := by
  rw [Client.applyPending]
  split
  · rfl
  · dsimp only
    exact state_getTopicInfo _ _ _

/-- A registration moves the state only if it is the first frame of a sync. -/
theorem state_handleServerKeyRegistration :
    (client.handleServerKeyRegistration frame).client.state =
      client.startSynchronizing.state := by
  rw [Client.handleServerKeyRegistration]
  dsimp only
  split
  · split
    · rfl
    · exact state_applyPending _ _ _
  · rfl

theorem startSynchronizing_of_synchronizing {client : Client}
    (h : client.state = .synchronizing) : client.startSynchronizing = client := by
  rw [Client.startSynchronizing, if_neg]
  rw [h]
  exact ClientState.noConfusion

theorem startSynchronizing_ne_ready {client : Client} (h : client.state ≠ .ready) :
    client.startSynchronizing.state ≠ .ready := by
  rw [Client.startSynchronizing]
  split
  · exact ClientState.noConfusion
  · exact h

theorem state_handleServerSync {client : Client} (h : client.state = .synchronizing) :
    (client.registry.byId = ∅ ∧ client.handleServerSync.client.state = .ready) ∨
      (client.registry.byId ≠ ∅ ∧ client.handleServerSync.client.state = .synchronizing) := by
  rw [Client.handleServerSync]
  dsimp only
  rw [startSynchronizing_of_synchronizing h]
  rcases eq_or_ne client.registry.byId ∅ with hempty | hne
  · rw [if_pos hempty]
    exact Or.inl ⟨hempty, state_enterReady client⟩
  · rw [if_neg hne]
    exact Or.inr ⟨hne, h⟩

theorem state_handleServerValue {client : Client} {entry : KeyEntry}
    (hknown : client.registry.byId.lookup frame.keyId = some entry)
    (h : client.state = .synchronizing ∨ client.state = .ready) :
    (client.handleServerValue frame).client.state = .ready := by
  rw [Client.handleServerValue, KeyRegistry.getByKeyId, hknown]
  dsimp only
  rw [Client.storeValue]
  dsimp only
  split
  · exact state_enterReady _
  · next hstate =>
      rw [state_getTopicInfo] at hstate
      refine (state_getTopicInfo _ _ _).trans ?_
      exact h.resolve_left hstate

end Frames

/-- An exact copy that knows it has got everything. -/
structure ReadyCopy [HashOrder StdString] (client : Client) (rows : Finset WireRow) : Prop
    extends ExactCopy client rows where
  state : client.state = .ready

section Announcements

variable {client : Client} {wires : List (StdString × Entry)}

theorem receive_fst_append (client : Client) (first second : List Frame) :
    (client.receive (first ++ second)).1 = ((client.receive first).1.receive second).1 := by
  rw [Client.receive_append]

theorem keyStore_announced (client : Client) (list : List (StdString × Entry)) :
    keyStore (client.receive (registrationFrames list ++ [signalFrame .serverSync])).1 =
      keyStore (client.receive (registrationFrames list)).1 := by
  rw [receive_fst_append]
  exact keyStore_handleServerSync _

theorem state_registrationFrames (h : client.state = .synchronizing) :
    (client.receive (registrationFrames wires)).1.state = .synchronizing := by
  induction wires generalizing client with
  | nil => exact h
  | cons wire wires ih =>
      rw [registrationFrames, List.map_cons, Client.receive]
      refine ih ?_
      rw [Client.handleFrame]
      refine (state_handleServerKeyRegistration client _).trans ?_
      rw [startSynchronizing_of_synchronizing h, h]

theorem state_registrationFrames_ne (h : client.state ≠ .ready) :
    (client.receive (registrationFrames wires)).1.state ≠ .ready := by
  induction wires generalizing client with
  | nil => exact h
  | cons wire wires ih =>
      rw [registrationFrames, List.map_cons, Client.receive]
      refine ih ?_
      rw [Client.handleFrame]
      dsimp only [registrationFrame]
      rw [state_handleServerKeyRegistration client _]
      exact startSynchronizing_ne_ready h

theorem state_valueFrames
    (hknown : ∀ wire ∈ wires, ∃ entry, client.registry.byId.lookup wire.2.keyId = some entry)
    (h : client.state = .ready ∨ client.state = .synchronizing ∧ wires ≠ []) :
    (client.receive (valueFrames wires)).1.state = .ready := by
  induction wires generalizing client with
  | nil => exact h.resolve_right fun hne => hne.2 rfl
  | cons wire wires ih =>
      obtain ⟨entry, hentry⟩ := hknown wire List.mem_cons_self
      rw [valueFrames, List.map_cons, Client.receive]
      have hregistry : (client.handleFrame (FlatState.valueFrame wire.2)).client.registry =
          client.registry := by
        have hstep := keyStore_handleFrame client (FlatState.valueFrame wire.2) rfl
        exact (congrArg KeyStore.registry hstep).trans (KeyStore.registry_storeValue _ _)
      refine ih (fun other hother => ?_) (Or.inl ?_)
      · rw [hregistry]
        exact hknown other (List.mem_cons_of_mem _ hother)
      · rw [Client.handleFrame]
        exact state_handleServerValue (FlatState.valueFrame wire.2) hentry
          (h.symm.imp And.left id)

theorem byId_eq_empty {keys : KeyStore} (h : Names keys.replica ∅) :
    keys.registry.byId = ∅ := by
  apply Finmap.ext_lookup
  intro keyId
  rw [Finmap.lookup_empty]
  rcases hentry : keys.registry.byId.lookup keyId with _ | entry
  · rfl
  · obtain ⟨row, hrow, _⟩ := (h.pathOf keyId entry.path).mp (pathOf_of_lookup hentry)
    exact absurd hrow (Finset.notMem_empty row)

theorem state_announcement (client : Client) (hkeyed : WellKeyed (wireRows wires))
    (hcard : (wireRows wires).card ≤ client.registry.maxKeys)
    (hvalid : ∀ wire ∈ wires, checkKeyPath wire.1 = .ok ()) :
    (client.receive (announcement wires)).1.state = .ready := by
  let reset := (client.handleFrame (signalFrame .serverReset)).client
  let named := (reset.receive (registrationFrames wires)).1
  let synced := (named.handleFrame (signalFrame .serverSync)).client
  have hreceive : (client.receive (announcement wires)).1 =
      (synced.receive (valueFrames wires)).1 := by
    rw [announcement, receive_fst_append, receive_fst_append, receive_fst_append]
    rfl
  have hmem : ∀ wire ∈ wires, wireRow wire.1 wire.2 ∈ wireRows wires :=
    fun wire hwire => mem_wireRows.mpr ⟨wire, hwire, rfl⟩
  have hnamed : Names (keyStore named).replica (wireRows wires) := by
    have htracks := tracks_registrations hkeyed (by exact hcard)
      (fun wire hwire => ⟨hmem wire hwire, hvalid wire hwire⟩) (Finset.empty_subset _)
      (tracks_reset (keyStore client))
    rw [Finset.empty_union] at htracks
    rw [keyStore_receive reset (isSyncFrame_registrationFrames wires)]
    exact htracks.names
  have hsynced : synced.registry = named.registry := by
    exact congrArg KeyStore.registry (keyStore_handleServerSync named)
  rw [hreceive]
  apply state_valueFrames
  · intro wire hwire
    rw [hsynced]
    exact lookup_byId_of_names hnamed (hmem wire hwire)
  · have hstate : named.state = .synchronizing := state_registrationFrames rfl
    rcases state_handleServerSync hstate with ⟨_, hready⟩ | ⟨hne, hstate⟩
    · exact Or.inl hready
    · refine Or.inr ⟨hstate, ?_⟩
      rintro rfl
      exact hne (byId_eq_empty hnamed)

/-- A full announcement that can be taken in makes any client a ready copy. -/
theorem readyCopy_announcement [HashOrder StdString] (client : Client)
    (hkeyed : WellKeyed (wireRows wires))
    (hcard : (wireRows wires).card ≤ client.registry.maxKeys)
    (hvalid : ∀ wire ∈ wires, checkKeyPath wire.1 = .ok ()) :
    ReadyCopy (client.receive (announcement wires)).1 (wireRows wires) := by
  refine ⟨exactCopy_of_inSync ?_, state_announcement client hkeyed hcard hvalid⟩
  rw [keyStore_receive client (isSyncFrame_announcement wires)]
  exact inSync_announcement (keyStore client) hkeyed hcard hvalid

end Announcements

end DanWs.ClientProgress
