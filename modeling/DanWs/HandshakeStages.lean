import DanWs.HandshakeParties

namespace DanWs.HandshakeStages

open DanWs.ClientProgress
open DanWs.Clients
open DanWs.FiniteMaps
open DanWs.HandshakeParties
open DanWs.KeyFrameCache
open DanWs.KeyPaths
open DanWs.KeyRequests
open DanWs.KeyStores
open DanWs.Links
open DanWs.PrincipalReplication
open DanWs.Principals
open DanWs.Replicas
open DanWs.Replication
open DanWs.Sessions
open DanWs.Settlement
open DanWs.SettlingKeys
open DanWs.StepRuns
open DanWs.WireRows
open DanWs.WireTypes

section Stages

variable [HashOrder StdString]

/-- Ids are distinct, and the client accepts all keys. -/
structure Sound (counted : Counted) : Prop extends Numbered counted where
  valid : ∀ key entry, counted.flat.entries.lookup key = some entry → checkKeyPath key = .ok ()
  fits : counted.flat.entries.keys.card ≤ 10000

theorem sound_count {counted : Counted} (h : Sound counted) {operation : Operation}
    (hpermitted : Permitted counted operation) : Sound (count counted operation) := by
  obtain ⟨hwithin, hkey, hfits⟩ := hpermitted
  refine ⟨numbered_step counted operation h.toNumbered hwithin, fun key entry hentry => ?_, hfits⟩
  cases operation with
  | set other value =>
      rcases eq_or_ne key other with rfl | hne
      · exact hkey
      · rw [show (count counted (.set other value)).flat =
          (counted.flat.set counted.ptx.nextKeyId other value).1 from rfl,
          lookup_set_of_ne counted.flat _ value hne] at hentry
        exact h.valid key entry hentry
  | clearKey other =>
      exact h.valid key entry (lookup_clearKey hentry)
  | clear =>
      rw [flat_count_clear, entries_clear] at hentry
      cases hentry
  | buildKeyFrames =>
      rw [flat_count_buildKeyFrames] at hentry
      exact h.valid key entry hentry

theorem Sound.checked {counted : Counted} (h : Sound counted) :
    ∀ wire ∈ wires counted.flat, checkKeyPath wire.1 = .ok () := by
  rintro ⟨path, entry⟩ hwire
  exact h.valid path entry ((mem_wires_paths h.wirePrefix).mp hwire)

/-- The rows that the client has been told of, and has not been told to forget. -/
def Told (counted : Counted) (calls : List Operation) (known : Finset WireRow) : Prop :=
  (ClearsKeys counted calls ∧ known = ∅) ∨ (¬ ClearsKeys counted calls ∧ known = rows counted.flat)

theorem uniqueIds_of_told {counted : Counted} {calls : List Operation} {known : Finset WireRow}
    (hids : UniqueIds (rows counted.flat)) (h : Told counted calls known) : UniqueIds known := by
  rcases h with ⟨_, rfl⟩ | ⟨_, rfl⟩
  · intro row hrow
    exact absurd hrow (Finset.notMem_empty row)
  · exact hids

/-- The session waits for `ClientReady`. -/
structure Waiting (known : Finset WireRow) (link : Link Host Client Frame Frame) : Prop where
  state : link.server.session.state = .synchronizing
  sync : link.server.session.serverSyncSent
  tracks : Tracks (keyStore link.client) known ∅
  limit : link.client.registry.maxKeys = 10000
  up : ∃ rest, link.up = signalFrame .clientReady :: rest ∧ ∀ frame ∈ rest, Unsolicited frame

/-- The values have been sent, and the client asks for the keys that it misses. -/
structure Exchanging (known : Finset WireRow) (link : Link Host Client Frame Frame) : Prop where
  state : link.server.session.state = .ready
  progress : Progress known (wires link.server.counted.flat) (keyStore link.client)
    (requestsIn link.up)
  up : ∀ frame ∈ link.up, frame.frameType ≠ .clientResyncReq

structure Stage (counted : Counted) (calls : List Operation)
    (link : Link Host Client Frame Frame) : Prop where
  sound : Sound link.server.counted
  called : link.server.counted = run count counted calls
  stage : ∃ known, Told counted calls known ∧ (Waiting known link ∨ Exchanging known link)

variable {counted : Counted} {calls : List Operation} {server : Host} {client : Client}
  {up : List Frame}

theorem caughtUp_call (server : Host) (client : Client) (up : List Frame) (operation : Operation) :
    handshake.caughtUp (handshake.step ⟨server, client, [], up⟩ (.call operation)) =
      ⟨{ server with counted := count server.counted operation },
        (client.receive (noticed server operation)).1, [],
        up ++ (client.receive (noticed server operation)).2⟩ := by
  rw [Parties.caughtUp, receive_handshake]
  rfl

theorem advance_eq (server : Host) (client : Client) (frame : Frame) (up : List Frame) :
    handshake.advance ⟨server, client, [], frame :: up⟩ =
      ⟨(handshake.serve server frame).1,
        (client.receive (handshake.serve server frame).2).1, [],
        up ++ (client.receive (handshake.serve server frame).2).2⟩ := by
  rw [Parties.advance, Parties.caughtUp, receive_handshake]
  rfl

theorem noticed_in_window (hbound : server.counted.ptx.bound)
    (hstate : server.session.state ≠ .ready) (operation : Operation) :
    (operation = .clear ∧ server.counted.flat.entries ≠ ∅ ∧
        noticed server operation = [signalFrame .serverReset, signalFrame .serverSync]) ∨
      (¬ (operation = .clear ∧ server.counted.flat.entries ≠ ∅) ∧
        noticed server operation = []) := by
  cases operation with
  | set key value => exact Or.inr ⟨fun h => Operation.noConfusion h.1, if_neg hstate⟩
  | clearKey key => exact Or.inr ⟨fun h => Operation.noConfusion h.1, if_neg hstate⟩
  | clear =>
      rw [noticed, emit_clear hbound]
      rcases eq_or_ne server.counted.flat.entries ∅ with hempty | hne
      · rw [if_pos hempty]
        exact Or.inr ⟨fun h => h.2 hempty, rfl⟩
      · rw [if_neg hne]
        exact Or.inl ⟨rfl, hne, rfl⟩
  | buildKeyFrames => exact Or.inr ⟨fun h => Operation.noConfusion h.1, rfl⟩

theorem stage_call {operation : Operation} (hwindow : InWindow server operation)
    (h : Stage counted calls ⟨server, client, [], up⟩) :
    Stage counted (calls ++ [operation])
      (handshake.caughtUp (handshake.step ⟨server, client, [], up⟩ (.call operation))) := by
  obtain ⟨hstate, hpermitted⟩ := hwindow
  obtain ⟨known, htold, hwaiting | hexchanging⟩ := h.stage
  · have hcalled : server.counted = run count counted calls := h.called
    have hclears : ClearsKeys counted (calls ++ [operation]) ↔ ClearsKeys counted calls ∨
        operation = .clear ∧ server.counted.flat.entries ≠ ∅ := by
      rw [clearsKeys_append, ClearsKeys, ClearsKeys, or_false, ← hcalled]
    rw [caughtUp_call]
    refine ⟨sound_count h.sound hpermitted, by rw [run_append, ← hcalled]; rfl, ?_⟩
    rcases noticed_in_window h.sound.bound hstate operation with
      ⟨hclear, hkeys, hframes⟩ | ⟨hkeeps, hframes⟩
    · rw [hframes]
      refine ⟨∅, Or.inl ⟨hclears.mpr (Or.inr ⟨hclear, hkeys⟩), rfl⟩, Or.inl ?_⟩
      have hsync : ∀ frame ∈ [signalFrame .serverReset, signalFrame .serverSync],
          isSyncFrame frame := by decide
      obtain ⟨rest, hup, hrest⟩ := hwaiting.up
      refine ⟨hwaiting.state, hwaiting.sync, ?_, ?_, ?_⟩
      · rw [keyStore_receive client hsync]
        exact tracks_reset (keyStore client)
      · have hlimit := maxKeys_receive (keyStore client)
          [signalFrame .serverReset, signalFrame .serverSync]
        rw [← keyStore_receive client hsync] at hlimit
        exact hlimit.trans hwaiting.limit
      · refine ⟨_, congrArg (· ++ _) hup, fun frame hframe => ?_⟩
        rcases List.mem_append.mp hframe with hframe | hframe
        · exact hrest frame hframe
        · exact unsolicited_receive hsync rfl frame hframe
    · rw [hframes, Client.receive, List.append_nil]
      refine ⟨known, ?_, Or.inl ⟨hwaiting.state, hwaiting.sync, hwaiting.tracks, hwaiting.limit,
        hwaiting.up⟩⟩
      rw [Told, hclears, or_iff_left hkeeps]
      exact htold
  · exact absurd hexchanging.state hstate

/-- When the session gets `ClientReady`, the client is sent all values, and asks
for the keys that it misses. -/
theorem advance_waiting {known : Finset WireRow} {frame : Frame}
    (hsound : Sound server.counted) (hids : UniqueIds known)
    (h : Waiting known ⟨server, client, [], frame :: up⟩) :
    ∃ next sent, handshake.advance ⟨server, client, [], frame :: up⟩ =
        ⟨{ server with session := { server.session with state := .ready } }, next, [], up ++ sent⟩ ∧
      Settling known (wires server.counted.flat) (wires server.counted.flat) [] (keyStore next) ∧
      requestsIn (up ++ sent) = wireIds (unknownWires known (wires server.counted.flat)) ∧
      ∀ frame ∈ up ++ sent, frame.frameType ≠ .clientResyncReq := by
  obtain ⟨rest, hup, hrest⟩ := h.up
  obtain ⟨rfl, rfl⟩ := List.cons.inj hup
  have hsync := isSyncFrame_valueFrames (wires server.counted.flat)
  obtain ⟨hrequests, hresync⟩ := sent_receive client hsync
  obtain ⟨hsettling, hasks⟩ := settling_values (distinct_wires hsound.toNumbered)
    (List.nil_append _).symm (settling_of_tracks h.tracks hids h.limit)
  refine ⟨(client.receive (valueFrames (wires server.counted.flat))).1,
    (client.receive (valueFrames (wires server.counted.flat))).2, ?_, ?_, ?_, ?_⟩
  · rw [advance_eq, serve_clientReady h.state h.sync rfl]
  · rw [keyStore_receive client hsync]
    exact hsettling
  · rw [requestsIn_append, requestsIn_eq_nil hrest, hrequests]
    exact hasks
  · intro frame hframe
    rcases List.mem_append.mp hframe with hframe | hframe
    · exact (hrest frame hframe).2
    · exact hresync frame hframe

theorem advance_ready {frame : Frame} (hnumbered : Numbered server.counted)
    (hstate : server.session.state = .ready) (hframe : frame.frameType ≠ .clientResyncReq) :
    (frame.frameType = .clientKeyRequest ∧
        ∀ wire ∈ wires server.counted.flat, frame.keyId = wire.2.keyId →
          ∃ sent, handshake.advance ⟨server, client, [], frame :: up⟩ =
              ⟨server, (client.receive (answer wire)).1, [], up ++ sent⟩ ∧
            keyStore (client.receive (answer wire)).1 = (keyStore client).receive (answer wire) ∧
            requestsIn sent = asksFor (keyStore client) (answer wire) ∧
            ∀ frame ∈ sent, frame.frameType ≠ .clientResyncReq) ∨
      (frame.frameType ≠ .clientKeyRequest ∧
        handshake.advance ⟨server, client, [], frame :: up⟩ = ⟨server, client, [], up⟩) := by
  rw [advance_eq]
  by_cases htype : frame.frameType = .clientKeyRequest
  · refine Or.inl ⟨htype, fun wire hwire hid => ?_⟩
    obtain ⟨hrequests, hresync⟩ := sent_receive client (isSyncFrame_answer wire)
    rw [serve_request hnumbered hwire htype hid]
    exact ⟨_, rfl, keyStore_receive client (isSyncFrame_answer wire), hrequests, hresync⟩
  · rw [serve_unsolicited hstate ⟨htype, hframe⟩, Client.receive, List.append_nil]
    exact Or.inr ⟨htype, rfl⟩

theorem stage_serve {frame : Frame} (hids : UniqueIds (rows counted.flat))
    (h : Stage counted calls ⟨server, client, [], frame :: up⟩) :
    Stage counted calls (handshake.advance ⟨server, client, [], frame :: up⟩) := by
  obtain ⟨known, htold, hwaiting | hexchanging⟩ := h.stage
  · obtain ⟨next, sent, heq, hsettling, hrequests, hup⟩ :=
      advance_waiting h.sound (uniqueIds_of_told hids htold) hwaiting
    rw [heq]
    refine ⟨h.sound, h.called, known, htold, Or.inr ⟨rfl, ?_, hup⟩⟩
    dsimp only
    rw [hrequests]
    refine .settling [] _ rfl (fun before wire hbefore => ?_) hsettling
    simp at hbefore
  · have hup := hexchanging.up
    have hprogress := hexchanging.progress
    rcases advance_ready h.sound.toNumbered hexchanging.state (hup frame List.mem_cons_self) with
      ⟨htype, hanswer⟩ | ⟨htype, heq⟩
    · have hrequests : requestsIn (frame :: up) = frame.keyId :: requestsIn up :=
        List.filterMap_cons_some (if_pos htype)
      rw [hrequests] at hprogress
      obtain ⟨wire, hwire, hid, hnext⟩ := progress_answer (distinct_wires h.sound.toNumbered)
        nodup_wires_of h.sound.checked hprogress
      obtain ⟨sent, heq, hkeys, hsent, hresync⟩ := hanswer wire hwire hid.symm
      rw [heq]
      refine ⟨h.sound, h.called, known, htold, Or.inr ⟨hexchanging.state, ?_, ?_⟩⟩
      · dsimp only
        rw [hkeys, requestsIn_append, hsent]
        exact hnext
      · intro other hother
        rcases List.mem_append.mp hother with hother | hother
        · exact hup other (List.mem_cons_of_mem _ hother)
        · exact hresync other hother
    · rw [heq]
      refine ⟨h.sound, h.called, known, htold, Or.inr ⟨hexchanging.state, ?_, ?_⟩⟩
      · rwa [show requestsIn (frame :: up) = requestsIn up from
          List.filterMap_cons_none (if_neg htype)] at hprogress
      · exact fun other hother => hup other (List.mem_cons_of_mem _ hother)

theorem startSync_frames (counted : Counted) (session : Session) :
    (session.startSync (some (recomputed counted.ptx))).frames =
      registrationFrames (wires counted.flat) ++ [signalFrame .serverSync] := by
  have hbuilt : (recomputed counted.ptx).uncachedKeyFrames =
      registrationFrames (wires counted.flat) ++ [signalFrame .serverSync] :=
    uncachedKeyFrames_eq (recomputed counted.ptx)
  simp only [Session.startSync, PrincipalTX.buildKeyFrames,
    show (recomputed counted.ptx).keyFramesCached = false from rfl, Bool.false_eq_true, if_false,
    hbuilt]
  rw [if_pos (by simp)]

theorem tracks_announced (hsound : Sound counted)
    (hfresh : keyStore client = keyStore Client.new) :
    Tracks (keyStore (client.receive (registrationFrames (wires counted.flat))).1)
      (rows counted.flat) ∅ := by
  have hrows : wireRows (wires counted.flat) = rows counted.flat := wireRows_wires counted.flat
  have hstart : Tracks (keyStore Client.new) ∅ ∅ := tracks_reset (keyStore Client.new)
  have hnamed := tracks_registrations hsound.wellKeyed
    (((card_rows_le counted.flat).trans hsound.fits).trans_eq rfl)
    (fun wire hwire => ⟨hrows ▸ mem_wireRows.mpr ⟨wire, hwire, rfl⟩, hsound.checked wire hwire⟩)
    (Finset.empty_subset _) hstart
  rw [Finset.empty_union, hrows] at hnamed
  rw [keyStore_receive client (isSyncFrame_registrationFrames _), hfresh]
  exact hnamed

theorem caughtUp_started (counted : Counted) (session : Session) (hstate : client.state ≠ .ready) :
    ∃ rest, handshake.caughtUp (started counted session client) =
        ⟨⟨counted, (session.startSync (some (recomputed counted.ptx))).session⟩,
          (client.receive (registrationFrames (wires counted.flat) ++
            [signalFrame .serverSync])).1, [], signalFrame .clientReady :: rest⟩ ∧
      ∀ frame ∈ rest, Unsolicited frame := by
  let list := wires counted.flat
  have hnamed : (client.receive (registrationFrames list)).1.state ≠ .ready :=
    state_registrationFrames_ne hstate
  obtain ⟨rest, hsent, hrest⟩ := sent_handleServerSync hnamed
  have hup : (client.receive (registrationFrames list ++ [signalFrame .serverSync])).2 =
      signalFrame .clientReady :: rest := by
    rw [Client.receive_append, sent_registrationFrames, List.nil_append]
    exact (List.append_nil _).trans hsent
  refine ⟨rest, ?_, hrest⟩
  rw [Parties.caughtUp, receive_handshake, started]
  dsimp only
  rw [startSync_frames, hup]
  rfl

theorem stage_started (hsound : Sound counted) (session : Session)
    (hfresh : keyStore client = keyStore Client.new) (hstate : client.state ≠ .ready) :
    Stage counted [] (handshake.caughtUp (started counted session client)) := by
  let list := wires counted.flat
  have hlimit : (keyStore client).registry.maxKeys = 10000 := by rw [hfresh]; rfl
  obtain ⟨rest, hcaughtUp, hrest⟩ := caughtUp_started counted session hstate
  rw [hcaughtUp]
  refine ⟨hsound, rfl, rows counted.flat, Or.inr ⟨id, rfl⟩,
    Or.inl ⟨rfl, rfl, ?_, ?_, rest, rfl, hrest⟩⟩
  · rw [keyStore_announced]
    exact tracks_announced hsound hfresh
  · have hkeep := maxKeys_receive (keyStore client) (registrationFrames list)
    rw [← keyStore_receive client (isSyncFrame_registrationFrames list), ← keyStore_announced]
      at hkeep
    exact hkeep.trans hlimit

end Stages

end DanWs.HandshakeStages
