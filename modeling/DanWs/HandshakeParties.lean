import DanWs.Links
import DanWs.PrincipalReplication
import DanWs.Settlement

namespace DanWs.HandshakeParties

open DanWs.Clients
open DanWs.FiniteMaps
open DanWs.FlatStates
open DanWs.KeyFrameCache
open DanWs.KeyPaths
open DanWs.KeyRequests
open DanWs.KeyStores
open DanWs.Links
open DanWs.PrincipalReplication
open DanWs.Principals
open DanWs.Sessions
open DanWs.Settlement
open DanWs.SettlingKeys
open DanWs.StepRuns
open DanWs.WireRows
open DanWs.WireTypes

/-- The principal, and the session of the client, which is connected. -/
structure Host where
  counted : Counted
  session : Session

def recomputed (ptx : PrincipalTX) : PrincipalTX := { ptx with keyFramesCached := false }

section Parties

variable [HashOrder StdString]

/-- What the callbacks of `bindPrincipalTX` enqueue to the session: values if it
is `Ready`, and resyncs in any case. -/
def noticed (host : Host) : Operation → List Frame
  | .clear => emit host.counted .clear
  | .set key value =>
      if host.session.state = .ready then emit host.counted (.set key value) else []
  | .clearKey key =>
      if host.session.state = .ready then emit host.counted (.clearKey key) else []
  | .buildKeyFrames => []

def handshake : Parties Host Client Frame Frame Operation where
  call host operation :=
    ({ host with counted := count host.counted operation }, noticed host operation)
  serve host frame :=
    let outcome := host.session.handleFrame (some (recomputed host.counted.ptx)) frame
    ({ host with session := outcome.session }, outcome.frames)
  react client frame := ((client.handleFrame frame).client, (client.handleFrame frame).sent)

def started (counted : Counted) (session : Session) (client : Client) :
    Link Host Client Frame Frame :=
  let outcome := session.startSync (some (recomputed counted.ptx))
  ⟨⟨counted, outcome.session⟩, client, outcome.frames, []⟩

/-- A call comes before the session has processed `ClientReady`. -/
def InWindow (host : Host) (operation : Operation) : Prop :=
  host.session.state ≠ .ready ∧ Permitted host.counted operation

/-- The client has the keys and values of the principal, and no others. -/
def Exact (client : Client) (ptx : PrincipalTX) : Prop :=
  (∀ path, path ∈ client.keys ↔ path ∈ ptx.keys) ∧ ∀ path, client.get path = ptx.get path

def ClearsKeys (counted : Counted) : List Operation → Prop
  | [] => False
  | operation :: operations =>
      (operation = .clear ∧ counted.flat.entries ≠ ∅) ∨
        ClearsKeys (count counted operation) operations

/-- Whatever the order of the deliveries, all frames get processed, and then the
client is exact. -/
def Converges (link : Link Host Client Frame Frame) (calls : List Operation) : Prop :=
  ∀ events, Parties.callsOf events = calls →
    StepsMeet handshake.step (Parties.CallsMeet InWindow) link events →
      (Parties.Quiescent (run handshake.step link events) →
        Exact (run handshake.step link events).client
          (run handshake.step link events).server.counted.ptx) ∧
      ∃ more, Parties.callsOf more = [] ∧
        Parties.Quiescent (run handshake.step link (events ++ more))

theorem clearsKeys_append (counted : Counted) (first second : List Operation) :
    ClearsKeys counted (first ++ second) ↔
      ClearsKeys counted first ∨ ClearsKeys (run count counted first) second := by
  induction first generalizing counted with
  | nil => simp [ClearsKeys]
  | cons operation first ih => rw [List.cons_append, ClearsKeys, ClearsKeys, ih, or_assoc]; rfl

theorem receive_handshake (client : Client) (frames : List Frame) :
    handshake.receive client frames = client.receive frames := by
  induction frames generalizing client with
  | nil => rfl
  | cons frame frames ih =>
      rw [Parties.receive, ih]
      rfl

end Parties

section Exactness

variable [HashOrder StdString] {client : Client} {counted : Counted}

theorem mem_wires_paths (h : counted.flat.wirePrefix = []) {path : StdString} {entry : Entry} :
    (path, entry) ∈ wires counted.flat ↔ counted.flat.entries.lookup path = some entry := by
  have hpath : ∀ key, counted.flat.wirePath key = key := fun key => by
    rw [FlatState.wirePath, if_pos h]
  rw [mem_wires]
  constructor
  · rintro ⟨key, hentry, rfl⟩
    rwa [hpath]
  · intro hentry
    exact ⟨path, hentry, (hpath path).symm⟩

theorem mem_keys_iff_wire (h : counted.flat.wirePrefix = []) (path : StdString) :
    path ∈ counted.ptx.keys ↔ ∃ wire ∈ wires counted.flat, wire.1 = path := by
  rw [PrincipalTX.keys, FlatState.keys, HashOrder.order.mem_enumerate, mem_keys_iff_lookup]
  constructor
  · rintro ⟨entry, hentry⟩
    exact ⟨(path, entry), (mem_wires_paths h).mpr hentry, rfl⟩
  · rintro ⟨⟨_, entry⟩, hwire, rfl⟩
    exact ⟨entry, (mem_wires_paths h).mp hwire⟩

theorem exact_iff_copies (h : counted.flat.wirePrefix = []) :
    Exact client counted.ptx ↔ Copies (keyStore client) (wires counted.flat) := by
  have hclient : ∀ path, path ∈ client.keys ↔
      ∃ id, (keyStore client).registry.pathToId.lookup path = some id := by
    intro path
    rw [Client.keys, KeyRegistry.paths, HashOrder.order.mem_enumerate, mem_keys_iff_lookup]
    rfl
  have hget : ∀ wire ∈ wires counted.flat, counted.ptx.get wire.1 = wire.2.value := by
    rintro ⟨path, entry⟩ hwire
    rw [PrincipalTX.get, FlatState.get, (mem_wires_paths h).mp hwire]
  have hsame : ∀ path, client.get path = getIn (keyStore client) path := fun _ => rfl
  rw [Exact, Copies]
  simp only [hclient, mem_keys_iff_wire h, hsame]
  refine and_congr_right fun hpaths => ⟨fun hall wire hwire => ?_, fun hall path => ?_⟩
  · rw [hall, hget wire hwire]
  · by_cases hlive : ∃ wire ∈ wires counted.flat, wire.1 = path
    · obtain ⟨wire, hwire, rfl⟩ := hlive
      rw [hall wire hwire, hget wire hwire]
    · have hunknown : (keyStore client).registry.pathToId.lookup path = none :=
        Option.eq_none_iff_forall_ne_some.mpr fun id hid => hlive ((hpaths path).mp ⟨id, hid⟩)
      have habsent : counted.flat.entries.lookup path = none :=
        Option.eq_none_iff_forall_ne_some.mpr fun entry hentry =>
          hlive ⟨(path, entry), (mem_wires_paths h).mpr hentry, rfl⟩
      rw [getIn, KeyRegistry.getByPath, hunknown, PrincipalTX.get, FlatState.get, habsent]
      rfl

end Exactness

section Serving

variable [HashOrder StdString] {host : Host} {frame : Frame}

theorem wire_eq_of_path {counted : Counted} (h : counted.flat.wirePrefix = []) :
    ∀ wire ∈ wires counted.flat, ∀ other ∈ wires counted.flat, wire.1 = other.1 → wire = other := by
  rintro ⟨path, entry⟩ hwire ⟨_, other⟩ hother rfl
  rw [mem_wires_paths h] at hwire hother
  rw [Option.some.inj (hwire.symm.trans hother)]

theorem distinct_wires {counted : Counted} (h : Numbered counted) :
    Distinct (wires counted.flat) where
  path := wire_eq_of_path h.wirePrefix
  id _ hwire _ hother hid :=
    (wire_unique counted.flat (uniqueIds_rows h.ids) hwire hother hid.symm).symm

theorem nodup_wires_of {counted : Counted} : (wires counted.flat).Nodup :=
  (nodup_wires counted.flat).of_map _

theorem serve_request (h : Numbered host.counted)
    {wire : StdString × Entry} (hwire : wire ∈ wires host.counted.flat)
    (htype : frame.frameType = .clientKeyRequest) (hid : frame.keyId = wire.2.keyId) :
    handshake.serve host frame = (host, answer wire) := by
  have hexact : (recomputed host.counted.ptx).buildKeyFrames.2 =
      (recomputed host.counted.ptx).uncachedKeyFrames := rfl
  have hanswer : (host.session.handleKeyRequest (some (recomputed host.counted.ptx))
      wire.2.keyId).2 = answer wire :=
    handleKeyRequest_of_wire hexact (uniqueIds_rows h.ids) hwire
  simp only [handshake, Session.handleFrame, htype, hid, hanswer]

theorem serve_unsolicited (hready : host.session.state = .ready) (h : Unsolicited frame) :
    handshake.serve host frame = (host, []) := by
  have houtcome : (host.session.handleFrame (some (recomputed host.counted.ptx)) frame).session =
        host.session ∧
      (host.session.handleFrame (some (recomputed host.counted.ptx)) frame).frames = [] :=
    handleFrame_of_unsolicited hready h
  simp only [handshake, houtcome]

theorem serve_clientReady (hstate : host.session.state = .synchronizing)
    (hsync : host.session.serverSyncSent) (htype : frame.frameType = .clientReady) :
    handshake.serve host frame =
      ({ host with session := { host.session with state := .ready } },
        valueFrames (wires host.counted.flat)) := by
  have hne : ¬ host.session.state = .ready := by
    rw [hstate]
    exact SessionState.noConfusion
  simp only [handshake, Session.handleFrame, htype, if_neg hne, hsync, if_true, Option.map_some,
    Option.getD_some]
  rw [← buildValueFrames_eq]
  rfl

end Serving

end DanWs.HandshakeParties
