import DanWs.ReturningClients

/-!
A client that was in sync, lost its connection and comes back to a principal that
may have changed. It has its keys still, and `_startSync` announces those of the
principal without a reset.
-/

namespace DanWs.Reconvergence

open DanWs.ClientLifecycle
open DanWs.ClientProgress
open DanWs.Clients
open DanWs.FiniteMaps
open DanWs.FlatStates
open DanWs.HandshakeParties
open DanWs.HandshakeStages
open DanWs.Handshakes
open DanWs.KeyFrameCache
open DanWs.KeyPaths
open DanWs.KeyRequests
open DanWs.KeyStores
open DanWs.LeftoverKeys
open DanWs.Links hiding Event
open DanWs.PrincipalReplication
open DanWs.Principals
open DanWs.Replication
open DanWs.ReturningClients
open DanWs.Sessions
open DanWs.Settlement
open DanWs.StepRuns
open DanWs.WireRows
open DanWs.WireTypes

section Together

variable [HashOrder StdString] {counted : Counted} {session : Session} {client : Client}
  {link : Link Host Client Frame Frame}

/-- The session waits for `ClientReady`, and the client knows all keys. -/
structure Waits (counted : Counted) (link : Link Host Client Frame Frame) : Prop where
  counted_eq : link.server.counted = counted
  state : link.server.session.state = .synchronizing
  sync : link.server.session.serverSyncSent
  registered : Registered (wires counted.flat) (keyStore link.client).registry
  up : ∃ rest, link.up = signalFrame .clientReady :: rest ∧ ∀ frame ∈ rest, Unsolicited frame

/-- The values have been sent, and the client asks for nothing. -/
structure Served (counted : Counted) (link : Link Host Client Frame Frame) : Prop where
  counted_eq : link.server.counted = counted
  state : link.server.session.state = .ready
  copies : Copies (keyStore link.client) (wires counted.flat) ↔ Unambiguous (wires counted.flat)
  up : ∀ frame ∈ link.up, Unsolicited frame

theorem served_of_waits {server : Host} {frame : Frame} {up : List Frame}
    (h : Waits counted ⟨server, client, [], frame :: up⟩) :
    Served counted (handshake.advance ⟨server, client, [], frame :: up⟩) := by
  obtain rfl : server.counted = counted := h.counted_eq
  obtain ⟨rest, hup, hrest⟩ := h.up
  obtain ⟨rfl, rfl⟩ := List.cons.inj hup
  have hsync := isSyncFrame_valueFrames (wires server.counted.flat)
  have hknown := fun wire hwire => (h.registered.known wire hwire).imp fun _ => And.left
  rw [advance_eq, serve_clientReady h.state h.sync rfl]
  refine ⟨rfl, rfl, ?_, fun frame hframe => ?_⟩
  · dsimp only
    rw [keyStore_receive client hsync]
    exact copies_iff_unambiguous h.registered
  · rcases List.mem_append.mp hframe with hframe | hframe
    · exact hrest frame hframe
    · exact unsolicited_receive hsync (receive_values hknown).2 frame hframe

theorem advance_served {server : Host} {frame : Frame} {up : List Frame}
    (h : Served counted ⟨server, client, [], frame :: up⟩) :
    handshake.advance ⟨server, client, [], frame :: up⟩ = ⟨server, client, [], up⟩ := by
  rw [advance_eq, serve_unsolicited h.state (h.up frame List.mem_cons_self), Client.receive,
    List.append_nil]

theorem served_advance {server : Host} {frame : Frame} {up : List Frame}
    (h : Served counted ⟨server, client, [], frame :: up⟩) :
    Served counted ⟨server, client, [], up⟩ :=
  ⟨h.counted_eq, h.state, h.copies, fun other hother => h.up other (List.mem_cons_of_mem _ hother)⟩

theorem waits_started (session : Session) (hstate : client.state ≠ .ready)
    (hregistered : Registered (wires counted.flat)
      ((keyStore client).receive (registrationFrames (wires counted.flat))).registry) :
    Waits counted (handshake.caughtUp (started counted session client)) := by
  obtain ⟨rest, hcaughtUp, hrest⟩ := caughtUp_started counted session hstate
  rw [hcaughtUp]
  refine ⟨rfl, rfl, rfl, ?_, rest, rfl, hrest⟩
  dsimp only
  rw [keyStore_announced, keyStore_receive client (isSyncFrame_registrationFrames _)]
  exact hregistered

/-- First `ClientReady` is awaited, and then the frames on their way are passed over. -/
def Rank (counted : Counted) (r : Nat × Nat) (link : Link Host Client Frame Frame) : Prop :=
  Waits counted link ∧ r = (1, 0) ∨ Served counted link ∧ r = (0, link.up.length)

theorem rank_advance {server : Host} {frame : Frame} {up : List Frame} {r : Nat × Nat}
    (h : Rank counted r ⟨server, client, [], frame :: up⟩) :
    ∃ r', Prod.Lex (· < ·) (· < ·) r' r ∧
      Rank counted r' (handshake.advance ⟨server, client, [], frame :: up⟩) := by
  rcases h with ⟨hwaits, rfl⟩ | ⟨hserved, rfl⟩
  · exact ⟨_, Prod.Lex.left _ _ Nat.zero_lt_one, Or.inr ⟨served_of_waits hwaits, rfl⟩⟩
  · refine ⟨(0, up.length), Prod.Lex.right _ (Nat.lt_succ_self up.length), ?_⟩
    rw [advance_served hserved]
    exact Or.inr ⟨served_advance hserved, rfl⟩

theorem rank_deliveries (session : Session) (hstate : client.state ≠ .ready)
    (hregistered : Registered (wires counted.flat)
      ((keyStore client).receive (registrationFrames (wires counted.flat))).registry)
    {events : List (Links.Event Operation)} (hcalls : Parties.callsOf events = []) :
    ∃ r, Rank counted r
      (handshake.caughtUp (run handshake.step (started counted session client) events)) := by
  refine @invariant_deliveries _ (fun link => ∃ r, Rank counted r link)
    (fun _ _ _ _ hrank => ?_) _ ?_ events hcalls
  · obtain ⟨r, hr⟩ := hrank
    exact (rank_advance hr).imp fun _ => And.right
  · exact ⟨_, Or.inl ⟨waits_started session hstate hregistered, rfl⟩⟩

theorem served_of_quiescent {r : Nat × Nat} (h : Rank counted r link)
    (hquiescent : Parties.Quiescent link) : Served counted link := by
  rcases h with ⟨hwaits, _⟩ | ⟨hserved, _⟩
  · obtain ⟨rest, hup, _⟩ := hwaits.up
    rw [hquiescent.2] at hup
    cases hup
  · exact hserved

/-- A client that knows all keys gets all values, and the exchange comes to its end. -/
theorem converges_iff_unambiguous (hstart : counted.flat.wirePrefix = []) (session : Session)
    (hstate : client.state ≠ .ready)
    (hregistered : Registered (wires counted.flat)
      ((keyStore client).receive (registrationFrames (wires counted.flat))).registry) :
    Converges (started counted session client) [] ↔ Unambiguous (wires counted.flat) := by
  have hexact : ∀ events, Parties.callsOf events = [] →
      Parties.Quiescent (run handshake.step (started counted session client) events) →
      (Exact (run handshake.step (started counted session client) events).client
          (run handshake.step (started counted session client) events).server.counted.ptx ↔
        Unambiguous (wires counted.flat)) := by
    intro events hcalls hquiescent
    obtain ⟨r, hr⟩ := rank_deliveries session hstate hregistered hcalls
    rw [handshake.caughtUp_of_quiescent hquiescent] at hr
    have hserved := served_of_quiescent hr hquiescent
    rw [hserved.counted_eq, exact_iff_copies hstart]
    exact hserved.copies
  constructor
  · intro hconverges
    obtain ⟨events, hcalls, hquiescent, hlast⟩ := exists_exact hconverges
    exact (hexact events hcalls hquiescent).mp hlast
  · intro hshared events hcalls _
    refine ⟨fun hquiescent => (hexact events hcalls hquiescent).mpr hshared, ?_⟩
    obtain ⟨r, hr⟩ := rank_deliveries session hstate hregistered hcalls
    obtain ⟨more, hmore, hquiescent⟩ := Parties.exists_quiescent
      (WellFounded.prod_lex wellFounded_lt wellFounded_lt) (fun _ _ _ _ _ hr => rank_advance hr) hr
    refine ⟨more, hmore, ?_⟩
    rw [run_append]
    exact hquiescent

end Together

section Reconnecting

variable [HashOrder StdString] {client : Client} {ptx : PrincipalTX}

theorem wirePrefix_run (name : StdString) (history : List Operation) :
    (run count (Counted.new name) history).flat.wirePrefix = [] := by
  have hrun : ∀ counted : Counted,
      (run count counted history).flat.wirePrefix = counted.flat.wirePrefix := by
    induction history with
    | nil => exact fun _ => rfl
    | cons operation history ih =>
        intro counted
        exact (ih (count counted operation)).trans (wirePrefix_count counted operation)
  exact hrun (Counted.new name)

theorem mem_keys_iff_path (h : Exact client ptx) (path : StdString) :
    path ∈ ptx.keys ↔ path ∈ client.registry.pathToId.keys := by
  rw [← h.1, Client.keys, KeyRegistry.paths, HashOrder.order.mem_enumerate]

/-- A client that comes back converges if and only if none of its keys has gone,
its registry has room for all keys of the principal behind those it has, and no
two keys of different values share an id. -/
theorem reconverges_iff {live : LiveClient} {old : PrincipalTX} (hsync : Exact live.client old)
    {offline admission : List Event} (hoffline : ∀ event ∈ offline, Silent event)
    (hopening : (run step live offline).client.socket = some false)
    (hrunning : (run step live (offline ++ [.opened])).terminated = false)
    (hadmission : ∀ event ∈ admission, Admits event)
    {counted : Counted} {name : StdString} {history : List Operation}
    (hcounted : counted = run count (Counted.new name) history)
    (hvalid : ∀ key ∈ counted.ptx.keys, checkKeyPath key = .ok ()) (session : Session) :
    Converges (started counted session
        (run step live (offline ++ .opened :: admission)).client) [] ↔
      (∀ key ∈ old.keys, key ∈ counted.ptx.keys) ∧
        FindsRoom live.client.registry (wires counted.flat) ∧ Unambiguous (wires counted.flat) := by
  obtain ⟨hkeys, hstate⟩ := admitted_reopened hoffline hopening hrunning hadmission
  have hstart : counted.flat.wirePrefix = [] := hcounted ▸ wirePrefix_run name history
  have hchecked : ∀ wire ∈ wires counted.flat, checkKeyPath wire.1 = .ok () := fun wire hwire =>
    hvalid wire.1 ((mem_keys_iff_wire hstart wire.1).mpr ⟨wire, hwire, rfl⟩)
  generalize (run step live (offline ++ .opened :: admission)).client = client at hkeys hstate
  have hregistered : (∀ key ∈ old.keys, key ∈ counted.ptx.keys) →
      FindsRoom live.client.registry (wires counted.flat) →
      Registered (wires counted.flat)
        ((keyStore client).receive (registrationFrames (wires counted.flat))).registry := by
    intro hkept hroom
    rw [hkeys]
    refine registered_of_room (wire_eq_of_path hstart) hchecked hroom fun path hpath => ?_
    exact (mem_keys_iff_wire hstart path).mp (hkept path ((mem_keys_iff_path hsync path).mpr hpath))
  constructor
  · intro hconverges
    have htogether : ¬ Apart (wires counted.flat)
        ((keyStore live.client).receive (registrationFrames (wires counted.flat))).registry := by
      intro hapart
      rw [← hkeys] at hapart
      exact not_converges_of_apart hstart session hstate hapart hconverges
    have hkept : ∀ key ∈ old.keys, key ∈ counted.ptx.keys := by
      intro key hkey
      by_contra hgone
      refine htogether (apart_receive (offered_registrationFrames fun _ hwire => hwire)
        (.kept key ((mem_keys_iff_path hsync key).mp hkey) fun wire hwire hpath => ?_))
      exact hgone ((mem_keys_iff_wire hstart key).mpr ⟨wire, hwire, hpath⟩)
    have hroom : FindsRoom live.client.registry (wires counted.flat) := by
      by_contra hfull
      exact htogether (apart_of_no_room (fun _ hwire => hwire) hchecked hfull)
    refine ⟨hkept, hroom, ?_⟩
    exact (converges_iff_unambiguous hstart session hstate (hregistered hkept hroom)).mp hconverges
  · rintro ⟨hkept, hroom, hshared⟩
    exact (converges_iff_unambiguous hstart session hstate (hregistered hkept hroom)).mpr hshared

end Reconnecting

section Example

local instance stringOrder : HashOrder StdString := HashOrder.ascending StdString

def firstEntry : Entry := ⟨1, .varInteger, .int32 1⟩

def firstConnection : List Event :=
  [.connect .starts .starts, .opened] ++
    [registrationFrame (str "a") firstEntry, signalFrame .serverSync,
      FlatState.valueFrame firstEntry].map fun frame => .input (.frame frame)

def inSync : LiveClient :=
  run step (LiveClient.new (List.replicate 16 0) ⟨true, 10⟩) firstConnection

def outage : List Event := [.closed .starts, .timer .starts]

theorem silent_outage : ∀ event ∈ outage, Silent event := by
  intro event hevent frame hframe
  subst hframe
  simp [outage] at hevent

theorem exact_inSync : Exact inSync.client announced.ptx := by
  have hwires : wires announced.flat = [(str "a", firstEntry)] := by decide +kernel
  have hpaths : (keyStore inSync.client).registry.pathToId.keys = {str "a"} := by decide +kernel
  have hvalue : getIn (keyStore inSync.client) (str "a") = firstEntry.value := by decide +kernel
  rw [exact_iff_copies rfl, hwires]
  refine ⟨fun path => ?_, fun wire hwire => ?_⟩
  · rw [← mem_keys_iff_lookup, hpaths]
    simp [eq_comm]
  · rw [List.mem_singleton.mp hwire]
    exact hvalue

/-- While the client is away, its key is dropped and comes back, with another one. -/
def changes : List Operation :=
  [.set (str "a") (.int32 1), .clear, .set (str "b") (.int32 3), .set (str "a") (.int32 2)]

theorem reconverges_changes :
    Converges (started (run count (Counted.new (str "p")) changes) (Session.new (str "u"))
      (run step inSync (outage ++ .opened :: [.input (.authorize (str "t"))])).client) [] :=
  (reconverges_iff exact_inSync silent_outage (by decide +kernel) (by decide +kernel)
    (by simp [Admits]) rfl (by decide +kernel) _).mpr
    ⟨by decide +kernel, by decide +kernel, by decide +kernel⟩

/-- A key that is cleared while the client is away stays with the client. -/
theorem not_reconverges :
    ¬ ∀ (_ : HashOrder StdString) (uuidBytes : List UInt8) (options : ReconnectOptions)
      (past offline : List Event) (name uuid : StdString) (before after : List Operation),
      StepsMeet count Permitted (Counted.new name) (before ++ after) →
      Exact (run step (LiveClient.new uuidBytes options) past).client
        (run count (Counted.new name) before).ptx →
      (∀ event ∈ offline, Silent event) →
      (run step (LiveClient.new uuidBytes options) (past ++ offline)).client.socket = some false →
      (run step (LiveClient.new uuidBytes options)
        (past ++ offline ++ [.opened])).terminated = false →
      Converges (started (run count (Counted.new name) (before ++ after)) (Session.new uuid)
        (run step (LiveClient.new uuidBytes options) (past ++ offline ++ [.opened])).client)
        [] := by
  intro h
  have hconverges := h stringOrder (List.replicate 16 0) ⟨true, 10⟩ firstConnection outage
    (str "p") (str "u") [.set (str "a") (.int32 1)] [.clearKey (str "a")] (by decide +kernel)
    exact_inSync silent_outage (by decide +kernel) (by decide +kernel)
  have hexact := (hconverges [.toClient, .toServer] rfl ⟨trivial, trivial, trivial⟩).1
    ⟨by decide +kernel, by decide +kernel⟩
  have hghost := (hexact.1 (str "a")).mp (by decide +kernel)
  exact absurd hghost (by decide +kernel)

end Example

end DanWs.Reconvergence
