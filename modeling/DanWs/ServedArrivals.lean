import DanWs.ServerStreams
import DanWs.SessionArrivals

namespace DanWs.ServedArrivals

open DanWs.ByteReaders
open DanWs.ClientProgress
open DanWs.ClientReception (DanWebSocketClient)
open DanWs.Clients
open DanWs.ConnectionOwners
open DanWs.FanOut
open DanWs.FiniteMaps
open DanWs.FlatStates
open DanWs.KeyFrameCache
open DanWs.KeyPaths
open DanWs.KeyStores
open DanWs.PrincipalContents
open DanWs.PrincipalReplication
open DanWs.Principals
open DanWs.ReceivedFrames
open DanWs.ReceivedStores
open DanWs.Replication
open DanWs.ServedSessions
open DanWs.ServerStreams
open DanWs.Servers
open DanWs.SessionArrivals
open DanWs.SessionReadiness
open DanWs.Sessions
open DanWs.StepRuns
open DanWs.StockedStates
open DanWs.WatchedSessions
open DanWs.WireRows
open DanWs.WireTypes

section Stages

variable [HashOrder StdString] {maxBufferSize : Nat} {held : PrincipalTX} {client : Client}

/-- What a session is told of the keys of its principal, behind an answer to the
authorization if there was one. -/
def announced (opening : List Frame) (held : PrincipalTX) : List Frame :=
  opening ++ (registrationFrames (wires held.flatState) ++ [signalFrame .serverSync])

/-- What a principal holds can be told of in full. -/
structure Offered (maxBufferSize : Nat) (held : PrincipalTX) : Prop where
  numbered : Numbered (countedOf held)
  fits : held.flatState.entries.keys.card ≤ 10000
  sendable : ∀ wire ∈ wires held.flatState, Sendable maxBufferSize wire

omit [HashOrder StdString] in
theorem keyStore_opening {opening : List Frame} (h : opening = [] ∨ opening = [authOkFrame])
    (client : Client) : keyStore (client.receive opening).1 = keyStore client := by
  rcases h with rfl | rfl <;> rfl

theorem carried_announced (hroom : pathRoom ≤ maxBufferSize) {opening : List Frame}
    (hopening : opening = [] ∨ opening = [authOkFrame]) (h : Offered maxBufferSize held) :
    ∀ frame ∈ announced opening held, Carried maxBufferSize frame := by
  rw [announced, registrationFrames, List.forall_mem_append, List.forall_mem_append,
    List.forall_mem_singleton, List.forall_mem_map]
  refine ⟨?_, fun wire hwire => ?_, carried_signalFrame hroom rfl⟩
  · rcases hopening with rfl | rfl
    · simp
    · rw [List.forall_mem_singleton]
      exact carried_signalFrame hroom rfl
  · exact carried_registrationFrame hroom (h.sendable wire hwire).valid wire.2

theorem carried_valueFrames (h : Offered maxBufferSize held) :
    ∀ frame ∈ valueFrames (wires held.flatState), Carried maxBufferSize frame := by
  rw [valueFrames, List.forall_mem_map]
  intro wire hwire
  exact carried_valueFrame (h.sendable wire hwire).typed (h.sendable wire hwire).value

/-- The client knows the keys, and has none of the values. -/
structure Informed (held : PrincipalTX) (client : Client) : Prop where
  keys : ∃ keys, Reads keys (keyStore client) ∧ Tracks keys (rows held.flatState) ∅ ∧
    keys.registry.maxKeys = 10000

theorem isSyncFrame_announced (held : PrincipalTX) :
    ∀ frame ∈ registrationFrames (wires held.flatState) ++ [signalFrame .serverSync],
      isSyncFrame frame := by
  rw [List.forall_mem_append, List.forall_mem_singleton]
  exact ⟨isSyncFrame_registrationFrames _, rfl⟩

omit [HashOrder StdString] in
theorem isSyncFrame_received {frames : List Frame} (h : ∀ frame ∈ frames, isSyncFrame frame) :
    ∀ frame ∈ frames.map receivedFrame, isSyncFrame frame := by
  rw [List.forall_mem_map]
  intro frame hframe
  rw [receivedFrame_fields]
  exact h frame hframe

theorem mem_rows_of_wires {wire : StdString × Entry} (hwire : wire ∈ wires held.flatState) :
    wireRow wire.1 wire.2 ∈ rows held.flatState := by
  rw [← wireRows_wires]
  exact mem_wireRows.mpr ⟨wire, hwire, rfl⟩

theorem informed_announced (hoffered : Offered maxBufferSize held)
    (hfresh : keyStore client = keyStore Client.new) {opening : List Frame}
    (hopening : opening = [] ∨ opening = [authOkFrame]) :
    Informed held (client.receive ((announced opening held).map receivedFrame)).1 := by
  have hmap : opening.map receivedFrame = opening := by
    rcases hopening with rfl | rfl <;> rfl
  have hnamed := tracks_registrations hoffered.numbered.wellKeyed
    (((card_rows_le held.flatState).trans hoffered.fits).trans_eq rfl)
    (fun wire hwire => ⟨mem_rows_of_wires hwire, (hoffered.sendable wire hwire).valid⟩)
    (Finset.empty_subset _) (tracks_reset (keyStore Client.new))
  rw [Finset.empty_union, wireRows_wires] at hnamed
  have hstored : keyStore (client.receive ((announced opening held).map receivedFrame)).1 =
      (keyStore Client.new).receive ((registrationFrames (wires held.flatState) ++
        [signalFrame .serverSync]).map receivedFrame) := by
    rw [announced, List.map_append, hmap, receive_fst_append,
      keyStore_receive _ (isSyncFrame_received (isSyncFrame_announced held)),
      keyStore_opening hopening, hfresh]
  refine ⟨(keyStore Client.new).receive (registrationFrames (wires held.flatState) ++
    [signalFrame .serverSync]), ?_, ?_, ?_⟩
  · rw [hstored]
    exact reads_receive reads_new _
  · rw [KeyStore.receive_append]
    exact hnamed
  · exact maxKeys_receive _ _

theorem follows_values (hoffered : Offered maxBufferSize held) (h : Informed held client) :
    ∃ keys, Reads keys (keyStore (client.receive
        ((valueFrames (wires held.flatState)).map receivedFrame)).1) ∧
      Follows (countedOf held) keys := by
  obtain ⟨keys, hreads, htracks, hlimit⟩ := h.keys
  have hheld := tracks_values hoffered.numbered.wellKeyed (fun wire => mem_rows_of_wires)
    (Finset.empty_subset _) htracks
  rw [Finset.empty_union, wireRows_wires] at hheld
  refine ⟨keys.receive (valueFrames (wires held.flatState)), ?_, hoffered.numbered, hheld,
    (maxKeys_receive _ _).trans hlimit⟩
  rw [keyStore_receive _ (isSyncFrame_received (isSyncFrame_valueFrames _))]
  exact reads_receive hreads _

variable [HashOrder Addr] {session : Session} {uuid name : StdString} {a : Addr} {ws : ConnId}
  {server : Server} {reader : Reader} {frame : Frame} {now : Nat}

/-- A reader at rest is at rest again behind the bytes of an event, and its client has
handled the frames among them. -/
theorem foldl_read_emitted {event : Servers.Event} {frames : List Frame}
    (hframes : framesOn ws (step server event).history = framesOn ws server.history ++ frames)
    (hcarried : ∀ frame ∈ frames, Carried maxBufferSize frame) :
    (emitted server event ws).foldl Reader.read ⟨.new maxBufferSize, client⟩ =
      ⟨.new maxBufferSize, (client.receive (frames.map receivedFrame)).1⟩ := by
  obtain ⟨effects, hhistory⟩ := history_run server [event]
  rw [run_cons, run_nil] at hhistory
  rw [hhistory, framesOn_append, List.append_cancel_left_eq] at hframes
  subst hframes
  rw [emitted_of_history hhistory, foldl_read_bytesOn hcarried]

/-- The session waits for its client, and the reader is at rest with a client that knows
the keys. -/
structure Introduced (maxBufferSize : Nat) (session : Session) (uuid name : StdString) (a : Addr)
    (ws : ConnId) (held : PrincipalTX) (server : Server) (reader : Reader) : Prop where
  awaits : Awaits session uuid name a ws (framesOn ws server.history) held server
  parser : reader.parser = .new maxBufferSize
  informed : Informed held reader.client

theorem introduced_step (hbound : held.bound)
    (h : Introduced maxBufferSize session uuid name a ws held server reader)
    {event : Servers.Event} (hpasses : PassesBy name a ws server event) :
    Introduced maxBufferSize session uuid name a ws held (step server event)
      ((emitted server event ws).foldl Reader.read reader) := by
  obtain ⟨parser, client⟩ := reader
  obtain ⟨hawaits, rfl, hinformed⟩ := h
  have hnext := awaits_step hbound server event hawaits hpasses
  have hframes := hnext.watched.frames
  have hnone : ∀ frame ∈ ([] : List Frame), Carried maxBufferSize frame := by simp
  rw [foldl_read_emitted (hframes.trans (List.append_nil _).symm) hnone]
  rw [← hframes] at hnext
  exact ⟨hnext, rfl, hinformed⟩

theorem introduced_arrival (hroom : pathRoom ≤ maxBufferSize)
    (h : Arrives uuid ws server frame) (hknown : Known server) (howned : Owned server)
    (htopic : server.isTopicMode = false)
    (hname : server.effectivePrincipal server.defaultPrincipal = name)
    (hexact : BuildsExactly (server.principals.principal name).2)
    (hoffered : Offered maxBufferSize (contents server.principals name))
    (hfresh : keyStore client = keyStore Client.new) (now : Nat) :
    Introduced maxBufferSize (newSession uuid server.defaultPrincipal name) uuid name
      server.nextAddr ws (contents server.principals name) (step server (.frame ws frame now))
      ((emitted server (.frame ws frame now) ws).foldl Reader.read
        ⟨.new maxBufferSize, client⟩) := by
  obtain ⟨hwatched, hseated⟩ := watched_arrival h hknown howned htopic hname hexact now
  have hframes := hwatched.frames
  have hcarried := carried_announced hroom (.inl rfl) hoffered
  rw [foldl_read_emitted hframes hcarried]
  rw [← hframes] at hwatched
  have hcontents : contents (step server (.frame ws frame now)).principals name =
      contents server.principals name := contents_step h.defined name (.frame ws frame now)
  exact ⟨⟨hwatched, hseated, owned_step howned _, hcontents⟩, rfl,
    informed_announced hoffered hfresh (.inl rfl)⟩

theorem linked_clientReady
    (h : Introduced maxBufferSize session uuid name a ws held server reader)
    (hoffered : Offered maxBufferSize held) (hannounced : Announced name session)
    (hdefined : server.undefinedBehaviour = false) (htopic : server.isTopicMode = false)
    (hpasses : (server.limitFrame ws now).2) (hframe : frame.frameType = .clientReady) :
    Linked maxBufferSize name a ws (step server (.frame ws frame now))
      ((emitted server (.frame ws frame now) ws).foldl Reader.read reader) := by
  obtain ⟨parser, client⟩ := reader
  obtain ⟨hawaits, rfl, hinformed⟩ := h
  obtain ⟨hwatched, hcontents⟩ := watched_clientReady hoffered.numbered.bound hawaits hannounced
    hdefined htopic hpasses hframe
  have hframes := hwatched.frames
  rw [foldl_read_emitted hframes (carried_valueFrames hoffered)]
  have hsession := hwatched.session_eq
  rw [← hframes, ← hsession] at hwatched
  obtain ⟨keys, hreads, hfollows⟩ := follows_values hoffered hinformed
  refine ⟨hwatched, ?_, owned_step hawaits.owned _, rfl, keys, hreads, ?_⟩
  · rw [hsession]
  · rwa [hcontents]

end Stages

section Joining

variable [HashOrder StdString] [HashOrder Addr] {session : Session} {uuid name : StdString}
  {a : Addr} {ws : ConnId} {held : PrincipalTX} {server : Server} {reader : Reader}
  {ready : Frame} {later : Nat} {during after : List Servers.Event}

/-- From the keys on: others are served, the client says that it is ready, and the session
is left alone. -/
theorem linked_introduced
    (h : Introduced DanWebSocketClient.maxBufferSize session uuid name a ws held server reader)
    (hoffered : Offered DanWebSocketClient.maxBufferSize held) (hannounced : Announced name session)
    (hpass : StepsMeet step (PassesBy name a ws) server during)
    (hdefined : (run step server during).undefinedBehaviour = false)
    (htopic : server.isTopicMode = false)
    (hlimit : ((run step server during).limitFrame ws later).2)
    (hready : ready.frameType = .clientReady)
    (hallowed : StepsMeet step (Allowed DanWebSocketClient.maxBufferSize name a ws)
      (step (run step server during) (.frame ws ready later)) after) :
    let events := during ++ .frame ws ready later :: after
    Linked DanWebSocketClient.maxBufferSize name a ws (run step server events)
      ((outputs step (fun server event => emitted server event ws) server events).foldl Reader.read
        reader) := by
  intro events
  have hwaiting : ∀ server reader event,
      Introduced DanWebSocketClient.maxBufferSize session uuid name a ws held server reader →
      PassesBy name a ws server event →
      Introduced DanWebSocketClient.maxBufferSize session uuid name a ws held (step server event)
        ((emitted server event ws).foldl Reader.read reader) :=
    fun _ _ _ hintroduced hpasses =>
      introduced_step hoffered.numbered.bound hintroduced hpasses
  have hserving : ∀ server reader event,
      Linked DanWebSocketClient.maxBufferSize name a ws server reader →
      Allowed DanWebSocketClient.maxBufferSize name a ws server event →
      Linked DanWebSocketClient.maxBufferSize name a ws (step server event)
        ((emitted server event ws).foldl Reader.read reader) :=
    fun _ _ _ hlinked hevent => linked_step (by decide) hlinked hevent
  have hmode : (run step server during).isTopicMode = false := by
    rw [Server.isTopicMode, mode_run]
    exact htopic
  have hlinked := linked_clientReady (related_run hwaiting h hpass) hoffered hannounced hdefined
    hmode hlimit hready
  rw [run_append, outputs_append, List.foldl_append, run_cons, outputs, List.foldl_append]
  exact related_run hserving hlinked hallowed

end Joining

section Example

def stockedEvents : List Servers.Event :=
  [.set (str "pi") (.double 0x400921FB54442D18), .connect 1 false,
    .set (str "s") (.string (str "v")), .connect 2 false]

def stocked : Server :=
  @run _ _ (@step (HashOrder.ascending StdString) (HashOrder.ascending Addr))
    (Server.new .broadcast) stockedEvents

def firstFrame : Frame := Server.identifyFrame (List.replicate 16 0)

def betweenEvents : List Servers.Event :=
  [.frame 2 (Server.identifyFrame (List.replicate 16 1)) 0, .heartbeatSend 0,
    .frame 2 (signalFrame .clientReady) 0]

def laterEvents : List Servers.Event :=
  [.set (str "pi") .null, .frame 2 ⟨.clientKeyRequest, 1, .null, .null⟩ 0, .closed 2,
    .clearKey (str "s"), .set (str "k") (.int32 1)]

def joiningEvents : List (FanOut.Event ConnId Servers.Event) :=
  .call (.frame 1 firstFrame 0) :: .deliver 1 9 :: betweenEvents.map .call ++ .deliver 1 40 ::
    .call (.frame 1 (signalFrame .clientReady) 0) :: laterEvents.map .call

end Example

end DanWs.ServedArrivals
