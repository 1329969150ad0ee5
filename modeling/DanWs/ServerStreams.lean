import DanWs.ByteReaders
import DanWs.ClientReception
import DanWs.FanOut
import DanWs.ReceivedStores
import DanWs.ServedSessions
import DanWs.SessionReadiness
import DanWs.StockedStates

/-!
A server and the readers at the other ends of its connections. Calls, frames and ends of
connections come to the server in any order, the bytes on each connection arrive in
pieces of any size, and the client of a session that is left alone stays a copy of what
its principal holds.
-/

namespace DanWs.ServerStreams

open DanWs.Allocations
open DanWs.ByteReaders
open DanWs.ClientReception (DanWebSocketClient)
open DanWs.Clients
open DanWs.Codec
open DanWs.ConnectionOwners
open DanWs.FanOut
open DanWs.FiniteMaps
open DanWs.KeyFrameCache
open DanWs.KeyStores
open DanWs.PrincipalContents
open DanWs.PrincipalReplication
open DanWs.Principals
open DanWs.ReceivedFrames
open DanWs.ReceivedStores
open DanWs.Replication
open DanWs.ServedSessions
open DanWs.Servers
open DanWs.SessionReadiness
open DanWs.StepRuns
open DanWs.StockedStates
open DanWs.StreamDelivery
open DanWs.StreamParsing
open DanWs.StreamRecovery
open DanWs.WatchedSessions
open DanWs.WireRows
open DanWs.WireTypes

section Bytes

variable {ws : ConnId}

def bytesOf (ws : ConnId) : Effect → List UInt8
  | .sent other frame => if other = ws then wire [frame] else []
  | .sentHeartbeat other => if other = ws then encodeHeartbeat else []
  | _ => []

/-- The bytes that have been sent on a connection, in order. -/
def bytesOn (ws : ConnId) (history : List Effect) : List UInt8 :=
  history.reverse.flatMap (bytesOf ws)

theorem bytesOn_append (later earlier : List Effect) :
    bytesOn ws (later ++ earlier) = bytesOn ws earlier ++ bytesOn ws later := by
  rw [bytesOn, List.reverse_append, List.flatMap_append]
  rfl

theorem bytesOn_cons (effect : Effect) (history : List Effect) :
    bytesOn ws (effect :: history) = bytesOn ws history ++ bytesOf ws effect := by
  have hone : bytesOn ws [effect] = bytesOf ws effect := List.flatMap_singleton _ _
  rw [← hone, ← bytesOn_append]
  rfl

theorem feed_bytesOn {maxBufferSize : Nat} {effects : List Effect}
    (h : ∀ frame ∈ framesOn ws effects, Carried maxBufferSize frame) :
    ∃ events, StreamParser.feed (.new maxBufferSize) (bytesOn ws effects) =
        (.new maxBufferSize, events) ∧
      deliveredFrames events = (framesOn ws effects).map receivedFrame := by
  induction effects with
  | nil => exact ⟨[], rfl, rfl⟩
  | cons effect effects ih =>
      rw [framesOn_cons, List.forall_mem_append] at h
      obtain ⟨events, hfeed, hdelivered⟩ := ih h.1
      have hlast : ∃ later, StreamParser.feed (.new maxBufferSize) (bytesOf ws effect) =
            (.new maxBufferSize, later) ∧
          deliveredFrames later = (frameOn ws effect).toList.map receivedFrame := by
        cases effect with
        | sent other frame =>
            rcases eq_or_ne other ws with rfl | hne
            · have hcarried : ∀ sent ∈ [frame], Carried maxBufferSize sent := by
                simpa [frameOn] using h.2
              have hframe : frameOn other (.sent other frame) = some frame := if_pos rfl
              rw [bytesOf, if_pos rfl, hframe]
              exact ⟨_, feed_wire hcarried, rfl⟩
            · rw [bytesOf, if_neg hne, frameOn_sent_of_ne hne]
              exact ⟨[], rfl, rfl⟩
        | sentHeartbeat other =>
            rw [bytesOf]
            split
            · exact ⟨_, feed_encodeHeartbeat _, rfl⟩
            · exact ⟨[], rfl, rfl⟩
        | _ => exact ⟨[], rfl, rfl⟩
      obtain ⟨later, hlater, hframe⟩ := hlast
      refine ⟨events ++ later, ?_, ?_⟩
      · rw [bytesOn_cons, StreamParser.feed_append, hfeed]
        dsimp only
        rw [hlater]
      · rw [deliveredFrames_append, hdelivered, hframe, framesOn_cons, List.map_append]

theorem foldl_read_bytesOn {maxBufferSize : Nat} {effects : List Effect}
    (h : ∀ frame ∈ framesOn ws effects, Carried maxBufferSize frame) (client : Client) :
    (bytesOn ws effects).foldl Reader.read ⟨.new maxBufferSize, client⟩ =
      ⟨.new maxBufferSize, (client.receive ((framesOn ws effects).map receivedFrame)).1⟩ := by
  obtain ⟨events, hfeed, hdelivered⟩ := feed_bytesOn h
  rw [Reader.foldl_read]
  dsimp only
  rw [hfeed]
  dsimp only
  rw [hdelivered]

end Bytes

section Parties

variable [HashOrder StdString] [HashOrder Addr]

def emitted (server : Server) (event : Servers.Event) (ws : ConnId) : List UInt8 :=
  (bytesOn ws (step server event).history).drop (bytesOn ws server.history).length

def parties : Parties ConnId Server Reader UInt8 Servers.Event where
  call := step
  emit := emitted
  consume := Reader.read

theorem emitted_of_history {server : Server} {event : Servers.Event} {effects : List Effect}
    (h : (step server event).history = effects ++ server.history) (ws : ConnId) :
    emitted server event ws = bytesOn ws effects := by
  rw [emitted, h, bytesOn_append, List.drop_left]

end Parties

section Numbers

def countedOf (ptx : PrincipalTX) : Counted := ⟨ptx, (ptx.nextKeyId - 1).toNat⟩

theorem toNat_counterFrom {count : Nat} (h : count < 2 ^ 32) :
    (counterFrom 1 count - 1).toNat = count := by
  rw [counterFrom, UInt32.add_comm, UInt32.add_sub_cancel]
  exact UInt32.toNat_ofNat_of_lt' h

theorem numbered_plain {counted : Counted} (h : Numbered counted)
    (hwithin : counted.allocated < 2 ^ 32) : Numbered (countedOf (plain counted.ptx)) := by
  have hallocated : (countedOf (plain counted.ptx)).allocated = counted.allocated := by
    have hnext : (plain counted.ptx).nextKeyId = counterFrom 1 counted.allocated := h.next
    rw [countedOf, hnext, toNat_counterFrom hwithin]
  refine ⟨h.bound, h.wirePrefix, ?_, ?_⟩
  · rw [hallocated]
    exact h.next
  · rw [hallocated]
    exact h.ids

end Numbers

section Serving

def Sends (maxBufferSize : Nat) : Operation → Prop
  | .set _ value => Transmissible maxBufferSize value
  | .clearKey _ | .clear | .buildKeyFrames => True

instance (maxBufferSize : Nat) : (operation : Operation) → Decidable (Sends maxBufferSize operation)
  | .set _ value => inferInstanceAs (Decidable (Transmissible maxBufferSize value))
  | .clearKey _ | .clear | .buildKeyFrames => inferInstanceAs (Decidable True)

variable [HashOrder StdString] {maxBufferSize : Nat}

theorem carried_emit (hroom : pathRoom ≤ maxBufferSize) {counted : Counted}
    (h : Numbered counted) {operation : Operation} (hvalid : ValidKey operation)
    (hsends : Sends maxBufferSize operation) :
    ∀ frame ∈ emit counted operation, Carried maxBufferSize frame := by
  cases operation with
  | set key value =>
      refine carried_set hroom ?_ hsends
      rw [h.wirePath]
      exact hvalid
  | clearKey key => exact carried_clearKey hroom counted.flat key
  | clear =>
      rw [emit_clear h.bound]
      split
      · simp
      · rw [List.forall_mem_cons, List.forall_mem_singleton]
        exact ⟨carried_signalFrame hroom rfl, carried_signalFrame hroom rfl⟩
  | buildKeyFrames => simp [emit]

/-- A call on the principal leaves ids and keys that a client accepts, and a value that
can be sent. -/
def Serves (maxBufferSize : Nat) (name : StdString) (server : Server) (event : Servers.Event) :
    Prop :=
  ∀ operation ∈ callOn server.mode name event,
    Permitted (countedOf (contents server.principals name)) operation ∧
      Sends maxBufferSize operation

instance (name : StdString) (server : Server) (event : Servers.Event) :
    Decidable (Serves maxBufferSize name server event) :=
  inferInstanceAs (Decidable (∀ operation ∈ callOn server.mode name event, _ ∧ _))

variable [HashOrder Addr]

/-- The event leaves the session alone and keeps to what its client can follow. -/
def Allowed (maxBufferSize : Nat) (name : StdString) (a : Addr) (ws : ConnId) (server : Server)
    (event : Servers.Event) : Prop :=
  Leaves a ws server event ∧ Serves maxBufferSize name server event

instance (name : StdString) (a : Addr) (ws : ConnId) (server : Server) (event : Servers.Event) :
    Decidable (Allowed maxBufferSize name a ws server event) :=
  inferInstanceAs (Decidable (_ ∧ _))

/-- The session is up, and the reader at rest with a client that has what it receives of
the principal. -/
structure Linked (maxBufferSize : Nat) (name : StdString) (a : Addr) (ws : ConnId)
    (server : Server) (reader : Reader) : Prop where
  watched : Watched (server.heap a).session name a ws (framesOn ws server.history) server
  ready : (server.heap a).session.state = .ready
  owned : Owned server
  parser : reader.parser = .new maxBufferSize
  keys : ∃ keys, Reads keys (keyStore reader.client) ∧
    Follows (countedOf (contents server.principals name)) keys

variable {name : StdString} {a : Addr} {ws : ConnId} {server : Server} {reader : Reader}

theorem framesOn_step (hroom : pathRoom ≤ maxBufferSize)
    (h : Linked maxBufferSize name a ws server reader)
    (hdefined : server.undefinedBehaviour = false) {event : Servers.Event}
    (hallowed : Allowed maxBufferSize name a ws server event) :
    ∃ effects, (step server event).history = effects ++ server.history ∧
      framesOn ws effects = (callOn server.mode name event).toList.flatMap
        (emit (countedOf (contents server.principals name))) ∧
      ∀ frame ∈ framesOn ws effects, Carried maxBufferSize frame := by
  obtain ⟨effects, hhistory⟩ := history_run server [event]
  rw [run_cons, run_nil] at hhistory
  obtain ⟨hwatched, hready, howned, -, keys, -, hfollows⟩ := h
  have hframes := (watched_step hwatched howned hfollows.bound (.inl hready) hallowed.1).frames
  rw [hhistory, framesOn_append, List.append_cancel_left_eq, operations_actions hdefined] at hframes
  refine ⟨effects, hhistory, ?_⟩
  cases hcall : callOn server.mode name event with
  | none =>
      rw [hcall] at hframes
      have hnone : framesOn ws effects = [] := hframes
      exact ⟨hnone, by simp [hnone]⟩
  | some operation =>
      obtain ⟨hpermitted, hsends⟩ := hallowed.2 operation hcall
      rw [hcall] at hframes
      have hsent : framesOn ws effects =
          emit (countedOf (contents server.principals name)) operation :=
        hframes.trans (List.append_nil _)
      rw [Option.toList_some, List.flatMap_singleton]
      exact ⟨hsent, hsent ▸ carried_emit hroom hfollows.toNumbered hpermitted.2.1 hsends⟩

theorem linked_step (hroom : pathRoom ≤ maxBufferSize)
    (h : Linked maxBufferSize name a ws server reader) {event : Servers.Event}
    (hallowed : Allowed maxBufferSize name a ws server event) :
    Linked maxBufferSize name a ws (step server event)
      ((emitted server event ws).foldl Reader.read reader) := by
  by_cases hundefined : server.undefinedBehaviour
  · rw [step_of_undefined hundefined, emitted, step_of_undefined hundefined, List.drop_length]
    exact h
  have hdefined := Bool.eq_false_iff.mpr hundefined
  obtain ⟨effects, hhistory, hframes, hcarried⟩ := framesOn_step hroom h hdefined hallowed
  obtain ⟨parser, client⟩ := reader
  obtain ⟨hwatched, hready, howned, rfl, keys, hreads, hfollows⟩ := h
  have hnext := watched_step hwatched howned hfollows.bound (.inl hready) hallowed.1
  have hcontents := contents_step hdefined name event
  rw [emitted_of_history hhistory, foldl_read_bytesOn hcarried, hframes]
  have hsession := hnext.session_eq
  have hnow : Watched ((step server event).heap a).session name a ws
      (framesOn ws (step server event).history) (step server event) := by
    rw [hsession, hnext.frames]
    exact hnext
  cases hcall : callOn server.mode name event with
  | none =>
      rw [hcall] at hcontents
      exact ⟨hnow, hsession ▸ hready, owned_step howned event, rfl, keys, hreads,
        hcontents ▸ hfollows⟩
  | some operation =>
      obtain ⟨hpermitted, hsends⟩ := hallowed.2 operation hcall
      rw [hcall] at hcontents
      have hsync := isSyncFrame_emit hfollows.bound operation
      have hstep := follows_step _ keys operation hfollows hpermitted
      have hplain : contents (step server event).principals name =
          plain (count (countedOf (contents server.principals name)) operation).ptx := hcontents
      have hfollowed : Follows (countedOf (contents (step server event).principals name))
          (keys.receive (emit (countedOf (contents server.principals name)) operation)) := by
        rw [hplain]
        exact ⟨numbered_plain hstep.toNumbered hpermitted.1, hstep.inSync, hstep.limit⟩
      rw [Option.toList_some, List.flatMap_singleton]
      refine ⟨hnow, hsession ▸ hready, owned_step howned event, rfl, _, ?_, hfollowed⟩
      dsimp only
      rw [keyStore_receive client]
      · exact reads_receive hreads _
      · rw [List.forall_mem_map]
        intro frame hframe
        rw [receivedFrame_fields]
        exact hsync frame hframe

omit [HashOrder Addr] in
theorem plain_run (counted : Counted) (operations : List Operation) :
    plain (run count counted operations).ptx = run change (plain counted.ptx) operations := by
  induction operations generalizing counted with
  | nil => rfl
  | cons operation operations ih =>
      rw [run_cons, run_cons, ih, change_plain]
      rfl

omit [HashOrder Addr] in
/-- What a principal holds behind a run is numbered, as long as its counter has not come
round. -/
theorem numbered_contents {operations : List Operation}
    (h : StepsMeet count WithinCounter (Counted.new name) operations) :
    Numbered (countedOf (run change (PrincipalTX.new name true) operations)) := by
  have hkeep : ∀ counted operation, counted.allocated < 2 ^ 32 → WithinCounter counted operation →
      (count counted operation).allocated < 2 ^ 32 := fun _ _ _ hwithin => hwithin
  have hwithin : (run count (Counted.new name) operations).allocated < 2 ^ 32 :=
    invariant_run hkeep (Nat.two_pow_pos 32) h
  have hplain := plain_run (Counted.new name) operations
  have hnew : plain (Counted.new name).ptx = PrincipalTX.new name true := rfl
  rw [hnew] at hplain
  rw [← hplain]
  exact numbered_plain (numbered_run name h) hwithin

theorem linked_of_up {mode : ServerMode} (hmode : mode = .broadcast ∨ mode = .principal)
    {before : List Servers.Event}
    (hdefined : (run step (Server.new mode) before).undefinedBehaviour = false)
    (hids : StepsMeet count WithinCounter (Counted.new name) (before.filterMap (callOn mode name)))
    (hup : Up name a ws (run step (Server.new mode) before)) {client : Client}
    (hclient : InSync (keyStore client)
      ((rows (contents (run step (Server.new mode) before).principals name).flatState).image
        receivedRow))
    (hlimit : client.registry.maxKeys = 10000) :
    Linked maxBufferSize name a ws (run step (Server.new mode) before)
      ⟨.new maxBufferSize, client⟩ := by
  have hnew : (Server.new mode).principals.onNewPrincipal = true := by
    rcases hmode with rfl | rfl <;> rfl
  have hnumbered :
      Numbered (countedOf (contents (run step (Server.new mode) before).principals name)) := by
    rw [contents_run mode name hdefined, hnew]
    exact numbered_contents hids
  obtain ⟨keys, hreads, hkeys⟩ := exists_reads (uniqueIds_rows hnumbered.ids) hclient
  have howned := owned_run mode before
  refine ⟨watched_of_up hup (known_run mode before) howned, hup.ready, howned, rfl, keys, hreads,
    hnumbered,
    hkeys, ?_⟩
  rw [← hreads.registry]
  exact hlimit

/-- Whatever the server does for others and whenever the bytes come, the client of a session
that is left alone is, with all of them read, an exact copy of what it receives of its
principal. -/
theorem exactCopy_served {mode : ServerMode} (hmode : mode = .broadcast ∨ mode = .principal)
    {before : List Servers.Event}
    (hdefined : (run step (Server.new mode) before).undefinedBehaviour = false)
    (hids : StepsMeet count WithinCounter (Counted.new name) (before.filterMap (callOn mode name)))
    (hup : Up name a ws (run step (Server.new mode) before))
    {start : Network ConnId Server Reader UInt8}
    (hsender : start.sender = run step (Server.new mode) before) {client : Client}
    (hdrained : parties.drained start ws = ⟨.new DanWebSocketClient.maxBufferSize, client⟩)
    (hclient : InSync (keyStore client)
      ((rows (contents start.sender.principals name).flatState).image receivedRow))
    (hlimit : client.registry.maxKeys = 10000) {after : List (FanOut.Event ConnId Servers.Event)}
    (hallowed : StepsMeet step (Allowed DanWebSocketClient.maxBufferSize name a ws) start.sender
      (callsOf after)) :
    let network := run parties.step start after
    ExactCopy (parties.drained network ws).client
      ((rows (contents network.sender.principals name).flatState).image receivedRow) := by
  intro network
  have hstart : Linked DanWebSocketClient.maxBufferSize name a ws start.sender
      (parties.drained start ws) := by
    rw [hsender] at hclient
    rw [hsender, hdrained]
    exact linked_of_up hmode hdefined hids hup hclient hlimit
  have hstep : ∀ server reader event,
      Linked DanWebSocketClient.maxBufferSize name a ws server reader →
      Allowed DanWebSocketClient.maxBufferSize name a ws server event →
      Linked DanWebSocketClient.maxBufferSize name a ws (step server event)
        ((emitted server event ws).foldl Reader.read reader) :=
    fun _ _ _ hlinked hevent => linked_step (by decide) hlinked hevent
  have hend : Linked DanWebSocketClient.maxBufferSize name a ws network.sender
      (parties.drained network ws) := by
    rw [parties.sender_run, parties.drained_run]
    exact related_run hstep hstart hallowed
  obtain ⟨-, -, -, -, keys, hreads, hfollows⟩ := hend
  exact exactCopy_of_inSync (inSync_of_reads hreads hfollows.inSync)

end Serving

def crowdArrivals : List (FanOut.Event ConnId Servers.Event) :=
  (crowdEvents.take 3).map .call ++ .deliver 1 3 :: (crowdEvents.drop 3).map .call ++
    [.deliver 1 20, .call .clear, .call (.set (str "k") (.int32 1)), .deliver 2 5]

theorem exactCopy_served_crowd :
    let _ := HashOrder.ascending StdString
    let _ := HashOrder.ascending Addr
    let start : Network ConnId Server Reader UInt8 :=
      ⟨listener, fun _ => ⟨.new DanWebSocketClient.maxBufferSize, Client.new⟩, fun _ => []⟩
    let network := run parties.step start crowdArrivals
    ExactCopy (parties.drained network 1).client
      ((rows (contents network.sender.principals broadcastPrincipal).flatState).image
        receivedRow) := by
  have hdefined : listener.undefinedBehaviour = false := by decide +kernel
  have hempty : (contents listener.principals broadcastPrincipal).flatState.entries = ∅ := by
    decide +kernel
  have hallowed : @StepsMeet _ _ (@step (HashOrder.ascending StdString) (HashOrder.ascending Addr))
      (@Allowed (HashOrder.ascending StdString) (HashOrder.ascending Addr)
        DanWebSocketClient.maxBufferSize broadcastPrincipal 0 1)
      listener (callsOf crowdArrivals) := by decide +kernel
  have hsync : InSync (keyStore Client.new)
      ((rows (contents listener.principals broadcastPrincipal).flatState).image receivedRow) := by
    rw [rows_of_empty hempty, Finset.image_empty]
    exact tracks_reset (keyStore Client.new)
  have hids : @StepsMeet _ _ (@count (HashOrder.ascending StdString))
      (@WithinCounter (HashOrder.ascending StdString)) (Counted.new broadcastPrincipal)
      (listenerEvents.filterMap (callOn .broadcast broadcastPrincipal)) := by decide +kernel
  intro _ _ start
  have hdrained : parties.drained start 1 = ⟨.new DanWebSocketClient.maxBufferSize, Client.new⟩ :=
    parties.drained_of_empty rfl
  have hsender : start.sender = listener := rfl
  exact exactCopy_served (.inl rfl) hdefined hids up_listener hsender hdrained hsync rfl hallowed

end DanWs.ServerStreams
