import DanWs.ServerStreams
import DanWs.UpdateLogs

namespace DanWs.ServedUpdates

open DanWs.ByteReaders
open DanWs.ClientReception (DanWebSocketClient)
open DanWs.Clients
open DanWs.FanOut
open DanWs.FiniteMaps
open DanWs.FlatStates
open DanWs.KeyFrameCache
open DanWs.KeyStores
open DanWs.PrincipalContents
open DanWs.PrincipalReplication
open DanWs.ReceivedFrames
open DanWs.ReceivedStores
open DanWs.Replication
open DanWs.ServedSessions
open DanWs.ServerStreams
open DanWs.Servers
open DanWs.StepRuns
open DanWs.StockedStates
open DanWs.StreamParsing
open DanWs.StreamRecovery
open DanWs.UpdateLogs
open DanWs.WatchedSessions
open DanWs.WireRows
open DanWs.WireTypes

/-- A reader, and what its callbacks have been told so far. -/
structure Listener where
  reader : Reader
  log : List Update

namespace Listener

def read (listener : Listener) (byte : UInt8) : Listener :=
  ⟨listener.reader.read byte,
    listener.log ++
      heard listener.reader.client (deliveredFrames (listener.reader.parser.step byte).2)⟩

theorem foldl_read (listener : Listener) (bytes : List UInt8) :
    bytes.foldl read listener =
      ⟨bytes.foldl Reader.read listener.reader,
        listener.log ++
          heard listener.reader.client
            (deliveredFrames (listener.reader.parser.feed bytes).2)⟩ := by
  induction bytes generalizing listener with
  | nil =>
      rw [List.foldl_nil, List.foldl_nil]
      exact congrArg (Listener.mk _) (List.append_nil _).symm
  | cons byte bytes ih =>
      rw [List.foldl_cons, List.foldl_cons, ih, StreamParser.feed]
      dsimp only [read, Reader.read]
      rw [deliveredFrames_append, heard_append, List.append_assoc]

end Listener

section Frames

variable [HashOrder StdString]

/-- The call sets no key that a client takes for the key of a topic. -/
def OrdinaryKey : Operation → Prop
  | .set key _ => Ordinary key
  | .clearKey _ | .clear | .buildKeyFrames => True

instance : (operation : Operation) → Decidable (OrdinaryKey operation)
  | .set key _ => inferInstanceAs (Decidable (Ordinary key))
  | .clearKey _ | .clear | .buildKeyFrames => inferInstanceAs (Decidable True)

omit [HashOrder StdString] in
theorem ordinaryFrame_of_type {frame : Frame} (h : frame.frameType ≠ .serverKeyRegistration) :
    OrdinaryFrame frame := fun htype => absurd htype h

omit [HashOrder StdString] in
theorem ordinary_entryFrames {flat : FlatState} {key : StdString}
    (h : Ordinary (flat.wirePath key)) (entry : Entry) :
    ∀ frame ∈ flat.entryFrames key entry, OrdinaryFrame frame := by
  rw [FlatState.entryFrames, List.forall_mem_cons, List.forall_mem_cons, List.forall_mem_singleton]
  refine ⟨fun _ path hpath => ?_, ordinaryFrame_of_type (by decide),
    ordinaryFrame_of_type (fun htype => by cases htype)⟩
  cases hpath
  exact h

theorem ordinary_emit {counted : Counted} (h : Numbered counted) {operation : Operation}
    (hordinary : OrdinaryKey operation) :
    ∀ frame ∈ emit counted operation, OrdinaryFrame frame := by
  have hdelete : ∀ keyId, OrdinaryFrame (FlatState.deleteFrame keyId) :=
    fun _ => ordinaryFrame_of_type fun htype => by cases htype
  cases operation with
  | set key value =>
      have hentry := ordinary_entryFrames (show Ordinary (counted.flat.wirePath key) by
        rw [h.wirePath]; exact hordinary)
      have hframes : emit counted (.set key value) =
          (counted.flat.set counted.ptx.nextKeyId key value).2.2 := rfl
      rw [hframes]
      cases hold : counted.flat.entries.lookup key with
      | none =>
          rw [frames_set_new hold]
          exact hentry _
      | some old =>
          rcases eq_or_ne old.type (detectDataType value) with htype | htype
          · rw [frames_set_same hold htype, List.forall_mem_singleton]
            exact ordinaryFrame_of_type fun htype => by cases htype
          · rw [frames_set_retyped hold htype, List.forall_mem_cons]
            exact ⟨hdelete old.keyId, hentry _⟩
  | clearKey key =>
      have hframes : emit counted (.clearKey key) = (counted.flat.clearKey key).2 := rfl
      rw [hframes, FlatState.clearKey]
      split
      · simp
      · rw [List.forall_mem_singleton]
        exact hdelete _
  | clear =>
      rw [emit_clear h.bound]
      split
      · simp
      · rw [List.forall_mem_cons, List.forall_mem_singleton]
        exact ⟨ordinaryFrame_of_type (by decide), ordinaryFrame_of_type (by decide)⟩
  | buildKeyFrames => simp [emit]

end Frames

section Serving

variable [HashOrder StdString] [HashOrder Addr] {maxBufferSize : Nat} {name : StdString} {a : Addr}
  {ws : ConnId} {server : Server} {listener : Listener}

/-- The event leaves the session alone, keeps to what its client can follow, and sets no
key that the client takes for the key of a topic. -/
def Followed (maxBufferSize : Nat) (name : StdString) (a : Addr) (ws : ConnId) (server : Server)
    (event : Servers.Event) : Prop :=
  Allowed maxBufferSize name a ws server event ∧
    ∀ operation ∈ callOn server.mode name event, OrdinaryKey operation

instance (name : StdString) (a : Addr) (ws : ConnId) (server : Server) (event : Servers.Event) :
    Decidable (Followed maxBufferSize name a ws server event) :=
  inferInstanceAs (Decidable (_ ∧ _))

/-- The listener follows the principal, and has none of its keys for the key of a topic. -/
structure Hears (maxBufferSize : Nat) (name : StdString) (a : Addr) (ws : ConnId)
    (server : Server) (listener : Listener) : Prop where
  linked : Linked maxBufferSize name a ws server listener.reader
  cache : PlainCache listener.reader.client
  keys : OrdinaryKeys (keyStore listener.reader.client)

def updatesAt (name : StdString) (server : Server) (event : Servers.Event) : List Update :=
  (callOn server.mode name event).toList.flatMap (updatesOf (contents server.principals name))

theorem hears_step (hroom : pathRoom ≤ maxBufferSize)
    (h : Hears maxBufferSize name a ws server listener)
    (hdefined : server.undefinedBehaviour = false) {event : Servers.Event}
    (hfollowed : Followed maxBufferSize name a ws server event) :
    Hears maxBufferSize name a ws (step server event)
        ((emitted server event ws).foldl Listener.read listener) ∧
      ((emitted server event ws).foldl Listener.read listener).log =
        listener.log ++ (updatesAt name server event).map receivedUpdate := by
  obtain ⟨effects, hhistory, hframes, hcarried⟩ :=
    framesOn_step hroom h.linked hdefined hfollowed.1
  have hlinked := linked_step hroom h.linked hfollowed.1
  obtain ⟨⟨parser, client⟩, log⟩ := listener
  obtain ⟨⟨-, -, -, hparser, keys, hreads, hfollows⟩, hcache, hkeys⟩ := h
  dsimp only at hparser hreads hcache hkeys hlinked
  subst hparser
  obtain ⟨events, hfeed, hdelivered⟩ := feed_bytesOn hcarried
  rw [emitted_of_history hhistory, foldl_read_bytesOn hcarried] at hlinked
  rw [emitted_of_history hhistory, Listener.foldl_read]
  dsimp only
  rw [foldl_read_bytesOn hcarried, hfeed]
  dsimp only
  rw [hdelivered]
  cases hcall : callOn server.mode name event with
  | none =>
      rw [hcall] at hframes
      have hnone : framesOn ws effects = [] := hframes
      rw [hnone] at hlinked ⊢
      refine ⟨⟨hlinked, hcache, hkeys⟩, ?_⟩
      rw [updatesAt, hcall]
      rfl
  | some operation =>
      obtain ⟨hpermitted, -⟩ := hfollowed.1.2 operation hcall
      rw [hcall, Option.toList_some, List.flatMap_singleton] at hframes
      rw [hframes] at hlinked ⊢
      have hordinary := ordinary_emit hfollows.toNumbered (hfollowed.2 operation hcall)
      have hsync := isSyncFrame_emit hfollows.bound operation
      have hgood : ∀ frame ∈ (emit (countedOf (contents server.principals name)) operation).map
          receivedFrame, OrdinaryFrame frame ∧ isSyncFrame frame := by
        rw [List.forall_mem_map]
        intro frame hframe
        refine ⟨ordinary_receivedFrame (hordinary frame hframe), ?_⟩
        rw [receivedFrame_fields]
        exact hsync frame hframe
      obtain ⟨hheard, hcached, hkept⟩ := heard_eq hcache hkeys hgood
      refine ⟨⟨hlinked, hcached, hkept⟩, ?_⟩
      have hnext := numbered_step _ operation hfollows.toNumbered hpermitted.1
      rw [hheard, told_received hreads, told_emit hfollows hpermitted hnext, updatesAt, hcall,
        Option.toList_some, List.flatMap_singleton]
      rfl

theorem hears_run (hroom : pathRoom ≤ maxBufferSize)
    (h : Hears maxBufferSize name a ws server listener) {events : List Servers.Event}
    (hfollowed : StepsMeet step (Followed maxBufferSize name a ws) server events)
    (hdefined : (run step server events).undefinedBehaviour = false) :
    ((outputs step (fun server event => emitted server event ws) server events).foldl
        Listener.read listener).log =
      listener.log ++
        (outputs change updatesOf (contents server.principals name)
          (events.filterMap (callOn server.mode name))).map receivedUpdate := by
  induction events generalizing server listener with
  | nil => exact (List.append_nil _).symm
  | cons event events ih =>
      have hnow := defined_of_run hdefined
      obtain ⟨hnext, hlog⟩ := hears_step hroom h hnow hfollowed.1
      have hcontents := contents_step hnow name event
      have hmode : (step server event).mode = server.mode := mode_run server [event]
      rw [outputs, List.foldl_append, ih hnext hfollowed.2 hdefined, hlog, hmode, hcontents,
        List.append_assoc, ← List.map_append, List.filterMap_cons, updatesAt]
      cases callOn server.mode name event with
      | none => rfl
      | some operation =>
          rw [Option.toList_some, List.flatMap_singleton]
          rfl

def audience : Parties ConnId Server Listener UInt8 Servers.Event where
  call := step
  emit := emitted
  consume := Listener.read

end Serving

end DanWs.ServedUpdates
