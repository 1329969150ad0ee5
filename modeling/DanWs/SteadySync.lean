import DanWs.PrincipalReplication
import DanWs.Servers

namespace DanWs.SteadySync

open DanWs.Clients
open DanWs.FiniteMaps
open DanWs.KeyFrameCache
open DanWs.KeyStores
open DanWs.PrincipalReplication
open DanWs.Principals
open DanWs.Replication
open DanWs.Servers
open DanWs.Sessions
open DanWs.StepRuns
open DanWs.WireRows
open DanWs.WireTypes

def frameTo (name : StdString) (a : Addr) : Effect → Option Frame
  | .enqueued tx b _ frame => if tx = name ∧ b = a then some frame else none
  | _ => none

/-- The frames of a principal that have been enqueued to a session, in order. -/
def framesTo (name : StdString) (a : Addr) (history : List Effect) : List Frame :=
  (history.filterMap (frameTo name a)).reverse

/-- Between the two states, frames of the principal are enqueued, and nothing
else changes. -/
structure Delivers (name : StdString) (server next : Server) (frames : Addr → List Frame) :
    Prop where
  heap : next.heap = server.heap
  connections : next.connections = server.connections
  principalIndex : next.principalIndex = server.principalIndex
  principals : next.principals = server.principals
  history : ∀ a, framesTo name a next.history = framesTo name a server.history ++ frames a

section Delivery

variable {name : StdString} {server middle next : Server} {first second : Addr → List Frame}

theorem Delivers.refl (name : StdString) (server : Server) :
    Delivers name server server fun _ => [] :=
  ⟨rfl, rfl, rfl, rfl, fun _ => (List.append_nil _).symm⟩

theorem Delivers.trans (h : Delivers name server middle first)
    (h' : Delivers name middle next second) :
    Delivers name server next fun a => first a ++ second a where
  heap := h'.heap.trans h.heap
  connections := h'.connections.trans h.connections
  principalIndex := h'.principalIndex.trans h.principalIndex
  principals := h'.principals.trans h.principals
  history a := by rw [h'.history, h.history, List.append_assoc]

theorem delivers_record {effect : Effect} (h : ∀ a, frameTo name a effect = none)
    (server : Server) : Delivers name server (server.record effect) fun _ => [] where
  heap := rfl
  connections := rfl
  principalIndex := rfl
  principals := rfl
  history a := by
    rw [framesTo, Server.record, List.filterMap_cons_none (h a), List.append_nil]
    rfl

theorem delivers_enqueueFrom (server : Server) (name : StdString) (a : Addr) (frame : Frame) :
    Delivers name server (server.enqueueFrom name a frame)
      fun b => if a = b then [frame] else [] := by
  let effect := Effect.enqueued name a (server.heap a).session.principal frame
  have hrecord : Delivers name server (server.record effect)
      fun b => if a = b then [frame] else [] := by
    refine ⟨rfl, rfl, rfl, rfl, fun b => ?_⟩
    rw [framesTo, Server.record, List.filterMap_cons, frameTo]
    rcases eq_or_ne a b with rfl | hne
    · simp [framesTo]
    · simp [framesTo, hne]
  have hsent : Delivers name (server.record effect) (server.enqueueFrom name a frame)
      fun _ => [] := by
    rw [Server.enqueueFrom, Server.enqueue, List.foldl_cons, List.foldl_nil]
    split
    · exact delivers_record (fun _ => rfl) _
    · exact Delivers.refl name _
  simpa using hrecord.trans hsent

theorem delivers_frames (server : Server) (name : StdString) (a : Addr) (frames : List Frame) :
    Delivers name server (frames.foldl (fun server frame => server.enqueueFrom name a frame) server)
      fun b => if a = b then frames else [] := by
  induction frames generalizing server with
  | nil => simpa using Delivers.refl name server
  | cons frame frames ih =>
      have hstep := (delivers_enqueueFrom server name a frame).trans
        (ih (server.enqueueFrom name a frame))
      refine ⟨hstep.heap, hstep.connections, hstep.principalIndex, hstep.principals, fun b => ?_⟩
      refine (hstep.history b).trans (congrArg (framesTo name b server.history ++ ·) ?_)
      split <;> rfl

theorem delivers_recipients (server : Server) (name : StdString) (frames : List Frame)
    {recipients : List Addr} (hnodup : recipients.Nodup) :
    Delivers name server
      (recipients.foldl (fun server a =>
        frames.foldl (fun server frame => server.enqueueFrom name a frame) server) server)
      fun b => if b ∈ recipients then frames else [] := by
  induction recipients generalizing server with
  | nil => simpa using Delivers.refl name server
  | cons a recipients ih =>
      obtain ⟨hnotMem, hrest⟩ := List.nodup_cons.mp hnodup
      have hstep := (delivers_frames server name a frames).trans (ih _ hrest)
      refine ⟨hstep.heap, hstep.connections, hstep.principalIndex, hstep.principals, fun b => ?_⟩
      refine (hstep.history b).trans (congrArg (framesTo name b server.history ++ ·) ?_)
      rcases eq_or_ne a b with rfl | hne
      · rw [if_pos rfl, if_neg hnotMem, if_pos List.mem_cons_self, List.append_nil]
      · rw [if_neg hne, List.nil_append]
        simp only [List.mem_cons, hne.symm, false_or]

end Delivery

section Callbacks

/-- The session is indexed for the principal, `Ready` and connected. -/
structure Steady (server : Server) (name : StdString) (a : Addr) : Prop where
  indexed : ∃ indexed, server.principalIndex.lookup name = some indexed ∧ a ∈ indexed
  ready : (server.heap a).session.state = .ready
  connected : (server.heap a).session.connected
  wsOpen : server.wsOpen a

variable {server next : Server} {name : StdString} {a : Addr}

theorem steady_delivers {frames : Addr → List Frame} (hdelivers : Delivers name server next frames)
    (h : Steady server name a) : Steady next name a where
  indexed := by
    rw [hdelivers.principalIndex]
    exact h.indexed
  ready := by
    rw [hdelivers.heap]
    exact h.ready
  connected := by
    rw [hdelivers.heap]
    exact h.connected
  wsOpen := by
    rw [Server.wsOpen, hdelivers.heap, hdelivers.connections]
    exact h.wsOpen

theorem spec_of_stored {ptx : PrincipalTX} {frames : List Frame} {given : Addr → List Frame}
    (hdelivers : Delivers name
      { server with principals := server.principals.store name ptx } next given)
    (hgiven : ∀ a, Steady server name a → given a = frames) :
    next.principals.principals.lookup name = some ptx ∧
      ∀ a, Steady server name a → Steady next name a ∧
        framesTo name a next.history = framesTo name a server.history ++ frames := by
  refine ⟨?_, fun a ha => ⟨?_, ?_⟩⟩
  · rw [hdelivers.principals]
    exact Finmap.lookup_insert _
  · exact steady_delivers hdelivers ⟨ha.indexed, ha.ready, ha.connected, ha.wsOpen⟩
  · rw [hdelivers.history a, hgiven a ha]

variable [HashOrder Addr]

theorem nodup_recipients (server : Server) (name : StdString) (wants : Session → Bool) :
    (server.recipients name wants).Nodup := by
  rw [Server.recipients]
  split
  · exact List.nodup_nil
  · exact (HashOrder.order.nodup _).filter _

theorem mem_recipients (h : Steady server name a) {wants : Session → Bool}
    (hwants : wants (server.heap a).session) : a ∈ server.recipients name wants := by
  obtain ⟨indexed, hindexed, hmem⟩ := h.indexed
  rw [Server.recipients, hindexed]
  refine List.mem_filter.mpr ⟨(HashOrder.order.mem_enumerate indexed a).mpr hmem, ?_⟩
  rw [hwants, h.wsOpen]
  rfl

theorem delivers_onResync (server : Server) (name : StdString) (keyFrames : List Frame) :
    Delivers name server (server.onResync name keyFrames) fun b =>
      if b ∈ server.recipients name Session.connected then signalFrame .serverReset :: keyFrames
      else [] :=
  delivers_recipients server name _ (nodup_recipients server name _)

theorem delivers_onValue (server : Server) (name : StdString) (frame : Frame) :
    Delivers name server (server.onValue name frame) fun b =>
      if b ∈ server.recipients name fun session => session.state = .ready then [frame]
      else [] :=
  delivers_recipients server name [frame] (nodup_recipients server name _)

theorem delivers_values (server : Server) (name : StdString) (frames : List Frame) :
    ∃ given, Delivers name server
        (frames.foldl (fun server frame => server.onValue name frame) server) given ∧
      ∀ a, Steady server name a → given a = frames := by
  induction frames generalizing server with
  | nil => exact ⟨_, Delivers.refl name server, fun _ _ => rfl⟩
  | cons frame frames ih =>
      have hfirst := delivers_onValue server name frame
      obtain ⟨given, hrest, hgiven⟩ := ih (server.onValue name frame)
      refine ⟨_, hfirst.trans hrest, fun a ha => ?_⟩
      have hready : decide ((server.heap a).session.state = .ready) = true :=
        decide_eq_true ha.ready
      rw [if_pos (mem_recipients ha hready), hgiven a (steady_delivers hfirst ha)]
      rfl

theorem changePrincipal_spec {ptx : PrincipalTX}
    (hptx : server.principals.principals.lookup name = some ptx)
    {operation : PrincipalTX → PrincipalTX × List Frame} (hbound : (operation ptx).1.bound) :
    (server.changePrincipal name operation).principals.principals.lookup name =
        some (operation ptx).1 ∧
      ∀ a, Steady server name a → Steady (server.changePrincipal name operation) name a ∧
        framesTo name a (server.changePrincipal name operation).history =
          framesTo name a server.history ++ (operation ptx).2 := by
  have hprincipal : server.principals.principal name = (server.principals, ptx) := by
    rw [PrincipalManager.principal, hptx]
  rw [Server.changePrincipal, hprincipal]
  dsimp only
  rw [if_pos hbound]
  obtain ⟨given, hdelivers, hgiven⟩ := delivers_values
    { server with principals := server.principals.store name (operation ptx).1 } name
    (operation ptx).2
  exact spec_of_stored hdelivers fun a ha =>
    hgiven a ⟨ha.indexed, ha.ready, ha.connected, ha.wsOpen⟩

end Callbacks

section Calls

variable [HashOrder StdString] [HashOrder Addr] {name : StdString}

/-- A call on a principal. Its cache may also be filled, for another session. -/
def call (name : StdString) (server : Server) : Operation → Server
  | .set key value => server.changePrincipal name fun ptx => ptx.set key value
  | .clearKey key => server.changePrincipal name fun ptx => ptx.clearKey key
  | .clear => server.clearPrincipal name
  | .buildKeyFrames => server.changePrincipal name fun ptx => (ptx.buildKeyFrames.1, [])

variable {server : Server} {ptx : PrincipalTX}

theorem clearPrincipal_spec (hptx : server.principals.principals.lookup name = some ptx) :
    (server.clearPrincipal name).principals.principals.lookup name = some ptx.clear.1 ∧
      ∀ a, Steady server name a → Steady (server.clearPrincipal name) name a ∧
        framesTo name a (server.clearPrincipal name).history =
          framesTo name a server.history ++
            match ptx.clear.2 with
            | none => []
            | some keyFrames => signalFrame .serverReset :: keyFrames := by
  have hprincipal : server.principals.principal name = (server.principals, ptx) := by
    rw [PrincipalManager.principal, hptx]
  rw [Server.clearPrincipal, hprincipal]
  dsimp only
  cases hresync : ptx.clear.2 with
  | none => exact spec_of_stored (Delivers.refl name _) fun _ _ => rfl
  | some keyFrames =>
      refine spec_of_stored (delivers_onResync _ name keyFrames) fun a ha => if_pos ?_
      exact mem_recipients ⟨ha.indexed, ha.ready, ha.connected, ha.wsOpen⟩ ha.connected

/-- A call changes the principal and tells each steady session of it. -/
theorem call_spec {counted : Counted} (hbound : counted.ptx.bound)
    (hptx : server.principals.principals.lookup name = some counted.ptx) (operation : Operation) :
    (call name server operation).principals.principals.lookup name =
        some (count counted operation).ptx ∧
      ∀ a, Steady server name a → Steady (call name server operation) name a ∧
        framesTo name a (call name server operation).history =
          framesTo name a server.history ++ emit counted operation := by
  cases operation with
  | set key value => exact changePrincipal_spec hptx hbound
  | clearKey key => exact changePrincipal_spec hptx hbound
  | clear => exact clearPrincipal_spec hptx
  | buildKeyFrames =>
      exact changePrincipal_spec hptx ((buildKeyFrames_fst counted.ptx).2.2.trans hbound)

theorem calls_spec {counted : Counted} (hnumbered : Numbered counted)
    (hptx : server.principals.principals.lookup name = some counted.ptx)
    {operations : List Operation} (hmeet : StepsMeet count WithinCounter counted operations) :
    (run (call name) server operations).principals.principals.lookup name =
        some (run count counted operations).ptx ∧
      ∀ a, Steady server name a →
        framesTo name a (run (call name) server operations).history =
          framesTo name a server.history ++ outputs count emit counted operations := by
  induction operations generalizing server counted with
  | nil => exact ⟨hptx, fun a _ => (List.append_nil _).symm⟩
  | cons operation operations ih =>
      obtain ⟨hnext, hframes⟩ := call_spec hnumbered.bound hptx operation
      obtain ⟨hlast, hrest⟩ := ih (numbered_step counted operation hnumbered hmeet.1) hnext hmeet.2
      refine ⟨hlast, fun a ha => ?_⟩
      obtain ⟨hsteady, hfirst⟩ := hframes a ha
      rw [run_cons, hrest a hsteady, hfirst, outputs, List.append_assoc]

/-- Clients that are in sync with a principal are in sync again behind any calls,
when they have processed what was enqueued to them. -/
theorem inSync_calls {history operations : List Operation} {counted : Counted}
    (hcounted : counted = run count (Counted.new name) history)
    (hhistory : StepsMeet count WithinCounter (Counted.new name) history)
    (hptx : server.principals.principals.lookup name = some counted.ptx)
    {clients : Addr → Client}
    (hclients : ∀ a, Steady server name a →
      InSync (keyStore (clients a)) (rows counted.flat) ∧ (clients a).registry.maxKeys = 10000)
    (hmeet : StepsMeet count Permitted counted operations) :
    ∃ ptx, (run (call name) server operations).principals.principals.lookup name = some ptx ∧
      ∀ a, Steady server name a → ∃ frames,
        framesTo name a (run (call name) server operations).history =
            framesTo name a server.history ++ frames ∧
          InSync (keyStore ((clients a).receive frames).1) (rows ptx.flatState) := by
  have hnumbered : Numbered counted := hcounted ▸ numbered_run name hhistory
  have hwithin : StepsMeet count WithinCounter counted operations :=
    stepsMeet_mono (fun _ _ hpermitted => hpermitted.1) hmeet
  obtain ⟨hlast, hframes⟩ := calls_spec hnumbered hptx hwithin
  refine ⟨_, hlast, fun a ha => ⟨_, hframes a ha, ?_⟩⟩
  obtain ⟨hsync, hlimit⟩ := hclients a ha
  rw [keyStore_receive _ (isSyncFrame_outputs hnumbered hwithin)]
  exact (follows_run ⟨hnumbered, hsync, hlimit⟩ hmeet).inSync

end Calls

section Example

def listener [HashOrder StdString] [HashOrder Addr] : Server :=
  run Servers.step (Server.new .broadcast)
    [.connect 1 false, .frame 1 (Server.identifyFrame (List.replicate 16 0)) 0,
      .frame 1 (signalFrame .clientReady) 0]

def listenerCalls : List Operation :=
  [.set (str "k") (.int32 1), .clear, .set (str "j") (.bool true), .set (str "j") (.int32 2),
    .clearKey (str "j"), .clear]

theorem inSync_calls_listener :
    let _ := HashOrder.ascending StdString
    let _ := HashOrder.ascending Addr
    ∃ ptx, (run (call broadcastPrincipal) listener listenerCalls).principals.principals.lookup
        broadcastPrincipal = some ptx ∧
      ∀ a, Steady listener broadcastPrincipal a → ∃ frames,
        framesTo broadcastPrincipal a
            (run (call broadcastPrincipal) listener listenerCalls).history =
          framesTo broadcastPrincipal a listener.history ++ frames ∧
          InSync (keyStore (Client.new.receive frames).1) (rows ptx.flatState) := by
  have hpermitted : @StepsMeet _ _ (@count (HashOrder.ascending StdString))
      (@Permitted (HashOrder.ascending StdString))
      (@run _ _ (@count (HashOrder.ascending StdString)) (Counted.new broadcastPrincipal)
        [.buildKeyFrames]) listenerCalls := by decide +kernel
  intro _ _
  have hhistory : StepsMeet count WithinCounter (Counted.new broadcastPrincipal)
      [.buildKeyFrames] := ⟨by decide, trivial⟩
  have hsync : InSync (keyStore Client.new) ∅ := tracks_reset (keyStore Client.new)
  exact inSync_calls rfl hhistory rfl (fun _ _ => ⟨hsync, rfl⟩) hpermitted

end Example

end DanWs.SteadySync
