import DanWs.ClientLifecycle
import DanWs.Handshakes
import DanWs.LeftoverKeys

namespace DanWs.ReturningClients

open DanWs.ClientCalls
open DanWs.ClientLifecycle
open DanWs.ClientProgress
open DanWs.Clients
open DanWs.FiniteMaps
open DanWs.HandshakeParties
open DanWs.HandshakeStages
open DanWs.KeyFrameCache
open DanWs.KeyRequests
open DanWs.KeyStores
open DanWs.LeftoverKeys
open DanWs.Links hiding Event
open DanWs.PrincipalReplication
open DanWs.Replication
open DanWs.Sessions
open DanWs.StepRuns
open DanWs.WireRows
open DanWs.WireTypes

section Offline

/-- Anything may happen to the client but the arrival of a frame. -/
def Silent (event : Event) : Prop := ∀ frame, event ≠ .input (.frame frame)

/-- What may come between the opening and the first frame of `_startSync`. -/
def Admits : Event → Prop
  | .input (.frame frame) => frame.frameType = .authOk
  | .input _ => True
  | _ => False

theorem keyStore_handleOpen (client : Client) (uuidBytes : List UInt8) :
    keyStore (handleOpen client uuidBytes).client = keyStore client := by
  rw [handleOpen]
  dsimp only
  split <;> rfl

theorem keyStore_opened (live : LiveClient) :
    keyStore live.handleOpen.client = keyStore live.client := by
  rw [LiveClient.handleOpen]
  split
  · rfl
  · exact keyStore_handleOpen _ _

theorem keyStore_call (client : Client) {input : Input} (h : ∀ frame, input ≠ .frame frame) :
    keyStore (afterInput client input) = keyStore client := by
  cases input with
  | frame frame => exact absurd rfl (h frame)
  | authorize token => exact keyStore_authorize client token
  | subscribe topicName params => rfl
  | unsubscribe topicName => rfl

theorem stable_keyStore (keys : KeyStore) : Stable fun live => keyStore live.client = keys where
  engine _ _ _ h := h
  terminated _ h := h
  state _ _ _ _ _ h := h
  closed _ h := h
  dialed _ h := h

theorem keyStore_step (live : LiveClient) {event : Event} (h : Silent event) :
    keyStore (step live event).client = keyStore live.client := by
  refine stable_step (stable_keyStore (keyStore live.client)) rfl rfl
    (fun _ _ => keyStore_opened live) fun input hevent => ?_
  exact keyStore_call live.client fun frame hinput => h frame (by rw [hevent, hinput])

theorem keyStore_run (live : LiveClient) {events : List Event}
    (h : ∀ event ∈ events, Silent event) :
    keyStore (run step live events).client = keyStore live.client := by
  induction events generalizing live with
  | nil => rfl
  | cons event events ih =>
      rw [run_cons, ih _ fun other hother => h other (List.mem_cons_of_mem event hother)]
      exact keyStore_step live (h event List.mem_cons_self)

/-- The client has been let in, and has not been told of any key on this connection. -/
structure Admitted (keys : KeyStore) (live : LiveClient) : Prop where
  keyStore_eq : keyStore live.client = keys
  state : live.client.state ≠ .ready

theorem state_opened {live : LiveClient} (h : live.handleOpen.terminated = false) :
    live.handleOpen.client.state = .identifying := by
  rw [LiveClient.handleOpen] at h ⊢
  split at h
  · cases h
  · rw [handleOpen]
    dsimp only
    split <;> rfl

theorem admitted_afterInput {keys : KeyStore} {live : LiveClient} (h : Admitted keys live)
    {input : Input} (hinput : Admits (.input input)) :
    keyStore (afterInput live.client input) = keys ∧
      (afterInput live.client input).state ≠ .ready := by
  cases input with
  | frame frame =>
      have htype : frame.frameType = .authOk := hinput
      rw [afterInput, ClientCalls.take, Client.handleFrame, htype]
      exact ⟨h.keyStore_eq, ClientState.noConfusion⟩
  | authorize token =>
      refine ⟨(keyStore_authorize live.client token).trans h.keyStore_eq, ?_⟩
      rw [afterInput, ClientCalls.take, authorize]
      split
      · exact ClientState.noConfusion
      · exact h.state
  | subscribe topicName params => exact ⟨h.keyStore_eq, h.state⟩
  | unsubscribe topicName => exact ⟨h.keyStore_eq, h.state⟩

theorem admitted_step {keys : KeyStore} {live : LiveClient} {event : Event}
    (hevent : Admits event) (h : Admitted keys live) : Admitted keys (step live event) := by
  rw [step.eq_def]
  split
  · exact h
  · cases event with
    | input input =>
        obtain ⟨hkeys, hstate⟩ := admitted_afterInput h hevent
        exact ⟨hkeys, hstate⟩
    | connect _ _ | disconnect | opened | closed _ | heartbeatTimeout _ | timer _ =>
        exact absurd hevent not_false

theorem admitted_run {keys : KeyStore} {live : LiveClient} {events : List Event}
    (hevents : ∀ event ∈ events, Admits event) (h : Admitted keys live) :
    Admitted keys (run step live events) := by
  induction events generalizing live with
  | nil => exact h
  | cons event events ih =>
      exact ih (fun other hother => hevents other (List.mem_cons_of_mem event hother))
        (admitted_step (hevents event List.mem_cons_self) h)

/-- The client comes back with the keys that it had. -/
theorem admitted_reopened {live : LiveClient} {offline admission : List Event}
    (hoffline : ∀ event ∈ offline, Silent event)
    (hopening : (run step live offline).client.socket = some false)
    (hrunning : (run step live (offline ++ [.opened])).terminated = false)
    (hadmission : ∀ event ∈ admission, Admits event) :
    Admitted (keyStore live.client) (run step live (offline ++ .opened :: admission)) := by
  let lost := run step live offline
  rw [run_append, run_cons, run_nil] at hrunning
  have hlost : lost.terminated = false := by
    by_contra hterminated
    rw [step_of_terminated (by simpa using hterminated)] at hrunning
    exact hterminated hrunning
  have hstep : step lost .opened = lost.handleOpen := step_opened hopening hlost
  have hkeys : keyStore lost.handleOpen.client = keyStore live.client :=
    (keyStore_opened lost).trans (keyStore_run live hoffline)
  rw [run_append, run_cons, hstep]
  rw [hstep] at hrunning
  refine admitted_run hadmission ⟨hkeys, ?_⟩
  rw [state_opened hrunning]
  exact ClientState.noConfusion

end Offline

section Serving

variable [HashOrder StdString] {counted : Counted} {client : Client}

theorem offered_handleKeyRequest (session : Session) (counted : Counted) {id : UInt32}
    (hlive : ∃ wire ∈ wires counted.flat, wire.2.keyId = id) :
    ∀ sent ∈ (session.handleKeyRequest (some (recomputed counted.ptx)) id).2,
      Offered (wires counted.flat) sent := by
  have hkeyFrames : (recomputed counted.ptx).buildKeyFrames.2 =
      registrationFrames (wires counted.flat) ++ [signalFrame .serverSync] :=
    uncachedKeyFrames_eq (recomputed counted.ptx)
  have hvalues : (recomputed counted.ptx).buildKeyFrames.1.buildValueFrames =
      valueFrames (wires counted.flat) := buildValueFrames_buildKeyFrames (recomputed counted.ptx)
  let test := fun frame : Frame =>
    frame.frameType == .serverKeyRegistration && frame.keyId == id
  obtain ⟨wire, hwire, hid⟩ := hlive
  have hsome : ((registrationFrames (wires counted.flat) ++
      [signalFrame .serverSync]).find? test).isSome := by
    rw [List.find?_isSome]
    exact ⟨registrationFrame wire.1 wire.2,
      List.mem_append_left _ (List.mem_map.mpr ⟨wire, hwire, rfl⟩),
      by simp [test, registrationFrame, hid]⟩
  obtain ⟨keyFrame, hfind⟩ := Option.isSome_iff_exists.mp hsome
  have hkeyFrame : Offered (wires counted.flat) keyFrame := by
    rcases List.mem_append.mp (List.mem_of_find?_eq_some hfind) with hmem | hmem
    · exact offered_registrationFrames (fun _ hmem => hmem) keyFrame hmem
    · rw [List.mem_singleton.mp hmem]
      exact .sync
  have hanswer : (session.handleKeyRequest (some (recomputed counted.ptx)) id).2 =
      Session.keyAnswer id keyFrame (valueFrames (wires counted.flat)) := by
    simp only [Session.handleKeyRequest, Session.requestFromTx, hkeyFrames, hvalues, test, hfind,
      Option.map_some, Option.some_or, Option.getD_some]
  intro sent hsent
  rw [hanswer, Session.keyAnswer] at hsent
  rcases List.mem_append.mp hsent with hsent | hsent
  · rcases List.mem_cons.mp hsent with rfl | hsync
    · exact hkeyFrame
    · rw [List.mem_singleton.mp hsync]
      exact .sync
  · rw [Option.mem_toList] at hsent
    exact offered_valueFrames sent (List.mem_of_find?_eq_some hsent)

/-- A session speaks of the keys of its principal only, if it is asked for no
others and for no resync. -/
theorem offered_serve {host : Host} {frame : Frame} (hresync : frame.frameType ≠ .clientResyncReq)
    (hlive : frame.frameType = .clientKeyRequest →
      ∃ wire ∈ wires host.counted.flat, wire.2.keyId = frame.keyId) :
    ∀ sent ∈ (handshake.serve host frame).2, Offered (wires host.counted.flat) sent := by
  have hvalues : (recomputed host.counted.ptx).buildValueFrames =
      valueFrames (wires host.counted.flat) := buildValueFrames_eq host.counted.flat
  dsimp only [handshake]
  rw [Session.handleFrame]
  split
  · rw [Option.map_some, Option.getD_some, hvalues]
    dsimp only
    split
    · simp
    · split
      · exact offered_valueFrames
      · exact offered_valueFrames
  · next htype => exact absurd htype hresync
  · next htype => exact offered_handleKeyRequest host.session host.counted (hlive htype)
  · simp

end Serving

section Apart

variable [HashOrder StdString] {counted : Counted} {session : Session} {client : Client}

/-- The client and the principal will not agree on the keys any more. -/
structure Parting (counted : Counted) (link : Link Host Client Frame Frame) : Prop where
  counted_eq : link.server.counted = counted
  apart : Apart (wires counted.flat) (keyStore link.client).registry
  resync : ∀ frame ∈ link.up, frame.frameType ≠ .clientResyncReq
  live : ∀ id ∈ requestsIn link.up, ∃ wire ∈ wires counted.flat, wire.2.keyId = id

theorem parting_advance {server : Host} {frame : Frame} {up : List Frame}
    (h : Parting counted ⟨server, client, [], frame :: up⟩) :
    Parting counted (handshake.advance ⟨server, client, [], frame :: up⟩) := by
  obtain rfl : server.counted = counted := h.counted_eq
  have hresync : ∀ sent ∈ frame :: up, sent.frameType ≠ .clientResyncReq := h.resync
  have hlive : ∀ id ∈ requestsIn (frame :: up),
      ∃ wire ∈ wires server.counted.flat, wire.2.keyId = id := h.live
  have hoffered := offered_serve (hresync frame List.mem_cons_self) fun htype => by
    have hfirst : requestsIn (frame :: up) = frame.keyId :: requestsIn up :=
      List.filterMap_cons_some (if_pos htype)
    rw [hfirst] at hlive
    exact hlive frame.keyId List.mem_cons_self
  have hsync := fun sent hsent => isSyncFrame_of_offered (hoffered sent hsent)
  obtain ⟨hrequests, hquiet⟩ := sent_receive client hsync
  rw [advance_eq]
  refine ⟨rfl, ?_, fun sent hsent => ?_, fun id hid => ?_⟩
  · dsimp only
    rw [keyStore_receive client hsync]
    exact apart_receive hoffered h.apart
  · rcases List.mem_append.mp hsent with hsent | hsent
    · exact hresync sent (List.mem_cons_of_mem frame hsent)
    · exact hquiet sent hsent
  · rw [requestsIn_append] at hid
    rcases List.mem_append.mp hid with hid | hid
    · refine hlive id ?_
      rw [show frame :: up = [frame] ++ up from rfl, requestsIn_append]
      exact List.mem_append_right _ hid
    · rw [hrequests] at hid
      exact live_asksFor hoffered id hid

theorem parting_started (session : Session) (hstate : client.state ≠ .ready)
    (hapart : Apart (wires counted.flat)
      ((keyStore client).receive (registrationFrames (wires counted.flat))).registry) :
    Parting counted (handshake.caughtUp (started counted session client)) := by
  obtain ⟨rest, hcaughtUp, hrest⟩ := caughtUp_started counted session hstate
  have hup : ∀ frame ∈ signalFrame .clientReady :: rest, Unsolicited frame := by
    rw [List.forall_mem_cons]
    exact ⟨⟨FrameType.noConfusion, FrameType.noConfusion⟩, hrest⟩
  rw [hcaughtUp]
  refine ⟨rfl, ?_, fun frame hframe => (hup frame hframe).2, fun id hid => ?_⟩
  · dsimp only
    rw [keyStore_announced, keyStore_receive client (isSyncFrame_registrationFrames _)]
    exact hapart
  · rw [requestsIn_eq_nil hup] at hid
    cases hid

theorem callsMeet_of_nil {condition : Host → Operation → Prop}
    {link : Link Host Client Frame Frame} {events : List (Links.Event Operation)}
    (h : Parties.callsOf events = []) :
    StepsMeet handshake.step (Parties.CallsMeet condition) link events :=
  @Parties.callsMeet_append _ _ _ _ _ handshake condition link [] events trivial h

/-- What the session keeps by taking a frame is kept by all deliveries. -/
theorem invariant_deliveries {invariant : Link Host Client Frame Frame → Prop}
    (hserve : ∀ server client frame up, invariant ⟨server, client, [], frame :: up⟩ →
      invariant (handshake.advance ⟨server, client, [], frame :: up⟩))
    {link : Link Host Client Frame Frame} (h : invariant (handshake.caughtUp link))
    {events : List (Links.Event Operation)} (hcalls : Parties.callsOf events = []) :
    invariant (handshake.caughtUp (run handshake.step link events)) :=
  @Parties.invariant_caughtUp _ _ _ _ _ handshake (fun _ _ => False)
    (fun _ link => invariant link) (fun _ _ _ _ _ hfalse => hfalse.elim)
    (fun _ => hserve) [] link h events (callsMeet_of_nil hcalls)

theorem exists_exact {link : Link Host Client Frame Frame} (h : Converges link []) :
    ∃ events, Parties.callsOf events = [] ∧ Parties.Quiescent (run handshake.step link events) ∧
      Exact (run handshake.step link events).client
        (run handshake.step link events).server.counted.ptx := by
  obtain ⟨_, events, hcalls, hquiescent⟩ := h [] rfl trivial
  exact ⟨events, hcalls, hquiescent, (h events hcalls (callsMeet_of_nil hcalls)).1 hquiescent⟩

theorem not_converges_of_apart (hstart : counted.flat.wirePrefix = []) (session : Session)
    (hstate : client.state ≠ .ready)
    (hapart : Apart (wires counted.flat)
      ((keyStore client).receive (registrationFrames (wires counted.flat))).registry) :
    ¬ Converges (started counted session client) [] := by
  intro hconverges
  obtain ⟨events, hcalls, hquiescent, hexact⟩ := exists_exact hconverges
  have hparting := invariant_deliveries (fun _ _ _ _ h => parting_advance h)
    (parting_started session hstate hapart) hcalls
  rw [handshake.caughtUp_of_quiescent hquiescent] at hparting
  rw [hparting.counted_eq, exact_iff_copies hstart] at hexact
  exact not_copies_of_apart hparting.apart hexact

end Apart

end DanWs.ReturningClients
