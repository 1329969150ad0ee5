import DanWs.HandshakeStages

namespace DanWs.Handshakes

open DanWs.Clients
open DanWs.FiniteMaps
open DanWs.FlatStates
open DanWs.HandshakeParties
open DanWs.HandshakeStages
open DanWs.KeyFrameCache
open DanWs.KeyPaths
open DanWs.KeyRequests
open DanWs.KeyStores
open DanWs.Links
open DanWs.PrincipalReplication
open DanWs.Principals
open DanWs.Replicas
open DanWs.Sessions
open DanWs.Settlement
open DanWs.SettlingKeys
open DanWs.StepRuns
open DanWs.WireRows
open DanWs.WireTypes

section Convergence

variable [HashOrder StdString] {counted : Counted} {calls : List Operation} {session : Session}
  {client : Client} {link : Link Host Client Frame Frame}

theorem stage_run (hsound : Sound counted) (hfresh : keyStore client = keyStore Client.new)
    (hstate : client.state ≠ .ready) {events : List (Event Operation)}
    (hmeet : StepsMeet handshake.step (Parties.CallsMeet InWindow)
      (started counted session client) events) :
    Stage counted (Parties.callsOf events)
      (handshake.caughtUp (run handshake.step (started counted session client) events)) := by
  have hids := uniqueIds_rows hsound.ids
  exact Parties.invariant_caughtUp
    (fun calls server client up operation hwindow h => stage_call hwindow h)
    (fun calls server client frame up h => stage_serve hids h)
    (stage_started hsound session hfresh hstate) hmeet

theorem stage_quiescent (h : Stage counted calls link) (hquiescent : Parties.Quiescent link) :
    ∃ known, Told counted calls known ∧
      AllRoom known (wires link.server.counted.flat) ∧
      (Exact link.client link.server.counted.ptx ↔
        Compatible known (wires link.server.counted.flat)) := by
  obtain ⟨known, htold, hwaiting | hexchanging⟩ := h.stage
  · obtain ⟨rest, hup, _⟩ := hwaiting.up
    rw [hquiescent.2] at hup
    cases hup
  · have hprogress := hexchanging.progress
    rw [hquiescent.2] at hprogress
    obtain ⟨hroom, hsettling⟩ := settling_of_progress hprogress
    refine ⟨known, htold, hroom, ?_⟩
    rw [exact_iff_copies h.sound.wirePrefix]
    exact copies_iff hsettling (distinct_wires h.sound.toNumbered)

/-- What is left to be done: `todo` requests, and the frames on their way. -/
def Rank (known : Finset WireRow) (flat : List (StdString × Entry)) (r : Nat × Nat)
    (link : Link Host Client Frame Frame) : Prop :=
  Sound link.server.counted ∧ wires link.server.counted.flat = flat ∧
    ((Waiting known link ∧ r.1 = (unknownWires known flat).length + 1) ∨
      link.server.session.state = .ready ∧ (∀ frame ∈ link.up, frame.frameType ≠ .clientResyncReq) ∧
        ∃ done todo, unknownWires known flat = done ++ todo ∧
          Settling known flat flat done (keyStore link.client) ∧
          requestsIn link.up = wireIds todo ∧ r = (todo.length, link.up.length))

/-- Each frame that the session takes brings the exchange closer to its end. -/
theorem rank_advance {known : Finset WireRow} {flat : List (StdString × Entry)}
    (hids : UniqueIds known) (hroom : AllRoom known flat) {r : Nat × Nat} {server : Host}
    {frame : Frame} {up : List Frame} (h : Rank known flat r ⟨server, client, [], frame :: up⟩) :
    ∃ r', Prod.Lex (· < ·) (· < ·) r' r ∧
      Rank known flat r' (handshake.advance ⟨server, client, [], frame :: up⟩) := by
  obtain ⟨hsound, rfl, hrank⟩ := h
  rcases hrank with ⟨hwaiting, hr⟩ | ⟨hready, hup, done, todo, hsplit, hsettling, hrequests, rfl⟩
  · obtain ⟨next, sent, heq, hsettling, hrequests, hresync⟩ := advance_waiting hsound hids hwaiting
    let todo := unknownWires known (wires server.counted.flat)
    have hless : todo.length < r.1 := hr ▸ Nat.lt_succ_self todo.length
    refine ⟨(todo.length, (up ++ sent).length), Prod.Lex.left _ _ hless, ?_⟩
    rw [heq]
    exact ⟨hsound, rfl, Or.inr ⟨rfl, hresync, [], todo, rfl, hsettling, hrequests, rfl⟩⟩
  · rcases advance_ready hsound.toNumbered hready (hup frame List.mem_cons_self) with
      ⟨htype, hanswer⟩ | ⟨htype, heq⟩
    · have hfirst : requestsIn (frame :: up) = frame.keyId :: requestsIn up :=
        List.filterMap_cons_some (if_pos htype)
      cases todo with
      | nil =>
          rw [hfirst] at hrequests
          cases hrequests
      | cons wire todo =>
          obtain ⟨hid, hlater⟩ := List.cons.inj (hfirst.symm.trans hrequests)
          have hdistinct := distinct_wires hsound.toNumbered
          have hasked := asked_of_split hdistinct nodup_wires_of hsplit
          have hsplit' : unknownWires known (wires server.counted.flat) =
              (done ++ [wire]) ++ todo := by
            rw [hsplit, List.append_assoc]
            rfl
          obtain ⟨hsettling', hnone⟩ := settling_answer hsettling hasked hdistinct
            (hsound.checked wire hasked.mem) (hroom done wire ⟨todo, hsplit'.symm⟩)
          obtain ⟨sent, heq, hkeys, hsent, hresync⟩ := hanswer wire hasked.mem hid
          refine ⟨(todo.length, (up ++ sent).length),
            Prod.Lex.left _ _ (Nat.lt_succ_self todo.length), ?_⟩
          rw [heq]
          refine ⟨hsound, rfl, Or.inr ⟨hready, fun other hother => ?_, done ++ [wire], todo,
            hsplit', ?_, ?_, rfl⟩⟩
          · rcases List.mem_append.mp hother with hother | hother
            · exact hup other (List.mem_cons_of_mem _ hother)
            · exact hresync other hother
          · dsimp only
            rw [hkeys]
            exact hsettling'
          · dsimp only
            rw [requestsIn_append, hsent, hnone, List.append_nil]
            exact hlater
    · have hfirst : requestsIn (frame :: up) = requestsIn up :=
        List.filterMap_cons_none (if_neg htype)
      refine ⟨(todo.length, up.length), Prod.Lex.right _ (Nat.lt_succ_self up.length), ?_⟩
      rw [heq]
      exact ⟨hsound, rfl, Or.inr ⟨hready,
        fun other hother => hup other (List.mem_cons_of_mem _ hother), done, todo, hsplit,
        hsettling, hfirst.symm.trans hrequests, rfl⟩⟩

/-- The exchange comes to an end if every key is accepted. -/
theorem exists_rest (hids : UniqueIds (rows counted.flat))
    (h : Stage counted calls (handshake.caughtUp link))
    (hrooms : ∀ known, Told counted calls known →
      AllRoom known (wires link.server.counted.flat)) :
    ∃ more, Parties.callsOf more = [] ∧ Parties.Quiescent (run handshake.step link more) := by
  obtain ⟨known, htold, hstage⟩ := h.stage
  have hroom := hrooms known htold
  have hknown := uniqueIds_of_told hids htold
  have hrank : ∃ r, Rank known (wires link.server.counted.flat) r (handshake.caughtUp link) := by
    rcases hstage with hwaiting | hexchanging
    · exact ⟨((unknownWires known (wires link.server.counted.flat)).length + 1, 0), h.sound, rfl,
        Or.inl ⟨hwaiting, rfl⟩⟩
    · have hprogress := hexchanging.progress
      generalize hrequests : requestsIn (handshake.caughtUp link).up = requests at hprogress
      cases hprogress with
      | settling done todo hsplit _ hsettling =>
          exact ⟨_, h.sound, rfl, Or.inr ⟨hexchanging.state, hexchanging.up, done, todo, hsplit,
            hsettling, hrequests, rfl⟩⟩
      | stuck _ hnoRoom _ => exact absurd hroom hnoRoom
  obtain ⟨r, hr⟩ := hrank
  exact Parties.exists_quiescent (WellFounded.prod_lex wellFounded_lt wellFounded_lt)
    (fun r server client frame up hr => rank_advance hknown hroom hr) hr

theorem callsMeet_map (hstate : link.server.session.state ≠ .ready)
    (hmeet : StepsMeet count Permitted link.server.counted calls) :
    StepsMeet handshake.step (Parties.CallsMeet InWindow) link (calls.map .call) := by
  induction calls generalizing link with
  | nil => trivial
  | cons operation calls ih => exact ⟨⟨hstate, hmeet.1⟩, ih hstate hmeet.2⟩

/-- A client that was told to forget all keys recovers. -/
theorem recovers_of_told (hsound : Sound (run count counted calls)) {known : Finset WireRow}
    (htold : Told counted calls known)
    (h : ClearsKeys counted calls ∨
      Recovers (rows counted.flat) (wires (run count counted calls).flat)) :
    Recovers known (wires (run count counted calls).flat) := by
  rcases htold with ⟨_, rfl⟩ | ⟨hkeeps, rfl⟩
  · refine recovers_empty ?_
    rw [length_wires]
    exact hsound.fits
  · exact h.resolve_left hkeeps

theorem stage_of_calls (hsound : Sound counted) (hfresh : keyStore client = keyStore Client.new)
    (hstate : client.state ≠ .ready) {events : List (Event Operation)}
    (hcallsOf : Parties.callsOf events = calls)
    (hwindow : StepsMeet handshake.step (Parties.CallsMeet InWindow)
      (started counted session client) events) :
    Stage counted calls
      (handshake.caughtUp (run handshake.step (started counted session client) events)) := by
  subst hcallsOf
  exact stage_run hsound hfresh hstate hwindow

/-- The run in which all calls come first, and then the deliveries that bring the
link to rest, shows what is needed. -/
theorem recovers_of_converges (hsound : Sound counted)
    (hfresh : keyStore client = keyStore Client.new) (hstate : client.state ≠ .ready)
    (hmeet : StepsMeet count Permitted counted calls)
    (h : Converges (started counted session client) calls) :
    ClearsKeys counted calls ∨
      Recovers (rows counted.flat) (wires (run count counted calls).flat) := by
  have hwindow : StepsMeet handshake.step (Parties.CallsMeet InWindow)
      (started counted session client) (calls.map .call) :=
    callsMeet_map (fun hready => SessionState.noConfusion hready) hmeet
  obtain ⟨_, more, hmore, hquiescent⟩ := h _ (Parties.callsOf_map calls) hwindow
  have hall : Parties.callsOf (calls.map Event.call ++ more) = calls := by
    rw [Parties.callsOf_append, Parties.callsOf_map, hmore, List.append_nil]
  have hwindowAll := Parties.callsMeet_append hwindow hmore
  have hlast := stage_of_calls hsound hfresh hstate hall hwindowAll
  rw [handshake.caughtUp_of_quiescent hquiescent] at hlast
  obtain ⟨known, htold, hroom, hiff⟩ := stage_quiescent hlast hquiescent
  rcases htold with ⟨hclears, _⟩ | ⟨_, rfl⟩
  · exact Or.inl hclears
  · have hexact := (h _ hall hwindowAll).1 hquiescent
    rw [hlast.called] at hroom hiff hexact
    exact Or.inr ⟨hiff.mp hexact, hroom⟩

theorem converges_of_recovers (hsound : Sound counted)
    (hfresh : keyStore client = keyStore Client.new) (hstate : client.state ≠ .ready)
    (h : ClearsKeys counted calls ∨
      Recovers (rows counted.flat) (wires (run count counted calls).flat)) :
    Converges (started counted session client) calls := by
  intro events hcallsOf hwindow
  have hlast := stage_of_calls hsound hfresh hstate hcallsOf hwindow
  have hcalled : (run handshake.step (started counted session client) events).server.counted =
      run count counted calls := hlast.called
  have hsoundLast : Sound (run count counted calls) := hcalled ▸ hlast.sound
  constructor
  · intro hquiescent
    rw [handshake.caughtUp_of_quiescent hquiescent] at hlast
    obtain ⟨known, htold, _, hiff⟩ := stage_quiescent hlast hquiescent
    rw [hiff, hcalled]
    exact (recovers_of_told hsoundLast htold h).toCompatible
  · obtain ⟨more, hmore, hquiescent⟩ := exists_rest (uniqueIds_rows hsound.ids) hlast
      fun known htold => by
        rw [hcalled]
        exact (recovers_of_told hsoundLast htold h).room
    refine ⟨more, hmore, ?_⟩
    rw [run_append]
    exact hquiescent

/-- A fresh client converges if and only if the calls of the window clear keys or
leave what the announced keys recover from. -/
theorem converges_iff {name : StdString} {history : List Operation}
    (hcounted : counted = run count (Counted.new name) history)
    (hhistory : StepsMeet count WithinCounter (Counted.new name) history)
    (hvalid : ∀ key ∈ counted.ptx.keys, checkKeyPath key = .ok ())
    (hfits : counted.ptx.keys.length ≤ 10000) (session : Session)
    (hfresh : keyStore client = keyStore Client.new) (hstate : client.state ≠ .ready)
    (hmeet : StepsMeet count Permitted counted calls) :
    Converges (started counted session client) calls ↔
      ClearsKeys counted calls ∨
        Recovers (rows counted.flat) (wires (run count counted calls).flat) := by
  have hsound : Sound counted := by
    refine ⟨hcounted ▸ numbered_run name hhistory, fun key entry hentry => hvalid key ?_, ?_⟩
    · rw [PrincipalTX.keys, FlatState.keys, HashOrder.order.mem_enumerate, mem_keys_iff_lookup]
      exact ⟨entry, hentry⟩
    · rwa [PrincipalTX.keys, FlatState.keys, IterationOrder.length_enumerate] at hfits
  exact ⟨recovers_of_converges hsound hfresh hstate hmeet,
    converges_of_recovers hsound hfresh hstate⟩

end Convergence

section Example

local instance stringOrder : HashOrder StdString := HashOrder.ascending StdString

def identified : Client := { Client.new with state := .identifying, socket := some true }

def announced : Counted := run count (Counted.new (str "p")) [.set (str "a") (.int32 1)]

def renewal : List Operation := [.set (str "b") .null, .clear, .set (str "a") (.int32 2)]

theorem converges_iff_renewal :
    Converges (started announced (Session.new (str "u")) identified) renewal ↔
      ClearsKeys announced renewal ∨
        Recovers (rows announced.flat) (wires (run count announced renewal).flat) :=
  converges_iff rfl (by decide +kernel) (by decide +kernel) (by decide +kernel) _ rfl
    ClientState.noConfusion (by decide +kernel)

/-- A key that is removed before `ClientReady` stays with the client. -/
theorem not_converges :
    ¬ ∀ (_ : HashOrder StdString) (name uuid : StdString) (history calls : List Operation),
      StepsMeet count Permitted (Counted.new name) history →
      StepsMeet count Permitted (run count (Counted.new name) history) calls →
      Converges (started (run count (Counted.new name) history) (Session.new uuid) identified)
        calls := by
  intro h
  have hconverges := h stringOrder (str "p") (str "u") [.set (str "a") (.int32 1)]
    [.clearKey (str "a")] (by decide +kernel) (by decide +kernel)
  let events : List (Event Operation) :=
    [.call (.clearKey (str "a")), .toClient, .toClient, .toServer]
  have hwindow : StepsMeet handshake.step (Parties.CallsMeet InWindow)
      (started announced (Session.new (str "u")) identified) events :=
    ⟨⟨SessionState.noConfusion, by decide +kernel⟩, trivial, trivial, trivial, trivial⟩
  have hexact := (hconverges events rfl hwindow).1 ⟨by decide +kernel, by decide +kernel⟩
  have hghost := (hexact.1 (str "a")).mp (by decide +kernel)
  exact absurd hghost (by decide +kernel)

end Example

end DanWs.Handshakes
