import DanWs.StepRuns

/-!
Two parties at the ends of a link that delivers in order, each of them answering
what it gets, and calls on one of them. A link may be looked at as if one party
had already taken in all that is on its way to it. The order in which the
parties run is then gone from the picture.
-/

namespace DanWs.Links

open DanWs.StepRuns

structure Link (σ τ δ υ : Type*) where
  server : σ
  client : τ
  /-- What is on its way to the client. -/
  down : List δ
  /-- What is on its way to the server. -/
  up : List υ

inductive Event (ε : Type*) where
  | call (operation : ε)
  | toClient
  | toServer

structure Parties (σ τ δ υ ε : Type*) where
  call : σ → ε → σ × List δ
  serve : σ → υ → σ × List δ
  react : τ → δ → τ × List υ

namespace Parties

section Steps

variable {σ τ δ υ ε : Type*} (parties : Parties σ τ δ υ ε)

def step (link : Link σ τ δ υ) : Event ε → Link σ τ δ υ
  | .call operation =>
      { link with
        server := (parties.call link.server operation).1
        down := link.down ++ (parties.call link.server operation).2 }
  | .toClient =>
      match link.down with
      | [] => link
      | message :: down =>
          { link with
            client := (parties.react link.client message).1
            down
            up := link.up ++ (parties.react link.client message).2 }
  | .toServer =>
      match link.up with
      | [] => link
      | message :: up =>
          { link with
            server := (parties.serve link.server message).1
            up
            down := link.down ++ (parties.serve link.server message).2 }

def receive (client : τ) : List δ → τ × List υ
  | [] => (client, [])
  | message :: messages =>
      let received := receive (parties.react client message).1 messages
      (received.1, (parties.react client message).2 ++ received.2)

/-- The link when the client has taken in all that is on its way. -/
def caughtUp (link : Link σ τ δ υ) : Link σ τ δ υ :=
  { link with
    client := (parties.receive link.client link.down).1
    down := []
    up := link.up ++ (parties.receive link.client link.down).2 }

def Quiescent (link : Link σ τ δ υ) : Prop := link.down = [] ∧ link.up = []

theorem receive_append (client : τ) (first second : List δ) :
    parties.receive client (first ++ second) =
      ((parties.receive (parties.receive client first).1 second).1,
        (parties.receive client first).2 ++
          (parties.receive (parties.receive client first).1 second).2) := by
  induction first generalizing client with
  | nil => rfl
  | cons message first ih =>
      simp only [List.cons_append, receive]
      rw [ih]
      simp

theorem caughtUp_of_quiescent {link : Link σ τ δ υ} (h : Quiescent link) :
    parties.caughtUp link = link := by
  obtain ⟨server, client, down, up⟩ := link
  obtain ⟨rfl, rfl⟩ := h
  rfl

theorem caughtUp_toClient (link : Link σ τ δ υ) :
    parties.caughtUp (parties.step link .toClient) = parties.caughtUp link := by
  obtain ⟨server, client, down, up⟩ := link
  cases down with
  | nil => rfl
  | cons message down => simp [step, caughtUp, receive, List.append_assoc]

theorem caughtUp_call (link : Link σ τ δ υ) (operation : ε) :
    parties.caughtUp (parties.step link (.call operation)) =
      parties.caughtUp (parties.step (parties.caughtUp link) (.call operation)) := by
  simp [step, caughtUp, receive_append, List.append_assoc]

theorem caughtUp_toServer {link : Link σ τ δ υ} (h : link.up ≠ []) :
    parties.caughtUp (parties.step link .toServer) =
      parties.caughtUp (parties.step (parties.caughtUp link) .toServer) := by
  obtain ⟨server, client, down, up⟩ := link
  cases up with
  | nil => exact absurd rfl h
  | cons message up => simp [step, caughtUp, receive_append, List.append_assoc]

/-- The client can always take in all that is on its way. -/
theorem exists_caughtUp (link : Link σ τ δ υ) :
    run parties.step link (List.replicate link.down.length .toClient) = parties.caughtUp link := by
  obtain ⟨server, client, down, up⟩ := link
  induction down generalizing client up with
  | nil => simp [caughtUp, receive]
  | cons message down ih =>
      rw [List.length_cons, List.replicate_succ, run_cons, ← caughtUp_toClient]
      exact ih _ _

variable {parties} {condition : σ → ε → Prop}

/-- The calls of a run are made under a condition on the server. -/
def CallsMeet (condition : σ → ε → Prop) (link : Link σ τ δ υ) : Event ε → Prop
  | .call operation => condition link.server operation
  | .toClient | .toServer => True

def callsOf (events : List (Event ε)) : List ε :=
  events.filterMap fun event =>
    match event with
    | .call operation => some operation
    | .toClient | .toServer => none

theorem callsOf_map (calls : List ε) : callsOf (calls.map .call) = calls := by
  rw [callsOf, List.filterMap_map]
  exact List.filterMap_some

theorem callsOf_append (first second : List (Event ε)) :
    callsOf (first ++ second) = callsOf first ++ callsOf second := List.filterMap_append

theorem callsMeet_append {link : Link σ τ δ υ} {events more : List (Event ε)}
    (h : StepsMeet parties.step (CallsMeet condition) link events) (hmore : callsOf more = []) :
    StepsMeet parties.step (CallsMeet condition) link (events ++ more) := by
  rw [stepsMeet_append]
  refine ⟨h, ?_⟩
  generalize run parties.step link events = last
  induction more generalizing last with
  | nil => trivial
  | cons event more ih =>
      cases event with
      | call operation => cases hmore
      | toClient | toServer => exact ⟨trivial, ih hmore _⟩

/-- What is true of the calls so far and of the link with its client caught up
stays true along a run, if calls and the server keep it. -/
theorem invariant_caughtUp {invariant : List ε → Link σ τ δ υ → Prop}
    (hcall : ∀ calls server client up operation, condition server operation →
      invariant calls ⟨server, client, [], up⟩ →
      invariant (calls ++ [operation])
        (parties.caughtUp (parties.step ⟨server, client, [], up⟩ (.call operation))))
    (hserve : ∀ calls server client message up,
      invariant calls ⟨server, client, [], message :: up⟩ →
      invariant calls
        (parties.caughtUp (parties.step ⟨server, client, [], message :: up⟩ .toServer)))
    {calls : List ε} {link : Link σ τ δ υ} (h : invariant calls (parties.caughtUp link))
    {events : List (Event ε)}
    (hmeet : StepsMeet parties.step (CallsMeet condition) link events) :
    invariant (calls ++ callsOf events) (parties.caughtUp (run parties.step link events)) := by
  induction events generalizing calls link with
  | nil => simpa [callsOf] using h
  | cons event events ih =>
      cases event with
      | call operation =>
          have hnext : invariant (calls ++ [operation])
              (parties.caughtUp (parties.step link (.call operation))) := by
            rw [caughtUp_call]
            exact hcall calls _ _ _ operation hmeet.1 h
          simpa [callsOf] using ih hnext hmeet.2
      | toClient =>
          have hnext : invariant calls (parties.caughtUp (parties.step link .toClient)) := by
            rw [caughtUp_toClient]
            exact h
          exact ih hnext hmeet.2
      | toServer =>
          refine ih ?_ hmeet.2
          obtain ⟨server, client, down, up⟩ := link
          cases up with
          | nil => exact h
          | cons message up =>
              rw [caughtUp_toServer parties (List.cons_ne_nil message up)]
              exact hserve calls server _ message _ h

/-- The server takes the next message, and the client all that comes of it. -/
def advance (parties : Parties σ τ δ υ ε) (link : Link σ τ δ υ) : Link σ τ δ υ :=
  parties.caughtUp (parties.step link .toServer)

/-- If the rank of a link falls whenever the server takes a message, the link can
be brought to rest. -/
theorem exists_quiescent {α : Type*} {less : α → α → Prop} (hwell : WellFounded less)
    {rank : α → Link σ τ δ υ → Prop}
    (hadvance : ∀ r server client message up, rank r ⟨server, client, [], message :: up⟩ →
      ∃ r', less r' r ∧ rank r' (parties.advance ⟨server, client, [], message :: up⟩))
    {r : α} {link : Link σ τ δ υ} (h : rank r (parties.caughtUp link)) :
    ∃ more, callsOf more = [] ∧ Quiescent (run parties.step link more) := by
  induction r using hwell.induction generalizing link with
  | _ r ih =>
      have hcaughtUp := parties.exists_caughtUp link
      have hsilent : ∀ count, callsOf (List.replicate count (Event.toClient : Event ε)) = [] := by
        intro count
        simp [callsOf]
      generalize hlink : parties.caughtUp link = caught at h hcaughtUp
      obtain ⟨server, client, down, up⟩ := caught
      have hdown : down = [] := (congrArg Link.down hlink).symm
      subst hdown
      cases up with
      | nil =>
          refine ⟨List.replicate link.down.length .toClient, hsilent _, ?_⟩
          rw [hcaughtUp]
          exact ⟨rfl, rfl⟩
      | cons message up =>
          obtain ⟨r', hless, hrank⟩ := hadvance r server client message up h
          obtain ⟨more, hcalls, hquiescent⟩ := ih r' hless hrank
          refine ⟨List.replicate link.down.length .toClient ++ .toServer :: more, ?_, ?_⟩
          · rw [callsOf, List.filterMap_append]
            exact (congrArg (· ++ _) (hsilent _)).trans hcalls
          · rw [run_append, hcaughtUp, run_cons]
            exact hquiescent

end Steps

end Parties

end DanWs.Links
