import DanWs.EventActions
import DanWs.KeyFrameCache

namespace DanWs.PrincipalContents

open DanWs.EventActions
open DanWs.FiniteMaps
open DanWs.KeyFrameCache
open DanWs.Principals
open DanWs.ServerActions
open DanWs.ServerCalls
open DanWs.ServerConditions
open DanWs.ServerMoves
open DanWs.ServerTurns
open DanWs.Servers
open DanWs.Sessions
open DanWs.StepRuns
open DanWs.WireTypes

def plain (ptx : PrincipalTX) : PrincipalTX :=
  { ptx with cachedKeyFrames := [], keyFramesCached := false }

def contents (manager : PrincipalManager) (name : StdString) : PrincipalTX :=
  plain (manager.principal name).2

section Managers

variable {manager : PrincipalManager} {name : StdString}

theorem contents_of_lookup {ptx : PrincipalTX} (h : manager.principals.lookup name = some ptx) :
    contents manager name = plain ptx := by
  rw [contents, PrincipalManager.principal, h]

theorem contents_of_absent (h : manager.principals.lookup name = none) :
    contents manager name = PrincipalTX.new name manager.onNewPrincipal := by
  rw [contents, PrincipalManager.principal, h]
  rfl

theorem contents_congr {next : PrincipalManager}
    (hlookup : next.principals.lookup name = manager.principals.lookup name)
    (hnew : next.onNewPrincipal = manager.onNewPrincipal) :
    contents next name = contents manager name := by
  cases h : manager.principals.lookup name with
  | none => rw [contents_of_absent h, contents_of_absent (hlookup.trans h), hnew]
  | some ptx => rw [contents_of_lookup h, contents_of_lookup (hlookup.trans h)]

theorem contents_store (manager : PrincipalManager) (other : StdString) (ptx : PrincipalTX) :
    contents (manager.store other ptx) name =
      if other = name then plain ptx else contents manager name := by
  split
  · next heq =>
      subst heq
      exact contents_of_lookup (Finmap.lookup_insert _)
  · next hne => exact contents_congr (Finmap.lookup_insert_of_ne _ (Ne.symm hne)) rfl

theorem contents_principal (manager : PrincipalManager) (other : StdString) :
    contents (manager.principal other).1 name = contents manager name := by
  rw [PrincipalManager.principal]
  cases h : manager.principals.lookup other with
  | some ptx => rfl
  | none =>
      rcases eq_or_ne other name with rfl | hne
      · rw [contents_of_absent h, contents_of_lookup (Finmap.lookup_insert _)]
        rfl
      · exact contents_congr (Finmap.lookup_insert_of_ne _ hne.symm) rfl

theorem contents_addSession (manager : PrincipalManager) (other : StdString) :
    contents (manager.addSession other) name = contents manager name := contents_congr rfl rfl

theorem contents_removeSession (manager : PrincipalManager) (other : StdString) :
    contents (manager.removeSession other).1 name = contents manager name := by
  rw [PrincipalManager.removeSession]
  split
  · rfl
  · split <;> exact contents_congr rfl rfl

end Managers

section Operations

variable [HashOrder StdString]

def change (ptx : PrincipalTX) (operation : Operation) : PrincipalTX := plain (apply ptx operation)

theorem plain_buildKeyFrames (ptx : PrincipalTX) : plain ptx.buildKeyFrames.1 = plain ptx := by
  rw [PrincipalTX.buildKeyFrames]
  split <;> rfl

theorem plain_triggerResync (ptx : PrincipalTX) : plain ptx.triggerResync.1 = plain ptx := by
  rw [PrincipalTX.triggerResync]
  dsimp only
  split
  · exact plain_buildKeyFrames _
  · rfl

theorem plain_clear (ptx : PrincipalTX) :
    plain ptx.clear.1 = { plain ptx with flatState := ptx.flatState.clear.1, nextKeyId := 1 } := by
  rw [PrincipalTX.clear]
  dsimp only
  split
  · exact congrArg (fun found : PrincipalTX => { found with nextKeyId := 1 })
      (plain_triggerResync _)
  · rfl

theorem change_plain (ptx : PrincipalTX) (operation : Operation) :
    change (plain ptx) operation = change ptx operation := by
  cases operation with
  | set | clearKey => rfl
  | clear =>
      rw [change, change, apply, apply, plain_clear, plain_clear]
      rfl
  | buildKeyFrames =>
      rw [change, change, apply, apply, plain_buildKeyFrames, plain_buildKeyFrames]
      rfl

theorem plain_of_startSync (session : Session) {tx : Option PrincipalTX} :
    (session.startSync tx).tx.map plain = tx.map plain := by
  cases tx with
  | none => rfl
  | some ptx => exact congrArg some (plain_buildKeyFrames ptx)

theorem plain_of_handleFrame (session : Session) {tx : Option PrincipalTX} (frame : Frame) :
    (session.handleFrame tx frame).tx.map plain = tx.map plain := by
  unfold Session.handleFrame
  cases frame.frameType with
  | clientReady =>
      dsimp only
      split
      · rfl
      · split <;> rfl
  | clientResyncReq | clientKeyRequest =>
      cases tx with
      | none => rfl
      | some ptx => exact congrArg some (plain_buildKeyFrames ptx)
  | _ => rfl

end Operations

section Actions

def operationOf : PrincipalCall → Operation
  | .set key value => .set key value
  | .clearKey key => .clearKey key

/-- The call that an action makes on the principal. -/
def operationOn (name : StdString) : Action → Option Operation
  | .callPrincipal other call => if other = name then some (operationOf call) else none
  | .clearPrincipal other => if other = name then some .clear else none
  | _ => none

theorem principals_enqueue (server : Server) (a : Addr) (frames : List Frame) :
    (server.enqueue a frames).principals = server.principals := by
  obtain ⟨history, heq⟩ := enqueue_eq server a frames
  rw [heq]

/-- Storing what a session has made of its principal changes nothing. -/
theorem contents_store_of_plain {manager : PrincipalManager} {provider : Option StdString}
    {after : Option PrincipalTX}
    (hplain : after.map plain = (provider.bind manager.principals.lookup).map plain)
    {other : StdString} (hprovider : provider = some other) {ptx : PrincipalTX}
    (hafter : after = some ptx) (name : StdString) :
    contents (manager.store other ptx) name = contents manager name := by
  subst hprovider hafter
  rw [Option.bind_some, Option.map_some] at hplain
  obtain ⟨before, hbefore, hsame⟩ := Option.map_eq_some_iff.mp hplain.symm
  rw [contents_store]
  split
  · next heq => rw [← hsame, ← heq, contents_of_lookup hbefore]
  · rfl

theorem contents_runSession (server : Server) (name : StdString) (a : Addr)
    {operation : Session → Option PrincipalTX → Outcome}
    (hplain : ∀ session tx, (operation session tx).tx.map plain = tx.map plain) :
    contents (server.runSession a operation).principals name =
      contents server.principals name := by
  rw [Server.runSession]
  dsimp only
  split
  all_goals
    refine (congrArg (contents · name) (principals_enqueue _ a _)).trans ?_
    dsimp only
    split
    · next hprovider hafter =>
        exact contents_store_of_plain (hplain _ _) hprovider hafter name
    · rfl

theorem contents_activateSession [HashOrder StdString] (server : Server) (name : StdString)
    (a : Addr)
    (principal : StdString) :
    contents (server.activateSession a principal).principals name =
      contents server.principals name := by
  rw [Server.activateSession]
  split
  · dsimp only
    rw [principals_enqueue]
    rfl
  · dsimp only
    rw [contents_runSession _ _ _ fun session _ => plain_of_startSync session]
    exact (contents_addSession _ _).trans (contents_principal _ _)

theorem contents_handleSessionDisconnect (server : Server) (name uuid : StdString)
    (cause : ConnId) :
    contents (server.handleSessionDisconnect uuid cause).principals name =
      contents server.principals name := by
  obtain heq | ⟨a, -, heq⟩ | ⟨a, -, heq⟩ := handleSessionDisconnect_cases server uuid cause
  · rw [heq]
  · rw [heq]
  · rw [heq, Server.disconnectSession]
    dsimp only
    split
    · rw [contents_removeSession, Server.indexRemoveSession]
      split <;> rfl
    · rfl

theorem principals_closeSession (server : Server) (a : Addr) :
    (server.closeSession a).principals = server.principals := by
  obtain ⟨connections, heq⟩ := closeSession_eq server a
  rw [heq]

variable [HashOrder StdString]

theorem principals_close (server : Server) : server.close.principals = server.principals := by
  have hall : ∀ (sessions : List Addr) (server : Server),
      (sessions.foldl Server.closeSession server).principals = server.principals := by
    intro sessions
    induction sessions with
    | nil => exact fun _ => rfl
    | cons a sessions ih => exact fun server => (ih _).trans (principals_closeSession server a)
  exact hall _ _

variable [HashOrder Addr]

theorem contents_changePrincipal (server : Server) (name other : StdString)
    (call : PrincipalCall) :
    contents (server.changePrincipal other call.operation).principals name =
      if other = name then change (contents server.principals name) (operationOf call)
      else contents server.principals name := by
  obtain ⟨history, heq⟩ := changePrincipal_eq server other call.operation
  rw [heq]
  dsimp only
  rw [contents_store, contents_principal]
  split
  · next hname =>
      subst hname
      rw [contents, change_plain]
      cases call <;> rfl
  · rfl

theorem contents_clearPrincipal (server : Server) (name other : StdString) :
    contents (server.clearPrincipal other).principals name =
      if other = name then change (contents server.principals name) .clear
      else contents server.principals name := by
  obtain ⟨history, heq⟩ := clearPrincipal_eq server other
  rw [heq]
  dsimp only
  rw [contents_store, contents_principal]
  split
  · next hname =>
      subst hname
      rw [contents, change_plain]
      rfl
  · rfl

theorem contents_perform (server : Server) (name : StdString) (action : Action) :
    contents (perform server action).principals name =
      (operationOn name action).toList.foldl change (contents server.principals name) := by
  cases action with
  | callPrincipal other call =>
      rw [perform, contents_changePrincipal, operationOn]
      split <;> rfl
  | clearPrincipal other =>
      rw [perform, contents_clearPrincipal, operationOn]
      split <;> rfl
  | disconnect clientUuid cause =>
      exact contents_handleSessionDisconnect server name clientUuid cause
  | close => exact congrArg (contents · name) (principals_close server)
  | limit ws now =>
      obtain ⟨heap, heq⟩ := limitFrame_eq server ws now
      rw [perform, heq]
      rfl
  | answerTopic a frame => exact congrArg (contents · name) (principals_enqueue _ a _)
  | callSession a call => exact congrArg (contents · name) (principals_enqueue _ a _)
  | answer a frame =>
      exact contents_runSession server name a fun session _ => plain_of_handleFrame session frame
  | takeOver clientUuid ws =>
      rw [perform]
      cases server.sessions.lookup clientUuid with
      | none => rfl
      | some a =>
          dsimp only
          rw [Server.attach]
          split
          · rfl
          · exact contents_activateSession _ name a _
  | create clientUuid ws now =>
      rw [perform]
      cases server.sessions.lookup clientUuid with
      | some a => rfl
      | none =>
          dsimp only
          rw [Server.createSession]
          split
          · rfl
          · exact contents_activateSession _ name _ _
  | authorize clientUuid principal via =>
      rw [perform, Server.authorize]
      split
      · rfl
      cases server.tmpSessions.lookup clientUuid with
      | none => rfl
      | some a =>
          obtain ⟨effects, framesOut, heq, -⟩ := accept_eq server clientUuid a principal via
          refine (contents_activateSession _ name a principal).trans ?_
          rw [heq]
          rfl
  | reject clientUuid reason =>
      rw [perform]
      cases server.tmpSessions.lookup clientUuid with
      | none => rfl
      | some a =>
          obtain ⟨history, framesOut, heq⟩ := sendFrame_eq
            { server with tmpSessions := server.tmpSessions.erase clientUuid } a
            (authFailFrame reason)
          dsimp only
          rw [heq]
          rfl
  | connect | receive | shut | identify | dispatch | stopHeartbeat | heartbeat
  | enableAuthorization | setMaxConnections | setMaxFramesPerSec | onAuthorize => rfl

end Actions

section Calls

variable {mode : ServerMode} {name : StdString}

/-- The call that an event makes on the principal, if the mode has such calls. -/
def callOn (mode : ServerMode) (name : StdString) : Event → Option Operation
  | .set key value =>
      if mode = .broadcast ∧ broadcastPrincipal = name then some (.set key value) else none
  | .clear => if mode = .broadcast ∧ broadcastPrincipal = name then some .clear else none
  | .clearKey key =>
      if mode = .broadcast ∧ broadcastPrincipal = name then some (.clearKey key) else none
  | .principalSet other key value =>
      if (mode = .principal ∨ mode = .sessionPrincipalTopic) ∧ other = name then
        some (.set key value)
      else none
  | .principalClear other =>
      if (mode = .principal ∨ mode = .sessionPrincipalTopic) ∧ other = name then some .clear
      else none
  | .principalClearKey other key =>
      if (mode = .principal ∨ mode = .sessionPrincipalTopic) ∧ other = name then
        some (.clearKey key)
      else none
  | _ => none

theorem operationOn_of_reacts {sessions : FiniteMap StdString Addr} {action : Action}
    (h : Reacts sessions action) : operationOn name action = none := by
  cases action with
  | callPrincipal | clearPrincipal => cases h
  | _ => rfl

theorem operations_of_reactions {sessions : FiniteMap StdString Addr} {actions : List Action}
    (h : Reactions sessions actions) : actions.filterMap (operationOn name) = [] :=
  List.filterMap_eq_nil_iff.mpr fun action haction => operationOn_of_reacts (h action haction)

theorem operations_singleton (action : Action) :
    [action].filterMap (operationOn name) = (operationOn name action).toList := by
  rw [List.filterMap_cons, List.filterMap_nil]
  cases operationOn name action <;> rfl

variable [HashOrder StdString] {server : Server}

theorem operations_onFrameActions (ws : ConnId) (frame : Frame) (now : Nat) :
    (onFrameActions server ws frame now).filterMap (operationOn name) = [] := by
  rcases onFrameActions_cases server ws frame now with
    hreactions | ⟨-, clientUuid, closing, last, heq, hclosing, hlast⟩
  · exact operations_of_reactions hreactions
  · have hbegun : last.filterMap (operationOn name) = [] := by
      rcases hlast with rfl | rfl | rfl <;> rfl
    have hidentify : operationOn name (.identify ws clientUuid) = none := rfl
    rw [heq, List.filterMap_cons_none rfl, List.filterMap_cons_none rfl,
      List.filterMap_cons_none hidentify, List.filterMap_append, hbegun,
      operations_of_reactions hclosing]
    rfl

theorem operations_handleActions (event : Event) :
    (handleActions server event).filterMap (operationOn name) =
      (callOn server.mode name event).toList := by
  cases event with
  | frame ws frame now =>
      rw [handleActions]
      split
      · exact operations_onFrameActions ws frame now
      · rfl
  | connect | heartbeatTimeout | heartbeatSend =>
      rw [handleActions]
      split <;> rfl
  | closed ws =>
      have hreactions : Reactions server.sessions (handleActions server (.closed ws)) :=
        reactions_cons.mpr ⟨trivial, reactions_onCloseActions _ ws⟩
      exact operations_of_reactions hreactions
  | reject clientUuid reason =>
      have hreactions :
          Reactions server.sessions (handleActions server (.reject clientUuid reason)) :=
        reactions_rejectActions server clientUuid reason
      exact operations_of_reactions hreactions
  | set | clear | clearKey =>
      rw [handleActions, broadcastActions, callOn]
      by_cases hmode : server.mode = .broadcast
      · simp only [hmode, if_true, true_and]
        exact operations_singleton _
      · simp [hmode]
  | principalSet other | principalClear other | principalClearKey other =>
      rw [handleActions, principalActions, callOn]
      by_cases hmode : server.mode = .principal ∨ server.mode = .sessionPrincipalTopic
      · simp only [hmode, if_true, true_and]
        exact operations_singleton _
      · simp [hmode]
  | enableAuthorization | setMaxConnections | setMaxFramesPerSec | onAuthorize | authorize
  | sessionSet | sessionClear | sessionClearKey | topicSet | topicClear | topicClearKey | close =>
      rfl

theorem operations_actions (h : server.undefinedBehaviour = false) (event : Event) :
    (actions server event).filterMap (operationOn name) =
      (callOn server.mode name event).toList := by
  rw [actions, h, if_neg Bool.false_ne_true, operations_handleActions]

end Calls

section Runs

variable [HashOrder StdString] [HashOrder Addr] {server : Server}

theorem contents_actions (server : Server) (name : StdString) (actions : List Action) :
    contents (run perform server actions).principals name =
      run change (contents server.principals name) (actions.filterMap (operationOn name)) := by
  induction actions generalizing server with
  | nil => rfl
  | cons action actions ih =>
      rw [run_cons, ih, contents_perform, List.filterMap_cons]
      cases operationOn name action <;> rfl

theorem contents_step (hdefined : server.undefinedBehaviour = false) (name : StdString)
    (event : Event) :
    contents (step server event).principals name =
      run change (contents server.principals name) (callOn server.mode name event).toList := by
  rw [← run_actions, contents_actions, operations_actions hdefined]

theorem step_of_undefined (h : server.undefinedBehaviour) (event : Event) :
    step server event = server := if_pos h

theorem run_of_undefined (h : server.undefinedBehaviour) (events : List Event) :
    run step server events = server := by
  induction events with
  | nil => rfl
  | cons event events ih => rw [run_cons, step_of_undefined h, ih]

theorem defined_of_run {events : List Event}
    (h : (run step server events).undefinedBehaviour = false) :
    server.undefinedBehaviour = false := by
  refine Bool.eq_false_iff.mpr fun hundefined => ?_
  rw [run_of_undefined hundefined, hundefined] at h
  cases h

theorem mode_run (server : Server) (events : List Event) :
    (run step server events).mode = server.mode := by
  have hmeet : StepsMeet step (fun server event => stepMeets Permits.any server event ∧
      Terms.any.Meets server event) server events :=
    stepsMeet_mono (fun server event _ => ⟨stepMeets_any server event, fun _ => trivial,
      fun _ _ => trivial, fun _ _ => trivial⟩) (stepsMeet_of_forall fun _ _ => trivial)
  have hkeep : ∀ mid next, mid.mode = server.mode → Turn Permits.any Terms.any mid next →
      next.mode = server.mode := fun mid next hmid hturn => (mode_turn hturn).trans hmid
  exact turns_run hkeep rfl hmeet

/-- In every run a principal holds what the calls on it have left, whatever else has
happened to the server in between. -/
theorem contents_run (mode : ServerMode) (name : StdString) {events : List Event}
    (hdefined : (run step (Server.new mode) events).undefinedBehaviour = false) :
    contents (run step (Server.new mode) events).principals name =
      run change (PrincipalTX.new name (Server.new mode).principals.onNewPrincipal)
        (events.filterMap (callOn mode name)) := by
  induction events using List.reverseRecOn with
  | nil => rfl
  | append_singleton events event ih =>
      rw [run_append, run_cons, run_nil] at hdefined ⊢
      have hbefore : (run step (Server.new mode) events).undefinedBehaviour = false :=
        @defined_of_run _ _ _ [event] hdefined
      have hmode : (run step (Server.new mode) events).mode = mode := mode_run _ events
      rw [contents_step hbefore, ih hbefore, hmode, List.filterMap_append, run_append]
      rw [List.filterMap_cons, List.filterMap_nil]
      cases callOn mode name event <;> rfl

end Runs

def aliceEvents : List Event :=
  [.enableAuthorization true, .principalSet (str "alice") (str "k") (.int32 1), .connect 1 false,
    .frame 1 (Server.identifyFrame (List.replicate 16 0)) 0,
    .authorize (str "00000000-0000-0000-0000-000000000000") [] (str "alice"),
    .frame 1 (signalFrame .clientReady) 0, .principalSet (str "bob") (str "k") (.int32 2),
    .principalSet (str "alice") (str "j") (.bool true), .frame 1 (signalFrame .clientResyncReq) 0,
    .principalClearKey (str "alice") (str "k"), .closed 1]

theorem contents_run_alice :
    let _ := HashOrder.ascending StdString
    let _ := HashOrder.ascending Addr
    contents (run step (Server.new .principal) aliceEvents).principals
        (str "alice") =
      run change (PrincipalTX.new (str "alice") true)
        [.set (str "k") (.int32 1), .set (str "j") (.bool true), .clearKey (str "k")] := by
  intro _ _
  have hdefined : (run step (Server.new .principal) aliceEvents).undefinedBehaviour = false := by
    decide +kernel
  exact contents_run .principal (str "alice") hdefined

end DanWs.PrincipalContents
