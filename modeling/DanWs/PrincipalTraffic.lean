import DanWs.Bystanders
import DanWs.KeyRequests

namespace DanWs.PrincipalTraffic

open DanWs.Bystanders
open DanWs.CalmActions
open DanWs.ConnectionPaths
open DanWs.EventActions
open DanWs.FiniteMaps
open DanWs.KeyFrameCache
open DanWs.KeyRequests
open DanWs.PrincipalContents
open DanWs.PrincipalReplication
open DanWs.Principals
open DanWs.ServerActions
open DanWs.ServerCalls
open DanWs.ServerMoves
open DanWs.Servers
open DanWs.SessionStanding
open DanWs.Sessions
open DanWs.SteadySync
open DanWs.WatchedSessions
open DanWs.WireTypes

section Recipients

variable {ws : ConnId} {a b : Addr} {server : Server}

theorem framesOn_enqueueFrom (htarget : (server.heap b).flushTarget = ws)
    (hopen : (server.connections ws).isOpen) (name : StdString) (frame : Frame) :
    framesOn ws (server.enqueueFrom name b frame).history =
      framesOn ws server.history ++ [frame] := by
  rw [Server.enqueueFrom, Server.enqueue, List.foldl_cons, List.foldl_nil, Server.record, htarget]
  dsimp only
  rw [if_pos hopen, Server.record]
  dsimp only
  rw [framesOn_cons, framesOn_cons]
  simp [frameOn]

theorem framesOn_frames (htarget : (server.heap b).flushTarget = ws)
    (hopen : (server.connections ws).isOpen) (name : StdString) (frames : List Frame) :
    framesOn ws
        (frames.foldl (fun server frame => server.enqueueFrom name b frame) server).history =
      framesOn ws server.history ++ frames := by
  induction frames generalizing server with
  | nil => exact (List.append_nil _).symm
  | cons frame frames ih =>
      obtain ⟨effects, -, heq⟩ := emits_frames_enqueueFrom server name b [frame]
      rw [List.foldl_cons, List.foldl_nil] at heq
      have hfirst := framesOn_enqueueFrom htarget hopen name frame
      rw [heq] at hfirst
      rw [List.foldl_cons, heq]
      refine (@ih { server with history := effects ++ server.history } htarget hopen).trans ?_
      rw [hfirst, List.append_assoc]
      rfl

theorem silent_frames (htarget : (server.heap b).flushTarget ≠ ws) (name : StdString)
    (frames : List Frame) :
    Silent ws server
      (frames.foldl (fun server frame => server.enqueueFrom name b frame) server) := by
  refine silent_of_emits (Emits.foldl fun history frame _ => ?_)
  exact emits_enqueueFrom _ rfl fun _ => frameOn_sent_of_ne htarget frame

theorem framesOn_recipients (htarget : (server.heap a).flushTarget = ws)
    (hopen : (server.connections ws).isOpen) (name : StdString) (frames : List Frame)
    {recipients : List Addr} (hnodup : recipients.Nodup)
    (hothers : ∀ b ∈ recipients, b ≠ a → (server.heap b).flushTarget ≠ ws) :
    framesOn ws
        (recipients.foldl (fun server b =>
          frames.foldl (fun server frame => server.enqueueFrom name b frame) server)
          server).history =
      framesOn ws server.history ++ if a ∈ recipients then frames else [] := by
  induction recipients generalizing server with
  | nil => exact (List.append_nil _).symm
  | cons b recipients ih =>
      obtain ⟨hnotMem, hrest⟩ := List.nodup_cons.mp hnodup
      obtain ⟨hfirst, hothers⟩ := List.forall_mem_cons.mp hothers
      obtain ⟨effects, -, heq⟩ := emits_frames_enqueueFrom server name b frames
      have hadded : framesOn ws (effects ++ server.history) =
          framesOn ws server.history ++ if b = a then frames else [] := by
        rcases eq_or_ne b a with rfl | hne
        · have hsent := framesOn_frames htarget hopen name frames
          rw [heq] at hsent
          rw [if_pos rfl]
          exact hsent
        · have hsilent := silent_frames (hfirst hne) name frames
          rw [heq] at hsilent
          rw [if_neg hne, List.append_nil]
          exact hsilent
      rw [List.foldl_cons, heq]
      refine (@ih { server with history := effects ++ server.history } htarget hopen hrest
        hothers).trans ?_
      rw [hadded, List.append_assoc]
      rcases eq_or_ne b a with rfl | hne
      · simp [hnotMem]
      · simp [hne, hne.symm]

end Recipients

section Calls

variable {session : Session} {name other : StdString} {a : Addr} {ws : ConnId}
  {frames : List Frame} {server : Server}

theorem watched_principals (h : Watched session name a ws frames server) {history : List Effect}
    {more : List Frame} (hmore : framesOn ws history = framesOn ws server.history ++ more)
    (principals : PrincipalManager) :
    Watched session name a ws (frames ++ more) { server with principals, history } :=
  ⟨h.post, h.connected, h.isOpen, h.indexed, h.unpended, h.known, h.sole,
    hmore.trans (by rw [h.frames])⟩

theorem watched_stored (h : Watched session name a ws frames server)
    (principals : PrincipalManager) :
    Watched session name a ws frames { server with principals } := by
  have hsame : framesOn ws server.history = framesOn ws server.history ++ [] :=
    (List.append_nil _).symm
  have hstored := watched_principals h hsame principals
  rwa [List.append_nil] at hstored

section Callbacks

variable [HashOrder Addr]

theorem framesOn_sends (h : Watched session name a ws frames server) {wants : Session → Bool}
    (hready : other = name → session.state = .ready)
    (hwants : other = name → wants (server.heap a).session) (sent : List Frame) :
    framesOn ws
        ((server.recipients other wants).foldl (fun server b =>
          sent.foldl (fun server frame => server.enqueueFrom other b frame) server)
          server).history =
      framesOn ws server.history ++ if other = name then sent else [] := by
  have hmem : a ∈ server.recipients other wants ↔ other = name := by
    refine ⟨fun ha => (h.indexed other).mp (CalmActions.mem_recipients server ha).1, ?_⟩
    rintro rfl
    exact SteadySync.mem_recipients (h.steady (hready rfl)) (hwants rfl)
  rw [framesOn_recipients h.flushTarget h.isOpen other sent (nodup_recipients server other wants)]
  · simp only [hmem]
  · intro b hb hne
    have hindexed := (CalmActions.mem_recipients server hb).1
    exact h.flushTarget_ne (h.known b (.inr (.inr ⟨other, hindexed⟩))) hne

theorem watched_onValue (h : Watched session name a ws frames server)
    (hready : other = name → session.state = .ready) (frame : Frame) :
    Watched session name a ws (frames ++ if other = name then [frame] else [])
      (server.onValue other frame) := by
  have hwants : other = name → (fun session : Session => decide (session.state = .ready))
      (server.heap a).session :=
    fun hname => decide_eq_true (h.session_eq ▸ hready hname)
  have hsent : framesOn ws (server.onValue other frame).history =
      framesOn ws server.history ++ if other = name then [frame] else [] :=
    framesOn_sends h hready hwants [frame]
  obtain ⟨effects, -, heq⟩ := emits_onValue server other frame
  rw [heq] at hsent ⊢
  exact watched_principals h hsent server.principals

theorem watched_values (h : Watched session name a ws frames server)
    (hready : other = name → session.state = .ready) (values : List Frame) :
    Watched session name a ws (frames ++ if other = name then values else [])
      (values.foldl (fun server frame => server.onValue other frame) server) := by
  induction values generalizing server frames with
  | nil => simpa using h
  | cons frame values ih =>
      have hrest := ih (watched_onValue h hready frame)
      rw [List.append_assoc] at hrest
      rcases eq_or_ne other name with rfl | hne
      · simpa using hrest
      · simpa [hne] using hrest

theorem watched_changePrincipal (h : Watched session name a ws frames server)
    (hready : other = name → session.state = .ready)
    {operation : PrincipalTX → PrincipalTX × List Frame}
    (hbound : other = name → (operation (server.principals.principal other).2).1.bound) :
    Watched session name a ws
      (frames ++ if other = name then (operation (server.principals.principal other).2).2 else [])
      (server.changePrincipal other operation) := by
  rw [Server.changePrincipal]
  dsimp only
  by_cases hsends : (operation (server.principals.principal other).2).1.bound
  · rw [if_pos hsends]
    exact watched_values (watched_stored h _) hready _
  · rw [if_neg hsends, if_neg fun hname => hsends (hbound hname), List.append_nil]
    exact watched_stored h _

theorem watched_onResync (h : Watched session name a ws frames server)
    (hready : other = name → session.state = .ready) (keyFrames : List Frame) :
    Watched session name a ws
      (frames ++ if other = name then signalFrame .serverReset :: keyFrames else [])
      (server.onResync other keyFrames) := by
  have hsent : framesOn ws (server.onResync other keyFrames).history =
      framesOn ws server.history ++
        if other = name then signalFrame .serverReset :: keyFrames else [] :=
    framesOn_sends h hready (fun _ => h.session_eq ▸ h.connected)
      (signalFrame .serverReset :: keyFrames)
  have hemits : Emits (fun _ => True) server (server.onResync other keyFrames) :=
    Emits.foldl fun _ b _ => emits_frames_enqueueFrom _ other b _
  obtain ⟨effects, -, heq⟩ := hemits
  rw [heq] at hsent ⊢
  exact watched_principals h hsent server.principals

variable [HashOrder StdString]

theorem watched_clearPrincipal (h : Watched session name a ws frames server)
    (hready : other = name → session.state = .ready) :
    Watched session name a ws
      (frames ++ if other = name then
          emit ⟨(server.principals.principal other).2, 0⟩ .clear
        else [])
      (server.clearPrincipal other) := by
  rw [Server.clearPrincipal, emit]
  dsimp only
  cases (server.principals.principal other).2.clear.2 with
  | none =>
      rw [ite_self, List.append_nil]
      exact watched_stored h _
  | some keyFrames => exact watched_onResync (watched_stored h _) hready keyFrames

end Callbacks

end Calls

section Actions

/-- The action leaves the session and its connection alone, and from the session there
are no requests. -/
def Spares (a : Addr) (ws : ConnId) (server : Server) : Action → Prop
  | .shut other => other ≠ ws
  | .disconnect clientUuid _ | .takeOver clientUuid _ => server.sessions.lookup clientUuid ≠ some a
  | .answer b frame => b = a → Unsolicited frame
  | .answerTopic b _ => b ≠ a
  | .callSession b _ => b ≠ a ∧ b < server.nextAddr
  | .close => False
  | _ => True

instance (a : Addr) (ws : ConnId) (server : Server) :
    (action : Action) → Decidable (Spares a ws server action)
  | .shut other => inferInstanceAs (Decidable (other ≠ ws))
  | .disconnect clientUuid _ | .takeOver clientUuid _ =>
      inferInstanceAs (Decidable (server.sessions.lookup clientUuid ≠ some a))
  | .answer b frame =>
      inferInstanceAs (Decidable (b = a →
        frame.frameType ≠ .clientKeyRequest ∧ frame.frameType ≠ .clientResyncReq))
  | .answerTopic b _ => inferInstanceAs (Decidable (b ≠ a))
  | .callSession b _ => inferInstanceAs (Decidable (b ≠ a ∧ b < server.nextAddr))
  | .close => inferInstanceAs (Decidable False)
  | .connect _ _ | .receive | .limit _ _ | .identify _ _ | .create _ _ _ | .dispatch _ _
  | .authorize _ _ _ | .reject _ _ | .stopHeartbeat _ | .heartbeat _ | .enableAuthorization _
  | .setMaxConnections _ | .setMaxFramesPerSec _ | .onAuthorize _ | .callPrincipal _ _
  | .clearPrincipal _ => inferInstanceAs (Decidable True)

variable [HashOrder StdString]

def emitted (name : StdString) (server : Server) (action : Action) : List Frame :=
  match operationOn name action with
  | none => []
  | some operation => emit ⟨contents server.principals name, 0⟩ operation

theorem emit_plain {ptx : PrincipalTX} (hbound : ptx.bound) (operation : Operation)
    (first second : Nat) :
    emit ⟨plain ptx, first⟩ operation = emit ⟨ptx, second⟩ operation := by
  cases operation with
  | set | clearKey | buildKeyFrames => rfl
  | clear =>
      rw [emit, emit, clear_snd ptx hbound, clear_snd (plain ptx) hbound]
      rfl

variable [HashOrder Addr] {session : Session} {name : StdString} {a : Addr} {ws : ConnId}
  {frames : List Frame} {server : Server}

theorem watched_callPrincipal (h : Watched session name a ws frames server)
    (hbound : (contents server.principals name).bound)
    (hready : other = name → session.state = .ready)
    (call : PrincipalCall) :
    Watched session name a ws (frames ++ emitted name server (.callPrincipal other call))
      (perform server (.callPrincipal other call)) := by
  have hchanged : other = name →
      (call.operation (server.principals.principal other).2).1.bound := by
    rintro rfl
    cases call <;> exact hbound
  have hcalled := watched_changePrincipal h hready hchanged
  have hemitted : emitted name server (.callPrincipal other call) =
      if other = name then (call.operation (server.principals.principal other).2).2 else [] := by
    rw [emitted, operationOn]
    rcases eq_or_ne other name with rfl | hne
    · rw [if_pos rfl, if_pos rfl]
      cases call <;> rfl
    · rw [if_neg hne, if_neg hne]
  rw [hemitted]
  exact hcalled

theorem watched_clearCall (h : Watched session name a ws frames server)
    (hbound : (contents server.principals name).bound)
    (hready : other = name → session.state = .ready) :
    Watched session name a ws (frames ++ emitted name server (.clearPrincipal other))
      (perform server (.clearPrincipal other)) := by
  have hemitted : emitted name server (.clearPrincipal other) =
      if other = name then emit ⟨(server.principals.principal other).2, 0⟩ .clear else [] := by
    rw [emitted, operationOn]
    rcases eq_or_ne other name with rfl | hne
    · have hown : (server.principals.principal other).2.bound := hbound
      rw [if_pos rfl, if_pos rfl]
      exact emit_plain hown .clear 0 0
    · rw [if_neg hne, if_neg hne]
  rw [hemitted]
  exact watched_clearPrincipal h hready

theorem watched_unsolicited (h : Watched session name a ws frames server)
    (hready : session.state = .ready) {frame : Frame} (hframe : Unsolicited frame) :
    Watched session name a ws frames (perform server (.answer a frame)) := by
  let outcome := (server.heap a).session.handleFrame
    ((server.heap a).session.txProvider.bind server.principals.principals.lookup) frame
  obtain ⟨hsession, hframes⟩ : outcome.session = (server.heap a).session ∧ outcome.frames = [] :=
    handleFrame_of_unsolicited (h.session_eq ▸ hready) hframe
  have hsilent : Silent ws server (perform server (.answer a frame)) := by
    have hready : frameOn ws (.onReady a) = none := rfl
    rw [perform, Server.runSession]
    dsimp only
    change outcome.frames = [] at hframes
    rw [hframes, Server.enqueue, List.foldl_nil]
    split
    · exact silent_record hready server
    · rfl
  obtain ⟨principals, effects, heq, -⟩ := runSession_eq server a
    fun session tx => session.handleFrame tx frame
  have hperform : perform server (.answer a frame) = server.runSession a
    fun session tx => session.handleFrame tx frame := rfl
  rw [hperform, heq] at hsilent ⊢
  refine h.keep_maps (passes_update rfl rfl rfl (fun _ => id) (congrArg Session.id hsession)) ?_
    rfl rfl rfl rfl hsilent
  dsimp only
  rw [Function.update_self, hsession]

/-- A session that is not ready is sent nothing as long as there are no calls on its
principal. -/
theorem watched_perform (h : Watched session name a ws frames server)
    (hbound : (contents server.principals name).bound) {action : Action}
    (hready : session.state = .ready ∨ operationOn name action = none ∧ answering action ≠ some a)
    (hspares : Spares a ws server action) (hbeginning : beginning action ≠ some ws)
    (hanswering : ∀ b, answering action = some b → b < server.nextAddr) :
    Watched session name a ws (frames ++ emitted name server action) (perform server action) := by
  have hquiet : operationOn name action = none →
      Watched session name a ws frames (perform server action) →
      Watched session name a ws (frames ++ emitted name server action) (perform server action) := by
    intro hnone hwatched
    rwa [emitted, hnone, List.append_nil]
  cases action with
  | callPrincipal other call =>
      refine watched_callPrincipal h hbound (fun hname => hready.resolve_right fun hnone => ?_) call
      exact Option.some_ne_none _ ((if_pos hname).symm.trans hnone.1)
  | clearPrincipal other =>
      refine watched_clearCall h hbound fun hname => hready.resolve_right fun hnone => ?_
      exact Option.some_ne_none _ ((if_pos hname).symm.trans hnone.1)
  | close => cases hspares
  | disconnect clientUuid cause => exact hquiet rfl (watched_disconnect h hspares cause)
  | authorize clientUuid principal via =>
      exact hquiet rfl (watched_authorize h clientUuid principal via)
  | reject clientUuid reason =>
      refine hquiet rfl ?_
      rw [perform]
      cases hpending : server.tmpSessions.lookup clientUuid with
      | none => exact h
      | some b => exact watched_reject h hpending _
  | takeOver clientUuid other =>
      refine hquiet rfl ?_
      rw [perform]
      cases hactive : server.sessions.lookup clientUuid with
      | none => exact h.keep_settings rfl rfl rfl rfl rfl rfl rfl
      | some b =>
          refine watched_attach h hactive ?_ fun heq => hbeginning (congrArg some heq)
          rintro rfl
          exact hspares hactive
  | create clientUuid other now =>
      refine hquiet rfl ?_
      rw [perform]
      cases server.sessions.lookup clientUuid with
      | some b => exact h
      | none =>
          exact watched_createSession h clientUuid (fun heq => hbeginning (congrArg some heq)) now
  | answer b frame =>
      refine hquiet rfl ?_
      rcases eq_or_ne b a with rfl | hne
      · exact watched_unsolicited h (hready.resolve_right fun hnone => hnone.2 rfl) (hspares rfl)
      · exact watched_runSession h (hanswering b rfl) hne fun session tx =>
          congrArg Identity.id (identity_handleFrame session tx frame)
  | answerTopic b frame =>
      have hsilent := silent_dispatchTopic (h.flushTarget_ne (hanswering b rfl) hspares) frame
      have hfooting := footing_handleClientTopicFrame (server.heap b).session
        (server.heap b).tables frame
      obtain ⟨history, heq⟩ := dispatchTopic_eq server b frame
      refine hquiet rfl ?_
      rw [perform]
      rw [heq] at hsilent ⊢
      exact h.keep_maps (passes_update rfl rfl rfl (fun _ => id) (id_of_footing hfooting))
        (post_update_of_ne hspares _) rfl rfl rfl rfl hsilent
  | callSession b call =>
      have hsilent := silent_changeSession (h.flushTarget_ne hspares.2 hspares.1) call.operation
      have hfooting := footing_operation call (server.heap b).session
      obtain ⟨history, heq⟩ := changeSession_eq server b call.operation
      refine hquiet rfl ?_
      rw [perform]
      rw [heq] at hsilent ⊢
      exact h.keep_maps (passes_update rfl rfl rfl (fun _ => id) (id_of_footing hfooting))
        (post_update_of_ne hspares.1 _) rfl rfl rfl rfl hsilent
  | connect other closesSynchronously =>
      exact hquiet rfl (watched_setConnection h (fun heq => hbeginning (congrArg some heq)) _)
  | identify other clientUuid =>
      exact hquiet rfl (watched_setConnection h (fun heq => hbeginning (congrArg some heq)) _)
  | shut other => exact hquiet rfl (watched_setConnection h hspares _)
  | limit other now => exact hquiet rfl (watched_limitFrame h other now)
  | stopHeartbeat b =>
      refine hquiet rfl
        (h.keep_maps (passes_update rfl rfl rfl (fun _ => id) rfl) ?_ rfl rfl rfl rfl rfl)
      exact apply_update post fun _ => rfl
  | heartbeat b =>
      have hsent : Silent ws server (perform server (.heartbeat b)) := silent_record rfl server
      exact hquiet rfl (h.keep_settings rfl rfl rfl rfl rfl rfl hsent)
  | dispatch other b =>
      have hnoted : Silent ws server (perform server (.dispatch other b)) :=
        silent_record rfl server
      exact hquiet rfl (h.keep_settings rfl rfl rfl rfl rfl rfl hnoted)
  | receive | enableAuthorization | setMaxConnections | setMaxFramesPerSec | onAuthorize =>
      exact hquiet rfl (h.keep_settings rfl rfl rfl rfl rfl rfl rfl)

end Actions

end DanWs.PrincipalTraffic
