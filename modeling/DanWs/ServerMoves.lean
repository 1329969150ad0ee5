import DanWs.ServerConditions
import DanWs.SessionStanding
import Mathlib.Logic.Relation

/-!
The changes that a server goes through, said once: quiet moves, which leave the
maps of sessions and the connections of all sessions as they are, and changes of
one entry of the maps. An invariant is proved for each kind of move.
-/

namespace DanWs.ServerMoves

open DanWs.FiniteMaps
open DanWs.Principals
open DanWs.ServerConditions
open DanWs.Servers
open DanWs.SessionStanding
open DanWs.WireTypes

structure Attachment where
  identity : Identity
  ws : Option ConnId
  flushTarget : ConnId

def attachment (internal : InternalSession) : Attachment :=
  ⟨identity internal.session, internal.ws, internal.flushTarget⟩

/-- What a change of one object keeps of it is kept of all objects. -/
theorem apply_update {β : Type*} (member : InternalSession → β) {heap : Addr → InternalSession}
    {a b : Addr} {internal : InternalSession} (h : b = a → member internal = member (heap a)) :
    member (Function.update heap a internal b) = member (heap b) := by
  rcases eq_or_ne b a with rfl | hb
  · rw [Function.update_self, h rfl]
  · rw [Function.update_of_ne hb]

section Registration

variable (server : Server)

def Active (a : Addr) : Prop := ∃ uuid, server.sessions.lookup uuid = some a

def Pending (a : Addr) : Prop := ∃ uuid, server.tmpSessions.lookup uuid = some a

def Indexed (principal : StdString) (a : Addr) : Prop :=
  ∃ indexed, server.principalIndex.lookup principal = some indexed ∧ a ∈ indexed

end Registration

section Emission

/-- Effects are recorded, and nothing else changes. -/
def Emits (allowed : Effect → Prop) (server next : Server) : Prop :=
  ∃ effects, (∀ effect ∈ effects, allowed effect) ∧
    next = { server with history := effects ++ server.history }

variable {allowed : Effect → Prop} {server mid next : Server}

theorem Emits.refl (allowed : Effect → Prop) (server : Server) : Emits allowed server server :=
  ⟨[], by simp, rfl⟩

theorem Emits.trans (hfirst : Emits allowed server mid) (hsecond : Emits allowed mid next) :
    Emits allowed server next := by
  obtain ⟨first, hallowed, rfl⟩ := hfirst
  obtain ⟨second, hallowed', rfl⟩ := hsecond
  refine ⟨second ++ first, ?_, by simp⟩
  intro effect heffect
  rcases List.mem_append.mp heffect with h | h
  · exact hallowed' effect h
  · exact hallowed effect h

theorem Emits.record (server : Server) (effect : Effect) (h : allowed effect) :
    Emits allowed server (server.record effect) :=
  ⟨[effect], by simpa using h, rfl⟩

theorem Emits.foldl {α : Type*} {round : Server → α → Server} {items : List α}
    (hround : ∀ history, ∀ item ∈ items,
      Emits allowed { server with history } (round { server with history } item)) :
    Emits allowed server (items.foldl round server) := by
  induction items generalizing server with
  | nil => exact Emits.refl allowed server
  | cons item items ih =>
      have hfirst := hround server.history item (by simp)
      obtain ⟨effects, -, hnext⟩ := id hfirst
      refine hfirst.trans (ih fun history item' hitem => ?_)
      rw [hnext]
      exact hround history item' (by simp [hitem])

theorem emits_enqueue (server : Server) (a : Addr) (frames : List Frame)
    (h : ∀ frame ∈ frames,
      (server.connections (server.heap a).flushTarget).isOpen →
        allowed (.sent (server.heap a).flushTarget frame)) :
    Emits allowed server (server.enqueue a frames) := by
  apply Emits.foldl
  intro history frame hframe
  split
  · next hopen => exact Emits.record _ _ (h frame hframe hopen)
  · exact Emits.refl allowed _

end Emission

section Quiet

/-- What a quiet move records. -/
def Allowed (permits : Permits) (server : Server) : Effect → Prop
  | .sent ws frame =>
      frame.frameType = .authFail ∨ ∃ a, (server.heap a).flushTarget = ws ∧
        (Active server a ∨ (server.heap a).session.state = .ready ∨ permits.write server a)
  | .enqueued tx a principal _ =>
      Indexed server tx a ∧ principal = (server.heap a).session.principal
  | .dispatched ws a attached =>
      attached = (server.heap a).ws ∧ ∃ uuid,
        (server.tmpSessions.lookup uuid = some a ∧ permits.dispatchPending server ws uuid) ∨
        (server.sessions.lookup uuid = some a ∧ permits.dispatchActive server ws uuid)
  | .sentHeartbeat _ | .onConnection _ | .onReady _ | .onDisconnect _ => True
  | .pended _ _ _ | .activated _ _ _ | .authorized _ _ _ | .tornDown _ _ _ => False

/-- The maps of sessions and the connections of all sessions stay as they are.
Of the sessions, only those in `sessions_` become ready. -/
structure Quiet (permits : Permits) (server next : Server) : Prop where
  mode : next.mode = server.mode
  authEnabled : next.authEnabled = server.authEnabled
  onAuthorize : next.onAuthorize = server.onAuthorize
  sessions : next.sessions = server.sessions
  tmpSessions : next.tmpSessions = server.tmpSessions
  principalIndex : next.principalIndex = server.principalIndex
  nextAddr : next.nextAddr = server.nextAddr
  attachment : ∀ a, attachment (next.heap a) = attachment (server.heap a)
  ready : ∀ a, (next.heap a).session.state = .ready →
    (server.heap a).session.state = .ready ∨ Active server a
  history : ∃ effects, next.history = effects ++ server.history ∧
    ∀ effect ∈ effects, Allowed permits server effect
  undefinedBehaviour : next.undefinedBehaviour = server.undefinedBehaviour

variable {permits : Permits} {server mid next : Server}

theorem quiet_settings (permits : Permits) (server : Server) (maxConnections maxFramesPerSec : Int)
    (framesIn framesOut : Nat) (principals : PrincipalManager)
    (connections : ConnId → Connection) :
    Quiet permits server
      { server with
        maxConnections, maxFramesPerSec, framesIn, framesOut, principals, connections } :=
  ⟨rfl, rfl, rfl, rfl, rfl, rfl, rfl, fun _ => rfl, fun _ h => .inl h, ⟨[], rfl, by simp⟩, rfl⟩

theorem quiet_put (permits : Permits) (server : Server) (a : Addr) (internal : InternalSession)
    (principals : PrincipalManager)
    (hattachment : attachment internal = attachment (server.heap a))
    (hready : internal.session.state = .ready →
      (server.heap a).session.state = .ready ∨ Active server a) :
    Quiet permits server { server.put a internal with principals } := by
  refine ⟨rfl, rfl, rfl, rfl, rfl, rfl, rfl, fun b => ?_, fun b hb => ?_, ⟨[], rfl, by simp⟩, rfl⟩
  · exact apply_update attachment fun _ => hattachment
  · dsimp only [Server.put] at hb
    rcases eq_or_ne b a with rfl | hne
    · rw [Function.update_self] at hb
      exact hready hb
    · rw [Function.update_of_ne hne] at hb
      exact .inl hb

theorem Quiet.then_emits (h : Quiet permits server mid)
    (hemits : Emits (Allowed permits server) mid next) : Quiet permits server next := by
  obtain ⟨effects, hallowed, rfl⟩ := hemits
  obtain ⟨earlier, hhistory, hearlier⟩ := h.history
  refine ⟨h.mode, h.authEnabled, h.onAuthorize, h.sessions, h.tmpSessions, h.principalIndex,
    h.nextAddr, h.attachment, h.ready, ⟨effects ++ earlier, by simp [hhistory], ?_⟩,
    h.undefinedBehaviour⟩
  intro effect heffect
  rcases List.mem_append.mp heffect with h | h
  · exact hallowed effect h
  · exact hearlier effect h

theorem quiet_put_enqueue (server : Server) (a : Addr) (internal : InternalSession)
    (principals : PrincipalManager) (frames : List Frame)
    (hattachment : attachment internal = attachment (server.heap a))
    (hready : internal.session.state = .ready →
      (server.heap a).session.state = .ready ∨ Active server a)
    (hsent : ∀ frame ∈ frames, (server.connections (server.heap a).flushTarget).isOpen →
      Allowed permits server (.sent (server.heap a).flushTarget frame)) :
    Quiet permits server
      ({ server.put a internal with principals }.enqueue a frames) := by
  have htarget : internal.flushTarget = (server.heap a).flushTarget :=
    congrArg Attachment.flushTarget hattachment
  refine (quiet_put permits server a internal principals hattachment hready).then_emits
    (emits_enqueue _ a frames fun frame hframe hopen => ?_)
  simp only [Server.put, Function.update_self, htarget] at hopen ⊢
  exact hsent frame hframe hopen

theorem Quiet.refl (permits : Permits) (server : Server) : Quiet permits server server :=
  quiet_settings permits server _ _ _ _ _ _

theorem Quiet.active (h : Quiet permits server next) (a : Addr) :
    Active next a ↔ Active server a := by
  rw [Active, h.sessions, Active]

end Quiet

section Calm

/-- What is recorded about the life of a session. -/
def Marks : Effect → Prop
  | .onConnection _ | .onReady _ | .onDisconnect _ | .pended _ _ _ | .activated _ _ _ => True
  | _ => False

def CalmEffect (permits : Permits) (server : Server) (effect : Effect) : Prop :=
  Allowed permits server effect ∧ ¬ Marks effect

/-- A quiet move that keeps the limit of connections, the connections of all
heartbeats and the stages that the sessions have come to. No connection begins to
close synchronously. -/
structure Calm (permits : Permits) (server next : Server) : Prop extends
    Quiet permits server next where
  maxConnections : next.maxConnections = server.maxConnections
  heartbeatTarget : ∀ a, (next.heap a).heartbeatTarget = (server.heap a).heartbeatTarget
  stage : ∀ a, stage (next.heap a).session = stage (server.heap a).session
  closing : ∀ ws, (next.connections ws).closesSynchronously →
    (server.connections ws).closesSynchronously
  unmarked : ∃ effects, next.history = effects ++ server.history ∧
    ∀ effect ∈ effects, ¬ Marks effect

variable {permits : Permits} {server mid next : Server}

theorem calm_settings (permits : Permits) (server : Server) (maxFramesPerSec : Int)
    (framesIn framesOut : Nat) (principals : PrincipalManager) :
    Calm permits server { server with maxFramesPerSec, framesIn, framesOut, principals } :=
  ⟨quiet_settings permits server _ _ _ _ _ _, rfl, fun _ => rfl, fun _ => rfl, fun _ => id,
    ⟨[], rfl, by simp⟩⟩

theorem calm_setConnection (permits : Permits) (server : Server) (ws : ConnId)
    (connection : Connection)
    (hclosing : connection.closesSynchronously → (server.connections ws).closesSynchronously) :
    Calm permits server (server.setConnection ws connection) := by
  refine ⟨quiet_settings permits server _ _ _ _ _ _, rfl, fun _ => rfl, fun _ => rfl,
    fun other hother => ?_, ⟨[], rfl, by simp⟩⟩
  dsimp only [Server.setConnection] at hother
  rcases eq_or_ne other ws with rfl | hne
  · rw [Function.update_self] at hother
    exact hclosing hother
  · rwa [Function.update_of_ne hne] at hother

theorem Calm.refl (permits : Permits) (server : Server) : Calm permits server server :=
  calm_settings permits server _ _ _ _

theorem calm_put (permits : Permits) (server : Server) (a : Addr) (internal : InternalSession)
    (principals : PrincipalManager)
    (hattachment : attachment internal = attachment (server.heap a))
    (htarget : internal.heartbeatTarget = (server.heap a).heartbeatTarget)
    (hstage : stage internal.session = stage (server.heap a).session) :
    Calm permits server { server.put a internal with principals } := by
  have hstate : internal.session.state = (server.heap a).session.state :=
    congrArg Stage.state hstage
  refine ⟨quiet_put permits server a internal principals hattachment ?_, rfl, fun b => ?_,
    fun b => ?_, fun _ => id, ⟨[], rfl, by simp⟩⟩
  · exact fun hready => .inl (hstate ▸ hready)
  · exact apply_update InternalSession.heartbeatTarget fun _ => htarget
  · exact apply_update (fun internal => stage internal.session) fun _ => hstage

theorem Calm.then_emits (h : Calm permits server mid)
    (hemits : Emits (CalmEffect permits server) mid next) : Calm permits server next := by
  obtain ⟨effects, heffects, rfl⟩ := hemits
  obtain ⟨earlier, hhistory, hearlier⟩ := h.unmarked
  have hquiet := h.toQuiet.then_emits
    ⟨effects, fun effect heffect => (heffects effect heffect).1, rfl⟩
  refine ⟨hquiet, h.maxConnections, h.heartbeatTarget, h.stage, h.closing,
    ⟨effects ++ earlier, by simp [hhistory], ?_⟩⟩
  rw [List.forall_mem_append]
  exact ⟨fun effect heffect => (heffects effect heffect).2, hearlier⟩

theorem calm_of_emits (h : Emits (CalmEffect permits server) server next) :
    Calm permits server next :=
  (Calm.refl permits server).then_emits h

end Calm

section Moves

/-- The session object `a` takes over the connection `ws`: an object in
`sessions_`, whose connection is superseded, or a new one. -/
structure Attaches (server next : Server) (uuid : StdString) (a : Addr) (ws : ConnId) : Prop where
  mode : next.mode = server.mode
  authEnabled : next.authEnabled = server.authEnabled
  onAuthorize : next.onAuthorize = server.onAuthorize
  principalIndex : next.principalIndex = server.principalIndex
  undefinedBehaviour : next.undefinedBehaviour = server.undefinedBehaviour
  others : ∀ b, b ≠ a → next.heap b = server.heap b
  attached : (next.heap a).ws = some ws
  flushTarget : (next.heap a).flushTarget = ws
  state : (next.heap a).session.state ≠ .ready
  origin :
    (server.sessions.lookup uuid = some a ∧ next.nextAddr = server.nextAddr ∧
      (next.heap a).session.id = (server.heap a).session.id ∧
      ((next.heap a).session.principal = (server.heap a).session.principal ∨
        (server.heap a).session.principal = [])) ∨
    (server.sessions.lookup uuid = none ∧ a = server.nextAddr ∧ next.nextAddr = a + 1 ∧
      (next.heap a).session.id = uuid)

inductive Move (permits : Permits) : Server → Server → Prop
  | quiet {server next : Server} (h : Quiet permits server next) : Move permits server next
  | tearDownPending {server : Server} {uuid : StdString} {cause : ConnId} {a : Addr}
      (hinactive : server.sessions.lookup uuid = none)
      (hpending : server.tmpSessions.lookup uuid = some a)
      (h : permits.disconnect server uuid cause) :
      Move permits server
        { server.record (.tornDown cause a (server.heap a).ws) with
          tmpSessions := server.tmpSessions.erase uuid }
  | tearDownActive {server : Server} {uuid : StdString} {cause : ConnId} {a : Addr}
      (hactive : server.sessions.lookup uuid = some a)
      (h : permits.disconnect server uuid cause) :
      Move permits server
        ((server.record (.tornDown cause a (server.heap a).ws)).disconnectSession uuid a)
  | accept {server : Server} {uuid principal : StdString} {a : Addr} {via : Via}
      (hpending : server.tmpSessions.lookup uuid = some a) (hprincipal : principal ≠ [])
      (h : permits.authorize server uuid principal via) :
      Move permits server (server.accept uuid a principal via)
  | index {server : Server} {a : Addr} (hactive : Active server a)
      (hprincipal : (server.heap a).session.principal ≠ []) :
      Move permits server
        (server.indexAddSession (server.effectivePrincipal (server.heap a).session.principal) a)
  | withdraw {server : Server} (uuid : StdString) :
      Move permits server { server with tmpSessions := server.tmpSessions.erase uuid }
  | pend {server next : Server} {uuid : StdString} {a : Addr} {ws : ConnId}
      (h : Attaches server next uuid a ws)
      (hsessions : ∀ u, next.sessions.lookup u =
        if u = uuid then none else server.sessions.lookup u)
      (htmpSessions : next.tmpSessions = server.tmpSessions.insert uuid a)
      (hhistory : next.history = .pended uuid a (some ws) :: server.history) :
      Move permits server next
  | activate {server next : Server} {uuid : StdString} {a : Addr} {ws : ConnId}
      (hauth : server.authEnabled = false) (h : Attaches server next uuid a ws)
      (hsessions : ∀ u, next.sessions.lookup u =
        if u = uuid then some a else server.sessions.lookup u)
      (htmpSessions : next.tmpSessions = server.tmpSessions)
      (hhistory : next.history = .activated uuid a (some ws) :: server.history) :
      Move permits server next
  | empty (server : Server) :
      Move permits server { server with sessions := ∅, tmpSessions := ∅, principalIndex := ∅ }
  | retire {server : Server} {a : Addr} (hactive : ¬ Active server a)
      (hpending : ¬ Pending server a) : Move permits server (server.closeSession a)
  | enable {server : Server} {enabled : Bool} (h : permits.enable enabled) :
      Move permits server { server with authEnabled := enabled }
  | listen {server : Server} (callback : StdString → StdString → List AuthCall)
      (h : permits.listen) :
      Move permits server { server with onAuthorize := server.onAuthorize ++ [callback] }
  | undefined (server : Server) (h : permits.undefined) :
      Move permits server { server with undefinedBehaviour := true }

abbrev Moves (permits : Permits) : Server → Server → Prop := Relation.ReflTransGen (Move permits)

end Moves

/-! What the composite operations of the server come to. -/

section Operations

variable (server : Server)

theorem indexRemoveSession_eq (principal : StdString) (a : Addr) :
    ∃ index, server.indexRemoveSession principal a = { server with principalIndex := index } ∧
      ∀ name b, Indexed { server with principalIndex := index } name b →
        Indexed server name b := by
  rw [Server.indexRemoveSession]
  cases hlookup : server.principalIndex.lookup principal with
  | none => exact ⟨server.principalIndex, rfl, fun _ _ h => h⟩
  | some indexed =>
      refine ⟨_, rfl, ?_⟩
      rintro name b ⟨members, hmembers, hb⟩
      rcases eq_or_ne name principal with rfl | hname
      · refine ⟨indexed, hlookup, ?_⟩
        split at hmembers
        · simp at hmembers
        · simp only [lookup_insert_eq_ite, if_true, Option.some.injEq] at hmembers
          subst hmembers
          exact Finset.mem_of_mem_erase hb
      · refine ⟨members, ?_, hb⟩
        split at hmembers
        · simpa [lookup_erase_eq_ite, hname] using hmembers
        · simpa [lookup_insert_eq_ite, hname] using hmembers

theorem indexed_indexAddSession {principal name : StdString} {a b : Addr}
    (h : Indexed (server.indexAddSession principal a) name b) :
    Indexed server name b ∨ (name = principal ∧ b = a) := by
  obtain ⟨members, hmembers, hb⟩ := h
  rw [Server.indexAddSession] at hmembers
  simp only [lookup_insert_eq_ite] at hmembers
  split at hmembers
  · next hname =>
      cases hmembers
      rcases Finset.mem_insert.mp hb with heq | hb
      · exact .inr ⟨hname, heq⟩
      · subst hname
        cases hlookup : server.principalIndex.lookup name with
        | none => simp [hlookup] at hb
        | some indexed => exact .inl ⟨indexed, hlookup, by simpa [hlookup] using hb⟩
  · exact .inl ⟨members, hmembers, hb⟩

theorem disconnectSession_eq (uuid : StdString) (a : Addr) :
    ∃ index principals, server.disconnectSession uuid a =
        { server with
          heap := Function.update server.heap a
            { server.heap a with
              session := (server.heap a).session.disposeAllTopicHandles.handleDisconnect
              ws := none
              heartbeatRunning := false }
          history := .onDisconnect a :: server.history
          principalIndex := index
          principals
          sessions := server.sessions.erase uuid } ∧
      ∀ name b, Indexed { server with principalIndex := index } name b →
        Indexed server name b := by
  rw [Server.disconnectSession]
  dsimp only
  split
  · obtain ⟨index, hindex, hindexed⟩ := indexRemoveSession_eq
      ((server.put a { server.heap a with
        session := (server.heap a).session.disposeAllTopicHandles.handleDisconnect
        ws := none
        heartbeatRunning := false }).record (.onDisconnect a))
      (server.effectivePrincipal
        (server.heap a).session.disposeAllTopicHandles.handleDisconnect.principal) a
    rw [hindex]
    exact ⟨index, _, rfl, hindexed⟩
  · exact ⟨server.principalIndex, server.principals, rfl, fun _ _ h => h⟩

theorem tearDownActive_eq (uuid : StdString) (cause : ConnId) (a : Addr) :
    ∃ index principals,
      (server.record (.tornDown cause a (server.heap a).ws)).disconnectSession uuid a =
        { server with
          heap := Function.update server.heap a
            { server.heap a with
              session := (server.heap a).session.disposeAllTopicHandles.handleDisconnect
              ws := none
              heartbeatRunning := false }
          history := .onDisconnect a :: .tornDown cause a (server.heap a).ws :: server.history
          principalIndex := index
          principals
          sessions := server.sessions.erase uuid } ∧
      ∀ name b, Indexed { server with principalIndex := index } name b →
        Indexed server name b :=
  disconnectSession_eq (server.record (.tornDown cause a (server.heap a).ws)) uuid a

theorem accept_eq (uuid : StdString) (a : Addr) (principal : StdString) (via : Via) :
    ∃ effects framesOut, server.accept uuid a principal via =
        { server with
          tmpSessions := server.tmpSessions.erase uuid
          sessions := server.sessions.insert uuid a
          heap := Function.update server.heap a
            { server.heap a with session := (server.heap a).session.authorize principal }
          framesOut
          history := (.activated uuid a (server.heap a).ws ::
            (effects ++ [.authorized a (server.heap a).ws via])) ++ server.history } ∧
      ∀ effect ∈ effects, ∃ ws, (server.heap a).ws = some ws ∧ effect = .sent ws authOkFrame := by
  unfold Server.accept Server.sendFrame
  dsimp only [Server.put, Server.record]
  simp only [Function.update_self]
  cases hws : (server.heap a).ws with
  | none => exact ⟨[], server.framesOut, rfl, by simp⟩
  | some ws =>
      dsimp only
      split
      · exact ⟨[.sent ws authOkFrame], server.framesOut + 1, rfl, by simp⟩
      · exact ⟨[], server.framesOut, rfl, by simp⟩

theorem closeSession_eq (a : Addr) :
    ∃ connections, server.closeSession a =
      { server with
        heap := Function.update server.heap a
          { server.heap a with
            session := (server.heap a).session.disposeAllTopicHandles.handleDisconnect
            ws := none
            heartbeatRunning := false }
        history := .onDisconnect a :: server.history
        connections } := by
  rw [Server.closeSession]
  dsimp only [Server.put, Server.record]
  cases (server.heap a).ws with
  | none => exact ⟨server.connections, rfl⟩
  | some ws => exact ⟨_, rfl⟩

end Operations

section Recorded

/-- What a move may record, apart from the frames that are sent. -/
def Recorded (permits : Permits) (server : Server) : Effect → Prop
  | .sent _ _ => True
  | .tornDown cause a ws =>
      ws = (server.heap a).ws ∧ ∃ uuid, permits.disconnect server uuid cause ∧
        (server.sessions.lookup uuid = some a ∨
          (server.sessions.lookup uuid = none ∧ server.tmpSessions.lookup uuid = some a))
  | .pended _ _ _ | .activated _ _ _ | .authorized _ _ _ => True
  | effect => Allowed permits server effect

variable {permits : Permits} {server next : Server}

theorem recorded_of_allowed {effect : Effect} (h : Allowed permits server effect) :
    Recorded permits server effect := by
  cases effect <;> trivial

theorem recorded_move (h : Move permits server next) :
    ∃ effects, next.history = effects ++ server.history ∧
      ∀ effect ∈ effects, Recorded permits server effect := by
  cases h with
  | quiet hquiet =>
      obtain ⟨effects, hhistory, hallowed⟩ := hquiet.history
      exact ⟨effects, hhistory, fun effect hmem => recorded_of_allowed (hallowed effect hmem)⟩
  | tearDownPending hinactive hpending hpermitted =>
      refine ⟨[_], rfl, fun effect hmem => ?_⟩
      rw [List.mem_singleton.mp hmem]
      exact ⟨rfl, _, hpermitted, .inr ⟨hinactive, hpending⟩⟩
  | tearDownActive hactive hpermitted =>
      rename_i uuid cause a
      obtain ⟨index, principals, heq, -⟩ := tearDownActive_eq server uuid cause a
      rw [heq]
      refine ⟨[.onDisconnect a, .tornDown cause a (server.heap a).ws], rfl, ?_⟩
      simp only [List.forall_mem_cons]
      exact ⟨trivial, ⟨rfl, uuid, hpermitted, .inl hactive⟩, by simp⟩
  | accept hpending hprincipal hpermitted =>
      rename_i uuid principal a via
      obtain ⟨effects, framesOut, heq, hsent⟩ := accept_eq server uuid a principal via
      rw [heq]
      refine ⟨_, rfl, ?_⟩
      simp only [List.forall_mem_cons, List.forall_mem_append]
      refine ⟨trivial, fun effect hmem => ?_, trivial, by simp⟩
      obtain ⟨ws, -, rfl⟩ := hsent effect hmem
      trivial
  | pend hattaches hsessions htmpSessions hhistory =>
      refine ⟨[_], hhistory, fun effect hmem => ?_⟩
      rw [List.mem_singleton.mp hmem]
      trivial
  | activate hauth hattaches hsessions htmpSessions hhistory =>
      refine ⟨[_], hhistory, fun effect hmem => ?_⟩
      rw [List.mem_singleton.mp hmem]
      trivial
  | retire hactive hpending =>
      rename_i a
      obtain ⟨connections, heq⟩ := closeSession_eq server a
      rw [heq]
      refine ⟨[.onDisconnect a], rfl, fun effect hmem => ?_⟩
      rw [List.mem_singleton.mp hmem]
      trivial
  | index | withdraw | empty | enable | listen | undefined => exact ⟨[], rfl, by simp⟩

end Recorded

end DanWs.ServerMoves
