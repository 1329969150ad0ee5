import DanWs.ConnectionOwners
import DanWs.SteadySync

namespace DanWs.WatchedSessions

open DanWs.ConnectionPaths
open DanWs.FiniteMaps
open DanWs.Principals
open DanWs.ServerMoves
open DanWs.Servers
open DanWs.Sessions
open DanWs.SteadySync
open DanWs.WireTypes

section Traffic

def frameOn (ws : ConnId) : Effect → Option Frame
  | .sent other frame => if other = ws then some frame else none
  | _ => none

/-- The frames that have been sent on a connection, in order. -/
def framesOn (ws : ConnId) (history : List Effect) : List Frame :=
  (history.filterMap (frameOn ws)).reverse

variable {ws : ConnId} {server next : Server}

theorem framesOn_cons (effect : Effect) (history : List Effect) :
    framesOn ws (effect :: history) = framesOn ws history ++ (frameOn ws effect).toList := by
  rw [framesOn, List.filterMap_cons]
  cases frameOn ws effect with
  | none => exact (List.append_nil _).symm
  | some frame => exact List.reverse_cons

theorem framesOn_append (later earlier : List Effect) :
    framesOn ws (later ++ earlier) = framesOn ws earlier ++ framesOn ws later := by
  rw [framesOn, List.filterMap_append, List.reverse_append]
  rfl

/-- Nothing is sent on the connection but heartbeats. -/
def Silent (ws : ConnId) (server next : Server) : Prop :=
  framesOn ws next.history = framesOn ws server.history

theorem Silent.trans {mid : Server} (hfirst : Silent ws server mid)
    (hsecond : Silent ws mid next) : Silent ws server next := Eq.trans hsecond hfirst

theorem silent_of_history {effects : List Effect}
    (hhistory : next.history = effects ++ server.history)
    (heffects : ∀ effect ∈ effects, frameOn ws effect = none) : Silent ws server next := by
  have hnone : framesOn ws effects = [] := by
    rw [framesOn, List.filterMap_eq_nil_iff.mpr heffects]
    rfl
  rw [Silent, hhistory, framesOn_append, hnone, List.append_nil]

theorem silent_of_emits (h : Emits (fun effect => frameOn ws effect = none) server next) :
    Silent ws server next := by
  obtain ⟨effects, heffects, rfl⟩ := h
  exact silent_of_history rfl heffects

theorem silent_record {effect : Effect} (h : frameOn ws effect = none) (server : Server) :
    Silent ws server (server.record effect) := silent_of_emits (Emits.record _ _ h)

theorem frameOn_sent_of_ne {other : ConnId} (h : other ≠ ws) (frame : Frame) :
    frameOn ws (.sent other frame) = none := if_neg h

theorem silent_enqueue {b : Addr} (h : (server.heap b).flushTarget ≠ ws) (frames : List Frame) :
    Silent ws server (server.enqueue b frames) :=
  silent_of_emits (emits_enqueue server b frames fun frame _ _ => frameOn_sent_of_ne h frame)

theorem silent_sendFrame {b : Addr} (h : (server.heap b).ws ≠ some ws) (frame : Frame) :
    Silent ws server (server.sendFrame b frame) := by
  rw [Server.sendFrame]
  cases hws : (server.heap b).ws with
  | none => rfl
  | some other =>
      dsimp only
      split
      · refine silent_record (frameOn_sent_of_ne ?_ frame) server
        rintro rfl
        exact h hws
      · rfl

theorem silent_runSession {b : Addr} (h : (server.heap b).flushTarget ≠ ws)
    (operation : Session → Option PrincipalTX → Outcome) :
    Silent ws server (server.runSession b operation) := by
  rw [Server.runSession]
  dsimp only
  have hsent : ∀ (session : Session) (principals : PrincipalManager) (frames : List Frame),
      Silent ws server
        (({ server.put b { server.heap b with session } with principals } : Server).enqueue b
          frames) := by
    intro session principals frames
    refine silent_enqueue ?_ frames
    rw [Server.put]
    dsimp only
    rwa [Function.update_self]
  split
  · exact (hsent _ _ _).trans (silent_record rfl _)
  · exact hsent _ _ _

theorem silent_changeSession {b : Addr} (h : (server.heap b).flushTarget ≠ ws)
    (operation : Session → Session × List Frame) :
    Silent ws server (server.changeSession b operation) := by
  rw [Server.changeSession]
  refine silent_enqueue ?_ _
  rw [Server.put]
  dsimp only
  rwa [Function.update_self]

theorem silent_dispatchTopic [HashOrder StdString] {b : Addr}
    (h : (server.heap b).flushTarget ≠ ws) (frame : Frame) :
    Silent ws server (server.dispatchTopic b frame) := by
  rw [Server.dispatchTopic]
  refine silent_enqueue ?_ _
  rw [Server.put]
  dsimp only
  rwa [Function.update_self]

theorem silent_activateSession [HashOrder StdString] {b : Addr}
    (h : (server.heap b).flushTarget ≠ ws) (principal : StdString) :
    Silent ws server (server.activateSession b principal) := by
  have hconnection : frameOn ws (.onConnection b) = none := rfl
  rw [Server.activateSession]
  split
  · refine (silent_record hconnection server).trans (silent_enqueue ?_ _)
    rw [Server.record, Server.put]
    dsimp only
    rwa [Function.update_self]
  · refine (silent_record hconnection server).trans (silent_runSession ?_ _)
    rw [Server.record, Server.put]
    dsimp only
    rwa [Function.update_self]

end Traffic

section Watching

/-- What a session object keeps while others are served. -/
structure Post where
  session : Session
  ws : Option ConnId
  flushTarget : ConnId

def post (internal : InternalSession) : Post :=
  ⟨internal.session, internal.ws, internal.flushTarget⟩

/-- The server knows the object by one of its maps. -/
def Listed (server : Server) (b : Addr) : Prop :=
  Active server b ∨ Pending server b ∨ ∃ principal, Indexed server principal b

/-- The session object `a` is on the connection `ws` with this session of the principal
alone, and nobody else writes there. -/
structure Watched (session : Session) (name : StdString) (a : Addr) (ws : ConnId)
    (frames : List Frame) (server : Server) : Prop where
  post : post (server.heap a) = ⟨session, some ws, ws⟩
  connected : session.connected
  isOpen : (server.connections ws).isOpen
  indexed : ∀ other, Indexed server other a ↔ other = name
  unpended : ¬ Pending server a
  known : ∀ b, Listed server b → b < server.nextAddr
  sole : ∀ b, b < server.nextAddr → Reaches (server.heap b) ws → b = a
  frames : framesOn ws server.history = frames

variable {session : Session} {name : StdString} {a b : Addr} {ws : ConnId} {frames : List Frame}
  {server next : Server}

namespace Watched

theorem session_eq (h : Watched session name a ws frames server) :
    (server.heap a).session = session :=
  congrArg Post.session h.post

theorem attached (h : Watched session name a ws frames server) : (server.heap a).ws = some ws :=
  congrArg Post.ws h.post

theorem flushTarget (h : Watched session name a ws frames server) :
    (server.heap a).flushTarget = ws :=
  congrArg Post.flushTarget h.post

theorem steady (h : Watched session name a ws frames server) (hready : session.state = .ready) :
    Steady server name a where
  indexed := (h.indexed name).mpr rfl
  ready := h.session_eq ▸ hready
  connected := h.session_eq ▸ h.connected
  wsOpen := by
    rw [Server.wsOpen, h.attached]
    exact h.isOpen

theorem not_reaches (h : Watched session name a ws frames server) (hb : b < server.nextAddr)
    (hne : b ≠ a) : ¬ Reaches (server.heap b) ws := fun hreaches => hne (h.sole b hb hreaches)

theorem flushTarget_ne (h : Watched session name a ws frames server) (hb : b < server.nextAddr)
    (hne : b ≠ a) : (server.heap b).flushTarget ≠ ws :=
  fun htarget => h.not_reaches hb hne (.inr (.inl htarget))

theorem ws_ne (h : Watched session name a ws frames server) (hb : b < server.nextAddr)
    (hne : b ≠ a) :
    (server.heap b).ws ≠ some ws :=
  fun hattached => h.not_reaches hb hne (.inl hattached)

/-- The objects may change, and no map gains one of them. -/
theorem keep (h : Watched session name a ws frames server)
    (hpost : WatchedSessions.post (next.heap a) = WatchedSessions.post (server.heap a))
    (hopen : (next.connections ws).isOpen = (server.connections ws).isOpen)
    (hindexed : ∀ other, Indexed next other a ↔ Indexed server other a)
    (hpending : Pending next a → Pending server a)
    (hlisted : ∀ b, Listed next b → Listed server b) (hnextAddr : next.nextAddr = server.nextAddr)
    (hreaches : ∀ b, Reaches (next.heap b) ws → b = a ∨ Reaches (server.heap b) ws)
    (hsilent : Silent ws server next) : Watched session name a ws frames next where
  post := hpost.trans h.post
  connected := h.connected
  isOpen := hopen.trans h.isOpen
  indexed other := (hindexed other).trans (h.indexed other)
  unpended hnext := h.unpended (hpending hnext)
  known b hb := hnextAddr ▸ h.known b (hlisted b hb)
  sole b hb hnext := (hreaches b hnext).elim id (h.sole b (hnextAddr ▸ hb))
  frames := Eq.trans hsilent h.frames

theorem keep_maps (h : Watched session name a ws frames server) (hpasses : Passes server next)
    (hpost : WatchedSessions.post (next.heap a) = WatchedSessions.post (server.heap a))
    (hopen : (next.connections ws).isOpen = (server.connections ws).isOpen)
    (hsessions : next.sessions = server.sessions) (htmp : next.tmpSessions = server.tmpSessions)
    (hindex : next.principalIndex = server.principalIndex) (hsilent : Silent ws server next) :
    Watched session name a ws frames next := by
  refine h.keep hpost hopen (fun other => ?_) ?_ (fun b => ?_) hpasses.nextAddr
    (fun b hreaches => .inr (hpasses.reaches b ws hreaches)) hsilent
  · rw [Indexed, hindex, Indexed]
  · rw [Pending, htmp, Pending]
    exact id
  · simp only [Listed, Active, Pending, Indexed, hsessions, htmp, hindex]
    exact id

theorem keep_settings (h : Watched session name a ws frames server)
    (hheap : next.heap = server.heap)
    (hconnections : next.connections = server.connections)
    (hsessions : next.sessions = server.sessions) (htmp : next.tmpSessions = server.tmpSessions)
    (hindex : next.principalIndex = server.principalIndex)
    (hnextAddr : next.nextAddr = server.nextAddr) (hsilent : Silent ws server next) :
    Watched session name a ws frames next := by
  have hpasses : Passes server next :=
    passes_of_heap hnextAddr hconnections (fun b other hreaches => hheap ▸ hreaches)
      fun b => by rw [hheap]
  refine h.keep_maps hpasses ?_ ?_ hsessions htmp hindex hsilent
  · rw [hheap]
  · rw [hconnections]

end Watched

end Watching

end DanWs.WatchedSessions
