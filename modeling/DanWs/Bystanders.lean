import DanWs.PrincipalContents
import DanWs.WatchedSessions

namespace DanWs.Bystanders

open DanWs.ConnectionOwners
open DanWs.ConnectionPaths
open DanWs.FiniteMaps
open DanWs.Principals
open DanWs.ServerActions
open DanWs.ServerCalls
open DanWs.ServerConditions
open DanWs.ServerMoves
open DanWs.Servers
open DanWs.Sessions
open DanWs.WatchedSessions
open DanWs.WireTypes

section Sessions

variable {session : Session} {name : StdString} {a b : Addr} {ws : ConnId}
  {frames : List Frame} {server next : Server}

theorem post_update_of_ne {heap : Addr → InternalSession} (hne : b ≠ a)
    (internal : InternalSession) : post (Function.update heap b internal a) = post (heap a) := by
  rw [Function.update_of_ne hne.symm]

theorem indexed_activateSession [HashOrder StdString] (hne : b ≠ a) (principal : StdString)
    {other : StdString} :
    Indexed (server.activateSession b principal) other a ↔ Indexed server other a := by
  cases htopic : server.isTopicMode with
  | true =>
      obtain ⟨effects, heq, -⟩ := activateSession_topic server htopic b principal
      rw [heq]
      rfl
  | false =>
      obtain ⟨principals, effects, heq, -⟩ := activateSession_principal server htopic b principal
      rw [heq]
      refine (indexed_indexAddSession_iff server).trans (or_iff_left ?_)
      exact fun hsame => hne hsame.2.symm

theorem watched_activateSession [HashOrder StdString] (h : Watched session name a ws frames server)
    (hb : Listed server b) (hne : b ≠ a) (principal : StdString) :
    Watched session name a ws frames (server.activateSession b principal) := by
  obtain ⟨internal, principals, index, effects, heq, hpaths⟩ :=
    activateSession_eq server b principal
  have hsilent := silent_activateSession (h.flushTarget_ne (h.known b hb) hne) principal
  have hpasses := passes_activateSession server b principal
  have hlisted : ∀ c, Listed (server.activateSession b principal) c → Listed server c := by
    intro c hc
    rcases eq_or_ne b c with rfl | hother
    · exact hb
    · rcases hc with hactive | hpending | ⟨other, hindexed⟩
      · rw [heq] at hactive
        exact .inl hactive
      · rw [heq] at hpending
        exact .inr (.inl hpending)
      · exact .inr (.inr ⟨other, (indexed_activateSession hother principal).mp hindexed⟩)
  refine h.keep ?_ ?_ (fun other => indexed_activateSession hne principal) ?_ hlisted
    hpasses.nextAddr (fun c hreaches => .inr (hpasses.reaches c ws hreaches)) hsilent
  · rw [heq]
    exact post_update_of_ne hne internal
  · rw [heq]
  · rw [heq]
    exact id

theorem watched_runSession (h : Watched session name a ws frames server) (hb : b < server.nextAddr)
    (hne : b ≠ a) {operation : Session → Option PrincipalTX → Outcome}
    (hid : ∀ session tx, (operation session tx).session.id = session.id) :
    Watched session name a ws frames (server.runSession b operation) := by
  have hsilent := silent_runSession (h.flushTarget_ne hb hne) operation
  obtain ⟨principals, effects, heq, -⟩ := runSession_eq server b operation
  rw [heq] at hsilent ⊢
  exact h.keep_maps (passes_update rfl rfl rfl (fun _ => id) (hid _ _)) (post_update_of_ne hne _)
    rfl rfl rfl rfl hsilent

theorem indexed_disconnectSession (hne : b ≠ a) (uuid : StdString) {other : StdString} :
    Indexed (server.disconnectSession uuid b) other a ↔ Indexed server other a := by
  rw [Server.disconnectSession]
  dsimp only
  split
  · refine (indexed_indexRemoveSession_iff _).trans (and_iff_left ?_)
    exact fun hsame => hne hsame.2.symm
  · rfl

theorem exists_lookup_of_erase {map : FiniteMap StdString Addr} {uuid : StdString}
    (h : ∃ other, (map.erase uuid).lookup other = some a) :
    ∃ other, map.lookup other = some a := by
  obtain ⟨other, hlookup⟩ := h
  exact ⟨other, (lookup_of_lookup_erase hlookup).2⟩

theorem exists_lookup_of_insert {map : FiniteMap StdString Addr} {uuid : StdString}
    (h : ∃ other, (map.insert uuid b).lookup other = some a) :
    a = b ∨ ∃ other, map.lookup other = some a := by
  obtain ⟨other, hlookup⟩ := h
  rw [lookup_insert_eq_ite] at hlookup
  split at hlookup
  · exact .inl (Option.some.inj hlookup).symm
  · exact .inr ⟨other, hlookup⟩

theorem watched_disconnect (h : Watched session name a ws frames server) {uuid : StdString}
    (hspares : server.sessions.lookup uuid ≠ some a) (cause : ConnId) :
    Watched session name a ws frames (server.handleSessionDisconnect uuid cause) := by
  have hpasses := passes_handleSessionDisconnect server uuid cause
  have hsole := fun b hreaches => Or.inr (a := b = a) (hpasses.reaches b ws hreaches)
  obtain heq | ⟨b, hpending, heq⟩ | ⟨b, hactive, heq⟩ :=
    handleSessionDisconnect_cases server uuid cause
  · rwa [heq]
  · have hne : b ≠ a := by
      rintro rfl
      exact h.unpended ⟨uuid, hpending⟩
    have htornDown : frameOn ws (.tornDown cause b (server.heap b).ws) = none := rfl
    rw [heq] at hsole ⊢
    refine h.keep (post_update_of_ne hne _) rfl (fun _ => Iff.rfl) exists_lookup_of_erase
      (fun c hc => ?_) rfl hsole (silent_record htornDown server)
    exact hc.imp_right (Or.imp_left exists_lookup_of_erase)
  · have hne : b ≠ a := by
      rintro rfl
      exact hspares hactive
    obtain ⟨index, principals, hdown, hsubset⟩ := tearDownActive_eq server uuid cause b
    have hindexed : ∀ other, Indexed (server.handleSessionDisconnect uuid cause) other a ↔
        Indexed server other a := fun other => by
      rw [heq]
      exact indexed_disconnectSession hne uuid
    have hsilent : Silent ws server (server.handleSessionDisconnect uuid cause) := by
      rw [heq, hdown, Silent, framesOn_cons, framesOn_cons]
      simp [frameOn]
    rw [heq, hdown] at hsole hindexed hsilent ⊢
    refine h.keep (post_update_of_ne hne _) rfl hindexed id (fun c hc => ?_) rfl hsole hsilent
    rcases hc with hactive | hpending | ⟨other, hindexed⟩
    · exact .inl (exists_lookup_of_erase hactive)
    · exact .inr (.inl hpending)
    · exact .inr (.inr ⟨other, hsubset other c hindexed⟩)

theorem watched_accept (h : Watched session name a ws frames server) {uuid : StdString}
    (hpending : server.tmpSessions.lookup uuid = some b) (principal : StdString) (via : Via) :
    Watched session name a ws frames (server.accept uuid b principal via) := by
  have hne : b ≠ a := by
    rintro rfl
    exact h.unpended ⟨uuid, hpending⟩
  have hb : Listed server b := .inr (.inl ⟨uuid, hpending⟩)
  obtain ⟨effects, framesOut, heq, heffects⟩ := accept_eq server uuid b principal via
  have hsilent : Silent ws server (server.accept uuid b principal via) := by
    rw [heq]
    refine silent_of_history rfl fun effect heffect => ?_
    simp only [List.mem_cons, List.mem_append, List.not_mem_nil, or_false] at heffect
    rcases heffect with rfl | heffect | rfl
    · rfl
    · obtain ⟨other, hattached, rfl⟩ := heffects effect heffect
      refine frameOn_sent_of_ne ?_ _
      rintro rfl
      exact h.ws_ne (h.known b hb) hne hattached
    · rfl
  have hpasses : Passes server (server.accept uuid b principal via) := by
    rw [heq]
    exact passes_update rfl rfl rfl (fun _ => id) rfl
  have hsole := fun c hreaches => Or.inr (a := c = a) (hpasses.reaches c ws hreaches)
  rw [heq] at hsilent hsole ⊢
  refine h.keep (post_update_of_ne hne _) rfl (fun _ => Iff.rfl) exists_lookup_of_erase
    (fun c hc => ?_) rfl hsole hsilent
  rcases hc with hactive | hpending | hindexed
  · rcases exists_lookup_of_insert hactive with rfl | hactive
    · exact hb
    · exact .inl hactive
  · exact .inr (.inl (exists_lookup_of_erase hpending))
  · exact .inr (.inr hindexed)

theorem watched_authorize [HashOrder StdString] (h : Watched session name a ws frames server)
    (uuid principal : StdString) (via : Via) :
    Watched session name a ws frames
      ((server.authorize uuid principal via).toOption.getD server) := by
  rw [Server.authorize]
  split
  · exact h
  · cases hpending : server.tmpSessions.lookup uuid with
    | none => exact h
    | some b =>
        have hne : b ≠ a := by
          rintro rfl
          exact h.unpended ⟨uuid, hpending⟩
        have hactive : Listed (server.accept uuid b principal via) b := by
          obtain ⟨effects, framesOut, heq, -⟩ := accept_eq server uuid b principal via
          rw [heq]
          exact .inl ⟨uuid, Finmap.lookup_insert _⟩
        exact watched_activateSession (watched_accept h hpending principal via) hactive hne
          principal

theorem watched_reject (h : Watched session name a ws frames server) {uuid : StdString}
    (hpending : server.tmpSessions.lookup uuid = some b) (frame : Frame) :
    Watched session name a ws frames
      ({ server with tmpSessions := server.tmpSessions.erase uuid }.sendFrame b frame) := by
  have hne : b ≠ a := by
    rintro rfl
    exact h.unpended ⟨uuid, hpending⟩
  have hattached := h.ws_ne (h.known b (.inr (.inl ⟨uuid, hpending⟩))) hne
  have hsilent : Silent ws { server with tmpSessions := server.tmpSessions.erase uuid }
      ({ server with tmpSessions := server.tmpSessions.erase uuid }.sendFrame b frame) := by
    refine silent_sendFrame ?_ frame
    exact hattached
  obtain ⟨history, framesOut, heq⟩ :=
    sendFrame_eq { server with tmpSessions := server.tmpSessions.erase uuid } b frame
  rw [heq] at hsilent ⊢
  refine h.keep rfl rfl (fun _ => Iff.rfl) exists_lookup_of_erase (fun c hc => ?_) rfl
    (fun c => .inr) hsilent
  exact hc.imp_right (Or.imp_left exists_lookup_of_erase)

theorem watched_attach [HashOrder StdString] (h : Watched session name a ws frames server)
    {uuid : StdString} (hactive : server.sessions.lookup uuid = some b) (hne : b ≠ a)
    {other : ConnId} (hother : other ≠ ws) :
    Watched session name a ws frames (server.attach uuid b other) := by
  have hb : Listed server b := .inl ⟨uuid, hactive⟩
  have hreaches : ∀ c, Reaches ((server.reattach b other).heap c) ws →
      Reaches (server.heap c) ws := by
    intro c hc
    rcases eq_or_ne c b with rfl | hcb
    · exact (reaches_reattach hc).resolve_left hother.symm
    · rw [Server.reattach, Server.put] at hc
      dsimp only at hc
      rwa [Function.update_of_ne hcb] at hc
  rw [Server.attach]
  split
  · have hpended : frameOn ws (.pended uuid b (some other)) = none := rfl
    refine h.keep (post_update_of_ne hne _) rfl (fun _ => Iff.rfl) (fun hpending => ?_)
      (fun c hc => ?_) rfl (fun c hc => .inr (hreaches c hc)) (silent_record hpended server)
    · exact (exists_lookup_of_insert hpending).resolve_left hne.symm
    · rcases hc with hc | hc | hc
      · exact .inl (exists_lookup_of_erase hc)
      · rcases exists_lookup_of_insert hc with rfl | hc
        · exact hb
        · exact .inr (.inl hc)
      · exact .inr (.inr hc)
  · have hactivated : frameOn ws (.activated uuid b (some other)) = none := rfl
    dsimp only
    refine watched_activateSession ?_ ?_ hne _
    · refine h.keep ?_ rfl (fun _ => Iff.rfl) id (fun _ => id) rfl (fun c hc => .inr ?_)
        (silent_record hactivated server)
      · exact (post_update_of_ne hne _).trans (post_update_of_ne hne _)
      · rcases eq_or_ne c b with rfl | hcb
        · rw [Server.attachAuthorized, Server.record, Server.put] at hc
          dsimp only at hc
          rw [Function.update_self] at hc
          exact (reaches_reattach hc).resolve_left hother.symm
        · refine hreaches c ?_
          rw [Server.attachAuthorized, Server.record, Server.put] at hc
          dsimp only at hc
          rwa [Function.update_of_ne hcb] at hc
    · exact .inl ⟨uuid, hactive⟩

theorem watched_createSession [HashOrder StdString] (h : Watched session name a ws frames server)
    (uuid : StdString) {other : ConnId} (hother : other ≠ ws) (now : Nat) :
    Watched session name a ws frames (server.createSession uuid other now) := by
  have hne : server.nextAddr ≠ a :=
    (h.known a (.inr (.inr ⟨name, (h.indexed name).mpr rfl⟩))).ne'
  have hsole : ∀ (session : Session) c, c < server.nextAddr + 1 →
      Reaches (Function.update server.heap server.nextAddr
        { InternalSession.new uuid other now with session } c) ws → c = a := by
    intro session c hc hreaches
    rcases eq_or_ne c server.nextAddr with rfl | hcb
    · rw [Function.update_self] at hreaches
      rcases hreaches with hreaches | hreaches | hreaches
      · exact absurd (Option.some.inj hreaches) hother
      · exact absurd hreaches hother
      · exact absurd hreaches hother
    · rw [Function.update_of_ne hcb] at hreaches
      exact h.sole c (lt_of_le_of_ne (Nat.lt_succ_iff.mp hc) hcb) hreaches
  have hknown : ∀ c, c = server.nextAddr ∨ Listed server c → c < server.nextAddr + 1 := by
    rintro c (rfl | hc)
    · exact Nat.lt_succ_self _
    · exact Nat.lt_succ_of_lt (h.known c hc)
  rw [Server.createSession]
  split
  · have hpended : frameOn ws (.pended uuid server.nextAddr (some other)) = none := rfl
    refine ⟨(post_update_of_ne hne _).trans h.post, h.connected, h.isOpen, h.indexed,
      fun hpending => ?_,
      fun c hc => hknown c ?_, hsole _, Eq.trans (silent_record hpended server) h.frames⟩
    · exact h.unpended ((exists_lookup_of_insert hpending).resolve_left hne.symm)
    · rcases hc with hc | hc | hc
      · exact .inr (.inl hc)
      · exact (exists_lookup_of_insert hc).imp_right fun hc => .inr (.inl hc)
      · exact .inr (.inr (.inr hc))
  · have hactivated : frameOn ws (.activated uuid server.nextAddr (some other)) = none := rfl
    refine watched_activateSession ?_ ?_ hne _
    · refine ⟨(post_update_of_ne hne _).trans h.post, h.connected, h.isOpen, h.indexed, h.unpended,
        fun c hc => hknown c ?_, hsole _, Eq.trans (silent_record hactivated server) h.frames⟩
      rcases hc with hc | hc | hc
      · exact (exists_lookup_of_insert hc).imp_right .inl
      · exact .inr (.inr (.inl hc))
      · exact .inr (.inr (.inr hc))
    · exact .inl ⟨uuid, Finmap.lookup_insert _⟩

theorem watched_setConnection (h : Watched session name a ws frames server) {other : ConnId}
    (hother : other ≠ ws) (connection : Connection) :
    Watched session name a ws frames (server.setConnection other connection) := by
  refine h.keep rfl ?_ (fun _ => Iff.rfl) id (fun _ => id) rfl (fun _ => .inr) rfl
  rw [Server.setConnection]
  dsimp only
  rw [Function.update_of_ne hother.symm]

theorem post_countFrame (internal : InternalSession) (max : Int) (now : Nat) :
    post (Server.countFrame internal max now).1 = post internal := by
  rw [Server.countFrame]
  dsimp only
  split <;> rfl

theorem watched_limitFrame (h : Watched session name a ws frames server) (other : ConnId)
    (now : Nat) :
    Watched session name a ws frames (server.limitFrame other now).1 := by
  have hpasses := passes_limitFrame server other now
  have hpost : ∀ b, post ((server.limitFrame other now).1.heap b) = post (server.heap b) := by
    intro b
    rw [Server.limitFrame]
    dsimp only
    split
    · split
      · rfl
      · next c _ => exact apply_update post fun _ => post_countFrame (server.heap c) _ now
    · rfl
  obtain ⟨heap, heq⟩ := limitFrame_eq server other now
  rw [heq] at hpasses hpost ⊢
  exact h.keep_maps hpasses (hpost a) rfl rfl rfl rfl rfl

end Sessions

end DanWs.Bystanders
