import DanWs.ServerSteps

namespace DanWs.Registration

open DanWs.FiniteMaps
open DanWs.ServerConditions
open DanWs.ServerMoves
open DanWs.ServerSteps
open DanWs.ServerTurns
open DanWs.Servers
open DanWs.Sessions
open DanWs.WireTypes

/-- The connection with which a uuid has last entered `sessions_`. -/
def lastActive : List Effect → StdString → Option ConnId
  | [], _ => none
  | .activated clientUuid _ ws :: older, uuid =>
      if clientUuid = uuid then ws else lastActive older uuid
  | _ :: older, uuid => lastActive older uuid

/-- The connection with which a uuid has last entered `tmpSessions_`. -/
def lastPending : List Effect → StdString → Option ConnId
  | [], _ => none
  | .pended clientUuid _ ws :: older, uuid =>
      if clientUuid = uuid then ws else lastPending older uuid
  | _ :: older, uuid => lastPending older uuid

def Enters : Effect → Prop
  | .pended _ _ _ | .activated _ _ _ => True
  | _ => False

theorem lastActive_append {effects : List Effect} (h : ∀ effect ∈ effects, ¬ Enters effect)
    (older : List Effect) (uuid : StdString) :
    lastActive (effects ++ older) uuid = lastActive older uuid := by
  induction effects with
  | nil => rfl
  | cons effect effects ih =>
      have heffect := h effect (by simp)
      have ih := ih fun effect heffect => h effect (by simp [heffect])
      cases effect <;> first | exact ih | exact absurd trivial heffect

theorem lastPending_append {effects : List Effect} (h : ∀ effect ∈ effects, ¬ Enters effect)
    (older : List Effect) (uuid : StdString) :
    lastPending (effects ++ older) uuid = lastPending older uuid := by
  induction effects with
  | nil => rfl
  | cons effect effects ih =>
      have heffect := h effect (by simp)
      have ih := ih fun effect heffect => h effect (by simp [heffect])
      cases effect <;> first | exact ih | exact absurd trivial heffect

theorem not_enters_of_allowed {permits : Permits} {server : Server} {effect : Effect}
    (h : Allowed permits server effect) : ¬ Enters effect := by
  cases effect <;> simp_all [Allowed, Enters]

/-- The object `a` was created for `uuid` and holds the connection `last`. -/
structure Holds (server : Server) (uuid : StdString) (a : Addr) (last : Option ConnId) : Prop where
  lt : a < server.nextAddr
  id : (server.heap a).session.id = uuid
  target : (server.heap a).ws = some (server.heap a).flushTarget
  last : last = (server.heap a).ws

structure Registered (server : Server) : Prop where
  active : ∀ {uuid a}, server.sessions.lookup uuid = some a →
    Holds server uuid a (lastActive server.history uuid)
  pending : ∀ {uuid a}, server.tmpSessions.lookup uuid = some a →
    Holds server uuid a (lastPending server.history uuid)
  disjoint : ∀ {uuid a}, server.sessions.lookup uuid = some a →
    server.tmpSessions.lookup uuid ≠ some a

section Moves

variable {permits : Permits} {server next : Server} {uuid : StdString} {a b : Addr}
  {last : Option ConnId}

theorem Holds.congr (h : Holds server uuid b last)
    (hattachment : attachment (next.heap b) = attachment (server.heap b))
    (hnext : server.nextAddr ≤ next.nextAddr) : Holds next uuid b last := by
  have hid := congrArg (fun tie : Attachment => tie.identity.id) hattachment
  have hws : (next.heap b).ws = (server.heap b).ws := congrArg Attachment.ws hattachment
  have htarget : (next.heap b).flushTarget = (server.heap b).flushTarget :=
    congrArg Attachment.flushTarget hattachment
  exact ⟨h.lt.trans_le hnext, hid.trans h.id, by rw [hws, htarget, h.target], by rw [hws, h.last]⟩

theorem Holds.congr_heap (h : Holds server uuid b last)
    (hheap : next.heap b = server.heap b) (hnext : server.nextAddr ≤ next.nextAddr) :
    Holds next uuid b last :=
  h.congr (congrArg attachment hheap) hnext

theorem Holds.ne {uuid' : StdString} {last' : Option ConnId} (h : Holds server uuid a last)
    (h' : Holds server uuid' b last') (hne : uuid' ≠ uuid) : b ≠ a := by
  rintro rfl
  exact hne (h'.id.symm.trans h.id)

theorem registered_quiet (h : Registered server) (hquiet : Quiet permits server next) :
    Registered next := by
  obtain ⟨effects, hhistory, hallowed⟩ := hquiet.history
  have henters := fun effect heffect => not_enters_of_allowed (hallowed effect heffect)
  refine ⟨fun {uuid a} hactive => ?_, fun {uuid a} hpending => ?_, fun {uuid a} hactive => ?_⟩
  · rw [hquiet.sessions] at hactive
    rw [hhistory, lastActive_append henters]
    exact (h.active hactive).congr (hquiet.attachment a) hquiet.nextAddr.ge
  · rw [hquiet.tmpSessions] at hpending
    rw [hhistory, lastPending_append henters]
    exact (h.pending hpending).congr (hquiet.attachment a) hquiet.nextAddr.ge
  · rw [hquiet.sessions] at hactive
    rw [hquiet.tmpSessions]
    exact h.disjoint hactive

/-- No entry is new, and the objects that leave the maps may change. -/
theorem registered_of_subset (h : Registered server)
    (hsessions : ∀ {uuid a}, next.sessions.lookup uuid = some a →
      server.sessions.lookup uuid = some a)
    (htmpSessions : ∀ {uuid a}, next.tmpSessions.lookup uuid = some a →
      server.tmpSessions.lookup uuid = some a)
    (hheap : ∀ {uuid a}, next.sessions.lookup uuid = some a ∨
      next.tmpSessions.lookup uuid = some a → next.heap a = server.heap a)
    (hnext : next.nextAddr = server.nextAddr)
    (hhistory : ∃ effects, next.history = effects ++ server.history ∧
      ∀ effect ∈ effects, ¬ Enters effect) :
    Registered next := by
  obtain ⟨effects, heq, henters⟩ := hhistory
  refine ⟨fun {uuid a} hactive => ?_, fun {uuid a} hpending => ?_, fun {uuid a} hactive => ?_⟩
  · rw [heq, lastActive_append henters]
    exact (h.active (hsessions hactive)).congr_heap (hheap (.inl hactive)) hnext.ge
  · rw [heq, lastPending_append henters]
    exact (h.pending (htmpSessions hpending)).congr_heap (hheap (.inr hpending)) hnext.ge
  · exact fun hpending => h.disjoint (hsessions hactive) (htmpSessions hpending)

theorem registered_tearDownActive {cause : ConnId} (h : Registered server)
    (hactive : server.sessions.lookup uuid = some a) :
    Registered
      ((server.record (.tornDown cause a (server.heap a).ws)).disconnectSession uuid a) := by
  obtain ⟨index, principals, heq, -⟩ := tearDownActive_eq server uuid cause a
  rw [heq]
  refine registered_of_subset h (fun hb => (lookup_of_lookup_erase hb).2) id ?_ rfl
    ⟨[.onDisconnect a, .tornDown cause a (server.heap a).ws], rfl, by simp [Enters]⟩
  rintro u b (hb | hb)
  · obtain ⟨hne, hb⟩ := lookup_of_lookup_erase hb
    apply Function.update_of_ne
    exact (h.active hactive).ne (h.active hb) hne
  · apply Function.update_of_ne
    rcases eq_or_ne u uuid with rfl | hu
    · rintro rfl
      exact h.disjoint hactive hb
    · exact (h.active hactive).ne (h.pending hb) hu

def Exclusive (server : Server) (uuid : StdString) (a : Addr) : Prop :=
  ∀ {u b}, server.sessions.lookup u = some b ∨ server.tmpSessions.lookup u = some b →
    u ≠ uuid → b ≠ a

theorem Holds.exclusive (h : Registered server) (hholds : Holds server uuid a last) :
    Exclusive server uuid a := by
  rintro u b (hb | hb) hne
  · exact hholds.ne (h.active hb) hne
  · exact hholds.ne (h.pending hb) hne

/-- The uuid that enters a table holds, and the others as before. -/
theorem holds_entered {ws last : Option ConnId} {old : Option Addr}
    (hholds : Holds next uuid a ws) {u : StdString} {b : Addr}
    (hb : (if u = uuid then some a else old) = some b)
    (hold : old = some b → u ≠ uuid → Holds next u b last) :
    Holds next u b (if uuid = u then ws else last) := by
  rcases eq_or_ne u uuid with rfl | hu
  · rw [if_pos rfl] at hb ⊢
    cases hb
    exact hholds
  · rw [if_neg hu] at hb
    rw [if_neg (Ne.symm hu)]
    exact hold hb hu

theorem registered_activated (ws : Option ConnId) (effects : List Effect) (h : Registered server)
    (hexclusive : Exclusive server uuid a) (hholds : Holds next uuid a ws)
    (hsessions : ∀ u, next.sessions.lookup u =
      if u = uuid then some a else server.sessions.lookup u)
    (htmpSessions : ∀ {u b}, next.tmpSessions.lookup u = some b →
      server.tmpSessions.lookup u = some b ∧ b ≠ a)
    (hothers : ∀ b, b ≠ a → next.heap b = server.heap b)
    (hnext : server.nextAddr ≤ next.nextAddr)
    (hhistory : next.history = .activated uuid a ws :: (effects ++ server.history))
    (henters : ∀ effect ∈ effects, ¬ Enters effect) : Registered next := by
  have hlast : ∀ u, lastActive next.history u =
      if uuid = u then ws else lastActive server.history u := by
    intro u
    rw [hhistory, lastActive, lastActive_append henters]
  have hlast' : ∀ u, lastPending next.history u = lastPending server.history u := by
    intro u
    rw [hhistory]
    exact lastPending_append henters _ _
  refine ⟨fun {u b} hb => ?_, fun {u b} hb => ?_, fun {u b} hb hpending => ?_⟩
  · rw [hsessions] at hb
    rw [hlast]
    exact holds_entered hholds hb fun hb hu =>
      (h.active hb).congr_heap (hothers b (hexclusive (.inl hb) hu)) hnext
  · obtain ⟨hb, hne⟩ := htmpSessions hb
    rw [hlast']
    exact (h.pending hb).congr_heap (hothers b hne) hnext
  · obtain ⟨hpending, hne⟩ := htmpSessions hpending
    rw [hsessions] at hb
    split at hb
    · exact hne (Option.some.inj hb).symm
    · exact h.disjoint hb hpending

theorem registered_pended {ws : Option ConnId} (h : Registered server)
    (hexclusive : Exclusive server uuid a) (hholds : Holds next uuid a ws)
    (hsessions : ∀ u, next.sessions.lookup u =
      if u = uuid then none else server.sessions.lookup u)
    (htmpSessions : next.tmpSessions = server.tmpSessions.insert uuid a)
    (hothers : ∀ b, b ≠ a → next.heap b = server.heap b)
    (hnext : server.nextAddr ≤ next.nextAddr)
    (hhistory : next.history = .pended uuid a ws :: server.history) : Registered next := by
  have hactive : ∀ {u b}, next.sessions.lookup u = some b →
      server.sessions.lookup u = some b ∧ u ≠ uuid := by
    intro u b hb
    rw [hsessions] at hb
    split at hb
    · cases hb
    · exact ⟨hb, ‹_›⟩
  refine ⟨fun {u b} hb => ?_, fun {u b} hb => ?_, fun {u b} hb hpending => ?_⟩
  · obtain ⟨hb, hu⟩ := hactive hb
    have hlast : lastActive next.history u = lastActive server.history u := by
      rw [hhistory]
      rfl
    rw [hlast]
    exact (h.active hb).congr_heap (hothers b (hexclusive (.inl hb) hu)) hnext
  · rw [htmpSessions, lookup_insert_eq_ite] at hb
    rw [hhistory, lastPending]
    exact holds_entered hholds hb fun hb hu =>
      (h.pending hb).congr_heap (hothers b (hexclusive (.inr hb) hu)) hnext
  · obtain ⟨hb, hu⟩ := hactive hb
    rw [htmpSessions, lookup_insert_eq_ite, if_neg hu] at hpending
    exact h.disjoint hb hpending

theorem registered_accept {principal : StdString} {via : Via} (h : Registered server)
    (hpending : server.tmpSessions.lookup uuid = some a) :
    Registered (server.accept uuid a principal via) := by
  obtain ⟨effects, framesOut, heq, hsent⟩ := accept_eq server uuid a principal via
  have hholds := h.pending hpending
  rw [heq]
  refine registered_activated (server.heap a).ws
    (effects ++ [.authorized a (server.heap a).ws via]) h (hholds.exclusive h) ?_
    (fun u => lookup_insert_eq_ite _ _ _ _) ?_ (fun b hb => Function.update_of_ne hb _ _) le_rfl
    rfl ?_
  · refine ⟨hholds.lt, ?_, ?_, ?_⟩
    · simpa [Session.authorize] using hholds.id
    · simpa using hholds.target
    · simp
  · intro u b hb
    obtain ⟨hne, hb⟩ := lookup_of_lookup_erase hb
    exact ⟨hb, hholds.exclusive h (.inr hb) hne⟩
  · intro effect heffect
    rcases List.mem_append.mp heffect with hmem | hmem
    · obtain ⟨ws, -, rfl⟩ := hsent effect hmem
      exact id
    · rw [List.mem_singleton.mp hmem]
      exact id

theorem attaches_exclusive {ws : ConnId} (h : Registered server)
    (hattaches : Attaches server next uuid a ws) :
    Exclusive server uuid a ∧ server.tmpSessions.lookup uuid ≠ some a ∧
      server.nextAddr ≤ next.nextAddr ∧ Holds next uuid a (some ws) := by
  have htarget : (next.heap a).ws = some (next.heap a).flushTarget := by
    rw [hattaches.attached, hattaches.flushTarget]
  obtain ⟨hactive, hnext, hid, -⟩ | ⟨-, ha, hnext, hid⟩ := hattaches.origin
  · have hholds := h.active hactive
    exact ⟨hholds.exclusive h, h.disjoint hactive, hnext.ge, hnext ▸ hholds.lt,
      hid.trans hholds.id, htarget, hattaches.attached.symm⟩
  · refine ⟨?_, ?_, ?_, ?_, hid, htarget, hattaches.attached.symm⟩
    · rintro u b (hb | hb) - rfl
      · exact (h.active hb).lt.ne ha
      · exact (h.pending hb).lt.ne ha
    · exact fun hb => (h.pending hb).lt.ne ha
    · rw [hnext, ha]
      exact Nat.le_succ _
    · rw [hnext]
      exact Nat.lt_succ_self _

theorem registered_of_empty (hsessions : server.sessions = ∅)
    (htmpSessions : server.tmpSessions = ∅) : Registered server :=
  ⟨by simp [hsessions], by simp [htmpSessions], by simp [hsessions]⟩

theorem registered_move (h : Registered server) (hmove : Move permits server next) :
    Registered next := by
  cases hmove with
  | quiet hquiet => exact registered_quiet h hquiet
  | tearDownPending hinactive hpending hpermitted =>
      exact registered_of_subset h id (fun hb => (lookup_of_lookup_erase hb).2) (fun _ => rfl) rfl
        ⟨[.tornDown _ _ _], rfl, by simp [Enters]⟩
  | tearDownActive hactive hpermitted => exact registered_tearDownActive h hactive
  | accept hpending hprincipal hpermitted => exact registered_accept h hpending
  | withdraw uuid =>
      exact registered_of_subset h id (fun hb => (lookup_of_lookup_erase hb).2) (fun _ => rfl) rfl
        ⟨[], rfl, by simp⟩
  | pend hattaches hsessions htmpSessions hhistory =>
      obtain ⟨hexclusive, -, hnext, hholds⟩ := attaches_exclusive h hattaches
      exact registered_pended h hexclusive hholds hsessions htmpSessions hattaches.others hnext
        hhistory
  | activate hauth hattaches hsessions htmpSessions hhistory =>
      rename_i u b ws
      obtain ⟨hexclusive, hpending, hnext, hholds⟩ := attaches_exclusive h hattaches
      refine registered_activated (some ws) [] h hexclusive hholds hsessions ?_
        hattaches.others hnext hhistory (by simp)
      intro v c hc
      rw [htmpSessions] at hc
      refine ⟨hc, ?_⟩
      rcases eq_or_ne v u with rfl | hv
      · rintro rfl
        exact hpending hc
      · exact hexclusive (.inr hc) hv
  | empty => exact registered_of_empty rfl rfl
  | retire hactive hpending =>
      rename_i b
      obtain ⟨connections, heq⟩ := closeSession_eq server b
      rw [heq]
      refine registered_of_subset h id id ?_ rfl ⟨[.onDisconnect b], rfl, by simp [Enters]⟩
      rintro u c (hc | hc)
      · apply Function.update_of_ne
        rintro rfl
        exact hactive ⟨u, hc⟩
      · apply Function.update_of_ne
        rintro rfl
        exact hpending ⟨u, hc⟩
  | index | enable | listen | undefined =>
      exact registered_of_subset h id id (fun _ => rfl) rfl ⟨[], rfl, by simp⟩

theorem registered_turn [HashOrder StdString] {terms : Terms} (h : Registered server)
    (hturn : Turn permits terms server next) : Registered next :=
  moves_keep (fun _ _ => registered_move) h (moves_turn hturn)

theorem registered_new (mode : ServerMode) : Registered (Server.new mode) :=
  registered_of_empty rfl rfl

end Moves

end DanWs.Registration
