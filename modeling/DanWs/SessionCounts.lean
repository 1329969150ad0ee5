import DanWs.EntryCounts
import DanWs.Ratchets
import DanWs.ServerActions
import Mathlib.Tactic.Ring

namespace DanWs.SessionCounts

open DanWs.EntryCounts
open DanWs.FiniteMaps
open DanWs.Principals
open DanWs.ServerActions
open DanWs.ServerMoves
open DanWs.Servers
open DanWs.Sessions
open DanWs.WireTypes

def principalOf (server : Server) (a : Addr) : StdString :=
  server.effectivePrincipal (server.heap a).session.principal

def sessionsWith (server : Server) (principal : StdString) : ℕ :=
  entriesWith (principalOf server) principal server.sessions

def countOf (manager : PrincipalManager) (principal : StdString) : ℤ :=
  (manager.sessionCounts.lookup principal).getD 0

/-- What the principals know of the sessions is right, and nothing undefined has
happened on the way. -/
structure CountsExact [HashOrder StdString] (server : Server) : Prop where
  defined : server.undefinedBehaviour = false
  count : ∀ principal, countOf server.principals principal = sessionsWith server principal
  active : ∀ principal, server.principals.hasActiveSessions principal ↔
    ∃ uuid a, server.sessions.lookup uuid = some a ∧ principalOf server a = principal
  names : ∀ principal, principal ∈ server.principals.principalNames ↔
    ∃ uuid a, server.sessions.lookup uuid = some a ∧ principalOf server a = principal

/-- The action keeps the balance: it takes over no session, authorizes no pending
client that has a session in `sessions_` as well, and closes no session. -/
def Balanced (server : Server) : Action → Prop
  | .takeOver _ _ => False
  | .authorize clientUuid principal _ =>
      principal = [] ∨ server.tmpSessions.lookup clientUuid = none ∨
        server.sessions.lookup clientUuid = none
  | .close => server.sessions = ∅
  | _ => True

instance (server : Server) : (action : Action) → Decidable (Balanced server action)
  | .takeOver _ _ => inferInstanceAs (Decidable False)
  | .authorize clientUuid principal _ => inferInstanceAs (Decidable
      (principal = [] ∨ server.tmpSessions.lookup clientUuid = none ∨
        server.sessions.lookup clientUuid = none))
  | .close => inferInstanceAs (Decidable (server.sessions = ∅))
  | .connect _ _ | .receive | .limit _ _ | .shut _ | .disconnect _ _ | .identify _ _
  | .create _ _ _ | .dispatch _ _ | .answerTopic _ _ | .answer _ _ | .reject _ _
  | .stopHeartbeat _ | .heartbeat _ | .enableAuthorization _ | .setMaxConnections _
  | .setMaxFramesPerSec _ | .onAuthorize _ | .callPrincipal _ _ | .clearPrincipal _
  | .callSession _ _ => inferInstanceAs (Decidable True)

/-- By how much the count of a principal exceeds the number of its sessions. -/
def excess (server : Server) (principal : StdString) : ℤ :=
  countOf server.principals principal - sessionsWith server principal

section Counts

variable (manager : PrincipalManager)

theorem countOf_addSession (principal other : StdString) :
    countOf (manager.addSession principal) other =
      countOf manager other + if other = principal then 1 else 0 := by
  rw [countOf, PrincipalManager.addSession, lookup_insert_eq_ite]
  split
  · next h => rw [h, Option.getD_some, countOf]
  · rw [add_zero, countOf]

theorem countOf_removeSession {principal : StdString} (h : 0 < countOf manager principal)
    (other : StdString) :
    countOf (manager.removeSession principal).1 other =
      countOf manager other - if other = principal then 1 else 0 := by
  rw [PrincipalManager.removeSession]
  cases hcount : manager.sessionCounts.lookup principal with
  | none => simp [countOf, hcount] at h
  | some count =>
      have hown : countOf manager principal = count := by rw [countOf, hcount, Option.getD_some]
      dsimp only
      split
      · next hlast =>
          rw [countOf, lookup_erase_eq_ite]
          split
          · next heq =>
              rw [heq, hown, Option.getD_none]
              omega
          · rw [sub_zero, countOf]
      · rw [countOf, lookup_insert_eq_ite]
        split
        · next heq => rw [heq, hown, Option.getD_some]
        · rw [sub_zero, countOf]

theorem sessionCounts_principal (name : StdString) :
    (manager.principal name).1.sessionCounts = manager.sessionCounts := by
  rw [PrincipalManager.principal]
  split <;> rfl

theorem hasActiveSessions_iff (principal : StdString) :
    manager.hasActiveSessions principal ↔ 0 < countOf manager principal := by
  rw [PrincipalManager.hasActiveSessions, countOf]
  cases manager.sessionCounts.lookup principal <;> simp

theorem mem_principalNames_iff [HashOrder StdString] (principal : StdString) :
    principal ∈ manager.principalNames ↔ 0 < countOf manager principal := by
  rw [PrincipalManager.principalNames, List.mem_map, countOf]
  constructor
  · rintro ⟨⟨name, count⟩, hmem, rfl⟩
    obtain ⟨hlookup, hpos⟩ := List.mem_filter.mp hmem
    rw [IterationOrder.mem_items] at hlookup
    rw [hlookup, Option.getD_some]
    exact of_decide_eq_true hpos
  · intro hpos
    cases hlookup : manager.sessionCounts.lookup principal with
    | none => simp [hlookup] at hpos
    | some count =>
        rw [hlookup, Option.getD_some] at hpos
        exact ⟨(principal, count), List.mem_filter.mpr
          ⟨(IterationOrder.mem_items _).mpr hlookup, decide_eq_true hpos⟩, rfl⟩

variable (server : Server)

theorem sessionCounts_runSession (a : Addr) (operation : Session → Option PrincipalTX → Outcome) :
    (server.runSession a operation).principals.sessionCounts =
      server.principals.sessionCounts := by
  rw [Server.runSession]
  dsimp only
  generalize operation (server.heap a).session _ = outcome
  have henqueued : ∀ (server : Server) (frames : List Frame),
      (server.enqueue a frames).principals = server.principals := by
    intro server frames
    obtain ⟨history, heq⟩ := enqueue_eq server a frames
    rw [heq]
  have hcounts := fun server frames =>
    congrArg PrincipalManager.sessionCounts (henqueued server frames)
  split
  · refine (hcounts _ _).trans ?_
    dsimp only
    cases (server.heap a).session.txProvider <;> cases outcome.tx <;> rfl
  · refine (hcounts _ _).trans ?_
    dsimp only
    cases (server.heap a).session.txProvider <;> cases outcome.tx <;> rfl

theorem countsExact_iff [HashOrder StdString] :
    CountsExact server ↔
      server.undefinedBehaviour = false ∧ ∀ principal, excess server principal = 0 := by
  have hcount : ∀ principal, excess server principal = 0 ↔
      countOf server.principals principal = sessionsWith server principal :=
    fun _ => sub_eq_zero
  constructor
  · exact fun h => ⟨h.defined, fun principal => (hcount principal).mpr (h.count principal)⟩
  · rintro ⟨hdefined, hexcess⟩
    have hequal := fun principal => (hcount principal).mp (hexcess principal)
    have hpos : ∀ principal, 0 < countOf server.principals principal ↔
        ∃ uuid a, server.sessions.lookup uuid = some a ∧ principalOf server a = principal := by
      intro principal
      rw [hequal, Int.natCast_pos, sessionsWith, entriesWith_pos_iff]
    refine ⟨hdefined, hequal, fun principal => ?_, fun principal => ?_⟩
    · rw [hasActiveSessions_iff, hpos]
    · rw [mem_principalNames_iff, hpos]

end Counts

/-- The sessions of the two maps are where their uuids say, and those of `sessions_`
have a principal. -/
structure Sited (server : Server) : Prop where
  topic : server.isTopicMode = false
  active : ∀ {uuid a}, server.sessions.lookup uuid = some a → a < server.nextAddr ∧
    (server.heap a).session.id = uuid ∧ (server.heap a).session.principal ≠ []
  pending : ∀ {uuid a}, server.tmpSessions.lookup uuid = some a → a < server.nextAddr ∧
    (server.heap a).session.id = uuid
  disjoint : ∀ {uuid a}, server.sessions.lookup uuid = some a →
    server.tmpSessions.lookup uuid ≠ some a

/-- No principal has a count below the number of its sessions. -/
structure Placed (server : Server) : Prop extends Sited server where
  covered : ∀ principal, 0 ≤ excess server principal

/-- What an action makes of the excess. -/
structure Accounts (server next : Server) (balanced : Prop) : Prop where
  placed : Placed next
  undefined : server.undefinedBehaviour → next.undefinedBehaviour
  raise : ∃ extra : StdString → ℕ,
    (∀ principal, excess next principal = excess server principal + extra principal) ∧
      (server.undefinedBehaviour = false →
        ((next.undefinedBehaviour = false ∧ ∀ principal, extra principal = 0) ↔ balanced))

/-- The sessions in the maps stay the same, but for some of `tmpSessions_`. -/
structure Stays (server next : Server) : Prop where
  mode : next.mode = server.mode
  sessions : next.sessions = server.sessions
  tmpSessions : ∀ {uuid a}, next.tmpSessions.lookup uuid = some a →
    server.tmpSessions.lookup uuid = some a
  nextAddr : next.nextAddr = server.nextAddr
  identity : ∀ a, (next.heap a).session.id = (server.heap a).session.id ∧
    (next.heap a).session.principal = (server.heap a).session.principal
  undefinedBehaviour : next.undefinedBehaviour = server.undefinedBehaviour

/-- The counts stay the same as well. -/
structure Keeps (server next : Server) : Prop extends Stays server next where
  counts : next.principals.sessionCounts = server.principals.sessionCounts

section Kept

variable {server mid next : Server}

theorem principalOf_congr {a : Addr} (hmode : next.mode = server.mode)
    (hprincipal : (next.heap a).session.principal = (server.heap a).session.principal) :
    principalOf next a = principalOf server a := by
  rw [principalOf, hprincipal, Server.effectivePrincipal, hmode, ← Server.effectivePrincipal,
    ← principalOf]

theorem Stays.sessionsWith (h : Stays server next) (principal : StdString) :
    sessionsWith next principal = sessionsWith server principal := by
  rw [SessionCounts.sessionsWith, h.sessions]
  exact entriesWith_congr _ fun _ => principalOf_congr h.mode (h.identity _).2

theorem Stays.sited (h : Stays server next) (hsited : Sited server) : Sited next where
  topic := by
    rw [Server.isTopicMode, h.mode]
    exact hsited.topic
  active hactive := by
    rw [h.sessions] at hactive
    rw [h.nextAddr, (h.identity _).1, (h.identity _).2]
    exact hsited.active hactive
  pending hpending := by
    rw [h.nextAddr, (h.identity _).1]
    exact hsited.pending (h.tmpSessions hpending)
  disjoint hactive hpending := by
    rw [h.sessions] at hactive
    exact hsited.disjoint hactive (h.tmpSessions hpending)

theorem Stays.trans (hfirst : Stays server mid) (hsecond : Stays mid next) :
    Stays server next where
  mode := hsecond.mode.trans hfirst.mode
  sessions := hsecond.sessions.trans hfirst.sessions
  tmpSessions h := hfirst.tmpSessions (hsecond.tmpSessions h)
  nextAddr := hsecond.nextAddr.trans hfirst.nextAddr
  identity a := ⟨(hsecond.identity a).1.trans (hfirst.identity a).1,
    (hsecond.identity a).2.trans (hfirst.identity a).2⟩
  undefinedBehaviour := hsecond.undefinedBehaviour.trans hfirst.undefinedBehaviour

theorem stays_update {a : Addr} {internal : InternalSession} (hmode : next.mode = server.mode)
    (hsessions : next.sessions = server.sessions)
    (htmpSessions : next.tmpSessions = server.tmpSessions)
    (hnextAddr : next.nextAddr = server.nextAddr)
    (hheap : next.heap = Function.update server.heap a internal)
    (hid : internal.session.id = (server.heap a).session.id)
    (hprincipal : internal.session.principal = (server.heap a).session.principal)
    (hundefined : next.undefinedBehaviour = server.undefinedBehaviour) : Stays server next := by
  refine ⟨hmode, hsessions, fun h => by rwa [htmpSessions] at h, hnextAddr, fun b => ?_, hundefined⟩
  rw [hheap]
  exact ⟨apply_update (fun held => held.session.id) fun _ => hid,
    apply_update (fun held => held.session.principal) fun _ => hprincipal⟩

theorem Accounts.of_sited {balanced : Prop} (extra : StdString → ℕ) (hplaced : Placed server)
    (hsited : Sited next)
    (hundefined : server.undefinedBehaviour → next.undefinedBehaviour)
    (hexcess : ∀ principal, excess next principal = excess server principal + extra principal)
    (hbalanced : server.undefinedBehaviour = false →
      ((next.undefinedBehaviour = false ∧ ∀ principal, extra principal = 0) ↔ balanced)) :
    Accounts server next balanced := by
  refine ⟨⟨hsited, fun principal => ?_⟩, hundefined, extra, hexcess, hbalanced⟩
  rw [hexcess]
  exact add_nonneg (hplaced.covered principal) (Int.natCast_nonneg _)

/-- An action that raises no excess. -/
theorem Accounts.even {balanced : Prop} (hplaced : Placed server) (hsited : Sited next)
    (hundefined : next.undefinedBehaviour = server.undefinedBehaviour)
    (hexcess : ∀ principal, excess next principal = excess server principal)
    (hbalanced : balanced) : Accounts server next balanced := by
  refine .of_sited (fun _ => 0) hplaced hsited hundefined.ge ?_ ?_
  · exact fun principal => (hexcess principal).trans (add_zero _).symm
  · exact fun hdefined => iff_of_true ⟨hundefined.trans hdefined, fun _ => rfl⟩ hbalanced

/-- An action that raises the excess of one principal. -/
theorem Accounts.raised {balanced : Prop} (hplaced : Placed server) (hsited : Sited next)
    (hundefined : next.undefinedBehaviour = server.undefinedBehaviour) (name : StdString)
    (hexcess : ∀ principal, excess next principal =
      excess server principal + if principal = name then 1 else 0)
    (hbalanced : ¬ balanced) : Accounts server next balanced := by
  refine .of_sited (fun principal => if principal = name then 1 else 0) hplaced hsited
    hundefined.ge (fun principal => ?_) fun _ => ?_
  · rw [hexcess]
    split <;> rfl
  · refine iff_of_false ?_ hbalanced
    rintro ⟨-, hnone⟩
    have hone := hnone name
    rw [if_pos rfl] at hone
    cases hone

theorem Keeps.accounts {balanced : Prop} (h : Keeps server next) (hplaced : Placed server)
    (hbalanced : balanced) : Accounts server next balanced := by
  refine .even hplaced (h.sited hplaced.toSited) h.undefinedBehaviour (fun principal => ?_)
    hbalanced
  rw [excess, h.sessionsWith, countOf, h.counts, ← countOf, ← excess]

theorem keeps_refl (server : Server) : Keeps server server :=
  ⟨⟨rfl, rfl, id, rfl, fun _ => ⟨rfl, rfl⟩, rfl⟩, rfl⟩

theorem Sited.of_entries (uuid : StdString) (a : Addr) (h : Sited server)
    (hmode : next.mode = server.mode) (hnextAddr : server.nextAddr ≤ next.nextAddr)
    (hothers : ∀ b, b ≠ a → next.heap b = server.heap b) (ha : a < next.nextAddr)
    (hid : (next.heap a).session.id = uuid)
    (hactive : ∀ {u b}, next.sessions.lookup u = some b →
      (u = uuid ∧ b = a ∧ (next.heap a).session.principal ≠ []) ∨
        b ≠ a ∧ server.sessions.lookup u = some b)
    (hpending : ∀ {u b}, next.tmpSessions.lookup u = some b →
      (u = uuid ∧ b = a ∧ next.sessions.lookup u ≠ some b) ∨
        b ≠ a ∧ server.tmpSessions.lookup u = some b) : Sited next where
  topic := by
    rw [Server.isTopicMode, hmode]
    exact h.topic
  active {u b} hu := by
    obtain ⟨rfl, rfl, hprincipal⟩ | ⟨hne, hu⟩ := hactive hu
    · exact ⟨ha, hid, hprincipal⟩
    · rw [hothers b hne]
      obtain ⟨hlt, hrest⟩ := h.active hu
      exact ⟨hlt.trans_le hnextAddr, hrest⟩
  pending {u b} hu := by
    obtain ⟨rfl, rfl, -⟩ | ⟨hne, hu⟩ := hpending hu
    · exact ⟨ha, hid⟩
    · rw [hothers b hne]
      obtain ⟨hlt, hrest⟩ := h.pending hu
      exact ⟨hlt.trans_le hnextAddr, hrest⟩
  disjoint {u b} hu hu' := by
    obtain ⟨-, -, hnot⟩ | ⟨hne, hu'⟩ := hpending hu'
    · exact hnot hu
    · obtain ⟨-, rfl, -⟩ | ⟨-, hu⟩ := hactive hu
      · exact hne rfl
      · exact h.disjoint hu hu'

theorem Sited.ne_active {uuid : StdString} {a : Addr} (h : Sited server)
    (hid : (server.heap a).session.id = uuid)
    {u : StdString} {b : Addr} (hu : server.sessions.lookup u = some b) (hne : u ≠ uuid) :
    b ≠ a := by
  rintro rfl
  exact hne ((h.active hu).2.1.symm.trans hid)

theorem Sited.ne_pending {uuid : StdString} {a : Addr} (h : Sited server)
    (hid : (server.heap a).session.id = uuid)
    {u : StdString} {b : Addr} (hu : server.tmpSessions.lookup u = some b) (hne : u ≠ uuid) :
    b ≠ a := by
  rintro rfl
  exact hne ((h.pending hu).2.symm.trans hid)

end Kept

end DanWs.SessionCounts
