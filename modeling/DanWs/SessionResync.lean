import DanWs.ClientProgress
import DanWs.SessionReplication

namespace DanWs.SessionResync

open DanWs.ClientProgress
open DanWs.Clients
open DanWs.FiniteMaps
open DanWs.FlatStates
open DanWs.KeyPaths
open DanWs.Replicas
open DanWs.SessionCalls
open DanWs.SessionReplication
open DanWs.SessionRows
open DanWs.Sessions
open DanWs.StepRuns
open DanWs.WireRows
open DanWs.WireTypes

section Repair

variable [HashOrder StdString] {session : Session} {flat : FlatState}

/-- A full resync repairs any client, if and only if the ids of the live keys are
distinct. -/
theorem readyCopy_resync_iff (hflat : session.flatState = some flat)
    (hrows : Announceable (sessionRows session)) {client : Client}
    (hlimit : client.registry.maxKeys = 10000) :
    ReadyCopy (client.receive session.triggerSessionResync).1 (sessionRows session) ↔
      UniqueIds (sessionRows session) := by
  have heq := wireRows_sessionWires hflat
  constructor
  · intro h
    exact h.inSync.mirrors.wellKeyed.id
  · intro hids
    rw [triggerSessionResync_eq hflat, ← heq]
    rw [← heq] at hrows hids
    apply readyCopy_announcement client ⟨hrows.unique, hids⟩ (hlimit ▸ hrows.fits)
    exact fun wire hwire => hrows.valid _ (mem_wireRows.mpr ⟨wire, hwire, rfl⟩)

/-- Fewer than `2 ^ 32` ids handed out since the activation are distinct. -/
theorem uniqueIds_run {session : Session} (htopics : session.topicHandles = ∅)
    {calls : List Call} (h : StepsMeet step WithinCounter (activate session) calls) :
    UniqueIds (sessionRows (run step (activate session) calls).session) :=
  uniqueIds_sessionRows (numbered_run (follows_activate htopics).toNumbered h).ids

end Repair

def boardSession [HashOrder StdString] : Session :=
  (run step (activate (Session.new (str "uuid")))
    [createBoard, .set (str "k") (.int32 1),
      .topicSet (str "board") (str "x") (.bool true)]).session

/-- A client that waits for its authorization and holds a value of another key. -/
def strayClient : Client :=
  { Client.new with state := .authorizing, store := (∅ : FiniteMap UInt32 Payload).insert 7 .null }

theorem readyCopy_resync_iff_board :
    let _ := HashOrder.ascending StdString
    ReadyCopy (strayClient.receive boardSession.triggerSessionResync).1
        (sessionRows boardSession) ↔ UniqueIds (sessionRows boardSession) := by
  have hrows : Announceable (sessionRows (@boardSession (HashOrder.ascending StdString))) := by
    decide +kernel
  intro _
  exact readyCopy_resync_iff rfl hrows rfl

section Wrapping

def toggled (n : Nat) : Payload := if n % 2 = 0 then .int32 1 else .bool true

def toggles : Nat → List Call
  | 0 => []
  | n + 1 => toggles n ++ [.set (str "b") (toggled (n + 1))]

def togglingCalls (n : Nat) : List Call :=
  [.set (str "a") (.int32 1), .set (str "b") (toggled 0)] ++ toggles n

structure Toggled (n : Nat) (session : Session) (flat : FlatState) : Prop where
  flatState : session.flatState = some flat
  topicHandles : session.topicHandles = ∅
  nextKeyId : session.nextKeyId = 3 + UInt32.ofNat n
  wirePrefix : flat.wirePrefix = []
  lookup : ∀ key, flat.entries.lookup key =
    if key = str "b" then some ⟨2 + UInt32.ofNat n, detectDataType (toggled n), toggled n⟩
    else if key = str "a" then some ⟨1, .varInteger, .int32 1⟩
    else none

theorem detectDataType_toggled (n : Nat) :
    detectDataType (toggled n) ≠ detectDataType (toggled (n + 1)) := by
  rw [toggled, toggled]
  rcases Nat.mod_two_eq_zero_or_one n with hmod | hmod
  · rw [if_pos hmod, if_neg (by omega)]
    exact DataType.noConfusion
  · rw [if_neg (by omega), if_pos (by omega)]
    exact DataType.noConfusion

/-- When `b` has been through all ids, it has got that of `a`. -/
theorem not_uniqueIds_wrapped {session : Session} {flat : FlatState}
    (h : Toggled (2 ^ 32 - 1) session flat) : ¬ UniqueIds (sessionRows session) := by
  have ha := wireRow_mem_rows (h.lookup (str "a"))
  have hb := wireRow_mem_rows (h.lookup (str "b"))
  have hid : (1 : UInt32) = 2 + UInt32.ofNat (2 ^ 32 - 1) := by decide
  intro hunique
  have heq := hunique _ (mem_sessionRows.mpr ⟨none, flat, h.flatState, ha⟩) _
    (mem_sessionRows.mpr ⟨none, flat, h.flatState, hb⟩) hid
  have hpath : str "a" = str "b" := flat.wirePath_injective (congrArg Row.path heq)
  revert hpath
  decide

theorem announceable_toggled {n : Nat} {session : Session} {flat : FlatState}
    (h : Toggled n session flat) : Announceable (sessionRows session) := by
  have hrows : sessionRows session ⊆
      {⟨str "a", 1, .int32 1⟩, ⟨str "b", 2 + UInt32.ofNat n, toggled n⟩} := by
    intro row hrow
    obtain ⟨source, found, hfound, hrow⟩ := mem_sessionRows.mp hrow
    cases source with
    | some name =>
        rw [storeOf, h.topicHandles] at hfound
        cases hfound
    | none =>
        rw [storeOf, h.flatState] at hfound
        obtain rfl := Option.some.inj hfound
        obtain ⟨key, entry, hentry, rfl⟩ := (mem_rows flat).mp hrow
        rw [h.lookup] at hentry
        rw [FlatState.wirePath, if_pos h.wirePrefix]
        split at hentry
        · next hkey =>
            subst hkey
            rw [← Option.some.inj hentry]
            exact Finset.mem_insert_of_mem (Finset.mem_singleton_self _)
        · split at hentry
          · next hkey =>
              subst hkey
              rw [← Option.some.inj hentry]
              exact Finset.mem_insert_self _ _
          · cases hentry
  constructor
  · intro row hrow
    have ha : checkKeyPath (str "a") = .ok () := by decide
    have hb : checkKeyPath (str "b") = .ok () := by decide
    rcases Finset.mem_insert.mp (hrows hrow) with rfl | hrow
    · exact ha
    · rw [Finset.mem_singleton.mp hrow]
      exact hb
  · intro row hrow other hother hpath
    have hne : str "a" ≠ str "b" := by decide
    have hfirst := hrows hrow
    have hsecond := hrows hother
    rw [Finset.mem_insert, Finset.mem_singleton] at hfirst hsecond
    rcases hfirst with rfl | rfl <;> rcases hsecond with rfl | rfl
    · rfl
    · exact absurd hpath hne
    · exact absurd hpath hne.symm
    · rfl
  · exact (Finset.card_le_card hrows).trans (Finset.card_le_two.trans (by decide))

variable [HashOrder StdString]

theorem toggled_step {n : Nat} {activation : Activation} {flat : FlatState}
    (h : Toggled n activation.session flat) :
    ∃ next, Toggled (n + 1)
      (step activation (.set (str "b") (toggled (n + 1)))).session next := by
  have hold := h.lookup (str "b")
  rw [if_pos rfl] at hold
  have htype := detectDataType_toggled n
  simp only [step, perform, Session.set, h.flatState, FlatState.set, hold, ne_eq, htype,
    not_false_eq_true, if_true]
  refine ⟨_, rfl, h.topicHandles, ?_, h.wirePrefix, fun key => ?_⟩
  · rw [h.nextKeyId, UInt32.ofNat_add, UInt32.add_assoc]
    rfl
  · rw [lookup_insert_eq_ite, lookup_erase_eq_ite, h.lookup, h.nextKeyId]
    split
    · rw [UInt32.ofNat_add, UInt32.add_comm (UInt32.ofNat n), ← UInt32.add_assoc]
      rfl
    · rfl

theorem toggled_run (uuid : StdString) (n : Nat) :
    ∃ flat, Toggled n (run step (activate (Session.new uuid)) (togglingCalls n)).session flat := by
  induction n with
  | zero =>
      refine ⟨_, rfl, rfl, rfl, rfl, fun key => ?_⟩
      simp only [lookup_insert_eq_ite]
      rfl
  | succ n ih =>
      obtain ⟨flat, h⟩ := ih
      rw [togglingCalls, toggles, ← List.append_assoc, run_append, run_cons, run_nil]
      exact toggled_step h

end Wrapping

/-- Behind `2 ^ 32 + 1` calls a resync cannot tell two keys apart. -/
theorem not_readyCopy_resync :
    ¬ ∀ (_ : HashOrder StdString) (session : Session) (client : Client),
      (∃ uuid calls, session = (run step (activate (Session.new uuid)) calls).session) →
      Announceable (sessionRows session) →
      ReadyCopy (client.receive session.triggerSessionResync).1 (sessionRows session) := by
  intro h
  let _ := HashOrder.ascending StdString
  obtain ⟨flat, hwrapped⟩ := toggled_run (str "uuid") (2 ^ 32 - 1)
  have hcopy := h inferInstance _ Client.new ⟨str "uuid", _, rfl⟩ (announceable_toggled hwrapped)
  exact not_uniqueIds_wrapped hwrapped hcopy.inSync.mirrors.wellKeyed.id

end DanWs.SessionResync
