import DanWs.ConnectionTeardown
import DanWs.FrameDispatch
import DanWs.UnsharedUuids

namespace DanWs.UnsharedRuns

open DanWs.ConnectionOwners
open DanWs.ConnectionTeardown
open DanWs.FiniteMaps
open DanWs.FrameDispatch
open DanWs.PermittedActions
open DanWs.Registration
open DanWs.ServerActions
open DanWs.ServerConditions
open DanWs.Servers
open DanWs.ServerSteps
open DanWs.StepRuns
open DanWs.UnsharedUuids
open DanWs.WireTypes

theorem bytesToUuid_ne_nil {bytes : List UInt8} (h : 16 ≤ bytes.length) :
    bytesToUuid bytes ≠ [] := by
  have hfifth : 4 < (bytes.take 16).length := by
    rw [List.length_take]
    omega
  rw [bytesToUuid, if_neg h.not_gt]
  intro hnil
  have hdash := List.flatMap_eq_nil_iff.mp hnil ((bytes.take 16)[4], 4)
    (List.mk_mem_zipIdx_iff_getElem?.mpr (List.getElem?_eq_getElem hfifth))
  exact absurd hdash (by simp [str])

theorem identity_ne_nil {frame : Frame} {uuid : StdString}
    (h : Server.identity frame = some uuid) : uuid ≠ [] := by
  rw [Server.identity] at h
  split at h
  · split at h
    · next bytes _ =>
        split at h
        · next hlength =>
            cases h
            exact bytesToUuid_ne_nil hlength.ge
        · split at h
          · next hversioned =>
              cases h
              exact bytesToUuid_ne_nil (by omega)
          · cases h
    · cases h
  · cases h

theorem ne_nil_of_known {events : List Event} {uuid : StdString} {ws : ConnId}
    (h : Known events uuid ws) : uuid ≠ [] := by
  obtain ⟨event, -, hevent⟩ := h
  cases event with
  | frame => exact identity_ne_nil hevent.2
  | _ => exact hevent.elim

section Conditions

variable {among : List Event} {server : Server} (hunshared : Unshared among)
  (h : Named among server)

include h

theorem lastRegistered_of_session {uuid : StdString} {a : Addr}
    (hsession : server.sessionOf uuid = some a) :
    ∃ ws, lastRegistered server uuid = some ws ∧ Known among uuid ws := by
  rw [lastRegistered]
  cases hactive : server.sessions.lookup uuid with
  | some b =>
      rw [Option.isSome_some, if_pos rfl]
      exact h.holds (h.registered.active hactive)
  | none =>
      rw [Server.sessionOf, hactive, Option.none_or] at hsession
      rw [Option.isSome_none, if_neg Bool.false_ne_true]
      exact h.holds (h.registered.pending hsession)

include hunshared

theorem permitted_endsOwn [HashOrder StdString] [HashOrder Addr] {action : Action}
    (hfits : Fits among server action) : Permitted endsOwn server action := by
  cases action with
  | disconnect uuid cause =>
      rw [Permitted, endsOwn, Bool.or_eq_true, decide_eq_true_eq]
      cases hsession : server.sessionOf uuid with
      | none => exact .inl rfl
      | some a =>
          obtain ⟨ws, hlast, hknown⟩ := lastRegistered_of_session h hsession
          have hcause := hfits (ne_nil_of_known hknown)
          rw [hlast]
          exact .inr (congrArg some (hunshared uuid hknown hcause))
  | takeOver => exact hfits.elim
  | dispatch => exact ⟨hfits.2, fun _ => rfl, fun _ => rfl⟩
  | answerTopic => exact hfits.2
  | answer => exact hfits
  | clearPrincipal => simp [Permitted, clearMeets, endsOwn, Permits.any]
  | callSession => simp [Permitted, changeMeets, endsOwn, Permits.any]
  | authorize | enableAuthorization | onAuthorize => rfl
  | _ => trivial

theorem permitted_ownFrames [HashOrder StdString] [HashOrder Addr] {action : Action}
    (hfits : Fits among server action) : Permitted ownFrames server action := by
  cases action with
  | dispatch ws a =>
      refine ⟨hfits.2, fun hpending => decide_eq_true ?_, fun hactive => decide_eq_true ?_⟩
      · obtain ⟨other, hlast, hknown⟩ := h.holds (h.registered.pending hpending)
        rw [hlast]
        exact congrArg some (hunshared _ hknown hfits.1)
      · obtain ⟨other, hlast, hknown⟩ := h.holds (h.registered.active hactive)
        rw [hlast]
        exact congrArg some (hunshared _ hknown hfits.1)
  | takeOver => exact hfits.elim
  | answerTopic => exact hfits.2
  | answer => exact hfits
  | clearPrincipal => simp [Permitted, clearMeets, ownFrames, Permits.any]
  | callSession => simp [Permitted, changeMeets, ownFrames, Permits.any]
  | disconnect | authorize | enableAuthorization | onAuthorize => rfl
  | _ => trivial

end Conditions

section Runs

variable [HashOrder StdString] [HashOrder Addr]

/-- Where no two connections share a uuid, every event meets a condition that named
connections and a kept invariant imply. -/
theorem stepsMeet_unshared {events : List Event} (hunshared : Unshared events)
    {permits : Permits} (hthrowing : AllowsThrowing permits) {invariant : Server → Prop}
    (hkeep : ∀ server action, Named events server → invariant server →
      Fits events server action → invariant (perform server action))
    (hpermits : ∀ server action, Named events server → invariant server →
      Fits events server action → Permitted permits server action)
    {server : Server} (h : Named events server) (howned : Owned server)
    (hinvariant : invariant server) :
    StepsMeet step (fun server event => stepMeets permits server event) server events := by
  have hperform : ∀ server action, Named events server ∧ invariant server →
      Fits events server action →
      Named events (perform server action) ∧ invariant (perform server action) :=
    fun server action h hfits =>
      ⟨named_perform h.1 hfits, hkeep server action h.1 h.2 hfits⟩
  have hnext : ∀ server event, (Named events server ∧ invariant server) ∧ Owned server →
      event ∈ events → (Named events (step server event) ∧ invariant (step server event)) ∧
        Owned (step server event) := by
    intro server event h hevent
    refine ⟨?_, owned_step h.2 event⟩
    rw [← run_actions]
    exact invariant_run hperform h.1 (fits_actions hunshared h.1.1 h.2 hevent)
  have hmeets : ∀ server event, (Named events server ∧ invariant server) ∧ Owned server →
      event ∈ events → stepMeets permits server event := fun server event h hevent =>
    stepMeets_of_permitted hthrowing (stepsMeet_of_invariant hperform
      (fun server action h => hpermits server action h.1 h.2) h.1
      (fits_actions hunshared h.1.1 h.2 hevent))
  exact stepsMeet_of_invariant hnext hmeets ⟨⟨h, hinvariant⟩, howned⟩
    (stepsMeet_of_forall fun _ hevent => hevent)

theorem stepsMeet_new (mode : ServerMode) {events : List Event} (hunshared : Unshared events)
    {permits : Permits} (hthrowing : AllowsThrowing permits)
    (hpermits : ∀ server action, Named events server → Fits events server action →
      Permitted permits server action) :
    StepsMeet step (fun server event => stepMeets permits server event) (Server.new mode) events :=
  stepsMeet_unshared hunshared hthrowing (fun _ _ _ _ _ => trivial)
    (fun server action h (_ : True) => hpermits server action h) (named_new mode) (owned_new mode)
    trivial

/-- Where no two connections share a uuid, a dying connection takes down its own
session only, in whatever order the connections come and go. -/
theorem takesDownOwn_of_unshared (mode : ServerMode) {events : List Event}
    (h : Unshared events) :
    TakesDownOwn (run step (Server.new mode) events).history ∧
      (run step (Server.new mode) events).undefinedBehaviour = false := by
  have hmeet := stepsMeet_new mode h (fun _ _ _ => rfl) fun _ _ hnamed hfits =>
    permitted_endsOwn h hnamed hfits
  constructor
  · exact effects_run (fun _ _ => registered_move)
      (fun _ _ hregistered heffect => ownConnection_of_recorded hregistered heffect)
      (registered_new mode) rfl hmeet
  · exact moves_run (fun _ _ => defined_move) rfl hmeet

/-- Frames act on the sessions of their own connections there, and a callback that
authorizes exactly the valid tokens authorizes every session by its own one. -/
theorem dispatchesOwn_of_unshared (mode : ServerMode) {events : List Event}
    (h : Unshared events) :
    DispatchesOwn (run step (Server.new mode) events).history ∧
      ∀ valid principal reasons later,
        events = .enableAuthorization true :: .onAuthorize (checking valid principal reasons) ::
          later → (∀ event ∈ later, LeavesAuthorization event) →
        Vouched valid (run step (Server.new mode) events) := by
  have hmeet := stepsMeet_new mode h (fun _ _ _ => rfl) fun _ _ hnamed hfits =>
    permitted_ownFrames h hnamed hfits
  constructor
  · exact effects_run (fun _ _ => registered_move)
      (fun _ _ hregistered heffect => ownFrame_of_recorded hregistered heffect)
      (registered_new mode) rfl hmeet
  · rintro valid principal reasons later rfl hleaves
    exact vouched_of_ownFrames mode hleaves hmeet

end Runs

end DanWs.UnsharedRuns
