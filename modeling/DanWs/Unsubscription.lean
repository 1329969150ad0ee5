import DanWs.StepRuns
import DanWs.WireTypes
import Mathlib.Data.Finset.Insert
import Mathlib.Data.List.Range
import Mathlib.Logic.Function.Basic

namespace DanWs.Unsubscription

open DanWs.StepRuns
open DanWs.WireTypes

inductive CallbackEvent where
  | onConnect
  | onDisconnect
  | onReady
  | onReceive
  | onUpdate
  | onReconnecting
  | onReconnect
  | onReconnectFailed
  | onError
  /-- `onReceive` of a topic handle. -/
  | topicReceive (topicName : StdString)
  /-- `onUpdate` of a topic handle. -/
  | topicUpdate (topicName : StdString)
  deriving DecidableEq

/-- `addCallback`: the vector with the callback, and the position that the
returned function keeps. -/
def addCallback {Cb : Type*} (vec : List Cb) (cb : Cb) : List Cb × ℕ :=
  (vec ++ [cb], (vec ++ [cb]).length - 1)

/-- The function that `addCallback` returns. -/
def removeCallback {Cb : Type*} (vec : List Cb) (idx : ℕ) : List Cb :=
  if idx < vec.length then vec.eraseIdx idx else vec

/-- Callbacks go by the number of their registration, and so do the functions
that were returned for them: the event and the position that each has kept. -/
structure Callbacks where
  vectors : CallbackEvent → List ℕ
  returned : List (CallbackEvent × ℕ)

inductive Call where
  | register (event : CallbackEvent)
  /-- The function that was returned for the registration of this number. -/
  | unsubscribe (number : ℕ)
  deriving DecidableEq

namespace Callbacks

def new : Callbacks := ⟨fun _ => [], []⟩

def perform (callbacks : Callbacks) : Call → Callbacks
  | .register event =>
      let (vec, idx) := addCallback (callbacks.vectors event) callbacks.returned.length
      ⟨Function.update callbacks.vectors event vec, callbacks.returned ++ [(event, idx)]⟩
  | .unsubscribe number =>
      match callbacks.returned[number]? with
      | none => callbacks
      | some (event, idx) =>
          { callbacks with
            vectors := Function.update callbacks.vectors event
              (removeCallback (callbacks.vectors event) idx) }

end Callbacks

/-- A registration, with the callbacks of its event that were there before. -/
structure Registration where
  event : CallbackEvent
  ahead : List ℕ

/-- What the calls mean: which callbacks were registered, and which of their
functions were called. -/
structure Subscriptions where
  registrations : List Registration
  unsubscribed : Finset ℕ

namespace Subscriptions

def new : Subscriptions := ⟨[], ∅⟩

variable (subscriptions : Subscriptions)

def Remains (event : CallbackEvent) (number : ℕ) : Prop :=
  (subscriptions.registrations[number]?).map Registration.event = some event ∧
    number ∉ subscriptions.unsubscribed

instance (event : CallbackEvent) (number : ℕ) : Decidable (subscriptions.Remains event number) :=
  inferInstanceAs (Decidable (_ ∧ _))

def remainingBelow (event : CallbackEvent) (bound : ℕ) : List ℕ :=
  (List.range bound).filter (subscriptions.Remains event ·)

def remaining (event : CallbackEvent) : List ℕ :=
  subscriptions.remainingBelow event subscriptions.registrations.length

def record : Call → Subscriptions
  | .register event =>
      { subscriptions with
        registrations :=
          subscriptions.registrations ++ [⟨event, subscriptions.remaining event⟩] }
  | .unsubscribe number =>
      if number < subscriptions.registrations.length then
        { subscriptions with unsubscribed := insert number subscriptions.unsubscribed }
      else subscriptions

/-- A function is called for the first time while all callbacks that were there
before its own still are, and later while no more callbacks are there than were
there before its own. -/
def KeepsPositions : Call → Prop
  | .register _ => True
  | .unsubscribe number => ∀ registration,
      subscriptions.registrations[number]? = some registration →
        if number ∈ subscriptions.unsubscribed then
          (subscriptions.remaining registration.event).length ≤ registration.ahead.length
        else ∀ other ∈ registration.ahead, other ∉ subscriptions.unsubscribed

end Subscriptions

section Positions

variable {α : Type*}

theorem removeCallback_eq (vec : List α) (idx : ℕ) : removeCallback vec idx = vec.eraseIdx idx := by
  rw [removeCallback]
  split
  · rfl
  · next hidx => exact (List.eraseIdx_of_length_le (Nat.not_lt.mp hidx)).symm

theorem eraseIdx_eq_iff {before after : List α} {item : α} (hbefore : item ∉ before)
    (hafter : item ∉ after) (idx : ℕ) :
    (before ++ item :: after).eraseIdx idx = before ++ after ↔ idx = before.length := by
  constructor
  · intro h
    by_contra hne
    have hlength : before.length < (before ++ item :: after).length := by
      rw [List.length_append, List.length_cons]
      omega
    have hitem : item ∈ (before ++ item :: after).eraseIdx idx := by
      rw [List.mem_eraseIdx_iff_getElem]
      exact ⟨before.length, hlength, Ne.symm hne, List.getElem_of_append rfl rfl⟩
    rw [h, List.mem_append] at hitem
    exact hitem.elim hbefore hafter
  · rintro rfl
    rw [List.eraseIdx_append_of_length_le (Nat.le_refl _), Nat.sub_self, List.eraseIdx_cons_zero]

theorem range_split {number bound : ℕ} (h : number < bound) :
    ∃ after : List ℕ, List.range bound = List.range number ++ number :: after ∧
      ∀ other ∈ after, number < other := by
  obtain ⟨count, rfl⟩ := Nat.exists_eq_add_of_lt h
  refine ⟨(List.range count).map fun i => number + (i + 1), ?_, ?_⟩
  · rw [Nat.add_assoc, List.range_add, List.range_succ_eq_map, List.map_cons, List.map_map]
    rfl
  · intro other hother
    obtain ⟨i, -, rfl⟩ := List.mem_map.mp hother
    omega

end Positions

namespace Subscriptions

section Remaining

variable {subscriptions : Subscriptions} {event : CallbackEvent} {number bound : ℕ}

theorem mem_remainingBelow :
    number ∈ subscriptions.remainingBelow event bound ↔
      number < bound ∧ subscriptions.Remains event number := by
  rw [remainingBelow, List.mem_filter, List.mem_range, decide_eq_true_iff]

theorem Remains.lt (h : subscriptions.Remains event number) :
    number < subscriptions.registrations.length := by
  obtain ⟨registration, hregistration, -⟩ := Option.map_eq_some_iff.mp h.1
  exact (List.getElem?_eq_some_iff.mp hregistration).1

theorem remaining_split (h : subscriptions.Remains event number) :
    ∃ after, subscriptions.remaining event =
        subscriptions.remainingBelow event number ++ number :: after ∧
      ∀ other ∈ after, number < other := by
  obtain ⟨after, hrange, hafter⟩ := range_split h.lt
  refine ⟨after.filter (subscriptions.Remains event ·), ?_, fun other hother => ?_⟩
  · rw [remaining, remainingBelow, hrange, List.filter_append, List.filter_cons,
      if_pos (decide_eq_true h)]
    rfl
  · exact hafter other (List.mem_of_mem_filter hother)

theorem remainingBelow_unsubscribe (subscriptions : Subscriptions) (number bound : ℕ)
    (event : CallbackEvent) :
    remainingBelow
        { subscriptions with unsubscribed := insert number subscriptions.unsubscribed } event
          bound =
      (subscriptions.remainingBelow event bound).filter (· ≠ number) := by
  rw [remainingBelow, remainingBelow, List.filter_filter]
  apply List.filter_congr
  intro other _
  rw [← Bool.decide_and, decide_eq_decide, Remains, Remains, Finset.mem_insert, not_or]
  exact ⟨fun h => ⟨h.2.1, h.1, h.2.2⟩, fun h => ⟨h.2.1, h.1, h.2.2⟩⟩

theorem remainingBelow_register (subscriptions : Subscriptions) (registration : Registration)
    (event : CallbackEvent) (h : bound ≤ subscriptions.registrations.length) :
    remainingBelow
        { subscriptions with registrations := subscriptions.registrations ++ [registration] }
        event bound =
      subscriptions.remainingBelow event bound := by
  apply List.filter_congr
  intro other hother
  have hlt : other < subscriptions.registrations.length :=
    (List.mem_range.mp hother).trans_le h
  rw [decide_eq_decide, Remains, Remains, List.getElem?_append_left hlt]

end Remaining

end Subscriptions

open Subscriptions

/-- The returned functions have kept the positions of their registrations. -/
structure Tracks (callbacks : Callbacks) (subscriptions : Subscriptions) : Prop where
  returned : callbacks.returned =
    subscriptions.registrations.map fun registration =>
      (registration.event, registration.ahead.length)
  ahead : ∀ number registration, subscriptions.registrations[number]? = some registration →
    subscriptions.remainingBelow registration.event number =
      registration.ahead.filter (· ∉ subscriptions.unsubscribed)
  known : ∀ number ∈ subscriptions.unsubscribed, number < subscriptions.registrations.length

/-- The callbacks that are left are the ones whose functions were not called. -/
def Agrees (callbacks : Callbacks) (subscriptions : Subscriptions) : Prop :=
  ∀ event, callbacks.vectors event = subscriptions.remaining event

section Steps

variable {callbacks : Callbacks} {subscriptions : Subscriptions}

theorem filter_unsubscribed {bound : ℕ} (event : CallbackEvent) :
    (subscriptions.remainingBelow event bound).filter (· ∉ subscriptions.unsubscribed) =
      subscriptions.remainingBelow event bound := by
  rw [List.filter_eq_self]
  intro other hother
  exact decide_eq_true (mem_remainingBelow.mp hother).2.2

theorem remaining_register (h : Tracks callbacks subscriptions) (event other : CallbackEvent) :
    (subscriptions.record (.register event)).remaining other =
      subscriptions.remaining other ++
        if other = event then [subscriptions.registrations.length] else [] := by
  have hfresh : subscriptions.registrations.length ∉ subscriptions.unsubscribed :=
    fun hmem => Nat.lt_irrefl _ (h.known _ hmem)
  have hremains : (subscriptions.record (.register event)).Remains other
      subscriptions.registrations.length ↔ other = event := by
    rw [Remains, record, List.getElem?_concat_length, Option.map_some, Option.some.injEq,
      and_iff_left hfresh]
    exact eq_comm
  have hbelow := remainingBelow_register subscriptions
    ⟨event, subscriptions.remaining event⟩ other (Nat.le_refl _)
  rw [record] at hremains ⊢
  rw [remaining, List.length_append, List.length_singleton, remainingBelow, List.range_succ,
    List.filter_append]
  congr 1
  rw [List.filter_cons, List.filter_nil]
  simp only [hremains, decide_eq_true_eq]

theorem remaining_unsubscribe (subscriptions : Subscriptions) {number : ℕ}
    (h : number < subscriptions.registrations.length) (event : CallbackEvent) :
    (subscriptions.record (.unsubscribe number)).remaining event =
      (subscriptions.remaining event).filter (· ≠ number) := by
  rw [record, if_pos h]
  exact remainingBelow_unsubscribe subscriptions number _ event

theorem filter_remaining {number : ℕ} {event : CallbackEvent}
    (h : ¬ subscriptions.Remains event number) :
    (subscriptions.remaining event).filter (· ≠ number) = subscriptions.remaining event := by
  rw [List.filter_eq_self]
  rintro other hother
  refine decide_eq_true ?_
  rintro rfl
  exact h (mem_remainingBelow.mp hother).2

theorem tracks_register (h : Tracks callbacks subscriptions)
    (hagrees : Agrees callbacks subscriptions) (event : CallbackEvent) :
    Tracks (callbacks.perform (.register event)) (subscriptions.record (.register event)) := by
  refine ⟨?_, fun number registration hnumber => ?_, fun number hnumber => ?_⟩
  · rw [record, List.map_append, ← h.returned, ← hagrees event]
    simp [Callbacks.perform, addCallback]
  · rw [record] at hnumber ⊢
    rw [List.getElem?_append] at hnumber
    split at hnumber
    · next hlt =>
        rw [remainingBelow_register subscriptions _ _ (Nat.le_of_lt hlt)]
        exact h.ahead number registration hnumber
    · next hle =>
        obtain ⟨hindex, rfl⟩ := List.getElem?_eq_some_iff.mp hnumber
        rw [List.length_singleton, Nat.lt_one_iff] at hindex
        obtain rfl : number = subscriptions.registrations.length := by omega
        simp only [Nat.sub_self, List.getElem_cons_zero]
        rw [remainingBelow_register subscriptions _ _ (Nat.le_refl _)]
        exact (filter_unsubscribed event).symm
  · rw [record, List.length_append]
    exact Nat.lt_add_right _ (h.known number hnumber)

theorem tracks_unsubscribe (h : Tracks callbacks subscriptions) (number : ℕ) :
    Tracks (callbacks.perform (.unsubscribe number))
      (subscriptions.record (.unsubscribe number)) := by
  have hreturned : (callbacks.perform (.unsubscribe number)).returned = callbacks.returned := by
    rw [Callbacks.perform]
    split <;> rfl
  rw [record]
  split
  · next hlt =>
      refine ⟨hreturned.trans h.returned, fun other registration hother => ?_,
        fun other hother => ?_⟩
      · rw [remainingBelow_unsubscribe, h.ahead other registration hother, List.filter_filter]
        apply List.filter_congr
        intro found _
        rw [← Bool.decide_and, decide_eq_decide, Finset.mem_insert, not_or]
      · rcases Finset.mem_insert.mp hother with rfl | hother
        · exact hlt
        · exact h.known other hother
  · exact ⟨hreturned.trans h.returned, h.ahead, h.known⟩

/-- The returned functions keep the positions, whatever is called. -/
theorem tracks_step (h : Tracks callbacks subscriptions) (hagrees : Agrees callbacks subscriptions)
    (call : Call) : Tracks (callbacks.perform call) (subscriptions.record call) := by
  cases call with
  | register event => exact tracks_register h hagrees event
  | unsubscribe number => exact tracks_unsubscribe h number

theorem eraseIdx_eq_filter_iff (h : Tracks callbacks subscriptions) {number : ℕ}
    {registration : Registration}
    (hnumber : subscriptions.registrations[number]? = some registration) :
    (subscriptions.remaining registration.event).eraseIdx registration.ahead.length =
        (subscriptions.remaining registration.event).filter (· ≠ number) ↔
      if number ∈ subscriptions.unsubscribed then
        (subscriptions.remaining registration.event).length ≤ registration.ahead.length
      else ∀ other ∈ registration.ahead, other ∉ subscriptions.unsubscribed := by
  split
  · next hgone =>
      rw [filter_remaining fun hremains => hremains.2 hgone, List.eraseIdx_eq_self]
  · next hthere =>
      have hremains : subscriptions.Remains registration.event number :=
        ⟨by rw [hnumber, Option.map_some], hthere⟩
      have hlength := h.ahead number registration hnumber
      obtain ⟨after, hsplit, hafter⟩ := remaining_split hremains
      have hbefore : number ∉ subscriptions.remainingBelow registration.event number :=
        fun hmem => Nat.lt_irrefl _ (mem_remainingBelow.mp hmem).1
      have hnot : number ∉ after := fun hmem => Nat.lt_irrefl _ (hafter number hmem)
      have hfilter : (subscriptions.remaining registration.event).filter (· ≠ number) =
          subscriptions.remainingBelow registration.event number ++ after := by
        rw [hsplit, List.filter_append, List.filter_cons, if_neg (by simp)]
        congr 1
        · exact List.filter_eq_self.mpr fun other hother =>
            decide_eq_true fun heq => hbefore (heq ▸ hother)
        · exact List.filter_eq_self.mpr fun other hother =>
            decide_eq_true fun heq => hnot (heq ▸ hother)
      rw [hfilter, hsplit, eraseIdx_eq_iff hbefore hnot, hlength, eq_comm,
        List.length_filter_eq_length_iff]
      simp only [decide_eq_true_eq]

/-- Only the callbacks of the event that the function was returned for can differ. -/
theorem agrees_unsubscribe_iff (h : Tracks callbacks subscriptions)
    (hagrees : Agrees callbacks subscriptions) {number : ℕ} {registration : Registration}
    (hnumber : subscriptions.registrations[number]? = some registration) :
    Agrees (callbacks.perform (.unsubscribe number))
        (subscriptions.record (.unsubscribe number)) ↔
      (subscriptions.remaining registration.event).eraseIdx registration.ahead.length =
        (subscriptions.remaining registration.event).filter (· ≠ number) := by
  have hreturned : callbacks.returned[number]? =
      some (registration.event, registration.ahead.length) := by
    rw [h.returned, List.getElem?_map, hnumber, Option.map_some]
  have hlt := (List.getElem?_eq_some_iff.mp hnumber).1
  rw [Agrees, Callbacks.perform, hreturned]
  simp only [remaining_unsubscribe subscriptions hlt, removeCallback_eq, hagrees _]
  constructor
  · intro hall
    have hevent := hall registration.event
    rwa [Function.update_self] at hevent
  · intro hevent other
    rw [Function.update_apply]
    split
    · next heq => rw [heq, hevent]
    · next hne =>
        rw [hagrees, filter_remaining]
        rintro ⟨hother, -⟩
        rw [hnumber, Option.map_some, Option.some.injEq] at hother
        exact hne hother.symm

/-- A call takes off the callback of its own registration, or nothing where that
one is gone, exactly while the positions are kept. -/
theorem agrees_step_iff (h : Tracks callbacks subscriptions)
    (hagrees : Agrees callbacks subscriptions) (call : Call) :
    Agrees (callbacks.perform call) (subscriptions.record call) ↔
      subscriptions.KeepsPositions call := by
  cases call with
  | register event =>
      refine iff_of_true (fun other => ?_) trivial
      rw [remaining_register h, Callbacks.perform, addCallback]
      dsimp only
      rw [Function.update_apply, h.returned, List.length_map]
      split
      · next heq => rw [heq, hagrees]
      · rw [hagrees, List.append_nil]
  | unsubscribe number =>
      rw [KeepsPositions]
      cases hnumber : subscriptions.registrations[number]? with
      | none =>
          have hreturned : callbacks.returned[number]? = none := by
            rw [h.returned, List.getElem?_map, hnumber, Option.map_none]
          have hle : ¬ number < subscriptions.registrations.length :=
            Nat.not_lt.mpr (List.getElem?_eq_none_iff.mp hnumber)
          rw [Callbacks.perform, hreturned, record, if_neg hle]
          exact iff_of_true hagrees fun registration hnone => by cases hnone
      | some registration =>
          rw [agrees_unsubscribe_iff h hagrees hnumber, eraseIdx_eq_filter_iff h hnumber]
          exact ⟨fun hmeet _ hsome => Option.some.inj hsome ▸ hmeet, fun hmeet => hmeet _ rfl⟩

end Steps

section Runs

open Callbacks (perform)

theorem tracks_new : Tracks Callbacks.new Subscriptions.new where
  returned := rfl
  ahead := by
    intro number registration hnumber
    cases hnumber
  known := by
    intro number hnumber
    cases hnumber

/-- At any time the callbacks that are left are those whose own functions were not
called, exactly if every call keeps the positions. -/
theorem agrees_with_record_iff (calls : List Call) :
    (∀ before, before <+: calls →
      Agrees (run perform Callbacks.new before) (run record Subscriptions.new before)) ↔
      StepsMeet record KeepsPositions Subscriptions.new calls := by
  let invariant : Callbacks × Subscriptions → Prop := fun pair =>
    Tracks pair.1 pair.2 ∧ Agrees pair.1 pair.2
  have hstep : ∀ pair call, invariant pair →
      (invariant (both perform record pair call) ↔ pair.2.KeepsPositions call) := by
    rintro ⟨callbacks, subscriptions⟩ call ⟨htracks, hagrees⟩
    rw [← agrees_step_iff htracks hagrees]
    exact and_iff_right (tracks_step htracks hagrees call)
  have hnew : invariant (Callbacks.new, Subscriptions.new) := ⟨tracks_new, fun _ => rfl⟩
  rw [← stepsMeet_both perform record, ← forall_prefix_iff_stepsMeet hstep hnew]
  simp only [run_both]
  constructor
  · intro hall before hbefore
    induction before using List.reverseRecOn with
    | nil => exact hnew
    | append_singleton before call ih =>
        obtain ⟨htracks, hagrees⟩ := ih ((List.prefix_append _ _).trans hbefore)
        refine ⟨?_, hall _ hbefore⟩
        rw [run_append, run_append]
        exact tracks_step htracks hagrees call
  · exact fun hall before hbefore => (hall before hbefore).2

/-- The second of two callbacks stays when both functions are called. -/
theorem not_agrees_with_record :
    ¬ ∀ calls : List Call,
      Agrees (run perform Callbacks.new calls) (run record Subscriptions.new calls) := by
  intro h
  have hready := h [.register .onReady, .register .onReady, .unsubscribe 0, .unsubscribe 1] .onReady
  have hleft : ([1] : List ℕ) = [] := hready
  cases hleft

end Runs

end DanWs.Unsubscription
