import DanWs.FiniteMaps
import Mathlib.Data.Finset.Card
import Mathlib.Logic.Function.Basic

namespace DanWs.InverseMaps

open DanWs.FiniteMaps

section Functions

variable {α β : Type*}

def MutuallyInverse (forward : α → Option β) (backward : β → Option α) : Prop :=
  ∀ a b, forward a = some b ↔ backward b = some a

variable {forward : α → Option β} {backward : β → Option α} {a : α} {b : β}

theorem MutuallyInverse.injective (h : MutuallyInverse forward backward) {other : α}
    (ha : forward a = some b) (hother : forward other = some b) : a = other := by
  have hback := (h a b).mp ha
  rw [(h other b).mp hother] at hback
  exact (Option.some.inj hback).symm

variable [DecidableEq α] [DecidableEq β]

/-- A pair can be entered exactly when neither side of it has another partner. -/
theorem MutuallyInverse.update_iff (h : MutuallyInverse forward backward) (a : α) (b : β) :
    MutuallyInverse (Function.update forward a (some b)) (Function.update backward b (some a)) ↔
      (∀ old, forward a = some old → old = b) ∧ ∀ old, backward b = some old → old = a := by
  constructor
  · intro hupdate
    constructor
    · intro old hold
      by_contra hne
      have hback : Function.update backward b (some a) old = some a := by
        rw [Function.update_of_ne hne]
        exact (h a old).mp hold
      have hforward := (hupdate a old).mpr hback
      rw [Function.update_self] at hforward
      exact hne (Option.some.inj hforward).symm
    · intro old hold
      by_contra hne
      have hforward : Function.update forward a (some b) old = some b := by
        rw [Function.update_of_ne hne]
        exact (h old b).mpr hold
      have hback := (hupdate old b).mp hforward
      rw [Function.update_self] at hback
      exact hne (Option.some.inj hback).symm
  · rintro ⟨hforward, hback⟩ c d
    rw [Function.update_apply, Function.update_apply]
    rcases eq_or_ne c a with rfl | hc <;> rcases eq_or_ne d b with rfl | hd
    · simp
    · rw [if_pos rfl, if_neg hd]
      refine ⟨fun heq => absurd (Option.some.inj heq).symm hd, fun heq => ?_⟩
      exact absurd (hforward d ((h c d).mpr heq)) hd
    · rw [if_neg hc, if_pos rfl]
      refine ⟨fun heq => ?_, fun heq => absurd (Option.some.inj heq).symm hc⟩
      exact absurd (hback c ((h c d).mp heq)) hc
    · rw [if_neg hc, if_neg hd]
      exact h c d

theorem MutuallyInverse.erase (h : MutuallyInverse forward backward) (hab : forward a = some b) :
    MutuallyInverse (Function.update forward a none) (Function.update backward b none) := by
  intro c d
  rw [Function.update_apply, Function.update_apply]
  rcases eq_or_ne c a with rfl | hc
  · rcases eq_or_ne d b with rfl | hd
    · simp
    · have hback : backward d ≠ some c := by
        intro heq
        have hforward := (h c d).mpr heq
        rw [hab] at hforward
        exact hd (Option.some.inj hforward).symm
      simp [hd, hback]
  · rcases eq_or_ne d b with rfl | hd
    · have hforward : forward c ≠ some d := fun heq => hc (h.injective heq hab)
      simp [hc, hforward]
    · rw [if_neg hc, if_neg hd]
      exact h c d

end Functions

section Updates

variable {κ ν : Type*} [DecidableEq κ]

theorem lookup_insert_eq_update (m : FiniteMap κ ν) (key : κ)
    (value : ν) : (m.insert key value).lookup = Function.update m.lookup key (some value) := by
  funext other
  rw [lookup_insert_eq_ite, Function.update_apply]

theorem lookup_erase_eq_update (m : FiniteMap κ ν) (key : κ) :
    (m.erase key).lookup = Function.update m.lookup key none := by
  funext other
  rw [lookup_erase_eq_ite, Function.update_apply]

end Updates

section Maps

variable {α β ε : Type*} [DecidableEq α] [DecidableEq β]

theorem card_keys_eq {forward : FiniteMap α ε} {view : ε → β} {backward : FiniteMap β α}
    (h : MutuallyInverse (fun a => (forward.lookup a).map view) backward.lookup) :
    forward.keys.card = backward.keys.card := by
  have himage : backward.keys.image (fun b => backward.lookup b) =
      forward.keys.image some := by
    ext key
    simp only [Finset.mem_image, mem_keys_iff_lookup]
    constructor
    · rintro ⟨b, ⟨a, ha⟩, rfl⟩
      obtain ⟨entry, hentry, -⟩ := Option.map_eq_some_iff.mp ((h a b).mpr ha)
      exact ⟨a, ⟨entry, hentry⟩, ha.symm⟩
    · rintro ⟨a, ⟨entry, hentry⟩, rfl⟩
      have hback := (h a (view entry)).mp (by simp [hentry])
      exact ⟨view entry, ⟨a, hback⟩, hback⟩
  have hinjective : Set.InjOn (fun b => backward.lookup b) backward.keys := by
    intro b hb other hother heq
    obtain ⟨a, ha⟩ := mem_keys_iff_lookup.mp (Finset.mem_coe.mp hb)
    have hforward := (h a b).mpr ha
    have hback : backward.lookup other = some a := heq.symm.trans ha
    rw [(h a other).mpr hback] at hforward
    exact (Option.some.inj hforward).symm
  rw [← Finset.card_image_of_injOn hinjective, himage,
    Finset.card_image_of_injective _ (Option.some_injective α)]

end Maps

end DanWs.InverseMaps
