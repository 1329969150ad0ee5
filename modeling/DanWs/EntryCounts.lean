import DanWs.FiniteMaps

namespace DanWs.EntryCounts

open DanWs.FiniteMaps

variable {κ ν τ : Type*} [DecidableEq κ] [DecidableEq τ]

def entriesWith (label : ν → τ) (t : τ) (m : FiniteMap κ ν) : ℕ :=
  (m.keys.filter fun key => (m.lookup key).map label = some t).card

variable (label : ν → τ) (t : τ)

theorem entriesWith_empty : entriesWith label t (∅ : FiniteMap κ ν) = 0 := rfl

theorem entriesWith_pos_iff {m : FiniteMap κ ν} :
    0 < entriesWith label t m ↔ ∃ key value, m.lookup key = some value ∧ label value = t := by
  rw [entriesWith, Finset.card_pos]
  constructor
  · rintro ⟨key, hkey⟩
    obtain ⟨-, hlabel⟩ := Finset.mem_filter.mp hkey
    obtain ⟨value, hvalue, rfl⟩ := Option.map_eq_some_iff.mp hlabel
    exact ⟨key, value, hvalue, rfl⟩
  · rintro ⟨key, value, hvalue, rfl⟩
    refine ⟨key, Finset.mem_filter.mpr ⟨mem_keys_iff_lookup.mpr ⟨value, hvalue⟩, ?_⟩⟩
    rw [hvalue, Option.map_some]

variable {label} in
theorem entriesWith_congr {other : ν → τ} {m : FiniteMap κ ν}
    (h : ∀ {key value}, m.lookup key = some value → label value = other value) :
    entriesWith label t m = entriesWith other t m := by
  rw [entriesWith, entriesWith]
  congr 1
  refine Finset.filter_congr fun key hkey => ?_
  obtain ⟨value, hvalue⟩ := mem_keys_iff_lookup.mp hkey
  rw [hvalue, Option.map_some, Option.map_some, h hvalue]

theorem entriesWith_erase {m : FiniteMap κ ν} {key : κ} {value : ν}
    (hvalue : m.lookup key = some value) :
    entriesWith label t (m.erase key) + (if label value = t then 1 else 0) =
      entriesWith label t m := by
  have hfilter : (m.erase key).keys.filter
      (fun other => ((m.erase key).lookup other).map label = some t) =
      (m.keys.filter fun other => (m.lookup other).map label = some t).erase key := by
    ext other
    rw [Finmap.keys_erase, Finset.mem_filter, Finset.mem_erase, Finset.mem_erase,
      Finset.mem_filter, and_assoc]
    refine and_congr_right fun hne => ?_
    rw [lookup_erase_eq_ite, if_neg hne]
  rw [entriesWith, hfilter, entriesWith]
  have hmem : key ∈ m.keys := mem_keys_iff_lookup.mpr ⟨value, hvalue⟩
  split
  · next hlabel =>
      exact Finset.card_erase_add_one
        (Finset.mem_filter.mpr ⟨hmem, by rw [hvalue, Option.map_some, hlabel]⟩)
  · next hlabel =>
      rw [Finset.erase_eq_of_notMem, add_zero]
      rintro hmem
      have hsome := (Finset.mem_filter.mp hmem).2
      rw [hvalue, Option.map_some] at hsome
      exact hlabel (Option.some.inj hsome)

theorem entriesWith_insert {m : FiniteMap κ ν} {key : κ} (hfree : m.lookup key = none)
    (value : ν) :
    entriesWith label t (m.insert key value) =
      entriesWith label t m + if label value = t then 1 else 0 := by
  have herase : (m.insert key value).erase key = m := by
    refine Finmap.ext_lookup fun other => ?_
    rw [lookup_erase_eq_ite, lookup_insert_eq_ite]
    split
    · next h => rw [h, hfree]
    · rfl
  rw [← entriesWith_erase label t (Finmap.lookup_insert m), herase]

end DanWs.EntryCounts
