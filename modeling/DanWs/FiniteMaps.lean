import Mathlib.Data.Finmap
import Mathlib.Data.List.Sort

/-!
Finite maps with non-dependent values, and the listing of their entries. A map
has no order of its own: whoever iterates over it names the order, which is
arbitrary for a hash table and ascending for an ordered map.
-/

namespace DanWs.FiniteMaps

abbrev FiniteMap (κ ν : Type*) := Finmap (fun _ : κ => ν)

section Lookup

variable {κ ν : Type*} [DecidableEq κ]

@[grind =] theorem lookup_insert_eq_ite (m : FiniteMap κ ν) (key other : κ) (value : ν) :
    (m.insert key value).lookup other =
      if other = key then some value else m.lookup other := by
  split
  · next h => rw [h, Finmap.lookup_insert]
  · next h => exact Finmap.lookup_insert_of_ne m h

@[grind =] theorem lookup_erase_eq_ite (m : FiniteMap κ ν) (key other : κ) :
    (m.erase key).lookup other = if other = key then none else m.lookup other := by
  split
  · next h => rw [h, Finmap.lookup_erase]
  · next h => exact Finmap.lookup_erase_ne h

theorem lookup_of_lookup_insert {m : FiniteMap κ ν} {key other : κ} {value held : ν}
    (h : (m.insert key value).lookup other = some held) :
    (other = key ∧ held = value) ∨ other ≠ key ∧ m.lookup other = some held := by
  rw [lookup_insert_eq_ite] at h
  split at h
  · next heq => exact Or.inl ⟨heq, (Option.some.inj h).symm⟩
  · next hne => exact Or.inr ⟨hne, h⟩

theorem lookup_of_lookup_erase {m : FiniteMap κ ν} {key other : κ} {value : ν}
    (h : (m.erase key).lookup other = some value) :
    other ≠ key ∧ m.lookup other = some value := by
  rw [lookup_erase_eq_ite] at h
  split at h
  · cases h
  · next hne => exact ⟨hne, h⟩

/-- A key that is only ever given one value holds it behind a list of
insertions. -/
theorem lookup_foldl_insert {α : Type*} {key : α → κ} {value : α → ν} {k : κ} {v : ν}
    {list : List α} {m : FiniteMap κ ν} (hvalue : ∀ a ∈ list, key a = k → value a = v)
    (h : m.lookup k = some v ∨ ∃ a ∈ list, key a = k) :
    (list.foldl (fun m a => m.insert (key a) (value a)) m).lookup k = some v := by
  induction list generalizing m with
  | nil => simpa using h
  | cons a list ih =>
      apply ih fun b hb => hvalue b (List.mem_cons_of_mem a hb)
      rw [lookup_insert_eq_ite]
      rcases eq_or_ne k (key a) with hkey | hkey
      · rw [if_pos hkey, hvalue a List.mem_cons_self hkey.symm]
        exact Or.inl rfl
      · rw [if_neg hkey]
        rcases h with h | ⟨b, hb, hbk⟩
        · exact Or.inl h
        · rcases List.mem_cons.mp hb with rfl | hb
          · exact absurd hbk.symm hkey
          · exact Or.inr ⟨b, hb, hbk⟩

theorem exists_lookup_foldl_insert {α : Type*} {key : α → κ} {value : α → ν} {k : κ}
    {list : List α} {m : FiniteMap κ ν} (h : ∃ a ∈ list, key a = k) :
    ∃ a ∈ list, key a = k ∧
      (list.foldl (fun m a => m.insert (key a) (value a)) m).lookup k = some (value a) := by
  induction list generalizing m with
  | nil => simp at h
  | cons a list ih =>
      by_cases hlater : ∃ b ∈ list, key b = k
      · obtain ⟨b, hb, hkey, hlookup⟩ := @ih (m.insert (key a) (value a)) hlater
        exact ⟨b, List.mem_cons_of_mem a hb, hkey, hlookup⟩
      · obtain ⟨b, hb, rfl⟩ := h
        obtain rfl : b = a :=
          (List.mem_cons.mp hb).resolve_right fun hlist => hlater ⟨b, hlist, rfl⟩
        refine ⟨b, List.mem_cons_self, rfl, ?_⟩
        rw [List.foldl_cons]
        exact lookup_foldl_insert (fun c hc hkey => absurd ⟨c, hc, hkey⟩ hlater)
          (Or.inl (Finmap.lookup_insert m))

theorem keys_insert (m : FiniteMap κ ν) (key : κ) (value : ν) :
    (m.insert key value).keys = insert key m.keys := by
  ext other
  simp [Finmap.mem_keys]

theorem mem_keys_foldl_insert {α : Type*} {key : α → κ} {value : α → ν} {list : List α}
    {m : FiniteMap κ ν} {k : κ} :
    k ∈ (list.foldl (fun m a => m.insert (key a) (value a)) m).keys ↔
      k ∈ m.keys ∨ ∃ a ∈ list, key a = k := by
  induction list generalizing m with
  | nil => simp
  | cons a list ih =>
      rw [List.foldl_cons, ih, keys_insert, Finset.mem_insert]
      rw [List.exists_mem_cons_iff, @eq_comm _ k, or_assoc, or_left_comm]

theorem keys_subset {m m' : FiniteMap κ ν}
    (h : ∀ {key value}, m.lookup key = some value → m'.lookup key = some value) :
    m.keys ⊆ m'.keys := by
  intro key hkey
  rw [Finmap.mem_keys, Finmap.mem_iff] at hkey ⊢
  obtain ⟨value, hvalue⟩ := hkey
  exact ⟨value, h hvalue⟩

theorem mem_keys_iff_lookup {m : FiniteMap κ ν} {key : κ} :
    key ∈ m.keys ↔ ∃ value, m.lookup key = some value := by
  rw [Finmap.mem_keys, Finmap.mem_iff]

/-- An entry that moves from one map to another leaves the number of entries of both
together as it is. -/
theorem card_keys_move {source target : FiniteMap κ ν} {key : κ} {old : ν} (value : ν)
    (hsource : source.lookup key = some old) (htarget : target.lookup key = none) :
    (source.erase key).keys.card + (target.insert key value).keys.card =
      source.keys.card + target.keys.card := by
  have hmem : key ∈ source.keys := mem_keys_iff_lookup.mpr ⟨old, hsource⟩
  have hfresh : key ∉ target.keys := by
    rw [mem_keys_iff_lookup, htarget]
    simp
  rw [Finmap.keys_erase, keys_insert, Finset.card_erase_of_mem hmem,
    Finset.card_insert_of_notMem hfresh]
  have hpos : 0 < source.keys.card := Finset.card_pos.mpr ⟨key, hmem⟩
  omega

theorem card_keys_insert_le (m : FiniteMap κ ν) (key : κ) (value : ν) :
    (m.insert key value).keys.card ≤ m.keys.card + 1 := by
  rw [keys_insert]
  exact Finset.card_insert_le key m.keys

end Lookup

structure IterationOrder (κ : Type*) where
  enumerate : Finset κ → List κ
  nodup : ∀ keys, (enumerate keys).Nodup
  mem_enumerate : ∀ keys key, key ∈ enumerate keys ↔ key ∈ keys

/-- The order in which a hash table is iterated over. No two implementations
need agree on it. -/
class HashOrder (κ : Type*) where
  order : IterationOrder κ

namespace IterationOrder

section Items

variable {κ ν : Type*} [DecidableEq κ] (order : IterationOrder κ)

def items (m : FiniteMap κ ν) : List (κ × ν) :=
  (order.enumerate m.keys).filterMap fun key => (m.lookup key).map (key, ·)

theorem mem_items {m : FiniteMap κ ν} {key : κ} {value : ν} :
    (key, value) ∈ order.items m ↔ m.lookup key = some value := by
  simp only [items, List.mem_filterMap, order.mem_enumerate, Option.map_eq_some_iff,
    Prod.mk.injEq]
  constructor
  · rintro ⟨_, _, _, hlookup, rfl, rfl⟩
    exact hlookup
  · intro h
    exact ⟨key, mem_keys_iff_lookup.mpr ⟨value, h⟩, value, h, rfl, rfl⟩

theorem map_fst_items (m : FiniteMap κ ν) :
    (order.items m).map Prod.fst = order.enumerate m.keys := by
  have hkeys : ∀ keys : List κ, (∀ key ∈ keys, key ∈ m.keys) →
      (keys.filterMap fun key => (m.lookup key).map (key, ·)).map Prod.fst = keys := by
    intro keys hmem
    induction keys with
    | nil => rfl
    | cons key keys ih =>
        obtain ⟨value, hvalue⟩ := mem_keys_iff_lookup.mp (hmem key (by simp))
        simp only [List.filterMap_cons, hvalue, Option.map_some, List.map_cons]
        rw [ih fun k hk => hmem k (by simp [hk])]
  exact hkeys _ fun key hkey => (order.mem_enumerate _ key).mp hkey

theorem length_enumerate (keys : Finset κ) : (order.enumerate keys).length = keys.card := by
  have hkeys : (order.enumerate keys).toFinset = keys := by
    ext key
    rw [List.mem_toFinset, order.mem_enumerate]
  rw [← List.toFinset_card_of_nodup (order.nodup keys), hkeys]

theorem length_items (m : FiniteMap κ ν) : (order.items m).length = m.keys.card := by
  have hlength := congrArg List.length (map_fst_items order m)
  rwa [List.length_map, length_enumerate] at hlength

theorem nodup_items_keys (m : FiniteMap κ ν) : ((order.items m).map Prod.fst).Nodup := by
  rw [map_fst_items]
  exact order.nodup m.keys

theorem map_items {μ : Type*} (f : κ → ν → μ) (m : FiniteMap κ ν) :
    ((order.items m).map fun item => f item.1 item.2) =
      (order.enumerate m.keys).filterMap fun key => (m.lookup key).map (f key) := by
  rw [items, List.map_filterMap]
  congr 1
  funext key
  rw [Option.map_map]
  rfl

theorem map_items_congr {μ : Type*} {f : κ → ν → μ} {m m' : FiniteMap κ ν}
    (h : ∀ key, (m.lookup key).map (f key) = (m'.lookup key).map (f key)) :
    ((order.items m).map fun item => f item.1 item.2) =
      (order.items m').map fun item => f item.1 item.2 := by
  have hkeys : m.keys = m'.keys := by
    ext key
    have hsome := congrArg Option.isSome (h key)
    rw [Option.isSome_map, Option.isSome_map] at hsome
    rw [mem_keys_iff_lookup, mem_keys_iff_lookup, ← Option.isSome_iff_exists,
      ← Option.isSome_iff_exists, hsome]
  rw [map_items, map_items, hkeys]
  exact congrArg (fun g => List.filterMap g _) (funext h)

end Items

section Sorted

variable (κ : Type*) [LE κ] [DecidableLE κ] [Std.IsLinearOrder κ]

local instance isTrans_le : IsTrans κ (· ≤ ·) := ⟨fun _ _ _ => Std.le_trans⟩

def sorted : IterationOrder κ where
  enumerate keys :=
    Quot.liftOn keys.val (List.insertionSort (· ≤ ·)) fun first second hperm =>
      List.Perm.eq_of_pairwise' (r := (· ≤ ·)) (List.pairwise_insertionSort _ first)
        (List.pairwise_insertionSort _ second)
        (((List.perm_insertionSort _ first).trans hperm).trans
          (List.perm_insertionSort _ second).symm)
  nodup keys := by
    obtain ⟨keys, hnodup⟩ := keys
    induction keys using Quot.inductionOn with
    | h keys => exact (List.perm_insertionSort _ keys).nodup_iff.mpr hnodup
  mem_enumerate keys key := by
    obtain ⟨keys, hnodup⟩ := keys
    induction keys using Quot.inductionOn with
    | h keys => exact List.mem_insertionSort _

theorem pairwise_sorted (keys : Finset κ) :
    ((sorted κ).enumerate keys).Pairwise (· ≤ ·) := by
  obtain ⟨keys, hnodup⟩ := keys
  induction keys using Quot.inductionOn with
  | h keys => exact List.pairwise_insertionSort _ keys

/-- The position of a key in ascending order is the number of smaller keys. -/
theorem eq_card_of_getElem?_sorted {keys : Finset κ} [DecidableEq κ] {key : κ} {position : Nat}
    (h : ((sorted κ).enumerate keys)[position]? = some key) :
    position = (keys.filter fun other => ¬ key ≤ other).card := by
  have hnodup := (sorted κ).nodup keys
  have hmem := (sorted κ).mem_enumerate keys
  have hsorted := pairwise_sorted κ keys
  revert h hnodup hmem hsorted
  generalize (sorted κ).enumerate keys = list
  intro h hnodup hmem hsorted
  obtain ⟨hlt, hkey⟩ := List.getElem?_eq_some_iff.mp h
  have hsplit : list = list.take position ++ key :: list.drop (position + 1) := by
    rw [← hkey, List.getElem_cons_drop, List.take_append_drop]
  have hbefore : ∀ other ∈ list.take position, ¬ key ≤ other := by
    intro other hother hle
    rw [hsplit] at hnodup hsorted
    have hle' := (List.pairwise_append.mp hsorted).2.2 other hother key List.mem_cons_self
    have hne := (List.nodup_append.mp hnodup).2.2 other hother key List.mem_cons_self
    exact hne (Std.le_antisymm hle' hle)
  have hafter : ∀ other ∈ key :: list.drop (position + 1), key ≤ other := by
    intro other hother
    rw [hsplit] at hsorted
    have htail := List.pairwise_cons.mp (List.pairwise_append.mp hsorted).2.1
    rcases List.mem_cons.mp hother with rfl | hother
    · exact Std.le_refl other
    · exact htail.1 other hother
  have hfilter : (list.filter fun other => ¬ key ≤ other) = list.take position := by
    conv_lhs => rw [hsplit]
    rw [List.filter_append, List.filter_eq_self.mpr (by simpa using hbefore),
      List.filter_eq_nil_iff.mpr (by simpa using hafter), List.append_nil]
  have hfinset : (keys.filter fun other => ¬ key ≤ other) =
      (list.filter fun other => ¬ key ≤ other).toFinset := by
    ext other
    simp [hmem]
  rw [hfinset, List.toFinset_card_of_nodup (hnodup.filter _), hfilter, List.length_take]
  omega

end Sorted

end IterationOrder

/-- A hash table that happens to be iterated over in ascending order. -/
@[reducible] def HashOrder.ascending (κ : Type*) [LE κ] [DecidableLE κ] [Std.IsLinearOrder κ] :
    HashOrder κ := ⟨IterationOrder.sorted κ⟩

end DanWs.FiniteMaps
