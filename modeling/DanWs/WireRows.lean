import DanWs.Allocations
import DanWs.FlatStates
import DanWs.Replicas
import Mathlib.Algebra.Order.BigOperators.Group.Finset
import Mathlib.Data.Finset.Union

namespace DanWs.WireRows

open DanWs.Allocations
open DanWs.FiniteMaps
open DanWs.FlatStates
open DanWs.Replicas
open DanWs.WireTypes

abbrev WireRow := Row StdString UInt32 Payload

def wireRow (path : StdString) (entry : Entry) : WireRow := ⟨path, entry.keyId, entry.value⟩

def registrationFrame (path : StdString) (entry : Entry) : Frame :=
  ⟨.serverKeyRegistration, entry.keyId, entry.type, .string path⟩

def registrationFrames (wires : List (StdString × Entry)) : List Frame :=
  wires.map fun wire => registrationFrame wire.1 wire.2

def valueFrames (wires : List (StdString × Entry)) : List Frame :=
  wires.map fun wire => FlatState.valueFrame wire.2

/-- A full announcement: what was known is forgotten, all keys are registered, and
then their values follow. -/
def announcement (wires : List (StdString × Entry)) : List Frame :=
  [signalFrame .serverReset] ++ registrationFrames wires ++ [signalFrame .serverSync] ++
    valueFrames wires

def wireRows (wires : List (StdString × Entry)) : Finset WireRow :=
  (wires.map fun wire => wireRow wire.1 wire.2).toFinset

theorem mem_wireRows {wires : List (StdString × Entry)} {row : WireRow} :
    row ∈ wireRows wires ↔ ∃ wire ∈ wires, row = wireRow wire.1 wire.2 := by
  simp [wireRows, eq_comm]

theorem union_wireRows_cons (base : Finset WireRow) (wire : StdString × Entry)
    (wires : List (StdString × Entry)) :
    base ∪ wireRows (wire :: wires) = insert (wireRow wire.1 wire.2) base ∪ wireRows wires := by
  simp [wireRows, Finset.union_insert, Finset.insert_union]

def rows (flat : FlatState) : Finset WireRow :=
  flat.entries.keys.biUnion fun key =>
    ((flat.entries.lookup key).map (wireRow (flat.wirePath key))).toFinset

section Rows

variable (flat : FlatState)

theorem mem_rows {row : WireRow} :
    row ∈ rows flat ↔
      ∃ key entry, flat.entries.lookup key = some entry ∧
        row = wireRow (flat.wirePath key) entry := by
  simp only [rows, Finset.mem_biUnion, Option.mem_toFinset, Option.mem_def,
    Option.map_eq_some_iff]
  constructor
  · rintro ⟨key, _, entry, hentry, rfl⟩
    exact ⟨key, entry, hentry, rfl⟩
  · rintro ⟨key, entry, hentry, rfl⟩
    exact ⟨key, mem_keys_iff_lookup.mpr ⟨entry, hentry⟩, entry, hentry, rfl⟩

theorem card_rows_le : (rows flat).card ≤ flat.entries.keys.card := by
  refine Finset.card_biUnion_le.trans ?_
  refine (Finset.sum_le_sum fun key _ => ?_).trans (Finset.card_eq_sum_ones _).ge
  cases flat.entries.lookup key <;> simp

theorem uniquePaths_rows : UniquePaths (rows flat) := by
  intro row hrow other hother hpath
  obtain ⟨key, entry, hentry, rfl⟩ := (mem_rows flat).mp hrow
  obtain ⟨key', entry', hentry', rfl⟩ := (mem_rows flat).mp hother
  obtain rfl := flat.wirePath_injective hpath
  rw [hentry] at hentry'
  rw [Option.some.inj hentry']

section Iteration

variable [HashOrder StdString]

def wires : List (StdString × Entry) :=
  (HashOrder.order.items flat.entries).map fun (key, entry) => (flat.wirePath key, entry)

theorem buildKeyFrames_eq : flat.buildKeyFrames = registrationFrames (wires flat) := by
  rw [FlatState.buildKeyFrames, registrationFrames, wires, List.map_map]
  rfl

theorem buildValueFrames_eq : flat.buildValueFrames = valueFrames (wires flat) := by
  rw [FlatState.buildValueFrames, valueFrames, wires, List.map_map]
  rfl

theorem mem_wires {path : StdString} {entry : Entry} :
    (path, entry) ∈ wires flat ↔
      ∃ key, flat.entries.lookup key = some entry ∧ path = flat.wirePath key := by
  simp only [wires, List.mem_map, Prod.exists, IterationOrder.mem_items, Prod.mk.injEq]
  constructor
  · rintro ⟨key, _, hentry, rfl, rfl⟩
    exact ⟨key, hentry, rfl⟩
  · rintro ⟨key, hentry, rfl⟩
    exact ⟨key, entry, hentry, rfl, rfl⟩

theorem wireRows_wires : wireRows (wires flat) = rows flat := by
  ext row
  rw [mem_wireRows, mem_rows]
  constructor
  · rintro ⟨⟨path, entry⟩, hwire, rfl⟩
    obtain ⟨key, hentry, rfl⟩ := (mem_wires flat).mp hwire
    exact ⟨key, entry, hentry, rfl⟩
  · rintro ⟨key, entry, hentry, rfl⟩
    exact ⟨(flat.wirePath key, entry), (mem_wires flat).mpr ⟨key, hentry, rfl⟩, rfl⟩

theorem wire_unique (hids : UniqueIds (rows flat)) {wire other : StdString × Entry}
    (hwire : wire ∈ wires flat) (hother : other ∈ wires flat)
    (hid : other.2.keyId = wire.2.keyId) : other = wire := by
  obtain ⟨path, entry⟩ := wire
  obtain ⟨path', entry'⟩ := other
  obtain ⟨key, hentry, rfl⟩ := (mem_wires flat).mp hwire
  obtain ⟨key', hentry', rfl⟩ := (mem_wires flat).mp hother
  have hrow := hids _ ((mem_rows flat).mpr ⟨key', entry', hentry', rfl⟩) _
    ((mem_rows flat).mpr ⟨key, entry, hentry, rfl⟩) hid
  obtain rfl := flat.wirePath_injective (congrArg Row.path hrow)
  rw [Option.some.inj (hentry'.symm.trans hentry)]

theorem nodup_wires : ((wires flat).map Prod.fst).Nodup := by
  rw [wires, List.map_map,
    show (Prod.fst ∘ fun (item : StdString × Entry) => (flat.wirePath item.1, item.2)) =
      flat.wirePath ∘ Prod.fst from rfl, ← List.map_map]
  exact (IterationOrder.nodup_items_keys HashOrder.order flat.entries).map flat.wirePath_injective

theorem length_wires : (wires flat).length = flat.entries.keys.card := by
  rw [wires, List.length_map, IterationOrder.length_items]

end Iteration

end Rows

section Changes

variable {flat : FlatState} {key : StdString}

theorem notMem_rows (h : flat.entries.lookup key = none) {row : WireRow} (hrow : row ∈ rows flat) :
    row.path ≠ flat.wirePath key := by
  obtain ⟨other, entry, hentry, rfl⟩ := (mem_rows flat).mp hrow
  intro hpath
  obtain rfl := flat.wirePath_injective hpath
  rw [h] at hentry
  cases hentry

theorem wireRow_mem_rows {entry : Entry} (h : flat.entries.lookup key = some entry) :
    wireRow (flat.wirePath key) entry ∈ rows flat :=
  (mem_rows flat).mpr ⟨key, entry, h, rfl⟩

variable {entries : FiniteMap StdString Entry} {byKeyId : FiniteMap UInt32 StdString}
  (hother : ∀ other ≠ key, entries.lookup other = flat.entries.lookup other)

include hother

theorem rows_insert_new {entry : Entry} (hkey : entries.lookup key = some entry)
    (hnew : flat.entries.lookup key = none) :
    rows ⟨flat.wirePrefix, entries, byKeyId⟩ =
      insert (wireRow (flat.wirePath key) entry) (rows flat) := by
  ext row
  rw [mem_rows, Finset.mem_insert, mem_rows]
  constructor
  · rintro ⟨other, held, hheld, rfl⟩
    rcases eq_or_ne other key with rfl | hne
    · rw [show entry = held from Option.some.inj (hkey.symm.trans hheld)]
      exact Or.inl rfl
    · exact Or.inr ⟨other, held, (hother other hne).symm.trans hheld, rfl⟩
  · rintro (rfl | ⟨other, held, hheld, rfl⟩)
    · exact ⟨key, entry, hkey, rfl⟩
    · refine ⟨other, held, (hother other ?_).trans hheld, rfl⟩
      rintro rfl
      rw [hnew] at hheld
      cases hheld

theorem rows_erase {old : Entry} (hkey : entries.lookup key = none)
    (hold : flat.entries.lookup key = some old) :
    rows ⟨flat.wirePrefix, entries, byKeyId⟩ =
      (rows flat).erase (wireRow (flat.wirePath key) old) := by
  ext row
  rw [mem_rows, Finset.mem_erase, mem_rows]
  constructor
  · rintro ⟨other, held, hheld, rfl⟩
    have hne : other ≠ key := by
      rintro rfl
      rw [show entries.lookup other = some held from hheld] at hkey
      cases hkey
    refine ⟨fun heq => hne (flat.wirePath_injective (congrArg Row.path heq)), ?_⟩
    exact ⟨other, held, (hother other hne).symm.trans hheld, rfl⟩
  · rintro ⟨hne, other, held, hheld, rfl⟩
    refine ⟨other, held, (hother other ?_).trans hheld, rfl⟩
    rintro rfl
    rw [hold] at hheld
    exact hne (by rw [Option.some.inj hheld])

theorem rows_insert_old {entry old : Entry} (hkey : entries.lookup key = some entry)
    (hold : flat.entries.lookup key = some old) :
    rows ⟨flat.wirePrefix, entries, byKeyId⟩ =
      insert (wireRow (flat.wirePath key) entry)
        ((rows flat).erase (wireRow (flat.wirePath key) old)) := by
  have herased : ∀ other ≠ key,
      (flat.entries.erase key).lookup other = flat.entries.lookup other :=
    fun other hne => Finmap.lookup_erase_ne hne
  let erased : FlatState := ⟨flat.wirePrefix, flat.entries.erase key, byKeyId⟩
  have hkept : ∀ other ≠ key, entries.lookup other = erased.entries.lookup other :=
    fun other hne => (hother other hne).trans (herased other hne).symm
  have herase : rows erased = (rows flat).erase (wireRow (flat.wirePath key) old) :=
    rows_erase herased (Finmap.lookup_erase key flat.entries) hold
  rw [← herase]
  exact rows_insert_new hkept hkey (Finmap.lookup_erase key flat.entries)

end Changes

section Operations

variable {flat : FlatState} {nextKeyId : UInt32} {key : StdString} {value : Payload}

theorem wirePath_set (flat : FlatState) (nextKeyId : UInt32) (key : StdString) (value : Payload) :
    (flat.set nextKeyId key value).1.wirePath = flat.wirePath := by
  funext other
  rw [FlatState.wirePath, FlatState.wirePrefix_set, FlatState.wirePath]

theorem lookup_set (flat : FlatState) (nextKeyId : UInt32) (key : StdString) (value : Payload) :
    ∃ entry, (flat.set nextKeyId key value).1.entries.lookup key = some entry := by
  simp only [FlatState.set]
  split
  · split
    · exact ⟨_, Finmap.lookup_insert _⟩
    · exact ⟨_, Finmap.lookup_insert _⟩
  · exact ⟨_, Finmap.lookup_insert _⟩

theorem lookup_set_of_ne (flat : FlatState) (nextKeyId : UInt32) {key other : StdString}
    (value : Payload) (hne : other ≠ key) :
    (flat.set nextKeyId key value).1.entries.lookup other = flat.entries.lookup other := by
  simp only [FlatState.set]
  split
  · split
    · rw [Finmap.lookup_insert_of_ne _ hne, Finmap.lookup_erase_ne hne]
    · exact Finmap.lookup_insert_of_ne _ hne
  · exact Finmap.lookup_insert_of_ne _ hne

theorem lookup_clearKey {flat : FlatState} {key other : StdString} {entry : Entry}
    (h : (flat.clearKey key).1.entries.lookup other = some entry) :
    flat.entries.lookup other = some entry := by
  rw [FlatState.clearKey] at h
  split at h
  · exact h
  · exact (lookup_of_lookup_erase h).2

theorem entries_clear (flat : FlatState) : flat.clear.1.entries = ∅ := by
  rw [FlatState.clear]
  split
  · next h => exact h
  · rfl

theorem frames_set_new (h : flat.entries.lookup key = none) :
    (flat.set nextKeyId key value).2.2 =
      flat.entryFrames key ⟨nextKeyId, detectDataType value, value⟩ := by
  rw [FlatState.set, h]

theorem frames_set_retyped {old : Entry} (h : flat.entries.lookup key = some old)
    (htype : old.type ≠ detectDataType value) :
    (flat.set nextKeyId key value).2.2 = FlatState.deleteFrame old.keyId ::
      flat.entryFrames key ⟨nextKeyId, detectDataType value, value⟩ := by
  simp only [FlatState.set, h, if_pos htype]

theorem frames_set_same {old : Entry} (h : flat.entries.lookup key = some old)
    (htype : old.type = detectDataType value) :
    (flat.set nextKeyId key value).2.2 = [FlatState.valueFrame { old with value }] := by
  simp only [FlatState.set, h, if_neg (not_not_intro htype)]

theorem frames_clearKey {old : Entry} (h : flat.entries.lookup key = some old) :
    (flat.clearKey key).2 = [FlatState.deleteFrame old.keyId] := by
  rw [FlatState.clearKey, h]

theorem rows_set_new (h : flat.entries.lookup key = none) :
    rows (flat.set nextKeyId key value).1 =
      insert (wireRow (flat.wirePath key) ⟨nextKeyId, detectDataType value, value⟩)
        (rows flat) := by
  rw [FlatState.set, h]
  exact rows_insert_new (fun other hne => Finmap.lookup_insert_of_ne _ hne)
    (Finmap.lookup_insert _) h

theorem rows_set_retyped {old : Entry} (h : flat.entries.lookup key = some old)
    (htype : old.type ≠ detectDataType value) :
    rows (flat.set nextKeyId key value).1 =
      insert (wireRow (flat.wirePath key) ⟨nextKeyId, detectDataType value, value⟩)
        ((rows flat).erase (wireRow (flat.wirePath key) old)) := by
  simp only [FlatState.set, h, if_pos htype]
  refine rows_insert_old (fun other hne => ?_) (Finmap.lookup_insert _) h
  rw [Finmap.lookup_insert_of_ne _ hne, Finmap.lookup_erase_ne hne]

theorem rows_set_same {old : Entry} (h : flat.entries.lookup key = some old)
    (htype : old.type = detectDataType value) :
    rows (flat.set nextKeyId key value).1 =
      insert (wireRow (flat.wirePath key) { old with value := value })
        ((rows flat).erase (wireRow (flat.wirePath key) old)) := by
  simp only [FlatState.set, h, if_neg (not_not_intro htype)]
  exact rows_insert_old (fun other hne => Finmap.lookup_insert_of_ne _ hne)
    (Finmap.lookup_insert _) h

theorem rows_clearKey {old : Entry} (h : flat.entries.lookup key = some old) :
    rows (flat.clearKey key).1 = (rows flat).erase (wireRow (flat.wirePath key) old) := by
  rw [FlatState.clearKey, h]
  exact rows_erase (fun other hne => Finmap.lookup_erase_ne hne) (Finmap.lookup_erase _ _) h

theorem rows_clearKey_subset (flat : FlatState) (key : StdString) :
    rows (flat.clearKey key).1 ⊆ rows flat := by
  cases hold : flat.entries.lookup key with
  | none => rw [FlatState.clearKey, hold]
  | some old =>
      rw [rows_clearKey hold]
      exact Finset.erase_subset _ _

theorem rows_of_empty {flat : FlatState} (h : flat.entries = ∅) : rows flat = ∅ := by
  rw [rows, h]
  rfl

theorem rows_clear (flat : FlatState) : rows flat.clear.1 = ∅ := rows_of_empty (entries_clear flat)

end Operations

section Ids

def idAt (flat : FlatState) (key : StdString) : Option UInt32 :=
  (flat.entries.lookup key).map Entry.keyId

theorem uniqueIds_rows {flat : FlatState} {number : Nat → UInt32} {count : Nat}
    (h : Allocated number count (idAt flat)) : UniqueIds (rows flat) := by
  intro row hrow other hother hid
  obtain ⟨key, entry, hentry, rfl⟩ := (mem_rows flat).mp hrow
  obtain ⟨key', entry', hentry', rfl⟩ := (mem_rows flat).mp hother
  have hfirst : idAt flat key = some entry.keyId := by rw [idAt, hentry, Option.map_some]
  have hsecond : idAt flat key' = some entry'.keyId := by rw [idAt, hentry', Option.map_some]
  obtain rfl := h.unique key key' entry.keyId hfirst (hsecond.trans (congrArg some hid.symm))
  rw [Option.some.inj (hentry.symm.trans hentry')]

/-- A new key and a key of a new type take the next id; other keys keep theirs. -/
theorem idAt_set (flat : FlatState) (nextKeyId : UInt32) (key : StdString) (value : Payload) :
    ((flat.set nextKeyId key value).2.1 = nextKeyId ∧
        idAt (flat.set nextKeyId key value).1 = idAt flat) ∨
      ((flat.set nextKeyId key value).2.1 = nextKeyId + 1 ∧
        idAt (flat.set nextKeyId key value).1 =
          Function.update (idAt flat) key (some nextKeyId)) := by
  cases hold : flat.entries.lookup key with
  | none =>
      right
      simp only [FlatState.set, hold, true_and]
      funext other
      rw [idAt, lookup_insert_eq_ite, Function.update_apply]
      split <;> rfl
  | some old =>
      rcases eq_or_ne old.type (detectDataType value) with htype | htype
      · left
        simp only [FlatState.set, hold, if_neg (not_not_intro htype), true_and]
        funext other
        rw [idAt, idAt, lookup_insert_eq_ite]
        split
        · next heq => rw [heq, hold, Option.map_some, Option.map_some]
        · rfl
      · right
        simp only [FlatState.set, hold, if_pos htype, true_and]
        funext other
        rw [idAt, lookup_insert_eq_ite, lookup_erase_eq_ite, Function.update_apply]
        split <;> rfl

theorem idAt_clearKey {flat : FlatState} {key other : StdString} {id : UInt32}
    (h : idAt (flat.clearKey key).1 other = some id) : idAt flat other = some id := by
  obtain ⟨entry, hentry, hid⟩ := Option.map_eq_some_iff.mp h
  rw [idAt, lookup_clearKey hentry, Option.map_some, hid]

theorem idAt_clear (flat : FlatState) : idAt flat.clear.1 = fun _ => none := by
  funext key
  rw [idAt, entries_clear]
  rfl

end Ids

end DanWs.WireRows
