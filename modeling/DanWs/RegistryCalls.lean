import DanWs.InverseMaps
import DanWs.Replication
import DanWs.StepRuns

namespace DanWs.RegistryCalls

open DanWs.FiniteMaps
open DanWs.InverseMaps
open DanWs.KeyPaths
open DanWs.Replication
open DanWs.StepRuns
open DanWs.WireTypes

inductive Call where
  | registerOne (keyId : UInt32) (path : StdString) (type : DataType)
  | removeByKeyId (keyId : UInt32)
  | clear
  deriving DecidableEq

/-- An exception of `registerOne` leaves the registry as it was. -/
def call (registry : KeyRegistry) : Call → KeyRegistry
  | .registerOne keyId path type =>
      match registry.registerOne keyId path type with
      | .ok registered => registered
      | .error _ => registry
  | .removeByKeyId keyId => (registry.removeByKeyId keyId).1
  | .clear => registry.clear

def pathOf (registry : KeyRegistry) (keyId : UInt32) : Option StdString :=
  (registry.byId.lookup keyId).map KeyEntry.path

def Accepts (registry : KeyRegistry) (path : StdString) : Prop :=
  checkKeyPath path = .ok () ∧
    (registry.pathToId.lookup path = none → registry.byId.keys.card < registry.maxKeys)

instance (registry : KeyRegistry) (path : StdString) : Decidable (Accepts registry path) :=
  inferInstanceAs (Decidable (_ ∧ _))

section Maps

variable {registry : KeyRegistry} {keyId : UInt32} {path : StdString} {type : DataType}

theorem pathOf_insert (registry : KeyRegistry) (keyId : UInt32) (entry : KeyEntry)
    {registered : KeyRegistry}
    (h : registered.byId = registry.byId.insert keyId entry) :
    pathOf registered = Function.update (pathOf registry) keyId (some entry.path) := by
  funext other
  rw [pathOf, h, lookup_insert_eq_ite, Function.update_apply]
  split <;> rfl

theorem pathOf_erase (registry : KeyRegistry) (keyId : UInt32) {removed : KeyRegistry}
    (h : removed.byId = registry.byId.erase keyId) :
    pathOf removed = Function.update (pathOf registry) keyId none := by
  funext other
  rw [pathOf, h, lookup_erase_eq_ite, Function.update_apply]
  split <;> rfl

theorem call_registerOne (h : Accepts registry path) (keyId : UInt32) (type : DataType) :
    call registry (.registerOne keyId path type) =
      { registry with
        byId := registry.byId.insert keyId ⟨path, type, keyId⟩
        pathToId := registry.pathToId.insert path keyId
        nextId := if registry.nextId ≤ keyId then keyId + 1 else registry.nextId } := by
  rw [call, registerOne_eq_ok h.1 h.2]

theorem call_rejected (h : ¬ Accepts registry path) (keyId : UInt32) (type : DataType) :
    call registry (.registerOne keyId path type) = registry := by
  rw [call]
  split
  · next registered hregister =>
      obtain ⟨hvalid, hroom, -⟩ := registerOne_ok hregister
      exact absurd ⟨hvalid, hroom⟩ h
  · rfl

theorem call_removeByKeyId_of_unknown (h : registry.byId.lookup keyId = none) :
    call registry (.removeByKeyId keyId) = registry := by
  rw [call, KeyRegistry.removeByKeyId, h]

theorem call_removeByKeyId {entry : KeyEntry} (h : registry.byId.lookup keyId = some entry) :
    call registry (.removeByKeyId keyId) =
      { registry with
        byId := registry.byId.erase keyId
        pathToId := registry.pathToId.erase entry.path } := by
  rw [call, KeyRegistry.removeByKeyId, h]

theorem maxKeys_call (registry : KeyRegistry) (c : Call) :
    (call registry c).maxKeys = registry.maxKeys := by
  cases c with
  | registerOne keyId path type =>
      by_cases h : Accepts registry path
      · rw [call_registerOne h]
      · rw [call_rejected h]
  | removeByKeyId keyId => exact maxKeys_removeByKeyId registry keyId
  | clear => rfl

theorem maxKeys_run (registry : KeyRegistry) (calls : List Call) :
    (run call registry calls).maxKeys = registry.maxKeys := by
  induction calls generalizing registry with
  | nil => rfl
  | cons c calls ih => rw [run_cons, ih, maxKeys_call]

end Maps

/-- A path that is registered under one id and then under another. -/
def renumbered : List Call := [.registerOne 1 (str "a") .null, .registerOne 2 (str "a") .null]

theorem valid_renumbered (keyId : UInt32) (path : StdString) (type : DataType)
    (h : .registerOne keyId path type ∈ renumbered) : checkKeyPath path = .ok () := by
  simp only [renumbered, List.mem_cons, Call.registerOne.injEq, List.not_mem_nil, or_false] at h
  obtain ⟨-, rfl, -⟩ | ⟨-, rfl, -⟩ := h <;> rfl

section Bijection

/-- The two maps are inverse to each other, and every entry carries the id that
it is registered under. -/
structure Bijective (registry : KeyRegistry) : Prop where
  inverse : MutuallyInverse (pathOf registry) registry.pathToId.lookup
  keyed : Keyed registry

/-- The registration takes an id from another path, or a path from another id. -/
def Displaces (registry : KeyRegistry) (keyId : UInt32) (path : StdString) : Prop :=
  (∃ entry, registry.byId.lookup keyId = some entry ∧ entry.path ≠ path) ∨
    ∃ other, registry.pathToId.lookup path = some other ∧ other ≠ keyId

/-- No registration that passes the checks takes anything from another key. -/
def DisplacesNothing (registry : KeyRegistry) : Call → Prop
  | .registerOne keyId path _ => Accepts registry path → ¬ Displaces registry keyId path
  | .removeByKeyId _ => True
  | .clear => True

variable {registry : KeyRegistry} {keyId : UInt32} {path : StdString}

theorem bijective_new (maxKeys : Nat) : Bijective (KeyRegistry.new maxKeys) where
  inverse keyId path := by simp [pathOf, KeyRegistry.new]
  keyed keyId entry h := by simp [KeyRegistry.new] at h

theorem not_displaces_iff : ¬ Displaces registry keyId path ↔
    (∀ old, pathOf registry keyId = some old → old = path) ∧
      ∀ old, registry.pathToId.lookup path = some old → old = keyId := by
  rw [Displaces, not_or, not_exists, not_exists]
  refine and_congr ⟨fun h old hold => ?_, fun h entry hentry => ?_⟩ ⟨fun h old hold => ?_, ?_⟩
  · obtain ⟨entry, hentry, rfl⟩ := Option.map_eq_some_iff.mp hold
    by_contra hne
    exact h entry ⟨hentry, hne⟩
  · refine hentry.2 (h entry.path ?_)
    rw [pathOf, hentry.1]
    rfl
  · by_contra hne
    exact h old ⟨hold, hne⟩
  · rintro h other ⟨hother, hne⟩
    exact hne (h other hother)

theorem bijective_registerOne_iff (h : Bijective registry) (haccepts : Accepts registry path)
    (keyId : UInt32) (type : DataType) :
    Bijective (call registry (.registerOne keyId path type)) ↔
      ¬ Displaces registry keyId path := by
  rw [not_displaces_iff, ← h.inverse.update_iff keyId path, call_registerOne haccepts]
  constructor
  · intro hregistered
    have hinverse := hregistered.inverse
    rwa [pathOf_insert registry keyId ⟨path, type, keyId⟩ rfl, lookup_insert_eq_update]
      at hinverse
  · intro hinverse
    refine ⟨?_, keyed_insert h.keyed ⟨path, type, keyId⟩ rfl rfl⟩
    rwa [pathOf_insert registry keyId ⟨path, type, keyId⟩ rfl, lookup_insert_eq_update]

theorem bijective_removeByKeyId (h : Bijective registry) (keyId : UInt32) :
    Bijective (call registry (.removeByKeyId keyId)) := by
  cases hlookup : registry.byId.lookup keyId with
  | none =>
      rw [call_removeByKeyId_of_unknown hlookup]
      exact h
  | some entry =>
      refine ⟨?_, keyed_removeByKeyId h.keyed keyId⟩
      have hpath : pathOf registry keyId = some entry.path := by
        rw [pathOf, hlookup]
        rfl
      rw [call_removeByKeyId hlookup, pathOf_erase registry keyId rfl,
        lookup_erase_eq_update]
      exact h.inverse.erase hpath

theorem bijective_call_iff (registry : KeyRegistry) (c : Call) (h : Bijective registry) :
    Bijective (call registry c) ↔ DisplacesNothing registry c := by
  cases c with
  | registerOne keyId path type =>
      rw [DisplacesNothing]
      by_cases haccepts : Accepts registry path
      · rw [bijective_registerOne_iff h haccepts]
        exact ⟨fun hnot _ => hnot, fun hnot => hnot haccepts⟩
      · rw [call_rejected haccepts]
        exact ⟨fun _ hyes => absurd hyes haccepts, fun _ => h⟩
  | removeByKeyId keyId => exact iff_of_true (bijective_removeByKeyId h keyId) trivial
  | clear => exact iff_of_true (bijective_new registry.maxKeys) trivial

/-- What a registry that is a bijection offers to those who look keys up in it. -/
structure Coherent [HashOrder StdString] (registry : KeyRegistry) : Prop where
  bijective : Bijective registry
  getByPath : ∀ path entry, registry.getByPath path = some entry → entry.path = path
  reachable : ∀ keyId other entry, other ≠ keyId → registry.getByKeyId other = some entry →
    (registry.removeByKeyId keyId).1.getByPath entry.path = some entry
  paths : ∀ path, path ∈ registry.paths ↔ ∃ keyId, pathOf registry keyId = some path

theorem getByPath_of_bijective (h : Bijective registry) {entry : KeyEntry}
    (hentry : registry.getByKeyId keyId = some entry) :
    registry.getByPath entry.path = some entry := by
  have hpath : pathOf registry keyId = some entry.path := by
    rw [pathOf, show registry.byId.lookup keyId = some entry from hentry]
    rfl
  have hid : registry.pathToId.lookup entry.path = some keyId :=
    (h.inverse keyId entry.path).mp hpath
  rw [KeyRegistry.getByPath, hid]
  exact hentry

theorem Bijective.coherent [HashOrder StdString] (h : Bijective registry) :
    Coherent registry where
  bijective := h
  getByPath path entry hentry := by
    obtain ⟨keyId, hkeyId, hlookup⟩ := Option.bind_eq_some_iff.mp hentry
    have hpath := (h.inverse keyId path).mpr hkeyId
    rw [pathOf, hlookup] at hpath
    exact Option.some.inj hpath
  reachable keyId other entry hne hentry := by
    have hkept : (registry.removeByKeyId keyId).1.getByKeyId other = some entry := by
      rw [KeyRegistry.removeByKeyId]
      split
      · exact hentry
      · rw [KeyRegistry.getByKeyId, lookup_erase_eq_ite, if_neg hne]
        exact hentry
    exact getByPath_of_bijective (bijective_removeByKeyId h keyId) hkept
  paths path := by
    rw [KeyRegistry.paths, HashOrder.order.mem_enumerate, mem_keys_iff_lookup]
    exact exists_congr fun keyId => (h.inverse keyId path).symm

/-- A registry stays coherent throughout a run exactly when no registration of
the run takes an id or a path from another key. -/
theorem coherent_throughout_iff [HashOrder StdString] (maxKeys : Nat) (calls : List Call) :
    (∀ before, before <+: calls → Coherent (run call (KeyRegistry.new maxKeys) before)) ↔
      StepsMeet call DisplacesNothing (KeyRegistry.new maxKeys) calls := by
  have hiff := forall_prefix_iff_stepsMeet bijective_call_iff (bijective_new maxKeys) calls
  rw [← hiff]
  refine forall_congr' fun before => imp_congr_right fun _ => ?_
  exact ⟨Coherent.bijective, Bijective.coherent⟩

/-- The old id of a renumbered path stays behind. -/
theorem not_coherent_throughout :
    ¬ ∀ [HashOrder StdString] (maxKeys : Nat) (calls before : List Call),
      (∀ keyId path type, .registerOne keyId path type ∈ calls → checkKeyPath path = .ok ()) →
      before <+: calls → Coherent (run call (KeyRegistry.new maxKeys) before) := by
  intro h
  let _ := HashOrder.ascending StdString
  have hinverse := (h 10000 _ _ valid_renumbered List.prefix_rfl).bijective.inverse 1 (str "a")
  exact absurd (hinverse.mp (by decide)) (by decide)

end Bijection

section Limit

/-- Both maps stay within the limit on the number of keys. -/
structure Limited (registry : KeyRegistry) : Prop where
  byId : registry.byId.keys.card ≤ registry.maxKeys
  pathToId : registry.pathToId.keys.card ≤ registry.maxKeys

/-- A known path comes under a new id, which no check counts. -/
def OverfillsIds (registry : KeyRegistry) (keyId : UInt32) (path : StdString) : Prop :=
  registry.hasPath path ∧ ¬ registry.hasKeyId keyId ∧
    registry.maxKeys ≤ registry.byId.keys.card

/-- A new path comes, for which the check counts the ids and not the paths. -/
def OverfillsPaths (registry : KeyRegistry) (path : StdString) : Prop :=
  ¬ registry.hasPath path ∧ registry.maxKeys ≤ registry.pathToId.keys.card

def OverfillsNothing (registry : KeyRegistry) : Call → Prop
  | .registerOne keyId path _ => Accepts registry path →
      ¬ OverfillsIds registry keyId path ∧ ¬ OverfillsPaths registry path
  | .removeByKeyId _ => True
  | .clear => True

variable {registry : KeyRegistry} {keyId : UInt32} {path : StdString}

theorem limited_new (maxKeys : Nat) : Limited (KeyRegistry.new maxKeys) := by
  constructor <;> simp [KeyRegistry.new]

theorem hasKeyId_iff : registry.hasKeyId keyId ↔ keyId ∈ registry.byId.keys := by
  rw [mem_keys_iff_lookup, KeyRegistry.hasKeyId, Option.isSome_iff_exists]

theorem hasPath_iff : registry.hasPath path ↔ path ∈ registry.pathToId.keys := by
  rw [mem_keys_iff_lookup, KeyRegistry.hasPath, Option.isSome_iff_exists]

theorem card_lt_of_accepts (haccepts : Accepts registry path) (h : ¬ registry.hasPath path) :
    registry.byId.keys.card < registry.maxKeys := by
  apply haccepts.2
  rwa [KeyRegistry.hasPath, Bool.not_eq_true, Option.isSome_eq_false_iff,
    Option.isNone_iff_eq_none] at h

/-- An insertion overfills a map exactly when the map is full and the key is new. -/
theorem card_insert_le_iff {κ ν : Type*} [DecidableEq κ] {m : FiniteMap κ ν} {limit : Nat}
    (h : m.keys.card ≤ limit) (key : κ) (value : ν) :
    (m.insert key value).keys.card ≤ limit ↔ key ∈ m.keys ∨ m.keys.card < limit := by
  rw [keys_insert]
  by_cases hmem : key ∈ m.keys
  · rw [Finset.insert_eq_of_mem hmem]
    exact iff_of_true h (Or.inl hmem)
  · rw [Finset.card_insert_of_notMem hmem, Nat.succ_le_iff]
    exact ⟨Or.inr, fun hor => hor.resolve_left hmem⟩

theorem limited_registerOne_iff (h : Limited registry) (haccepts : Accepts registry path)
    (keyId : UInt32) (type : DataType) :
    Limited (call registry (.registerOne keyId path type)) ↔
      ¬ OverfillsIds registry keyId path ∧ ¬ OverfillsPaths registry path := by
  have hids := card_insert_le_iff h.byId keyId ⟨path, type, keyId⟩
  have hpaths := card_insert_le_iff h.pathToId path keyId
  rw [← hasKeyId_iff] at hids
  rw [← hasPath_iff] at hpaths
  rw [call_registerOne haccepts, OverfillsIds, OverfillsPaths]
  constructor
  · rintro ⟨hbyId, hpathToId⟩
    refine ⟨?_, ?_⟩
    · rintro ⟨-, hnew, hfull⟩
      exact absurd ((hids.mp hbyId).resolve_left hnew) (Nat.not_lt.mpr hfull)
    · rintro ⟨hnew, hfull⟩
      exact absurd ((hpaths.mp hpathToId).resolve_left hnew) (Nat.not_lt.mpr hfull)
  · rintro ⟨hnoIds, hnoPaths⟩
    refine ⟨hids.mpr ?_, hpaths.mpr ?_⟩
    · by_cases hpath : registry.hasPath path
      · by_contra hnot
        rw [not_or, Nat.not_lt] at hnot
        exact hnoIds ⟨hpath, hnot.1, hnot.2⟩
      · exact Or.inr (card_lt_of_accepts haccepts hpath)
    · by_contra hnot
      rw [not_or, Nat.not_lt] at hnot
      exact hnoPaths hnot

theorem limited_removeByKeyId (h : Limited registry) (keyId : UInt32) :
    Limited (call registry (.removeByKeyId keyId)) := by
  cases hlookup : registry.byId.lookup keyId with
  | none =>
      rw [call_removeByKeyId_of_unknown hlookup]
      exact h
  | some entry =>
      rw [call_removeByKeyId hlookup]
      constructor
      · rw [Finmap.keys_erase]
        exact (Finset.card_erase_le).trans h.byId
      · rw [Finmap.keys_erase]
        exact (Finset.card_erase_le).trans h.pathToId

theorem limited_call_iff (registry : KeyRegistry) (c : Call) (h : Limited registry) :
    Limited (call registry c) ↔ OverfillsNothing registry c := by
  cases c with
  | registerOne keyId path type =>
      rw [OverfillsNothing]
      by_cases haccepts : Accepts registry path
      · rw [limited_registerOne_iff h haccepts]
        exact ⟨fun hnot _ => hnot, fun hnot => hnot haccepts⟩
      · rw [call_rejected haccepts]
        exact ⟨fun _ hyes => absurd hyes haccepts, fun _ => h⟩
  | removeByKeyId keyId => exact iff_of_true (limited_removeByKeyId h keyId) trivial
  | clear => exact iff_of_true (limited_new registry.maxKeys) trivial

/-- The limit holds throughout a run exactly when no registration of the run adds
an id to a full map of ids, or a path to a full map of paths. -/
theorem limited_throughout_iff (maxKeys : Nat) (calls : List Call) :
    (∀ before, before <+: calls →
      (run call (KeyRegistry.new maxKeys) before).byId.keys.card ≤ maxKeys ∧
        (run call (KeyRegistry.new maxKeys) before).pathToId.keys.card ≤ maxKeys) ↔
      StepsMeet call OverfillsNothing (KeyRegistry.new maxKeys) calls := by
  rw [← forall_prefix_iff_stepsMeet limited_call_iff (limited_new maxKeys) calls]
  refine forall_congr' fun before => imp_congr_right fun _ => ?_
  have hmax := maxKeys_run (KeyRegistry.new maxKeys) before
  constructor
  · rintro ⟨hbyId, hpathToId⟩
    exact ⟨hbyId.trans_eq hmax.symm, hpathToId.trans_eq hmax.symm⟩
  · rintro ⟨hbyId, hpathToId⟩
    exact ⟨hbyId.trans_eq hmax, hpathToId.trans_eq hmax⟩

/-- As long as nothing is displaced, one check is enough for both maps. -/
theorem overfillsNothing_of_bijective (hbijective : Bijective registry) {c : Call}
    (hdisplaces : DisplacesNothing registry c) : OverfillsNothing registry c := by
  cases c with
  | registerOne keyId path type =>
      intro haccepts
      obtain ⟨-, hpath⟩ := not_displaces_iff.mp (hdisplaces haccepts)
      refine ⟨?_, ?_⟩
      · rintro ⟨hknown, hnew, -⟩
        obtain ⟨other, hother⟩ := Option.isSome_iff_exists.mp hknown
        have hlookup := (hbijective.inverse other path).mpr hother
        rw [hpath other hother] at hlookup
        obtain ⟨entry, hentry, -⟩ := Option.map_eq_some_iff.mp hlookup
        exact hnew (Option.isSome_iff_exists.mpr ⟨entry, hentry⟩)
      · rintro ⟨hnew, hfull⟩
        rw [← card_keys_eq hbijective.inverse] at hfull
        exact absurd (card_lt_of_accepts haccepts hnew) (Nat.not_lt.mpr hfull)
  | removeByKeyId keyId => trivial
  | clear => trivial

/-- The limit therefore holds wherever the maps stay a bijection. -/
theorem limited_of_displacesNothing (maxKeys : Nat) (calls : List Call)
    (h : StepsMeet call DisplacesNothing (KeyRegistry.new maxKeys) calls) :
    Limited (run call (KeyRegistry.new maxKeys) calls) := by
  have hstep : ∀ registry c, Bijective registry ∧ Limited registry →
      DisplacesNothing registry c → Bijective (call registry c) ∧ Limited (call registry c) := by
    rintro registry c ⟨hbijective, hlimited⟩ hdisplaces
    exact ⟨(bijective_call_iff registry c hbijective).mpr hdisplaces,
      (limited_call_iff registry c hlimited).mpr
        (overfillsNothing_of_bijective hbijective hdisplaces)⟩
  exact (invariant_run hstep ⟨bijective_new maxKeys, limited_new maxKeys⟩ h).2

/-- With room for one key, a renumbered path takes two. -/
theorem not_limited_throughout :
    ¬ ∀ (maxKeys : Nat) (calls : List Call),
      (∀ keyId path type, .registerOne keyId path type ∈ calls → checkKeyPath path = .ok ()) →
      (run call (KeyRegistry.new maxKeys) calls).byId.keys.card ≤ maxKeys ∧
        (run call (KeyRegistry.new maxKeys) calls).pathToId.keys.card ≤ maxKeys := by
  intro h
  exact absurd (h 1 _ valid_renumbered).1 (by decide)

end Limit

end DanWs.RegistryCalls
