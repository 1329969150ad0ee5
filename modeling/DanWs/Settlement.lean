import DanWs.SettlingKeys

namespace DanWs.Settlement

open DanWs.FiniteMaps
open DanWs.FlatStates
open DanWs.KeyPaths
open DanWs.KeyRequests
open DanWs.KeyStores
open DanWs.Replicas
open DanWs.Replication
open DanWs.SettlingKeys
open DanWs.WireRows
open DanWs.WireTypes

section Progress

/-- Every key that the client asks for is accepted when its turn comes. -/
def AllRoom (known : Finset WireRow) (flat : List (StdString × Entry)) : Prop :=
  ∀ before wire, before ++ [wire] <+: unknownWires known flat → Room known before wire

/-- A key has been rejected, and will be asked for again. -/
structure Stuck (flat : List (StdString × Entry)) (keys : KeyStore) (requests : List UInt32)
    (wire : StdString × Entry) : Prop where
  mem : wire ∈ flat
  asked : wire.2.keyId ∈ requests
  path : keys.registry.pathToId.lookup wire.1 = none
  unknown : keys.registry.byId.lookup wire.2.keyId = none
  full : keys.registry.maxKeys ≤ keys.registry.byId.keys.card
  live : ∀ id ∈ requests, ∃ other ∈ flat, other.2.keyId = id

/-- The requests of the client: first each unknown key in turn, and if one of them
is rejected, for ever. -/
inductive Progress (known : Finset WireRow) (flat : List (StdString × Entry)) :
    KeyStore → List UInt32 → Prop
  | settling {keys : KeyStore} (done todo : List (StdString × Entry))
      (hsplit : unknownWires known flat = done ++ todo)
      (hroom : ∀ before wire, before ++ [wire] <+: done → Room known before wire)
      (h : Settling known flat flat done keys) : Progress known flat keys (wireIds todo)
  | stuck {keys : KeyStore} {requests : List UInt32} (wire : StdString × Entry)
      (hroom : ¬ AllRoom known flat) (h : Stuck flat keys requests wire) :
      Progress known flat keys requests

variable {known : Finset WireRow} {flat : List (StdString × Entry)} {keys : KeyStore}

theorem asked_of_split (hdistinct : Distinct flat) (hnodup : flat.Nodup)
    {done todo : List (StdString × Entry)} {wire : StdString × Entry}
    (hsplit : unknownWires known flat = done ++ wire :: todo) : Asked known flat done wire := by
  have hmem : ∀ other ∈ done ++ wire :: todo,
      other ∈ flat ∧ ∀ row ∈ known, row.id ≠ other.2.keyId := by
    intro other hother
    rw [← hsplit, unknownWires, List.mem_filter] at hother
    simpa using hother
  have hne : ∀ other ∈ done, other ≠ wire := by
    have hfilter : (unknownWires known flat).Nodup := hnodup.filter _
    rw [hsplit] at hfilter
    exact fun other hother =>
      (List.nodup_append.mp hfilter).2.2 other hother wire List.mem_cons_self
  obtain ⟨hflat, hunknown⟩ := hmem wire (by simp)
  refine ⟨hflat, hunknown, fun other hother hid => ?_, fun other hother hpath => ?_⟩
  · exact hne other hother
      (hdistinct.id other (hmem other (List.mem_append_left _ hother)).1 wire hflat hid)
  · exact hne other hother
      (hdistinct.path other (hmem other (List.mem_append_left _ hother)).1 wire hflat hpath)

/-- A key for which there is no room is asked for again behind the answer. -/
theorem stuck_of_rejected {done todo : List (StdString × Entry)} {wire : StdString × Entry}
    (h : Settling known flat flat done keys) (hasked : Asked known flat done wire)
    (hrejected : ¬ Room known done wire) (hlive : ∀ other ∈ todo, other ∈ flat) :
    Stuck flat (keys.receive (answer wire)) (wireIds todo ++ asksFor keys (answer wire)) wire := by
  rw [Room, not_or, not_lt] at hrejected
  have hpath := (path_of_asked h hasked).mpr hrejected.1
  have hunknown := lookup_of_asked h hasked
  have hfull : keys.registry.maxKeys ≤ keys.registry.byId.keys.card := by
    rw [h.limit, h.card]
    exact hrejected.2
  obtain ⟨hregistry, hasksFor⟩ := receive_answer_rejected hpath hfull
  have hagain : asksFor keys (answer wire) = [wire.2.keyId] :=
    hasksFor.trans (if_pos ⟨rfl, hunknown⟩)
  rw [hagain]
  refine ⟨hasked.mem, by simp, by rw [hregistry]; exact hpath, by rw [hregistry]; exact hunknown,
    by rw [hregistry]; exact hfull, fun id hid => ?_⟩
  rcases List.mem_append.mp hid with hid | hid
  · obtain ⟨other, hother, rfl⟩ := List.mem_map.mp hid
    exact ⟨other, hlive other hother, rfl⟩
  · exact ⟨wire, hasked.mem, (List.mem_singleton.mp hid).symm⟩

theorem stuck_answer {requests : List UInt32} {wire other : StdString × Entry}
    (hdistinct : Distinct flat) (hvalid : ∀ wire ∈ flat, checkKeyPath wire.1 = .ok ())
    (h : Stuck flat keys (other.2.keyId :: requests) wire) (hother : other ∈ flat) :
    Stuck flat (keys.receive (answer other)) (requests ++ asksFor keys (answer other)) wire := by
  have hlive : ∀ asked, asked = [] ∨ asked = [other.2.keyId] →
      ∀ id ∈ requests ++ asked, ∃ wire ∈ flat, wire.2.keyId = id := by
    intro asked hasked id hid
    rcases List.mem_append.mp hid with hid | hid
    · exact h.live id (List.mem_cons_of_mem _ hid)
    · rcases hasked with rfl | rfl
      · cases hid
      · exact ⟨other, hother, (List.mem_singleton.mp hid).symm⟩
  have hasks : asks keys (FlatState.valueFrame other.2) = [] ∨
      asks keys (FlatState.valueFrame other.2) = [other.2.keyId] := by
    rw [asks]
    split
    · exact Or.inr rfl
    · exact Or.inl rfl
  have hlimit := maxKeys_receive keys (answer other)
  rcases eq_or_ne other wire with rfl | hne
  · obtain ⟨hregistry, hasksFor⟩ := receive_answer_rejected h.path h.full
    have hasked : asks keys (FlatState.valueFrame other.2) = [other.2.keyId] :=
      if_pos ⟨rfl, h.unknown⟩
    rw [hasksFor]
    exact ⟨h.mem, by rw [hasked]; simp, by rw [hregistry]; exact h.path,
      by rw [hregistry]; exact h.unknown, by rw [hregistry]; exact h.full, hlive _ hasks⟩
  · have hid : wire.2.keyId ≠ other.2.keyId :=
      fun heq => hne (hdistinct.id other hother wire h.mem heq.symm)
    have hpath : wire.1 ≠ other.1 :=
      fun heq => hne (hdistinct.path other hother wire h.mem heq.symm)
    have hasked := (List.mem_cons.mp h.asked).resolve_left hid
    by_cases hfits : keys.registry.pathToId.lookup other.1 = none →
        keys.registry.byId.keys.card < keys.registry.maxKeys
    · obtain ⟨entry, _, hbyId, hpathToId, _, _, hnone⟩ :=
        receive_answer (hvalid other hother) hfits
      refine ⟨h.mem, List.mem_append_left _ hasked, ?_, ?_, ?_, hlive _ (Or.inl hnone)⟩
      · rw [hpathToId, Finmap.lookup_insert_of_ne _ hpath]
        exact h.path
      · rw [hbyId, Finmap.lookup_insert_of_ne _ hid]
        exact h.unknown
      · rw [hlimit, hbyId, keys_insert]
        exact h.full.trans (Finset.card_le_card (Finset.subset_insert _ _))
    · rw [Classical.not_imp, not_lt] at hfits
      obtain ⟨hregistry, hasksFor⟩ := receive_answer_rejected hfits.1 hfits.2
      rw [hasksFor]
      exact ⟨h.mem, List.mem_append_left _ hasked, by rw [hregistry]; exact h.path,
        by rw [hregistry]; exact h.unknown, by rw [hregistry]; exact h.full, hlive _ hasks⟩

theorem progress_answer (hdistinct : Distinct flat) (hnodup : flat.Nodup)
    (hvalid : ∀ wire ∈ flat, checkKeyPath wire.1 = .ok ()) {id : UInt32}
    {requests : List UInt32} (h : Progress known flat keys (id :: requests)) :
    ∃ wire ∈ flat, wire.2.keyId = id ∧
      Progress known flat (keys.receive (answer wire))
        (requests ++ asksFor keys (answer wire)) := by
  generalize hall : id :: requests = all at h
  cases h with
  | settling done todo hsplit hroom h =>
      cases todo with
      | nil => cases hall
      | cons wire todo =>
          obtain ⟨rfl, rfl⟩ := List.cons.inj hall
          have hasked := asked_of_split hdistinct hnodup hsplit
          refine ⟨wire, hasked.mem, rfl, ?_⟩
          by_cases hfits : Room known done wire
          · obtain ⟨hsettling, hnone⟩ :=
              settling_answer h hasked hdistinct (hvalid wire hasked.mem) hfits
            rw [hnone, List.append_nil]
            refine .settling (done ++ [wire]) todo (by rw [hsplit, List.append_assoc]; rfl) ?_
              hsettling
            intro before other hbefore
            rcases List.prefix_concat_iff.mp hbefore with heq | hbefore
            · obtain ⟨rfl, hlast⟩ := List.append_inj' heq rfl
              rwa [(List.cons.inj hlast).1]
            · exact hroom before other hbefore
          · have hnoRoom : ¬ AllRoom known flat := fun hall =>
              hfits (hall done wire ⟨todo, by rw [hsplit, List.append_assoc]; rfl⟩)
            have hlive : ∀ other ∈ todo, other ∈ flat := by
              intro other hother
              have hmem : other ∈ unknownWires known flat := by
                rw [hsplit]
                exact List.mem_append_right _ (List.mem_cons_of_mem _ hother)
              exact (List.mem_filter.mp hmem).1
            exact .stuck wire hnoRoom (stuck_of_rejected h hasked hfits hlive)
  | stuck wire hroom h =>
      obtain ⟨other, hother, hid⟩ := h.live id (by rw [← hall]; exact List.mem_cons_self)
      subst hid
      rw [← hall] at h
      exact ⟨other, hother, rfl, .stuck wire hroom (stuck_answer hdistinct hvalid h hother)⟩

/-- When nothing is left to ask for, every key has been accepted. -/
theorem settling_of_progress (h : Progress known flat keys []) :
    AllRoom known flat ∧ Settling known flat flat (unknownWires known flat) keys := by
  generalize hall : ([] : List UInt32) = requests at h
  cases h with
  | settling done todo hsplit hroom h =>
      obtain rfl := List.map_eq_nil_iff.mp hall.symm
      rw [List.append_nil] at hsplit
      rw [AllRoom, hsplit]
      exact ⟨hroom, h⟩
  | stuck wire hroom h =>
      have hasked := h.asked
      rw [← hall] at hasked
      cases hasked

end Progress

section Copies

def getIn (keys : KeyStore) (path : StdString) : Payload :=
  match keys.registry.getByPath path with
  | none => .null
  | some entry => (keys.store.lookup entry.keyId).getD .null

def valueById (flat : List (StdString × Entry)) (id : UInt32) : Payload :=
  ((flat.find? fun wire => wire.2.keyId == id).map fun wire => wire.2.value).getD .null

/-- The paths and values of the client are those on the wire. -/
def Copies (keys : KeyStore) (flat : List (StdString × Entry)) : Prop :=
  (∀ path, (∃ id, keys.registry.pathToId.lookup path = some id) ↔ ∃ wire ∈ flat, wire.1 = path) ∧
    ∀ wire ∈ flat, getIn keys wire.1 = wire.2.value

/-- What the two stores may share for the client to end up exact: all earlier
keys are there, and a value under an earlier id is found under its key. -/
structure Compatible (known : Finset WireRow) (flat : List (StdString × Entry)) : Prop where
  kept : ∀ row ∈ known, ∃ wire ∈ flat, wire.1 = row.path
  shared : ∀ wire ∈ flat, wire.2.keyId ∈ known.image Row.id →
    ∃ row ∈ known, row.path = wire.1 ∧ valueById flat row.id = wire.2.value

/-- The client ends up exact, and the exchange comes to an end. -/
structure Recovers (known : Finset WireRow) (flat : List (StdString × Entry)) : Prop
    extends Compatible known flat where
  room : AllRoom known flat

theorem recovers_empty {flat : List (StdString × Entry)} (hlength : flat.length ≤ 10000) :
    Recovers ∅ flat where
  kept row hrow := absurd hrow (Finset.notMem_empty row)
  shared wire hwire hid := by simp at hid
  room before wire hbefore := by
    right
    have hle := hbefore.length_le.trans (List.filter_sublist.length_le.trans hlength)
    rw [List.length_append, List.length_singleton] at hle
    rw [Finset.card_empty, Nat.zero_add]
    exact hle

variable {known : Finset WireRow} {flat done : List (StdString × Entry)} {keys : KeyStore}

theorem valueById_of_mem (hdistinct : Distinct flat) {wire : StdString × Entry}
    (hwire : wire ∈ flat) : valueById flat wire.2.keyId = wire.2.value := by
  rw [valueById, find?_unique hwire (by simp) fun other hother htest =>
    hdistinct.id other hother wire hwire (beq_iff_eq.mp htest)]
  rfl

theorem getIn_of_settling (h : Settling known flat flat done keys) (hdistinct : Distinct flat)
    {path : StdString} {id : UInt32} (hid : keys.registry.pathToId.lookup path = some id) :
    getIn keys path = valueById flat id := by
  have hknown : ∃ entry, keys.registry.byId.lookup id = some entry := by
    rw [h.ids]
    rcases (h.idOf path id).mp hid with ⟨wire, hwire, _, hwireId⟩ | ⟨_, row, hrow, _, hrowId⟩
    · exact Or.inr ⟨wire, hwire, hwireId⟩
    · exact Or.inl ⟨row, hrow, hrowId⟩
  obtain ⟨entry, hentry⟩ := hknown
  rw [getIn, KeyRegistry.getByPath, hid, Option.bind_some, hentry]
  dsimp only
  rw [h.keyed id entry hentry]
  cases hvalue : keys.store.lookup id with
  | none =>
      have hnone : flat.find? (fun wire => wire.2.keyId == id) = none := by
        rw [List.find?_eq_none]
        intro wire hwire hwireId
        have hsome := (h.values id wire.2.value).mpr
          ⟨⟨entry, hentry⟩, wire, hwire, beq_iff_eq.mp hwireId, rfl⟩
        rw [hvalue] at hsome
        cases hsome
      rw [valueById, hnone]
      rfl
  | some value =>
      obtain ⟨_, wire, hwire, rfl, rfl⟩ := (h.values id value).mp hvalue
      exact (valueById_of_mem hdistinct hwire).symm

/-- With every key accepted, the client is exact if and only if the stores are
compatible. -/
theorem copies_iff (h : Settling known flat flat (unknownWires known flat) keys)
    (hdistinct : Distinct flat) : Copies keys flat ↔ Compatible known flat := by
  have hunknown : ∀ wire, wire ∈ unknownWires known flat ↔
      wire ∈ flat ∧ wire.2.keyId ∉ known.image Row.id := by
    intro wire
    rw [unknownWires, List.mem_filter]
    simp
  have hpaths : ∀ path, (∃ id, keys.registry.pathToId.lookup path = some id) ↔
      (∃ wire ∈ unknownWires known flat, wire.1 = path) ∨ ∃ row ∈ known, row.path = path := by
    intro path
    constructor
    · rintro ⟨id, hid⟩
      rcases (h.idOf path id).mp hid with ⟨wire, hwire, hpath, _⟩ | ⟨_, row, hrow, hpath, _⟩
      · exact Or.inl ⟨wire, hwire, hpath⟩
      · exact Or.inr ⟨row, hrow, hpath⟩
    · intro hpath
      by_cases hdone : ∃ wire ∈ unknownWires known flat, wire.1 = path
      · obtain ⟨wire, hwire, heq⟩ := hdone
        exact ⟨wire.2.keyId, (h.idOf path _).mpr (Or.inl ⟨wire, hwire, heq, rfl⟩)⟩
      · obtain ⟨row, hrow, heq⟩ := hpath.resolve_left hdone
        refine ⟨row.id, (h.idOf path _).mpr
          (Or.inr ⟨fun wire hwire hwirePath => ?_, row, hrow, heq, rfl⟩)⟩
        exact hdone ⟨wire, hwire, hwirePath⟩
  have hnotDone : ∀ wire ∈ flat, wire.2.keyId ∈ known.image Row.id →
      ∀ other ∈ unknownWires known flat, other.1 ≠ wire.1 := by
    intro wire hwire hid other hother hpath
    obtain ⟨hflat, hnew⟩ := (hunknown other).mp hother
    rw [hdistinct.path other hflat wire hwire hpath] at hnew
    exact hnew hid
  constructor
  · rintro ⟨hkeys, hget⟩
    refine ⟨fun row hrow => ?_, fun wire hwire hid => ?_⟩
    · exact (hkeys row.path).mp ((hpaths row.path).mpr (Or.inr ⟨row, hrow, rfl⟩))
    · obtain ⟨id, hidOf⟩ := (hkeys wire.1).mpr ⟨wire, hwire, rfl⟩
      have hvalue := getIn_of_settling h hdistinct hidOf
      rcases (h.idOf wire.1 id).mp hidOf with ⟨other, hother, hpath, _⟩ | ⟨_, row, hrow, hpath, rfl⟩
      · exact absurd hpath (hnotDone wire hwire hid other hother)
      · exact ⟨row, hrow, hpath, hvalue.symm.trans (hget wire hwire)⟩
  · intro hcompatible
    refine ⟨fun path => (hpaths path).trans ⟨?_, ?_⟩, fun wire hwire => ?_⟩
    · rintro (⟨wire, hwire, hpath⟩ | ⟨row, hrow, rfl⟩)
      · exact ⟨wire, ((hunknown wire).mp hwire).1, hpath⟩
      · exact hcompatible.kept row hrow
    · rintro ⟨wire, hwire, rfl⟩
      by_cases hid : wire.2.keyId ∈ known.image Row.id
      · obtain ⟨row, hrow, hpath, _⟩ := hcompatible.shared wire hwire hid
        exact Or.inr ⟨row, hrow, hpath⟩
      · exact Or.inl ⟨wire, (hunknown wire).mpr ⟨hwire, hid⟩, rfl⟩
    · by_cases hid : wire.2.keyId ∈ known.image Row.id
      · obtain ⟨row, hrow, hpath, hvalue⟩ := hcompatible.shared wire hwire hid
        have hidOf := (h.idOf wire.1 row.id).mpr
          (Or.inr ⟨hnotDone wire hwire hid, row, hrow, hpath, rfl⟩)
        exact (getIn_of_settling h hdistinct hidOf).trans hvalue
      · have hidOf := (h.idOf wire.1 wire.2.keyId).mpr
          (Or.inl ⟨wire, (hunknown wire).mpr ⟨hwire, hid⟩, rfl, rfl⟩)
        exact (getIn_of_settling h hdistinct hidOf).trans (valueById_of_mem hdistinct hwire)

end Copies

end DanWs.Settlement
