import DanWs.TopicPaths

namespace DanWs.TopicTables

open DanWs.ClientTopics
open DanWs.FiniteMaps
open DanWs.FlatStates
open DanWs.KeyPaths
open DanWs.Strings
open DanWs.TopicParsing
open DanWs.TopicPaths
open DanWs.WireTypes

def register (registry : KeyRegistry) (path : StdString) (value : Payload) (keyId : Nat) :
    KeyRegistry :=
  match registry.registerOne (UInt32.ofNat keyId) path (detectDataType value) with
  | .ok registered => registered
  | .error _ => registry

def registryOf (entries : List (StdString × Payload)) : KeyRegistry :=
  (entries.zipIdx 1).foldl
    (fun registry ((path, value), keyId) => register registry path value keyId) KeyRegistry.empty

def valuesOf (entries : List (StdString × Payload)) : FiniteMap UInt32 Payload :=
  (entries.zipIdx 1).foldl
    (fun values ((_, value), keyId) => values.insert (UInt32.ofNat keyId) value) ∅

theorem foldl_receive (tables : ClientTables) (entries : List (StdString × Payload)) :
    ([signalFrame .clientReset] ++ registrationFrames entries ++ valueFrames entries).foldl
        ClientTables.receive tables =
      ⟨some (registryOf entries), valuesOf entries⟩ := by
  have hregister : ∀ (numbered : List ((StdString × Payload) × Nat)) (registry : KeyRegistry)
      (values : FiniteMap UInt32 Payload),
      (numbered.map fun ((path, value), keyId) => registrationFrame path value keyId).foldl
          ClientTables.receive ⟨some registry, values⟩ =
        ⟨some (numbered.foldl
          (fun registry ((path, value), keyId) => register registry path value keyId) registry),
          values⟩ := by
    intro numbered
    induction numbered with
    | nil => intro registry values; rfl
    | cons head numbered ih =>
        intro registry values
        obtain ⟨⟨path, value⟩, keyId⟩ := head
        rw [List.map_cons, List.foldl_cons, List.foldl_cons, ← ih]
        congr 1
        simp only [ClientTables.receive, registrationFrame, Option.getD_some, register]
        cases registry.registerOne (UInt32.ofNat keyId) path (detectDataType value) <;> rfl
  have hvalue : ∀ (numbered : List ((StdString × Payload) × Nat)) (registry : Option KeyRegistry)
      (values : FiniteMap UInt32 Payload),
      (numbered.map fun ((_, value), keyId) => valueFrame value keyId).foldl
          ClientTables.receive ⟨registry, values⟩ =
        ⟨registry, numbered.foldl
          (fun values ((_, value), keyId) => values.insert (UInt32.ofNat keyId) value) values⟩ := by
    intro numbered
    induction numbered with
    | nil => intro registry values; rfl
    | cons head numbered ih =>
        intro registry values
        rw [List.map_cons, List.foldl_cons, List.foldl_cons, ← ih]
        rfl
  rw [List.foldl_append, List.foldl_append, List.foldl_cons, List.foldl_nil]
  change (valueFrames entries).foldl ClientTables.receive
    ((registrationFrames entries).foldl ClientTables.receive ⟨some KeyRegistry.empty, ∅⟩) = _
  rw [registrationFrames, hregister, valueFrames, hvalue]
  rfl

theorem ofNat_inj_of_le {n m : Nat} (hn : n ≤ 10000) (hm : m ≤ 10000)
    (h : UInt32.ofNat n = UInt32.ofNat m) : n = m := by
  have hnat := congrArg UInt32.toNat h
  rw [UInt32.toNat_ofNat', UInt32.toNat_ofNat'] at hnat
  omega

section Entries

variable {entries : List (StdString × Payload)}

theorem le_of_mem_zipIdx {entry : StdString × Payload} {n : Nat}
    (h : (entry, n) ∈ entries.zipIdx 1) : n ≤ entries.length := by
  have := List.snd_lt_add_of_mem_zipIdx h
  omega

theorem eq_of_mem_zipIdx {entry entry' : StdString × Payload} {n : Nat}
    (h : (entry, n) ∈ entries.zipIdx 1) (h' : (entry', n) ∈ entries.zipIdx 1) :
    entry = entry' := by
  rw [List.mk_mem_zipIdx_iff_le_and_getElem?_sub] at h h'
  exact Option.some.inj (h.2.symm.trans h'.2)

theorem zipIdx_concat (entry : StdString × Payload) :
    (entries ++ [entry]).zipIdx 1 = entries.zipIdx 1 ++ [(entry, entries.length + 1)] := by
  rw [List.zipIdx_append]
  simp [Nat.add_comm]

theorem mem_zipIdx_concat {path path' : StdString} {value value' : Payload} {n : Nat} :
    ((path', value'), n) ∈ (entries ++ [(path, value)]).zipIdx 1 ↔
      ((path', value'), n) ∈ entries.zipIdx 1 ∨
        path' = path ∧ value' = value ∧ n = entries.length + 1 := by
  rw [zipIdx_concat, List.mem_append, List.mem_singleton, Prod.mk.injEq, Prod.mk.injEq, and_assoc]

structure Registers (entries : List (StdString × Payload)) (registry : KeyRegistry) : Prop where
  maxKeys : registry.maxKeys = 10000
  card : registry.byId.keys.card ≤ entries.length
  listed : ∀ path keyId, registry.pathToId.lookup path = some keyId →
    ∃ value n, ((path, value), n) ∈ entries.zipIdx 1 ∧ keyId = UInt32.ofNat n
  found : ∀ path entry, registry.getByPath path = some entry ↔
    ∃ value n, ((path, value), n) ∈ entries.zipIdx 1 ∧ checkKeyPath path = .ok () ∧
      entry = ⟨path, detectDataType value, UInt32.ofNat n⟩

theorem registers_nil : Registers [] KeyRegistry.empty := by
  refine ⟨rfl, by simp [KeyRegistry.empty, KeyRegistry.new], ?_, ?_⟩
  · intro path keyId h
    simp [KeyRegistry.empty, KeyRegistry.new] at h
  · intro path entry
    simp [KeyRegistry.empty, KeyRegistry.new, KeyRegistry.getByPath]

theorem registers_rejected {registry : KeyRegistry} {path : StdString} {value : Payload} {e : Fault}
    (h : Registers entries registry) (hcheck : checkKeyPath path = .error e) :
    Registers (entries ++ [(path, value)]) (register registry path value (entries.length + 1)) := by
  have hregister : register registry path value (entries.length + 1) = registry := by
    simp only [register, KeyRegistry.registerOne, hcheck]
  rw [hregister]
  refine ⟨h.maxKeys, ?_, ?_, ?_⟩
  · rw [List.length_append]
    exact h.card.trans (Nat.le_add_right _ _)
  · intro path' keyId hlookup
    obtain ⟨value', n, hmem, hid⟩ := h.listed path' keyId hlookup
    exact ⟨value', n, mem_zipIdx_concat.mpr (Or.inl hmem), hid⟩
  · intro path' entry
    rw [h.found]
    refine exists_congr fun value' => exists_congr fun n => ?_
    rw [mem_zipIdx_concat]
    constructor
    · rintro ⟨hmem, hrest⟩
      exact ⟨Or.inl hmem, hrest⟩
    · rintro ⟨hmem | ⟨rfl, _⟩, hrest⟩
      · exact ⟨hmem, hrest⟩
      · rw [hcheck] at hrest
        cases hrest.1

theorem register_of_room {registry : KeyRegistry} {path : StdString}
    (h : Registers entries registry)
    (hcheck : checkKeyPath path = .ok ()) (hlength : entries.length < 10000) (value : Payload)
    (keyId : Nat) :
    register registry path value keyId =
      { registry with
        byId := registry.byId.insert (UInt32.ofNat keyId)
          ⟨path, detectDataType value, UInt32.ofNat keyId⟩
        pathToId := registry.pathToId.insert path (UInt32.ofNat keyId)
        nextId := if registry.nextId ≤ UInt32.ofNat keyId then UInt32.ofNat keyId + 1
          else registry.nextId } := by
  have hroom : ¬ (registry.pathToId.lookup path = none ∧
      registry.maxKeys ≤ registry.byId.keys.card) := by
    rintro ⟨_, hfull⟩
    have hcard := h.card
    rw [h.maxKeys] at hfull
    omega
  simp only [register, KeyRegistry.registerOne, hcheck, if_neg hroom]

theorem registers_concat {registry : KeyRegistry} {path : StdString} {value : Payload}
    (h : Registers entries registry) (hpath : path ∉ entries.map Prod.fst)
    (hlength : entries.length < 10000) :
    Registers (entries ++ [(path, value)]) (register registry path value (entries.length + 1)) := by
  have hnew : ∀ value' n, ((path, value'), n) ∉ entries.zipIdx 1 := fun value' n hmem =>
    hpath (List.mem_map.mpr ⟨_, List.fst_mem_of_mem_zipIdx hmem, rfl⟩)
  cases hcheck : checkKeyPath path with
  | error e => exact registers_rejected h hcheck
  | ok accepted =>
      rw [register_of_room h hcheck hlength]
      refine ⟨h.maxKeys, ?_, ?_, ?_⟩
      · dsimp only
        rw [keys_insert, List.length_append]
        exact (Finset.card_insert_le _ _).trans (Nat.add_le_add_right h.card 1)
      · intro path' keyId hlookup
        obtain ⟨heq, hid⟩ | ⟨-, hlookup⟩ := lookup_of_lookup_insert hlookup
        · exact ⟨value, entries.length + 1, mem_zipIdx_concat.mpr (Or.inr ⟨heq, rfl, rfl⟩), hid⟩
        · obtain ⟨value', n, hmem, hid⟩ := h.listed path' keyId hlookup
          exact ⟨value', n, mem_zipIdx_concat.mpr (Or.inl hmem), hid⟩
      · intro path' entry
        simp only [KeyRegistry.getByPath, lookup_insert_eq_ite, mem_zipIdx_concat]
        rcases eq_or_ne path' path with rfl | heq
        · simp only [if_true, Option.bind_some, Option.some.injEq, hnew, false_or, true_and,
            hcheck]
          constructor
          · rintro rfl
            exact ⟨value, _, ⟨rfl, rfl⟩, rfl⟩
          · rintro ⟨_, _, ⟨rfl, rfl⟩, rfl⟩
            rfl
        · simp only [heq, if_false, false_and, or_false]
          rw [← h.found, KeyRegistry.getByPath]
          cases hlookup : registry.pathToId.lookup path' with
          | none => rfl
          | some keyId =>
              obtain ⟨value', n, hmem, rfl⟩ := h.listed path' keyId hlookup
              have hle := le_of_mem_zipIdx hmem
              have hne : UInt32.ofNat n ≠ UInt32.ofNat (entries.length + 1) := fun hid => by
                have := ofNat_inj_of_le (by omega) (by omega) hid
                omega
              simp only [Option.bind_some, hne, if_false]

theorem registers_registryOf (hnodup : (entries.map Prod.fst).Nodup)
    (hlength : entries.length ≤ 10000) : Registers entries (registryOf entries) := by
  induction entries using List.reverseRecOn with
  | nil => exact registers_nil
  | append_singleton entries entry ih =>
      rw [List.length_append, List.length_singleton] at hlength
      rw [List.map_append, List.nodup_append] at hnodup
      rw [registryOf, zipIdx_concat, List.foldl_append]
      refine registers_concat (ih hnodup.1 (by omega)) (fun hmem => ?_) (by omega)
      exact hnodup.2.2 entry.1 hmem entry.1 (by simp) rfl

theorem lookup_valuesOf (hlength : entries.length ≤ 10000) (keyId : UInt32) (value : Payload) :
    (valuesOf entries).lookup keyId = some value ↔
      ∃ path n, ((path, value), n) ∈ entries.zipIdx 1 ∧ keyId = UInt32.ofNat n := by
  induction entries using List.reverseRecOn with
  | nil => simp [valuesOf]
  | append_singleton entries entry ih =>
      rw [List.length_append, List.length_singleton] at hlength
      rw [valuesOf, zipIdx_concat, List.foldl_append, List.foldl_cons, List.foldl_nil]
      simp only [List.mem_append, List.mem_singleton, Prod.mk.injEq]
      change ((valuesOf entries).insert _ entry.2).lookup keyId = _ ↔ _
      rw [lookup_insert_eq_ite]
      split
      · next heq =>
          constructor
          · rintro ⟨⟩
            exact ⟨entry.1, _, Or.inr ⟨rfl, rfl⟩, heq⟩
          · rintro ⟨path, n, hmem | ⟨hentry, _⟩, hid⟩
            · have hle := le_of_mem_zipIdx hmem
              have := ofNat_inj_of_le (by omega) (by omega) (hid.symm.trans heq)
              omega
            · rw [← hentry]
      · next hne =>
          rw [ih (by omega)]
          constructor
          · rintro ⟨path, n, hmem, hid⟩
            exact ⟨path, n, Or.inl hmem, hid⟩
          · rintro ⟨path, n, hmem | ⟨_, rfl⟩, hid⟩
            · exact ⟨path, n, hmem, hid⟩
            · exact absurd hid hne

theorem held_iff (hnodup : (entries.map Prod.fst).Nodup) (hlength : entries.length ≤ 10000)
    (path : StdString) (value : Payload) :
    (∃ entry, (registryOf entries).getByPath path = some entry ∧
        (valuesOf entries).lookup entry.keyId = some value) ↔
      (path, value) ∈ entries ∧ checkKeyPath path = .ok () := by
  have h := registers_registryOf hnodup hlength
  constructor
  · rintro ⟨entry, hentry, hvalue⟩
    obtain ⟨value', n, hmem, hcheck, rfl⟩ := (h.found path entry).mp hentry
    obtain ⟨path', n', hmem', hid⟩ := (lookup_valuesOf hlength _ _).mp hvalue
    have hle := le_of_mem_zipIdx hmem
    have hle' := le_of_mem_zipIdx hmem'
    obtain rfl := ofNat_inj_of_le (by omega) (by omega) hid
    obtain ⟨rfl, rfl⟩ := Prod.mk.inj (eq_of_mem_zipIdx hmem' hmem)
    exact ⟨List.fst_mem_of_mem_zipIdx hmem', hcheck⟩
  · rintro ⟨hmem, hcheck⟩
    obtain ⟨n, hn⟩ := List.mem_iff_getElem?.mp hmem
    have hzip : ((path, value), n + 1) ∈ entries.zipIdx 1 := by
      rw [List.mk_mem_zipIdx_iff_le_and_getElem?_sub, Nat.add_sub_cancel]
      exact ⟨by omega, hn⟩
    exact ⟨_, (h.found path _).mpr ⟨value, _, hzip, hcheck, rfl⟩,
      (lookup_valuesOf hlength _ _).mpr ⟨path, _, hzip, rfl⟩⟩

end Entries

end DanWs.TopicTables
