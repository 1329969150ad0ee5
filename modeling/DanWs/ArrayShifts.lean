import DanWs.CellMoves
import DanWs.RegistryCalls

namespace DanWs.ArrayShifts

open DanWs.CellMoves
open DanWs.Clients
open DanWs.FiniteMaps
open DanWs.KeyPaths
open DanWs.KeyStores
open DanWs.RegistryCalls
open DanWs.StepRuns
open DanWs.Strings
open DanWs.TopicParsing
open DanWs.WireTypes

section Checks

def checkedLeftLoop (start : StdString) (count newLength : Int) (client : Client) : Result Client :=
  (List.range newLength.toNat).foldlM (fun client (i : ℕ) => do
    let source ← checkedInt ((i : Int) + count)
    let _ ← checkedInt ((i : Int) + 1)
    return client.moveElement start source.toNat i) client

def checkedRightLoop (start : StdString) (count currentLength : Int) (client : Client) :
    Result Client :=
  (List.range currentLength.toNat).reverse.foldlM (fun client (i : ℕ) => do
    let target ← checkedInt ((i : Int) + count)
    let _ ← checkedInt ((i : Int) - 1)
    return client.moveElement start i target.toNat) client

/-- `handleArrayShiftLeft` with every `int` expression of its loop checked. -/
def checkedArrayShiftLeft (client : Client) (frame : Frame) : Result Handled :=
  match client.registry.getByKeyId frame.keyId with
  | none => .ok client.handled
  | some lengthEntry => do
      let (cached, info) := client.getTopicInfo frame.keyId lengthEntry.path
      let currentLength := cached.storedLength frame.keyId
      let count := Client.shiftCount frame currentLength
      let newLength ← checkedInt (currentLength - count)
      let moved ← checkedLeftLoop (Client.dropLength lengthEntry.path) count newLength cached
      let stored :=
        { moved with store := moved.store.insert frame.keyId (.int32 (Int32.ofInt newLength)) }
      return { stored.handled with notices := stored.notifyLength info lengthEntry.path newLength }

/-- `handleArrayShiftRight` with every `int` expression of its loop checked. -/
def checkedArrayShiftRight (client : Client) (frame : Frame) : Result Handled :=
  match client.registry.getByKeyId frame.keyId with
  | none => .ok client.handled
  | some lengthEntry => do
      let (cached, info) := client.getTopicInfo frame.keyId lengthEntry.path
      let currentLength := cached.storedLength frame.keyId
      let count := Client.shiftCount frame currentLength
      let _ ← checkedInt (currentLength - 1)
      let moved ←
        checkedRightLoop (Client.dropLength lengthEntry.path) count currentLength cached
      return { moved.handled with
        notices := moved.notifyLength info lengthEntry.path currentLength }

/-- `handleFrame` with the `int` arithmetic of array shifts checked. -/
def checkedHandleFrame (client : Client) (frame : Frame) : Result Handled :=
  match frame.frameType with
  | .arrayShiftLeft => checkedArrayShiftLeft client frame
  | .arrayShiftRight => checkedArrayShiftRight client frame
  | _ => .ok (client.handleFrame frame)

/-- A shift to the right starts at an index that is an `int`, and moves the last
element to one. -/
def ShiftFits (client : Client) (frame : Frame) : Prop :=
  frame.frameType = .arrayShiftRight → client.registry.hasKeyId frame.keyId →
    client.storedLength frame.keyId ≠ -2 ^ 31 ∧
      (0 < client.storedLength frame.keyId →
        client.storedLength frame.keyId - 1 +
          max 0 (min (Client.int32Of frame.payload) (client.storedLength frame.keyId)) < 2 ^ 31)

variable (client : Client) (frame : Frame)

theorem int32Of_bounds (payload : Payload) :
    -2 ^ 31 ≤ Client.int32Of payload ∧ Client.int32Of payload < 2 ^ 31 := by
  cases payload with
  | int32 value => exact ⟨value.le_toInt, value.toInt_lt⟩
  | _ =>
      rw [Client.int32Of]
      · exact ⟨by decide, by decide⟩
      · intro value h
        cases h

theorem storedLength_bounds (keyId : UInt32) :
    -2 ^ 31 ≤ client.storedLength keyId ∧ client.storedLength keyId < 2 ^ 31 := by
  rw [Client.storedLength]
  cases client.store.lookup keyId with
  | none => exact ⟨by decide, by decide⟩
  | some payload => exact int32Of_bounds payload

theorem storedLength_getTopicInfo (keyId : UInt32) (path : StdString) :
    (client.getTopicInfo keyId path).1.storedLength keyId = client.storedLength keyId := by
  obtain ⟨topicKeyCache, hcached⟩ := getTopicInfo_eq client keyId path
  rw [hcached]
  rfl

theorem foldlM_eq_ok {α β : Type*} {list : List α} {f : β → α → Result β} {g : β → α → β}
    (h : ∀ a ∈ list, ∀ b, f b a = .ok (g b a)) (b : β) :
    list.foldlM f b = .ok (list.foldl g b) := by
  induction list generalizing b with
  | nil => rfl
  | cons a list ih =>
      rw [List.foldlM_cons, h a List.mem_cons_self]
      exact ih (fun other hother => h other (List.mem_cons_of_mem a hother)) (g b a)

theorem checkedLeftLoop_eq {start : StdString} {count newLength : Int} (hcount : 0 ≤ count)
    (hhigh : newLength + count < 2 ^ 31) :
    checkedLeftLoop start count newLength client =
      .ok ((List.range newLength.toNat).foldl
        (fun client i => client.moveElement start (i + count.toNat) i) client) := by
  refine foldlM_eq_ok (fun i hi moved => ?_) client
  have hlt := List.mem_range.mp hi
  rw [checkedInt_eq_ok (by omega) (by omega), checkedInt_eq_ok (by omega) (by omega)]
  have hsource : ((i : Int) + count).toNat = i + count.toNat := by omega
  change Except.ok _ = _
  rw [hsource]

theorem checkedRightLoop_eq {start : StdString} {count currentLength : Int} (hcount : 0 ≤ count)
    (hhigh : currentLength - 1 + count < 2 ^ 31) :
    checkedRightLoop start count currentLength client =
      .ok ((List.range currentLength.toNat).reverse.foldl
        (fun client i => client.moveElement start i (i + count.toNat)) client) := by
  refine foldlM_eq_ok (fun i hi moved => ?_) client
  have hlt := List.mem_range.mp (List.mem_reverse.mp hi)
  rw [checkedInt_eq_ok (by omega) (by omega), checkedInt_eq_ok (by omega) (by omega)]
  have htarget : ((i : Int) + count).toNat = i + count.toNat := by omega
  change Except.ok _ = _
  rw [htarget]

/-- The first round already overflows if any does. -/
theorem checkedRightLoop_eq_error {start : StdString} {count currentLength : Int}
    (hlength : 0 < currentLength) (hhigh : 2 ^ 31 ≤ currentLength - 1 + count) :
    checkedRightLoop start count currentLength client = .error .undefinedBehaviour := by
  obtain ⟨last, hlast⟩ : ∃ last, currentLength.toNat = last + 1 :=
    ⟨currentLength.toNat - 1, by omega⟩
  rw [checkedRightLoop, hlast, List.range_succ, List.reverse_concat, List.foldlM_cons, checkedInt,
    if_neg (by omega)]
  rfl

theorem shiftCount_bounds (length : Int) :
    0 ≤ Client.shiftCount frame length ∧
      (Client.shiftCount frame length ≤ length ∨ Client.shiftCount frame length = 0) := by
  rw [Client.shiftCount]
  omega

theorem checkedArrayShiftLeft_eq :
    checkedArrayShiftLeft client frame = .ok (client.handleArrayShiftLeft frame) := by
  rw [checkedArrayShiftLeft, Client.handleArrayShiftLeft]
  cases client.registry.getByKeyId frame.keyId with
  | none => rfl
  | some lengthEntry =>
      dsimp only
      generalize client.getTopicInfo frame.keyId lengthEntry.path = found
      obtain ⟨cached, info⟩ := found
      have hbounds := storedLength_bounds cached frame.keyId
      obtain ⟨hnonneg, hle⟩ := shiftCount_bounds frame (cached.storedLength frame.keyId)
      dsimp only
      rw [checkedInt_eq_ok (by omega) (by omega), ok_bind, checkedLeftLoop_eq _ hnonneg (by omega)]
      rfl

theorem checkedArrayShiftRight_eq_iff :
    checkedArrayShiftRight client frame = .ok (client.handleArrayShiftRight frame) ↔
      (client.registry.hasKeyId frame.keyId →
        client.storedLength frame.keyId ≠ -2 ^ 31 ∧
          (0 < client.storedLength frame.keyId →
            client.storedLength frame.keyId - 1 +
              Client.shiftCount frame (client.storedLength frame.keyId) < 2 ^ 31)) := by
  rw [checkedArrayShiftRight, Client.handleArrayShiftRight, KeyRegistry.hasKeyId]
  cases hknown : client.registry.getByKeyId frame.keyId with
  | none =>
      rw [KeyRegistry.getByKeyId] at hknown
      rw [hknown]
      exact iff_of_true rfl fun h => Bool.noConfusion h
  | some lengthEntry =>
      rw [KeyRegistry.getByKeyId] at hknown
      rw [hknown, ← storedLength_getTopicInfo client frame.keyId lengthEntry.path]
      dsimp only
      generalize client.getTopicInfo frame.keyId lengthEntry.path = found
      obtain ⟨cached, info⟩ := found
      have hbounds := storedLength_bounds cached frame.keyId
      obtain ⟨hnonneg, hle⟩ := shiftCount_bounds frame (cached.storedLength frame.keyId)
      dsimp only
      rw [Option.isSome_some, forall_prop_of_true rfl]
      by_cases hmin : cached.storedLength frame.keyId = -2 ^ 31
      · rw [checkedInt, if_neg (by omega)]
        exact iff_of_false (fun h => by cases h) fun h => h.1 hmin
      · rw [checkedInt_eq_ok (by omega) (by omega), ok_bind, and_iff_right hmin]
        by_cases hlast : 0 < cached.storedLength frame.keyId ∧
            2 ^ 31 ≤ cached.storedLength frame.keyId - 1 +
              Client.shiftCount frame (cached.storedLength frame.keyId)
        · rw [checkedRightLoop_eq_error _ hlast.1 hlast.2]
          exact iff_of_false (fun h => by cases h) fun h => absurd hlast.2 (h hlast.1).not_ge
        · rw [checkedRightLoop_eq _ hnonneg (by omega)]
          refine iff_of_true rfl fun hpos => ?_
          by_contra hhigh
          exact hlast ⟨hpos, not_lt.mp hhigh⟩

/-- The arithmetic of the loops stays within `int` for every shift to the left, and
for the shifts to the right that fit. -/
theorem checkedHandleFrame_eq_iff (client : Client) (frame : Frame) :
    checkedHandleFrame client frame = .ok (client.handleFrame frame) ↔ ShiftFits client frame := by
  rw [checkedHandleFrame, Client.handleFrame, ShiftFits]
  generalize hkind : frame.frameType = kind
  cases kind
  case arrayShiftRight =>
    rw [forall_prop_of_true rfl]
    exact checkedArrayShiftRight_eq_iff client frame
  case arrayShiftLeft =>
    exact iff_of_true (checkedArrayShiftLeft_eq client frame) fun h => by cases h
  all_goals exact iff_of_true rfl fun h => by cases h

end Checks

/-- The frames of a server that sets up an array `a` of some length. -/
def lengthFrames (length : Int32) : List Frame :=
  [⟨.serverKeyRegistration, 1, .varInteger, .string (str "a.length")⟩,
    ⟨.serverValue, 1, .varInteger, .int32 length⟩]

/-- The index of the last element of an array whose length is the least `int`. -/
theorem not_checkedHandleFrame_eq :
    ¬ ∀ (client : Client) (frame : Frame),
      checkedHandleFrame client frame = .ok (client.handleFrame frame) := by
  intro h
  let client := (Client.new.receive (lengthFrames Int32.minValue)).1
  let shift : Frame := ⟨.arrayShiftRight, 1, .varInteger, .int32 1⟩
  have hfits := (checkedArrayShiftRight_eq_iff client shift).mp (h client shift)
  exact (hfits (by decide +kernel)).1 (by decide +kernel)

section Elements

variable (client : Client) (start : StdString)

def elementKey (index : ℕ) : Option UInt32 :=
  (client.registry.getByPath (Client.elementPath start index)).map KeyEntry.keyId

def element (index : ℕ) : Option Payload := valueAt (elementKey client start) client.store index

theorem moveElement_eq_move (source target : ℕ) :
    client.moveElement start source target =
      { client with store := move (elementKey client start) client.store source target } := by
  rw [Client.moveElement, move, elementKey, elementKey]
  cases client.registry.getByPath (Client.elementPath start source) with
  | none => rfl
  | some src =>
      cases client.registry.getByPath (Client.elementPath start target) with
      | none => rfl
      | some dst =>
          rw [Option.map_some, Option.map_some]
          dsimp only
          cases client.store.lookup src.keyId <;> rfl

theorem foldl_moveElement (source target : ℕ → ℕ) (indices : List ℕ) :
    indices.foldl (fun client i => client.moveElement start (source i) (target i)) client =
      { client with
        store := moveAll (elementKey client start) source target indices client.store } := by
  induction indices generalizing client with
  | nil => rfl
  | cons i indices ih =>
      rw [List.foldl_cons, moveElement_eq_move, ih]
      rfl

end Elements

section Registered

variable {client : Client} {start : StdString} {keyId : UInt32}

theorem path_of_elementKey (h : Bijective client.registry) {index : ℕ}
    (hkey : elementKey client start index = some keyId) :
    pathOf client.registry keyId = some (Client.elementPath start index) := by
  obtain ⟨entry, hentry, rfl⟩ := Option.map_eq_some_iff.mp hkey
  obtain ⟨id, hid, hlookup⟩ := Option.bind_eq_some_iff.mp hentry
  rw [h.keyed id entry hlookup]
  exact (h.inverse id _).mpr hid

theorem elementKey_injective (h : Bijective client.registry) {i j : ℕ}
    (hi : elementKey client start i = some keyId) (hj : elementKey client start j = some keyId) :
    i = j := by
  have hpath := (path_of_elementKey h hi).symm.trans (path_of_elementKey h hj)
  rw [Option.some.injEq, Client.elementPath, Client.elementPath] at hpath
  exact decimal_injective (List.append_cancel_left hpath)

theorem elementKey_ne (h : Bijective client.registry)
    (hpath : pathOf client.registry keyId = some (start ++ str ".length")) (index : ℕ) :
    elementKey client start index ≠ some keyId := by
  intro hkey
  have heq := hpath.symm.trans (path_of_elementKey h hkey)
  rw [Option.some.injEq, Client.elementPath, List.append_assoc] at heq
  have hdigits : decimal index = str "length" :=
    (List.cons.inj (List.append_cancel_left heq)).2.symm
  have hletter : isDigit 0x6C := isDigit_of_mem_decimal (n := index) (by rw [hdigits]; decide)
  exact absurd hletter (by decide)

theorem dropLength_append : Client.dropLength (start ++ str ".length") = start := by
  have hlength : (start ++ str ".length").length = start.length + 7 := List.length_append
  rw [Client.dropLength, substr, sizeSub, hlength, if_pos (Nat.le_add_left 7 _),
    Nat.add_sub_cancel, List.drop_zero, List.take_left]

end Registered

/-- An array with its length under a key, and all its elements stored. -/
structure ArrayAt (client : Client) (start : StdString) (keyId : UInt32) (length : Int32) :
    Prop where
  path : pathOf client.registry keyId = some (start ++ str ".length")
  stored : client.store.lookup keyId = some (.int32 length)
  nonneg : 0 ≤ length.toInt
  elements : ∀ i < length.toInt.toNat, (element client start i).isSome

def places (shift length : Int32) : ℕ := (max 0 (min shift.toInt length.toInt)).toNat

structure ShiftedLeft (client after : Client) (start : StdString) (keyId : UInt32) (length : Int32)
    (count : ℕ) : Prop where
  registry : after.registry = client.registry
  stored : after.store.lookup keyId = some (.int32 (Int32.ofInt (length.toInt - count)))
  moved : ∀ i, i + count < length.toInt.toNat →
    element after start i = element client start (i + count)
  others : ∀ id, id ≠ keyId →
    (∀ i, i + count < length.toInt.toNat → elementKey client start i ≠ some id) →
    after.store.lookup id = client.store.lookup id

structure ShiftedRight (client after : Client) (start : StdString) (keyId : UInt32)
    (length : Int32) (count : ℕ) : Prop where
  registry : after.registry = client.registry
  stored : after.store.lookup keyId = client.store.lookup keyId
  moved : ∀ i < length.toInt.toNat, (elementKey client start (i + count)).isSome →
    element after start (i + count) = element client start i
  below : ∀ i < count, element after start i = element client start i
  others : ∀ id, (∀ i < length.toInt.toNat, elementKey client start (i + count) ≠ some id) →
    after.store.lookup id = client.store.lookup id

section Shifts

variable {client : Client} {start : StdString} {keyId : UInt32} {length shift : Int32}
  {frame : Frame}

theorem ArrayAt.getByKeyId (h : ArrayAt client start keyId length) :
    ∃ entry, client.registry.getByKeyId keyId = some entry ∧
      entry.path = start ++ str ".length" :=
  Option.map_eq_some_iff.mp h.path

theorem ArrayAt.storedLength (h : ArrayAt client start keyId length) :
    client.storedLength keyId = length.toInt := by
  rw [Client.storedLength, h.stored]
  rfl

theorem shiftCount_eq (hshift : frame.payload = .int32 shift) :
    Client.shiftCount frame length.toInt = places shift length := by
  rw [Client.shiftCount, hshift, places]
  change max 0 (min shift.toInt length.toInt) = _
  omega

theorem handleArrayShiftLeft_eq (h : ArrayAt client start keyId length)
    (hkey : frame.keyId = keyId) (hshift : frame.payload = .int32 shift) :
    ∃ topicKeyCache, (client.handleArrayShiftLeft frame).client =
      { client with
        topicKeyCache
        store := (moveAll (elementKey client start) (fun i => i + places shift length) (fun i => i)
          (List.range (length.toInt.toNat - places shift length)) client.store).insert keyId
            (.int32 (Int32.ofInt (length.toInt - places shift length))) } := by
  subst hkey
  obtain ⟨entry, hentry, hpath⟩ := h.getByKeyId
  obtain ⟨topicKeyCache, hcached⟩ := getTopicInfo_eq client frame.keyId entry.path
  have hlength : ({ client with topicKeyCache } : Client).storedLength frame.keyId =
      length.toInt := h.storedLength
  have hcount : (length.toInt - (places shift length : ℕ)).toNat =
      length.toInt.toNat - places shift length := by omega
  refine ⟨topicKeyCache, ?_⟩
  rw [Client.handleArrayShiftLeft, hentry]
  dsimp only
  rw [hcached, hpath, dropLength_append, hlength, shiftCount_eq hshift, hcount, Int.toNat_natCast,
    foldl_moveElement]
  rfl

theorem handleArrayShiftRight_eq (h : ArrayAt client start keyId length)
    (hkey : frame.keyId = keyId) (hshift : frame.payload = .int32 shift) :
    ∃ topicKeyCache, (client.handleArrayShiftRight frame).client =
      { client with
        topicKeyCache
        store := moveAll (elementKey client start) (fun i => i) (fun i => i + places shift length)
          (List.range length.toInt.toNat).reverse client.store } := by
  subst hkey
  obtain ⟨entry, hentry, hpath⟩ := h.getByKeyId
  obtain ⟨topicKeyCache, hcached⟩ := getTopicInfo_eq client frame.keyId entry.path
  have hlength : ({ client with topicKeyCache } : Client).storedLength frame.keyId =
      length.toInt := h.storedLength
  refine ⟨topicKeyCache, ?_⟩
  rw [Client.handleArrayShiftRight, hentry]
  dsimp only
  rw [hcached, hpath, dropLength_append, hlength, shiftCount_eq hshift, Int.toNat_natCast,
    foldl_moveElement]
  rfl

theorem ArrayAt.isSome_elementKey (h : ArrayAt client start keyId length) {i : ℕ}
    (hi : i < length.toInt.toNat) : (elementKey client start i).isSome := by
  obtain ⟨value, hvalue⟩ := Option.isSome_iff_exists.mp (h.elements i hi)
  obtain ⟨id, hid, -⟩ := Option.bind_eq_some_iff.mp hvalue
  exact Option.isSome_iff_exists.mpr ⟨id, hid⟩

theorem valueAt_insert {cell : ℕ → Option UInt32} {store : FiniteMap UInt32 Payload}
    (hcell : ∀ i, cell i ≠ some keyId) (value : Payload) (i : ℕ) :
    valueAt cell (store.insert keyId value) i = valueAt cell store i := by
  cases hi : cell i with
  | none => rw [valueAt, valueAt, hi, Option.bind_none, Option.bind_none]
  | some id =>
      rw [valueAt, valueAt, hi, Option.bind_some, Option.bind_some, lookup_insert_eq_ite, if_neg]
      rintro rfl
      exact hcell i hi

theorem shiftedLeft (hregistry : Bijective client.registry) (h : ArrayAt client start keyId length)
    (hkey : frame.keyId = keyId) (hshift : frame.payload = .int32 shift) :
    ShiftedLeft client (client.handleArrayShiftLeft frame).client start keyId length
      (places shift length) := by
  obtain ⟨topicKeyCache, heq⟩ := handleArrayShiftLeft_eq h hkey hshift
  rw [heq]
  refine ⟨rfl, ?_, fun i hi => ?_, fun id hne hid => ?_⟩
  · rw [lookup_insert_eq_ite, if_pos rfl]
  · have hmem : i ∈ List.range (length.toInt.toNat - places shift length) :=
      List.mem_range.mpr (by omega)
    have hstored : ∀ j ∈ List.range (length.toInt.toNat - places shift length),
        (element client start (j + places shift length)).isSome := by
      intro j hj
      have hlt := List.mem_range.mp hj
      exact h.elements _ (by omega)
    refine (valueAt_insert (elementKey_ne hregistry h.path) _ i).trans ?_
    exact valueAt_moveAll (fun _ _ _ => elementKey_injective hregistry) (pairwise_down _ _) hstored
      hmem (h.isSome_elementKey (by omega))
  · rw [lookup_insert_eq_ite, if_neg hne]
    refine lookup_moveAll_of_ne fun i hi => hid i ?_
    have hlt := List.mem_range.mp hi
    omega

theorem shiftedRight (hregistry : Bijective client.registry)
    (h : ArrayAt client start keyId length) (hkey : frame.keyId = keyId)
    (hshift : frame.payload = .int32 shift) :
    ShiftedRight client (client.handleArrayShiftRight frame).client start keyId length
      (places shift length) := by
  obtain ⟨topicKeyCache, heq⟩ := handleArrayShiftRight_eq h hkey hshift
  rw [heq]
  refine ⟨rfl, ?_, fun i hi htarget => ?_, fun i hi => ?_, fun id hid => ?_⟩
  · exact lookup_moveAll_of_ne fun i _ => elementKey_ne hregistry h.path _
  · exact valueAt_moveAll (fun _ _ _ => elementKey_injective hregistry) (pairwise_up _ _)
      (fun j hj => h.elements j (List.mem_range.mp (List.mem_reverse.mp hj)))
      (List.mem_reverse.mpr (List.mem_range.mpr hi)) htarget
  · exact valueAt_moveAll_of_ne (fun _ _ _ => elementKey_injective hregistry) fun j _ => by omega
  · exact lookup_moveAll_of_ne fun i hi => hid i (List.mem_range.mp (List.mem_reverse.mp hi))

/-- Shifts that stay within the range of indices move the elements of an array as
they would move in a list, and leave all other values alone. -/
theorem handleFrame_shifts (client : Client) (hregistry : Bijective client.registry)
    (start : StdString) (keyId : UInt32) (length : Int32)
    (harray : ArrayAt client start keyId length) (shift : Int32)
    (hrange : length.toInt - 1 + places shift length < 2 ^ 31) (frame : Frame)
    (hkey : frame.keyId = keyId) (hshift : frame.payload = .int32 shift) :
    (frame.frameType = .arrayShiftLeft →
      ∃ handled, checkedHandleFrame client frame = .ok handled ∧
        ShiftedLeft client handled.client start keyId length (places shift length)) ∧
    (frame.frameType = .arrayShiftRight →
      ∃ handled, checkedHandleFrame client frame = .ok handled ∧
        ShiftedRight client handled.client start keyId length (places shift length)) := by
  constructor
  · intro htype
    refine ⟨client.handleArrayShiftLeft frame, ?_, shiftedLeft hregistry harray hkey hshift⟩
    rw [checkedHandleFrame, htype]
    exact checkedArrayShiftLeft_eq client frame
  · intro htype
    refine ⟨client.handleArrayShiftRight frame, ?_, shiftedRight hregistry harray hkey hshift⟩
    rw [checkedHandleFrame, htype]
    refine (checkedArrayShiftRight_eq_iff client frame).mpr fun _ => ?_
    have hnonneg := harray.nonneg
    rw [hkey, harray.storedLength, shiftCount_eq hshift]
    omega

theorem not_displaces_of_unknown {registry : KeyRegistry} {path : StdString}
    (hid : pathOf registry keyId = none) (hpath : registry.pathToId.lookup path = none) :
    ¬ Displaces registry keyId path := by
  rw [not_displaces_iff, hid, hpath]
  exact ⟨nofun, nofun⟩

def pairKeys : List Call :=
  [.registerOne 1 (str "a.length") .varInteger, .registerOne 2 (str "a.0") .varInteger,
    .registerOne 3 (str "a.1") .varInteger]

def pair : Client :=
  { Client.new with
    registry := run call (KeyRegistry.new 10) pairKeys
    store := (((∅ : FiniteMap UInt32 Payload).insert 1 (.int32 2)).insert 2 (.int32 7)).insert 3
      (.int32 8) }

theorem bijective_pair : Bijective pair.registry := by
  refine invariant_run (fun registry c h => (bijective_call_iff registry c h).mpr)
    (bijective_new 10) ⟨fun _ => ?_, fun _ => ?_, fun _ => ?_, trivial⟩
  all_goals exact not_displaces_of_unknown (by decide) (by decide)

theorem arrayAt_pair : ArrayAt pair (str "a") 1 2 where
  path := by decide
  stored := by decide
  nonneg := by decide
  elements := by decide

theorem handleFrame_shifts_pair :
    ∃ handled, checkedHandleFrame pair ⟨.arrayShiftRight, 1, .varInteger, .int32 1⟩ = .ok handled ∧
      ShiftedRight pair handled.client (str "a") 1 2 1 :=
  (handleFrame_shifts pair bijective_pair (str "a") 1 2 arrayAt_pair 1 (by decide)
    ⟨.arrayShiftRight, 1, .varInteger, .int32 1⟩ rfl rfl).2 rfl

end Shifts

end DanWs.ArrayShifts
