import DanWs.FiniteMaps
import DanWs.WireTypes

/-!
The key-value store behind principals, sessions and topics. Its callbacks are
explicit: the id allocator is a counter passed in and out, the enqueued frames
are returned in order, and `clear` tells whether it asks for a resync.
-/

namespace DanWs.FlatStates

open DanWs.FiniteMaps
open DanWs.WireTypes

structure Entry where
  keyId : UInt32
  type : DataType
  value : Payload
  deriving DecidableEq

structure FlatState where
  wirePrefix : StdString
  entries : FiniteMap StdString Entry
  byKeyId : FiniteMap UInt32 StdString

/-- `detectDataType`, which the client has as well. -/
def detectDataType : Payload → DataType
  | .null => .null
  | .bool _ => .bool
  | .uint8 _ => .uint8
  | .uint16 _ => .uint16
  | .uint32 _ => .uint32
  | .uint64 _ => .uint64
  | .int32 _ => .varInteger
  | .int64 _ => .int64
  | .float _ => .varFloat
  | .double _ => .varDouble
  | .string _ => .string
  | .binary _ => .binary

namespace FlatState

def new (wirePrefix : StdString) : FlatState := ⟨wirePrefix, ∅, ∅⟩

def wirePath (flat : FlatState) (key : StdString) : StdString :=
  if flat.wirePrefix = [] then key else flat.wirePrefix ++ key

def keyFrame (flat : FlatState) (key : StdString) (entry : Entry) : Frame :=
  ⟨.serverKeyRegistration, entry.keyId, entry.type, .string (flat.wirePath key)⟩

def valueFrame (entry : Entry) : Frame :=
  ⟨.serverValue, entry.keyId, entry.type, entry.value⟩

def deleteFrame (keyId : UInt32) : Frame := ⟨.serverKeyDelete, keyId, .null, .null⟩

def entryFrames (flat : FlatState) (key : StdString) (entry : Entry) : List Frame :=
  [flat.keyFrame key entry, signalFrame .serverSync, valueFrame entry]

/-- `setLeaf`: the new state, the allocator behind it and the enqueued frames. -/
def set (flat : FlatState) (nextKeyId : UInt32) (key : StdString) (value : Payload) :
    FlatState × UInt32 × List Frame :=
  let newType := detectDataType value
  let entry : Entry := ⟨nextKeyId, newType, value⟩
  match flat.entries.lookup key with
  | some old =>
      if old.type ≠ newType then
        -- the type changed: the key is deleted and registered under a new id
        ({ flat with
            entries := (flat.entries.erase key).insert key entry
            byKeyId := (flat.byKeyId.erase old.keyId).insert nextKeyId key },
          nextKeyId + 1, deleteFrame old.keyId :: flat.entryFrames key entry)
      else
        ({ flat with entries := flat.entries.insert key { old with value := value } },
          nextKeyId, [valueFrame { old with value := value }])
  | none =>
      ({ flat with
          entries := flat.entries.insert key entry
          byKeyId := flat.byKeyId.insert nextKeyId key },
        nextKeyId + 1, flat.entryFrames key entry)

def get (flat : FlatState) (key : StdString) : Payload :=
  match flat.entries.lookup key with
  | none => .null
  | some entry => entry.value

/-- `clear()`, and whether `onResync` is called. -/
def clear (flat : FlatState) : FlatState × Bool :=
  if flat.entries = ∅ then (flat, false)
  else ({ flat with entries := ∅, byKeyId := ∅ }, true)

/-- `clear(key)` and its enqueued frames. -/
def clearKey (flat : FlatState) (key : StdString) : FlatState × List Frame :=
  match flat.entries.lookup key with
  | none => (flat, [])
  | some entry =>
      ({ flat with
          entries := flat.entries.erase key
          byKeyId := flat.byKeyId.erase entry.keyId },
        [deleteFrame entry.keyId])

def getByKeyId (flat : FlatState) (keyId : UInt32) : Option Entry :=
  (flat.byKeyId.lookup keyId).bind flat.entries.lookup

def getPathByKeyId (flat : FlatState) (keyId : UInt32) : StdString :=
  (flat.byKeyId.lookup keyId).getD []

def registration (flat : FlatState) (key : StdString) : Option (UInt32 × DataType) :=
  (flat.entries.lookup key).map fun entry => (entry.keyId, entry.type)

theorem wirePath_injective (flat : FlatState) : Function.Injective flat.wirePath := by
  intro key other h
  unfold wirePath at h
  split at h
  · exact h
  · exact List.append_cancel_left h

theorem wirePrefix_set (flat : FlatState) (nextKeyId : UInt32) (key : StdString)
    (value : Payload) : (flat.set nextKeyId key value).1.wirePrefix = flat.wirePrefix := by
  simp only [set]
  split
  · split <;> rfl
  · rfl

theorem wirePrefix_clearKey (flat : FlatState) (key : StdString) :
    (flat.clearKey key).1.wirePrefix = flat.wirePrefix := by
  rw [clearKey]
  split <;> rfl

theorem wirePrefix_clear (flat : FlatState) : flat.clear.1.wirePrefix = flat.wirePrefix := by
  rw [clear]
  split <;> rfl

section Iteration

variable [HashOrder StdString]

def keys (flat : FlatState) : List StdString :=
  HashOrder.order.enumerate flat.entries.keys

def buildKeyFrames (flat : FlatState) : List Frame :=
  (HashOrder.order.items flat.entries).map fun (key, entry) => flat.keyFrame key entry

def buildValueFrames (flat : FlatState) : List Frame :=
  (HashOrder.order.items flat.entries).map fun (_, entry) => valueFrame entry

theorem keyFrame_mem_buildKeyFrames (flat : FlatState) (key : StdString) (entry : Entry) :
    flat.keyFrame key entry ∈ flat.buildKeyFrames ↔
      flat.registration key = some (entry.keyId, entry.type) := by
  simp only [buildKeyFrames, List.mem_map, Prod.exists, IterationOrder.mem_items, registration,
    Option.map_eq_some_iff, Prod.mk.injEq]
  constructor
  · rintro ⟨other, held, hheld, hframe⟩
    simp only [keyFrame, Frame.mk.injEq, Payload.string.injEq] at hframe
    obtain ⟨_, hid, htype, hpath⟩ := hframe
    obtain rfl := flat.wirePath_injective hpath
    exact ⟨held, hheld, hid, htype⟩
  · rintro ⟨held, hheld, hid, htype⟩
    exact ⟨key, held, hheld, by rw [keyFrame, keyFrame, hid, htype]⟩

theorem buildKeyFrames_eq_iff {flat other : FlatState}
    (hstart : flat.wirePrefix = other.wirePrefix) :
    flat.buildKeyFrames = other.buildKeyFrames ↔
      ∀ key, flat.registration key = other.registration key := by
  have hframe : ∀ key entry, flat.keyFrame key entry = other.keyFrame key entry := by
    intro key entry
    rw [keyFrame, keyFrame, wirePath, wirePath, hstart]
  constructor
  · intro h key
    apply Option.ext
    rintro ⟨keyId, type⟩
    have hmem := keyFrame_mem_buildKeyFrames flat key ⟨keyId, type, .null⟩
    rw [h, hframe] at hmem
    exact hmem.symm.trans (keyFrame_mem_buildKeyFrames other key _)
  · intro h
    have hlookup : ∀ key, (flat.entries.lookup key).map (flat.keyFrame key) =
        (other.entries.lookup key).map (flat.keyFrame key) := by
      intro key
      have hkey := congrArg
        (Option.map fun kt : UInt32 × DataType => flat.keyFrame key ⟨kt.1, kt.2, .null⟩) (h key)
      rwa [registration, registration, Option.map_map, Option.map_map] at hkey
    calc
      flat.buildKeyFrames = _ := IterationOrder.map_items_congr HashOrder.order hlookup
      _ = other.buildKeyFrames := by
          rw [buildKeyFrames]
          exact List.map_congr_left fun item _ => hframe item.1 item.2

end Iteration

end FlatState

end DanWs.FlatStates
