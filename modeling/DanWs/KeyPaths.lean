import DanWs.FiniteMaps
import DanWs.WireTypes

namespace DanWs.KeyPaths

open DanWs.FiniteMaps
open DanWs.WireTypes

def isKeyChar (b : UInt8) : Bool :=
  (0x61 ≤ b && b ≤ 0x7A) || (0x41 ≤ b && b ≤ 0x5A) || (0x30 ≤ b && b ≤ 0x39) || b == 0x5F

/-- A match of `^[a-zA-Z0-9_]+(\.[a-zA-Z0-9_]+)*$`, where `inSegment` tells
whether the current segment has a character yet. -/
def matchSegments (inSegment : Bool) : List UInt8 → Bool
  | [] => inSegment
  | b :: rest =>
      if isKeyChar b then matchSegments true rest
      else if b = 0x2E ∧ inSegment then matchSegments false rest
      else false

def maxKeyPathBytes : Nat := 200
def maxValidatedCache : Nat := 10000

def invalidKeyPath (message : StdString) : Fault :=
  .danWSError (str "INVALID_KEY_PATH") message

/-- The checks of `validateKeyPath` on a path that is not in its cache. -/
def checkKeyPath (path : StdString) : Result Unit :=
  if path = [] then .error (invalidKeyPath (str "Key path must not be empty"))
  else if ¬ matchSegments false path then
    .error (invalidKeyPath (str "Invalid key path: \"" ++ path ++ str "\""))
  else if maxKeyPathBytes < path.length then
    .error (invalidKeyPath (str "Key path exceeds 200 bytes: \"" ++ path ++ str "\""))
  else .ok ()

theorem matchSegments_append {segment : StdString} (hsegment : segment ≠ [])
    (h : ∀ b ∈ segment, isKeyChar b) (inSegment : Bool) (rest : StdString) :
    matchSegments inSegment (segment ++ rest) = matchSegments true rest := by
  induction segment generalizing inSegment with
  | nil => exact absurd rfl hsegment
  | cons b segment ih =>
      rw [List.cons_append, matchSegments, if_pos (h b (by simp))]
      cases segment with
      | nil => rfl
      | cons c segment => exact ih (List.cons_ne_nil _ _) (fun d hd => h d (by simp [hd])) true

theorem isKeyChar_of_matchSegments {path : StdString} {inSegment : Bool}
    (h : matchSegments inSegment path) : ∀ b ∈ path, isKeyChar b ∨ b = 0x2E := by
  induction path generalizing inSegment with
  | nil => simp
  | cons c path ih =>
      rw [matchSegments] at h
      intro b hb
      split at h
      · next hc =>
          rcases List.mem_cons.mp hb with rfl | hb
          · exact Or.inl hc
          · exact ih h b hb
      · split at h
        · next hdot =>
            rcases List.mem_cons.mp hb with rfl | hb
            · exact Or.inr hdot.1
            · exact ih h b hb
        · cases h

/-- `validateKeyPath`, with the cache `validatedPaths` before and after it. -/
def validateKeyPath (validatedPaths : Finset StdString) (path : StdString) :
    Result (Finset StdString) :=
  if path ∈ validatedPaths then .ok validatedPaths
  else
    match checkKeyPath path with
    | .error e => .error e
    | .ok () =>
        .ok (insert path (if maxValidatedCache ≤ validatedPaths.card then ∅ else validatedPaths))

def SoundCache (validatedPaths : Finset StdString) : Prop :=
  ∀ path ∈ validatedPaths, checkKeyPath path = .ok ()

/-- With a sound cache, the outcome is that of the checks, and the cache stays
sound. This is what lets the registry below leave the cache out. -/
theorem validateKeyPath_of_sound {validatedPaths : Finset StdString}
    (h : SoundCache validatedPaths) (path : StdString) :
    (validateKeyPath validatedPaths path).map (fun _ => ()) = checkKeyPath path ∧
      ∀ cache, validateKeyPath validatedPaths path = .ok cache → SoundCache cache := by
  rw [validateKeyPath]
  split
  · next hmem =>
      refine ⟨(h path hmem).symm, ?_⟩
      rintro cache ⟨⟩
      exact h
  · cases hcheck : checkKeyPath path with
    | error e => exact ⟨rfl, fun cache hcache => by cases hcache⟩
    | ok accepted =>
        refine ⟨rfl, ?_⟩
        rintro cache ⟨⟩ other hother
        rcases Finset.mem_insert.mp hother with rfl | hother
        · exact hcheck
        · split at hother
          · simp at hother
          · exact h other hother

structure KeyEntry where
  path : StdString
  type : DataType
  keyId : UInt32
  deriving DecidableEq

structure KeyRegistry where
  byId : FiniteMap UInt32 KeyEntry
  pathToId : FiniteMap StdString UInt32
  nextId : UInt32
  maxKeys : Nat

namespace KeyRegistry

def new (maxKeys : Nat) : KeyRegistry := ⟨∅, ∅, 1, maxKeys⟩

def empty : KeyRegistry := new 10000

def keyLimitExceeded (maxKeys : Nat) : Fault :=
  .danWSError (str "KEY_LIMIT_EXCEEDED")
    (str ("Key registry limit reached (" ++ toString maxKeys ++ ")"))

def registerOne (registry : KeyRegistry) (keyId : UInt32) (path : StdString)
    (type : DataType) : Result KeyRegistry :=
  match checkKeyPath path with
  | .error e => .error e
  | .ok () =>
      if registry.pathToId.lookup path = none ∧ registry.maxKeys ≤ registry.byId.keys.card then
        .error (keyLimitExceeded registry.maxKeys)
      else
        .ok { registry with
          byId := registry.byId.insert keyId ⟨path, type, keyId⟩
          pathToId := registry.pathToId.insert path keyId
          nextId := if registry.nextId ≤ keyId then keyId + 1 else registry.nextId }

def getByKeyId (registry : KeyRegistry) (keyId : UInt32) : Option KeyEntry :=
  registry.byId.lookup keyId

def getByPath (registry : KeyRegistry) (path : StdString) : Option KeyEntry :=
  (registry.pathToId.lookup path).bind registry.byId.lookup

def hasKeyId (registry : KeyRegistry) (keyId : UInt32) : Bool :=
  (registry.byId.lookup keyId).isSome

def hasPath (registry : KeyRegistry) (path : StdString) : Bool :=
  (registry.pathToId.lookup path).isSome

def removeByKeyId (registry : KeyRegistry) (keyId : UInt32) : KeyRegistry × Bool :=
  match registry.byId.lookup keyId with
  | none => (registry, false)
  | some entry =>
      ({ registry with
          byId := registry.byId.erase keyId
          pathToId := registry.pathToId.erase entry.path }, true)

def paths [HashOrder StdString] (registry : KeyRegistry) : List StdString :=
  HashOrder.order.enumerate registry.pathToId.keys

def clear (registry : KeyRegistry) : KeyRegistry :=
  { registry with byId := ∅, pathToId := ∅, nextId := 1 }

end KeyRegistry

end DanWs.KeyPaths
