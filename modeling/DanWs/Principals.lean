import DanWs.FlatStates

/-!
The state shared by all sessions of a principal, and the table of principals.
The callbacks are explicit again: `set` and `clear(key)` return the frames for
`onValueSet_`, and `clear()` returns the key frames that the resync callback of
the server has built, if it was called.
-/

namespace DanWs.Principals

open DanWs.FiniteMaps
open DanWs.FlatStates
open DanWs.WireTypes

structure PrincipalTX where
  name : StdString
  nextKeyId : UInt32
  flatState : FlatState
  cachedKeyFrames : List Frame
  keyFramesCached : Bool
  /-- The server has bound its callbacks. -/
  bound : Bool

namespace PrincipalTX

def new (name : StdString) (bound : Bool) : PrincipalTX :=
  ⟨name, 1, FlatState.new [], [], false, bound⟩

def set (ptx : PrincipalTX) (key : StdString) (value : Payload) : PrincipalTX × List Frame :=
  let (flatState, nextKeyId, frames) := ptx.flatState.set ptx.nextKeyId key value
  ({ ptx with flatState, nextKeyId }, frames)

def get (ptx : PrincipalTX) (key : StdString) : Payload := ptx.flatState.get key

def clearKey (ptx : PrincipalTX) (key : StdString) : PrincipalTX × List Frame :=
  let (flatState, frames) := ptx.flatState.clearKey key
  ({ ptx with flatState }, frames)

section Iteration

variable [HashOrder StdString]

def keys (ptx : PrincipalTX) : List StdString := ptx.flatState.keys

/-- What `_buildKeyFrames` computes when nothing is cached. -/
def uncachedKeyFrames (ptx : PrincipalTX) : List Frame :=
  ptx.flatState.buildKeyFrames ++ [signalFrame .serverSync]

def buildKeyFrames (ptx : PrincipalTX) : PrincipalTX × List Frame :=
  if ptx.keyFramesCached then (ptx, ptx.cachedKeyFrames)
  else
    ({ ptx with cachedKeyFrames := ptx.uncachedKeyFrames, keyFramesCached := true },
      ptx.uncachedKeyFrames)

def buildValueFrames (ptx : PrincipalTX) : List Frame := ptx.flatState.buildValueFrames

/-- `triggerResync`. The callback bound by the server starts by building the
key frames again. -/
def triggerResync (ptx : PrincipalTX) : PrincipalTX × Option (List Frame) :=
  let dropped := { ptx with cachedKeyFrames := [], keyFramesCached := false }
  if dropped.bound then
    let (built, keyFrames) := dropped.buildKeyFrames
    (built, some keyFrames)
  else (dropped, none)

def clear (ptx : PrincipalTX) : PrincipalTX × Option (List Frame) :=
  let (flatState, resync) := ptx.flatState.clear
  let (cleared, keyFrames) :=
    if resync then { ptx with flatState }.triggerResync else ({ ptx with flatState }, none)
  ({ cleared with nextKeyId := 1 }, keyFrames)

end Iteration

end PrincipalTX

structure PrincipalManager where
  principals : FiniteMap StdString PrincipalTX
  sessionCounts : FiniteMap StdString Int
  /-- `onNewPrincipal_` is set, so new principals have their callbacks bound. -/
  onNewPrincipal : Bool

namespace PrincipalManager

def new (onNewPrincipal : Bool) : PrincipalManager := ⟨∅, ∅, onNewPrincipal⟩

def principal (manager : PrincipalManager) (name : StdString) :
    PrincipalManager × PrincipalTX :=
  match manager.principals.lookup name with
  | some ptx => (manager, ptx)
  | none =>
      let ptx := PrincipalTX.new name manager.onNewPrincipal
      ({ manager with principals := manager.principals.insert name ptx }, ptx)

/-- A change made through the reference `principal(name)` returned. -/
def store (manager : PrincipalManager) (name : StdString) (ptx : PrincipalTX) :
    PrincipalManager :=
  { manager with principals := manager.principals.insert name ptx }

def principalNames [HashOrder StdString] (manager : PrincipalManager) : List StdString :=
  ((HashOrder.order.items manager.sessionCounts).filter fun (_, count) => 0 < count).map Prod.fst

def addSession (manager : PrincipalManager) (principal : StdString) : PrincipalManager :=
  { manager with
    sessionCounts := manager.sessionCounts.insert principal
      ((manager.sessionCounts.lookup principal).getD 0 + 1) }

def removeSession (manager : PrincipalManager) (principal : StdString) :
    PrincipalManager × Bool :=
  match manager.sessionCounts.lookup principal with
  | none => (manager, true)
  | some count =>
      if count - 1 ≤ 0 then
        ({ manager with sessionCounts := manager.sessionCounts.erase principal }, true)
      else
        ({ manager with
            sessionCounts := manager.sessionCounts.insert principal (count - 1) }, false)

def hasActiveSessions (manager : PrincipalManager) (principal : StdString) : Bool :=
  match manager.sessionCounts.lookup principal with
  | none => false
  | some count => decide (0 < count)

end PrincipalManager

end DanWs.Principals
