import DanWs.Replication
import DanWs.Sessions

namespace DanWs.SessionRows

open DanWs.FiniteMaps
open DanWs.FlatStates
open DanWs.KeyPaths
open DanWs.KeyStores
open DanWs.Replicas
open DanWs.Replication
open DanWs.Sessions
open DanWs.WireRows
open DanWs.WireTypes

def storeOf (session : Session) : Option StdString → Option FlatState
  | none => session.flatState
  | some name => (session.topicHandles.lookup name).map fun handle => handle.payload.flatState

def sources (session : Session) : Finset (Option StdString) :=
  insert none (session.topicHandles.keys.image some)

def sourceRows (session : Session) (source : Option StdString) : Finset WireRow :=
  ((storeOf session source).map rows).getD ∅

def sessionRows (session : Session) : Finset WireRow :=
  (sources session).biUnion (sourceRows session)

def otherRows (session : Session) (source : Option StdString) : Finset WireRow :=
  ((sources session).erase source).biUnion (sourceRows session)

section Rows

variable {session : Session}

theorem mem_sources {source : Option StdString} {flat : FlatState}
    (h : storeOf session source = some flat) : source ∈ sources session := by
  cases source with
  | none => exact Finset.mem_insert_self _ _
  | some name =>
      obtain ⟨handle, hhandle, _⟩ := Option.map_eq_some_iff.mp h
      apply Finset.mem_insert_of_mem
      exact Finset.mem_image_of_mem some (mem_keys_iff_lookup.mpr ⟨handle, hhandle⟩)

theorem mem_sourceRows {source : Option StdString} {row : WireRow} :
    row ∈ sourceRows session source ↔
      ∃ flat, storeOf session source = some flat ∧ row ∈ rows flat := by
  rw [sourceRows]
  cases storeOf session source <;> simp

theorem mem_sessionRows {row : WireRow} :
    row ∈ sessionRows session ↔
      ∃ source flat, storeOf session source = some flat ∧ row ∈ rows flat := by
  simp only [sessionRows, Finset.mem_biUnion, mem_sourceRows]
  constructor
  · rintro ⟨source, _, flat, hflat, hrow⟩
    exact ⟨source, flat, hflat, hrow⟩
  · rintro ⟨source, flat, hflat, hrow⟩
    exact ⟨source, mem_sources hflat, flat, hflat, hrow⟩

theorem mem_otherRows {source : Option StdString} {row : WireRow} :
    row ∈ otherRows session source ↔
      ∃ other flat, other ≠ source ∧ storeOf session other = some flat ∧ row ∈ rows flat := by
  simp only [otherRows, Finset.mem_biUnion, Finset.mem_erase, mem_sourceRows]
  constructor
  · rintro ⟨other, ⟨hne, _⟩, flat, hflat, hrow⟩
    exact ⟨other, flat, hne, hflat, hrow⟩
  · rintro ⟨other, flat, hne, hflat, hrow⟩
    exact ⟨other, ⟨hne, mem_sources hflat⟩, flat, hflat, hrow⟩

theorem sessionRows_eq_union {source : Option StdString} {flat : FlatState}
    (h : storeOf session source = some flat) :
    sessionRows session = rows flat ∪ otherRows session source := by
  ext row
  rw [mem_sessionRows, Finset.mem_union, mem_otherRows]
  constructor
  · rintro ⟨other, found, hfound, hrow⟩
    rcases eq_or_ne other source with rfl | hne
    · rw [h] at hfound
      obtain rfl := Option.some.inj hfound
      exact Or.inl hrow
    · exact Or.inr ⟨other, found, hne, hfound, hrow⟩
  · rintro (hrow | ⟨other, found, _, hfound, hrow⟩)
    · exact ⟨source, flat, h, hrow⟩
    · exact ⟨other, found, hfound, hrow⟩

theorem otherRows_congr {changed : Session} {source : Option StdString}
    (h : ∀ other ≠ source, storeOf changed other = storeOf session other) :
    otherRows changed source = otherRows session source := by
  ext row
  rw [mem_otherRows, mem_otherRows]
  constructor
  · rintro ⟨other, flat, hne, hflat, hrow⟩
    exact ⟨other, flat, hne, (h other hne).symm.trans hflat, hrow⟩
  · rintro ⟨other, flat, hne, hflat, hrow⟩
    exact ⟨other, flat, hne, (h other hne).trans hflat, hrow⟩

theorem mem_handles {handle : TopicHandle} :
    handle ∈ session.handles ↔ ∃ name, session.topicHandles.lookup name = some handle := by
  simp only [Session.handles, List.mem_map, Prod.exists, IterationOrder.mem_items]
  constructor
  · rintro ⟨name, _, hlookup, rfl⟩
    exact ⟨name, hlookup⟩
  · rintro ⟨name, hlookup⟩
    exact ⟨name, handle, hlookup, rfl⟩

theorem sessionRows_of_update {next : Session} {source : Option StdString} {flat : FlatState}
    (h : storeOf next = Function.update (storeOf session) source (some flat)) :
    storeOf next source = some flat ∧ otherRows next source = otherRows session source ∧
      sessionRows next = rows flat ∪ otherRows session source := by
  have hstore : storeOf next source = some flat := by rw [h, Function.update_self]
  have hothers : otherRows next source = otherRows session source :=
    otherRows_congr fun other hne => by rw [h, Function.update_of_ne hne]
  exact ⟨hstore, hothers, hothers ▸ sessionRows_eq_union hstore⟩

theorem sessionRows_of_silent {next : Session}
    (hkeep : ∀ source flat, storeOf session source = some flat → storeOf next source = some flat)
    (hnew : ∀ source flat, storeOf next source = some flat →
      storeOf session source = some flat ∨
        storeOf session source = none ∧ ∃ start, flat = FlatState.new start) :
    sessionRows next = sessionRows session := by
  ext row
  rw [mem_sessionRows, mem_sessionRows]
  constructor
  · rintro ⟨source, flat, hflat, hrow⟩
    rcases hnew source flat hflat with hold | ⟨_, start, rfl⟩
    · exact ⟨source, flat, hold, hrow⟩
    · cases hrow
  · rintro ⟨source, flat, hflat, hrow⟩
    exact ⟨source, flat, hkeep source flat hflat, hrow⟩

/-- What the client side has to accept: valid paths, each of them once, and no
more keys than a registry takes. -/
structure Announceable (rows : Finset WireRow) : Prop where
  valid : ∀ row ∈ rows, checkKeyPath row.path = .ok ()
  unique : UniquePaths rows
  fits : rows.card ≤ 10000

instance (rows : Finset WireRow) : Decidable (Announceable rows) :=
  decidable_of_iff
    ((∀ row ∈ rows, checkKeyPath row.path = .ok ()) ∧ UniquePaths rows ∧ rows.card ≤ 10000)
    ⟨fun ⟨valid, unique, fits⟩ => ⟨valid, unique, fits⟩, fun h => ⟨h.valid, h.unique, h.fits⟩⟩

end Rows

section Resync

variable [HashOrder StdString] {session : Session}

/-- The keys of a session in the order of its announcements. -/
def sessionWires (session : Session) (flat : FlatState) : List (StdString × Entry) :=
  wires flat ++ session.handles.flatMap fun handle => wires handle.payload.flatState

theorem wireRows_sessionWires {flat : FlatState} (h : session.flatState = some flat) :
    wireRows (sessionWires session flat) = sessionRows session := by
  have hwires : ∀ (store : FlatState) (row : WireRow),
      (∃ wire ∈ wires store, row = wireRow wire.1 wire.2) ↔ row ∈ rows store := by
    intro store row
    rw [← wireRows_wires, mem_wireRows]
  ext row
  rw [mem_wireRows, mem_sessionRows]
  simp only [sessionWires, List.mem_append, List.mem_flatMap]
  constructor
  · rintro ⟨wire, hwire | ⟨handle, hhandle, hwire⟩, hrow⟩
    · exact ⟨none, flat, h, (hwires flat row).mp ⟨wire, hwire, hrow⟩⟩
    · obtain ⟨name, hname⟩ := mem_handles.mp hhandle
      refine ⟨some name, handle.payload.flatState, ?_, (hwires _ row).mp ⟨wire, hwire, hrow⟩⟩
      rw [storeOf, hname]
      rfl
  · rintro ⟨source, found, hfound, hrow⟩
    obtain ⟨wire, hwire, hwireRow⟩ := (hwires found row).mpr hrow
    cases source with
    | none =>
        rw [storeOf, h] at hfound
        obtain rfl := Option.some.inj hfound
        exact ⟨wire, Or.inl hwire, hwireRow⟩
    | some name =>
        obtain ⟨handle, hhandle, rfl⟩ := Option.map_eq_some_iff.mp hfound
        exact ⟨wire, Or.inr ⟨handle, mem_handles.mpr ⟨name, hhandle⟩, hwire⟩, hwireRow⟩

theorem triggerSessionResync_eq {flat : FlatState} (h : session.flatState = some flat) :
    session.triggerSessionResync = announcement (sessionWires session flat) := by
  have hkeys : (session.handles.flatMap fun handle => handle.payload.flatState.buildKeyFrames) =
      registrationFrames
        (session.handles.flatMap fun handle => wires handle.payload.flatState) := by
    rw [registrationFrames, List.map_flatMap]
    simp only [buildKeyFrames_eq, registrationFrames]
  have hvalues :
      (session.handles.flatMap fun handle => handle.payload.flatState.buildValueFrames) =
        valueFrames (session.handles.flatMap fun handle => wires handle.payload.flatState) := by
    rw [valueFrames, List.map_flatMap]
    simp only [buildValueFrames_eq, valueFrames]
  rw [Session.triggerSessionResync, h]
  dsimp only
  rw [hkeys, hvalues, buildKeyFrames_eq, buildValueFrames_eq, sessionWires]
  simp only [announcement, registrationFrames, valueFrames, List.map_append, List.append_assoc]

theorem inSync_resync {flat : FlatState} (h : session.flatState = some flat)
    (hrows : Announceable (sessionRows session)) (hids : UniqueIds (sessionRows session))
    {keys : KeyStore} (hlimit : keys.registry.maxKeys = 10000) :
    InSync (keys.receive session.triggerSessionResync) (sessionRows session) := by
  have heq := wireRows_sessionWires h
  rw [triggerSessionResync_eq h, ← heq]
  rw [← heq] at hrows hids
  refine inSync_announcement keys ⟨hrows.unique, hids⟩ (hlimit ▸ hrows.fits) ?_
  exact fun wire hwire => hrows.valid _ (mem_wireRows.mpr ⟨wire, hwire, rfl⟩)

end Resync

end DanWs.SessionRows
