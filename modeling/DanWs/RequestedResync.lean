import DanWs.KeyRequests
import DanWs.SessionRows

namespace DanWs.RequestedResync

open DanWs.ClientProgress
open DanWs.Clients
open DanWs.FiniteMaps
open DanWs.FlatStates
open DanWs.KeyFrameCache
open DanWs.KeyPaths
open DanWs.KeyRequests
open DanWs.KeyStores
open DanWs.Principals
open DanWs.Replicas
open DanWs.Replication
open DanWs.SessionRows
open DanWs.Sessions
open DanWs.StepRuns
open DanWs.WireRows
open DanWs.WireTypes

section Registries

/-- The keys of a registry are valid, and not more than it takes. -/
structure WithinLimits (registry : KeyRegistry) : Prop where
  valid : ∀ path id, registry.pathToId.lookup path = some id → checkKeyPath path = .ok ()
  fits : registry.byId.keys.card ≤ registry.maxKeys

variable {keys : KeyStore} {wires : List (StdString × Entry)}

theorem withinLimits_register (h : WithinLimits keys.registry) {wire : StdString × Entry}
    (hnew : keys.registry.pathToId.lookup wire.1 = none) :
    WithinLimits (keys.apply (registrationFrame wire.1 wire.2)).registry ∧
      ∀ path ≠ wire.1,
        (keys.apply (registrationFrame wire.1 wire.2)).registry.pathToId.lookup path =
          keys.registry.pathToId.lookup path := by
  simp only [KeyStore.apply, registrationFrame, KeyStore.register]
  split
  · exact ⟨h, fun _ _ => rfl⟩
  · next registered hregistered =>
      obtain ⟨hvalid, hroom, hbyId, hpathToId, hlimit⟩ := registerOne_ok hregistered
      rw [KeyStore.registry_applyPending]
      refine ⟨⟨fun path id hid => ?_, ?_⟩, fun path hne => ?_⟩
      · rw [hpathToId] at hid
        obtain ⟨heq, -⟩ | ⟨-, hid⟩ := lookup_of_lookup_insert hid
        · rwa [heq]
        · exact h.valid path id hid
      · rw [hbyId, hlimit, keys_insert]
        exact (Finset.card_insert_le _ _).trans (hroom hnew)
      · rw [hpathToId, Finmap.lookup_insert_of_ne _ hne]

theorem withinLimits_registrationFrames (h : WithinLimits keys.registry)
    (hnodup : (wires.map Prod.fst).Nodup)
    (hnew : ∀ wire ∈ wires, keys.registry.pathToId.lookup wire.1 = none) :
    WithinLimits (keys.receive (registrationFrames wires)).registry := by
  induction wires generalizing keys with
  | nil => exact h
  | cons wire wires ih =>
      rw [List.map_cons, List.nodup_cons] at hnodup
      obtain ⟨hnext, hsame⟩ := withinLimits_register h (hnew wire List.mem_cons_self)
      rw [registrationFrames, List.map_cons, KeyStore.receive_cons]
      refine ih hnext hnodup.2 fun other hother => ?_
      rw [hsame other.1 fun heq => hnodup.1 (heq ▸ List.mem_map_of_mem hother)]
      exact hnew other (List.mem_cons_of_mem _ hother)

theorem withinLimits_announcement (hnodup : (wires.map Prod.fst).Nodup) :
    WithinLimits (keys.receive (announcement wires)).registry := by
  have hreset : WithinLimits (keys.apply (signalFrame .serverReset)).registry := by
    refine ⟨fun path id hid => ?_, Nat.zero_le _⟩
    cases hid
  rw [announcement, KeyStore.receive_append, KeyStore.receive_append, KeyStore.receive_append,
    registry_valueFrames]
  exact withinLimits_registrationFrames hreset hnodup fun wire _ => rfl

theorem announceable_of_inSync {rows : Finset WireRow} (h : InSync keys rows)
    (hlimits : WithinLimits keys.registry) (hmax : keys.registry.maxKeys = 10000) :
    Announceable rows := by
  have hkeyed := h.mirrors.wellKeyed
  refine ⟨fun row hrow => ?_, hkeyed.path, ?_⟩
  · exact hlimits.valid row.path row.id ((h.names.idOf row.path row.id).mpr ⟨row, hrow, rfl, rfl⟩)
  · have hsub : rows.image Row.id ⊆ keys.registry.byId.keys := by
      intro id hid
      obtain ⟨row, hrow, rfl⟩ := Finset.mem_image.mp hid
      exact mem_keys_iff_lookup.mpr (lookup_byId_of_names h.names hrow)
    rw [← Finset.card_image_of_injOn fun row hrow other hother => hkeyed.id row hrow other hother]
    exact (Finset.card_le_card hsub).trans (hmax ▸ hlimits.fits)

end Registries

section Requests

variable [HashOrder StdString] {session : Session} {ptx : PrincipalTX}

def requested (session : Session) (ptx : PrincipalTX) : Outcome :=
  session.handleFrame (some ptx) (signalFrame .clientResyncReq)

/-- What the session sends on `ClientResyncReq` and on the `ClientReady` behind it. -/
def resyncFrames (session : Session) (ptx : PrincipalTX) : List Frame :=
  let answer := requested session ptx
  answer.frames ++
    (answer.session.handleFrame answer.tx (signalFrame .clientReady)).frames

/-- The request makes a client ask for the values, and get all keys and values. -/
structure Restores (session : Session) (ptx : PrincipalTX) : Prop where
  frames : resyncFrames session ptx = announcement (wires ptx.flatState)
  asks : ∀ client : Client,
    signalFrame .clientReady ∈ (client.receive (requested session ptx).frames).2
  copies : ∀ client : Client, client.registry.maxKeys = 10000 →
    ReadyCopy (client.receive (resyncFrames session ptx)).1 (rows ptx.flatState)

theorem resyncFrames_eq (session : Session) (ptx : PrincipalTX) :
    resyncFrames session ptx = signalFrame .serverReset :: ptx.buildKeyFrames.2 ++
      if session.state = .ready then [] else valueFrames (wires ptx.flatState) := by
  have hvalues := buildValueFrames_buildKeyFrames ptx
  have hanswer : requested session ptx =
      ⟨session, some ptx.buildKeyFrames.1, signalFrame .serverReset :: ptx.buildKeyFrames.2,
        false⟩ := rfl
  rw [resyncFrames, hanswer]
  simp only [Session.handleFrame, signalFrame]
  split
  · rfl
  · split <;> rw [← hvalues] <;> rfl

def CachesKeys (ptx : PrincipalTX) : Prop :=
  ∀ frame ∈ ptx.cachedKeyFrames, frame.frameType ≠ .serverValue

theorem uncachedKeyFrames_ne_value (ptx : PrincipalTX) :
    ∀ frame ∈ ptx.uncachedKeyFrames, frame.frameType ≠ .serverValue := by
  intro frame hframe
  rw [uncachedKeyFrames_eq, List.mem_append, List.mem_singleton] at hframe
  rcases hframe with hframe | rfl
  · obtain ⟨wire, _, rfl⟩ := List.mem_map.mp hframe
    exact FrameType.noConfusion
  · exact FrameType.noConfusion

theorem cachesKeys_buildKeyFrames (h : CachesKeys ptx) :
    CachesKeys ptx.buildKeyFrames.1 ∧
      ∀ frame ∈ ptx.buildKeyFrames.2, frame.frameType ≠ .serverValue := by
  rw [PrincipalTX.buildKeyFrames]
  split
  · exact ⟨h, h⟩
  · exact ⟨uncachedKeyFrames_ne_value ptx, uncachedKeyFrames_ne_value ptx⟩

theorem cachesKeys_apply (h : CachesKeys ptx) (operation : Operation) :
    CachesKeys (apply ptx operation) := by
  cases operation with
  | set key value => exact h
  | clearKey key => exact h
  | clear =>
      rw [apply, PrincipalTX.clear]
      dsimp only
      split
      · rw [PrincipalTX.triggerResync]
        dsimp only
        have hdropped : CachesKeys { ptx with
            flatState := ptx.flatState.clear.1
            cachedKeyFrames := []
            keyFramesCached := false } := fun frame hframe => absurd hframe List.not_mem_nil
        split
        · exact (cachesKeys_buildKeyFrames hdropped).1
        · exact hdropped
      · exact h
  | buildKeyFrames => exact (cachesKeys_buildKeyFrames h).1

theorem cachesKeys_run (name : StdString) (bound : Bool) (operations : List Operation) :
    CachesKeys (run apply (PrincipalTX.new name bound) operations) := by
  have hnew : CachesKeys (PrincipalTX.new name bound) := by simp [CachesKeys, PrincipalTX.new]
  generalize PrincipalTX.new name bound = ptx at hnew
  induction operations generalizing ptx with
  | nil => exact hnew
  | cons operation operations ih => exact ih _ (cachesKeys_apply hnew operation)

theorem exists_wire {flat : FlatState} (h : flat.entries ≠ ∅) : ∃ wire, wire ∈ wires flat := by
  by_contra hnone
  refine h (Finmap.ext_lookup fun key => ?_)
  rw [Finmap.lookup_empty, Option.eq_none_iff_forall_ne_some]
  exact fun entry hentry => hnone ⟨(flat.wirePath key, entry),
    (mem_wires flat).mpr ⟨key, hentry, rfl⟩⟩

/-- The frames are a full announcement if the session gets the `ClientReady`
before it is `Ready`, and the key frames are up to date. -/
theorem resyncFrames_eq_announcement_iff (hcaches : CachesKeys ptx)
    (hentries : ptx.flatState.entries ≠ ∅) :
    resyncFrames session ptx = announcement (wires ptx.flatState) ↔
      session.state ≠ .ready ∧ BuildsExactly ptx := by
  have hannouncement : announcement (wires ptx.flatState) =
      signalFrame .serverReset :: ptx.uncachedKeyFrames ++ valueFrames (wires ptx.flatState) := by
    rw [uncachedKeyFrames_eq, announcement]
    simp
  rw [resyncFrames_eq, hannouncement]
  by_cases hready : session.state = .ready
  · rw [if_pos hready, List.append_nil]
    refine iff_of_false (fun heq => ?_) fun h => h.1 hready
    obtain ⟨wire, hwire⟩ := exists_wire hentries
    have hvalue : FlatState.valueFrame wire.2 ∈ ptx.buildKeyFrames.2 := by
      have hmem :
          FlatState.valueFrame wire.2 ∈ signalFrame .serverReset :: ptx.buildKeyFrames.2 := by
        rw [heq]
        exact List.mem_append_right _ (List.mem_map_of_mem hwire)
      exact (List.mem_cons.mp hmem).resolve_left fun hne => by
        have := congrArg Frame.frameType hne
        cases this
    exact (cachesKeys_buildKeyFrames hcaches).2 _ hvalue rfl
  · rw [if_neg hready, List.append_left_inj, List.cons_inj_right]
    exact (and_iff_right hready).symm

/-- A resync request brings back all keys and values if and only if it comes
before the session is `Ready`, and what is announced is current and acceptable. -/
theorem restores_iff {name : StdString} {bound : Bool} {operations : List Operation}
    (hptx : ptx = run apply (PrincipalTX.new name bound) operations)
    (hentries : ptx.flatState.entries ≠ ∅)
    (hstate : session.state = .synchronizing ∨ session.state = .ready) :
    Restores session ptx ↔
      session.state = .synchronizing ∧ BuildsExactly ptx ∧
        Announceable (rows ptx.flatState) ∧ UniqueIds (rows ptx.flatState) := by
  have hcaches : CachesKeys ptx := hptx ▸ cachesKeys_run name bound operations
  have hframes : resyncFrames session ptx = announcement (wires ptx.flatState) ↔
      session.state ≠ .ready ∧ BuildsExactly ptx :=
    resyncFrames_eq_announcement_iff hcaches hentries
  have hrows : wireRows (wires ptx.flatState) = rows ptx.flatState := wireRows_wires _
  constructor
  · intro h
    obtain ⟨hne, hexact⟩ := hframes.mp h.frames
    have hcopy := h.copies Client.new rfl
    rw [h.frames] at hcopy
    have hsync := hcopy.inSync
    refine ⟨hstate.resolve_right hne, hexact, ?_, hsync.mirrors.wellKeyed.id⟩
    rw [keyStore_receive Client.new (isSyncFrame_announcement _)] at hsync
    exact announceable_of_inSync hsync (withinLimits_announcement (nodup_wires _))
      (maxKeys_receive _ _)
  · rintro ⟨hsynchronizing, hexact, hannounceable, hids⟩
    have hne : session.state ≠ .ready := by
      rw [hsynchronizing]
      exact SessionState.noConfusion
    have hall := hframes.mpr ⟨hne, hexact⟩
    refine ⟨hall, fun client => ?_, fun client hmax => ?_⟩
    · have hanswer : (requested session ptx).frames =
          signalFrame .serverReset :: ptx.buildKeyFrames.2 := rfl
      rw [hanswer, hexact, uncachedKeyFrames_eq]
      exact clientReady_mem_sent client _
    · rw [hall, ← hrows]
      rw [← hrows] at hannounceable hids
      exact readyCopy_announcement client ⟨hannounceable.unique, hids⟩
        (hannounceable.fits.trans hmax.ge)
        fun wire hwire => hannounceable.valid _ (mem_wireRows.mpr ⟨wire, hwire, rfl⟩)

end Requests

section Example

local instance stringOrder : HashOrder StdString := HashOrder.ascending StdString

def oneKey : PrincipalTX :=
  run apply (PrincipalTX.new (str "p") true) [.set (str "a") (.int32 1)]

def waiting : Session := ((Session.new (str "u")).startSync (some oneKey)).session

theorem restores_iff_waiting :
    Restores waiting oneKey ↔
      waiting.state = .synchronizing ∧ BuildsExactly oneKey ∧
        Announceable (rows oneKey.flatState) ∧ UniqueIds (rows oneKey.flatState) :=
  restores_iff rfl (by decide +kernel) (Or.inl rfl)

/-- A `Ready` session passes over the `ClientReady`, and the client gets no values. -/
theorem not_restores :
    ¬ ∀ (_ : HashOrder StdString) (name : StdString) (operations : List Operation)
      (session : Session) (ptx : PrincipalTX),
      ptx = run apply (PrincipalTX.new name true) operations → ptx.flatState.entries ≠ ∅ →
      session.state = .synchronizing ∨ session.state = .ready → Restores session ptx := by
  intro h
  let session := (waiting.handleFrame (some oneKey) (signalFrame .clientReady)).session
  have hrestores := h stringOrder (str "p") [.set (str "a") (.int32 1)] session oneKey rfl
    (by decide +kernel) (Or.inr rfl)
  have hshort : (resyncFrames session oneKey).length = 3 := by decide +kernel
  rw [hrestores.frames] at hshort
  exact absurd hshort (by decide +kernel)

end Example

end DanWs.RequestedResync
