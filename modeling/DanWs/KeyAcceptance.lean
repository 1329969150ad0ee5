import DanWs.KeyRequests

namespace DanWs.KeyAcceptance

open DanWs.Clients
open DanWs.FiniteMaps
open DanWs.FlatStates
open DanWs.KeyPaths
open DanWs.KeyRequests
open DanWs.KeyStores
open DanWs.Replicas
open DanWs.Replication
open DanWs.StepRuns
open DanWs.WireRows
open DanWs.WireTypes

/-- `registerOne` takes the key of a registration frame. -/
def Registers (registry : KeyRegistry) (frame : Frame) : Prop :=
  ∃ path registered, frame.payload = .string path ∧
    registry.registerOne frame.keyId path frame.dataType = .ok registered

/-- Each registration is accepted by a client that has processed all frames
before it. -/
def AcceptsRegistrations (client : Client) (frames : List Frame) : Prop :=
  ∀ before frame, before ++ [frame] <+: frames → frame.frameType = .serverKeyRegistration →
    Registers (client.receive before).1.registry frame

/-- The keys on the wire are valid, and within the limit of a client. -/
structure Acceptable (rows : Finset WireRow) : Prop where
  valid : ∀ row ∈ rows, checkKeyPath row.path = .ok ()
  fits : rows.card ≤ 10000

instance (rows : Finset WireRow) : Decidable (Acceptable rows) :=
  decidable_of_iff ((∀ row ∈ rows, checkKeyPath row.path = .ok ()) ∧ rows.card ≤ 10000)
    ⟨fun ⟨valid, fits⟩ => ⟨valid, fits⟩, fun h => ⟨h.valid, h.fits⟩⟩

/-- A client that knows live keys would accept a value of the key: its path is
valid, and it is not a new key beyond the limit. -/
def Accommodates (rows : Finset WireRow) (flat : FlatState) (key : StdString) : Prop :=
  checkKeyPath (flat.wirePath key) = .ok () ∧
    (flat.entries.lookup key = none → rows.card < 10000)

instance (rows : Finset WireRow) (flat : FlatState) (key : StdString) :
    Decidable (Accommodates rows flat key) :=
  inferInstanceAs (Decidable (_ ∧ _))

/-- All ids in the registry are live. -/
structure KnowsOnly (registry : KeyRegistry) (rows : Finset WireRow) : Prop where
  live : ∀ id entry, registry.byId.lookup id = some entry → ∃ row ∈ rows, row.id = id
  limit : registry.maxKeys = 10000

/-- A client that knows live keys only gets any of them by asking once. -/
def AnswersRequests (rows : Finset WireRow) (serve : Frame → List Frame) : Prop :=
  ∀ (client : Client) (row : WireRow), row ∈ rows → KnowsOnly client.registry rows →
    (∃ entry, (client.receive (serve (Client.keyRequestFrame row.id))).1.registry.byId.lookup
        row.id = some entry) ∧
      row.id ∉ requestsIn (client.receive (serve (Client.keyRequestFrame row.id))).2

/-- The same as `AcceptsRegistrations`, on the keys of the client. -/
def Accepts (keys : KeyStore) : List Frame → Prop
  | [] => True
  | frame :: frames =>
      (frame.frameType = .serverKeyRegistration → Registers keys.registry frame) ∧
        Accepts (keys.apply frame) frames

section Frames

variable {keys : KeyStore}

theorem accepts_append (keys : KeyStore) (first second : List Frame) :
    Accepts keys (first ++ second) ↔
      Accepts keys first ∧ Accepts (keys.receive first) second := by
  induction first generalizing keys with
  | nil => simp [Accepts]
  | cons frame first ih => rw [List.cons_append, Accepts, Accepts, ih, and_assoc]; rfl

theorem acceptsRegistrations_of_accepts {client : Client} {frames : List Frame}
    (hsync : ∀ frame ∈ frames, isSyncFrame frame) (h : Accepts (keyStore client) frames) :
    AcceptsRegistrations client frames := by
  rintro before frame ⟨rest, rfl⟩ htype
  rw [List.append_assoc, accepts_append] at h
  have hbefore : ∀ frame ∈ before, isSyncFrame frame :=
    fun frame hframe => hsync frame (by simp [hframe])
  have hkeys := keyStore_receive client hbefore
  have haccepted := h.2.1 htype
  rw [← hkeys] at haccepted
  exact haccepted

/-- A valid key is registered if its path is known or there is room. -/
theorem registers_of_room {path : StdString} {entry : Entry} (hvalid : checkKeyPath path = .ok ())
    (hroom : keys.registry.pathToId.lookup path = none →
      keys.registry.byId.keys.card < keys.registry.maxKeys) :
    Registers keys.registry (WireRows.registrationFrame path entry) ∧
      ∃ registered, (keys.apply (WireRows.registrationFrame path entry)).registry = registered ∧
        registered.byId = keys.registry.byId.insert entry.keyId ⟨path, entry.type, entry.keyId⟩ ∧
        registered.pathToId = keys.registry.pathToId.insert path entry.keyId ∧
        registered.maxKeys = keys.registry.maxKeys := by
  obtain ⟨registered, hregistered⟩ := exists_registerOne hvalid hroom entry.keyId entry.type
  refine ⟨⟨path, registered, rfl, hregistered⟩, registered, ?_, (registerOne_ok hregistered).2.2⟩
  rw [apply_registrationFrame hregistered, KeyStore.registry_applyPending]

theorem accepts_valueFrames (keys : KeyStore) (wires : List (StdString × Entry)) :
    Accepts keys (valueFrames wires) := by
  induction wires generalizing keys with
  | nil => trivial
  | cons wire wires ih =>
      rw [valueFrames, List.map_cons]
      exact ⟨fun htype => FrameType.noConfusion htype, ih _⟩

end Frames

section Rooms

variable {keys : KeyStore} {registry : KeyRegistry} {rows base : Finset WireRow} {row : WireRow}

theorem KnowsOnly.mono (h : KnowsOnly registry base) (hsub : base ⊆ rows) :
    KnowsOnly registry rows where
  live id entry hentry := by
    obtain ⟨row, hrow, hid⟩ := h.live id entry hentry
    exact ⟨row, hsub hrow, hid⟩
  limit := h.limit

theorem card_le_of_knowsOnly (h : KnowsOnly registry rows) :
    registry.byId.keys.card ≤ rows.card := by
  have hsub : registry.byId.keys ⊆ rows.image Row.id := by
    intro id hid
    obtain ⟨entry, hentry⟩ := mem_keys_iff_lookup.mp hid
    obtain ⟨row, hrow, rfl⟩ := h.live id entry hentry
    exact Finset.mem_image_of_mem _ hrow
  exact (Finset.card_le_card hsub).trans Finset.card_image_le

theorem card_lt_of_unknown (h : KnowsOnly registry rows) (hfits : rows.card ≤ 10000)
    (hrow : row ∈ rows) (hunknown : registry.byId.lookup row.id = none) :
    registry.byId.keys.card < registry.maxKeys := by
  have hothers : KnowsOnly registry (rows.erase row) := by
    refine ⟨fun id entry hentry => ?_, h.limit⟩
    obtain ⟨other, hother, rfl⟩ := h.live id entry hentry
    refine ⟨other, Finset.mem_erase.mpr ⟨?_, hother⟩, rfl⟩
    rintro rfl
    rw [hunknown] at hentry
    cases hentry
  calc
    registry.byId.keys.card ≤ (rows.erase row).card := card_le_of_knowsOnly hothers
    _ < rows.card := Finset.card_erase_lt_of_mem hrow
    _ ≤ registry.maxKeys := hfits.trans h.limit.ge

theorem knowsOnly_insert {registered : KeyRegistry} {entry : KeyEntry}
    (h : KnowsOnly registry rows) (hrow : row ∈ rows)
    (hbyId : registered.byId = registry.byId.insert row.id entry)
    (hlimit : registered.maxKeys = registry.maxKeys) : KnowsOnly registered rows where
  live id held hheld := by
    rw [hbyId] at hheld
    obtain ⟨heq, -⟩ | ⟨-, hheld⟩ := lookup_of_lookup_insert hheld
    · exact ⟨row, hrow, heq.symm⟩
    · exact h.live id held hheld
  limit := hlimit.trans h.limit

theorem knowsOnly_replace {old : WireRow} (h : KnowsOnly registry rows) (hid : row.id = old.id) :
    KnowsOnly registry (insert row (rows.erase old)) where
  live id entry hentry := by
    obtain ⟨other, hother, rfl⟩ := h.live id entry hentry
    rcases eq_or_ne other old with rfl | hne
    · exact ⟨row, Finset.mem_insert_self _ _, hid⟩
    · exact ⟨other, Finset.mem_insert_of_mem (Finset.mem_erase.mpr ⟨hne, hother⟩), rfl⟩
  limit := h.limit

theorem accepts_answer (h : KnowsOnly keys.registry base) {path : StdString} {entry : Entry}
    (hsub : base ⊆ rows) (hrow : wireRow path entry ∈ rows)
    (hnew : ∀ row ∈ base, row.id ≠ entry.keyId) (hacceptable : Acceptable rows) :
    Accepts keys (answer (path, entry)) ∧
      KnowsOnly (keys.receive (answer (path, entry))).registry rows := by
  have hunknown : keys.registry.byId.lookup (wireRow path entry).id = none := by
    rw [Option.eq_none_iff_forall_ne_some]
    intro held hheld
    obtain ⟨row, hmem, hid⟩ := h.live _ held hheld
    exact hnew row hmem hid
  have hknows := h.mono hsub
  obtain ⟨hregisters, registered, hregistered, hbyId, _, hlimit⟩ :=
    registers_of_room (hacceptable.valid _ hrow)
      fun _ => card_lt_of_unknown hknows hacceptable.fits hrow hunknown
  have hnext := knowsOnly_insert hknows hrow hbyId hlimit
  refine ⟨⟨fun _ => hregisters, fun htype => FrameType.noConfusion htype,
    fun htype => FrameType.noConfusion htype, trivial⟩, ?_⟩
  rw [answer, KeyStore.receive_cons, KeyStore.receive_cons, KeyStore.receive_cons, apply_sync,
    KeyStore.receive_nil]
  have hregistry : ((keys.apply (WireRows.registrationFrame path entry)).apply
      (FlatState.valueFrame entry)).registry = registered :=
    (KeyStore.registry_storeValue _ _).trans hregistered
  rw [hregistry]
  exact hnext

/-- A client that knows live keys only gets what it asks for, and does not ask again. -/
theorem answered (client : Client) (h : KnowsOnly client.registry rows)
    (hacceptable : Acceptable rows) {wire : StdString × Entry}
    (hrow : wireRow wire.1 wire.2 ∈ rows) :
    (∃ entry, (client.receive (answer wire)).1.registry.byId.lookup wire.2.keyId = some entry) ∧
      requestsIn (client.receive (answer wire)).2 = [] := by
  have hsync := isSyncFrame_answer wire
  have hregistry : (client.receive (answer wire)).1.registry =
      ((keyStore client).receive (answer wire)).registry :=
    congrArg KeyStore.registry (keyStore_receive client hsync)
  rw [(sent_receive client hsync).1, hregistry]
  by_cases hroom : (keyStore client).registry.pathToId.lookup wire.1 = none →
      (keyStore client).registry.byId.keys.card < (keyStore client).registry.maxKeys
  · obtain ⟨entry, _, hbyId, _, _, _, hnone⟩ := receive_answer (hacceptable.valid _ hrow) hroom
    exact ⟨⟨entry, by rw [hbyId, Finmap.lookup_insert]⟩, hnone⟩
  · rw [Classical.not_imp, not_lt] at hroom
    obtain ⟨hsame, hasks⟩ := receive_answer_rejected hroom.1 hroom.2
    have hknown : client.registry.byId.lookup wire.2.keyId ≠ none := by
      intro hunknown
      exact absurd (card_lt_of_unknown h hacceptable.fits hrow hunknown) (Nat.not_lt.mpr hroom.2)
    rw [hsame, hasks, asks, if_neg fun hasked => hknown hasked.2]
    exact ⟨Option.ne_none_iff_exists'.mp hknown, rfl⟩

theorem answersRequests_of_answer (hacceptable : Acceptable rows) {serve : Frame → List Frame}
    (hserve : ∀ row ∈ rows, ∃ wire : StdString × Entry, wireRow wire.1 wire.2 = row ∧
      serve (Client.keyRequestFrame row.id) = answer wire) : AnswersRequests rows serve := by
  intro client row hrow hknows
  obtain ⟨wire, rfl, hanswer⟩ := hserve row hrow
  obtain ⟨hknown, hnone⟩ := answered client hknows hacceptable hrow
  rw [hanswer, hnone]
  exact ⟨hknown, List.not_mem_nil⟩

end Rooms

section Changes

variable {keys : KeyStore} {flat : FlatState} {nextKeyId : UInt32} {key : StdString}
  {value : Payload} {others : Finset WireRow}

theorem knowsOnly_delete {rows : Finset WireRow} {row : WireRow}
    (h : KnowsOnly keys.registry rows) (hrow : row ∈ rows) :
    KnowsOnly (keys.apply (FlatState.deleteFrame row.id)).registry (rows.erase row) := by
  refine ⟨fun id entry hentry => ?_, (maxKeys_apply _ _).trans h.limit⟩
  have hkept : id ≠ row.id ∧ keys.registry.byId.lookup id = some entry := by
    simp only [KeyStore.apply, FlatState.deleteFrame, KeyStore.delete,
      KeyRegistry.removeByKeyId] at hentry
    split at hentry
    · next hunknown =>
        refine ⟨?_, hentry⟩
        rintro rfl
        rw [hunknown] at hentry
        cases hentry
    · exact lookup_of_lookup_erase hentry
  obtain ⟨other, hother, rfl⟩ := h.live id entry hkept.2
  refine ⟨other, Finset.mem_erase.mpr ⟨?_, hother⟩, rfl⟩
  rintro rfl
  exact hkept.1 rfl

theorem accepts_entryFrames {base : Finset WireRow} {entry : Entry}
    (h : KnowsOnly keys.registry base) (hnew : wireRow (flat.wirePath key) entry ∉ base)
    (hids : UniqueIds (insert (wireRow (flat.wirePath key) entry) base))
    (hacceptable : Acceptable (insert (wireRow (flat.wirePath key) entry) base)) :
    Accepts keys (flat.entryFrames key entry) ∧
      KnowsOnly (keys.receive (flat.entryFrames key entry)).registry
        (insert (wireRow (flat.wirePath key) entry) base) := by
  have hself := Finset.mem_insert_self (wireRow (flat.wirePath key) entry) base
  refine accepts_answer h (Finset.subset_insert _ _) hself (fun row hrow hid => ?_) hacceptable
  rw [hids row (Finset.mem_insert_of_mem hrow) _ hself hid] at hrow
  exact hnew hrow

/-- Another key in the place of an old one, or a new one where there is room. -/
theorem acceptable_insert {base rows : Finset WireRow} {row : WireRow} (hsub : base ⊆ rows)
    (h : Acceptable rows) (hvalid : checkKeyPath row.path = .ok ()) (hroom : base.card < 10000) :
    Acceptable (insert row base) where
  valid other hother := by
    rcases Finset.mem_insert.mp hother with rfl | hother
    · exact hvalid
    · exact h.valid other (hsub hother)
  fits := (Finset.card_insert_le _ _).trans hroom

theorem acceptable_set (h : Acceptable (rows flat ∪ others))
    (hdisjoint : Disjoint (rows flat) others)
    (haccommodates : Accommodates (rows flat ∪ others) flat key) :
    Acceptable (rows (flat.set nextKeyId key value).1 ∪ others) := by
  cases hold : flat.entries.lookup key with
  | none =>
      rw [rows_set_new hold, Finset.insert_union]
      exact acceptable_insert subset_rfl h haccommodates.1 (haccommodates.2 hold)
  | some old =>
      have hrow := Finset.mem_union_left others (wireRow_mem_rows hold)
      have hroom := (Finset.card_erase_lt_of_mem hrow).trans_le h.fits
      rcases eq_or_ne old.type (detectDataType value) with htype | htype
      · rw [rows_set_same hold htype, Finset.insert_union,
          erase_union hdisjoint (wireRow_mem_rows hold)]
        exact acceptable_insert (Finset.erase_subset _ _) h haccommodates.1 hroom
      · rw [rows_set_retyped hold htype, Finset.insert_union,
          erase_union hdisjoint (wireRow_mem_rows hold)]
        exact acceptable_insert (Finset.erase_subset _ _) h haccommodates.1 hroom

theorem Acceptable.mono {rows larger : Finset WireRow} (h : Acceptable larger)
    (hsub : rows ⊆ larger) : Acceptable rows where
  valid row hrow := h.valid row (hsub hrow)
  fits := (Finset.card_le_card hsub).trans h.fits

theorem accepts_set (h : KnowsOnly keys.registry (rows flat ∪ others))
    (hbefore : Disjoint (rows flat) others)
    (hafter : Disjoint (rows (flat.set nextKeyId key value).1) others)
    (hids : UniqueIds (rows (flat.set nextKeyId key value).1 ∪ others))
    (hacceptable : Acceptable (rows (flat.set nextKeyId key value).1 ∪ others)) :
    Accepts keys (flat.set nextKeyId key value).2.2 ∧
      KnowsOnly (keys.receive (flat.set nextKeyId key value).2.2).registry
        (rows (flat.set nextKeyId key value).1 ∪ others) := by
  cases hold : flat.entries.lookup key with
  | none =>
      rw [rows_set_new hold, Finset.disjoint_insert_left] at hafter
      rw [rows_set_new hold, Finset.insert_union] at hids hacceptable ⊢
      rw [frames_set_new hold]
      refine accepts_entryFrames h (fun hmem => ?_) hids hacceptable
      exact (Finset.mem_union.mp hmem).elim (fun hrow => notMem_rows hold hrow rfl) hafter.1
  | some old =>
      have hrow : wireRow (flat.wirePath key) old ∈ rows flat := wireRow_mem_rows hold
      rcases eq_or_ne old.type (detectDataType value) with htype | htype
      · rw [rows_set_same hold htype, Finset.insert_union, erase_union hbefore hrow,
          frames_set_same hold htype]
        refine ⟨⟨fun htype => FrameType.noConfusion htype, trivial⟩, ?_⟩
        have hregistry : (keys.apply (FlatState.valueFrame { old with value })).registry =
            keys.registry := KeyStore.registry_storeValue keys _
        rw [KeyStore.receive_cons, KeyStore.receive_nil, hregistry]
        exact knowsOnly_replace h rfl
      · rw [rows_set_retyped hold htype, Finset.disjoint_insert_left] at hafter
        rw [rows_set_retyped hold htype, Finset.insert_union, erase_union hbefore hrow]
          at hids hacceptable ⊢
        have hdeleted := knowsOnly_delete h (Finset.mem_union_left others hrow)
        rw [frames_set_retyped hold htype, KeyStore.receive_cons]
        have hnext := accepts_entryFrames hdeleted (fun hmem => ?_) hids hacceptable
        · exact ⟨⟨fun htype => FrameType.noConfusion htype, hnext.1⟩, hnext.2⟩
        · obtain ⟨hne, hmem⟩ := Finset.mem_erase.mp hmem
          rcases Finset.mem_union.mp hmem with hmem | hmem
          · exact hne (uniquePaths_rows flat _ hmem _ hrow rfl)
          · exact hafter.1 hmem

theorem accepts_clearKey (h : KnowsOnly keys.registry (rows flat ∪ others))
    (hdisjoint : Disjoint (rows flat) others) :
    Accepts keys (flat.clearKey key).2 ∧
      KnowsOnly (keys.receive (flat.clearKey key).2).registry
        (rows (flat.clearKey key).1 ∪ others) := by
  cases hold : flat.entries.lookup key with
  | none =>
      have hsame : flat.clearKey key = (flat, []) := by rw [FlatState.clearKey, hold]
      rw [hsame]
      exact ⟨trivial, h⟩
  | some old =>
      have hrow : wireRow (flat.wirePath key) old ∈ rows flat := wireRow_mem_rows hold
      rw [rows_clearKey hold, erase_union hdisjoint hrow, frames_clearKey hold]
      exact ⟨⟨fun htype => FrameType.noConfusion htype, trivial⟩,
        knowsOnly_delete h (Finset.mem_union_left others hrow)⟩

end Changes

section Announcements

variable {keys : KeyStore} {named all : Finset WireRow}

/-- The client has been told of some keys of an announcement, and knows their paths. -/
structure Told (registry : KeyRegistry) (named : Finset WireRow) : Prop
    extends KnowsOnly registry named where
  paths : ∀ row ∈ named, ∃ id, registry.pathToId.lookup row.path = some id

theorem accepts_registrationFrames {wires : List (StdString × Entry)}
    (hacceptable : Acceptable all) (hsub : named ∪ wireRows wires ⊆ all)
    (h : Told keys.registry named) :
    Accepts keys (registrationFrames wires) ∧
      Told (keys.receive (registrationFrames wires)).registry (named ∪ wireRows wires) := by
  induction wires generalizing keys named with
  | nil =>
      rw [show wireRows [] = ∅ from rfl, Finset.union_empty]
      exact ⟨trivial, h⟩
  | cons wire wires ih =>
      rw [union_wireRows_cons] at hsub ⊢
      have hself := Finset.mem_insert_self (wireRow wire.1 wire.2) named
      have hnamed := Finset.union_subset_left hsub
      have hroom : keys.registry.pathToId.lookup wire.1 = none →
          keys.registry.byId.keys.card < keys.registry.maxKeys := by
        intro hnone
        have hnew : wireRow wire.1 wire.2 ∉ named := by
          intro hmem
          obtain ⟨id, hid⟩ := h.paths _ hmem
          exact absurd (hnone.symm.trans hid) (Option.some_ne_none id).symm
        calc
          keys.registry.byId.keys.card ≤ named.card := card_le_of_knowsOnly h.toKnowsOnly
          _ < (insert (wireRow wire.1 wire.2) named).card := by
              rw [Finset.card_insert_of_notMem hnew]
              exact Nat.lt_succ_self _
          _ ≤ all.card := Finset.card_le_card hnamed
          _ ≤ keys.registry.maxKeys := hacceptable.fits.trans h.limit.ge
      obtain ⟨hregisters, registered, hregistered, hbyId, hpathToId, hlimit⟩ :=
        registers_of_room (hacceptable.valid _ (hnamed hself)) hroom
      have hnext : Told registered (insert (wireRow wire.1 wire.2) named) := by
        refine ⟨knowsOnly_insert (h.mono (Finset.subset_insert _ _)) hself hbyId hlimit, ?_⟩
        intro row hrow
        rw [hpathToId, lookup_insert_eq_ite]
        split
        · exact ⟨_, rfl⟩
        · next hne =>
            refine h.paths row ((Finset.mem_insert.mp hrow).resolve_left ?_)
            rintro rfl
            exact hne rfl
      rw [← hregistered] at hnext
      obtain ⟨haccepts, htold⟩ := ih hsub hnext
      exact ⟨⟨fun _ => hregisters, haccepts⟩, htold⟩

theorem accepts_keysAndValues {wires : List (StdString × Entry)}
    (hempty : keys.registry.byId = ∅) (hlimit : keys.registry.maxKeys = 10000)
    (hacceptable : Acceptable (wireRows wires)) :
    Accepts keys (registrationFrames wires ++ [signalFrame .serverSync] ++ valueFrames wires) ∧
      KnowsOnly (keys.receive (registrationFrames wires ++ [signalFrame .serverSync] ++
        valueFrames wires)).registry (wireRows wires) := by
  have hstart : Told keys.registry ∅ := by
    refine ⟨⟨fun id entry hentry => ?_, hlimit⟩, fun row hrow => ?_⟩
    · rw [hempty] at hentry
      cases hentry
    · exact absurd hrow (Finset.notMem_empty row)
  obtain ⟨hkeys, htold⟩ :=
    accepts_registrationFrames hacceptable (Finset.empty_union _).subset hstart
  rw [Finset.empty_union] at htold
  have hsynced : keys.receive (registrationFrames wires ++ [signalFrame .serverSync]) =
      keys.receive (registrationFrames wires) := by
    rw [KeyStore.receive_append]
    rfl
  rw [KeyStore.receive_append, accepts_append, accepts_append, hsynced, registry_valueFrames]
  exact ⟨⟨⟨hkeys, fun htype => FrameType.noConfusion htype, trivial⟩, accepts_valueFrames _ wires⟩,
    htold.toKnowsOnly⟩

theorem accepts_announcement {wires : List (StdString × Entry)}
    (hlimit : keys.registry.maxKeys = 10000) (hacceptable : Acceptable (wireRows wires)) :
    Accepts keys (announcement wires) ∧
      KnowsOnly (keys.receive (announcement wires)).registry (wireRows wires) := by
  have hreset : (keys.apply (signalFrame .serverReset)).registry.maxKeys = 10000 := hlimit
  obtain ⟨haccepts, hknows⟩ := accepts_keysAndValues rfl hreset hacceptable
  rw [announcement, List.append_assoc, List.append_assoc, List.singleton_append,
    ← List.append_assoc]
  exact ⟨⟨fun htype => FrameType.noConfusion htype, haccepts⟩, hknows⟩

end Announcements

section Runs

variable {σ ε : Type*} {step : σ → ε → σ} {emit : σ → ε → List Frame} {condition : σ → ε → Prop}
  {related : σ → KeyStore → Prop}

/-- What each step has accepted is accepted along a run. -/
theorem accepts_run
    (hstep : ∀ s keys event, related s keys → condition s event →
      Accepts keys (emit s event) ∧ related (step s event) (keys.receive (emit s event)))
    {s : σ} {keys : KeyStore} (h : related s keys) {events : List ε}
    (hmeet : StepsMeet step condition s events) :
    Accepts keys (outputs step emit s events) ∧
      related (run step s events) (keys.receive (outputs step emit s events)) := by
  induction events generalizing s keys with
  | nil => exact ⟨trivial, h⟩
  | cons event events ih =>
      obtain ⟨hfirst, hnext⟩ := hstep s keys event h hmeet.1
      obtain ⟨hrest, hlast⟩ := ih hnext hmeet.2
      rw [outputs, accepts_append, KeyStore.receive_append]
      exact ⟨⟨hfirst, hrest⟩, hlast⟩

end Runs

end DanWs.KeyAcceptance
