import DanWs.Sessions
import DanWs.TopicPaths
import DanWs.TopicRouting

namespace DanWs.TopicKeys

open DanWs.ClientMaps
open DanWs.Clients
open DanWs.FiniteMaps
open DanWs.FlatStates
open DanWs.KeyPaths
open DanWs.MapChanges
open DanWs.Replication
open DanWs.Sessions
open DanWs.StepRuns
open DanWs.Strings
open DanWs.TopicParsing
open DanWs.TopicPaths
open DanWs.TopicRouting
open DanWs.WireTypes

/-- The second segment of the path starts with the digits of an `int`, and the
first one is `t`. -/
def ReadsAsTopic (path : StdString) : Prop :=
  ∃ segment rest, path = str "t." ++ segment ++ 0x2E :: rest ∧ 0x2E ∉ segment ∧
    segment.takeWhile isDigit ≠ [] ∧ ofDigits (segment.takeWhile isDigit) < 2 ^ 31

section Paths

variable {path segment rest : StdString}

theorem matchSegments_of_check (h : checkKeyPath path = .ok ()) : matchSegments false path := by
  rw [checkKeyPath] at h
  split at h
  · cases h
  · split at h
    · cases h
    · next hmatch => simpa using hmatch

theorem isKeyChar_segment (h : checkKeyPath path = .ok ())
    (hpath : path = str "t." ++ segment ++ 0x2E :: rest) (hdot : 0x2E ∉ segment) :
    ∀ b ∈ segment, isKeyChar b := by
  intro b hb
  rcases isKeyChar_of_matchSegments (matchSegments_of_check h) b (by simp [hpath, hb]) with
    hkey | rfl
  · exact hkey
  · exact absurd hb hdot

/-- The topic of a path is read out of the segment between its first two dots. -/
theorem parseTopicKey_append (hdot : 0x2E ∉ segment) :
    parseTopicKey (str "t." ++ segment ++ 0x2E :: rest) =
      (stoi segment).toOption.map fun idx => ⟨idx, rest⟩ := by
  have hlength :
      (str "t." ++ segment ++ 0x2E :: rest).length = segment.length + rest.length + 3 := by
    simp [str]
    omega
  have hstart : str "t." <+: str "t." ++ segment ++ 0x2E :: rest :=
    (List.prefix_append _ _).trans (List.prefix_append _ _)
  have hdrop : (str "t." ++ segment ++ 0x2E :: rest).drop 2 = segment ++ 0x2E :: rest := by
    rw [List.append_assoc]
    rfl
  have hrest : (str "t." ++ segment ++ 0x2E :: rest).drop (2 + segment.length + 1) = rest := by
    rw [Nat.add_assoc, ← List.drop_drop, hdrop, ← List.drop_drop, List.drop_left]
    rfl
  rw [parseTopicKey, if_pos ⟨by omega, hstart⟩, hdrop, find_singleton_append hdot,
    Option.bind_some, substr, hdrop, List.take_left, hrest]
  cases stoi segment <;> rfl

theorem exists_stoi_iff (h : ∀ b ∈ segment, isKeyChar b) :
    (∃ idx, stoi segment = .ok idx) ↔
      segment.takeWhile isDigit ≠ [] ∧ ofDigits (segment.takeWhile isDigit) < 2 ^ 31 := by
  rw [stoi_of_unsigned fun b hb => unsigned_of_isKeyChar (h b hb)]
  by_cases hdigits : segment.takeWhile isDigit = []
  · simp [hdigits]
  · rw [if_neg hdigits]
    by_cases hbound : 2 ^ 31 ≤ ofDigits (segment.takeWhile isDigit)
    · rw [if_pos hbound]
      simp only [reduceCtorEq, exists_false, false_iff, not_and]
      omega
    · rw [if_neg hbound]
      exact iff_of_true ⟨_, rfl⟩ ⟨hdigits, by omega⟩

theorem parseTopicKey_eq_none_iff (h : checkKeyPath path = .ok ()) :
    parseTopicKey path = none ↔ ¬ ReadsAsTopic path := by
  constructor
  · rintro hnone ⟨segment, rest, rfl, hdot, hdigits⟩
    obtain ⟨idx, hidx⟩ := (exists_stoi_iff (isKeyChar_segment h rfl hdot)).mpr hdigits
    rw [parseTopicKey_append hdot, hidx] at hnone
    cases hnone
  · intro hreads
    by_contra hsome
    have hshape : 2 < path.length ∧ str "t." <+: path := by
      by_contra hshape
      rw [parseTopicKey, if_neg hshape] at hsome
      exact hsome rfl
    obtain ⟨tail, rfl⟩ := hshape.2
    cases hfind : find [0x2E] tail with
    | none =>
        rw [parseTopicKey, if_pos hshape, show (str "t." ++ tail).drop 2 = tail from rfl,
          hfind] at hsome
        exact hsome rfl
    | some length =>
        obtain ⟨segment, rest, rfl, hdot, -⟩ := exists_of_find_singleton hfind
        rw [← List.append_assoc] at h hreads hsome
        rw [parseTopicKey_append hdot] at hsome
        cases hidx : stoi segment with
        | ok idx =>
            have hdigits := (exists_stoi_iff (isKeyChar_segment h rfl hdot)).mp ⟨idx, hidx⟩
            exact hreads ⟨segment, rest, rfl, hdot, hdigits⟩
        | error e =>
            rw [hidx] at hsome
            exact hsome rfl

end Paths

section Keys

/-- Behind its registration the key is read as no topic, and its value reaches
the callbacks of the client. -/
def ReachesReceive (client : Client) (flat : FlatState) (key : StdString) (entry : Entry) : Prop :=
  let registered := afterFrame client (flat.keyFrame key entry)
  (registered.getTopicInfo entry.keyId (flat.wirePath key)).2 = none ∧
    .onReceive key entry.value ∈ (registered.handleFrame (FlatState.valueFrame entry)).notices

theorem topicKeyCache_applyPending (m : Maps) (keyId : UInt32) (path : StdString) :
    ((m.applyPending keyId path).topicKeyCache.lookup keyId).getD (parseTopicKey path) =
      (m.topicKeyCache.lookup keyId).getD (parseTopicKey path) := by
  rw [Maps.applyPending]
  split
  · rfl
  · rw [Maps.classify]
    dsimp only
    cases hcached : m.topicKeyCache.lookup keyId with
    | some info =>
        dsimp only
        rw [hcached]
    | none =>
        dsimp only
        rw [lookup_insert_eq_ite, if_pos rfl]
        rfl

theorem registry_applyPending (m : Maps) (keyId : UInt32) (path : StdString) :
    (m.applyPending keyId path).registry = m.registry := by
  rw [Maps.applyPending]
  split
  · rfl
  · exact (store_classify _ _ _).2.1

theorem onReceive_mem_notify_iff (client : Client) (info : Option TopicInfo) (path : StdString)
    (value : Payload) : .onReceive path value ∈ client.notify info path value ↔ info = none := by
  cases info with
  | none => simp [Client.notify]
  | some info =>
      simp only [Client.notify, reduceCtorEq, iff_false]
      split
      · simp
      · split <;> simp

theorem onReceive_notMem_enterReady (client : Client) (path : StdString) (value : Payload) :
    .onReceive path value ∉ client.enterReady.notices := by
  rw [Client.enterReady]
  dsimp only
  split <;> split <;> simp

/-- A value of a registered key reaches the callbacks of the client unless the
key is one of a topic. -/
theorem onReceive_mem_iff {client : Client} {frame : Frame} {entry : KeyEntry}
    (htype : frame.frameType = .serverValue)
    (hentry : client.registry.getByKeyId frame.keyId = some entry) :
    .onReceive entry.path frame.payload ∈ (client.handleFrame frame).notices ↔
      (client.getTopicInfo frame.keyId entry.path).2 = none := by
  have hnotices : (client.handleFrame frame).notices = (client.storeValue frame entry).notices := by
    rw [Client.handleFrame, htype]
    dsimp only
    rw [Client.handleServerValue, hentry]
  have hready : .onReceive entry.path frame.payload ∉
      (if client.state = .synchronizing then client.enterReady.notices else []) := by
    split
    · exact onReceive_notMem_enterReady client _ _
    · exact List.not_mem_nil
  rw [hnotices, notices_storeValue, List.mem_append, or_iff_left hready, onReceive_mem_notify_iff]

theorem reachesReceive_iff {client : Client} {flat : FlatState} {key : StdString} {entry : Entry}
    {registered : KeyRegistry} (hflat : flat.wirePrefix = [])
    (haccepted : client.registry.registerOne entry.keyId key entry.type = .ok registered) :
    ReachesReceive client flat key entry ↔
      client.topicKeyCache.lookup entry.keyId = some none ∨
        (client.topicKeyCache.lookup entry.keyId = none ∧ ¬ ReadsAsTopic key) := by
  obtain ⟨hvalid, -, hbyId, -⟩ := registerOne_ok haccepted
  have hpath : flat.wirePath key = key := by rw [FlatState.wirePath, if_pos hflat]
  have hregisters : Registers (maps client).registry (flat.keyFrame key entry) key registered :=
    ⟨rfl, congrArg Payload.string hpath, haccepted⟩
  have hmaps := hregisters.eq_of_changes (changes_handleFrame client (flat.keyFrame key entry))
  have hinfo : ((afterFrame client (flat.keyFrame key entry)).getTopicInfo entry.keyId key).2 =
      (client.topicKeyCache.lookup entry.keyId).getD (parseTopicKey key) := by
    rw [topicInfo_eq]
    have hcache := congrArg Maps.topicKeyCache hmaps
    change (afterFrame client (flat.keyFrame key entry)).topicKeyCache = _ at hcache
    rw [hcache]
    exact topicKeyCache_applyPending _ _ _
  have hentry : (afterFrame client (flat.keyFrame key entry)).registry.getByKeyId entry.keyId =
      some ⟨key, entry.type, entry.keyId⟩ := by
    have hregistry := congrArg Maps.registry hmaps
    change (afterFrame client (flat.keyFrame key entry)).registry = _ at hregistry
    rw [hregistry, registry_applyPending, KeyRegistry.getByKeyId, hbyId, lookup_insert_eq_ite,
      if_pos rfl]
  have hnotices := @onReceive_mem_iff _ (FlatState.valueFrame entry) _ rfl hentry
  change Notice.onReceive key entry.value ∈ _ ↔
    ((afterFrame client (flat.keyFrame key entry)).getTopicInfo entry.keyId key).2 = none
    at hnotices
  rw [ReachesReceive, hpath, hnotices, and_self, hinfo, ← parseTopicKey_eq_none_iff hvalid]
  cases client.topicKeyCache.lookup entry.keyId <;> simp

theorem parseTopicKey_wirePath {index : Int} (hlow : 0 ≤ index) (hhigh : index < 2 ^ 31)
    (bound : Bool) (key : StdString) :
    parseTopicKey ((TopicPayload.new index bound).flatState.wirePath key) = some ⟨index, key⟩ := by
  have hstart :
      str "t." ++ toText index ++ str "." = str "t." ++ decimal index.toNat ++ [0x2E] := by
    rw [toText, if_neg (by omega), show index.natAbs = index.toNat by omega]
    rfl
  have hpath : (TopicPayload.new index bound).flatState.wirePath key =
      str "t." ++ decimal index.toNat ++ 0x2E :: key := by
    rw [TopicPayload.new, FlatState.new, FlatState.wirePath]
    dsimp only
    rw [hstart, if_neg (by simp), List.append_assoc]
    rfl
  rw [hpath, parseTopicKey_append (not_mem_decimal (by decide) _), stoi_decimal (by omega),
    Int.toNat_of_nonneg hlow]
  rfl

/-- Keys without a topic are read as such, and the keys of a topic as its own,
unless the path of a key without one reads as a topic. A key id that the client
remembers goes by the memory. -/
theorem read_as_sent_iff (client : Client) (key : StdString) :
    (∀ (flat : FlatState) (entry : Entry) (registered : KeyRegistry), flat.wirePrefix = [] →
      client.registry.registerOne entry.keyId key entry.type = .ok registered →
      (ReachesReceive client flat key entry ↔
        client.topicKeyCache.lookup entry.keyId = some none ∨
          (client.topicKeyCache.lookup entry.keyId = none ∧ ¬ ReadsAsTopic key))) ∧
    ∀ (index : Int) (bound : Bool) (keyId : UInt32), 0 ≤ index → index < 2 ^ 31 →
      ((client.getTopicInfo keyId ((TopicPayload.new index bound).flatState.wirePath key)).2 =
          some ⟨index, key⟩ ↔
        client.topicKeyCache.lookup keyId = some (some ⟨index, key⟩) ∨
          client.topicKeyCache.lookup keyId = none) := by
  refine ⟨fun flat entry registered hflat haccepted => reachesReceive_iff hflat haccepted, ?_⟩
  intro index bound keyId hlow hhigh
  rw [topicInfo_eq, parseTopicKey_wirePath hlow hhigh]
  cases client.topicKeyCache.lookup keyId <;> simp

/-- For a key id that the client does not know, in whatever run, the path alone
decides. -/
theorem reachesReceive_unknown_iff {frames : List Frame} {flat : FlatState} {key : StdString}
    {entry : Entry} {registered : KeyRegistry} (hflat : flat.wirePrefix = [])
    (hunknown : (run afterFrame Client.new frames).registry.getByKeyId entry.keyId = none)
    (haccepted : (run afterFrame Client.new frames).registry.registerOne entry.keyId key
      entry.type = .ok registered) :
    ReachesReceive (run afterFrame Client.new frames) flat key entry ↔ ¬ ReadsAsTopic key := by
  have hforgotten : (run afterFrame Client.new frames).topicKeyCache.lookup entry.keyId = none := by
    by_contra hcached
    obtain ⟨info, hinfo⟩ := Option.ne_none_iff_exists'.mp hcached
    have hknown := (consistent_afterFrames frames).topicKeyCache entry.keyId
      (mem_keys_iff_lookup.mpr ⟨info, hinfo⟩)
    have hregistered : ((run afterFrame Client.new frames).registry.getByKeyId
      entry.keyId).isSome = true := hknown
    rw [hunknown] at hregistered
    cases hregistered
  rw [reachesReceive_iff hflat haccepted, hforgotten]
  simp

theorem read_as_sent_new :
    ReachesReceive Client.new (FlatState.new []) (str "t.x") ⟨1, .varInteger, .int32 7⟩ ∧
      (Client.new.getTopicInfo 1
        ((TopicPayload.new 3 true).flatState.wirePath (str "x"))).2 = some ⟨3, str "x"⟩ := by
  constructor
  · refine ((read_as_sent_iff Client.new (str "t.x")).1 (FlatState.new [])
      ⟨1, .varInteger, .int32 7⟩ _ rfl rfl).mpr (Or.inr ⟨rfl, ?_⟩)
    rw [← parseTopicKey_eq_none_iff (by decide)]
    decide +kernel
  · exact ((read_as_sent_iff Client.new (str "x")).2 3 true 1 (by decide) (by decide)).mpr
      (Or.inr rfl)

/-- A segment that only starts like a number makes a key one of a topic. -/
theorem not_read_as_sent :
    ¬ ∀ (flat : FlatState) (key : StdString) (entry : Entry) (registered : KeyRegistry),
      flat.wirePrefix = [] →
      Client.new.registry.registerOne entry.keyId key entry.type = .ok registered →
      ReachesReceive Client.new flat key entry := by
  intro h
  have hreads := (reachesReceive_iff rfl rfl).mp
    (h (FlatState.new []) (str "t.1st.x") ⟨1, .varInteger, .int32 7⟩ _ rfl rfl)
  rcases hreads with hcached | ⟨-, hnot⟩
  · cases hcached
  · rw [← parseTopicKey_eq_none_iff (by decide)] at hnot
    exact absurd hnot (by decide +kernel)

end Keys

end DanWs.TopicKeys
