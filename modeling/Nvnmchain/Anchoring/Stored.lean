import Nvnmchain.Anchoring.Run

/-!
# What is stored passes its own checks

The handlers check a registry or a record before they store it, and fill in the rest themselves. So
every stored value satisfies the field checks of its kind, its checksum encodes as a key, and its
filled-in texts are Go strings. `StoredInv` says this of a store; it holds of every run, also where a
counter wraps.
-/

set_option autoImplicit false

namespace Nvnmchain

open Go (Bytes str)
open Collections

/-! ## The field checks -/

/-- A status has between one and 64 bytes. -/
theorem validateRecordStatus_eq_ok {status : Bytes} {u : Unit} :
    validateRecordStatus status = .ok u ↔ status ≠ [] ∧ status.length ≤ 64 := by
  unfold validateRecordStatus
  rw [bind_eq_ok]
  simp only [refuseIf_eq_ok, decide_eq_false_iff_not, validateMaxLen_eq_ok, maxRecordStatusLen,
    exists_const]
  refine and_congr_right fun _ => ?_
  omega

/-- The fields a record is created with. -/
structure Record.Creatable (record : Record) : Prop where
  checksum : record.checksum ≠ []
  checksumAlgo : record.checksumAlgo ≠ []
  uri : record.uri ≠ []
  metadata : record.metadata ≠ [] ∧ record.metadata ≠ str "\x7b\x7d"
  registryId : record.registryId ≠ 0
  status : record.status ≠ []
  lengths : record.checksum.length ≤ 64 ∧ record.checksumAlgo.length ≤ 128 ∧
    record.uri.length ≤ 2048 ∧ record.metadata.length ≤ 2048 ∧ record.status.length ≤ 64

/-- The checks of a new record, as one condition. -/
theorem validateRecordForCreate_eq_ok {record : Record} {u : Unit} :
    validateRecordForCreate record = .ok u ↔ record.Creatable := by
  constructor
  · intro h
    obtain ⟨_, h1, h⟩ := bind_eq_ok.mp h
    obtain ⟨_, h2, h⟩ := bind_eq_ok.mp h
    obtain ⟨_, h3, h⟩ := bind_eq_ok.mp h
    obtain ⟨_, h4, h⟩ := bind_eq_ok.mp h
    obtain ⟨_, h5, h⟩ := bind_eq_ok.mp h
    obtain ⟨_, h6, h⟩ := bind_eq_ok.mp h
    obtain ⟨_, h7, h⟩ := bind_eq_ok.mp h
    obtain ⟨_, h8, h⟩ := bind_eq_ok.mp h
    obtain ⟨_, h9, h⟩ := bind_eq_ok.mp h
    obtain ⟨hs, hl⟩ := validateRecordStatus_eq_ok.mp h
    simp only [refuseIf_eq_ok, Bool.or_eq_false_iff, decide_eq_false_iff_not] at h1 h2 h3 h4 h5
    simp only [validateMaxLen_eq_ok, maxRecordChecksumLen, maxRecordChecksumAlgoLen, maxRecordURILen,
      maxRecordMetadataLen] at h6 h7 h8 h9
    exact ⟨h1, h2, h3, h4, h5, hs, by omega⟩
  · rintro ⟨h1, h2, h3, h4, h5, hs, h6, h7, h8, h9, hl⟩
    refine bind_eq_ok.mpr ⟨(), by simpa using h1, bind_eq_ok.mpr ⟨(), by simpa using h2,
      bind_eq_ok.mpr ⟨(), by simpa using h3, bind_eq_ok.mpr ⟨(), by simpa using h4,
      bind_eq_ok.mpr ⟨(), by simpa using h5, ?_⟩⟩⟩⟩⟩
    refine bind_eq_ok.mpr ⟨(), validateMaxLen_eq_ok.mpr ⟨by decide, Int.ofNat_le.mpr h6⟩,
      bind_eq_ok.mpr ⟨(), validateMaxLen_eq_ok.mpr ⟨by decide, Int.ofNat_le.mpr h7⟩,
      bind_eq_ok.mpr ⟨(), validateMaxLen_eq_ok.mpr ⟨by decide, Int.ofNat_le.mpr h8⟩,
      bind_eq_ok.mpr ⟨(), validateMaxLen_eq_ok.mpr ⟨by decide, Int.ofNat_le.mpr h9⟩, ?_⟩⟩⟩⟩
    exact validateRecordStatus_eq_ok.mpr ⟨hs, hl⟩

/-- A stored record has an id and an index beside. -/
theorem validateRecord_eq_ok {record : Record} {u : Unit} :
    validateRecord record = .ok u ↔ 1 ≤ record.recordId ∧ 1 ≤ record.index ∧ record.Creatable := by
  have hpos : ∀ n : UInt64, decide (n ≤ 0) = false ↔ 1 ≤ n := by
    intro n
    rw [decide_eq_false_iff_not, UInt64.not_le, UInt64.lt_iff_toNat_lt, UInt64.le_iff_toNat_le]
    exact Iff.rfl
  unfold validateRecord
  simp only [bind_eq_ok, refuseIf_eq_ok, hpos, validateRecordForCreate_eq_ok, exists_const]

/-- The limits of a new registry's texts. -/
theorem validateRegistryForCreate_eq_ok {name description metadata : Bytes} {u : Unit} :
    validateRegistryForCreate name description metadata = .ok u ↔ name ≠ [] ∧ name.length ≤ 128 ∧
      description.length ≤ 2048 ∧ metadata.length ≤ 2048 := by
  unfold validateRegistryForCreate
  simp only [bind_eq_ok, refuseIf_eq_ok, decide_eq_false_iff_not, validateMaxLen_eq_ok,
    maxRegistryNameLen, maxRegistryDescriptionLen, maxRegistryMetadataLen, exists_const]
  refine and_congr_right fun _ => ?_
  omega

/-! ## The invariant -/

/-- A registry as the handlers store one. -/
structure Registry.Stored (env : Env) (registry : Registry) : Prop where
  valid : validateRegistryForCreate registry.name registry.description registry.metadata = .ok ()
  creator : ∃ text account, env.stringToBytes text = .ok account ∧
    registry.creator = env.accAddressString account
  createdAt : registry.createdAt.length < 2 ^ 63

/-- A record as the handlers store one. -/
structure Record.Stored (record : Record) : Prop where
  creatable : record.Creatable
  encodes : (0 : UInt8) ∉ record.checksum
  timestamp : record.timestamp.length < 2 ^ 63

/-- A new version keeps the fields its message was checked for. -/
theorem Record.Creatable.versioned {record : Record} (h : record.Creatable)
    (encodes : (0 : UInt8) ∉ record.checksum) (ctx : Ctx) (recordId index : UInt64) :
    (record.versioned ctx recordId index).Stored where
  creatable := ⟨h.checksum, h.checksumAlgo, h.uri, h.metadata, h.registryId, h.status, h.lengths⟩
  encodes := encodes
  timestamp := ctx.length_blockTime

/-- A version that is no longer the latest stays valid. -/
theorem Record.Stored.notLatest {record : Record} (h : record.Stored) :
    Record.Stored { record with isLatest := false } where
  creatable := ⟨h.creatable.checksum, h.creatable.checksumAlgo, h.creatable.uri,
    h.creatable.metadata, h.creatable.registryId, h.creatable.status, h.creatable.lengths⟩
  encodes := h.encodes
  timestamp := h.timestamp

/-- A version with another valid status stays valid. -/
theorem Record.Stored.withStatus {record : Record} (h : record.Stored) {status : Bytes}
    (valid : validateRecordStatus status = .ok ()) : Record.Stored { record with status } where
  creatable := by
    obtain ⟨hne, hlen⟩ := validateRecordStatus_eq_ok.mp valid
    obtain ⟨h1, h2, h3, h4, -⟩ := h.creatable.lengths
    exact ⟨h.creatable.checksum, h.creatable.checksumAlgo, h.creatable.uri, h.creatable.metadata,
      h.creatable.registryId, hne, h1, h2, h3, h4, hlen⟩
  encodes := h.encodes
  timestamp := h.timestamp

/-- Params are set, every stored value is one the handlers store, and every indexed checksum encodes
as a key. -/
structure StoredInv (env : Env) (s : Store) : Prop where
  params : ∃ params, s.params = some params ∧ params.validate env = .ok ()
  registries : ∀ (r : UInt64) (registry : Registry), s.registries[r]? = some registry →
    registry.Stored env
  records : ∀ (r k i : UInt64) (record : Record), s.records[(r, k, i)]? = some record →
    record.Stored
  checksums : ∀ (r : UInt64) (c : Bytes), (r, c) ∈ s.recordIdByRegistryAndChecksum → (0 : UInt8) ∉ c

namespace StoredInv

variable {env : Env} {s : Store}

/-- The initial store holds valid values. -/
theorem initial {params : Params} (hvalid : params.validate env = .ok ()) :
    StoredInv env (Store.initial params) where
  params := ⟨params, rfl, hvalid⟩
  registries := by simp [Store.initial, Store.empty]
  records := by simp [Store.initial, Store.empty]
  checksums _ _ h := absurd h Std.ExtTreeMap.not_mem_empty

/-- A valid registry is entered. -/
theorem withRegistry (h : StoredInv env s) {registry : Registry} (creator : Bytes)
    (hregistry : registry.Stored env) : StoredInv env (s.withRegistry env registry creator) where
  params := h.params
  registries r other hr := by
    have hr' : (s.registries.insert registry.id registry)[r]? = some other := hr
    rw [Map.get?_insert] at hr'
    split at hr'
    · cases hr'
      exact hregistry
    · exact h.registries r other hr'
  records := h.records
  checksums := h.checksums

/-- Writing one record. -/
theorem insertRecord (h : StoredInv env s) {s' : Store} {key : UInt64 × UInt64 × UInt64}
    {record : Record} (hparams : s'.params = s.params) (hregistries : s'.registries = s.registries)
    (hchecksums : s'.recordIdByRegistryAndChecksum = s.recordIdByRegistryAndChecksum)
    (hrecords : s'.records = s.records.insert key record) (hrecord : record.Stored) :
    StoredInv env s' where
  params := hparams ▸ h.params
  registries := hregistries ▸ h.registries
  records r k i other hget := by
    rw [hrecords, Map.get?_insert] at hget
    split at hget
    · cases hget
      exact hrecord
    · exact h.records r k i other hget
  checksums := hchecksums ▸ h.checksums

/-- The first half of `AddRecord` enters only a checksum that encodes. -/
theorem assigned (h : StoredInv env s) {registryId recordId : UInt64} {checksum : Bytes} {s₁ : Store}
    (hassigned : s.assignRecordId registryId checksum = .ok (recordId, s₁)) :
    StoredInv env s₁ ∧ (0 : UInt8) ∉ checksum := by
  rcases assignRecordId_eq_ok.mp hassigned with ⟨hk, rfl⟩ | ⟨_, _, _, hencodes, _, rfl⟩
  · exact ⟨h, h.checksums _ _ (Map.mem_of_get? hk)⟩
  · refine ⟨⟨h.params, h.registries, h.records, fun r c hc => ?_⟩, hencodes⟩
    rcases Map.mem_insert.mp hc with heq | hold
    · cases heq
      exact hencodes
    · exact h.checksums r c hold

/-- Both halves of `AddRecord`. -/
theorem addRecord (h : StoredInv env s) {ctx : Ctx} {record : Record} {recordId : UInt64}
    {s₁ s₂ : Store} (valid : record.Creatable)
    (hassigned : s.assignRecordId record.registryId record.checksum = .ok (recordId, s₁))
    (hstored : s₁.storeVersion ctx recordId record = .ok s₂) : StoredInv env s₂ := by
  obtain ⟨h₁, hencodes⟩ := h.assigned hassigned
  have hversion : ∀ i, StoredInv env (s₁.withVersion (record.versioned ctx recordId i)) :=
    fun i => h₁.insertRecord rfl rfl rfl rfl (valid.versioned hencodes ctx recordId i)
  rcases storeVersion_eq_ok.mp hstored with ⟨_, rfl⟩ | ⟨_, prev, hprev, rfl⟩
  · exact hversion _
  · exact (hversion _).insertRecord rfl rfl rfl rfl (h₁.records _ _ _ _ hprev).notLatest

/-- **One message stores only what passes its checks.** -/
theorem delivered (h : StoredInv env s) {ctx : Ctx} {msg : Msg} {s' : Store}
    (hd : Delivered env ctx s msg s') : StoredInv env s' := by
  cases hd with
  | refused failed => exact h
  | addRegistry accepted signer valid counted creates =>
    exact h.withRegistry _ ⟨valid, ⟨_, _, signer, rfl⟩, ctx.length_blockTime⟩
  | addRecord accepted signer carries valid known permitted assigned stored =>
    exact h.addRecord (validateRecordForCreate_eq_ok.mp valid) assigned stored
  | updateRecordStatus accepted signer valid found permitted =>
    exact h.insertRecord rfl rfl rfl rfl ((h.records _ _ _ _ found).withStatus valid)
  | grantRole signer grants nonzero inScope allowed =>
    exact ⟨h.params, h.registries, h.records, h.checksums⟩
  | revokeRole signer revokes nonzero inScope held notLast administered allowed =>
    exact ⟨h.params, h.registries, h.records, h.checksums⟩
  | updateParams signer stored authorized valid => exact ⟨⟨_, rfl, valid⟩, h.registries, h.records, h.checksums⟩

end StoredInv

/-- Every store of a run holds only what passes its checks. -/
theorem AnyReachable.storedInv {env : Env} {names : Set Bytes} {s : Store}
    (h : AnyReachable env names s) : StoredInv env s :=
  h.invariant (fun _ hvalid => .initial hvalid) fun _ _ _ _ hinv _ hd => hinv.delivered hd

end Nvnmchain
