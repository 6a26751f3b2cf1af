import Nvnmchain.Lib.RawStore
import Nvnmchain.Anchoring.StoreInv

/-!
# The migration of the store to version 2

`x/anchoring/migrations/v2`. A record of version 1 did not carry the id of its registry, which was
only in its key, and an index led from names to registry ids. `MigrateStore` collects the keys of all
records, rewrites each record with the id from its key, and clears the index.

It works on the store of bytes below the collections. The record codec is the protobuf library's; what
is relied on is that it reads back what it writes.
-/

set_option autoImplicit false

namespace Nvnmchain

open Go (Bytes str)
open Collections

/-! ## The migration -/

/-- `RegistryIdByNameKeyPrefix`. -/
def registryIdByNameKeyPrefix : UInt8 := 2

/-- `RecordsKeyPrefix`. -/
def recordsKeyPrefix : UInt8 := 4

/-- `recordsCollection`. -/
def recordsCollection (cdc : Codec Err Record) : Collection Err (UInt64 × UInt64 × UInt64) Record where
  byte := recordsKeyPrefix
  byte_lt := by decide
  keys := tripleKey (.sentinel .collectionsEncoding)
  values := cdc

/-- `registryIdByNameCollection`. -/
def registryIdByNameCollection : Collection Err Bytes UInt64 where
  byte := registryIdByNameKeyPrefix
  byte_lt := by decide
  keys := stringKey
  values := uint64Value (.sentinel .collectionsEncoding)

/-- `MigrateStore`. -/
def migrateStore (cdc : Codec Err Record) (raw : RawStore) : Except Err RawStore := do
  let records := recordsCollection cdc
  let keys ← records.collectKeys raw
  let raw ← keys.foldlM (fun raw key => do
    let record ← records.get (.sentinel .collectionsNotFound) raw key
    pure (records.set raw key { record with registryId := key.1 })) raw
  pure (registryIdByNameCollection.clear raw)

/-! ## What it leaves -/

/-- The record a store of bytes holds under a key. -/
def recordAt (cdc : Codec Err Record) (raw : RawStore) (k : UInt64 × UInt64 × UInt64) : Option Record :=
  (recordsCollection cdc).at? raw k

/-- What a migration leaves under each key of the store. -/
structure Migrated (cdc : Codec Err Record) (raw raw' : RawStore) : Prop where
  records : ∀ k, raw'[(recordsCollection cdc).rawKey k]? =
    (recordAt cdc raw k).map fun record => cdc.encode { record with registryId := k.1 }
  cleared : ∀ key : Bytes, key.head? = some registryIdByNameKeyPrefix → raw'[key]? = none
  kept : ∀ key : Bytes, key.head? ≠ some registryIdByNameKeyPrefix →
    (∀ k, (recordsCollection cdc).rawKey k ≠ key) → raw'[key]? = raw[key]?

section Run

variable {cdc : Codec Err Record} {raw raw' : RawStore}

/-- **The migration succeeds when the records decode.** -/
theorem migrateStore_eq_ok (h : (recordsCollection cdc).Decodes raw) :
    ∃ raw', migrateStore cdc raw = .ok raw' ∧ Migrated cdc raw raw' := by
  obtain ⟨keys, hkeys⟩ := Collection.exists_collectKeys_iff.mpr h
  obtain ⟨hnodup, hmem⟩ := Collection.collectKeys_keys hkeys
  have hpresent : ∀ k ∈ keys, ∃ record, (recordsCollection cdc).at? raw k = some record :=
    fun k hk => h.at?_eq_some.mpr ((hmem k).mp hk)
  obtain ⟨written, hloop, hwritten, hkept⟩ := Collection.foldlM_rewrite
    (Err.sentinel .collectionsNotFound)
    (fun (k : UInt64 × UInt64 × UInt64) (record : Record) => { record with registryId := k.1 })
    hnodup hpresent
  refine ⟨registryIdByNameCollection.clear written,
    bind_eq_ok.mpr ⟨keys, hkeys, bind_eq_ok.mpr ⟨written, hloop, rfl⟩⟩, ?_, ?_, ?_⟩
  · intro k
    have hhead : ((recordsCollection cdc).rawKey k).head? ≠ some registryIdByNameKeyPrefix := by
      change some recordsKeyPrefix ≠ some registryIdByNameKeyPrefix
      decide
    refine (Collection.get?_clear_of_ne hhead).trans ?_
    cases hrecord : recordAt cdc raw k with
    | some record =>
      have hk : k ∈ keys := (hmem k).mpr (h.at?_eq_some.mp ⟨record, hrecord⟩)
      exact hwritten k hk record hrecord
    | none =>
      have hk : (recordsCollection cdc).rawKey k ∉ raw := by
        intro hin
        obtain ⟨record, hsome⟩ := h.at?_eq_some.mpr hin
        exact nomatch hrecord.symm.trans hsome
      have hother : ∀ k' ∈ keys, (recordsCollection cdc).rawKey k' ≠ (recordsCollection cdc).rawKey k :=
        fun k' hk' e => hk (e ▸ (hmem k').mp hk')
      rw [hkept _ hother, Map.notMem_iff.mp hk]
      rfl
  · exact fun key hhead => Collection.get?_clear_of_head hhead
  · intro key hhead hother
    exact (Collection.get?_clear_of_ne hhead).trans (hkept key fun k _ => hother k)

/-- The migration succeeds just where every record decodes. -/
theorem exists_migrateStore_iff :
    (∃ raw', migrateStore cdc raw = .ok raw') ↔ (recordsCollection cdc).Decodes raw := by
  constructor
  · rintro ⟨raw', h⟩
    obtain ⟨keys, hkeys, _⟩ := bind_eq_ok.mp h
    exact Collection.exists_collectKeys_iff.mp ⟨keys, hkeys⟩
  · intro h
    obtain ⟨raw', hraw, _⟩ := migrateStore_eq_ok h
    exact ⟨raw', hraw⟩

/-- What a migration that succeeded left. -/
theorem migrated_of_eq_ok (h : migrateStore cdc raw = .ok raw') : Migrated cdc raw raw' := by
  obtain ⟨raw₁, h₁, hmigrated⟩ := migrateStore_eq_ok (exists_migrateStore_iff.mp ⟨raw', h⟩)
  cases h.symm.trans h₁
  exact hmigrated

namespace Migrated

/-- Each record is read back with the registry id of its key, and otherwise as it was. -/
theorem recordAt_eq (h : Migrated cdc raw raw') (k : UInt64 × UInt64 × UInt64) :
    recordAt cdc raw' k = (recordAt cdc raw k).map fun record => { record with registryId := k.1 } := by
  rw [recordAt, Collection.at?, h.records]
  cases recordAt cdc raw k with
  | none => rfl
  | some record =>
    show (cdc.decode (cdc.encode _)).toOption = _
    rw [cdc.decode_encode]
    rfl

/-- The keys of the records stay. -/
theorem mem_iff (h : Migrated cdc raw raw') (hdecodes : (recordsCollection cdc).Decodes raw)
    {key : Bytes} (hhead : key.head? = some recordsKeyPrefix) : key ∈ raw' ↔ key ∈ raw := by
  by_cases hkey : ∃ k, (recordsCollection cdc).rawKey k = key
  · obtain ⟨k, rfl⟩ := hkey
    rw [← hdecodes.at?_eq_some, Map.mem_iff, h.records]
    show (∃ v, (recordAt cdc raw k).map _ = some v) ↔ ∃ record, recordAt cdc raw k = some record
    cases recordAt cdc raw k with
    | none => exact ⟨(fun ⟨_, h⟩ => nomatch h), (fun ⟨_, h⟩ => nomatch h)⟩
    | some record => exact ⟨fun _ => ⟨record, rfl⟩, fun _ => ⟨_, rfl⟩⟩
  · have hother : key.head? ≠ some registryIdByNameKeyPrefix := by rw [hhead]; decide
    rw [Map.mem_iff, Map.mem_iff, h.kept key hother fun k e => hkey ⟨k, e⟩]

/-- What is left decodes. -/
theorem decodes (h : Migrated cdc raw raw') (hdecodes : (recordsCollection cdc).Decodes raw) :
    (recordsCollection cdc).Decodes raw' := by
  intro key value hvalue hhead
  obtain ⟨old, hold⟩ := Map.mem_iff.mp ((h.mem_iff hdecodes hhead).mp (Map.mem_of_get? hvalue))
  obtain ⟨k, rfl⟩ := hdecodes.rawKey hold hhead
  refine ⟨(hdecodes _ old hold hhead).1, ?_⟩
  rw [h.records] at hvalue
  obtain ⟨record, _, rfl⟩ := Option.map_eq_some_iff.mp hvalue
  exact ⟨_, cdc.decode_encode _⟩

/-- A second migration changes nothing. -/
theorem idempotent {raw'' : RawStore} (h : Migrated cdc raw raw') (h' : Migrated cdc raw' raw'') :
    raw'' = raw' := by
  refine Std.ExtTreeMap.ext_getElem? fun {key} => ?_
  by_cases hkey : ∃ k, (recordsCollection cdc).rawKey k = key
  · obtain ⟨k, rfl⟩ := hkey
    rw [h'.records, h.recordAt_eq, h.records, Option.map_map]
    rfl
  · by_cases hhead : key.head? = some registryIdByNameKeyPrefix
    · rw [h'.cleared key hhead, h.cleared key hhead]
    · exact h'.kept key hhead fun k e => hkey ⟨k, e⟩

end Migrated

end Run

/-! ## Versions -/

/-- The records of a store, apart from their registry ids: a record carries the record id and the
index of its key, and of the versions of one record the one with the highest index, and no other, is
the latest. -/
structure Versions (at? : UInt64 × UInt64 × UInt64 → Option Record) : Prop where
  recordKey : ∀ r k i record, at? (r, k, i) = some record → record.recordId = k ∧ record.index = i
  latest : ∀ r k i record, at? (r, k, i) = some record →
    (record.isLatest = true ↔ ∀ j later, at? (r, k, j) = some later → j ≤ i)

/-- The records of a store in good order are such versions. -/
theorem StoreInv.versions {s : Store} (h : StoreInv s) : Versions fun k => s.records[k]? where
  recordKey r k i record hrecord := (h.recordKey r k i record hrecord).2
  latest r k i record hrecord := by
    obtain ⟨n, hn, hpos, hle⟩ := (h.records r k i).mp (Map.mem_of_get? hrecord)
    rw [h.latest r k i n record hrecord hn]
    constructor
    · rintro rfl j later hlater
      obtain ⟨n', hn', _, hj⟩ := (h.records r k j).mp (Map.mem_of_get? hlater)
      cases hn.symm.trans hn'
      exact hj
    · intro hhighest
      have hlast : (r, k, n) ∈ s.records :=
        (h.records r k n).mpr ⟨n, hn, h.versioned r k n hn, UInt64.le_refl n⟩
      obtain ⟨last, hlast⟩ := Map.mem_iff.mp hlast
      exact UInt64.le_antisymm hle (hhighest n last hlast)

/-- A registry id does not matter to versions. -/
theorem Versions.map_registryId {at? : UInt64 × UInt64 × UInt64 → Option Record} (h : Versions at?) :
    Versions fun k => (at? k).map fun record => { record with registryId := k.1 } where
  recordKey r k i record hrecord := by
    obtain ⟨old, hold, rfl⟩ := Option.map_eq_some_iff.mp hrecord
    exact h.recordKey r k i old hold
  latest r k i record hrecord := by
    obtain ⟨old, hold, rfl⟩ := Option.map_eq_some_iff.mp hrecord
    refine (h.latest r k i old hold).trans ⟨fun hle j later hlater => ?_, fun hle j later hlater => ?_⟩
    · obtain ⟨older, holder, _⟩ := Option.map_eq_some_iff.mp hlater
      exact hle j older holder
    · exact hle j _ (Option.map_eq_some_iff.mpr ⟨later, hlater, rfl⟩)

/-- **The migration to version 2.** It succeeds exactly when every entry under the records' prefix
decodes. It then keeps the keys of the records, and each record but for its registry id, which becomes
the one of its key; clears the index of names; leaves the rest of the store; and changes nothing when
it runs again. Where the records were versions, they are, and their registry ids are those of their
keys. -/
theorem migrateStore_exact (cdc : Codec Err Record) (raw : RawStore) :
    ((∃ raw', migrateStore cdc raw = .ok raw') ↔ (recordsCollection cdc).Decodes raw) ∧
    ∀ raw', migrateStore cdc raw = .ok raw' →
      (∀ key : Bytes, key.head? = some recordsKeyPrefix → (key ∈ raw' ↔ key ∈ raw)) ∧
      (∀ k, recordAt cdc raw' k =
        (recordAt cdc raw k).map fun record => { record with registryId := k.1 }) ∧
      (∀ key : Bytes, key.head? = some registryIdByNameKeyPrefix → key ∉ raw') ∧
      (∀ key : Bytes, key.head? ≠ some recordsKeyPrefix →
        key.head? ≠ some registryIdByNameKeyPrefix → raw'[key]? = raw[key]?) ∧
      migrateStore cdc raw' = .ok raw' ∧
      (Versions (recordAt cdc raw) → Versions (recordAt cdc raw') ∧
        ∀ k record, recordAt cdc raw' k = some record → record.registryId = k.1) := by
  refine ⟨exists_migrateStore_iff, fun raw' hok => ?_⟩
  have h := migrated_of_eq_ok hok
  have hdecodes := exists_migrateStore_iff.mp ⟨raw', hok⟩
  refine ⟨fun key => h.mem_iff hdecodes, h.recordAt_eq, fun key hhead => ?_, ?_, ?_, ?_⟩
  · exact Map.notMem_iff.mpr (h.cleared key hhead)
  · intro key hrecords hnames
    refine h.kept key hnames fun k e => hrecords ?_
    rw [← e]
    rfl
  · obtain ⟨raw'', hagain, hmigrated⟩ := migrateStore_eq_ok (h.decodes hdecodes)
    rw [hagain, h.idempotent hmigrated]
  · intro hversions
    rw [funext h.recordAt_eq]
    refine ⟨hversions.map_registryId, fun k record hrecord => ?_⟩
    obtain ⟨old, _, rfl⟩ := Option.map_eq_some_iff.mp hrecord
    rfl

/-! ## A small store -/

/-- A byte string that tells its own end: a 1 before each byte, and a 0 after the last. -/
def writeBytes (s : Bytes) : Bytes := s.flatMap (fun b => [1, b]) ++ [0]

/-- The byte strings of a text of such strings. -/
def readFields : Bytes → Option (List Bytes)
  | [] => some []
  | 0 :: rest => (readFields rest).map fun fields => [] :: fields
  | _ :: b :: rest => do
    match ← readFields rest with
    | [] => none
    | field :: fields => some ((b :: field) :: fields)
  | [_] => none

theorem readFields_writeBytes (s rest : Bytes) :
    readFields (writeBytes s ++ rest) = (readFields rest).map fun fields => s :: fields := by
  induction s with
  | nil => rfl
  | cons b s ih =>
    show (readFields (writeBytes s ++ rest) >>= _) = _
    rw [ih]
    cases readFields rest with
    | none => rfl
    | some fields => rfl

theorem readFields_flatMap (fields : List Bytes) :
    readFields (fields.flatMap writeBytes) = some fields := by
  induction fields with
  | nil => rfl
  | cons s fields ih => rw [List.flatMap_cons, readFields_writeBytes, ih, Option.map_some]

/-- The fields of a record, each a byte string. -/
def Record.fields (record : Record) : List Bytes :=
  [record.uri, record.checksum, record.checksumAlgo, record.metadata, record.timestamp, record.status,
    Eth.putUint64 record.recordId, Eth.putUint64 record.index, if record.isLatest then [1] else [],
    Eth.putUint64 record.registryId]

/-- The record of some fields. -/
def recordOfFields : List Bytes → Option Record
  | [uri, checksum, checksumAlgo, metadata, timestamp, status, recordId, index, isLatest, registryId] =>
    some { uri, checksum, checksumAlgo, metadata, timestamp, status, recordId := Eth.uint64Of recordId,
           index := Eth.uint64Of index, isLatest := isLatest = [1],
           registryId := Eth.uint64Of registryId }
  | _ => none

theorem recordOfFields_fields (record : Record) : recordOfFields record.fields = some record := by
  obtain ⟨_, _, _, _, _, _, _, _, isLatest, _⟩ := record
  simp only [Record.fields, recordOfFields, Eth.uint64Of_putUint64]
  cases isLatest <;> rfl

/-- A codec for records. -/
def smallCodec : Codec Err Record where
  encode record := record.fields.flatMap writeBytes
  decode b := ((readFields b).bind recordOfFields).elim (errorf "malformed record") .ok
  decode_encode record := by
    rw [readFields_flatMap, Option.bind_some, recordOfFields_fields, Option.elim_some]

/-- A record of version 1: the second version of record 1, in no registry. -/
def legacyRecord : Record where
  uri := str "ipfs://a"
  checksum := str "checksum-a"
  checksumAlgo := str "sha256"
  metadata := []
  timestamp := []
  status := str "active"
  recordId := 1
  index := 2
  isLatest := true
  registryId := 0

/-- A store of version 1: two versions of a record of registry 7, a name, and a registry count. -/
def legacyStore : RawStore :=
  .ofList [
    ((recordsCollection smallCodec).rawKey (7, 1, 1),
      smallCodec.encode { legacyRecord with index := 1, isLatest := false }),
    ((recordsCollection smallCodec).rawKey (7, 1, 2), smallCodec.encode legacyRecord),
    (registryIdByNameCollection.rawKey (str "reg-a"), Eth.putUint64 7),
    ([3], Eth.putUint64 7)]

/-- The record learns that it belongs to registry 7, the name is gone, and the count stays. -/
theorem migrateStore_exact_legacyStore :
    ∃ raw', migrateStore smallCodec legacyStore = .ok raw' ∧
      recordAt smallCodec raw' (7, 1, 2) = some { legacyRecord with registryId := 7 } ∧
      registryIdByNameCollection.rawKey (str "reg-a") ∉ raw' ∧
      raw'[([3] : Bytes)]? = some (Eth.putUint64 7) ∧
      migrateStore smallCodec raw' = .ok raw' := by
  obtain ⟨raw', hraw⟩ : ∃ raw', migrateStore smallCodec legacyStore = .ok raw' := by
    cases h : migrateStore smallCodec legacyStore with
    | ok raw' => exact ⟨raw', rfl⟩
    | error e =>
      have hok : (migrateStore smallCodec legacyStore).isOk = true := by decide +kernel
      rw [h] at hok
      exact nomatch hok
  obtain ⟨-, hrecords, hcleared, hkept, hagain, -⟩ :=
    (migrateStore_exact smallCodec legacyStore).2 raw' hraw
  refine ⟨raw', hraw, ?_, hcleared _ rfl, ?_, hagain⟩
  · rw [hrecords]
    decide +kernel
  · rw [hkept _ (by decide) (by decide)]
    decide +kernel

end Nvnmchain
