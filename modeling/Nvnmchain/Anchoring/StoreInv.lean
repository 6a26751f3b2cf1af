import Nvnmchain.Anchoring.Run

/-!
# The record store is dense

The keeper keeps five collections and two counters for its registries, records and versions, and
writes them separately. This module states how they fit together and proves it of every run.

- Registry ids are `1..RegistryCount`, record ids of a registry are `1..RecordsCountByRegistry`, and
  indices of a record are `1..RecordIndices`.
- The value under a key carries that key, and the version with the largest index is the latest one.
- The two checksum indexes hold the same pairs, and number the checksums of a registry one to one.

The parts depend on each other, so they are one invariant, `StoreInv`. A new version looks up the
version before it, which is there because indices are dense; the record id it looks under comes from
the checksum index, which only holds ids that have versions.
-/

set_option autoImplicit false

namespace Nvnmchain

open Go (Bytes)
open Collections

/-- How the collections of registries, records and versions fit together. -/
structure StoreInv (s : Store) : Prop where
  registries : ∃ n, s.registryCount = some n ∧ ∀ r, r ∈ s.registries ↔ 1 ≤ r ∧ r ≤ n
  registryId : ∀ (r : UInt64) (registry : Registry), s.registries[r]? = some registry →
    registry.id = r
  counts : ∀ r, r ∈ s.recordsCountByRegistry ↔ r ∈ s.registries
  indices : ∀ r k, (r, k) ∈ s.recordIndices ↔
    ∃ n, s.recordsCountByRegistry[r]? = some n ∧ 1 ≤ k ∧ k ≤ n
  versioned : ∀ (r k n : UInt64), s.recordIndices[(r, k)]? = some n → 1 ≤ n
  records : ∀ r k i, (r, k, i) ∈ s.records ↔ ∃ n, s.recordIndices[(r, k)]? = some n ∧ 1 ≤ i ∧ i ≤ n
  recordKey : ∀ (r k i : UInt64) (record : Record), s.records[(r, k, i)]? = some record →
    record.registryId = r ∧ record.recordId = k ∧ record.index = i
  latest : ∀ (r k i n : UInt64) (record : Record), s.records[(r, k, i)]? = some record →
    s.recordIndices[(r, k)]? = some n → (record.isLatest = true ↔ i = n)
  swapped : ∀ (r : UInt64) (c : Bytes),
    s.recordIdByRegistryAndChecksum[(r, c)]? = s.recordIdByChecksumAndRegistry[(c, r)]?
  numbered : ∀ (r k : UInt64), (∃ c : Bytes, s.recordIdByRegistryAndChecksum[(r, c)]? = some k) ↔
    (r, k) ∈ s.recordIndices
  unique : ∀ (r k : UInt64) (c c' : Bytes), s.recordIdByRegistryAndChecksum[(r, c)]? = some k →
    s.recordIdByRegistryAndChecksum[(r, c')]? = some k → c = c'
  carried : ∀ (r k i : UInt64) (record : Record), s.records[(r, k, i)]? = some record →
    s.recordIdByRegistryAndChecksum[(r, record.checksum)]? = some k

/-! ## The two ways a record is added -/

/-- A message that adds a record to a store in good order does one of two things. A checksum that is
new to the registry gets the next record id and its first version; a known one gets the next
version, and the version before it stops being the latest. -/
inductive Anchored (ctx : Ctx) (s : Store) (record : Record) : UInt64 → Store → Prop
  | first {count : UInt64}
    (fresh : s.recordIdByRegistryAndChecksum[(record.registryId, record.checksum)]? = none)
    (counted : s.recordsCountByRegistry[record.registryId]? = some count)
    (encodes : (0 : UInt8) ∉ record.checksum) :
    Anchored ctx s record (count + 1)
      ((s.withChecksum record.registryId record.checksum (count + 1)).withVersion
        (record.versioned ctx (count + 1) 1))
  | next {k i : UInt64} {prev : Record}
    (numbered : s.recordIdByRegistryAndChecksum[(record.registryId, record.checksum)]? = some k)
    (indexed : s.recordIndices[(record.registryId, k)]? = some i)
    (previous : s.records[(record.registryId, k, i)]? = some prev) :
    Anchored ctx s record k
      ((s.withVersion (record.versioned ctx k (i + 1))).withRecord (record.registryId, k, i)
        { prev with isLatest := false })

namespace StoreInv

variable {s : Store}

/-- A registry id past the count is free. -/
theorem registry_notMem (h : StoreInv s) {n : UInt64} (hn : s.registryCount = some n)
    (hmax : n ≠ counterMax) : n + 1 ∉ s.registries := by
  obtain ⟨n', hn', hreg⟩ := h.registries
  cases hn.symm.trans hn'
  exact fun hm => absurd (lt_add_one_of_ne_counterMax hmax) (UInt64.not_lt.mpr ((hreg _).mp hm).2)

/-- A record id past the count has no versions. -/
theorem index_none (h : StoreInv s) {r n : UInt64} (hn : s.recordsCountByRegistry[r]? = some n)
    (hmax : n ≠ counterMax) : s.recordIndices[(r, n + 1)]? = none := by
  rw [← Map.notMem_iff, h.indices]
  rintro ⟨n', hn', _, hle⟩
  rw [hn] at hn'
  cases hn'
  exact absurd (lt_add_one_of_ne_counterMax hmax) (UInt64.not_lt.mpr hle)

/-- A new record id has no stored version. -/
theorem first_notMem (h : StoreInv s) {r n : UInt64} (hn : s.recordsCountByRegistry[r]? = some n)
    (hmax : n ≠ counterMax) (i : UInt64) : (r, n + 1, i) ∉ s.records := by
  rw [h.records, h.index_none hn hmax]
  rintro ⟨_, hc, _⟩
  cases hc

/-- The index past the latest version of a record is free. -/
theorem next_notMem (h : StoreInv s) {r k i : UInt64} (hi : s.recordIndices[(r, k)]? = some i)
    (hmax : i ≠ counterMax) : (r, k, i + 1) ∉ s.records := by
  rw [h.records, hi]
  rintro ⟨n, hn, _, hle⟩
  cases hn
  exact absurd (lt_add_one_of_ne_counterMax hmax) (UInt64.not_lt.mpr hle)

/-- A version is not the latest when the next one is stored. -/
theorem not_latest_iff (h : StoreInv s) {r k i : UInt64} {v : Record}
    (hv : s.records[(r, k, i)]? = some v) : v.isLatest = false ↔ (r, k, i + 1) ∈ s.records := by
  obtain ⟨n, hn, h1, hle⟩ := (h.records _ _ _).mp (Map.mem_of_get? hv)
  have hlatest := h.latest _ _ _ _ _ hv hn
  rw [← Bool.not_eq_true, hlatest, h.records, hn]
  constructor
  · intro hne
    exact ⟨n, rfl, by grind, by grind⟩
  · rintro ⟨n', hn', h1', hle'⟩ rfl
    cases hn'
    grind

/-- The latest version of a record is stored. -/
theorem latest_stored (h : StoreInv s) {r k i : UInt64} (hi : s.recordIndices[(r, k)]? = some i) :
    ∃ record, s.records[(r, k, i)]? = some record :=
  Map.mem_iff.mp ((h.records r k i).mpr ⟨i, hi, h.versioned r k i hi, UInt64.le_refl i⟩)

/-- `AddRecord`, past its checks, does one of the two things. -/
theorem anchored (h : StoreInv s) (hmax : s.CountersBelowMax) {ctx : Ctx} {record : Record}
    {recordId : UInt64} {s₁ s₂ : Store}
    (assigned : s.assignRecordId record.registryId record.checksum = .ok (recordId, s₁))
    (stored : s₁.storeVersion ctx recordId record = .ok s₂) :
    Anchored ctx s record recordId s₂ := by
  rcases assignRecordId_eq_ok.mp assigned with ⟨hk, hs⟩ | ⟨hnone, count, hcount, hnul, rfl, rfl⟩
  · rw [hs] at stored
    obtain ⟨i, hi⟩ := Map.mem_iff.mp ((h.numbered record.registryId recordId).mp ⟨_, hk⟩)
    have hnext : s.nextIndex record.registryId recordId = i + 1 := by
      simp only [Store.nextIndex, hi]
    have hlt := lt_add_one_of_ne_counterMax (hmax.versions _ _ _ hi)
    have hgt : i + 1 > 1 := UInt64.lt_of_le_of_lt (h.versioned _ _ _ hi) hlt
    have hsub : i + 1 - 1 = i := by grind
    rcases storeVersion_eq_ok.mp stored with ⟨hnot, _⟩ | ⟨_, prev, hprev, rfl⟩
    · rw [hnext] at hnot
      exact absurd hgt hnot
    · simp only [hnext, hsub] at hprev ⊢
      exact .next hk hi hprev
  · have hnext : (s.withChecksum record.registryId record.checksum (count + 1)).nextIndex
        record.registryId (count + 1) = 1 := by
      simp only [Store.nextIndex, Store.withChecksum, h.index_none hcount (hmax.records _ _ hcount)]
    rcases storeVersion_eq_ok.mp stored with ⟨_, rfl⟩ | ⟨hgt, _⟩
    · rw [hnext]
      exact .first hnone hcount hnul
    · rw [hnext] at hgt
      exact absurd hgt (by decide)

/-! ## What each write keeps -/

/-- The invariant holds of the initial store. -/
theorem initial (params : Params) : StoreInv (Store.initial params) where
  registries := ⟨0, rfl, fun r => ⟨fun h => absurd h (by simp [Store.initial, Store.empty]),
    fun ⟨h1, h0⟩ => absurd (UInt64.le_trans h1 h0) (by decide)⟩⟩
  registryId := by simp [Store.initial, Store.empty]
  counts := by simp [Store.initial, Store.empty]
  indices := by simp [Store.initial, Store.empty]
  versioned := by simp [Store.initial, Store.empty]
  records := by simp [Store.initial, Store.empty]
  recordKey := by simp [Store.initial, Store.empty]
  latest := by simp [Store.initial, Store.empty]
  swapped := by simp [Store.initial, Store.empty]
  numbered := by simp [Store.initial, Store.empty]
  unique := by simp [Store.initial, Store.empty]
  carried := by simp [Store.initial, Store.empty]

/-- A new registry has the next id. -/
theorem withRegistry (h : StoreInv s) {env : Env} {registry : Registry} {creator : Bytes}
    {n : UInt64} (hn : s.registryCount = some n) (hmax : n ≠ counterMax)
    (hid : registry.id = n + 1) : StoreInv (s.withRegistry env registry creator) := by
  obtain ⟨n', hn', hreg⟩ := h.registries
  cases hn.symm.trans hn'
  have hlt := lt_add_one_of_ne_counterMax hmax
  have hnew := h.registry_notMem hn hmax
  have hcount : s.recordsCountByRegistry[n + 1]? = none := by
    rw [← Map.notMem_iff, h.counts]; exact hnew
  have hfresh : ∀ k : UInt64, (n + 1, k) ∉ s.recordIndices := by
    intro k hm
    obtain ⟨_, hc, _⟩ := (h.indices _ _).mp hm
    rw [hcount] at hc
    cases hc
  constructor
  case registries =>
    refine ⟨n + 1, by simp only [Store.withRegistry, hid], fun r => ?_⟩
    simp only [Store.withRegistry, hid, Map.mem_insert, hreg, le_add_one_iff_of_ne_counterMax hmax]
    grind
  case registryId =>
    intro r reg hr
    simp only [Store.withRegistry, Map.get?_insert] at hr
    grind [h.registryId]
  case counts =>
    intro r
    simp only [Store.withRegistry, Map.mem_insert, h.counts]
  case indices =>
    intro r k
    simp only [Store.withRegistry, hid, Map.get?_insert, h.indices]
    grind
  case versioned => exact h.versioned
  case records => exact h.records
  case recordKey => exact h.recordKey
  case latest => exact h.latest
  case swapped => exact h.swapped
  case numbered => exact h.numbered
  case unique => exact h.unique
  case carried => exact h.carried

/-- The first version of a new record. -/
theorem first (h : StoreInv s) {ctx : Ctx} {record : Record} {count : UInt64}
    (fresh : s.recordIdByRegistryAndChecksum[(record.registryId, record.checksum)]? = none)
    (counted : s.recordsCountByRegistry[record.registryId]? = some count)
    (hmax : count ≠ counterMax) :
    StoreInv ((s.withChecksum record.registryId record.checksum (count + 1)).withVersion
      (record.versioned ctx (count + 1) 1)) := by
  have hlt := lt_add_one_of_ne_counterMax hmax
  have hnone := h.index_none counted hmax
  have hnotMem := Map.notMem_iff.mpr hnone
  have hrecs : ∀ i : UInt64, s.records[(record.registryId, count + 1, i)]? = none :=
    fun i => Map.notMem_iff.mp (h.first_notMem counted hmax i)
  have hids : ∀ c : Bytes, s.recordIdByRegistryAndChecksum[(record.registryId, c)]? ≠
      some (count + 1) := fun c hc => hnotMem ((h.numbered _ _).mp ⟨c, hc⟩)
  constructor
  case registries => exact h.registries
  case registryId => exact h.registryId
  case counts =>
    intro r
    have hin := (h.counts record.registryId).mp (Map.mem_of_get? counted)
    simp only [Store.withVersion, Store.withChecksum, Map.mem_insert, h.counts]
    grind
  case indices =>
    intro r k
    simp only [Store.withVersion, Store.withChecksum, Record.versioned, Map.mem_insert, h.indices,
      Map.get?_insert]
    have := le_add_one_iff_of_ne_counterMax (k := k) hmax
    grind
  case versioned =>
    intro r k n
    simp only [Store.withVersion, Store.withChecksum, Record.versioned, Map.get?_insert]
    grind [h.versioned]
  case records =>
    intro r k i
    simp only [Store.withVersion, Store.withChecksum, Record.versioned, Map.mem_insert, h.records,
      Map.get?_insert]
    grind
  case recordKey =>
    intro r k i rec
    simp only [Store.withVersion, Store.withChecksum, Record.versioned, Map.get?_insert]
    grind [h.recordKey]
  case latest =>
    intro r k i n rec
    simp only [Store.withVersion, Store.withChecksum, Record.versioned, Map.get?_insert]
    grind [h.latest]
  case swapped =>
    intro r c
    simp only [Store.withVersion, Store.withChecksum, Map.get?_insert, h.swapped]
    grind
  case numbered =>
    intro r k
    simp only [Store.withVersion, Store.withChecksum, Record.versioned, Map.mem_insert,
      Map.get?_insert, ← h.numbered]
    grind
  case unique =>
    intro r k c c'
    simp only [Store.withVersion, Store.withChecksum, Map.get?_insert]
    grind [h.unique]
  case carried =>
    intro r k i rec
    simp only [Store.withVersion, Store.withChecksum, Record.versioned, Map.get?_insert]
    grind [h.carried]

/-- The next version of a known record. -/
theorem next (h : StoreInv s) {ctx : Ctx} {record prev : Record} {k i : UInt64}
    (numbered : s.recordIdByRegistryAndChecksum[(record.registryId, record.checksum)]? = some k)
    (indexed : s.recordIndices[(record.registryId, k)]? = some i)
    (previous : s.records[(record.registryId, k, i)]? = some prev)
    (hmax : i ≠ counterMax) :
    StoreInv ((s.withVersion (record.versioned ctx k (i + 1))).withRecord (record.registryId, k, i)
        { prev with isLatest := false }) := by
  have hlt := lt_add_one_of_ne_counterMax hmax
  have hone := h.versioned _ _ _ indexed
  have hkey := h.recordKey _ _ _ _ previous
  have hsum := h.carried _ _ _ _ previous
  constructor
  case registries => exact h.registries
  case registryId => exact h.registryId
  case counts => exact h.counts
  case indices =>
    intro r k'
    have hin := (h.indices _ _).mp (Map.mem_of_get? indexed)
    simp only [Store.withVersion, Store.withRecord, Record.versioned, Map.mem_insert, h.indices]
    grind
  case versioned =>
    intro r k' n
    simp only [Store.withVersion, Store.withRecord, Record.versioned, Map.get?_insert]
    grind [h.versioned]
  case records =>
    intro r k' i'
    have := le_add_one_iff_of_ne_counterMax (k := i') hmax
    simp only [Store.withVersion, Store.withRecord, Record.versioned, Map.mem_insert, h.records,
      Map.get?_insert]
    grind
  case recordKey =>
    intro r k' i' rec
    simp only [Store.withVersion, Store.withRecord, Record.versioned, Map.get?_insert]
    grind [h.recordKey]
  case latest =>
    intro r k' i' n rec
    simp only [Store.withVersion, Store.withRecord, Record.versioned, Map.get?_insert]
    have hup : (r, k', i') ∈ s.records → s.recordIndices[(r, k')]? = some i → i' ≤ i := by
      intro hm hn
      obtain ⟨_, hn', _, hle⟩ := (h.records _ _ _).mp hm
      grind
    have hm := @Map.mem_of_get? _ _ _ _ s.records (r, k', i') rec
    grind [h.latest]
  case swapped => exact h.swapped
  case numbered =>
    intro r k'
    have hin := (h.numbered _ _).mp ⟨_, numbered⟩
    simp only [Store.withVersion, Store.withRecord, Record.versioned, Map.mem_insert, h.numbered]
    grind
  case unique => exact h.unique
  case carried =>
    intro r k' i' rec
    simp only [Store.withVersion, Store.withRecord, Record.versioned, Map.get?_insert]
    grind [h.carried]

/-- A status belongs to no index. -/
theorem withStatus (h : StoreInv s) {record : Record} {r k i : UInt64} {status : Bytes}
    (found : s.records[(r, k, i)]? = some record) :
    StoreInv (s.withRecord (r, k, i) { record with status }) := by
  have hkey := h.recordKey _ _ _ _ found
  have hsum := h.carried _ _ _ _ found
  have hmem := Map.mem_of_get? found
  constructor
  case registries => exact h.registries
  case registryId => exact h.registryId
  case counts => exact h.counts
  case indices => exact h.indices
  case versioned => exact h.versioned
  case records =>
    intro r' k' i'
    refine Iff.trans ?_ (h.records r' k' i')
    simp only [Store.withRecord, Map.mem_insert]
    grind
  case recordKey =>
    intro r' k' i' rec
    simp only [Store.withRecord, Map.get?_insert]
    grind [h.recordKey]
  case latest =>
    intro r' k' i' n rec
    simp only [Store.withRecord, Map.get?_insert]
    grind [h.latest]
  case swapped => exact h.swapped
  case numbered => exact h.numbered
  case unique => exact h.unique
  case carried =>
    intro r' k' i' rec
    simp only [Store.withRecord, Map.get?_insert]
    grind [h.carried]

/-- The params and the roles are no part of the order. -/
theorem otherWrites (h : StoreInv s) (params : Option Params) (rbac : Rbac) :
    StoreInv { s with params, rbac } where
  registries := h.registries
  registryId := h.registryId
  counts := h.counts
  indices := h.indices
  versioned := h.versioned
  records := h.records
  recordKey := h.recordKey
  latest := h.latest
  swapped := h.swapped
  numbered := h.numbered
  unique := h.unique
  carried := h.carried

/-- **One message keeps the store in order**, when it meets no counter at its last value. -/
theorem delivered (h : StoreInv s) (hmax : s.CountersBelowMax) {env : Env} {ctx : Ctx} {msg : Msg}
    {s' : Store} (hd : Delivered env ctx s msg s') : StoreInv s' := by
  cases hd with
  | refused failed => exact h
  | addRegistry accepted signer valid counted creates =>
    exact h.withRegistry counted (hmax.registries _ counted) rfl
  | addRecord accepted signer carries valid known permitted assigned stored =>
    cases h.anchored hmax assigned stored with
    | first fresh counted encodes => exact h.first fresh counted (hmax.records _ _ counted)
    | next numbered indexed previous =>
      exact h.next numbered indexed previous (hmax.versions _ _ _ indexed)
  | updateRecordStatus accepted signer valid found permitted => exact h.withStatus found
  | grantRole signer grants nonzero inScope allowed => exact h.otherWrites _ _
  | revokeRole signer revokes nonzero inScope held notLast administered allowed => exact h.otherWrites _ _
  | updateParams signer stored authorized valid => exact h.otherWrites _ _

end StoreInv

/-! ## Every run -/

/-- Every store of a run is in order. -/
theorem Reachable.storeInv {env : Env} {names : Set Bytes} {s : Store}
    (h : Reachable env names s) : StoreInv s :=
  h.invariant (fun params _ => .initial params)
    (fun _ _ _ _ _ hinv hmax _ hd => hinv.delivered hmax hd)

/-- **Ids are dense, keys are carried, and the last version is the latest**, in every store of a run
in which no counter wraps. -/
theorem record_store_dense {env : Env} {s : Store} (h : Reachable env Set.univ s) :
    (∃ n, s.registryCount = some n ∧ ∀ r, r ∈ s.registries ↔ 1 ≤ r ∧ r ≤ n) ∧
    (∀ (r : UInt64) (registry : Registry), s.registries[r]? = some registry → registry.id = r) ∧
    (∀ r, r ∈ s.recordsCountByRegistry ↔ r ∈ s.registries) ∧
    (∀ r k, (r, k) ∈ s.recordIndices ↔
      r ∈ s.registries ∧ ∃ n, s.recordsCountByRegistry[r]? = some n ∧ 1 ≤ k ∧ k ≤ n) ∧
    (∀ r k i, (r, k, i) ∈ s.records ↔
      ∃ n, s.recordIndices[(r, k)]? = some n ∧ 1 ≤ i ∧ i ≤ n) ∧
    (∀ (r k i : UInt64) (record : Record), s.records[(r, k, i)]? = some record →
      record.registryId = r ∧ record.recordId = k ∧ record.index = i ∧
        (record.isLatest = true ↔ s.recordIndices[(r, k)]? = some i)) := by
  have inv := h.storeInv
  refine ⟨inv.registries, inv.registryId, inv.counts, fun r k => ?_, inv.records, ?_⟩
  · rw [inv.indices]
    refine ⟨fun ⟨n, hn, hk⟩ => ⟨(inv.counts r).mp (Map.mem_of_get? hn), n, hn, hk⟩, fun h => h.2⟩
  · intro r k i record hrecord
    obtain ⟨hr, hk, hi⟩ := inv.recordKey r k i record hrecord
    obtain ⟨n, hn, _⟩ := (inv.records r k i).mp (Map.mem_of_get? hrecord)
    refine ⟨hr, hk, hi, ?_⟩
    rw [inv.latest r k i n record hrecord hn, hn, Option.some.injEq, eq_comm]

/-- The small run stores two versions of one record. -/
theorem record_store_dense_smallStore :
    smallStore.recordIndices[((1 : UInt64), (1 : UInt64))]? = some 2 ∧
      ∀ r k i, (r, k, i) ∈ smallStore.records ↔
        ∃ n, smallStore.recordIndices[(r, k)]? = some n ∧ 1 ≤ i ∧ i ≤ n :=
  ⟨by decide +kernel, (record_store_dense reachable_smallStore).2.2.2.2.1⟩

/-- The checksums of the versions stored in a registry. -/
def Store.anchoredChecksums (s : Store) (r : UInt64) : Set Bytes :=
  {c | ∃ (k i : UInt64) (record : Record), s.records[(r, k, i)]? = some record ∧
    record.checksum = c}

/-- The anchored checksums are those the index knows. -/
theorem StoreInv.mem_anchoredChecksums {s : Store} (h : StoreInv s) {r : UInt64} {c : Bytes} :
    c ∈ s.anchoredChecksums r ↔ ∃ k, s.recordIdByRegistryAndChecksum[(r, c)]? = some k := by
  constructor
  · rintro ⟨k, i, record, hrecord, rfl⟩
    exact ⟨k, h.carried r k i record hrecord⟩
  · rintro ⟨k, hk⟩
    obtain ⟨i, hi⟩ := Map.mem_iff.mp ((h.numbered r k).mp ⟨c, hk⟩)
    obtain ⟨record, hrecord⟩ := h.latest_stored hi
    exact ⟨k, i, record, hrecord, h.unique r k _ _ (h.carried r k i record hrecord) hk⟩

/-- The record id a registry's checksum has in the index. -/
def Store.recordIdOf (s : Store) (r : UInt64) (c : Bytes) : UInt64 :=
  s.recordIdByRegistryAndChecksum[(r, c)]?.getD 0

/-- The index numbers the anchored checksums of a registry one to one. -/
theorem StoreInv.bijOn_recordIdOf {s : Store} (h : StoreInv s) {r n : UInt64}
    (hn : s.recordsCountByRegistry[r]? = some n) :
    Set.BijOn (s.recordIdOf r) (s.anchoredChecksums r) {k | 1 ≤ k ∧ k ≤ n} := by
  have hid : ∀ {c : Bytes} {k : UInt64}, s.recordIdByRegistryAndChecksum[(r, c)]? = some k →
      s.recordIdOf r c = k := by
    intro c k hk
    rw [Store.recordIdOf, hk, Option.getD_some]
  refine ⟨?_, ?_, ?_⟩
  · intro c hc
    obtain ⟨k, hk⟩ := h.mem_anchoredChecksums.mp hc
    obtain ⟨n', hn', hrange⟩ := (h.indices r k).mp ((h.numbered r k).mp ⟨c, hk⟩)
    rw [hn] at hn'
    cases hn'
    rw [hid hk]
    exact hrange
  · intro c hc c' hc' heq
    obtain ⟨k, hk⟩ := h.mem_anchoredChecksums.mp hc
    obtain ⟨k', hk'⟩ := h.mem_anchoredChecksums.mp hc'
    rw [hid hk, hid hk'] at heq
    exact h.unique r k c c' hk (heq ▸ hk')
  · intro k hk
    obtain ⟨c, hc⟩ := (h.numbered r k).mpr ((h.indices r k).mpr ⟨n, hn, hk⟩)
    exact ⟨c, h.mem_anchoredChecksums.mpr ⟨k, hc⟩, hid hc⟩

/-- **The two checksum indexes agree with each other and with the stored records**, in every store of
a run in which no counter wraps. -/
theorem checksum_indexes_agree {env : Env} {s : Store} (h : Reachable env Set.univ s) :
    (∀ (r k : UInt64) (c : Bytes), s.recordIdByRegistryAndChecksum[(r, c)]? = some k ↔
      s.recordIdByChecksumAndRegistry[(c, r)]? = some k) ∧
    (∀ r ∈ s.registries, ∃ n, s.recordsCountByRegistry[r]? = some n ∧
      (∀ c, c ∈ s.anchoredChecksums r ↔ (r, c) ∈ s.recordIdByRegistryAndChecksum) ∧
      Set.BijOn (s.recordIdOf r) (s.anchoredChecksums r) {k | 1 ≤ k ∧ k ≤ n}) ∧
    (∀ (r k i : UInt64) (record : Record), s.records[(r, k, i)]? = some record →
      ∀ c : Bytes, s.recordIdByRegistryAndChecksum[(r, c)]? = some k ↔ c = record.checksum) ∧
    (∀ (r k i j : UInt64) (v w : Record), s.records[(r, k, i)]? = some v →
      s.records[(r, k, j)]? = some w → v.checksum = w.checksum) := by
  have inv := h.storeInv
  have hcarry : ∀ (r k i : UInt64) (record : Record), s.records[(r, k, i)]? = some record →
      ∀ c : Bytes, s.recordIdByRegistryAndChecksum[(r, c)]? = some k ↔ c = record.checksum := by
    intro r k i record hrecord c
    have hown := inv.carried r k i record hrecord
    exact ⟨fun hc => inv.unique r k _ _ hc hown, fun hc => hc ▸ hown⟩
  refine ⟨fun r k c => by rw [inv.swapped], ?_, hcarry, ?_⟩
  · intro r hr
    obtain ⟨n, hn⟩ := Map.mem_iff.mp ((inv.counts r).mpr hr)
    exact ⟨n, hn, fun c => by rw [inv.mem_anchoredChecksums, Map.mem_iff], inv.bijOn_recordIdOf hn⟩
  · intro r k i j v w hv hw
    exact (hcarry r k j w hw v.checksum).mp (inv.carried r k i v hv)

/-- In the small chain the two checksum indexes agree. -/
theorem checksum_indexes_agree_smallStore :
    (1 : UInt64) ∈ smallStore.registries ∧ ∀ (r k : UInt64) (c : Bytes),
      smallStore.recordIdByRegistryAndChecksum[(r, c)]? = some k ↔
        smallStore.recordIdByChecksumAndRegistry[(c, r)]? = some k :=
  ⟨by decide +kernel, (checksum_indexes_agree reachable_smallStore).1⟩

end Nvnmchain
