import Nvnmchain.Lib.Counter
import Nvnmchain.Anchoring.GenesisValidate

/-!
# What the genesis import rebuilds

A genesis lists registries and records. The counters, the latest indices and the two checksum indexes
are not in it: the import rebuilds them while it walks the lists, as running maxima and last writes.

The maxima are right whatever the order of the records (`initGenesis_rebuilds`), and they fit what
`AddRecord` expects: the version it looks up before it writes the next one is there. The last writes
are not. Two records of one registry may share a checksum, and then one of them is not found by it;
which one depends on their order (`checksums_found_iff`).
-/

set_option autoImplicit false

namespace Nvnmchain

open Go (Bytes str)
open Collections
open Counter (LargestOrZero)

/-! ## The collections of the imported store -/

section Imported

variable {env : Env} {gs : GenesisState} {order : GenesisOrder gs}

/-- The params are those of the file. -/
theorem imported_params (order : GenesisOrder gs) :
    (gs.imported order).params = some gs.params := by
  rw [GenesisState.imported, foldl_importRecord, GenesisState.importedRegistries,
    foldl_importRegistry]

/-- The records are those of the file, by key. -/
theorem imported_records (order : GenesisOrder gs) :
    (gs.imported order).records = Map.assign Record.key id ∅ gs.records := by
  rw [GenesisState.imported, foldl_importRecord, GenesisState.importedRegistries,
    foldl_importRegistry]
  rfl

/-- The latest indexes are the largest indexes of the file. -/
theorem imported_indices (order : GenesisOrder gs) :
    (gs.imported order).recordIndices = gs.records.foldl (fun m r => m.raise r.group r.index) ∅ := by
  rw [GenesisState.imported, foldl_importRecord, GenesisState.importedRegistries,
    foldl_importRegistry]
  rfl

/-- The record counts are the largest record ids of the file. -/
theorem imported_counts (order : GenesisOrder gs) :
    (gs.imported order).recordsCountByRegistry =
      gs.records.foldl (fun m r => m.raise r.registryId r.recordId)
        (gs.importedRegistries order).recordsCountByRegistry := by
  rw [GenesisState.imported, foldl_importRecord]

/-- The registry count is the largest registry id of the file. -/
theorem imported_registryCount (order : GenesisOrder gs) :
    (gs.imported order).registryCount =
      some ((order.registries.entries.map Prod.snd).foldl largerId 0) := by
  rw [GenesisState.imported, foldl_importRecord, GenesisState.importedRegistries]

/-- The registries are those of the file. -/
theorem imported_registries (order : GenesisOrder gs) (hl : gs.Loadable env) :
    (gs.imported order).registries = gs.registries := by
  rw [GenesisState.imported, foldl_importRecord]
  exact importedRegistries_registries order hl.registryKey

/-- The record ids by registry and checksum are those of the records. -/
theorem imported_byRegistry (order : GenesisOrder gs) :
    (gs.imported order).recordIdByRegistryAndChecksum =
      Map.assign (fun r => (r.registryId, r.checksum)) Record.recordId ∅ gs.records := by
  rw [GenesisState.imported, foldl_importRecord, GenesisState.importedRegistries,
    foldl_importRegistry]
  rfl

/-- The record ids by checksum and registry are those of the records. -/
theorem imported_byChecksum (order : GenesisOrder gs) :
    (gs.imported order).recordIdByChecksumAndRegistry =
      Map.assign (fun r => (r.checksum, r.registryId)) Record.recordId ∅ gs.records := by
  rw [GenesisState.imported, foldl_importRecord, GenesisState.importedRegistries,
    foldl_importRegistry]
  rfl

/-- The stored records are the listed ones, each under its own key. -/
theorem get?_imported_records (order : GenesisOrder gs) (hl : gs.Loadable env)
    {key : UInt64 × UInt64 × UInt64} {record : Record} :
    (gs.imported order).records[key]? = some record ↔ record ∈ gs.records ∧ record.key = key := by
  rw [imported_records]
  constructor
  · intro h
    rcases Map.get?_assign_cases h with ⟨x, hx, hkey, rfl⟩ | ⟨_, hnone⟩
    · exact ⟨hx, hkey⟩
    · rw [Std.ExtTreeMap.getElem?_empty] at hnone
      cases hnone
  · rintro ⟨hrecord, rfl⟩
    refine Map.get?_assign_of_mem Record.key id hrecord fun other hother hkey => ?_
    exact List.inj_on_of_nodup_map hl.recordKeys hother hrecord hkey

/-- Each listed registry has a record count, and nothing else has. -/
theorem mem_imported_counts (order : GenesisOrder gs) (hl : gs.Loadable env) {r : UInt64} :
    r ∈ (gs.imported order).recordsCountByRegistry ↔ r ∈ gs.registries := by
  rw [imported_counts, Map.mem_foldl_raise, mem_importedRegistries_counts,
    importedRegistries_registries order hl.registryKey]
  constructor
  · rintro (⟨record, hrecord, rfl⟩ | hr)
    · exact hl.recordKnown record hrecord
    · exact hr
  · exact .inr

/-- The indices are those of the listed records. -/
theorem mem_imported_indices (order : GenesisOrder gs) {r k : UInt64} :
    (r, k) ∈ (gs.imported order).recordIndices ↔
      ∃ record ∈ gs.records, record.registryId = r ∧ record.recordId = k := by
  rw [imported_indices, Map.mem_foldl_raise]
  simp only [Record.group, Prod.mk.injEq, Std.ExtTreeMap.not_mem_empty, or_false]

end Imported

/-! ## Counters and latest indices -/

/-- A record's versions are in order: its index names a stored version, and that version alone is the
latest. -/
structure Store.LatestAt (s : Store) (r k n : UInt64) : Prop where
  index : s.recordIndices[(r, k)]? = some n
  positive : 1 ≤ n
  stored : ∃ record, s.records[(r, k, n)]? = some record ∧ record.isLatest = true
  only : ∀ (i : UInt64) (record : Record), s.records[(r, k, i)]? = some record →
    record.isLatest = true → i = n

/-- The counters and indices of a store are those of a genesis. -/
structure GenesisState.Rebuilt (gs : GenesisState) (s : Store) : Prop where
  registryCount : ∃ n, s.registryCount = some n ∧
    LargestOrZero (fun r => ∃ registry, gs.registries[r]? = some registry ∧ registry.id = r) n
  recordsCount : ∀ r ∈ gs.registries, ∃ n, s.recordsCountByRegistry[r]? = some n ∧
    LargestOrZero (fun k => ∃ record ∈ gs.records, record.registryId = r ∧ record.recordId = k) n
  recordIndices : ∀ r k, (∃ record ∈ gs.records, record.registryId = r ∧ record.recordId = k) →
    ∃ n, s.LatestAt r k n ∧ LargestOrZero (fun i => ∃ record ∈ gs.records,
      record.registryId = r ∧ record.recordId = k ∧ record.index = i) n
  records : ∀ (r k i : UInt64) (record : Record), s.records[(r, k, i)]? = some record ↔
    record ∈ gs.records ∧ record.registryId = r ∧ record.recordId = k ∧ record.index = i

section Rebuilt

variable {env : Env} {gs : GenesisState}

/-- The record count of a registry is its largest record id, or zero. -/
theorem imported_recordsCount (order : GenesisOrder gs) (hl : gs.Loadable env) {r : UInt64}
    (hr : r ∈ gs.registries) :
    ∃ n, (gs.imported order).recordsCountByRegistry[r]? = some n ∧
      LargestOrZero (fun k => ∃ record ∈ gs.records, record.registryId = r ∧ record.recordId = k)
        n := by
  have hcounted : r ∈ (gs.importedRegistries order).recordsCountByRegistry := by
    rw [mem_importedRegistries_counts, importedRegistries_registries order hl.registryKey]
    exact hr
  obtain ⟨n, hn, hle, _, hone⟩ := Map.foldl_raise_spec Record.registryId Record.recordId
    (l := gs.records) (.inr hcounted)
  rw [imported_counts]
  refine ⟨n, hn, .of_bound ?_ ?_⟩
  · rintro k ⟨record, hrecord, hreg, rfl⟩
    exact hle record hrecord hreg
  · exact hone.imp id fun hzero => importedRegistries_count hzero

/-- The latest version of a group is at its largest index. -/
theorem imported_latestAt (order : GenesisOrder gs) (hl : gs.Loadable env) {record : Record}
    (hrecord : record ∈ gs.records) :
    ∃ n, (gs.imported order).LatestAt record.registryId record.recordId n ∧
      LargestOrZero (fun i => ∃ other ∈ gs.records, other.registryId = record.registryId ∧
        other.recordId = record.recordId ∧ other.index = i) n := by
  obtain ⟨x, hx, hmax⟩ := hl.oneLatest record hrecord
  have hin : ∀ other, other ∈ groupRecords gs.records record.group ↔
      other ∈ gs.records ∧ other.group = record.group := by
    intro other
    simp only [groupRecords, List.mem_filter, decide_eq_true_eq]
  have hlatest : ∀ other, other ∈ gs.records → other.group = record.group →
      other.isLatest = true → other = x := by
    intro other hother hgroup hlatest
    have hmem : other ∈ (groupRecords gs.records record.group).filter (·.isLatest) :=
      List.mem_filter.mpr ⟨(hin other).mpr ⟨hother, hgroup⟩, hlatest⟩
    rw [hx] at hmem
    exact List.mem_singleton.mp hmem
  obtain ⟨hxin, hxlatest⟩ := List.mem_filter.mp (hx ▸ List.mem_singleton_self x :
    x ∈ (groupRecords gs.records record.group).filter (·.isLatest))
  obtain ⟨hxmem, hxgroup⟩ := (hin x).mp hxin
  obtain ⟨hxr, hxk⟩ := Prod.mk.inj hxgroup
  refine ⟨x.index, ⟨?_, ?_, ⟨x, ?_, hxlatest⟩, ?_⟩, .of_bound ?_ (.inl ⟨x, hxmem, hxr, hxk, rfl⟩)⟩
  · rw [imported_indices]
    refine Map.get?_foldl_raise (.inl ⟨x, hxmem, hxgroup, rfl⟩) (fun other hother hgroup => ?_) ?_
    · exact hmax other ((hin other).mpr ⟨hother, hgroup⟩)
    · intro w hw
      rw [Std.ExtTreeMap.getElem?_empty] at hw
      cases hw
  · obtain ⟨_, _, h⟩ := bind_eq_ok.mp (hl.recordValid x hxmem)
    obtain ⟨_, hindex, _⟩ := bind_eq_ok.mp h
    have hne : ¬ x.index ≤ 0 := by simpa using refuseIf_eq_ok.mp hindex
    exact UInt64.le_iff_toNat_le.mpr (UInt64.lt_iff_toNat_lt.mp (UInt64.not_le.mp hne))
  · exact (get?_imported_records order hl).mpr ⟨hxmem, by rw [Record.key, hxr, hxk]⟩
  · intro i other hother hisLatest
    obtain ⟨hmem, hkey⟩ := (get?_imported_records order hl).mp hother
    obtain ⟨hr, hki⟩ := Prod.mk.inj hkey
    obtain ⟨hk, hi⟩ := Prod.mk.inj hki
    rw [← hi, hlatest other hmem (by rw [Record.group, hr, hk, Record.group]) hisLatest]
  · rintro i ⟨other, hother, hr, hk, rfl⟩
    exact hmax other ((hin other).mpr ⟨hother, by rw [Record.group, hr, hk, Record.group]⟩)

/-- **The derived collections are rebuilt from the file.** -/
theorem imported_rebuilt (order : GenesisOrder gs) (hl : gs.Loadable env) :
    gs.Rebuilt (gs.imported order) where
  registryCount := by
    refine ⟨_, imported_registryCount order, .of_bound ?_ ?_⟩
    · rintro r ⟨registry, hget, rfl⟩
      exact (foldl_largerId _).1 registry (List.mem_map.mpr
        ⟨(registry.id, registry), order.registries.mem_entries.mpr hget, rfl⟩)
    · refine ((foldl_largerId _).2.imp id ?_).symm
      rintro ⟨registry, hregistry, hid⟩
      obtain ⟨⟨r, _⟩, he, rfl⟩ := List.mem_map.mp hregistry
      have hget := order.registries.mem_entries.mp he
      rw [← hid]
      exact ⟨_, (hl.registryKey _ _ hget).symm ▸ hget, rfl⟩
  recordsCount r hr := imported_recordsCount order hl hr
  recordIndices r k hex := by
    obtain ⟨record, hrecord, rfl, rfl⟩ := hex
    exact imported_latestAt order hl hrecord
  records r k i record := by
    rw [get?_imported_records order hl, Record.key, Prod.mk.injEq, Prod.mk.injEq]

end Rebuilt

/-! ## The next version -/

/-- Numbering a checksum leaves versions and indices alone. -/
theorem assigned_frame {registryId recordId : UInt64} {checksum : Bytes} {s s₁ : Store}
    (assigned : s.assignRecordId registryId checksum = .ok (recordId, s₁)) :
    s₁.records = s.records ∧ s₁.recordIndices = s.recordIndices := by
  rcases assignRecordId_eq_ok.mp assigned with ⟨_, rfl⟩ | ⟨_, _, _, _, _, rfl⟩
  · exact ⟨rfl, rfl⟩
  · exact ⟨rfl, rfl⟩

/-- `AddRecord` writes versions of its own record only. -/
theorem addRecord_elsewhere {ctx : Ctx} {record : Record} {recordId r k : UInt64} {s s₁ s₂ : Store}
    (assigned : s.assignRecordId record.registryId record.checksum = .ok (recordId, s₁))
    (stored : s₁.storeVersion ctx recordId record = .ok s₂)
    (hne : (record.registryId, recordId) ≠ (r, k)) :
    s₂.recordIndices[(r, k)]? = s.recordIndices[(r, k)]? ∧
      ∀ i : UInt64, s₂.records[(r, k, i)]? = s.records[(r, k, i)]? := by
  obtain ⟨hrecords, hindices⟩ := assigned_frame assigned
  have hkey : ∀ i j : UInt64, (record.registryId, recordId, j) ≠ (r, k, i) := by
    intro i j e
    simp only [Prod.mk.injEq] at e
    exact hne (by rw [e.1, e.2.1])
  rcases storeVersion_eq_ok.mp stored with ⟨_, rfl⟩ | ⟨_, prev, _, rfl⟩
  · refine ⟨?_, fun i => ?_⟩
    · exact (Map.get?_insert_ne _ _ hne).trans (by rw [hindices])
    · exact (Map.get?_insert_ne _ _ (hkey i _)).trans (by rw [hrecords])
  · refine ⟨?_, fun i => ?_⟩
    · exact (Map.get?_insert_ne _ _ hne).trans (by rw [hindices])
    · exact (Map.get?_insert_ne _ _ (hkey i _)).trans
        ((Map.get?_insert_ne _ _ (hkey i _)).trans (by rw [hrecords]))

namespace Store.LatestAt

variable {s s' : Store} {r k n : UInt64}

/-- Only the versions of the record and its index matter. -/
theorem congr (h : s.LatestAt r k n) (hindex : s'.recordIndices[(r, k)]? = s.recordIndices[(r, k)]?)
    (hrecords : ∀ i : UInt64, s'.records[(r, k, i)]? = s.records[(r, k, i)]?) :
    s'.LatestAt r k n where
  index := hindex.trans h.index
  positive := h.positive
  stored := by
    rw [hrecords]
    exact h.stored
  only i record hrecord := h.only i record ((hrecords i).symm.trans hrecord)

/-- A new version finds the one before it, and takes its place as the latest. -/
theorem storeVersion (h : s.LatestAt r k n) (hmax : n ≠ counterMax) (ctx : Ctx) {record : Record}
    (hr : record.registryId = r) :
    ∃ s', s.storeVersion ctx k record = .ok s' ∧ s'.LatestAt r k (n + 1) := by
  subst hr
  have hnext : s.nextIndex record.registryId k = n + 1 := by simp only [Store.nextIndex, h.index]
  have hlt := lt_add_one_of_ne_counterMax hmax
  have hgt : n + 1 > 1 := UInt64.lt_of_le_of_lt h.positive hlt
  have hsub : n + 1 - 1 = n := by grind
  have hne : n ≠ n + 1 := by grind
  obtain ⟨prev, hprev, _⟩ := h.stored
  refine ⟨_, storeVersion_eq_ok.mpr (.inr ⟨hnext ▸ hgt, prev, ?_, rfl⟩), ?_⟩
  · rw [hnext, hsub]
    exact hprev
  rw [hnext, hsub]
  have hget : ∀ i, ((s.withVersion (record.versioned ctx k (n + 1))).withRecord
      (record.registryId, k, n) { prev with isLatest := false }).records[(record.registryId, k, i)]? =
        if n = i then some { prev with isLatest := false }
        else if n + 1 = i then some (record.versioned ctx k (n + 1))
        else s.records[(record.registryId, k, i)]? := by
    intro i
    simp only [Store.withVersion, Store.withRecord, Record.versioned, Map.get?_insert,
      Prod.mk.injEq, true_and]
  refine ⟨Std.ExtTreeMap.getElem?_insert_self, UInt64.le_of_lt hgt, ?_, ?_⟩
  · exact ⟨record.versioned ctx k (n + 1), by rw [hget, if_neg hne, if_pos rfl], rfl⟩
  · intro i version hversion hlatest
    rw [hget] at hversion
    split at hversion
    · cases hversion
      cases hlatest
    · rename_i hi
      split at hversion
      · exact (‹n + 1 = i›).symm
      · exact absurd (h.only i version hversion hlatest).symm hi

end Store.LatestAt

/-- The message is an `AddRecord` that is answered with a record of a registry. -/
def Anchors (env : Env) (ctx : Ctx) (s : Store) (r k : UInt64) (msg : Msg) : Prop :=
  ∃ m record s', msg = .addRecord (some m) ∧ m.record = some record ∧ record.registryId = r ∧
    handle env ctx msg s = .ok (.addRecord k, s')

/-- One message that does not anchor a given record. -/
def StepElsewhere (env : Env) (r k : UInt64) (s s' : Store) : Prop :=
  ∃ ctx msg, ¬ Anchors env ctx s r k msg ∧ s' = deliver env ctx msg s

/-- Messages that do not anchor a record leave its index and its latest version where they were. -/
theorem Store.LatestAt.delivered {env : Env} {ctx : Ctx} {msg : Msg} {s s' : Store} {r k n : UInt64}
    (h : s.LatestAt r k n) (helse : ¬ Anchors env ctx s r k msg) (hd : Delivered env ctx s msg s') :
    s'.LatestAt r k n := by
  cases hd with
  | refused failed => exact h
  | addRegistry accepted signer valid counted creates => exact h.congr rfl fun _ => rfl
  | @addRecord m record sender recordId s₁ s₂ accepted signer carries valid known permitted assigned
      stored =>
    have hne : (record.registryId, recordId) ≠ (r, k) := by
      intro e
      obtain ⟨hr, hk⟩ := Prod.mk.inj e
      exact helse ⟨m, record, _, rfl, carries, hr, hk ▸ accepted⟩
    obtain ⟨hindex, hrecords⟩ := addRecord_elsewhere assigned stored hne
    exact h.congr hindex hrecords
  | @updateRecordStatus m record sender accepted signer valid found permitted =>
    -- a status is not `IsLatest`, so the rewritten version is the latest exactly when it was
    have hsame : ∀ i, (s.withRecord (m.registryId, m.recordId, m.index)
        { record with status := m.status }).records[(r, k, i)]? =
          if (m.registryId, m.recordId, m.index) = (r, k, i) then some { record with status := m.status }
          else s.records[(r, k, i)]? := fun i => Map.get?_insert _ _ _ _
    refine ⟨h.index, h.positive, ?_, fun i version hversion hlatest => ?_⟩
    · obtain ⟨old, hold, hlatest⟩ := h.stored
      rw [hsame]
      split
      · rename_i hkey
        rw [← hkey, found] at hold
        cases hold
        exact ⟨_, rfl, hlatest⟩
      · exact ⟨old, hold, hlatest⟩
    · rw [hsame] at hversion
      split at hversion
      · rename_i hkey
        cases hversion
        exact h.only i record (hkey ▸ found) hlatest
      · exact h.only i version hversion hlatest
  | grantRole signer grants nonzero inScope allowed => exact h.congr rfl fun _ => rfl
  | revokeRole signer revokes nonzero inScope held notLast administered allowed =>
    exact h.congr rfl fun _ => rfl
  | updateParams signer stored authorized valid => exact h.congr rfl fun _ => rfl

/-- The latest version stays where it is while the run goes on elsewhere. -/
theorem Store.LatestAt.run {env : Env} {s s' : Store} {r k n : UInt64} (h : s.LatestAt r k n)
    (hr : r ∈ s.registries) (run : Relation.ReflTransGen (StepElsewhere env r k) s s') :
    s'.LatestAt r k n ∧ r ∈ s'.registries := by
  induction run with
  | refl => exact ⟨h, hr⟩
  | tail _ hstep ih =>
    obtain ⟨ctx, msg, helse, rfl⟩ := hstep
    exact ⟨ih.1.delivered helse (Nvnmchain.delivered env ctx msg _),
      (Nvnmchain.delivered env ctx msg _).mem_registries ih.2⟩

/-- **The import rebuilds the counters, and the next version fits them.** For every genesis the import
accepts, whatever the order of its records, the counters are the largest ids, each record's index is
its largest and names its one latest version. And the first `AddRecord` on a record of the genesis,
once its checks pass, finds the version before it and leaves one latest version, whatever was
delivered in between, as long as the index counts on. -/
theorem initGenesis_rebuilds {env : Env} {gs : GenesisState} {order : GenesisOrder gs} {s₀ : Store}
    (h : initGenesis env gs order Store.empty = .ok s₀) :
    gs.Rebuilt s₀ ∧ ∀ (r k n : UInt64) (s : Store), s₀.recordIndices[(r, k)]? = some n →
      n ≠ counterMax → Relation.ReflTransGen (StepElsewhere env r k) s₀ s →
      ∀ (ctx : Ctx) (sender : Bytes) (record : Record) (s₁ : Store), record.registryId = r →
        validateRecordForCreate record = .ok () →
        checkPermission env s sender r record.checksum [roleAdmin, roleEditor] = .ok () →
        s.assignRecordId r record.checksum = .ok (k, s₁) →
        ∃ s', s.addRecord env ctx sender record = .ok (k, s') ∧ s'.LatestAt r k (n + 1) := by
  obtain ⟨hl, -, rfl⟩ := initGenesis_eq_ok.mp h
  refine ⟨imported_rebuilt order hl, ?_⟩
  rintro r k n s hindex hmax run ctx sender record s₁ rfl hvalid hpermitted hassigned
  obtain ⟨listed, hlisted, hr, hk⟩ := (mem_imported_indices order).mp (Map.mem_of_get? hindex)
  have hfirst : (gs.imported order).LatestAt record.registryId k n := by
    obtain ⟨n', hlatest, -⟩ := imported_latestAt order hl hlisted
    rw [hr, hk] at hlatest
    cases hindex.symm.trans hlatest.index
    exact hlatest
  have hknown : record.registryId ∈ (gs.imported order).registries := by
    rw [imported_registries order hl, ← hr]
    exact hl.recordKnown listed hlisted
  obtain ⟨hlatest, hmem⟩ := hfirst.run hknown run
  obtain ⟨hrecords, hindices⟩ := assigned_frame hassigned
  have hassignedLatest : s₁.LatestAt record.registryId k n :=
    hlatest.congr (by rw [hindices]) fun i => by rw [hrecords]
  obtain ⟨s', hstored, hnew⟩ := hassignedLatest.storeVersion hmax ctx rfl
  obtain ⟨registry, hregistry⟩ := Map.mem_iff.mp hmem
  refine ⟨s', ?_, hnew⟩
  refine bind_eq_ok.mpr ⟨(), wrapInvalidRequest_eq_ok.mpr hvalid, ?_⟩
  refine bind_eq_ok.mpr ⟨registry, getOrNotFound_eq_ok.mpr hregistry, ?_⟩
  refine bind_eq_ok.mpr ⟨(), hpermitted, ?_⟩
  refine bind_eq_ok.mpr ⟨(k, s₁), hassigned, ?_⟩
  exact bind_eq_ok.mpr ⟨s', hstored, rfl⟩

/-- The gapped genesis, with account 1 as the admin of registry 7. -/
def editableGenesis : GenesisState :=
  { gappedGenesis with
    roleMembers := Map.assign Prod.fst Prod.snd ∅
      [((registryRole smallEnv 7 roleAdmin).bytes ++ [1], [])] }

/-- The store it loads as. -/
def editableStore : Store := editableGenesis.imported (.sorted _)

theorem initGenesis_editableGenesis :
    initGenesis smallEnv editableGenesis (.sorted _) Store.empty = .ok editableStore := by
  have hvalid : editableGenesis.validate smallEnv (.sorted _) = .ok () := by decide +kernel
  exact (validate_eq_ok.mp hvalid).initGenesis_eq (by decide) (by decide +kernel)

/-- An imported registry goes on with the next record id and the next index. -/
theorem initGenesis_rebuilds_editable :
    editableGenesis.Rebuilt editableStore ∧
      ∃ s', editableStore.addRecord smallEnv smallCtx [1]
        { smallRecord "c0" with registryId := 7 } = .ok (3, s') ∧ s'.LatestAt 7 3 6 := by
  obtain ⟨hrebuilt, hnext⟩ := initGenesis_rebuilds initGenesis_editableGenesis
  refine ⟨hrebuilt, hnext 7 3 5 editableStore (by decide +kernel) (by decide) .refl smallCtx [1]
    { smallRecord "c0" with registryId := 7 } editableStore rfl (by decide +kernel)
    (by decide +kernel) ?_⟩
  exact assignRecordId_eq_ok.mpr (.inl ⟨by decide +kernel, rfl⟩)

/-! ## The checksum indexes -/

/-- Every stored version is found by its checksum, in both indexes. -/
def Store.FoundByChecksum (s : Store) : Prop :=
  ∀ (r k i : UInt64) (record : Record), s.records[(r, k, i)]? = some record →
    s.recordIdByRegistryAndChecksum[(r, record.checksum)]? = some k ∧
      s.recordIdByChecksumAndRegistry[(record.checksum, r)]? = some k

/-- The genesis with another list of records. -/
def GenesisState.withRecords (gs : GenesisState) (records : List Record) : GenesisState :=
  { gs with records }

/-- The checksum indexes are the same for every order of the records. -/
def GenesisState.IndexesOrderFree (env : Env) (gs : GenesisState) : Prop :=
  ∀ (l l' : List Record), l.Perm gs.records → l'.Perm gs.records →
    ∀ (order : GenesisOrder (gs.withRecords l)) (order' : GenesisOrder (gs.withRecords l'))
      (s s' : Store), initGenesis env (gs.withRecords l) order Store.empty = .ok s →
      initGenesis env (gs.withRecords l') order' Store.empty = .ok s' →
      s.recordIdByRegistryAndChecksum = s'.recordIdByRegistryAndChecksum ∧
        s.recordIdByChecksumAndRegistry = s'.recordIdByChecksumAndRegistry

/-- No two records of a registry share a checksum under different record ids. -/
def GenesisState.ChecksumsAgree (gs : GenesisState) : Prop :=
  ∀ a ∈ gs.records, ∀ b ∈ gs.records, a.registryId = b.registryId → a.checksum = b.checksum →
    a.recordId = b.recordId

section Checksums

variable {env : Env} {gs : GenesisState}

/-- The order of the versions does not matter. -/
theorem OneLatest.perm {l l' : List Record} (h : OneLatest l) (hp : l'.Perm l) : OneLatest l' := by
  obtain ⟨x, hx, hle⟩ := h
  refine ⟨x, ?_, fun r hr => hle r (hp.mem_iff.mp hr)⟩
  exact List.perm_singleton.mp (hx ▸ hp.filter _)

/-- The records of a loadable genesis load in every order. -/
theorem GenesisState.Loadable.perm (hl : gs.Loadable env) {l : List Record}
    (hp : l.Perm gs.records) : (gs.withRecords l).Loadable env where
  registryKey := hl.registryKey
  registryValid := hl.registryValid
  recordValid record hrecord := hl.recordValid record (hp.mem_iff.mp hrecord)
  recordKnown record hrecord := hl.recordKnown record (hp.mem_iff.mp hrecord)
  recordEncodes record hrecord := hl.recordEncodes record (hp.mem_iff.mp hrecord)
  recordKeys := (hp.map Record.key).nodup_iff.mpr hl.recordKeys
  oneLatest record hrecord := (hl.oneLatest record (hp.mem_iff.mp hrecord)).perm (hp.filter _)

/-- Where checksums agree, an index is a table of the records, under either order of its key. -/
theorem index_of_agree {κ : Type} [Ord κ] [Std.TransOrd κ] [Std.LawfulEqOrd κ]
    (key : UInt64 × Bytes → κ) (hkey : Function.Injective key) {l : List Record}
    (hagree : ∀ a ∈ l, ∀ b ∈ l, a.registryId = b.registryId → a.checksum = b.checksum →
      a.recordId = b.recordId) {record : Record} (hrecord : record ∈ l) :
    (Map.assign (fun r : Record => key (r.registryId, r.checksum)) Record.recordId ∅
      l)[key (record.registryId, record.checksum)]? = some record.recordId := by
  refine Map.get?_assign_of_mem (fun r : Record => key (r.registryId, r.checksum)) Record.recordId
    hrecord fun other hother e => ?_
  obtain ⟨hr, hc⟩ := Prod.mk.inj (hkey e)
  exact hagree other hother record hrecord hr hc

/-- Where checksums agree, an index is the same for every order of the records. -/
theorem index_perm {κ : Type} [Ord κ] [Std.TransOrd κ] [Std.LawfulEqOrd κ]
    (key : UInt64 × Bytes → κ) (hkey : Function.Injective key) (hagree : gs.ChecksumsAgree)
    {l l' : List Record} (hp : l.Perm gs.records) (hp' : l'.Perm gs.records) :
    Map.assign (fun r : Record => key (r.registryId, r.checksum)) Record.recordId ∅ l =
      Map.assign (fun r : Record => key (r.registryId, r.checksum)) Record.recordId ∅ l' := by
  have hin : ∀ {l : List Record}, l.Perm gs.records → ∀ a ∈ l, ∀ b ∈ l,
      a.registryId = b.registryId → a.checksum = b.checksum → a.recordId = b.recordId :=
    fun hp a ha b hb => hagree a (hp.mem_iff.mp ha) b (hp.mem_iff.mp hb)
  refine Map.assign_eq (fun record hrecord => ?_) fun k hk => ?_
  · exact index_of_agree key hkey (hin hp') ((hp.trans hp'.symm).mem_iff.mp hrecord)
  · rcases Map.mem_assign.mp hk with ⟨record, hrecord, hkey'⟩ | hempty
    · exact ⟨record, (hp.trans hp'.symm).mem_iff.mpr hrecord, hkey'⟩
    · exact absurd hempty Std.ExtTreeMap.not_mem_empty

/-- A record moved to the end of the list is the one its checksum is found as. -/
theorem index_of_last {κ : Type} [Ord κ] [Std.TransOrd κ] (key : Record → κ) (l : List Record)
    (record : Record) :
    (Map.assign key Record.recordId ∅ (l ++ [record]))[key record]? = some record.recordId := by
  rw [Map.assign, List.foldl_append]
  exact Std.ExtTreeMap.getElem?_insert_self

/-- Every record is found by its checksum just where a checksum has one id in its registry. -/
theorem foundByChecksum_imported_iff (order : GenesisOrder gs) (hl : gs.Loadable env) :
    (gs.imported order).FoundByChecksum ↔ gs.ChecksumsAgree := by
  constructor
  · intro hfound a ha b hb hr hc
    have hstored := fun record (h : record ∈ gs.records) =>
      (hfound record.registryId record.recordId record.index record
        ((get?_imported_records order hl).mpr ⟨h, rfl⟩)).1
    have hboth := hstored b hb
    rw [← hr, ← hc, hstored a ha] at hboth
    exact Option.some.inj hboth
  · intro hagree r k i record hrecord
    obtain ⟨hmem, hkey⟩ := (get?_imported_records order hl).mp hrecord
    cases hkey
    rw [imported_byRegistry, imported_byChecksum]
    exact ⟨index_of_agree id Function.injective_id hagree hmem,
      index_of_agree Prod.swap Prod.swap_injective hagree hmem⟩

/-- The order of the records does not matter just where a checksum has one id in its registry. -/
theorem indexesOrderFree_iff (hl : gs.Loadable env)
    (hlong : ∀ (k v : Bytes), gs.roleMembers[k]? = some v → 32 ≤ k.length) :
    gs.IndexesOrderFree env ↔ gs.ChecksumsAgree := by
  constructor
  · -- the record that comes last wins, and either of two records may come last
    intro hfree a ha b hb hr hc
    have hpa := (List.perm_append_singleton a (gs.records.erase a)).trans
      (List.perm_cons_erase ha).symm
    have hpb := (List.perm_append_singleton b (gs.records.erase b)).trans
      (List.perm_cons_erase hb).symm
    have hloads : ∀ {l : List Record} (hp : l.Perm gs.records),
        initGenesis env (gs.withRecords l) (.sorted _) Store.empty =
          .ok ((gs.withRecords l).imported (.sorted _)) :=
      fun hp => initGenesis_eq_ok.mpr ⟨hl.perm hp, hlong, rfl⟩
    obtain ⟨hsame, -⟩ := hfree _ _ hpa hpb _ _ _ _ (hloads hpa) (hloads hpb)
    rw [imported_byRegistry, imported_byRegistry] at hsame
    have hlast := fun x => index_of_last (fun r : Record => (r.registryId, r.checksum))
      (gs.records.erase x) x
    have hboth := (congrArg (·[(b.registryId, b.checksum)]?) hsame).trans (hlast b)
    rw [← hr, ← hc] at hboth
    exact Option.some.inj ((hlast a).symm.trans hboth)
  · intro hagree l l' hp hp' order order' s s' hs hs'
    obtain ⟨-, -, rfl⟩ := initGenesis_eq_ok.mp hs
    obtain ⟨-, -, rfl⟩ := initGenesis_eq_ok.mp hs'
    rw [imported_byRegistry, imported_byRegistry, imported_byChecksum, imported_byChecksum]
    exact ⟨index_perm id Function.injective_id hagree hp hp',
      index_perm Prod.swap Prod.swap_injective hagree hp hp'⟩

end Checksums

/-- **A record of a loaded genesis is found by its checksum exactly when its registry has no other
record of that checksum.** In a genesis that the import accepts, every version is found in both
indexes, and both indexes are the same for every order of the records, exactly when no two records of
a registry share a checksum under different ids. -/
theorem checksums_found_iff {env : Env} {gs : GenesisState} {order : GenesisOrder gs} {s : Store}
    (hload : initGenesis env gs order Store.empty = .ok s) :
    (s.FoundByChecksum ↔ gs.ChecksumsAgree) ∧ (gs.IndexesOrderFree env ↔ gs.ChecksumsAgree) := by
  obtain ⟨hl, hlong, rfl⟩ := initGenesis_eq_ok.mp hload
  exact ⟨foundByChecksum_imported_iff order hl, indexesOrderFree_iff hl hlong⟩

/-- A file whose checksums agree loads with both. -/
theorem checksums_found_editable :
    editableStore.FoundByChecksum ∧ editableGenesis.IndexesOrderFree smallEnv := by
  have hagree : editableGenesis.ChecksumsAgree := by
    unfold GenesisState.ChecksumsAgree
    decide
  obtain ⟨hfound, hfree⟩ := checksums_found_iff initGenesis_editableGenesis
  exact ⟨hfound.mpr hagree, hfree.mpr hagree⟩

/-- One checksum under two record ids of a registry. -/
def sharedGenesis : GenesisState where
  params := smallParams
  registries := Map.assign Registry.id id ∅ [smallRegistry 1]
  records :=
    [{ smallRecord "c0" with recordId := 1, index := 1, isLatest := true },
     { smallRecord "c0" with recordId := 2, index := 1, isLatest := true }]
  roleAdmins := ∅
  roleMembers := ∅

/-- `Validate` and the import accept it. Record 1 is not found by its checksum, and is when the two
records change places. -/
theorem checksum_lost :
    sharedGenesis.validate smallEnv (.sorted _) = .ok () ∧
      (initGenesis smallEnv sharedGenesis (.sorted _) Store.empty).map (·.records.toList.map (·.1)) =
        .ok [(1, 1, 1), (1, 2, 1)] ∧
      (initGenesis smallEnv sharedGenesis (.sorted _) Store.empty).map
        (·.recordIdByRegistryAndChecksum.toList) = .ok [((1, str "c0"), 2)] ∧
      (initGenesis smallEnv sharedGenesis (.sorted _) Store.empty).map
        (·.recordIdByChecksumAndRegistry.toList) = .ok [((str "c0", 1), 2)] ∧
      (initGenesis smallEnv (sharedGenesis.withRecords sharedGenesis.records.reverse) (.sorted _)
        Store.empty).map (·.recordIdByRegistryAndChecksum.toList) = .ok [((1, str "c0"), 1)] := by
  refine ⟨?_, ?_, ?_, ?_, ?_⟩ <;> decide +kernel

end Nvnmchain
