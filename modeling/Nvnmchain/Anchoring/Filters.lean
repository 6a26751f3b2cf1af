import Nvnmchain.Anchoring.Listing

/-!
# The filters of a records query

A request of `Records` filters by registry, checksum, record id and index, and the routes of the query
overlap: a checksum within a registry is turned into a record id, and a record id is looked up as it
is. Here is which filters an answer satisfies, over all the routes. They are all of those that are
set, with one exception: a checksum that stands beside a record id is not looked at.
-/

set_option autoImplicit false

namespace Nvnmchain

open Go (Bytes str)
open Collections

/-- The filters of a request, all of those that are set; without an index the latest version is asked
for. -/
structure QueryRecordsRequest.Admits (req : QueryRecordsRequest) (record : Record) : Prop where
  registryId : req.registryId ≠ 0 → record.registryId = req.registryId
  checksum : req.checksum ≠ [] → record.checksum = req.checksum
  recordId : req.recordId ≠ 0 → record.recordId = req.recordId
  index : req.index ≠ 0 → record.index = req.index
  latest : req.index = 0 → record.isLatest = true

/-- A query for one version answers the version it names, or the latest one. -/
theorem singleRecord_eq_ok {s : Store} {req : QueryRecordsRequest} {k : UInt64}
    {resp : QueryRecordsResponse} :
    singleRecord s req k = .ok resp ↔ ∃ (i : UInt64) (record : Record),
      (req.index = 0 → s.recordIndices[(req.registryId, k)]? = some i) ∧
      (req.index ≠ 0 → i = req.index) ∧ s.records[(req.registryId, k, i)]? = some record ∧
      resp = ⟨[record], none⟩ := by
  unfold singleRecord
  by_cases hindex : req.index = 0
  · simp only [if_pos hindex, bind_eq_ok, liftErr_eq_ok, latestRecord_eq_ok]
    constructor
    · rintro ⟨record, ⟨i, hi, hrecord⟩, hresp⟩
      cases hresp
      exact ⟨i, record, fun _ => hi, fun h => absurd hindex h, hrecord, rfl⟩
    · rintro ⟨i, record, hi, _, hrecord, rfl⟩
      exact ⟨record, ⟨i, hi hindex, hrecord⟩, rfl⟩
  · simp only [if_neg hindex, bind_eq_ok, indexedRecord, liftErr_eq_ok, getOrNotFound_eq_ok]
    constructor
    · rintro ⟨record, hrecord, hresp⟩
      cases hresp
      exact ⟨req.index, record, fun h => absurd h hindex, fun _ => rfl, hrecord, rfl⟩
    · rintro ⟨i, record, _, hi, hrecord, rfl⟩
      exact ⟨record, hi hindex ▸ hrecord, rfl⟩

/-- The record a request names within a registry, by its id or else by its checksum. -/
theorem resolve_named {s : Store} {req : QueryRecordsRequest} {k : UInt64}
    (hregistry : req.registryId ≠ 0) (hnamed : req.recordId ≠ 0 ∨ req.checksum ≠ [])
    (hresolve : req.resolve s = .ok k) :
    (req.recordId ≠ 0 → k = req.recordId) ∧ (req.recordId = 0 →
      s.recordIdByRegistryAndChecksum[(req.registryId, req.checksum)]? = some k) := by
  by_cases hrecord : req.recordId = 0
  · have hchecksum := hnamed.resolve_left (not_not.mpr hrecord)
    simp only [QueryRecordsRequest.resolve, hrecord, hchecksum, hregistry, ne_eq,
      not_false_eq_true, decide_true, Bool.and_self, if_true, getOrNotFound_eq_ok] at hresolve
    exact ⟨fun h => absurd hrecord h, fun _ => hresolve⟩
  · simp only [QueryRecordsRequest.resolve, hrecord, decide_false, Bool.false_and,
      Bool.false_eq_true, if_false] at hresolve
    exact ⟨fun _ => (Except.ok.inj hresolve).symm, fun h => absurd h hrecord⟩

/-- A checksum that is looked up over all registries has no zero byte. -/
theorem Routed.zero_notMem {s : Store} {req : QueryRecordsRequest} {k : UInt64}
    {resp : QueryRecordsResponse} (h : Routed s req k resp)
    (hone : req.registryId = 0 ∨ req.checksum = []) : (0 : UInt8) ∉ req.checksum := by
  by_cases hchecksum : req.checksum = []
  · rw [hchecksum]
    exact List.not_mem_nil
  · have hregistry := hone.resolve_right hchecksum
    obtain ⟨_, hencodes, _⟩ := bind_eq_ok.mp ((routed_checksum hregistry hchecksum).mp h)
    exact encodeNonTerminal_eq_ok.mp (liftErr_eq_ok.mp hencodes)

namespace StoreInv

variable {s : Store} {req : QueryRecordsRequest} {resp : QueryRecordsResponse}

/-- The ids the checksum index gives are not zero. -/
theorem recordId_ne_zero (h : StoreInv s) {r k : UInt64} {c : Bytes}
    (hk : s.recordIdByRegistryAndChecksum[(r, c)]? = some k) : k ≠ 0 := by
  obtain ⟨n, _, hpos, _⟩ := (h.indices r k).mp ((h.numbered r k).mp ⟨c, hk⟩)
  rintro rfl
  exact absurd hpos (by decide)

/-- A listing that is answered is answered with a page of those that match. -/
theorem eq_listResponse (h : StoreInv s) (hrecord : req.recordId = 0) (hindex : req.index = 0)
    (hone : req.registryId = 0 ∨ req.checksum = []) (hq : queryRecords s req = .ok resp) :
    resp = listResponse req ((newPaginator req.pagination).taken (s.matching req)) := by
  obtain ⟨-, -, k, -, hrouted⟩ := queryRecords_eq_ok.mp hq
  rw [h.queryRecords_eq hrecord hindex (hrouted.zero_notMem hone) hone] at hq
  exact (Except.ok.inj hq).symm

/-- A request is answered with one record, or with a page of those that match. -/
theorem queryRecords_cases (h : StoreInv s) (hq : queryRecords s req = .ok resp) :
    (∃ (k i : UInt64) (record : Record), req.registryId ≠ 0 ∧
      (req.recordId ≠ 0 → k = req.recordId) ∧
      (req.recordId = 0 → s.recordIdByRegistryAndChecksum[(req.registryId, req.checksum)]? = some k) ∧
      (req.index = 0 → s.recordIndices[(req.registryId, k)]? = some i) ∧
      (req.index ≠ 0 → i = req.index) ∧ s.records[(req.registryId, k, i)]? = some record ∧
      resp.records = [record]) ∨
    (req.recordId = 0 ∧ req.index = 0 ∧ ∀ record ∈ resp.records, record ∈ s.matching req) := by
  obtain ⟨hregistryId, hindexed, k, hresolve, hrouted⟩ := queryRecords_eq_ok.mp hq
  by_cases hnamed : req.registryId ≠ 0 ∧ (req.recordId ≠ 0 ∨ req.checksum ≠ [])
  · obtain ⟨hregistry, hone⟩ := hnamed
    have hk := resolve_named hregistry hone hresolve
    have hzero : k ≠ 0 := by
      by_cases hrecord : req.recordId = 0
      · exact h.recordId_ne_zero (hk.2 hrecord)
      · exact hk.1 hrecord ▸ hrecord
    obtain ⟨i, record, hi, hi', hrecord, rfl⟩ :=
      singleRecord_eq_ok.mp ((routed_single hregistry hzero).mp hrouted)
    exact .inl ⟨k, i, record, hregistry, hk.1, hk.2, hi, hi', hrecord, rfl⟩
  · have hrecord : req.recordId = 0 := by
      by_contra hne
      exact hnamed ⟨hregistryId hne, .inl hne⟩
    have hindex : req.index = 0 := by
      by_contra hne
      exact hnamed (hindexed hne)
    have hone : req.registryId = 0 ∨ req.checksum = [] := by
      by_contra hne
      rw [not_or] at hne
      exact hnamed ⟨hne.1, .inr hne.2⟩
    rw [h.eq_listResponse hrecord hindex hone hq]
    exact .inr ⟨hrecord, hindex, fun record hin => (Paginator.taken_sublist _ _).mem hin⟩

end StoreInv

/-- **When the filters of `Records` hold**, in every store of a run in which no counter wraps. The
checksum of a request that also names a record by its id is not looked at: the records of the answer
satisfy every filter that is set exactly when there is no such checksum, or it is the one of the
record. -/
theorem records_admitted_iff {env : Env} {names : Set Bytes} {s : Store} (h : Reachable env names s)
    {req : QueryRecordsRequest} {resp : QueryRecordsResponse}
    (hq : queryRecords s req = .ok resp) :
    (∀ record ∈ resp.records, req.Admits record) ↔
      req.recordId = 0 ∨ req.checksum = [] ∨
        s.recordIdByRegistryAndChecksum[(req.registryId, req.checksum)]? = some req.recordId := by
  have inv := h.storeInv
  rcases inv.queryRecords_cases hq with
    ⟨k, i, record, hregistry, hk, hresolved, hlatest, hindex, hrecord, hresp⟩ |
    ⟨hnone, hindex, hmatching⟩
  · obtain ⟨hr, hkey, hi⟩ := inv.recordKey _ k i record hrecord
    have hown := inv.carried _ k i record hrecord
    rw [hresp]
    simp only [List.mem_singleton, forall_eq]
    constructor
    · intro hadmits
      by_cases hzero : req.recordId = 0
      · exact .inl hzero
      · refine .inr ?_
        by_cases hempty : req.checksum = []
        · exact .inl hempty
        · rw [← hadmits.checksum hempty, ← hk hzero]
          exact .inr hown
    · intro hcond
      refine ⟨fun _ => hr, fun hset => ?_, fun hset => hkey.trans (hk hset),
        fun hset => hi.trans (hindex hset), fun hzero => ?_⟩
      · have hchecksum : s.recordIdByRegistryAndChecksum[(req.registryId, req.checksum)]? = some k := by
          by_cases hzero : req.recordId = 0
          · exact hresolved hzero
          · rw [hk hzero]
            exact (hcond.resolve_left hzero).resolve_left hset
        exact inv.unique _ k _ _ hown hchecksum
      · exact (inv.latest _ k i i record hrecord (hlatest hzero)).mpr rfl
  · refine iff_of_true (fun record hin => ?_) (.inl hnone)
    obtain ⟨hin, hselects⟩ := List.mem_filter.mp (hmatching record hin)
    rw [QueryRecordsRequest.selects_eq_true] at hselects
    exact ⟨hselects.1.resolve_left, hselects.2.resolve_left, fun hset => absurd hnone hset,
      fun hset => absurd hindex hset, fun _ => (Store.mem_latestVersions.mp hin).2⟩

/-- The small run's registry has one record: asked for by its id, it is answered in its latest
version, whatever the checksum. -/
theorem queryRecords_smallStore (checksum : Bytes) :
    queryRecords smallStore ⟨1, checksum, 1, 0, none⟩ =
      .ok ⟨[(smallRecord "c0").versioned smallCtx 1 2], none⟩ := by
  have hone : (1 : UInt64) ≠ 0 := by decide
  have hindex : smallStore.recordIndices[((1 : UInt64), (1 : UInt64))]? = some 2 := by decide +kernel
  have hrecord : smallStore.records[((1 : UInt64), (1 : UInt64), (2 : UInt64))]? =
      some ((smallRecord "c0").versioned smallCtx 1 2) := by decide +kernel
  refine queryRecords_eq_ok.mpr ⟨fun _ => hone, fun h => absurd rfl h, 1, rfl, ?_⟩
  exact .single hone hone (singleRecord_eq_ok.mpr
    ⟨2, _, fun _ => hindex, fun h => absurd rfl h, hrecord, rfl⟩)

/-- The second version of the small chain is found by its checksum and registry. -/
theorem records_admitted_iff_smallStore :
    (⟨1, str "c0", 1, 0, none⟩ : QueryRecordsRequest).Admits
      ((smallRecord "c0").versioned smallCtx 1 2) :=
  (records_admitted_iff reachable_smallStore (queryRecords_smallStore (str "c0"))).mpr
    (.inr (.inr (by decide +kernel))) _ (List.mem_singleton.mpr rfl)

/-- **A checksum beside a record id is ignored.** Asked for record 1 of registry 1 with the checksum
`c1`, the query answers the record with the checksum `c0`. -/
theorem records_answers_other_checksum :
    Reachable smallEnv Set.univ smallStore ∧
      queryRecords smallStore ⟨1, str "c1", 1, 0, none⟩ =
        .ok ⟨[(smallRecord "c0").versioned smallCtx 1 2], none⟩ ∧
      ¬ (⟨1, str "c1", 1, 0, none⟩ : QueryRecordsRequest).Admits
        ((smallRecord "c0").versioned smallCtx 1 2) := by
  refine ⟨reachable_smallStore, queryRecords_smallStore _, fun h => ?_⟩
  exact absurd (h.checksum (by decide)) (by decide)

end Nvnmchain
