import Nvnmchain.Anchoring.Paging
import Nvnmchain.Anchoring.StoreInv

/-!
# Listing records

What `Records` lists when a request names no record. The latest versions that match are a list of
their own, `Store.matching`: filtered from the stored versions, in the store's own order, which is by
registry and then by record (`sorted_latestVersions`). The walks of the query reach them by three
ways, and one of them looks its records up only after the page was taken; each comes to a page of that
list (`StoreInv.queryRecords_eq`), since the invariants of the store leave no lookup without an answer.

`records_listed_exactly` puts this together with the laws of pages. It has one condition of its own:
the paginator counts in 64 bits, and a run can store more records than that in several registries.
-/

set_option autoImplicit false

namespace Nvnmchain

open Go (Bytes str)
open Collections

/-! ## The latest versions -/

/-- What tells a record from the others: its registry, and its id there. -/
def Record.ref (record : Record) : UInt64 × UInt64 := (record.registryId, record.recordId)

/-- The order of a listing: by registry, then by record. -/
def Record.Before (a b : Record) : Prop := Prod.Lex (· < ·) (· < ·) a.ref b.ref

/-- The versions that are the latest of their record. -/
def Store.latestVersions (s : Store) : List Record :=
  (s.records.toList.map Prod.snd).filter (·.isLatest)

/-- The registry and the checksum of a request, as a filter. -/
def QueryRecordsRequest.selects (req : QueryRecordsRequest) (record : Record) : Bool :=
  (req.registryId = 0 || record.registryId = req.registryId) &&
    (req.checksum = [] || record.checksum = req.checksum)

/-- A record is selected if the registry and the checksum match, where they are given. -/
theorem QueryRecordsRequest.selects_eq_true {req : QueryRecordsRequest} {record : Record} :
    req.selects record = true ↔
      (req.registryId = 0 ∨ record.registryId = req.registryId) ∧
        (req.checksum = [] ∨ record.checksum = req.checksum) := by
  rw [selects, Bool.and_eq_true, Bool.or_eq_true, Bool.or_eq_true, decide_eq_true_eq,
    decide_eq_true_eq, decide_eq_true_eq, decide_eq_true_eq]

/-- What a listing ranges over. -/
def Store.matching (s : Store) (req : QueryRecordsRequest) : List Record :=
  s.latestVersions.filter req.selects

/-- The key order of references. -/
theorem compare_ref_eq_lt {a b : UInt64 × UInt64} :
    compare a b = .lt ↔ Prod.Lex (· < ·) (· < ·) a b := by
  have hlex : compare a b = (compare a.1 b.1).then (compare a.2 b.2) := rfl
  rw [hlex, Ordering.then_eq_lt, Std.compare_eq_lt, Std.compare_eq_iff_eq, Std.compare_eq_lt,
    Prod.lex_def]

instance : Std.Irrefl Record.Before where
  irrefl a h := by
    rcases Prod.lex_def.mp h with h | ⟨_, h⟩
    · exact UInt64.lt_irrefl _ h
    · exact UInt64.lt_irrefl _ h

/-- Records in order are different records. -/
theorem Record.Before.ref_ne {a b : Record} (h : a.Before b) : a.ref ≠ b.ref := by
  intro href
  rw [Record.Before, href] at h
  exact Std.Irrefl.irrefl (r := Record.Before) b h

instance : Std.Antisymm Record.Before where
  antisymm a b hab hba := by
    have hlt := compare_ref_eq_lt.mpr hab
    rw [Std.OrientedCmp.gt_iff_lt.mpr (compare_ref_eq_lt.mpr hba)] at hlt
    cases hlt

/-- The latest versions are the stored records that are marked so. -/
theorem Store.mem_latestVersions {s : Store} {record : Record} :
    record ∈ s.latestVersions ↔
      (∃ key : UInt64 × UInt64 × UInt64, s.records[key]? = some record) ∧ record.isLatest = true := by
  rw [latestVersions, List.mem_filter, List.mem_map]
  refine and_congr_left fun _ => ⟨?_, ?_⟩
  · rintro ⟨⟨key, _⟩, he, rfl⟩
    exact ⟨key, (Iteration.sorted s.records).mem_entries.mp he⟩
  · rintro ⟨key, hkey⟩
    exact ⟨(key, record), (Iteration.sorted s.records).mem_entries.mpr hkey, rfl⟩

/-- The latest version is the one the index names. -/
theorem latestRecord_eq_ok {s : Store} {r k : UInt64} {record : Record} :
    latestRecord s r k = .ok record ↔
      ∃ i, s.recordIndices[(r, k)]? = some i ∧ s.records[(r, k, i)]? = some record := by
  simp only [latestRecord, bind_eq_ok, getOrNotFound_eq_ok]

namespace StoreInv

variable {s : Store}

/-- The latest version of a record is the one the index names. -/
theorem latestRecord_iff (h : StoreInv s) {r k : UInt64} {record : Record} :
    latestRecord s r k = .ok record ↔ record ∈ s.latestVersions ∧ record.ref = (r, k) := by
  rw [latestRecord_eq_ok, Store.mem_latestVersions]
  constructor
  · rintro ⟨i, hi, hrecord⟩
    obtain ⟨hr, hk, _⟩ := h.recordKey r k i record hrecord
    exact ⟨⟨⟨_, hrecord⟩, (h.latest r k i i record hrecord hi).mpr rfl⟩, by rw [Record.ref, hr, hk]⟩
  · rintro ⟨⟨⟨⟨r', k', i⟩, hrecord⟩, hlatest⟩, href⟩
    obtain ⟨hr, hk, _⟩ := h.recordKey r' k' i record hrecord
    obtain ⟨n, hn, _⟩ := (h.records r' k' i).mp (Map.mem_of_get? hrecord)
    have hi := (h.latest r' k' i n record hrecord hn).mp hlatest
    rw [Record.ref, hr, hk] at href
    obtain ⟨rfl, rfl⟩ := Prod.mk.inj href
    exact ⟨i, hi ▸ hn, hrecord⟩

/-- Every record the index names has a latest version. -/
theorem latestRecord_isSome (h : StoreInv s) {r k : UInt64} (hk : (r, k) ∈ s.recordIndices) :
    ∃ record, latestRecord s r k = .ok record := by
  obtain ⟨i, hi⟩ := Map.mem_iff.mp hk
  obtain ⟨record, hrecord⟩ := h.latest_stored hi
  exact ⟨record, latestRecord_eq_ok.mpr ⟨i, hi, hrecord⟩⟩

/-- A latest version is where the indexes say it is. -/
theorem located (h : StoreInv s) {record : Record} (hin : record ∈ s.latestVersions) :
    s.recordIndices[record.ref]? = some record.index ∧
      s.records[(record.registryId, record.recordId, record.index)]? = some record ∧
      s.recordIdByRegistryAndChecksum[(record.registryId, record.checksum)]? =
        some record.recordId := by
  obtain ⟨i, hi, hrecord⟩ := latestRecord_eq_ok.mp (h.latestRecord_iff.mpr ⟨hin, rfl⟩)
  obtain ⟨_, _, rfl⟩ := h.recordKey _ _ i record hrecord
  exact ⟨hi, hrecord, h.carried _ _ _ record hrecord⟩

/-- The store keeps the latest versions in the order of a listing. -/
theorem sorted_latestVersions (h : StoreInv s) : s.latestVersions.Pairwise Record.Before := by
  refine List.pairwise_filter.mpr (List.pairwise_map.mpr ?_)
  refine Std.ExtTreeMap.ordered_keys_toList.imp_of_mem ?_
  rintro ⟨⟨r, k, i⟩, v⟩ ⟨⟨r', k', i'⟩, v'⟩ he he' hlt hv hv'
  have hrecord := (Iteration.sorted s.records).mem_entries.mp he
  have hrecord' := (Iteration.sorted s.records).mem_entries.mp he'
  obtain ⟨hr, hk, _⟩ := h.recordKey r k i v hrecord
  obtain ⟨hr', hk', _⟩ := h.recordKey r' k' i' v' hrecord'
  rw [Record.Before, Record.ref, Record.ref, hr, hk, hr', hk', ← compare_ref_eq_lt]
  have hkey : (compare r r').then ((compare k k').then (compare i i')) = .lt := hlt
  rw [← Ordering.then_assoc, Ordering.then_eq_lt] at hkey
  rcases hkey with href | ⟨hsame, hi⟩
  · exact href
  · -- two versions of one record are not both the latest
    obtain ⟨n, hn, _⟩ := (h.records r k i).mp (Map.mem_of_get? hrecord)
    obtain ⟨rfl, rfl⟩ : r = r' ∧ k = k' := by
      rw [Ordering.then_eq_eq, Std.compare_eq_iff_eq, Std.compare_eq_iff_eq] at hsame
      exact hsame
    have hself : compare n n = .eq := Std.ReflCmp.compare_self
    rw [(h.latest r k i n v hrecord hn).mp hv, (h.latest r k i' n v' hrecord' hn).mp hv', hself] at hi
    cases hi

/-- No record has two latest versions. -/
theorem nodup_refs (h : StoreInv s) : (s.latestVersions.map Record.ref).Nodup :=
  List.pairwise_map.mpr (h.sorted_latestVersions.imp fun {_ _} hbefore => hbefore.ref_ne)

/-- The records with a latest version are those the index names. -/
theorem mem_refs (h : StoreInv s) {ref : UInt64 × UInt64} :
    ref ∈ s.latestVersions.map Record.ref ↔ ref ∈ s.recordIndices := by
  rw [List.mem_map]
  constructor
  · rintro ⟨record, hrecord, href⟩
    exact href ▸ Map.mem_of_get? (h.located hrecord).1
  · intro hk
    obtain ⟨record, hrecord⟩ := h.latestRecord_isSome hk
    exact ⟨record, h.latestRecord_iff.mp hrecord⟩

end StoreInv

/-! ## The walks -/

/-- The latest versions of some records. -/
def Store.latestOf (s : Store) (refs : List (UInt64 × UInt64)) : List Record :=
  refs.filterMap fun ref => (latestRecord s ref.1 ref.2).toOption

theorem liftErr_toOption {α : Type} (x : Except Err α) : (liftErr x).toOption = x.toOption := by
  cases x <;> rfl

/-- Lookups that all succeed are made one after the other. -/
theorem mapM_eq_ok {ε α β : Type} {g : α → Except ε β} {l : List α} (h : ∀ x ∈ l, ∃ b, g x = .ok b) :
    l.mapM g = .ok (l.filterMap fun x => (g x).toOption) := by
  induction l with
  | nil => rfl
  | cons x rest ih =>
    obtain ⟨⟨b, hb⟩, hrest⟩ := List.forall_mem_cons.mp h
    have hx : (g x).toOption = some b := by rw [hb]; rfl
    rw [List.mapM_cons, hb, ih hrest, List.filterMap_cons_some (f := fun x => (g x).toOption) hx]
    rfl

namespace StoreInv

variable {s : Store}

/-- A sorted list of references that are those of the matching versions lists the matching versions. -/
theorem latestOf_eq_matching (h : StoreInv s) {req : QueryRecordsRequest}
    {refs : List (UInt64 × UInt64)} (hsorted : refs.Pairwise fun a b => compare a b = .lt)
    (hmem : ∀ record ∈ s.latestVersions, record.ref ∈ refs ↔ req.selects record = true) :
    s.latestOf refs = s.matching req := by
  have hlookup : ∀ (ref : UInt64 × UInt64) (record : Record),
      (latestRecord s ref.1 ref.2).toOption = some record ↔
        record ∈ s.latestVersions ∧ record.ref = ref := by
    intro ref record
    rw [← h.latestRecord_iff]
    cases latestRecord s ref.1 ref.2 <;> simp [Except.toOption]
  refine List.Pairwise.eq_of_mem_iff (r := Record.Before) ?_ (h.sorted_latestVersions.filter _) ?_
  · refine List.pairwise_filterMap.mpr (hsorted.imp fun {ref ref'} hlt a ha b hb => ?_)
    rw [Record.Before, ((hlookup ref a).mp ha).2, ((hlookup ref' b).mp hb).2, ← compare_ref_eq_lt]
    exact hlt
  · intro record
    rw [Store.latestOf, Store.matching, List.mem_filterMap, List.mem_filter]
    constructor
    · rintro ⟨ref, href, hrecord⟩
      obtain ⟨hin, rfl⟩ := (hlookup ref record).mp hrecord
      exact ⟨hin, (hmem record hin).mp href⟩
    · rintro ⟨hin, hselects⟩
      exact ⟨record.ref, (hmem record hin).mpr hselects, (hlookup _ _).mpr ⟨hin, rfl⟩⟩

/-- A page of entries of `RecordIndices` is a page of latest versions. -/
theorem listPage_indexed (h : StoreInv s) {entries : List ((UInt64 × UInt64) × UInt64)}
    (hin : ∀ e ∈ entries, e ∈ s.recordIndices.toList) (pr : Option PageRequest) :
    listPage pr (indexedRecord s) entries =
      .ok ((newPaginator pr).taken (s.latestOf (entries.map Prod.fst))) := by
  have hentry : ∀ e ∈ entries, indexedRecord s e.1 e.2 = liftErr (latestRecord s e.1.1 e.1.2) := by
    intro e he
    have hindex := (Iteration.sorted s.recordIndices).mem_entries.mp (hin e he)
    rw [latestRecord, hindex]
    rfl
  have hok : ∀ e ∈ entries, ∃ record, indexedRecord s e.1 e.2 = .ok record := by
    intro e he
    have hindex := (Iteration.sorted s.recordIndices).mem_entries.mp (hin e he)
    obtain ⟨record, hrecord⟩ := h.latestRecord_isSome (Map.mem_of_get? hindex)
    exact ⟨record, by rw [hentry e he, hrecord]; rfl⟩
  rw [listPage_eq hok, Store.latestOf, List.filterMap_map]
  congr 2
  refine List.filterMap_congr fun e he => ?_
  rw [hentry e he, liftErr_toOption]
  rfl

/-- A walk over `RecordIndices`, or over one registry of it, lists the matching versions in order. -/
theorem latestOf_indices (h : StoreInv s) {req : QueryRecordsRequest} (hchecksum : req.checksum = [])
    {entries : List ((UInt64 × UInt64) × UInt64)}
    (hsub : entries.Sublist s.recordIndices.toList)
    (hmem : ∀ e ∈ s.recordIndices.toList, e ∈ entries ↔ req.registryId = 0 ∨ e.1.1 = req.registryId) :
    s.latestOf (entries.map Prod.fst) = s.matching req := by
  refine h.latestOf_eq_matching ?_ fun record hrecord => ?_
  · exact List.pairwise_map.mpr (Std.ExtTreeMap.ordered_keys_toList.sublist hsub)
  · have hentry : (record.ref, record.index) ∈ s.recordIndices.toList :=
      (Iteration.sorted s.recordIndices).mem_entries.mpr (h.located hrecord).1
    have hselects : req.selects record = true ↔
        req.registryId = 0 ∨ record.ref.1 = req.registryId := by
      rw [QueryRecordsRequest.selects_eq_true, and_iff_left (.inl hchecksum)]
      rfl
    rw [hselects, ← hmem _ hentry, List.mem_map]
    constructor
    · rintro ⟨e, he, href⟩
      have hkey := (Iteration.sorted s.recordIndices).mem_entries.mp (hsub.mem he)
      have hindex : e.2 = record.index := by
        rw [href, (h.located hrecord).1] at hkey
        exact (Option.some.inj hkey).symm
      rw [← href, ← hindex]
      exact he
    · exact fun he => ⟨_, he, rfl⟩

/-- A walk over the registries of a checksum lists the matching versions in order. -/
theorem latestOf_checksum (h : StoreInv s) {req : QueryRecordsRequest} (hregistry : req.registryId = 0)
    (hchecksum : req.checksum ≠ []) :
    s.latestOf ((s.recordIdByChecksumAndRegistry.prefixed req.checksum).map fun e => (e.1.2, e.2)) =
      s.matching req := by
  have hentry : ∀ (r k : UInt64),
      (r, k) ∈ (s.recordIdByChecksumAndRegistry.prefixed req.checksum).map (fun e => (e.1.2, e.2)) ↔
        s.recordIdByRegistryAndChecksum[(r, req.checksum)]? = some k := by
    intro r k
    rw [h.swapped, ← (Iteration.sorted s.recordIdByChecksumAndRegistry).mem_entries, List.mem_map]
    constructor
    · rintro ⟨⟨⟨c, r'⟩, k'⟩, he, href⟩
      obtain ⟨hin, hc⟩ := List.mem_filter.mp he
      obtain ⟨rfl, rfl⟩ := Prod.mk.inj href
      rw [← of_decide_eq_true hc]
      exact hin
    · exact fun hin => ⟨_, List.mem_filter.mpr ⟨hin, decide_eq_true rfl⟩, rfl⟩
  refine h.latestOf_eq_matching ?_ fun record hrecord => ?_
  · refine List.pairwise_map.mpr ((Std.ExtTreeMap.ordered_keys_toList.filter _).imp_of_mem ?_)
    rintro ⟨⟨c, r⟩, k⟩ ⟨⟨c', r'⟩, k'⟩ he he' hlt
    have hc : c = req.checksum := of_decide_eq_true (List.mem_filter.mp he).2
    have hc' : c' = req.checksum := of_decide_eq_true (List.mem_filter.mp he').2
    have hkey : (compare c c').then (compare r r') = .lt := hlt
    have hself : compare req.checksum req.checksum = .eq := Std.ReflCmp.compare_self
    rw [hc, hc', hself] at hkey
    have href : compare (r, k) (r', k') = (compare r r').then (compare k k') := rfl
    rw [href, show compare r r' = .lt from hkey]
    rfl
  · have hselects : req.selects record = true ↔ record.checksum = req.checksum := by
      rw [QueryRecordsRequest.selects_eq_true, and_iff_right (.inl hregistry),
        or_iff_right hchecksum]
    have hown := (h.located hrecord).2.2
    rw [Record.ref, hentry, hselects]
    exact ⟨fun hother => h.unique _ _ _ _ hown hother, fun hsame => hsame ▸ hown⟩

/-- A page of the registries of a checksum is looked up record by record. -/
theorem checksumRecords_eq (h : StoreInv s) {req : QueryRecordsRequest} (hregistry : req.registryId = 0)
    (hchecksum : req.checksum ≠ []) (hnul : (0 : UInt8) ∉ req.checksum) :
    checksumRecords s req =
      .ok (listResponse req ((newPaginator req.pagination).taken (s.matching req))) := by
  let entries := s.recordIdByChecksumAndRegistry.prefixed req.checksum
  let refs := entries.map fun e => (e.1.2, e.2)
  have hpage : listPage req.pagination (fun key recordId => pure (key.2, recordId)) entries =
      .ok ((newPaginator req.pagination).taken refs) := by
    rw [listPage_eq fun e _ => ⟨_, rfl⟩]
    exact congrArg (fun l => Except.ok ((newPaginator req.pagination).taken l))
      (congrFun List.filterMap_eq_map entries)
  have hfound : ∀ ref ∈ refs, ∃ record, latestRecord s ref.1 ref.2 = .ok record := by
    intro ref href
    obtain ⟨⟨⟨c, r⟩, k⟩, he, rfl⟩ := List.mem_map.mp href
    have hget := (Iteration.sorted s.recordIdByChecksumAndRegistry).mem_entries.mp
      (List.mem_filter.mp he).1
    rw [← h.swapped] at hget
    exact h.latestRecord_isSome ((h.numbered r k).mp ⟨c, hget⟩)
  have hlookup : ∀ ref ∈ refs, ∃ record,
      (latestRecord s ref.1 ref.2).toOption = some record := by
    intro ref href
    obtain ⟨record, hrecord⟩ := hfound ref href
    exact ⟨record, by rw [hrecord]; rfl⟩
  have hmapM : ((newPaginator req.pagination).taken refs).mapM
      (fun pair => liftErr (latestRecord s pair.1 pair.2)) =
        .ok ((newPaginator req.pagination).taken (s.matching req)) := by
    rw [mapM_eq_ok fun ref href => ?_]
    · simp only [liftErr_toOption]
      rw [Paginator.filterMap_taken hlookup]
      exact congrArg (fun l => Except.ok ((newPaginator req.pagination).taken l))
        (h.latestOf_checksum hregistry hchecksum)
    · obtain ⟨record, hrecord⟩ := hfound ref ((Paginator.taken_sublist _ _).mem href)
      exact ⟨record, by rw [hrecord]; rfl⟩
  refine bind_eq_ok.mpr ⟨(), ?_, bind_eq_ok.mpr ⟨_, hpage, bind_eq_ok.mpr ⟨_, hmapM, rfl⟩⟩⟩
  rw [encodeNonTerminal_eq_ok.mpr hnul]
  rfl

end StoreInv

/-! ## The routes of a request -/

/-- What a request is answered with, once the record it names, if any, is known. -/
inductive Routed (s : Store) (req : QueryRecordsRequest) (k : UInt64) : QueryRecordsResponse → Prop
  | single {resp : QueryRecordsResponse} (registry : req.registryId ≠ 0) (record : k ≠ 0)
    (found : singleRecord s req k = .ok resp) : Routed s req k resp
  | registry {records : List Record} (registry : req.registryId ≠ 0) (record : k = 0)
    (listed : listPage req.pagination (indexedRecord s)
      (s.recordIndices.prefixed req.registryId) = .ok records) :
    Routed s req k (listResponse req records)
  | checksum {resp : QueryRecordsResponse} (registry : req.registryId = 0)
    (checksum : req.checksum ≠ []) (found : checksumRecords s req = .ok resp) : Routed s req k resp
  | all {records : List Record} (registry : req.registryId = 0) (checksum : req.checksum = [])
    (listed : listPage req.pagination (indexedRecord s) s.recordIndices.toList = .ok records) :
    Routed s req k (listResponse req records)

theorem liftErr_eq_ok {α : Type} {x : Except Err α} {a : α} : liftErr x = .ok a ↔ x = .ok a := by
  cases x with
  | ok b => exact ⟨fun h => by cases h; rfl, fun h => by cases h; rfl⟩
  | error e => exact ⟨(fun h => nomatch h), (fun h => nomatch h)⟩

section Routes

variable {s : Store} {req : QueryRecordsRequest} {k : UInt64} {resp : QueryRecordsResponse}

/-- A request with a record id is for one version. -/
theorem routed_single (hregistry : req.registryId ≠ 0) (hrecord : k ≠ 0) :
    Routed s req k resp ↔ singleRecord s req k = .ok resp := by
  constructor
  · intro h
    cases h with
    | single _ _ found => exact found
    | registry _ record _ => exact absurd record hrecord
    | checksum registry _ _ => exact absurd registry hregistry
    | all registry _ _ => exact absurd registry hregistry
  · exact .single hregistry hrecord

/-- A request with a registry id lists the registry. -/
theorem routed_registry (hregistry : req.registryId ≠ 0) :
    Routed s req 0 resp ↔ ∃ records, listPage req.pagination (indexedRecord s)
      (s.recordIndices.prefixed req.registryId) = .ok records ∧ listResponse req records = resp := by
  constructor
  · intro h
    cases h with
    | single _ record _ => exact absurd rfl record
    | registry _ _ listed => exact ⟨_, listed, rfl⟩
    | checksum registry _ _ => exact absurd registry hregistry
    | all registry _ _ => exact absurd registry hregistry
  · rintro ⟨records, hlisted, rfl⟩
    exact .registry hregistry rfl hlisted

/-- A request with a checksum alone lists the registries that hold it. -/
theorem routed_checksum (hregistry : req.registryId = 0) (hchecksum : req.checksum ≠ []) :
    Routed s req k resp ↔ checksumRecords s req = .ok resp := by
  constructor
  · intro h
    cases h with
    | single registry _ _ => exact absurd hregistry registry
    | registry registry _ _ => exact absurd hregistry registry
    | checksum _ _ found => exact found
    | all _ checksum _ => exact absurd checksum hchecksum
  · exact .checksum hregistry hchecksum

/-- A request without either lists everything. -/
theorem routed_all (hregistry : req.registryId = 0) (hchecksum : req.checksum = []) :
    Routed s req k resp ↔ ∃ records, listPage req.pagination (indexedRecord s)
      s.recordIndices.toList = .ok records ∧ listResponse req records = resp := by
  constructor
  · intro h
    cases h with
    | single registry _ _ => exact absurd hregistry registry
    | registry registry _ _ => exact absurd hregistry registry
    | checksum _ checksum _ => exact absurd hchecksum checksum
    | all _ _ listed => exact ⟨_, listed, rfl⟩
  · rintro ⟨records, hlisted, rfl⟩
    exact .all hregistry hchecksum hlisted

/-- The routes, as the query takes them. -/
theorem routed_iff :
    (if req.registryId ≠ 0 && k ≠ 0 then singleRecord s req k
    else if req.registryId ≠ 0 && k = 0 then do
      let records ← listPage req.pagination (indexedRecord s)
        (s.recordIndices.prefixed req.registryId)
      pure (listResponse req records)
    else if req.checksum ≠ [] && req.registryId = 0 then checksumRecords s req
    else do
      let records ← listPage req.pagination (indexedRecord s) s.recordIndices.toList
      pure (listResponse req records)) = .ok resp ↔ Routed s req k resp := by
  have hlisted {x : Except Fault (List Record)} :
      (x >>= fun records => pure (listResponse req records)) = .ok resp ↔
        ∃ records, x = .ok records ∧ listResponse req records = resp := by
    rw [bind_eq_ok]
    simp only [pure, Except.pure, Except.ok.injEq]
  by_cases hr : req.registryId = 0
  · by_cases hc : req.checksum = []
    · rw [routed_all hr hc, ← hlisted]
      simp [hr, hc]
    · rw [routed_checksum hr hc]
      simp [hr, hc]
  · by_cases hk : k = 0
    · rw [hk, routed_registry hr, ← hlisted]
      simp [hr]
    · rw [routed_single hr hk]
      simp [hr, hk]

end Routes

/-- A request is answered when its filters fit together and its route has an answer. -/
theorem queryRecords_eq_ok {s : Store} {req : QueryRecordsRequest} {resp : QueryRecordsResponse} :
    queryRecords s req = .ok resp ↔
      (req.recordId ≠ 0 → req.registryId ≠ 0) ∧
      (req.index ≠ 0 → req.registryId ≠ 0 ∧ (req.recordId ≠ 0 ∨ req.checksum ≠ [])) ∧
      ∃ k, req.resolve s = .ok k ∧ Routed s req k resp := by
  unfold queryRecords
  by_cases hrecord : req.recordId ≠ 0 ∧ req.registryId = 0
  · rw [if_pos (by simpa using hrecord)]
    exact ⟨nofun, fun h => absurd hrecord.2 (h.1 hrecord.1)⟩
  · rw [if_neg (by simpa using hrecord)]
    by_cases hindex : req.index ≠ 0 ∧ (req.registryId = 0 ∨ req.recordId = 0 ∧ req.checksum = [])
    · rw [if_pos (by simpa using hindex)]
      refine ⟨nofun, fun h => ?_⟩
      obtain ⟨hr, hnamed⟩ := h.2.1 hindex.1
      rcases hindex.2 with hzero | ⟨hk, hc⟩
      · exact absurd hzero hr
      · exact absurd hnamed (not_or.mpr ⟨not_not.mpr hk, not_not.mpr hc⟩)
    · rw [if_neg (by simpa using hindex), bind_eq_ok]
      simp only [liftErr_eq_ok, routed_iff]
      refine ⟨fun h => ⟨fun hk hr => hrecord ⟨hk, hr⟩, fun hi => ?_, h⟩, fun h => h.2.2⟩
      refine ⟨fun hr => hindex ⟨hi, .inl hr⟩, ?_⟩
      by_contra hnone
      rw [not_or, not_not, not_not] at hnone
      exact hindex ⟨hi, .inr hnone⟩

/-- **A request that names no record is answered with a page of the matching versions.** -/
theorem StoreInv.queryRecords_eq {s : Store} (h : StoreInv s) {req : QueryRecordsRequest}
    (hrecord : req.recordId = 0) (hindex : req.index = 0) (hnul : (0 : UInt8) ∉ req.checksum)
    (hone : req.registryId = 0 ∨ req.checksum = []) :
    queryRecords s req =
      .ok (listResponse req ((newPaginator req.pagination).taken (s.matching req))) := by
  have hresolve : req.resolve s = .ok 0 := by
    rcases hone with h | h <;> simp [QueryRecordsRequest.resolve, hrecord, h] <;> rfl
  refine queryRecords_eq_ok.mpr ⟨fun h => absurd hrecord h, fun h => absurd hindex h, 0, hresolve, ?_⟩
  by_cases hregistry : req.registryId = 0
  · by_cases hchecksum : req.checksum = []
    · refine .all hregistry hchecksum ?_
      rw [h.listPage_indexed (fun e he => he), h.latestOf_indices hchecksum (List.Sublist.refl _)]
      exact fun e he => ⟨fun _ => .inl hregistry, fun _ => he⟩
    · exact .checksum hregistry hchecksum (h.checksumRecords_eq hregistry hchecksum hnul)
  · refine .registry hregistry rfl ?_
    rw [Map.prefixed, h.listPage_indexed fun e he => (List.mem_filter.mp he).1,
      h.latestOf_indices (hone.resolve_left hregistry) List.filter_sublist]
    intro e he
    rw [List.mem_filter, decide_eq_true_eq, and_iff_right he, or_iff_right hregistry]

/-! ## The listing is exact -/

namespace StoreInv

variable {s : Store}

/-- What matches is listed in the order of the keys. -/
theorem sorted_matching (h : StoreInv s) (req : QueryRecordsRequest) :
    (s.matching req).Pairwise Record.Before :=
  h.sorted_latestVersions.filter _

/-- Under a filter there are no more matching versions than ids: a registry has a record for each id
at most, and a checksum one for each registry. -/
theorem length_matching_le (h : StoreInv s) {req : QueryRecordsRequest}
    (hfilter : req.registryId ≠ 0 ∨ req.checksum ≠ []) : (s.matching req).length ≤ 2 ^ 64 := by
  rcases hfilter with hregistry | hchecksum
  · rw [← List.length_map Record.recordId]
    refine length_le_of_nodup (List.pairwise_map.mpr ?_)
    refine (h.sorted_matching req).imp_of_mem fun {a b} ha hb hbefore hid => ?_
    have hsame : ∀ record ∈ s.matching req, record.registryId = req.registryId := by
      intro record hrecord
      have hselects := QueryRecordsRequest.selects_eq_true.mp (List.mem_filter.mp hrecord).2
      exact hselects.1.resolve_left hregistry
    refine hbefore.ref_ne ?_
    rw [Record.ref, Record.ref, hsame a ha, hsame b hb, hid]
  · rw [← List.length_map Record.registryId]
    refine length_le_of_nodup (List.pairwise_map.mpr ?_)
    refine (h.sorted_matching req).imp_of_mem fun {a b} ha hb hbefore hid => ?_
    have hsame : ∀ record ∈ s.matching req,
        s.recordIdByRegistryAndChecksum[(record.registryId, req.checksum)]? =
          some record.recordId := by
      intro record hrecord
      obtain ⟨hin, hselects⟩ := List.mem_filter.mp hrecord
      rw [← (QueryRecordsRequest.selects_eq_true.mp hselects).2.resolve_left hchecksum]
      exact (h.located hin).2.2
    have hrecord := hsame a ha
    rw [hid, hsame b hb] at hrecord
    refine hbefore.ref_ne ?_
    rw [Record.ref, Record.ref, hid, Option.some.inj hrecord]

end StoreInv

/-- The request for another page. -/
def QueryRecordsRequest.pageAt (req : QueryRecordsRequest) (pageReq : PageRequest) (offset : UInt64) :
    QueryRecordsRequest :=
  { req with pagination := some { pageReq with offset } }

/-- **Listing records is exact**, in every store of a run in which no counter wraps. The matching
versions are listed by registry and record, each the latest of its record; a page is the slice of
them its offset and its limit name, and pages that follow one another neither skip nor repeat.
The paginator counts what it has seen in 64 bits: a page that starts so late that it would count
past them is exact when no more than `2 ^ 64` versions match, which under a filter they never do. -/
theorem records_listed_exactly {env : Env} {names : Set Bytes} {s : Store}
    (h : Reachable env names s) {req : QueryRecordsRequest} (hrecord : req.recordId = 0)
    (hindex : req.index = 0) (hnul : (0 : UInt8) ∉ req.checksum)
    (hone : req.registryId = 0 ∨ req.checksum = []) :
    (∀ record, record ∈ s.matching req ↔
      (∃ key : UInt64 × UInt64 × UInt64, s.records[key]? = some record) ∧ record.isLatest = true ∧
        (req.registryId = 0 ∨ record.registryId = req.registryId) ∧
        (req.checksum = [] ∨ record.checksum = req.checksum)) ∧
    (∀ record ∈ s.matching req, record.isLatest = true ∧
      s.recordIndices[(record.registryId, record.recordId)]? = some record.index ∧
      s.records[(record.registryId, record.recordId, record.index)]? = some record) ∧
    (s.matching req).Pairwise Record.Before ∧
    (req.registryId ≠ 0 ∨ req.checksum ≠ [] → (s.matching req).length ≤ 2 ^ 64) ∧
    (∃ records, queryRecords s req = .ok (listResponse req records) ∧
      (pageOffset req.pagination + pageSize req.pagination ≤ 2 ^ 64 ∨
          (s.matching req).length ≤ 2 ^ 64 →
        records = ((s.matching req).drop (pageOffset req.pagination)).take
          (pageSize req.pagination))) ∧
    (∀ (pageReq : PageRequest) (n : Nat), (∀ i < n, i * pageSize (some pageReq) < 2 ^ 64) →
      n * pageSize (some pageReq) ≤ 2 ^ 64 ∨ (s.matching req).length ≤ 2 ^ 64 →
      ∃ pages : Nat → List Record,
        (∀ i < n, queryRecords s
            (req.pageAt pageReq (UInt64.ofNat (i * pageSize (some pageReq)))) =
          .ok (listResponse (req.pageAt pageReq (UInt64.ofNat (i * pageSize (some pageReq))))
            (pages i))) ∧
        (List.range n).flatMap pages = (s.matching req).take (n * pageSize (some pageReq))) := by
  have inv := h.storeInv
  have hmem : ∀ record, record ∈ s.matching req ↔
      (∃ key : UInt64 × UInt64 × UInt64, s.records[key]? = some record) ∧ record.isLatest = true ∧
        (req.registryId = 0 ∨ record.registryId = req.registryId) ∧
        (req.checksum = [] ∨ record.checksum = req.checksum) := by
    intro record
    rw [Store.matching, List.mem_filter, Store.mem_latestVersions,
      QueryRecordsRequest.selects_eq_true, and_assoc]
  refine ⟨hmem, fun record hrecord => ?_, inv.sorted_matching req, inv.length_matching_le,
    ⟨_, inv.queryRecords_eq hrecord hindex hnul hone, taken_eq_slice⟩, fun pageReq n hoffset hfits => ?_⟩
  · obtain ⟨hi, hstored, _⟩ := inv.located (List.mem_filter.mp hrecord).1
    exact ⟨((hmem record).mp hrecord).2.1, hi, hstored⟩
  · refine ⟨fun i => ((s.matching req).drop (i * pageSize (some pageReq))).take
      (pageSize (some pageReq)), fun i hi => ?_, flatMap_slices _ _ _⟩
    have hpage : pageOffset (some { pageReq with offset := UInt64.ofNat (i * pageSize (some pageReq)) }) =
        i * pageSize (some pageReq) := by
      show (UInt64.ofNat (i * pageSize (some pageReq))).toNat = _
      rw [UInt64.toNat_ofNat', Nat.mod_eq_of_lt (hoffset i hi)]
    have hwithin : i * pageSize (some pageReq) + pageSize (some pageReq) ≤
        n * pageSize (some pageReq) := by
      rw [← Nat.succ_mul]
      exact Nat.mul_le_mul_right _ hi
    have hquery : queryRecords s (req.pageAt pageReq (UInt64.ofNat (i * pageSize (some pageReq)))) =
        .ok (listResponse _ ((newPaginator (some { pageReq with
          offset := UInt64.ofNat (i * pageSize (some pageReq)) })).taken (s.matching req))) :=
      inv.queryRecords_eq hrecord hindex hnul hone
    rw [hquery, taken_eq_slice (by rw [hpage]; exact hfits.imp_left hwithin.trans), hpage]
    rfl

/-- The request that lists everything. -/
def allRecords (pagination : Option PageRequest) : QueryRecordsRequest := ⟨0, [], 0, 0, pagination⟩

/-- The second page of registry 1, one record to a page. -/
def secondOfTwo : QueryRecordsRequest := ⟨1, [], 0, 0, some ⟨[], 1, 1, false, false⟩⟩

/-- Two records, one to a page: the second page is the second record, and the two pages make up what
matches. -/
theorem records_listed_exactly_twoRecordStore :
    (∃ records, queryRecords twoRecordStore secondOfTwo = .ok (listResponse secondOfTwo records) ∧
      records.map Record.checksum = [str "c1"]) ∧
    ∃ pages : Nat → List Record,
      (∀ i < 2, queryRecords twoRecordStore
          (secondOfTwo.pageAt ⟨[], 0, 1, false, false⟩ (UInt64.ofNat (i * 1))) =
        .ok (listResponse (secondOfTwo.pageAt ⟨[], 0, 1, false, false⟩ (UInt64.ofNat (i * 1)))
          (pages i))) ∧
      ((List.range 2).flatMap pages).map Record.checksum = [str "c0", str "c1"] := by
  obtain ⟨-, -, -, -, ⟨records, hquery, hslice⟩, hpages⟩ :=
    @records_listed_exactly smallEnv Set.univ twoRecordStore reachable_twoRecordStore secondOfTwo rfl rfl
      List.not_mem_nil (.inr rfl)
  obtain ⟨pages, hquery', hflat⟩ :=
    hpages ⟨[], 0, 1, false, false⟩ 2 (fun i hi => Nat.lt_trans (Nat.lt_of_le_of_lt
      (Nat.le_of_eq (Nat.mul_one i)) hi) (by decide)) (.inl (by decide))
  refine ⟨⟨records, hquery, ?_⟩, pages, hquery', ?_⟩
  · rw [hslice (.inl (by decide))]
    decide +kernel
  · rw [hflat]
    decide +kernel

/-! ## More records than can be counted

A registry holds fewer than `2 ^ 64` records, but two registries can hold more than that. -/

/-- A record of a registry, with a number as its checksum. -/
def numberedRecord (r : UInt64) (n : Nat) : Record :=
  { smallRecord "" with checksum := Go.fmtUint n, registryId := r }

/-- The store with one more numbered record, when `n` records were there. -/
def Store.withNumbered (s : Store) (r : UInt64) (n : UInt64) (number : Nat) : Store :=
  (s.withChecksum r (Go.fmtUint number) (n + 1)).withVersion
    ((numberedRecord r number).versioned smallCtx (n + 1) 1)

/-- The stores of the small chain in which account 1 anchors numbered records in two registries. -/
structure Filled (s : Store) (count : UInt64 → Nat) : Prop where
  reachable : Reachable smallEnv Set.univ s
  registries : s.registryCount = some 2
  admin : ∀ r, r = 1 ∨ r = 2 → s.rbac.hasRole (registryRole smallEnv r roleAdmin) [1] = true
  counted : ∀ r, r = 1 ∨ r = 2 →
    ∃ n : UInt64, s.recordsCountByRegistry[r]? = some n ∧ n.toNat = count r
  single : ∀ (r k i : UInt64), s.recordIndices[(r, k)]? = some i → i = 1
  fresh : ∀ r, r = 1 ∨ r = 2 → ∀ n, count r ≤ n →
    s.recordIdByRegistryAndChecksum[(r, Go.fmtUint n)]? = none

namespace Filled

variable {s : Store} {count : UInt64 → Nat}

/-- A filled store has two registries. -/
theorem mem_registries (h : Filled s count) {r : UInt64} : r ∈ s.registries ↔ r = 1 ∨ r = 2 := by
  obtain ⟨n, hn, hmem⟩ := h.reachable.storeInv.registries
  rw [h.registries] at hn
  cases hn
  rw [hmem]
  grind

/-- A filled store meets no counter at its last value while there is room. -/
theorem countersBelowMax (h : Filled s count) (hroom : ∀ r, count r < 2 ^ 64 - 1) :
    s.CountersBelowMax where
  registries n hn := by
    rw [h.registries] at hn
    cases hn
    decide
  records r n hn hmax := by
    have hr := h.mem_registries.mp ((h.reachable.storeInv.counts r).mp (Map.mem_of_get? hn))
    obtain ⟨n', hn', hcount⟩ := h.counted r hr
    cases hn.symm.trans hn'
    have hlt := hroom r
    rw [← hcount, hmax] at hlt
    exact absurd hlt (by decide)
  versions r k n hn := by
    rw [h.single r k n hn]
    decide

end Filled

/-- The records of the filled store are valid. -/
theorem validate_numberedRecord {r : UInt64} (hr : r ≠ 0) {n : Nat} (hn : n < 2 ^ 64) :
    validateRecordForCreate (numberedRecord r n) = .ok () := by
  have hne : Go.fmtUint n ≠ [] := by
    rw [Go.fmtUint, ne_eq, List.map_eq_nil_iff]
    exact Nat.toDigits_ne_nil
  have hlen : (Go.fmtUint n).length ≤ 20 := by
    rw [Go.fmtUint, List.length_map, Nat.length_toDigits_le_iff (by decide) (by decide)]
    omega
  simp only [validateRecordForCreate, bind_eq_ok, refuseIf_eq_ok, validateMaxLen_eq_ok]
  have halgo : 0 < maxRecordChecksumAlgoLen ∧
      ((smallRecord "").checksumAlgo.length : Int) ≤ maxRecordChecksumAlgoLen := by decide
  have huri : 0 < maxRecordURILen ∧ ((smallRecord "").uri.length : Int) ≤ maxRecordURILen := by decide
  have hmetadata : 0 < maxRecordMetadataLen ∧
      ((smallRecord "").metadata.length : Int) ≤ maxRecordMetadataLen := by decide
  have hfits : ((numberedRecord r n).checksum.length : Int) ≤ 64 := by
    show ((Go.fmtUint n).length : Int) ≤ 64
    omega
  exact ⟨(), decide_eq_false hne, (), rfl, (), rfl, (), rfl, (), decide_eq_false hr,
    (), ⟨by decide, hfits⟩, (), halgo, (), huri, (), hmetadata, rfl⟩

namespace Filled

variable {s : Store} {count : UInt64 → Nat}

/-- The store after the next record of a registry. -/
theorem deliver_numberedRecord (h : Filled s count) (hroom : ∀ r, count r < 2 ^ 64 - 1) {r n : UInt64}
    (hr : r = 1 ∨ r = 2) (hn : s.recordsCountByRegistry[r]? = some n) (hcount : n.toNat = count r) :
    deliver smallEnv smallCtx (.addRecord (some ⟨str "nvnm1qyfcvmjm",
        some (numberedRecord r (count r))⟩)) s = s.withNumbered r n (count r) := by
  have inv := h.reachable.storeInv
  have hbelow := h.countersBelowMax hroom
  have hzero : r ≠ 0 := by
    rcases hr with rfl | rfl <;> decide
  have hvalid : validateRecordForCreate (numberedRecord r (count r)) = .ok () :=
    validate_numberedRecord hzero (by have := hroom r; omega)
  obtain ⟨registry, hregistry⟩ := Map.mem_iff.mp (h.mem_registries.mpr hr)
  have hpermitted : checkPermission smallEnv s [1] r (Go.fmtUint (count r))
      [roleAdmin, roleEditor] = .ok () := by
    have hroles : checkRegistryRoles smallEnv s [1] r [roleAdmin, roleEditor] = true := by
      simp [checkRegistryRoles, h.admin r hr]
    unfold checkPermission
    split
    · rfl
    · rfl
  have hassigned : s.assignRecordId r (Go.fmtUint (count r)) =
      .ok (n + 1, s.withChecksum r (Go.fmtUint (count r)) (n + 1)) :=
    assignRecordId_eq_ok.mpr (.inr ⟨h.fresh r hr _ le_rfl, n, hn, Go.zero_notMem_fmtUint _, rfl, rfl⟩)
  have hindex : (s.withChecksum r (Go.fmtUint (count r)) (n + 1)).nextIndex r (n + 1) = 1 := by
    simp only [Store.nextIndex, Store.withChecksum, inv.index_none hn (hbelow.records r n hn)]
  have hstored : (s.withChecksum r (Go.fmtUint (count r)) (n + 1)).storeVersion smallCtx (n + 1)
      (numberedRecord r (count r)) = .ok (s.withNumbered r n (count r)) := by
    refine storeVersion_eq_ok.mpr (.inl ?_)
    rw [show (numberedRecord r (count r)).registryId = r from rfl, hindex]
    exact ⟨by decide, rfl⟩
  have hkeeper : s.addRecord smallEnv smallCtx [1] (numberedRecord r (count r)) =
      .ok (n + 1, s.withNumbered r n (count r)) :=
    bind_eq_ok.mpr ⟨(), wrapInvalidRequest_eq_ok.mpr hvalid,
      bind_eq_ok.mpr ⟨registry, getOrNotFound_eq_ok.mpr hregistry,
        bind_eq_ok.mpr ⟨(), hpermitted, bind_eq_ok.mpr ⟨_, hassigned,
          bind_eq_ok.mpr ⟨_, hstored, rfl⟩⟩⟩⟩⟩
  have hbasic : MsgAddRecord.validateBasic smallEnv
      ⟨str "nvnm1qyfcvmjm", some (numberedRecord r (count r))⟩ =
        .ok (numberedRecord r (count r)) :=
    bind_eq_ok.mpr ⟨(), rfl, bind_eq_ok.mpr ⟨(), hvalid, rfl⟩⟩
  have haccepted : MsgServer.addRecord smallEnv smallCtx (some ⟨str "nvnm1qyfcvmjm",
      some (numberedRecord r (count r))⟩) s =
      .ok (n + 1, s.withNumbered r n (count r)) :=
    bind_eq_ok.mpr ⟨_, wrapInvalidRequest_eq_ok.mpr hbasic, bind_eq_ok.mpr ⟨[1], rfl, hkeeper⟩⟩
  rw [deliver, handle, haccepted]
  rfl

/-- One more record. -/
theorem add (h : Filled s count) (hroom : ∀ r, count r < 2 ^ 64 - 1) {r : UInt64}
    (hr : r = 1 ∨ r = 2) : ∃ s', Filled s' (Function.update count r (count r + 1)) := by
  obtain ⟨n, hn, hcount⟩ := h.counted r hr
  have hdeliver := h.deliver_numberedRecord hroom hr hn hcount
  have hnext : (n + 1).toNat = count r + 1 := by
    rw [toNat_succ (by have := hroom r; omega), hcount]
  have hstep : BoundedStep smallEnv Set.univ s (s.withNumbered r n (count r)) :=
    ⟨h.countersBelowMax hroom, smallCtx, _, fun _ _ => trivial, hdeliver.symm⟩
  refine ⟨_, ⟨h.reachable.tail hstep, h.registries, h.admin, fun r' hr' => ?_, fun r' k i hi => ?_,
    fun r' hr' m hm => ?_⟩⟩
  · by_cases hsame : r' = r
    · subst hsame
      exact ⟨n + 1, Std.ExtTreeMap.getElem?_insert_self, by rw [Function.update_self, hnext]⟩
    · rw [Function.update_of_ne hsame]
      obtain ⟨n', hn', hcount'⟩ := h.counted r' hr'
      exact ⟨n', (Map.get?_insert_ne _ _ (Ne.symm hsame)).trans hn', hcount'⟩
  · have hget : (s.recordIndices.insert (r, n + 1) 1)[(r', k)]? = some i := hi
    rw [Map.get?_insert] at hget
    split at hget
    · exact (Option.some.inj hget).symm
    · exact h.single r' k i hget
  · show (s.recordIdByRegistryAndChecksum.insert (r, Go.fmtUint (count r)) (n + 1))[
      (r', Go.fmtUint m)]? = none
    by_cases hsame : r' = r
    · subst hsame
      rw [Function.update_self] at hm
      have hne : (r', Go.fmtUint (count r')) ≠ (r', Go.fmtUint m) := fun e => by
        have := Go.fmtUint_injective (Prod.mk.inj e).2
        omega
      rw [Map.get?_insert_ne _ _ hne]
      exact h.fresh r' hr' m (by omega)
    · rw [Function.update_of_ne hsame] at hm
      rw [Map.get?_insert_ne _ _ fun e => hsame (Prod.mk.inj e).1.symm]
      exact h.fresh r' hr' m hm

theorem congr {count' : UInt64 → Nat} (h : Filled s count)
    (heq : ∀ r, r = 1 ∨ r = 2 → count r = count' r) : Filled s count' where
  reachable := h.reachable
  registries := h.registries
  admin := h.admin
  counted r hr := heq r hr ▸ h.counted r hr
  single := h.single
  fresh r hr := heq r hr ▸ h.fresh r hr

end Filled

/-- Account 1 creates two registries. -/
def twoRegistries : List (Ctx × Msg) :=
  [(smallCtx, .addRegistry (some ⟨str "nvnm1qyfcvmjm", str "deeds", [], []⟩)),
   (smallCtx, .addRegistry (some ⟨str "nvnm1qyfcvmjm", str "wills", [], []⟩))]

/-- Two new registries are filled with no records. -/
theorem filled_twoRegistries :
    Filled (runMsgs smallEnv twoRegistries (Store.initial smallParams)) fun _ => 0 where
  reachable := Reachable.runMsgs (Transition.Reachable.of_init initial_smallParams)
    (by decide +kernel)
  registries := by decide +kernel
  admin r hr := by
    rcases hr with rfl | rfl <;> decide +kernel
  counted r hr := by
    refine ⟨0, ?_, rfl⟩
    rcases hr with rfl | rfl <;> decide +kernel
  single r k i hi := by
    have hempty : (runMsgs smallEnv twoRegistries (Store.initial smallParams)).recordIndices = ∅ :=
      Std.ExtTreeMap.isEmpty_iff.mp (by decide +kernel)
    rw [hempty, Std.ExtTreeMap.getElem?_empty] at hi
    cases hi
  fresh r hr n hn := by
    have hempty : (runMsgs smallEnv twoRegistries
        (Store.initial smallParams)).recordIdByRegistryAndChecksum = ∅ :=
      Std.ExtTreeMap.isEmpty_iff.mp (by decide +kernel)
    rw [hempty, Std.ExtTreeMap.getElem?_empty]

/-- The two registries can be filled evenly, as far as their counters go. -/
theorem exists_filled {n : Nat} (hn : n < 2 ^ 64 - 1) : ∃ s, Filled s fun _ => n := by
  induction n with
  | zero => exact ⟨_, filled_twoRegistries⟩
  | succ n ih =>
    obtain ⟨s, h⟩ := ih (by omega)
    obtain ⟨s₁, h₁⟩ := h.add (fun _ => by omega) (.inl rfl)
    have hroom : ∀ r, Function.update (fun _ : UInt64 => n) 1 (n + 1) r < 2 ^ 64 - 1 := by
      intro r
      by_cases hr : r = 1
      · rw [hr, Function.update_self]
        exact hn
      · rw [Function.update_of_ne hr]
        omega
    obtain ⟨s₂, h₂⟩ := h₁.add hroom (.inr rfl)
    refine ⟨s₂, h₂.congr fun r hr => ?_⟩
    rcases hr with rfl | rfl
    · rw [Function.update_of_ne (by decide), Function.update_self]
    · rw [Function.update_self, Function.update_of_ne (by decide)]

/-- The ids a counter hands out up to `n`. -/
def idsUpTo (n : Nat) : List UInt64 := (List.range n).map fun k => UInt64.ofNat (k + 1)

/-- The ids that were given are those from one on. -/
theorem mem_idsUpTo {n : Nat} (hn : n < 2 ^ 64) {k : UInt64} :
    k ∈ idsUpTo n ↔ 1 ≤ k ∧ k.toNat ≤ n := by
  have hpos : 1 ≤ k ↔ 1 ≤ k.toNat := UInt64.le_iff_toNat_le
  rw [idsUpTo, List.mem_map, hpos]
  constructor
  · rintro ⟨i, hi, rfl⟩
    rw [List.mem_range] at hi
    rw [UInt64.toNat_ofNat', Nat.mod_eq_of_lt (by omega)]
    exact ⟨Nat.succ_pos i, hi⟩
  · rintro ⟨hpos, hle⟩
    refine ⟨k.toNat - 1, List.mem_range.mpr (by omega), ?_⟩
    rw [Nat.sub_add_cancel hpos, UInt64.ofNat_toNat]

theorem nodup_idsUpTo {n : Nat} (hn : n < 2 ^ 64) : (idsUpTo n).Nodup := by
  refine List.nodup_range.map_on fun k hk k' hk' e => ?_
  rw [List.mem_range] at hk hk'
  have hnat := congrArg UInt64.toNat e
  rw [UInt64.toNat_ofNat', UInt64.toNat_ofNat', Nat.mod_eq_of_lt (by omega),
    Nat.mod_eq_of_lt (by omega)] at hnat
  exact Nat.succ.inj hnat

/-- Every record of a filled store is listed. -/
theorem Filled.length_latestVersions {s : Store} {n : Nat} (h : Filled s fun _ => n)
    (hn : n < 2 ^ 64) : s.latestVersions.length = 2 * n := by
  have inv := h.reachable.storeInv
  have hrefs : (s.latestVersions.map Record.ref).Perm ([1, 2] ×ˢ idsUpTo n) := by
    have hproduct : ([1, 2] ×ˢ idsUpTo n : List (UInt64 × UInt64)).Nodup :=
      List.Nodup.product (by decide) (nodup_idsUpTo hn)
    refine (List.perm_ext_iff_of_nodup inv.nodup_refs hproduct).mpr ?_
    rintro ⟨r, k⟩
    rw [inv.mem_refs, inv.indices, List.mem_product, mem_idsUpTo hn, List.mem_cons,
      List.mem_singleton]
    constructor
    · rintro ⟨m, hm, hpos, hle⟩
      have hr := h.mem_registries.mp ((inv.counts r).mp (Map.mem_of_get? hm))
      obtain ⟨m', hm', hcount⟩ := h.counted r hr
      cases hm.symm.trans hm'
      exact ⟨hr, hpos, hcount ▸ UInt64.le_iff_toNat_le.mp hle⟩
    · rintro ⟨hr, hpos, hle⟩
      obtain ⟨m, hm, hcount⟩ := h.counted r hr
      exact ⟨m, hm, hpos, UInt64.le_iff_toNat_le.mpr (hle.trans_eq hcount.symm)⟩
  have hlength := hrefs.length_eq
  rw [List.length_map, List.length_product, idsUpTo, List.length_map, List.length_range] at hlength
  exact hlength

/-- The request for a page that starts at the last number of 64 bits. -/
def lateListing : QueryRecordsRequest := allRecords (some ⟨[], counterMax, 50, false, false⟩)

/-- **A page can lose records.** Among `2 ^ 64 + 2` records, the page that starts at the last number
of 64 bits ends after its first record. -/
theorem records_page_cut_short : ∃ s records, Reachable smallEnv Set.univ s ∧ s.CountersBelowMax ∧
    queryRecords s lateListing = .ok (listResponse lateListing records) ∧ records.length = 1 ∧
    (((s.matching lateListing).drop (pageOffset lateListing.pagination)).take
      (pageSize lateListing.pagination)).length = 3 := by
  obtain ⟨s, h⟩ := exists_filled (n := 2 ^ 63 + 1) (by decide)
  have hlength : (s.matching lateListing).length = 2 ^ 64 + 2 := by
    have hall : s.matching lateListing = s.latestVersions := List.filter_eq_self.mpr fun _ _ => rfl
    rw [hall, h.length_latestVersions (by decide)]
    norm_num
  have hoffset : pageOffset lateListing.pagination = 2 ^ 64 - 1 := rfl
  have hsize : pageSize lateListing.pagination = 50 := rfl
  have hcut : ((newPaginator lateListing.pagination).taken (s.matching lateListing)).length = 1 := by
    rw [taken_eq_of_wrap (by rw [hoffset, hsize]; decide) (by rw [hoffset, hlength]; decide), hoffset,
      List.length_take, List.length_drop, hlength]
    norm_num
  refine ⟨s, _, h.reachable, h.countersBelowMax fun _ => by decide,
    h.reachable.storeInv.queryRecords_eq rfl rfl List.not_mem_nil (.inl rfl), hcut, ?_⟩
  rw [hoffset, hsize, List.length_take, List.length_drop, hlength]
  norm_num

end Nvnmchain
