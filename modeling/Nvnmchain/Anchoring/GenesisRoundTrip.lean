import Nvnmchain.Anchoring.GenesisRebuilt
import Nvnmchain.Anchoring.Stored
import Nvnmchain.Anchoring.StoreInv

/-!
# The genesis round trip

The export writes params, registries, records and the two role tables. Five collections are not
exported: the import rebuilds them from the records, as largest values and last assignments. On a
store in good order that gives back the store itself.

The argument is in two parts. What a run stores passes the import's checks (`loadable_exported`), by
`StoreInv` and `StoredInv`; and the store the import builds has the lookups of the exported one,
collection by collection (`imported_exported`). The counters come back because a run numbers from
one without a gap, so that the largest number is the count.
-/

set_option autoImplicit false

namespace Nvnmchain

open Go (Bytes)
open Collections

/-- The genesis state an export answers. -/
def Store.exported (s : Store) (params : Params) : GenesisState where
  params := params
  registries := s.registries
  records := s.records.toList.map Prod.snd
  roleAdmins :=
    Map.assign (fun e => encodeRBACRoleAdminKey e.1) Prod.snd ∅ s.rbac.roleAdmins.toList
  roleMembers :=
    Map.assign (fun e => encodeRBACRoleMemberKey e.1) Prod.snd ∅ s.rbac.roleMembers.toList

/-- A store with params is exported. -/
theorem exportGenesis_eq {s : Store} {params : Params} (h : s.params = some params) :
    exportGenesis s = .ok (s.exported params) := by
  unfold exportGenesis Store.exported
  rw [h, Map.assign_toList]
  rfl

/-! ## Role keys -/

theorem decodeRoleAdminKey_encode :
    Function.LeftInverse decodeRoleAdminKey encodeRBACRoleAdminKey :=
  fun role => Eth.bytesToHash_bytes role

/-- An exported member key reads back as its role and account. -/
theorem memberOfKey_encode : Function.LeftInverse memberOfKey encodeRBACRoleMemberKey := by
  rintro ⟨role, account⟩
  simp only [memberOfKey, encodeRBACRoleMemberKey, List.take_left' role.length_bytes,
    List.drop_left' role.length_bytes, Eth.bytesToHash_bytes]

/-- An exported member key is long enough to be read. -/
theorem length_encodeRBACRoleMemberKey (key : Role × Bytes) :
    32 ≤ (encodeRBACRoleMemberKey key).length := by
  rw [encodeRBACRoleMemberKey, List.length_append, key.1.length_bytes]
  omega

/-! ## What is exported loads -/

section Exported

variable {env : Env} {s : Store} {params : Params}

/-- The exported records are the stored ones, each under its own key. -/
theorem StoreInv.mem_exported_records (h : StoreInv s) {record : Record} :
    record ∈ (s.exported params).records ↔ s.records[record.key]? = some record := by
  show record ∈ s.records.toList.map Prod.snd ↔ _
  rw [List.mem_map]
  constructor
  · rintro ⟨⟨⟨r, k, i⟩, _⟩, he, rfl⟩
    have hget := Std.ExtTreeMap.mem_toList_iff_getElem?_eq_some.mp he
    obtain ⟨hr, hk, hi⟩ := h.recordKey _ _ _ _ hget
    rw [Record.key, hr, hk, hi]
    exact hget
  · intro hget
    exact ⟨(record.key, record), Std.ExtTreeMap.mem_toList_iff_getElem?_eq_some.mpr hget, rfl⟩

/-- The keys of the exported records are the keys of the store. -/
theorem StoreInv.map_key_exported (h : StoreInv s) :
    (s.exported params).records.map Record.key = s.records.toList.map Prod.fst := by
  show (s.records.toList.map Prod.snd).map Record.key = _
  rw [List.map_map]
  refine List.map_congr_left ?_
  rintro ⟨⟨r, k, i⟩, record⟩ he
  obtain ⟨hr, hk, hi⟩ :=
    h.recordKey _ _ _ _ (Std.ExtTreeMap.mem_toList_iff_getElem?_eq_some.mp he)
  simp only [Function.comp_apply, Record.key, hr, hk, hi]

/-- No key is exported twice. -/
theorem StoreInv.nodup_key_exported (h : StoreInv s) :
    ((s.exported params).records.map Record.key).Nodup := by
  rw [h.map_key_exported, Std.ExtTreeMap.map_fst_toList_eq_keys]
  exact Std.ExtTreeMap.nodup_keys

/-- The latest record of a group is the one at the record's last index. -/
theorem StoreInv.oneLatest_exported (h : StoreInv s) {record : Record}
    (hrecord : record ∈ (s.exported params).records) :
    OneLatest (groupRecords (s.exported params).records record.group) := by
  have hget := h.mem_exported_records.mp hrecord
  obtain ⟨n, hn, -⟩ := (h.records _ _ _).mp (Map.mem_of_get? hget)
  obtain ⟨x, hx⟩ := h.latest_stored hn
  obtain ⟨hxr, hxk, hxi⟩ := h.recordKey _ _ _ _ hx
  have hxkey : x.key = (record.registryId, record.recordId, n) := by rw [Record.key, hxr, hxk, hxi]
  -- a record of the group is stored under the group and its own index
  have hgroup : ∀ r ∈ groupRecords (s.exported params).records record.group,
      s.records[(record.registryId, record.recordId, r.index)]? = some r := by
    intro r hr
    obtain ⟨hmem, hgk⟩ := List.mem_filter.mp hr
    have hgk' : r.group = record.group := by simpa using hgk
    obtain ⟨hr', hk'⟩ := Prod.mk.inj hgk'
    have hown := h.mem_exported_records.mp hmem
    rwa [Record.key, hr', hk'] at hown
  have hsame : ∀ r ∈ (groupRecords (s.exported params).records record.group).filter (·.isLatest),
      r = x := by
    intro r hr
    obtain ⟨hmem, hlatest⟩ := List.mem_filter.mp hr
    have hown := hgroup r hmem
    rw [(h.latest _ _ _ _ _ hown hn).mp hlatest, hx] at hown
    exact (Option.some.inj hown).symm
  have hxmem : x ∈ groupRecords (s.exported params).records record.group := by
    refine List.mem_filter.mpr ⟨h.mem_exported_records.mpr (hxkey ▸ hx), ?_⟩
    simp only [Record.group, hxr, hxk, decide_true]
  refine ⟨x, ?_, fun r hr => ?_⟩
  · have hin : x ∈ (groupRecords (s.exported params).records record.group).filter (·.isLatest) :=
      List.mem_filter.mpr ⟨hxmem, (h.latest _ _ _ _ _ hx hn).mpr rfl⟩
    have hnodup : ((groupRecords (s.exported params).records record.group).filter
        (·.isLatest)).Nodup :=
      ((List.Nodup.of_map Record.key h.nodup_key_exported).filter _).filter _
    exact eq_singleton_of_nodup hnodup hin hsame
  · obtain ⟨n', hn', _, hle⟩ := (h.records _ _ _).mp (Map.mem_of_get? (hgroup r hr))
    rw [hn] at hn'
    cases hn'
    rw [hxi]
    exact hle

/-- **What is exported can be loaded.** -/
theorem loadable_exported (laws : AddressLaws env) (h : StoreInv s) (hs : StoredInv env s) :
    (s.exported params).Loadable env where
  registryKey := h.registryId
  registryValid r registry hr := by
    have hstored := hs.registries r registry hr
    obtain ⟨text, account, htext, hcreator⟩ := hstored.creator
    have hdecodes := laws.fromBech32_string text account htext
    obtain ⟨n, hn, hreg⟩ := h.registries
    have hone : 1 ≤ registry.id := h.registryId r registry hr ▸ ((hreg r).mp (Map.mem_of_get? hr)).1
    refine bind_eq_ok.mpr ⟨(), ?_, bind_eq_ok.mpr ⟨(), ?_, bind_eq_ok.mpr ⟨account, ?_, hstored.valid⟩⟩⟩
    · rw [refuseIf_eq_ok, decide_eq_false_iff_not, UInt64.not_le]
      exact UInt64.lt_of_lt_of_le (by decide) hone
    · rw [refuseIf_eq_ok, decide_eq_false_iff_not, hcreator]
      exact fun hempty => laws.fromBech32_empty account (hempty ▸ hdecodes)
    · rw [wrapText_eq_ok, hcreator]
      exact hdecodes
  recordValid record hrecord := by
    have hget := h.mem_exported_records.mp hrecord
    obtain ⟨n, hn, hi, -⟩ := (h.records _ _ _).mp (Map.mem_of_get? hget)
    obtain ⟨-, -, hk, -⟩ := (h.indices _ _).mp (Map.mem_of_get? hn)
    exact validateRecord_eq_ok.mpr ⟨hk, hi, (hs.records _ _ _ _ hget).creatable⟩
  recordKnown record hrecord := by
    have hget := h.mem_exported_records.mp hrecord
    obtain ⟨n, hn, -⟩ := (h.records _ _ _).mp (Map.mem_of_get? hget)
    obtain ⟨count, hcount, -⟩ := (h.indices _ _).mp (Map.mem_of_get? hn)
    exact (h.counts _).mp (Map.mem_of_get? hcount)
  recordEncodes record hrecord :=
    (hs.records _ _ _ _ (h.mem_exported_records.mp hrecord)).encodes
  recordKeys := h.nodup_key_exported
  oneLatest _ hrecord := h.oneLatest_exported hrecord

/-! ## The imported store is the exported one -/

/-- The exported records have the keys of the store. -/
theorem StoreInv.exists_exported_version (h : StoreInv s) (params : Params) {r k i : UInt64} :
    (∃ record ∈ (s.exported params).records,
      record.registryId = r ∧ record.recordId = k ∧ record.index = i) ↔ (r, k, i) ∈ s.records := by
  constructor
  · rintro ⟨record, hrecord, rfl, rfl, rfl⟩
    exact Map.mem_of_get? (h.mem_exported_records.mp hrecord)
  · intro hkey
    obtain ⟨record, hrecord⟩ := Map.mem_iff.mp hkey
    obtain ⟨rfl, rfl, rfl⟩ := h.recordKey _ _ _ _ hrecord
    exact ⟨record, h.mem_exported_records.mpr hrecord, rfl, rfl, rfl⟩

/-- The exported records have the groups of the store's indices. -/
theorem StoreInv.exists_exported_record (h : StoreInv s) (params : Params) {r k : UInt64} :
    (∃ record ∈ (s.exported params).records, record.registryId = r ∧ record.recordId = k) ↔
      (r, k) ∈ s.recordIndices := by
  constructor
  · rintro ⟨record, hrecord, rfl, rfl⟩
    have hget := h.mem_exported_records.mp hrecord
    obtain ⟨n, hn, -⟩ := (h.records _ _ _).mp (Map.mem_of_get? hget)
    exact Map.mem_of_get? hn
  · intro hgroup
    obtain ⟨n, hn⟩ := Map.mem_iff.mp hgroup
    obtain ⟨record, hrecord⟩ := h.latest_stored hn
    obtain ⟨other, hother, hr, hk, -⟩ :=
      (h.exists_exported_version params).mpr (Map.mem_of_get? hrecord)
    exact ⟨other, hother, hr, hk⟩

/-- The exported records carry each record id of the checksum index. -/
theorem StoreInv.exported_of_numbered (h : StoreInv s) (params : Params) {r k : UInt64} {c : Bytes}
    (hk : s.recordIdByRegistryAndChecksum[(r, c)]? = some k) :
    ∃ record ∈ (s.exported params).records,
      record.registryId = r ∧ record.checksum = c ∧ record.recordId = k := by
  obtain ⟨record, hrecord, rfl, rfl⟩ :=
    (h.exists_exported_record params).mpr ((h.numbered r k).mp ⟨c, hk⟩)
  have hcarried := h.carried _ _ _ _ (h.mem_exported_records.mp hrecord)
  exact ⟨record, hrecord, rfl, h.unique _ _ _ _ hcarried hk, rfl⟩

/-- A checksum index rebuilt from the exported records, under either order of its key. -/
theorem StoreInv.rebuilt_index (h : StoreInv s) {κ : Type} [Ord κ] [Std.TransOrd κ]
    [Std.LawfulEqOrd κ] (key : UInt64 × Bytes → κ) (hkey : Function.Injective key) (r : UInt64)
    (c : Bytes) :
    (Map.assign (fun record : Record => key (record.registryId, record.checksum)) Record.recordId ∅
      (s.exported params).records)[key (r, c)]? = s.recordIdByRegistryAndChecksum[(r, c)]? := by
  cases hk : s.recordIdByRegistryAndChecksum[(r, c)]? with
  | none =>
    rw [Map.get?_assign_of_ne, Std.ExtTreeMap.getElem?_empty]
    intro record hrecord e
    have hcarried := h.carried _ _ _ _ (h.mem_exported_records.mp hrecord)
    rw [hkey e, hk] at hcarried
    cases hcarried
  | some k =>
    obtain ⟨record, hrecord, rfl, rfl, rfl⟩ := h.exported_of_numbered params hk
    refine Map.get?_assign_of_mem (fun record : Record => key (record.registryId, record.checksum))
      Record.recordId hrecord fun other hother e => ?_
    have hcarried := h.carried _ _ _ _ (h.mem_exported_records.mp hother)
    rw [hkey e, hk] at hcarried
    exact (Option.some.inj hcarried).symm

section Import

variable (h : StoreInv s) (hl : (s.exported params).Loadable env)
  (order : GenesisOrder (s.exported params))

include h

/-- The records come back. -/
theorem StoreInv.rebuilt_records : ((s.exported params).imported order).records = s.records := by
  rw [imported_records]
  refine Map.assign_eq (fun record hrecord => h.mem_exported_records.mp hrecord) ?_
  rintro ⟨r, k, i⟩ hkey
  obtain ⟨record, hrecord⟩ := Map.mem_iff.mp hkey
  obtain ⟨rfl, rfl, rfl⟩ := h.recordKey _ _ _ _ hrecord
  exact ⟨record, h.mem_exported_records.mpr hrecord, rfl⟩

include hl

/-- The largest registry id is the registry count. -/
theorem StoreInv.rebuilt_registryCount :
    ((s.exported params).imported order).registryCount = s.registryCount := by
  obtain ⟨m, hm, hlargest⟩ := (imported_rebuilt order hl).registryCount
  obtain ⟨n, hn, hreg⟩ := h.registries
  have hdense : ∀ r, (∃ registry, s.registries[r]? = some registry ∧ registry.id = r) ↔
      1 ≤ r ∧ r ≤ n := by
    intro r
    rw [← hreg, Map.mem_iff]
    constructor
    · rintro ⟨registry, hget, -⟩
      exact ⟨registry, hget⟩
    · rintro ⟨registry, hget⟩
      exact ⟨registry, hget, h.registryId r registry hget⟩
  rw [hm, hn, hlargest.unique (.of_dense hdense)]

/-- The count of a registry is the largest of its record ids, or the zero it started from. -/
theorem StoreInv.rebuilt_counts :
    ((s.exported params).imported order).recordsCountByRegistry = s.recordsCountByRegistry := by
  refine Std.ExtTreeMap.ext_getElem? fun {r} => ?_
  by_cases hr : r ∈ s.registries
  · obtain ⟨m, hm, hlargest⟩ := (imported_rebuilt order hl).recordsCount r hr
    obtain ⟨n, hn⟩ := Map.mem_iff.mp ((h.counts r).mpr hr)
    have hdense : ∀ k, (∃ record ∈ (s.exported params).records,
        record.registryId = r ∧ record.recordId = k) ↔ 1 ≤ k ∧ k ≤ n := by
      intro k
      rw [h.exists_exported_record, h.indices, hn]
      simp only [Option.some.injEq, exists_eq_left']
    rw [hm, hn, hlargest.unique (.of_dense hdense)]
  · rw [Map.notMem_iff.mp fun hcount => hr ((mem_imported_counts order hl).mp hcount),
      Map.notMem_iff.mp fun hcount => hr ((h.counts r).mp hcount)]

/-- The index of a record is the largest of its versions'. -/
theorem StoreInv.rebuilt_indices :
    ((s.exported params).imported order).recordIndices = s.recordIndices := by
  refine Std.ExtTreeMap.ext_getElem? fun {group} => ?_
  obtain ⟨r, k⟩ := group
  have hgroup := h.exists_exported_record params (r := r) (k := k)
  by_cases hrk : (r, k) ∈ s.recordIndices
  · obtain ⟨m, hlatest, hlargest⟩ := (imported_rebuilt order hl).recordIndices r k (hgroup.mpr hrk)
    obtain ⟨n, hn⟩ := Map.mem_iff.mp hrk
    have hdense : ∀ i, (∃ record ∈ (s.exported params).records,
        record.registryId = r ∧ record.recordId = k ∧ record.index = i) ↔ 1 ≤ i ∧ i ≤ n := by
      intro i
      rw [h.exists_exported_version, h.records, hn]
      simp only [Option.some.injEq, exists_eq_left']
    rw [hlatest.index, hn, hlargest.unique (.of_dense hdense)]
  · rw [Map.notMem_iff.mp fun hmem => hrk (hgroup.mp ((mem_imported_indices order).mp hmem)),
      Map.notMem_iff.mp hrk]

/-- The store comes back, collection by collection. -/
theorem imported_exported (hparams : s.params = some params) :
    (s.exported params).imported order = s := by
  refine Store.ext ?_ (imported_registries order hl) (h.rebuilt_registryCount hl order)
    (h.rebuilt_records order) ?_ (h.rebuilt_counts hl order) (h.rebuilt_indices hl order) ?_ ?_
  · rw [imported_params]
    exact hparams.symm
  · rw [imported_byRegistry]
    refine Std.ExtTreeMap.ext_getElem? fun {key} => ?_
    exact h.rebuilt_index id Function.injective_id key.1 key.2
  · rw [imported_byChecksum]
    refine Std.ExtTreeMap.ext_getElem? fun {key} => ?_
    rw [← h.swapped]
    exact h.rebuilt_index Prod.swap Prod.swap_injective key.2 key.1
  · have hadmins := Map.assign_decoded decodeRoleAdminKey_encode s.rbac.roleAdmins order.roleAdmins
    have hmembers := Map.assign_decoded memberOfKey_encode s.rbac.roleMembers order.roleMembers
    exact congrArg₂ Rbac.mk hadmins hmembers

end Import

end Exported

/-- **The genesis round trip.** Every store of a run in which no counter wraps is exported, and
importing what was exported, in any order of its ranges, gives back the store. -/
theorem genesis_round_trip {env : Env} (laws : AddressLaws env) {s : Store}
    (h : Reachable env Set.univ s) :
    ∃ gs, exportGenesis s = .ok gs ∧
      ∀ order : GenesisOrder gs, initGenesis env gs order Store.empty = .ok s := by
  obtain ⟨params, hparams, -⟩ := h.any.storedInv.params
  refine ⟨s.exported params, exportGenesis_eq hparams, fun order => initGenesis_eq_ok.mpr ?_⟩
  have hl : (s.exported params).Loadable env :=
    loadable_exported laws h.storeInv h.any.storedInv
  refine ⟨hl, fun k v hk => ?_, (imported_exported h.storeInv hl order hparams).symm⟩
  obtain ⟨key, rfl, -⟩ :=
    (Map.get?_encoded memberOfKey_encode.injective s.rbac.roleMembers).mp hk
  exact length_encodeRBACRoleMemberKey key

theorem addressLaws_smallEnv : AddressLaws smallEnv where
  fromBech32_string text account h := by
    have hall : ∀ e ∈ smallAccounts, smallDecode (smallEncode e.2) = .ok e.2 := by decide +kernel
    have hdecoded : smallDecode text = .ok account := h
    unfold smallDecode at hdecoded
    split at hdecoded
    · rename_i t a hfind
      cases hdecoded
      exact hall _ (List.mem_of_find?_eq_some hfind)
    · cases hdecoded
  fromBech32_empty account h := by
    have hempty : smallDecode [] = .error (.text (Go.str "decoding bech32 failed")) := by
      decide +kernel
    exact nomatch hempty.symm.trans h

/-- The store of the small chain, with its second version, comes back. -/
theorem genesis_round_trip_smallStore :
    (1, 1, 2) ∈ smallStore.records ∧ ∃ gs, exportGenesis smallStore = .ok gs ∧
      ∀ order : GenesisOrder gs, initGenesis smallEnv gs order Store.empty = .ok smallStore :=
  ⟨by decide +kernel, genesis_round_trip addressLaws_smallEnv reachable_smallStore⟩

end Nvnmchain
