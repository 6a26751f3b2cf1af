import Nvnmchain.Anchoring.Run
import Nvnmchain.Anchoring.GenesisImport

/-!
# The two genesis checkers

`GenesisState.Validate` (`x/anchoring/types/genesis.go`) checks a genesis file before a node starts,
without a store. `InitGenesis` checks the same data again while it writes. The first keeps Go sets of
what it has seen, the second looks things up in the store it fills.

`Valid` is the condition on a genesis under which `Validate` accepts it (`validate_eq_ok`), in the
words of the import's own condition `Loadable`. What separates the two is then in sight: the import
asks that a checksum encodes as a key and that a member key holds a role, and `Validate` asks neither.
-/

set_option autoImplicit false

namespace Nvnmchain

open Go (Bytes str fmtUint)
open Collections

/-! ## The check -/

/-- The loop over the registries; it collects their ids. -/
def validateRegistries (env : Env) : List (UInt64 × Registry) → Map UInt64 Unit →
    Except Err (Map UInt64 Unit)
  | [], ids => .ok ids
  | (mapKey, registry) :: rest, ids => do
    require (mapKey = registry.id) (.text (str "registry map key " ++ fmtUint mapKey.toNat ++
      str " does not match registry id " ++ fmtUint registry.id.toNat))
    wrapf (str "invalid registry " ++ fmtUint registry.id.toNat) (validateRegistry env registry)
    validateRegistries env rest (ids.insert registry.id ())

/-- The loop over the records, at their positions; it collects the keys seen and the version
groups. -/
def validateRecords (ids : Map UInt64 Unit) : List Record → Nat → Map (UInt64 × UInt64 × UInt64) Unit →
    VersionGroups → Except Err VersionGroups
  | [], _, _, groups => .ok groups
  | record :: rest, i, seenRecords, groups => do
    wrapf (str "invalid record at index " ++ fmtUint i) (validateRecord record)
    require (ids.contains record.registryId) (.text (str "record at index " ++ fmtUint i ++
      str " references unknown registry_id " ++ fmtUint record.registryId.toNat))
    let rk := (record.registryId, record.recordId, record.index)
    require (!seenRecords.contains rk) (.text (str "duplicate record key " ++
      recordKeyText record.registryId record.recordId record.index ++ str ")"))
    let gk := (record.registryId, record.recordId)
    validateRecords ids rest (i + 1) (seenRecords.insert rk ())
      (groups.insert gk ((groups[gk]?.getD .empty).add record))

/-- The loop over the version groups. -/
def validateGroups : List ((UInt64 × UInt64) × RecordVersionGroup) → Except Err Unit
  | [] => .ok ()
  | (gk, g) :: rest => do
    g.validateIsLatest (str "record group (registry_id=" ++ fmtUint gk.1.toNat ++
      str ", record_id=" ++ fmtUint gk.2.toNat ++ str ")")
    validateGroups rest

/-- The loop over the role admins. -/
def validateRoleAdmins (env : Env) : List (Bytes × Bytes) → Except Err Unit
  | [] => .ok ()
  | (key, adminRole) :: rest => do
    refuseIf (key = []) "role_admins: key cannot be empty"
    require (adminRole ≠ []) (.text (str "role_admins: admin role bytes cannot be empty (key=" ++
      env.quote key ++ str ")"))
    validateRoleAdmins env rest

/-- The loop over the role members. -/
def validateRoleMembers : List (Bytes × Bytes) → Except Err Unit
  | [] => .ok ()
  | (key, _) :: rest => do
    refuseIf (key = []) "role_members: key cannot be empty"
    validateRoleMembers rest

/-- `GenesisState.Validate`. It ranges over the maps `InitGenesis` ranges over, in an order of its
own. -/
def GenesisState.validate (env : Env) (gs : GenesisState) (order : GenesisOrder gs) :
    Except Err Unit := do
  gs.params.validate env
  let ids ← validateRegistries env order.registries.entries ∅
  let groups ← validateRecords ids gs.records 0 ∅ ∅
  validateGroups (order.groups groups).entries
  validateRoleAdmins env order.roleAdmins.entries
  validateRoleMembers order.roleMembers.entries

/-! ## What it accepts -/

/-- What `Validate` asks of a genesis. -/
structure GenesisState.Valid (env : Env) (gs : GenesisState) : Prop where
  params : gs.params.validate env = .ok ()
  registryKey : ∀ (r : UInt64) (registry : Registry), gs.registries[r]? = some registry →
    registry.id = r
  registryValid : ∀ (r : UInt64) (registry : Registry), gs.registries[r]? = some registry →
    validateRegistry env registry = .ok ()
  recordValid : ∀ record ∈ gs.records, validateRecord record = .ok ()
  recordKnown : ∀ record ∈ gs.records, record.registryId ∈ gs.registries
  recordKeys : (gs.records.map Record.key).Nodup
  oneLatest : ∀ record ∈ gs.records, OneLatest (groupRecords gs.records record.group)
  roleAdmins : ∀ (k v : Bytes), gs.roleAdmins[k]? = some v → k ≠ [] ∧ v ≠ []
  roleMembers : ∀ (k v : Bytes), gs.roleMembers[k]? = some v → k ≠ []

/-- The registries pass if each is valid and stands under its own id; the ids are collected. -/
theorem validateRegistries_eq_ok {env : Env} {l : List (UInt64 × Registry)}
    {ids ids' : Map UInt64 Unit} :
    validateRegistries env l ids = .ok ids' ↔
      (∀ e ∈ l, e.1 = e.2.id ∧ validateRegistry env e.2 = .ok ()) ∧
        ids' = Map.assign (fun e => e.2.id) (fun _ => ()) ids l := by
  induction l generalizing ids with
  | nil =>
    constructor
    · intro h
      cases h
      exact ⟨fun _ he => absurd he List.not_mem_nil, rfl⟩
    · rintro ⟨_, rfl⟩
      rfl
  | cons e rest ih =>
    obtain ⟨mapKey, registry⟩ := e
    rw [List.forall_mem_cons, and_assoc]
    constructor
    · intro h
      obtain ⟨_, hkey, h⟩ := bind_eq_ok.mp h
      obtain ⟨_, hvalid, h⟩ := bind_eq_ok.mp h
      exact ⟨⟨by simpa using hkey, wrapf_eq_ok.mp hvalid⟩, ih.mp h⟩
    · rintro ⟨⟨hkey, hvalid⟩, h⟩
      refine bind_eq_ok.mpr ⟨(), by simpa using hkey, ?_⟩
      exact bind_eq_ok.mpr ⟨(), wrapf_eq_ok.mpr hvalid, ih.mpr h⟩

/-- The records pass if each is valid, names a known registry and has a key of its own. -/
theorem validateRecords_eq_ok {ids : Map UInt64 Unit} {l : List Record} {i : Nat}
    {seen : Map (UInt64 × UInt64 × UInt64) Unit} {groups groups' : VersionGroups} :
    validateRecords ids l i seen groups = .ok groups' ↔
      (∀ record ∈ l, validateRecord record = .ok ()) ∧ (∀ record ∈ l, record.registryId ∈ ids) ∧
        (∀ record ∈ l, record.key ∉ seen) ∧ (l.map Record.key).Nodup ∧
        groups' = l.foldl VersionGroups.addRecord groups := by
  induction l generalizing i seen groups with
  | nil =>
    constructor
    · intro h
      cases h
      exact ⟨by simp, by simp, by simp, .nil, rfl⟩
    · rintro ⟨_, _, _, _, rfl⟩
      rfl
  | cons record rest ih =>
    have hkeys : (∀ r ∈ rest, r.key ∉ seen.insert record.key ()) ↔
        record.key ∉ rest.map Record.key ∧ ∀ r ∈ rest, r.key ∉ seen := by
      simp only [Map.mem_insert, not_or, List.mem_map, not_exists, not_and]
      exact ⟨fun h => ⟨fun r hr e => (h r hr).1 e.symm, fun r hr => (h r hr).2⟩,
        fun h r hr => ⟨fun e => h.1 r hr e.symm, h.2 r hr⟩⟩
    simp only [List.forall_mem_cons, List.map_cons, List.nodup_cons, List.foldl_cons]
    constructor
    · intro h
      obtain ⟨_, hvalid, h⟩ := bind_eq_ok.mp h
      obtain ⟨_, hknown, h⟩ := bind_eq_ok.mp h
      obtain ⟨_, hfresh, h⟩ := bind_eq_ok.mp h
      obtain ⟨hvalids, hknowns, hnew, hnodup, rfl⟩ := ih.mp h
      obtain ⟨hown, hold⟩ := hkeys.mp hnew
      exact ⟨⟨wrapf_eq_ok.mp hvalid, hvalids⟩, ⟨by simpa using hknown, hknowns⟩,
        ⟨require_notContains_eq_ok.mp hfresh, hold⟩, ⟨hown, hnodup⟩, rfl⟩
    · rintro ⟨⟨hvalid, hvalids⟩, ⟨hknown, hknowns⟩, ⟨hfresh, hold⟩, ⟨hown, hnodup⟩, rfl⟩
      refine bind_eq_ok.mpr ⟨(), wrapf_eq_ok.mpr hvalid, ?_⟩
      refine bind_eq_ok.mpr ⟨(), by simpa using hknown, ?_⟩
      refine bind_eq_ok.mpr ⟨(), require_notContains_eq_ok.mpr hfresh, ?_⟩
      exact ih.mpr ⟨hvalids, hknowns, hkeys.mpr ⟨hown, hold⟩, hnodup, rfl⟩

/-- The versions of a record pass if one is the latest, and it is the last. -/
theorem validateGroups_eq_ok {l : List ((UInt64 × UInt64) × RecordVersionGroup)} {u : Unit} :
    validateGroups l = .ok u ↔ ∀ e ∈ l, e.2.latestCount = 1 ∧ e.2.latestIndex = e.2.maxIndex := by
  induction l with
  | nil => exact ⟨fun _ _ he => absurd he List.not_mem_nil, fun _ => rfl⟩
  | cons e rest ih =>
    rw [List.forall_mem_cons, ← ih]
    constructor
    · intro h
      obtain ⟨_, hg, hrest⟩ := bind_eq_ok.mp h
      exact ⟨validateIsLatest_eq_ok.mp hg, hrest⟩
    · rintro ⟨hg, hrest⟩
      exact bind_eq_ok.mpr ⟨(), validateIsLatest_eq_ok.mpr hg, hrest⟩

/-- A role admin needs a key and a value. -/
theorem validateRoleAdmins_eq_ok {env : Env} {l : List (Bytes × Bytes)} {u : Unit} :
    validateRoleAdmins env l = .ok u ↔ ∀ e ∈ l, e.1 ≠ [] ∧ e.2 ≠ [] := by
  induction l with
  | nil => exact ⟨fun _ _ he => absurd he List.not_mem_nil, fun _ => rfl⟩
  | cons e rest ih =>
    obtain ⟨key, adminRole⟩ := e
    rw [List.forall_mem_cons, ← ih]
    constructor
    · intro h
      obtain ⟨_, hkey, h⟩ := bind_eq_ok.mp h
      obtain ⟨_, hrole, h⟩ := bind_eq_ok.mp h
      exact ⟨⟨by simpa using hkey, by simpa using hrole⟩, h⟩
    · rintro ⟨⟨hkey, hrole⟩, h⟩
      refine bind_eq_ok.mpr ⟨(), by simpa using hkey, ?_⟩
      exact bind_eq_ok.mpr ⟨(), by simpa using hrole, h⟩

/-- A role member needs a key. -/
theorem validateRoleMembers_eq_ok {l : List (Bytes × Bytes)} {u : Unit} :
    validateRoleMembers l = .ok u ↔ ∀ e ∈ l, e.1 ≠ [] := by
  induction l with
  | nil => exact ⟨fun _ _ he => absurd he List.not_mem_nil, fun _ => rfl⟩
  | cons e rest ih =>
    obtain ⟨key, marker⟩ := e
    rw [List.forall_mem_cons, ← ih]
    constructor
    · intro h
      obtain ⟨_, hkey, h⟩ := bind_eq_ok.mp h
      exact ⟨by simpa using hkey, h⟩
    · rintro ⟨hkey, h⟩
      exact bind_eq_ok.mpr ⟨(), by simpa using hkey, h⟩

section Check

variable {env : Env} {gs : GenesisState} {order : GenesisOrder gs}

/-- The ids the registries' loop collects are the keys of the genesis's map. -/
theorem mem_ids_iff
    (hid : ∀ (r : UInt64) (registry : Registry), gs.registries[r]? = some registry →
      registry.id = r) {r : UInt64} :
    r ∈ Map.assign (fun e => e.2.id) (fun _ => ()) ∅ order.registries.entries ↔
      r ∈ gs.registries := by
  rw [Map.mem_assign]
  constructor
  · rintro (⟨⟨r', registry⟩, he, rfl⟩ | hempty)
    · have hget := order.registries.mem_entries.mp he
      exact (hid r' registry hget).symm ▸ Map.mem_of_get? hget
    · exact absurd hempty Std.ExtTreeMap.not_mem_empty
  · intro hr
    obtain ⟨registry, hget⟩ := Map.mem_iff.mp hr
    exact .inl ⟨(r, registry), order.registries.mem_entries.mpr hget, hid r registry hget⟩

/-- **`Validate` accepts exactly the valid genesis states**, in every order of its ranges. -/
theorem validate_eq_ok {u : Unit} : gs.validate env order = .ok u ↔ gs.Valid env := by
  unfold GenesisState.validate
  constructor
  · intro h
    obtain ⟨_, hparams, h⟩ := bind_eq_ok.mp h
    obtain ⟨ids, hregs, h⟩ := bind_eq_ok.mp h
    obtain ⟨hcheck, rfl⟩ := validateRegistries_eq_ok.mp hregs
    obtain ⟨groups, hrecs, h⟩ := bind_eq_ok.mp h
    obtain ⟨hvalid, hknown, -, hnodup, rfl⟩ := validateRecords_eq_ok.mp hrecs
    obtain ⟨_, hgroups, h⟩ := bind_eq_ok.mp h
    obtain ⟨_, hadmins, hmembers⟩ := bind_eq_ok.mp h
    have hregistries := registries_check_iff.mp hcheck
    have hid := fun r registry hr => (hregistries r registry hr).1
    exact ⟨hparams, hid, fun r registry hr => (hregistries r registry hr).2, hvalid,
      fun record hrecord => (mem_ids_iff hid).mp (hknown record hrecord), hnodup,
      (groups_valid_iff _).mp (validateGroups_eq_ok.mp hgroups),
      fun k v hk => validateRoleAdmins_eq_ok.mp hadmins (k, v) (order.roleAdmins.mem_entries.mpr hk),
      fun k v hk =>
        validateRoleMembers_eq_ok.mp hmembers (k, v) (order.roleMembers.mem_entries.mpr hk)⟩
  · intro hv
    refine bind_eq_ok.mpr ⟨(), hv.params, ?_⟩
    refine bind_eq_ok.mpr ⟨_, validateRegistries_eq_ok.mpr ⟨registries_check_iff.mpr
      fun r registry hr => ⟨hv.registryKey r registry hr, hv.registryValid r registry hr⟩, rfl⟩, ?_⟩
    refine bind_eq_ok.mpr ⟨_, validateRecords_eq_ok.mpr ⟨hv.recordValid,
      fun record hrecord => (mem_ids_iff hv.registryKey).mpr (hv.recordKnown record hrecord),
      fun _ _ => Std.ExtTreeMap.not_mem_empty, hv.recordKeys, rfl⟩, ?_⟩
    refine bind_eq_ok.mpr ⟨(), validateGroups_eq_ok.mpr ((groups_valid_iff _).mpr hv.oneLatest), ?_⟩
    refine bind_eq_ok.mpr ⟨(), validateRoleAdmins_eq_ok.mpr ?_, validateRoleMembers_eq_ok.mpr ?_⟩
    · rintro ⟨k, v⟩ he
      exact hv.roleAdmins k v (order.roleAdmins.mem_entries.mp he)
    · rintro ⟨k, v⟩ he
      exact hv.roleMembers k v (order.roleMembers.mem_entries.mp he)

/-- A valid genesis loads when its checksums encode as keys. -/
theorem GenesisState.Valid.loadable (hv : gs.Valid env)
    (hencodes : ∀ record ∈ gs.records, (0 : UInt8) ∉ record.checksum) : gs.Loadable env :=
  ⟨hv.registryKey, hv.registryValid, hv.recordValid, hv.recordKnown, hencodes, hv.recordKeys,
    hv.oneLatest⟩

/-- A valid genesis loads as the imported store when, besides, its member keys hold a role. -/
theorem GenesisState.Valid.initGenesis_eq (hv : gs.Valid env)
    (hencodes : ∀ record ∈ gs.records, (0 : UInt8) ∉ record.checksum)
    (hlong : ∀ e ∈ gs.roleMembers.toList, 32 ≤ e.1.length) :
    initGenesis env gs order Store.empty = .ok (gs.imported order) := by
  refine initGenesis_eq_ok.mpr ⟨hv.loadable hencodes, ?_, rfl⟩
  intro k v hk
  exact hlong (k, v) (Std.ExtTreeMap.mem_toList_iff_getElem?_eq_some.mpr hk)

/-- A loadable genesis is valid when its params are and its role maps pass their checks. -/
theorem GenesisState.Loadable.valid (hl : gs.Loadable env) (hparams : gs.params.validate env = .ok ())
    (hadmins : ∀ (k v : Bytes), gs.roleAdmins[k]? = some v → k ≠ [] ∧ v ≠ [])
    (hmembers : ∀ (k v : Bytes), gs.roleMembers[k]? = some v → k ≠ []) : gs.Valid env :=
  ⟨hparams, hl.registryKey, hl.registryValid, hl.recordValid, hl.recordKnown, hl.recordKeys,
    hl.oneLatest, hadmins, hmembers⟩

end Check

/-! ## The checkers agree on registries and records -/

/-- **The two genesis checkers accept the same registries and records.** Where params are valid, there
are no roles and no checksum holds a NUL byte, `Validate` answers nil exactly when `InitGenesis` on an
empty store does, each in any order of its ranges. -/
theorem validate_iff_initGenesis (env : Env) (gs : GenesisState)
    (hparams : gs.params.validate env = .ok ()) (hadmins : gs.roleAdmins = ∅)
    (hmembers : gs.roleMembers = ∅)
    (hencodes : ∀ record ∈ gs.records, (0 : UInt8) ∉ record.checksum)
    (order order' : GenesisOrder gs) :
    gs.validate env order = .ok () ↔ ∃ s, initGenesis env gs order' Store.empty = .ok s := by
  rw [validate_eq_ok]
  constructor
  · intro hv
    refine ⟨_, hv.initGenesis_eq hencodes ?_⟩
    rw [hmembers]
    exact List.forall_mem_nil _
  · rintro ⟨_, hload⟩
    obtain ⟨hl, -, -⟩ := initGenesis_eq_ok.mp hload
    refine hl.valid hparams (fun k v hk => ?_) fun k v hk => ?_
    · rw [hadmins, Std.ExtTreeMap.getElem?_empty] at hk
      cases hk
    · rw [hmembers, Std.ExtTreeMap.getElem?_empty] at hk
      cases hk

/-- A registry of the small chain, made by account 1. -/
def smallRegistry (id : UInt64) : Registry where
  id := id
  name := str "deeds"
  description := []
  creator := str "nvnm1qyfcvmjm"
  createdAt := []
  metadata := []

/-- Registries 1 and 7; a record of registry 7 whose versions 2 and 5 stand in falling order. -/
def gappedGenesis : GenesisState where
  params := smallParams
  registries := Map.assign Registry.id id ∅ [smallRegistry 7, smallRegistry 1]
  records :=
    [{ smallRecord "c0" with registryId := 7, recordId := 3, index := 5, isLatest := true },
     { smallRecord "c0" with registryId := 7, recordId := 3, index := 2 }]
  roleAdmins := ∅
  roleMembers := ∅

/-- A file with gaps between its ids is valid, and loads. -/
theorem validate_iff_initGenesis_gapped :
    gappedGenesis.validate smallEnv (.sorted _) = .ok () ∧
      ∃ s, initGenesis smallEnv gappedGenesis (.sorted _) Store.empty = .ok s := by
  have hvalid : gappedGenesis.validate smallEnv (.sorted _) = .ok () := by decide +kernel
  exact ⟨hvalid, (validate_iff_initGenesis smallEnv gappedGenesis rfl rfl rfl (by decide) _ _).mp
    hvalid⟩

end Nvnmchain
