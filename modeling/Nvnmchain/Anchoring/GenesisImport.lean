import Nvnmchain.Anchoring.Genesis

/-!
# What the genesis import accepts, and the store it builds

`InitGenesis` checks and writes in one pass. This module separates the two. `Loadable` is the
condition on a genesis under which the import succeeds, and `imported` the store it then builds, as
folds of plain writes over the genesis's lists. The theorem is `initGenesis_eq_ok`: on an empty store
the import succeeds exactly on a loadable genesis, whatever the order of its ranges, and its answer
is that store.
-/

set_option autoImplicit false

namespace Nvnmchain

open Go (Bytes)
open Collections

/-! ## Registries -/

/-- The writes of one registry. -/
def Store.importRegistry (s : Store) (registry : Registry) : Store :=
  initializeRegistryRecordCounter
    { s with registries := s.registries.insert registry.id registry } registry.id

/-- The largest registry id so far. -/
def largerId (registryCount : UInt64) (registry : Registry) : UInt64 :=
  if registry.id > registryCount then registry.id else registryCount

/-- The largest id of a list of registries. -/
theorem foldl_largerId (l : List Registry) :
    (∀ registry ∈ l, registry.id ≤ l.foldl largerId 0) ∧
      (l.foldl largerId 0 = 0 ∨ ∃ registry ∈ l, registry.id = l.foldl largerId 0) :=
  (foldl_larger_spec Registry.id l 0).2

/-- The registries are imported if each is valid and stands under its own id. -/
theorem initRegistries_eq_ok {env : Env} {l : List (UInt64 × Registry)} {c c' : UInt64}
    {s s' : Store} :
    initRegistries env l c s = .ok (c', s') ↔
      (∀ e ∈ l, e.1 = e.2.id ∧ validateRegistry env e.2 = .ok ()) ∧
        c' = (l.map Prod.snd).foldl largerId c ∧
        s' = (l.map Prod.snd).foldl Store.importRegistry s := by
  induction l generalizing c s with
  | nil =>
    constructor
    · intro h
      cases h
      exact ⟨fun _ he => absurd he List.not_mem_nil, rfl, rfl⟩
    · rintro ⟨_, rfl, rfl⟩
      rfl
  | cons e rest ih =>
    obtain ⟨mapKey, registry⟩ := e
    rw [List.forall_mem_cons, and_assoc]
    constructor
    · intro h
      obtain ⟨_, hkey, h⟩ := bind_eq_ok.mp h
      obtain ⟨_, hvalid, h⟩ := bind_eq_ok.mp h
      exact ⟨⟨by simpa using hkey, wrapf_eq_ok.mp hvalid⟩, ih.mp h⟩
    · rintro ⟨⟨hkey, hvalid⟩, h⟩
      refine bind_eq_ok.mpr ⟨(), by simpa using hkey, ?_⟩
      exact bind_eq_ok.mpr ⟨(), wrapf_eq_ok.mpr hvalid, ih.mpr h⟩

/-! ## Records -/

/-- The key a record is stored under. -/
def Record.key (record : Record) : UInt64 × UInt64 × UInt64 :=
  (record.registryId, record.recordId, record.index)

/-- The version group a record belongs to. -/
def Record.group (record : Record) : UInt64 × UInt64 := (record.registryId, record.recordId)

/-- The writes of one record. -/
def Store.importRecord (s : Store) (record : Record) : Store :=
  { s with
    recordIndices := s.recordIndices.raise record.group record.index
    records := s.records.insert record.key record
    recordIdByRegistryAndChecksum := s.recordIdByRegistryAndChecksum.insert
      (record.registryId, record.checksum) record.recordId
    recordIdByChecksumAndRegistry := s.recordIdByChecksumAndRegistry.insert
      (record.checksum, record.registryId) record.recordId
    recordsCountByRegistry := s.recordsCountByRegistry.raise record.registryId record.recordId }

/-- The version groups with one record more. -/
def VersionGroups.addRecord (groups : VersionGroups) (record : Record) : VersionGroups :=
  groups.insert record.group ((groups[record.group]?.getD .empty).add record)

/-- The latest index of a record only rises. -/
theorem raiseIndex_eq (s : Store) (record : Record) :
    raiseIndex s record = { s with recordIndices := s.recordIndices.raise record.group record.index } := by
  unfold raiseIndex Map.raise Record.group
  cases h : s.recordIndices[(record.registryId, record.recordId)]? with
  | none => rfl
  | some index =>
    by_cases hk : record.index > index
    · simp only [if_pos hk]
    · simp only [if_neg hk]

/-- What a record needs from the store it is imported into, besides a free key. -/
structure Record.Fits (s : Store) (record : Record) : Prop where
  valid : validateRecord record = .ok ()
  known : record.registryId ∈ s.registries
  encodes : (0 : UInt8) ∉ record.checksum
  counted : record.registryId ∈ s.recordsCountByRegistry

/-- The record count of a registry only rises, and the registry must have one. -/
theorem raiseCount_eq_ok {s s' : Store} {record : Record} :
    raiseCount s record = .ok s' ↔ record.registryId ∈ s.recordsCountByRegistry ∧
      s' = { s with recordsCountByRegistry :=
        s.recordsCountByRegistry.raise record.registryId record.recordId } := by
  unfold raiseCount Map.raise
  rw [bind_eq_ok, Map.mem_iff]
  cases h : s.recordsCountByRegistry[record.registryId]? with
  | none => exact ⟨(fun ⟨_, hc, _⟩ => nomatch hc), (fun ⟨⟨_, hc⟩, _⟩ => nomatch hc)⟩
  | some count =>
    constructor
    · rintro ⟨_, hc, e⟩
      cases hc
      cases e
      refine ⟨⟨count, rfl⟩, ?_⟩
      by_cases hk : record.recordId > count
      · simp only [if_pos hk]
      · simp only [if_neg hk]
    · rintro ⟨_, rfl⟩
      refine ⟨count, rfl, ?_⟩
      by_cases hk : record.recordId > count
      · simp only [if_pos hk]
        rfl
      · simp only [if_neg hk]
        rfl

theorem require_notContains_eq_ok {κ ν : Type} [Ord κ] [Std.TransOrd κ] {m : Map κ ν} {k : κ}
    {e : Err} {u : Unit} : require (!m.contains k) e = .ok u ↔ k ∉ m := by
  rw [require_eq_ok, Bool.not_eq_true', ← Bool.not_eq_true, Std.ExtTreeMap.contains_iff_mem]

/-- A record is imported if it fits the store and its key is free. -/
theorem initRecord_eq_ok {position : Nat} {record : Record} {groups groups' : VersionGroups}
    {s s' : Store} :
    initRecord position record groups s = .ok (groups', s') ↔
      record.Fits s ∧ record.key ∉ s.records ∧ groups' = groups.addRecord record ∧
        s' = s.importRecord record := by
  unfold initRecord
  rw [raiseIndex_eq]
  constructor
  · intro h
    obtain ⟨_, hvalid, h⟩ := bind_eq_ok.mp h
    obtain ⟨_, hknown, h⟩ := bind_eq_ok.mp h
    obtain ⟨_, hfresh, h⟩ := bind_eq_ok.mp h
    obtain ⟨_, hencodes, h⟩ := bind_eq_ok.mp h
    obtain ⟨_, hraise, h⟩ := bind_eq_ok.mp h
    obtain ⟨hcounted, rfl⟩ := raiseCount_eq_ok.mp hraise
    cases h
    exact ⟨⟨wrapf_eq_ok.mp hvalid,
      Map.mem_of_get? (getOrNotFound_eq_ok.mp (wrapf_eq_ok.mp hknown)),
      encodeNonTerminal_eq_ok.mp hencodes, hcounted⟩, require_notContains_eq_ok.mp hfresh, rfl, rfl⟩
  · rintro ⟨⟨hvalid, hknown, hencodes, hcounted⟩, hfresh, rfl, rfl⟩
    obtain ⟨registry, hregistry⟩ := Map.mem_iff.mp hknown
    refine bind_eq_ok.mpr ⟨(), wrapf_eq_ok.mpr hvalid, ?_⟩
    refine bind_eq_ok.mpr ⟨registry, wrapf_eq_ok.mpr (getOrNotFound_eq_ok.mpr hregistry), ?_⟩
    refine bind_eq_ok.mpr ⟨(), require_notContains_eq_ok.mpr hfresh, ?_⟩
    refine bind_eq_ok.mpr ⟨(), encodeNonTerminal_eq_ok.mpr hencodes, ?_⟩
    exact bind_eq_ok.mpr ⟨_, raiseCount_eq_ok.mpr ⟨hcounted, rfl⟩, rfl⟩

/-- Importing a record changes nothing that another one needs, but for its key. -/
theorem Record.fits_importRecord {s : Store} {record other : Record} (h : record.Fits s) :
    other.Fits (s.importRecord record) ↔ other.Fits s := by
  have hcounted : other.registryId ∈ (s.importRecord record).recordsCountByRegistry ↔
      other.registryId ∈ s.recordsCountByRegistry := by
    refine Map.mem_raise.trans ⟨fun e => e.elim (fun hr => hr ▸ h.counted) id, .inr⟩
  exact ⟨fun hf => ⟨hf.valid, hf.known, hf.encodes, hcounted.mp hf.counted⟩,
    fun hf => ⟨hf.valid, hf.known, hf.encodes, hcounted.mpr hf.counted⟩⟩

/-- The records are imported if each fits and no two have one key. -/
theorem initRecords_eq_ok {l : List Record} {position : Nat} {groups groups' : VersionGroups}
    {s s' : Store} :
    initRecords l position groups s = .ok (groups', s') ↔
      (∀ record ∈ l, record.Fits s) ∧ (∀ record ∈ l, record.key ∉ s.records) ∧
        (l.map Record.key).Nodup ∧ groups' = l.foldl VersionGroups.addRecord groups ∧
        s' = l.foldl Store.importRecord s := by
  induction l generalizing position groups s with
  | nil =>
    constructor
    · intro h
      cases h
      exact ⟨by simp, by simp, .nil, rfl, rfl⟩
    · rintro ⟨_, _, _, rfl, rfl⟩
      rfl
  | cons record rest ih =>
    have hkeys : (∀ r ∈ rest, r.key ∉ (s.importRecord record).records) ↔
        record.key ∉ rest.map Record.key ∧ ∀ r ∈ rest, r.key ∉ s.records := by
      simp only [Store.importRecord, Map.mem_insert, not_or, List.mem_map, not_exists, not_and]
      exact ⟨fun h => ⟨fun r hr e => (h r hr).1 e.symm, fun r hr => (h r hr).2⟩,
        fun h r hr => ⟨fun e => h.1 r hr e.symm, h.2 r hr⟩⟩
    constructor
    · intro h
      obtain ⟨⟨groups₁, s₁⟩, hfirst, hrest⟩ := bind_eq_ok.mp h
      obtain ⟨hfits, hfresh, rfl, rfl⟩ := initRecord_eq_ok.mp hfirst
      obtain ⟨hall, hnew, hnodup, rfl, rfl⟩ := ih.mp hrest
      obtain ⟨hown, hold⟩ := hkeys.mp hnew
      exact ⟨List.forall_mem_cons.mpr
          ⟨hfits, fun r hr => (Record.fits_importRecord hfits).mp (hall r hr)⟩,
        List.forall_mem_cons.mpr ⟨hfresh, hold⟩, List.nodup_cons.mpr ⟨hown, hnodup⟩, rfl, rfl⟩
    · rintro ⟨hall, hnew, hnodup, rfl, rfl⟩
      obtain ⟨hfits, hall⟩ := List.forall_mem_cons.mp hall
      obtain ⟨hfresh, hold⟩ := List.forall_mem_cons.mp hnew
      obtain ⟨hown, hnodup⟩ := List.nodup_cons.mp hnodup
      refine bind_eq_ok.mpr ⟨_, initRecord_eq_ok.mpr ⟨hfits, hfresh, rfl, rfl⟩, ih.mpr ?_⟩
      exact ⟨fun r hr => (Record.fits_importRecord hfits).mpr (hall r hr),
        hkeys.mpr ⟨hown, hold⟩, hnodup, rfl, rfl⟩

/-! ## Version groups -/

/-- The check of a group, whatever its label: one latest record, on the largest index. -/
theorem validateIsLatest_eq_ok {g : RecordVersionGroup} {label : Bytes} {u : Unit} :
    g.validateIsLatest label = .ok u ↔ g.latestCount = 1 ∧ g.latestIndex = g.maxIndex := by
  constructor
  · intro h
    obtain ⟨_, hne, h⟩ := bind_eq_ok.mp h
    obtain ⟨_, hle, h⟩ := bind_eq_ok.mp h
    have h0 : g.latestCount ≠ 0 := by simpa using hne
    have h1 : ¬ g.latestCount > 1 := by simpa using hle
    exact ⟨by omega, by simpa using h⟩
  · rintro ⟨hcount, hindex⟩
    refine bind_eq_ok.mpr ⟨(), require_eq_ok.mpr (by simp [hcount]), ?_⟩
    refine bind_eq_ok.mpr ⟨(), require_eq_ok.mpr (by simp [hcount]), ?_⟩
    exact require_eq_ok.mpr (by simpa using hindex)

/-- Every record has one latest version, which is its last. -/
theorem checkGroups_eq_ok {l : List ((UInt64 × UInt64) × RecordVersionGroup)} {u : Unit} :
    checkGroups l = .ok u ↔ ∀ e ∈ l, e.2.latestCount = 1 ∧ e.2.latestIndex = e.2.maxIndex := by
  induction l with
  | nil => exact ⟨fun _ _ he => absurd he List.not_mem_nil, fun _ => rfl⟩
  | cons e rest ih =>
    obtain ⟨gk, g⟩ := e
    rw [List.forall_mem_cons, ← ih]
    constructor
    · intro h
      obtain ⟨_, hg, hrest⟩ := bind_eq_ok.mp h
      exact ⟨validateIsLatest_eq_ok.mp (wrapInvalidGenesis_eq_ok.mp hg), hrest⟩
    · rintro ⟨hg, hrest⟩
      exact bind_eq_ok.mpr ⟨(), wrapInvalidGenesis_eq_ok.mpr (validateIsLatest_eq_ok.mpr hg), hrest⟩

/-- The records of a version group. -/
def groupRecords (l : List Record) (gk : UInt64 × UInt64) : List Record :=
  l.filter fun record => record.group = gk

/-- The groups a list of records makes: each group of the list, with its records in turn. -/
theorem get?_foldl_addRecord (l : List Record) (groups : VersionGroups) (gk : UInt64 × UInt64) :
    (l.foldl VersionGroups.addRecord groups)[gk]? =
      if groupRecords l gk = [] then groups[gk]?
      else some ((groupRecords l gk).foldl RecordVersionGroup.add (groups[gk]?.getD .empty)) := by
  induction l generalizing groups with
  | nil => rfl
  | cons record rest ih =>
    rw [List.foldl_cons, ih]
    by_cases hgk : record.group = gk
    · have hcons : groupRecords (record :: rest) gk = record :: groupRecords rest gk :=
        List.filter_cons_of_pos (by simpa using hgk)
      have hget : (groups.addRecord record)[gk]? =
          some ((groups[gk]?.getD .empty).add record) := by
        rw [VersionGroups.addRecord, hgk, Std.ExtTreeMap.getElem?_insert_self]
      rw [hcons, hget, if_neg (List.cons_ne_nil _ _), List.foldl_cons, Option.getD_some]
      split
      · rename_i hnil
        rw [hnil, List.foldl_nil]
      · rfl
    · have hcons : groupRecords (record :: rest) gk = groupRecords rest gk :=
        List.filter_cons_of_neg (by simpa using hgk)
      have hget : (groups.addRecord record)[gk]? = groups[gk]? := Map.get?_insert_ne _ _ hgk
      rw [hcons, hget]

/-- A group counts its latest records and remembers the last one's index. -/
theorem latest_foldl_add (l : List Record) (g : RecordVersionGroup) :
    (l.foldl RecordVersionGroup.add g).latestCount =
        g.latestCount + (l.filter (·.isLatest)).length ∧
      (l.foldl RecordVersionGroup.add g).latestIndex =
        ((l.filter (·.isLatest)).getLast?.map (·.index)).getD g.latestIndex := by
  induction l generalizing g with
  | nil => exact ⟨rfl, rfl⟩
  | cons r rest ih =>
    rw [List.foldl_cons, (ih _).1, (ih _).2]
    cases hr : r.isLatest with
    | false =>
      rw [List.filter_cons_of_neg (by simpa using hr)]
      simp only [RecordVersionGroup.add, hr, Bool.false_eq_true, if_false]
      split
      · exact ⟨rfl, rfl⟩
      · exact ⟨rfl, rfl⟩
    | true =>
      rw [List.filter_cons_of_pos (by simpa using hr), List.getLast?_cons]
      simp only [RecordVersionGroup.add, hr, if_true, List.length_cons]
      constructor
      · split
        · dsimp only
          omega
        · omega
      · cases (rest.filter (·.isLatest)).getLast? with
        | none => simp
        | some x => simp

/-- A group's largest index is a running maximum. -/
theorem maxIndex_foldl_add (l : List Record) (g : RecordVersionGroup) :
    (l.foldl RecordVersionGroup.add g).maxIndex =
      l.foldl (fun m r => if r.index > m then r.index else m) g.maxIndex := by
  refine (List.foldl_hom RecordVersionGroup.maxIndex fun g r => ?_).symm
  unfold RecordVersionGroup.add
  by_cases hgt : r.index > g.maxIndex
  · simp only [if_pos hgt]
    split <;> rfl
  · simp only [if_neg hgt]
    split <;> rfl

/-- The check of a group, in terms of its records: one of them is the latest, and no index is larger
than its. -/
def OneLatest (l : List Record) : Prop :=
  ∃ x, l.filter (·.isLatest) = [x] ∧ ∀ r ∈ l, r.index ≤ x.index

/-- What the importer counts for a record says that it has one latest version, its last. -/
theorem foldl_add_valid_iff (l : List Record) :
    ((l.foldl RecordVersionGroup.add .empty).latestCount = 1 ∧
      (l.foldl RecordVersionGroup.add .empty).latestIndex =
        (l.foldl RecordVersionGroup.add .empty).maxIndex) ↔ OneLatest l := by
  obtain ⟨hcount, hindex⟩ := latest_foldl_add l .empty
  obtain ⟨-, hall, hsome⟩ := foldl_larger_spec Record.index l RecordVersionGroup.empty.maxIndex
  rw [← maxIndex_foldl_add] at hall hsome
  rw [hcount, hindex]
  constructor
  · rintro ⟨hone, hmax⟩
    obtain ⟨x, hx⟩ : ∃ x, l.filter (·.isLatest) = [x] := List.length_eq_one_iff.mp (by
      simpa [RecordVersionGroup.empty] using hone)
    rw [hx] at hmax
    refine ⟨x, hx, fun r hr => ?_⟩
    have hmax' : x.index = (l.foldl RecordVersionGroup.add .empty).maxIndex := by simpa using hmax
    rw [hmax']
    exact hall r hr
  · rintro ⟨x, hx, hle⟩
    have hmem : x ∈ l := (List.mem_filter.mp (hx ▸ List.mem_singleton_self x)).1
    refine ⟨by simp [hx, RecordVersionGroup.empty], ?_⟩
    have hge := hall x hmem
    simp only [hx, List.getLast?_singleton, Option.map_some, Option.getD_some]
    rcases hsome with h0 | ⟨r, hr, hrmax⟩
    · -- no index exceeds the empty group's zero, `x`'s included
      rw [h0] at hge ⊢
      exact UInt64.le_antisymm hge (UInt64.zero_le)
    · exact UInt64.le_antisymm hge (hrmax ▸ hle r hr)

/-- Every group of a list of records passes its check exactly when it has one latest record, on its
largest index. -/
theorem groups_valid_iff {l : List Record} (it : Iteration (l.foldl VersionGroups.addRecord ∅)) :
    (∀ e ∈ it.entries, e.2.latestCount = 1 ∧ e.2.latestIndex = e.2.maxIndex) ↔
      ∀ record ∈ l, OneLatest (groupRecords l record.group) := by
  have hget : ∀ gk g, (gk, g) ∈ it.entries ↔ groupRecords l gk ≠ [] ∧
      g = (groupRecords l gk).foldl RecordVersionGroup.add .empty := by
    intro gk g
    rw [it.mem_entries, get?_foldl_addRecord, Std.ExtTreeMap.getElem?_empty]
    split
    · rename_i hnil
      exact ⟨(fun e => nomatch e), fun e => absurd hnil e.1⟩
    · rename_i hne
      exact ⟨fun e => ⟨hne, (Option.some.inj e).symm⟩, fun e => e.2 ▸ rfl⟩
  constructor
  · intro h record hrecord
    have hne : groupRecords l record.group ≠ [] :=
      List.ne_nil_of_mem (List.mem_filter.mpr ⟨hrecord, by simp⟩)
    exact (foldl_add_valid_iff _).mp (h _ ((hget _ _).mpr ⟨hne, rfl⟩))
  · rintro h ⟨gk, g⟩ he
    obtain ⟨hne, rfl⟩ := (hget gk g).mp he
    obtain ⟨record, hrecord⟩ := List.exists_mem_of_ne_nil _ hne
    obtain ⟨hmem, hgk⟩ := List.mem_filter.mp hrecord
    have hgk' : record.group = gk := by simpa using hgk
    exact (foldl_add_valid_iff _).mpr (hgk' ▸ h record hmem)

/-! ## Roles -/

/-- The account and role a member key stands for, when it is long enough. -/
def memberOfKey (buffer : Bytes) : Role × Bytes :=
  (Eth.bytesToHash (buffer.take 32), buffer.drop 32)

/-- A member key is a role of 32 bytes and an account of any length. -/
theorem decodeRoleMemberKey_eq_ok {buffer : Bytes} {key : Role × Bytes} :
    decodeRoleMemberKey buffer = .ok key ↔ 32 ≤ buffer.length ∧ key = memberOfKey buffer := by
  unfold decodeRoleMemberKey
  split
  · rename_i h
    exact ⟨(fun e => nomatch e), fun e => absurd h (Nat.not_lt.mpr e.1)⟩
  · rename_i h
    exact ⟨fun e => ⟨Nat.not_lt.mp h, (Except.ok.inj e).symm⟩, fun e => e.2 ▸ rfl⟩

/-- The role admins are assigned one after another. -/
theorem initRoleAdmins_eq (l : List (Bytes × Bytes)) (rbac : Rbac) :
    initRoleAdmins l rbac = { rbac with
      roleAdmins := Map.assign (fun e => decodeRoleAdminKey e.1) Prod.snd rbac.roleAdmins l } := by
  induction l generalizing rbac with
  | nil => rfl
  | cons e rest ih => exact ih _

/-- The role members are assigned one after another, if every key is long enough. -/
theorem initRoleMembers_eq_ok {l : List (Bytes × Bytes)} {rbac rbac' : Rbac} :
    initRoleMembers l rbac = .ok rbac' ↔ (∀ e ∈ l, 32 ≤ e.1.length) ∧ rbac' = { rbac with
      roleMembers := Map.assign (fun e => memberOfKey e.1) Prod.snd rbac.roleMembers l } := by
  induction l generalizing rbac with
  | nil =>
    constructor
    · intro h
      cases h
      exact ⟨fun _ he => absurd he List.not_mem_nil, rfl⟩
    · rintro ⟨_, rfl⟩
      rfl
  | cons e rest ih =>
    rw [List.forall_mem_cons]
    constructor
    · intro h
      obtain ⟨key, hkey, h⟩ := bind_eq_ok.mp h
      obtain ⟨hlen, rfl⟩ := decodeRoleMemberKey_eq_ok.mp hkey
      obtain ⟨hrest, rfl⟩ := ih.mp h
      exact ⟨⟨hlen, hrest⟩, rfl⟩
    · rintro ⟨⟨hlen, hrest⟩, rfl⟩
      exact bind_eq_ok.mpr ⟨_, decodeRoleMemberKey_eq_ok.mpr ⟨hlen, rfl⟩, ih.mpr ⟨hrest, rfl⟩⟩

/-! ## The whole import -/

/-- What the import asks of the registries and records of a genesis. -/
structure GenesisState.Loadable (env : Env) (gs : GenesisState) : Prop where
  registryKey : ∀ (r : UInt64) (registry : Registry), gs.registries[r]? = some registry →
    registry.id = r
  registryValid : ∀ (r : UInt64) (registry : Registry), gs.registries[r]? = some registry →
    validateRegistry env registry = .ok ()
  recordValid : ∀ record ∈ gs.records, validateRecord record = .ok ()
  recordKnown : ∀ record ∈ gs.records, record.registryId ∈ gs.registries
  recordEncodes : ∀ record ∈ gs.records, (0 : UInt8) ∉ record.checksum
  recordKeys : (gs.records.map Record.key).Nodup
  oneLatest : ∀ record ∈ gs.records, OneLatest (groupRecords gs.records record.group)

/-- The store that holds the registries of a genesis. -/
def GenesisState.importedRegistries (gs : GenesisState) (order : GenesisOrder gs) : Store :=
  { (order.registries.entries.map Prod.snd).foldl Store.importRegistry
      { Store.empty with params := some gs.params } with
    registryCount := some ((order.registries.entries.map Prod.snd).foldl largerId 0) }

/-- The store the import builds, when it succeeds. -/
def GenesisState.imported (gs : GenesisState) (order : GenesisOrder gs) : Store :=
  { gs.records.foldl Store.importRecord (gs.importedRegistries order) with
    rbac :=
      { roleAdmins := Map.assign (fun e => decodeRoleAdminKey e.1) Prod.snd ∅ order.roleAdmins.entries
        roleMembers := Map.assign (fun e => memberOfKey e.1) Prod.snd ∅ order.roleMembers.entries } }

/-- The store after all registries, collection by collection. -/
theorem foldl_importRegistry (l : List Registry) (s : Store) :
    l.foldl Store.importRegistry s = { s with
      registries := Map.assign Registry.id id s.registries l
      recordsCountByRegistry := Map.assign Registry.id (fun _ => 0) s.recordsCountByRegistry l } := by
  induction l generalizing s with
  | nil => rfl
  | cons registry rest ih => exact ih _

/-- The store after all records, collection by collection. -/
theorem foldl_importRecord (l : List Record) (s : Store) :
    l.foldl Store.importRecord s = { s with
      recordIndices := l.foldl (fun m r => m.raise r.group r.index) s.recordIndices
      records := Map.assign Record.key id s.records l
      recordIdByRegistryAndChecksum := Map.assign (fun r => (r.registryId, r.checksum))
        Record.recordId s.recordIdByRegistryAndChecksum l
      recordIdByChecksumAndRegistry := Map.assign (fun r => (r.checksum, r.registryId))
        Record.recordId s.recordIdByChecksumAndRegistry l
      recordsCountByRegistry :=
        l.foldl (fun m r => m.raise r.registryId r.recordId) s.recordsCountByRegistry } := by
  induction l generalizing s with
  | nil => rfl
  | cons record rest ih => exact ih _

section Import

variable {env : Env} {gs : GenesisState} {order : GenesisOrder gs}

/-- The registries' loop passes exactly on well-keyed, valid registries. -/
theorem registries_check_iff :
    (∀ e ∈ order.registries.entries, e.1 = e.2.id ∧ validateRegistry env e.2 = .ok ()) ↔
      ∀ (r : UInt64) (registry : Registry), gs.registries[r]? = some registry →
        registry.id = r ∧ validateRegistry env registry = .ok () := by
  constructor
  · intro h r registry hr
    obtain ⟨hid, hvalid⟩ := h (r, registry) (order.registries.mem_entries.mpr hr)
    exact ⟨hid.symm, hvalid⟩
  · rintro h ⟨r, registry⟩ he
    obtain ⟨hid, hvalid⟩ := h r registry (order.registries.mem_entries.mp he)
    exact ⟨hid.symm, hvalid⟩

/-- The import enters the registries of the genesis, each under its id. -/
theorem importedRegistries_registries (order : GenesisOrder gs)
    (hid : ∀ (r : UInt64) (registry : Registry), gs.registries[r]? = some registry →
      registry.id = r) : (gs.importedRegistries order).registries = gs.registries := by
  rw [GenesisState.importedRegistries, foldl_importRegistry]
  refine Map.assign_eq (fun registry hregistry => ?_) fun r hr => ?_
  · obtain ⟨⟨r, _⟩, he, rfl⟩ := List.mem_map.mp hregistry
    have hget := order.registries.mem_entries.mp he
    rw [hid r _ hget]
    exact hget
  · obtain ⟨registry, hget⟩ := Map.mem_iff.mp hr
    exact ⟨registry, List.mem_map.mpr ⟨(r, registry), order.registries.mem_entries.mpr hget, rfl⟩,
      hid r registry hget⟩

/-- Every imported registry has a record counter. -/
theorem mem_importedRegistries_counts {r : UInt64} :
    r ∈ (gs.importedRegistries order).recordsCountByRegistry ↔
      r ∈ (gs.importedRegistries order).registries := by
  rw [GenesisState.importedRegistries, foldl_importRegistry]
  show r ∈ Map.assign Registry.id (fun _ => (0 : UInt64)) ∅ _ ↔ r ∈ Map.assign Registry.id id ∅ _
  rw [Map.mem_assign, Map.mem_assign]
  simp only [Std.ExtTreeMap.not_mem_empty, or_false]

/-- A record counter starts at zero. -/
theorem importedRegistries_count {r n : UInt64}
    (h : (gs.importedRegistries order).recordsCountByRegistry[r]? = some n) : n = 0 := by
  rw [GenesisState.importedRegistries, foldl_importRegistry] at h
  have h' : (Map.assign Registry.id (fun _ => (0 : UInt64)) ∅
    (order.registries.entries.map Prod.snd))[r]? = some n := h
  rcases Map.get?_assign_cases h' with ⟨_, _, _, rfl⟩ | ⟨_, hnone⟩
  · rfl
  · rw [Std.ExtTreeMap.getElem?_empty] at hnone
    cases hnone

/-- The groups' loop passes exactly when every group has one latest record, on its largest index. -/
theorem groups_check_iff (it : Iteration (gs.records.foldl VersionGroups.addRecord ∅)) {u : Unit} :
    checkGroups it.entries = .ok u ↔
      ∀ record ∈ gs.records, OneLatest (groupRecords gs.records record.group) :=
  checkGroups_eq_ok.trans (groups_valid_iff it)

/-- The role loops, on the store the loops before them leave. -/
theorem imported_eq {s : Store}
    (hs : s = gs.records.foldl Store.importRecord (gs.importedRegistries order)) :
    { s with rbac := { initRoleAdmins order.roleAdmins.entries s.rbac with
      roleMembers := Map.assign (fun e => memberOfKey e.1) Prod.snd
        (initRoleAdmins order.roleAdmins.entries s.rbac).roleMembers order.roleMembers.entries } } =
      gs.imported order := by
  have hempty : s.rbac = Store.empty.rbac := by
    rw [hs, foldl_importRecord, GenesisState.importedRegistries, foldl_importRegistry]
  rw [initRoleAdmins_eq, hempty, GenesisState.imported, hs]
  rfl

/-- The records' loop, after the registries' loop on an empty store. -/
theorem records_check_iff (order : GenesisOrder gs)
    (hid : ∀ (r : UInt64) (registry : Registry), gs.registries[r]? = some registry →
      registry.id = r) :
    ((∀ record ∈ gs.records, record.Fits (gs.importedRegistries order)) ∧
      ∀ record ∈ gs.records, record.key ∉ (gs.importedRegistries order).records) ↔
    (∀ record ∈ gs.records, validateRecord record = .ok ()) ∧
      (∀ record ∈ gs.records, record.registryId ∈ gs.registries) ∧
      ∀ record ∈ gs.records, (0 : UInt8) ∉ record.checksum := by
  have hregistries := importedRegistries_registries order hid
  have hnone : ∀ key, key ∉ (gs.importedRegistries order).records := by
    intro key
    rw [GenesisState.importedRegistries, foldl_importRegistry]
    exact Std.ExtTreeMap.not_mem_empty
  constructor
  · rintro ⟨hfits, _⟩
    exact ⟨fun r hr => (hfits r hr).valid, fun r hr => hregistries ▸ (hfits r hr).known,
      fun r hr => (hfits r hr).encodes⟩
  · rintro ⟨hvalid, hknown, hencodes⟩
    refine ⟨fun r hr => ?_, fun r _ => hnone _⟩
    have hin : r.registryId ∈ (gs.importedRegistries order).registries := hregistries ▸ hknown r hr
    exact ⟨hvalid r hr, hin, hencodes r hr, mem_importedRegistries_counts.mpr hin⟩

/-- **The import on an empty store succeeds exactly on a loadable genesis whose member keys hold a
role**, in every order of its ranges; and then it builds the imported store. -/
theorem initGenesis_eq_ok {s' : Store} :
    initGenesis env gs order Store.empty = .ok s' ↔
      gs.Loadable env ∧ (∀ (k v : Bytes), gs.roleMembers[k]? = some v → 32 ≤ k.length) ∧
        s' = gs.imported order := by
  unfold initGenesis
  constructor
  · intro h
    obtain ⟨⟨count, s₁⟩, hregs, h⟩ := bind_eq_ok.mp h
    obtain ⟨hcheck, rfl, rfl⟩ := initRegistries_eq_ok.mp hregs
    obtain ⟨⟨groups, s₂⟩, hrecs, h⟩ := bind_eq_ok.mp h
    obtain ⟨hfits, hfresh, hnodup, rfl, rfl⟩ := initRecords_eq_ok.mp hrecs
    obtain ⟨_, hgroups, h⟩ := bind_eq_ok.mp h
    obtain ⟨rbac, hmembers, h⟩ := bind_eq_ok.mp h
    obtain ⟨hlen, hrbac⟩ := initRoleMembers_eq_ok.mp hmembers
    have hregistries := registries_check_iff.mp hcheck
    have hid := fun r registry hr => (hregistries r registry hr).1
    obtain ⟨hvalid, hknown, hencodes⟩ := (records_check_iff order hid).mp ⟨hfits, hfresh⟩
    refine ⟨⟨hid, fun r registry hr => (hregistries r registry hr).2, hvalid, hknown, hencodes,
      hnodup, (groups_check_iff _).mp hgroups⟩,
      fun k v hk => hlen (k, v) (order.roleMembers.mem_entries.mpr hk), ?_⟩
    cases h
    rw [hrbac]
    exact imported_eq rfl
  · rintro ⟨hload, hlen, rfl⟩
    refine bind_eq_ok.mpr ⟨_, initRegistries_eq_ok.mpr ⟨registries_check_iff.mpr
      fun r registry hr => ⟨hload.registryKey r registry hr, hload.registryValid r registry hr⟩,
      rfl, rfl⟩, ?_⟩
    obtain ⟨hfits, hfresh⟩ := (records_check_iff order hload.registryKey).mpr
      ⟨hload.recordValid, hload.recordKnown, hload.recordEncodes⟩
    refine bind_eq_ok.mpr ⟨_, initRecords_eq_ok.mpr ⟨hfits, hfresh, hload.recordKeys, rfl, rfl⟩, ?_⟩
    refine bind_eq_ok.mpr ⟨(), (groups_check_iff _).mpr hload.oneLatest, ?_⟩
    refine bind_eq_ok.mpr ⟨_, initRoleMembers_eq_ok.mpr ⟨?_, rfl⟩, ?_⟩
    · rintro ⟨k, v⟩ he
      exact hlen k v (order.roleMembers.mem_entries.mp he)
    · exact congrArg Except.ok (imported_eq rfl)

end Import

end Nvnmchain
