import Nvnmchain.Anchoring.Keeper

/-!
# Genesis import and export

`x/anchoring/keeper/genesis.go` with the version-group check of `types/record_validation.go`.

A genesis state holds Go maps, which a range visits in an order of its own. `InitGenesis` ranges
over four of them: the registries, the version groups it collects, and the two role tables.
`GenesisOrder` fixes the order of each range, so a law of `initGenesis` for every order is a law of
the code on every node.

The exported role tables are keyed by strings, the bytes of the store's keys: a role alone, or a
role followed by an account.
-/

set_option autoImplicit false

namespace Nvnmchain

open Go (Bytes str fmtUint)
open Eth (bytesToHash)
open Collections

/-- `types.GenesisState`. -/
structure GenesisState where
  params : Params
  registries : Map UInt64 Registry
  records : List Record
  roleAdmins : Map Bytes Bytes
  roleMembers : Map Bytes Bytes

/-! ## Version groups -/

/-- `types.RecordVersionGroup`. -/
structure RecordVersionGroup where
  maxIndex : UInt64
  latestIndex : UInt64
  latestCount : Nat
deriving DecidableEq

/-- `&types.RecordVersionGroup{}`. -/
def RecordVersionGroup.empty : RecordVersionGroup := ⟨0, 0, 0⟩

/-- `RecordVersionGroup.Add`. -/
def RecordVersionGroup.add (g : RecordVersionGroup) (r : Record) : RecordVersionGroup :=
  let g := if r.index > g.maxIndex then { g with maxIndex := r.index } else g
  if r.isLatest then { g with latestIndex := r.index, latestCount := g.latestCount + 1 } else g

/-- `RecordVersionGroup.ValidateIsLatest`. -/
def RecordVersionGroup.validateIsLatest (g : RecordVersionGroup) (label : Bytes) :
    Except Err Unit := do
  require (g.latestCount ≠ 0) (.text (label ++ str " has no record with is_latest=true"))
  require (¬ g.latestCount > 1) (.text (label ++ str " has " ++ fmtUint g.latestCount ++
    str " records with is_latest=true, expected 1"))
  require (g.latestIndex = g.maxIndex) (.text (label ++ str " is_latest=true is on index " ++
    fmtUint g.latestIndex.toNat ++ str " but max index is " ++ fmtUint g.maxIndex.toNat))

/-! ## Role keys -/

/-- `RoleCodec.Encode`, the key of `RoleAdmins`. -/
def encodeRBACRoleAdminKey (role : Role) : Bytes := role.bytes

/-- The key of `RoleMembers`: the role, then the account. -/
def encodeRBACRoleMemberKey (key : Role × Bytes) : Bytes := key.1.bytes ++ key.2

/-- `RoleCodec.Decode` takes the whole buffer. -/
def decodeRoleAdminKey (buffer : Bytes) : Role := bytesToHash buffer

/-- `Decode` of `RoleMembers`' key codec: `RoleCodec.DecodeNonTerminal`, then the rest. -/
def decodeRoleMemberKey (buffer : Bytes) : Except Err (Role × Bytes) :=
  if buffer.length < 32 then
    .error (.text (str "buffer too small for non-terminal role decode: need 32, got " ++
      fmtUint buffer.length))
  else .ok (bytesToHash (buffer.take 32), buffer.drop 32)

/-! ## Import -/

/-- The loop over the registries; it carries the largest id seen. -/
def initRegistries (env : Env) : List (UInt64 × Registry) → UInt64 → Store →
    Except Err (UInt64 × Store)
  | [], registryCount, s => .ok (registryCount, s)
  | (mapKey, registry) :: rest, registryCount, s => do
    require (mapKey = registry.id) (.wrap (.sentinel .invalidGenesisState) (str "registry map key " ++
      fmtUint mapKey.toNat ++ str " does not match registry id " ++ fmtUint registry.id.toNat))
    wrapf (str "invalid genesis registry (id=" ++ fmtUint registry.id.toNat ++ str ", name=" ++
      registry.name ++ str ")") (validateRegistry env registry)
    let s := { s with registries := s.registries.insert registry.id registry }
    let s := initializeRegistryRecordCounter s registry.id
    let registryCount := if registry.id > registryCount then registry.id else registryCount
    initRegistries env rest registryCount s

/-- The version groups collected so far, by registry and record id. -/
abbrev VersionGroups := Map (UInt64 × UInt64) RecordVersionGroup

/-- The text that names a record key. -/
def recordKeyText (registryId recordId index : UInt64) : Bytes :=
  str "(registry_id=" ++ fmtUint registryId.toNat ++ str ", record_id=" ++ fmtUint recordId.toNat ++
    str ", index=" ++ fmtUint index.toNat

/-- `RecordIndices` keeps the largest index seen of each record. -/
def raiseIndex (s : Store) (record : Record) : Store :=
  let set := { s with recordIndices :=
    s.recordIndices.insert (record.registryId, record.recordId) record.index }
  match s.recordIndices[(record.registryId, record.recordId)]? with
  | none => set
  | some index => if record.index > index then set else s

/-- `RecordsCountByRegistry` keeps the largest record id seen of each registry. -/
def raiseCount (s : Store) (record : Record) : Except Err Store := do
  let recordsCount ← getOrNotFound s.recordsCountByRegistry[record.registryId]?
  pure (if record.recordId > recordsCount then
      { s with recordsCountByRegistry :=
        s.recordsCountByRegistry.insert record.registryId record.recordId }
    else s)

/-- One record of the loop over the records, at its position. -/
def initRecord (position : Nat) (record : Record) (groups : VersionGroups) (s : Store) :
    Except Err (VersionGroups × Store) := do
  wrapf (str "invalid genesis record " ++
    recordKeyText record.registryId record.recordId record.index ++ str ", checksum=" ++
      record.checksum ++ str ", position=" ++ fmtUint position ++ str ")") (validateRecord record)
  let registryId := record.registryId
  let _ ← wrapf (str "record references unknown registry_id " ++ fmtUint registryId.toNat)
    (getOrNotFound s.registries[registryId]?)
  let recordKey := (registryId, record.recordId, record.index)
  require (!s.records.contains recordKey) (.wrap (.sentinel .duplicateRecordKey)
    (str "duplicate record key " ++
      recordKeyText registryId record.recordId record.index ++ str ")"))
  let s := raiseIndex s record
  let s := { s with records := s.records.insert recordKey record }
  let s := { s with recordIdByRegistryAndChecksum :=
    s.recordIdByRegistryAndChecksum.insert (registryId, record.checksum) record.recordId }
  encodeNonTerminal record.checksum
  let s := { s with recordIdByChecksumAndRegistry :=
    s.recordIdByChecksumAndRegistry.insert (record.checksum, registryId) record.recordId }
  let s ← raiseCount s record
  let gk := (registryId, record.recordId)
  pure (groups.insert gk ((groups[gk]?.getD .empty).add record), s)

/-- The loop over the records. -/
def initRecords : List Record → Nat → VersionGroups → Store → Except Err (VersionGroups × Store)
  | [], _, groups, s => .ok (groups, s)
  | record :: rest, position, groups, s => do
    let (groups, s) ← initRecord position record groups s
    initRecords rest (position + 1) groups s

/-- `errorsmod.Wrapf(types.ErrInvalidGenesisState, "%s", err)` around a check. -/
def wrapInvalidGenesis {α : Type} : Except Err α → Except Err α
  | .ok a => .ok a
  | .error e => .error (.wrap (.sentinel .invalidGenesisState) e.message)

@[simp]
theorem wrapInvalidGenesis_eq_ok {α : Type} {x : Except Err α} {a : α} :
    wrapInvalidGenesis x = .ok a ↔ x = .ok a := by
  cases x with
  | ok b => exact Iff.rfl
  | error e => exact ⟨(fun h => nomatch h), (fun h => nomatch h)⟩

/-- The loop over the version groups. -/
def checkGroups : List ((UInt64 × UInt64) × RecordVersionGroup) → Except Err Unit
  | [] => .ok ()
  | (gk, g) :: rest => do
    wrapInvalidGenesis (g.validateIsLatest (str "record group (registry_id=" ++
      fmtUint gk.1.toNat ++ str ", record_id=" ++ fmtUint gk.2.toNat ++ str ")"))
    checkGroups rest

/-- The loop over the role admins. -/
def initRoleAdmins : List (Bytes × Bytes) → Rbac → Rbac
  | [], rbac => rbac
  | (keyStr, adminRole) :: rest, rbac =>
    initRoleAdmins rest
      { rbac with roleAdmins := rbac.roleAdmins.insert (decodeRoleAdminKey keyStr) adminRole }

/-- The loop over the role members. -/
def initRoleMembers : List (Bytes × Bytes) → Rbac → Except Err Rbac
  | [], rbac => .ok rbac
  | (keyStr, marker) :: rest, rbac => do
    let key ← decodeRoleMemberKey keyStr
    initRoleMembers rest { rbac with roleMembers := rbac.roleMembers.insert key marker }

/-- The order of each range of `InitGenesis` over a Go map. -/
structure GenesisOrder (gs : GenesisState) where
  registries : Iteration gs.registries
  groups : ∀ groups : VersionGroups, Iteration groups
  roleAdmins : Iteration gs.roleAdmins
  roleMembers : Iteration gs.roleMembers

/-- Every range in key order. -/
def GenesisOrder.sorted (gs : GenesisState) : GenesisOrder gs where
  registries := .sorted _
  groups := .sorted
  roleAdmins := .sorted _
  roleMembers := .sorted _

/-- `Keeper.InitGenesis`. -/
def initGenesis (env : Env) (gs : GenesisState) (order : GenesisOrder gs) (s : Store) :
    Except Err Store := do
  let s := { s with params := some gs.params }
  let (registryCount, s) ← initRegistries env order.registries.entries 0 s
  let s := { s with registryCount := some registryCount }
  let (groups, s) ← initRecords gs.records 0 ∅ s
  checkGroups (order.groups groups).entries
  let s := { s with rbac := initRoleAdmins order.roleAdmins.entries s.rbac }
  let rbac ← initRoleMembers order.roleMembers.entries s.rbac
  pure { s with rbac }

/-! ## Export -/

/-- `Keeper.ExportGenesis`: every collection is walked into a map or a list. -/
def exportGenesis (s : Store) : Except Err GenesisState := do
  let params ← getOrNotFound s.params
  pure {
    params
    registries := Map.assign Prod.fst Prod.snd ∅ s.registries.toList
    records := s.records.toList.map Prod.snd
    roleAdmins := Map.assign (fun e => encodeRBACRoleAdminKey e.1) Prod.snd ∅ s.rbac.roleAdmins.toList
    roleMembers :=
      Map.assign (fun e => encodeRBACRoleMemberKey e.1) Prod.snd ∅ s.rbac.roleMembers.toList }

end Nvnmchain
