import Nvnmchain.Anchoring.Rbac

/-!
# The keeper: the module's store and the operations on it

`x/anchoring/keeper/keeper.go` and `anchoring.go`. The store is the keeper's collections. An
operation takes the store and answers the store it leaves; an operation that fails answers only its
error, as its caller discards the writes it made.

A collection's `Set` fails only where its key does not encode. The one such key here is a checksum
in front of a registry id: a string that is not last in its key ends at a NUL byte, so it may not
contain one.
-/

set_option autoImplicit false

namespace Nvnmchain

open Go (Bytes str fmtUint fmtHex)
open Collections

/-- `RoleAdmin`. -/
def roleAdmin : Bytes := str "admin"

/-- `RoleEditor`. -/
def roleEditor : Bytes := str "editor"

/-! ## The collections

Each composite key has its order as an instance of its own, so that the terms of the model name it.
-/

instance transOrdRecordRef : Std.TransOrd (UInt64 × UInt64) := inferInstance
instance transOrdRecordKey : Std.TransOrd (UInt64 × UInt64 × UInt64) := inferInstance
instance transOrdRegistryChecksum : Std.TransOrd (UInt64 × Bytes) := inferInstance
instance transOrdChecksumRegistry : Std.TransOrd (Bytes × UInt64) := inferInstance

/-- The keeper's collections. An item that was never set is `none`. -/
@[ext]
structure Store where
  params : Option Params
  registries : Map UInt64 Registry
  registryCount : Option UInt64
  records : Map (UInt64 × UInt64 × UInt64) Record
  recordIdByRegistryAndChecksum : Map (UInt64 × Bytes) UInt64
  recordsCountByRegistry : Map UInt64 UInt64
  recordIndices : Map (UInt64 × UInt64) UInt64
  recordIdByChecksumAndRegistry : Map (Bytes × UInt64) UInt64
  rbac : Rbac

/-- The store with nothing in it. -/
def Store.empty : Store where
  params := none
  registries := ∅
  registryCount := none
  records := ∅
  recordIdByRegistryAndChecksum := ∅
  recordsCountByRegistry := ∅
  recordIndices := ∅
  recordIdByChecksumAndRegistry := ∅
  rbac := { roleAdmins := ∅, roleMembers := ∅ }

/-- `Get` of an item or a key: `collections.ErrNotFound` when it is absent. -/
def getOrNotFound {α : Type} : Option α → Except Err α
  | some a => .ok a
  | none => .error (.sentinel .collectionsNotFound)

/-- A value that was read is stored. -/
@[simp]
theorem getOrNotFound_eq_ok {α : Type} {o : Option α} {a : α} :
    getOrNotFound o = .ok a ↔ o = some a := by
  cases o with
  | none => exact ⟨(fun h => nomatch h), (fun h => nomatch h)⟩
  | some b => exact ⟨fun h => by cases h; rfl, fun h => by cases h; rfl⟩

/-- The encoding of a string that is not the last component of a key. -/
def encodeNonTerminal (s : Bytes) : Except Err Unit :=
  if (0 : UInt8) ∈ s then .error (.sentinel .collectionsEncoding) else .ok ()

/-- A string encodes inside a key if it has no NUL byte. -/
@[simp]
theorem encodeNonTerminal_eq_ok {s : Bytes} {u : Unit} :
    encodeNonTerminal s = .ok u ↔ (0 : UInt8) ∉ s := by
  unfold encodeNonTerminal
  split
  · rename_i h
    exact ⟨(fun e => nomatch e), fun hn => absurd h hn⟩
  · rename_i h
    exact ⟨fun _ => h, fun _ => rfl⟩

/-! ## Roles -/

/-- The string `RecordRole` hashes: `record:%d:%x:%x`. -/
def recordRoleName (registryId : UInt64) (checksum role : Bytes) : Bytes :=
  str "record:" ++ fmtUint registryId.toNat ++ str ":" ++ fmtHex checksum ++ str ":" ++ fmtHex role

/-- The string `RegistryRole` hashes: `registry:%d:%s`. -/
def registryRoleName (registryId : UInt64) (role : Bytes) : Bytes :=
  str "registry:" ++ fmtUint registryId.toNat ++ str ":" ++ role

/-- `rbac.NewRoleHash`. -/
def newRoleHash (env : Env) (id : Bytes) : Role := env.keccak256 id

/-- `RecordRole`. -/
def recordRole (env : Env) (registryId : UInt64) (checksum role : Bytes) : Role :=
  newRoleHash env (recordRoleName registryId checksum role)

/-- `RegistryRole`. -/
def registryRole (env : Env) (registryId : UInt64) (role : Bytes) : Role :=
  newRoleHash env (registryRoleName registryId role)

/-- `checkRecordRoles`. -/
def checkRecordRoles (env : Env) (s : Store) (sender : Bytes) (registryId : UInt64)
    (checksum : Bytes) (roles : List Bytes) : Bool :=
  if checksum = [] ∨ roles.length = 0 then false
  else roles.any fun roleStr => s.rbac.hasRole (recordRole env registryId checksum roleStr) sender

/-- `checkRegistryRoles`. -/
def checkRegistryRoles (env : Env) (s : Store) (sender : Bytes) (registryId : UInt64)
    (roles : List Bytes) : Bool :=
  if roles.length = 0 then false
  else roles.any fun roleStr => s.rbac.hasRole (registryRole env registryId roleStr) sender

/-- `checkPermission`. -/
def checkPermission (env : Env) (s : Store) (sender : Bytes) (registryId : UInt64)
    (checksum : Bytes) (requiredRoles : List Bytes) : Except Err Unit :=
  if checkRecordRoles env s sender registryId checksum requiredRoles then .ok ()
  else if checkRegistryRoles env s sender registryId requiredRoles then .ok ()
  else .error (.sentinel .unauthorized)

/-! ## Registries and records -/

/-- `initializeRegistryRecordCounter`. -/
def initializeRegistryRecordCounter (s : Store) (registryId : UInt64) : Store :=
  { s with recordsCountByRegistry := s.recordsCountByRegistry.insert registryId 0 }

/-- `Keeper.AddRegistry`. -/
def Store.addRegistry (env : Env) (ctx : Ctx) (sender name description metadata : Bytes)
    (s : Store) : Except Err (UInt64 × Store) := do
  wrapInvalidRequest (validateRegistryForCreate name description metadata)
  let registryCount ← getOrNotFound s.registryCount
  let registryId := registryCount + 1
  let registry : Registry := {
    id := registryId, name, description, creator := env.accAddressString sender,
    createdAt := ctx.blockTime, metadata }
  let s := { s with registries := s.registries.insert registryId registry }
  let adminRole := registryRole env registryId roleAdmin
  let s := { s with rbac := s.rbac.setRoleAdmin adminRole adminRole }
  let creator ← env.stringToBytes (env.accAddressString sender)
  let s := { s with rbac := { s.rbac with
    roleMembers := s.rbac.roleMembers.insert (adminRole, creator) [] } }
  let s := initializeRegistryRecordCounter s registryId
  let s := { s with registryCount := some registryId }
  pure (registryId, s)

/-- The record id of a checksum: the one it has in the registry, or the next one, entered in both
checksum indexes. The first half of `Keeper.AddRecord`. -/
def Store.assignRecordId (registryId : UInt64) (checksum : Bytes) (s : Store) :
    Except Err (UInt64 × Store) :=
  match s.recordIdByRegistryAndChecksum[(registryId, checksum)]? with
  | some recordId => pure (recordId, s)
  | none => do
    let recordCount ← getOrNotFound s.recordsCountByRegistry[registryId]?
    let recordId := recordCount + 1
    let s := { s with
      recordsCountByRegistry := s.recordsCountByRegistry.insert registryId recordId }
    encodeNonTerminal checksum
    let s := { s with recordIdByChecksumAndRegistry :=
      s.recordIdByChecksumAndRegistry.insert (checksum, registryId) recordId }
    let s := { s with recordIdByRegistryAndChecksum :=
      s.recordIdByRegistryAndChecksum.insert (registryId, checksum) recordId }
    pure (recordId, s)

/-- `index` of a new version: one past the latest, or 1. -/
def Store.nextIndex (registryId recordId : UInt64) (s : Store) : UInt64 :=
  match s.recordIndices[(registryId, recordId)]? with
  | none => 1
  | some index => index + 1

/-- Storing a new version under the record id it was given, and taking `IsLatest` from the version
before it. The second half of `Keeper.AddRecord`. -/
def Store.storeVersion (ctx : Ctx) (recordId : UInt64) (record : Record) (s : Store) :
    Except Err Store := do
  let registryId := record.registryId
  let record := { record with recordId }
  let index := s.nextIndex registryId record.recordId
  let record := { record with index }
  let s := { s with recordIndices := s.recordIndices.insert (registryId, record.recordId) index }
  let record := { record with timestamp := ctx.blockTime, isLatest := true }
  let s := { s with records := s.records.insert (registryId, record.recordId, record.index) record }
  if index > 1 then do
    let prevRecord ← getOrNotFound s.records[(registryId, record.recordId, record.index - 1)]?
    let prevRecord := { prevRecord with isLatest := false }
    pure { s with
      records := s.records.insert (registryId, record.recordId, record.index - 1) prevRecord }
  else pure s

/-- `Keeper.AddRecord`. -/
def Store.addRecord (env : Env) (ctx : Ctx) (sender : Bytes) (record : Record) (s : Store) :
    Except Err (UInt64 × Store) := do
  wrapInvalidRequest (validateRecordForCreate record)
  let registryId := record.registryId
  let _ ← getOrNotFound s.registries[registryId]?
  checkPermission env s sender registryId record.checksum [roleAdmin, roleEditor]
  let (recordId, s) ← s.assignRecordId registryId record.checksum
  let s ← s.storeVersion ctx recordId record
  pure (recordId, s)

/-- `Keeper.UpdateRecordStatus`. -/
def Store.updateRecordStatus (env : Env) (sender : Bytes) (registryId recordId index : UInt64)
    (newStatus : Bytes) (s : Store) : Except Err Store := do
  wrapInvalidRequest (validateRecordStatus newStatus)
  let record ← getOrNotFound s.records[(registryId, recordId, index)]?
  checkPermission env s sender registryId record.checksum [roleAdmin, roleEditor]
  let record := { record with status := newStatus }
  pure { s with records := s.records.insert (registryId, recordId, index) record }

end Nvnmchain
