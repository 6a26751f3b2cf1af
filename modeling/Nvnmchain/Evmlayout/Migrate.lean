import Nvnmchain.Anchoring.Keeper
import Nvnmchain.Evmlayout.Layout

/-!
# The migration of the module's state to the contract's storage

`x/anchoring/evmlayout/migrate.go`. `Migrate` makes eight walks over the keeper's collections and
hands each storage slot to a sink. A sink is a function with a state of its own; a step answers the
sink's next state, and a step that fails answers its error with the state the sink is left in, since
what was handed over before the failure stays handed over.
-/

set_option autoImplicit false

namespace Nvnmchain.Evmlayout

open Go (Bytes str fmtUint)
open Eth (Hash bytesToHash putUint64)
open Collections

/-- The outcome of a step: the sink's state, with an error when the step failed. -/
abbrev Outcome (σ α : Type) := Except (Err × σ) α

/-- `Sink`. -/
abbrev Sink (σ : Type) := σ → Write → Outcome σ σ

section Steps

variable {σ : Type}

/-- An error that is not the sink's leaves the sink as it is. -/
def leaving {α : Type} (st : σ) : Except Err α → Outcome σ α
  | .ok a => .ok a
  | .error e => .error (e, st)

/-- `fmt.Errorf("migrating %s: %w", what, err)`. -/
def migrating {α : Type} (what : String) : Outcome σ α → Outcome σ α
  | .ok a => .ok a
  | .error (e, st) => .error (.wrap e (str "migrating " ++ str what), st)

/-- `skipZero`. -/
def skipZero (sink : Sink σ) : Sink σ := fun st w =>
  if w.value = .zero then .ok st else sink st w

/-- `emitAll`. -/
def emitAll (emit : Sink σ) (st : σ) (writes : List Write) : Outcome σ σ := writes.foldlM emit st

/-- `asciiLower`. -/
def asciiLower (s : Bytes) : Bytes :=
  s.map fun c => if 65 ≤ c ∧ c ≤ 90 then c + 97 - 65 else c

/-- What the walk over the registries carries. -/
structure RegistryWalk (σ : Type) where
  previous : UInt64
  byName : Map Bytes (List UInt64)
  sink : σ

/-- One registry of the walk. -/
def migrateRegistry (env : Env) (emit : Sink σ) (w : RegistryWalk σ) (id : UInt64)
    (registry : Registry) : Outcome σ (Bool × RegistryWalk σ) := do
  if id ≠ w.previous + 1 then
    .error (.text (str "ids must run from 1 with no gaps, got " ++ fmtUint id.toNat ++ str " after " ++
      fmtUint w.previous.toNat), w.sink)
  else
    let key := asciiLower registry.name
    let byName := w.byName.insert key (w.byName[key]?.getD [] ++ [id])
    let sink ← emitAll emit w.sink (registryWrites env (registryBase env id) registry)
    pure (false, ⟨id, byName, sink⟩)

/-- `migrateRegistries`. -/
def migrateRegistries (env : Env) (s : Store) (emit : Sink σ) (st : σ) : Outcome σ σ := do
  let w ← walk (migrateRegistry env emit) ⟨0, ∅, st⟩ s.registries.toList
  let count ← leaving w.sink (getOrNotFound s.registryCount)
  if count ≠ w.previous then
    .error (.text (str "RegistryCount is " ++ fmtUint count.toNat ++ str " but the ids end at " ++
      fmtUint w.previous.toNat), w.sink)
  else
    w.byName.toList.foldlM (fun st e =>
      emitAll emit st (idsWrites env (word slotRegistriesByName) e.1 e.2)) w.sink

/-- A walk whose callback only emits. -/
def emitEach {κ ν : Type} (emit : Sink σ) (f : κ → ν → List Write) (st : σ) (l : List (κ × ν)) :
    Outcome σ σ :=
  walk (fun st k v => do pure (false, ← emitAll emit st (f k v))) st l

/-- `migrateRecordCounts`. -/
def migrateRecordCounts (env : Env) (s : Store) (emit : Sink σ) (st : σ) : Outcome σ σ :=
  emitEach emit (fun id count => [⟨mapUint64 env id (word slotRecordCount), word count⟩]) st
    s.recordsCountByRegistry.toList

/-- `migrateRecords`. -/
def migrateRecords (env : Env) (s : Store) (emit : Sink σ) (st : σ) : Outcome σ σ :=
  emitEach emit (fun key record => recordWrites env (recordBase env key.1 key.2.1 key.2.2) record) st
    s.records.toList

/-- `migrateLatestIndexes`. -/
def migrateLatestIndexes (env : Env) (s : Store) (emit : Sink σ) (st : σ) : Outcome σ σ :=
  emitEach emit (fun key index =>
    [⟨mapUint64 env key.2 (mapUint64 env key.1 (word slotLatestIndex)), word index⟩]) st
    s.recordIndices.toList

/-- `migrateRecordIDs`. -/
def migrateRecordIDs (env : Env) (s : Store) (emit : Sink σ) (st : σ) : Outcome σ σ :=
  emitEach emit (fun key recordID =>
    [⟨mapString env key.2 (mapUint64 env key.1 (word slotRecordIDByChecksum)), word recordID⟩]) st
    s.recordIdByRegistryAndChecksum.toList

/-- The header's word: the admin's address, and the registry count above it. -/
def headerWord (admin : Bytes) (count : UInt64) : Hash :=
  (Hash.zero.copyInto 12 (Eth.bytesToAddress admin)).copyInto 4 (putUint64 count)

/-- `migrateHeader`. -/
def migrateHeader (env : Env) (s : Store) (emit : Sink σ) (st : σ) : Outcome σ σ := do
  let params ← leaving st (getOrNotFound s.params)
  let admin ← leaving st (wrapf (str "params admin " ++ env.quote params.admin)
    (env.accAddressFromBech32 params.admin))
  let count ← leaving st (getOrNotFound s.registryCount)
  emit st ⟨word slotHeader, headerWord admin count⟩

/-- What the walk over the checksum index carries. -/
structure ChecksumWalk (σ : Type) where
  current : Bytes
  registries : List UInt64
  sink : σ

/-- `flush` of the checksum index. -/
def flushIds (env : Env) (emit : Sink σ) (w : ChecksumWalk σ) : Outcome σ σ :=
  if w.registries.length = 0 then .ok w.sink
  else emitAll emit w.sink (idsWrites env (word slotRegistriesByChecksum) w.current w.registries)

/-- One entry of the checksum index. -/
def migrateChecksum (env : Env) (emit : Sink σ) (w : ChecksumWalk σ) (key : Bytes × UInt64)
    (_ : UInt64) : Outcome σ (Bool × ChecksumWalk σ) := do
  let w ← if key.1 ≠ w.current then do
      let sink ← flushIds env emit w
      pure (⟨key.1, [], sink⟩ : ChecksumWalk σ)
    else pure w
  pure (false, { w with registries := w.registries ++ [key.2] })

/-- `migrateChecksumIndex`. -/
def migrateChecksumIndex (env : Env) (s : Store) (emit : Sink σ) (st : σ) : Outcome σ σ := do
  let w ← walk (migrateChecksum env emit) ⟨[], [], st⟩ s.recordIdByChecksumAndRegistry.toList
  flushIds env emit w

/-- What the walk over the role members carries. -/
structure MemberWalk (σ : Type) where
  current : Role
  members : UInt64
  sink : σ

/-- `flushCount`. -/
def flushCount (env : Env) (emit : Sink σ) (w : MemberWalk σ) : Outcome σ σ :=
  if w.members = 0 then .ok w.sink
  else emit w.sink ⟨mapHash env w.current (word slotRoleMemberCount), word w.members⟩

/-- One entry of the role members. -/
def migrateMember (env : Env) (emit : Sink σ) (w : MemberWalk σ) (key : Role × Bytes) (_ : Bytes) :
    Outcome σ (Bool × MemberWalk σ) := do
  let w ← if key.1 ≠ w.current then do
      let sink ← flushCount env emit w
      pure (⟨key.1, 0, sink⟩ : MemberWalk σ)
    else pure w
  let sink ← emit w.sink
    ⟨mapHash env (bytesToHash key.2) (mapHash env key.1 (word slotRoleMembers)), word 1⟩
  pure (false, { w with members := w.members + 1, sink })

/-- `migrateRoles`. -/
def migrateRoles (env : Env) (s : Store) (emit : Sink σ) (st : σ) : Outcome σ σ := do
  let st ← emitEach emit (fun role adminRole =>
    [⟨mapHash env role (word slotRoleAdmin), bytesToHash adminRole⟩]) st s.rbac.roleAdmins.toList
  let w ← walk (migrateMember env emit) ⟨bytesToHash [], 0, st⟩ s.rbac.roleMembers.toList
  flushCount env emit w

/-- The steps of `Migrate`, with the names its errors give them. -/
def steps : List (String × (Env → Store → Sink σ → σ → Outcome σ σ)) :=
  [("registries", migrateRegistries), ("record counts", migrateRecordCounts),
   ("records", migrateRecords), ("latest indexes", migrateLatestIndexes),
   ("checksum lookup", migrateRecordIDs), ("header", migrateHeader),
   ("checksum index", migrateChecksumIndex), ("roles", migrateRoles)]

/-- `Migrate`. -/
def migrate (env : Env) (s : Store) (sink : Sink σ) (st : σ) : Outcome σ σ :=
  steps.foldlM (fun st step => migrating step.1 (step.2 env s (skipZero sink) st)) st

end Steps

end Nvnmchain.Evmlayout
