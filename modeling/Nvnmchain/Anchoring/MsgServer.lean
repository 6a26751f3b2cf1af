import Nvnmchain.Anchoring.Keeper
import Nvnmchain.Anchoring.Messages

/-!
# The message handlers

`x/anchoring/keeper/msg_server.go` and `msg_update_params.go`. Each handler answers its response and
the store it leaves, or an error. `deliver` is one message of a block: the store the handler leaves,
or, when it fails, the store as it was.
-/

set_option autoImplicit false

namespace Nvnmchain

open Go (Bytes str fmtUint)
open Collections

namespace MsgServer

/-- The refusal of a nil request. -/
def emptyRequest {α : Type} : Except Err α :=
  .error (.wrap (.sentinel .invalidRequest) (str "empty request"))

/-- `isRecordRole`. -/
def isRecordRole (registryId : UInt64) (checksum : Bytes) : Bool := registryId ≠ 0 && checksum ≠ []

/-- `isModuleAdmin`. -/
def isModuleAdmin (s : Store) (addr : Bytes) : Except Err Bool := do
  let params ← getOrNotFound s.params
  pure (params.admin = addr)

/-- `ensureRoleScopeExists`. -/
def ensureRoleScopeExists (s : Store) (registryId : UInt64) (checksum : Bytes) :
    Except Err Unit := do
  require (s.registries.contains registryId) (.wrap (.sentinel .notFound)
    (str "registry " ++ fmtUint registryId.toNat ++ str " does not exist"))
  if isRecordRole registryId checksum then do
    encodeNonTerminal checksum
    require (s.recordIdByChecksumAndRegistry.contains (checksum, registryId))
      (.wrap (.sentinel .notFound) (str "record with checksum " ++ checksum ++
        str " does not exist in registry " ++ fmtUint registryId.toNat))
  else pure ()

/-- The string `scopedRole` hashes. -/
def scopedRoleName (registryId : UInt64) (checksum role : Bytes) : Bytes :=
  if isRecordRole registryId checksum then recordRoleName registryId checksum role
  else registryRoleName registryId role

/-- `scopedRole`. -/
def scopedRole (env : Env) (registryId : UInt64) (checksum role : Bytes) : Role :=
  if isRecordRole registryId checksum then recordRole env registryId checksum role
  else registryRole env registryId role

/-- A scoped role is the hash of its name. -/
theorem scopedRole_eq (env : Env) (registryId : UInt64) (checksum role : Bytes) :
    scopedRole env registryId checksum role =
      newRoleHash env (scopedRoleName registryId checksum role) := by
  unfold scopedRole scopedRoleName
  split <;> rfl

/-- `msgServer.AddRegistry`. -/
def addRegistry (env : Env) (ctx : Ctx) (req : Option MsgAddRegistry) (s : Store) :
    Except Err (UInt64 × Store) :=
  match req with
  | none => emptyRequest
  | some req => do
    wrapInvalidRequest (req.validateBasic env)
    let sender ← env.stringToBytes req.sender
    s.addRegistry env ctx sender req.name req.description req.metadata

/-- `msgServer.AddRecord`. -/
def addRecord (env : Env) (ctx : Ctx) (req : Option MsgAddRecord) (s : Store) :
    Except Err (UInt64 × Store) :=
  match req with
  | none => emptyRequest
  | some req => do
    let record ← wrapInvalidRequest (req.validateBasic env)
    let sender ← env.stringToBytes req.sender
    s.addRecord env ctx sender record

/-- `msgServer.UpdateRecordStatus`. -/
def updateRecordStatus (env : Env) (req : Option MsgUpdateRecordStatus) (s : Store) :
    Except Err Store :=
  match req with
  | none => emptyRequest
  | some req => do
    wrapInvalidRequest (req.validateBasic env)
    let sender ← env.stringToBytes req.editor
    s.updateRecordStatus env sender req.registryId req.recordId req.index req.status

/-- `msgServer.GrantRole`. The role's admin is set before the caller is checked; the module admin may
grant a registry's admin role without holding it. -/
def grantRole (env : Env) (req : Option MsgGrantRole) (s : Store) : Except Err Store :=
  match req with
  | none => emptyRequest
  | some req => do
    wrapInvalidRequest (req.validateBasic env)
    let granter ← env.stringToBytes req.admin
    let grantee ← env.stringToBytes req.address
    let isRecordScoped := isRecordRole req.registryId req.checksum
    ensureRoleScopeExists s req.registryId req.checksum
    let role := scopedRole env req.registryId req.checksum req.role
    let adminRole := registryRole env req.registryId roleAdmin
    let s := { s with rbac := s.rbac.setRoleAdmin role adminRole }
    let breakGlass ←
      (if !isRecordScoped && req.role = roleAdmin then isModuleAdmin s req.admin else pure false)
    if breakGlass then
      pure { s with rbac := s.rbac.grantRoleUnchecked role grantee }
    else do
      let rbac ← s.rbac.grantRole env role grantee granter
      pure { s with rbac }

/-- `msgServer.RevokeRole`. The last member of a registry's admin role is never removed. -/
def revokeRole (env : Env) (req : Option MsgRevokeRole) (s : Store) : Except Err Store :=
  match req with
  | none => emptyRequest
  | some req => do
    wrapInvalidRequest (req.validateBasic env)
    let revoker ← env.stringToBytes req.admin
    let revokee ← env.stringToBytes req.address
    ensureRoleScopeExists s req.registryId req.checksum
    let isRecordScoped := isRecordRole req.registryId req.checksum
    let role := scopedRole env req.registryId req.checksum req.role
    require (s.rbac.hasRole role revokee)
      (.wrap (.sentinel .invalidRequest) (str "address does not have the specified role"))
    let lastAdmin ←
      (if !isRecordScoped && req.role = roleAdmin then
        s.rbac.isSoleAdmin (registryRole env req.registryId roleAdmin)
      else pure false)
    require (!lastAdmin)
      (.wrap (.sentinel .invalidRequest) (str "cannot revoke the last registry admin"))
    let rbac ← s.rbac.revokeRole env role revokee revoker
    pure { s with rbac }

/-- `msgServer.UpdateParams`. -/
def updateParams (env : Env) (req : MsgUpdateParams) (s : Store) : Except Err Store := do
  let _ ← (env.stringToBytes req.authority).mapError (.wrap · (str "invalid authority address"))
  let params ← getOrNotFound s.params
  require (req.authority = params.admin)
    (.wrap (.sentinel .unauthorized) (str "invalid sender; expected admin"))
  let updateParams ← getOrNotFound s.params
  let updateParams := if req.admin ≠ [] then { updateParams with admin := req.admin } else updateParams
  updateParams.validate env
  pure { s with params := some updateParams }

end MsgServer

/-! ## One message -/

/-- A message of the module's `Msg` service. -/
inductive Msg where
  | updateParams (req : MsgUpdateParams)
  | addRegistry (req : Option MsgAddRegistry)
  | addRecord (req : Option MsgAddRecord)
  | updateRecordStatus (req : Option MsgUpdateRecordStatus)
  | grantRole (req : Option MsgGrantRole)
  | revokeRole (req : Option MsgRevokeRole)

/-- A handler's response. -/
inductive Response where
  | addRegistry (registryId : UInt64)
  | addRecord (recordId : UInt64)
  | empty
deriving DecidableEq

/-- The text of the address that signs a message; a nil request has none. -/
def Msg.sender : Msg → Bytes
  | .updateParams req => req.authority
  | .addRegistry req => req.elim [] (·.sender)
  | .addRecord req => req.elim [] (·.sender)
  | .updateRecordStatus req => req.elim [] (·.editor)
  | .grantRole req => req.elim [] (·.admin)
  | .revokeRole req => req.elim [] (·.admin)

/-- The handler of a message. -/
def handle (env : Env) (ctx : Ctx) (msg : Msg) (s : Store) : Except Err (Response × Store) :=
  match msg with
  | .updateParams req => do pure (.empty, ← MsgServer.updateParams env req s)
  | .addRegistry req => do
    let (registryId, s) ← MsgServer.addRegistry env ctx req s
    pure (.addRegistry registryId, s)
  | .addRecord req => do
    let (recordId, s) ← MsgServer.addRecord env ctx req s
    pure (.addRecord recordId, s)
  | .updateRecordStatus req => do pure (.empty, ← MsgServer.updateRecordStatus env req s)
  | .grantRole req => do pure (.empty, ← MsgServer.grantRole env req s)
  | .revokeRole req => do pure (.empty, ← MsgServer.revokeRole env req s)

/-- The store after a message: a handler that fails is rolled back. -/
def deliver (env : Env) (ctx : Ctx) (msg : Msg) (s : Store) : Store :=
  match handle env ctx msg s with
  | .ok (_, s') => s'
  | .error _ => s

/-- An accepted message leaves the store its handler answers. -/
theorem handle_eq_deliver {env : Env} {ctx : Ctx} {msg : Msg} {s : Store} {r : Response}
    (h : (handle env ctx msg s).map Prod.fst = .ok r) :
    handle env ctx msg s = .ok (r, deliver env ctx msg s) := by
  unfold deliver
  cases hs : handle env ctx msg s with
  | error e => rw [hs] at h; cases h
  | ok out => rw [hs] at h; cases h; rfl

end Nvnmchain
