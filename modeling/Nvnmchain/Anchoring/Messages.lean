import Nvnmchain.Anchoring.Types

/-!
# The six messages and their stateless checks

`types.Msg*` with `ValidateBasic`. `MsgGrantRole` and `MsgRevokeRole` carry the same fields and run
the same checks, down to the text that calls the second address the grantee's; the checks are
written once, as `validateRoleMsg`.
-/

set_option autoImplicit false

namespace Nvnmchain

open Go (Bytes)

/-- `types.MsgAddRegistry`. -/
structure MsgAddRegistry where
  sender : Bytes
  name : Bytes
  description : Bytes
  metadata : Bytes

/-- `types.MsgAddRecord`; the record is a pointer and may be nil. -/
structure MsgAddRecord where
  sender : Bytes
  record : Option Record

/-- `types.MsgUpdateRecordStatus`. -/
structure MsgUpdateRecordStatus where
  editor : Bytes
  registryId : UInt64
  recordId : UInt64
  index : UInt64
  status : Bytes

/-- `types.MsgGrantRole`. -/
structure MsgGrantRole where
  admin : Bytes
  address : Bytes
  registryId : UInt64
  checksum : Bytes
  role : Bytes

/-- `types.MsgRevokeRole`. -/
structure MsgRevokeRole where
  admin : Bytes
  address : Bytes
  registryId : UInt64
  checksum : Bytes
  role : Bytes

/-- `types.MsgUpdateParams`. -/
structure MsgUpdateParams where
  authority : Bytes
  admin : Bytes

/-- A required address: not empty, and bech32. -/
def validateAddress (env : Env) (address : Bytes) (empty invalid : String) : Except Err Unit := do
  refuseIf (address = []) empty
  let _ ← wrapText invalid (env.accAddressFromBech32 address)

/-- `MsgAddRegistry.ValidateBasic`. -/
def MsgAddRegistry.validateBasic (env : Env) (msg : MsgAddRegistry) : Except Err Unit := do
  validateAddress env msg.sender "sender address cannot be empty" "invalid sender address"
  validateRegistryForCreate msg.name msg.description msg.metadata

/-- `MsgAddRecord.ValidateBasic`; it answers the record it checked, which `*req.Record` reads. -/
def MsgAddRecord.validateBasic (env : Env) (msg : MsgAddRecord) : Except Err Record := do
  validateAddress env msg.sender "sender address cannot be empty" "invalid sender address"
  match msg.record with
  | none => errorf "record cannot be nil"
  | some record => do
    validateRecordForCreate record
    pure record

/-- `MsgUpdateRecordStatus.ValidateBasic`. -/
def MsgUpdateRecordStatus.validateBasic (env : Env) (msg : MsgUpdateRecordStatus) :
    Except Err Unit := do
  validateAddress env msg.editor "Editor address cannot be empty" "invalid Editor address"
  refuseIf (msg.recordId = 0) "record ID cannot be zero"
  validateRecordStatus msg.status
  refuseIf (msg.registryId = 0) errMsgRegistryIDZero
  refuseIf (msg.index = 0) "index cannot be zero"

/-- The checks a grant and a revocation share. -/
def validateRoleMsg (env : Env) (admin address : Bytes) (registryId : UInt64)
    (checksum role : Bytes) : Except Err Unit := do
  validateAddress env admin "admin address cannot be empty" "invalid admin address"
  validateAddress env address "grantee address cannot be empty" "invalid grantee address"
  refuseIf (registryId = 0) errMsgRegistryIDZero
  validateMaxLen "checksum" checksum maxRecordChecksumLen
  refuseIf (role = []) "role cannot be empty"

/-- `MsgGrantRole.ValidateBasic`. -/
def MsgGrantRole.validateBasic (env : Env) (msg : MsgGrantRole) : Except Err Unit :=
  validateRoleMsg env msg.admin msg.address msg.registryId msg.checksum msg.role

/-- `MsgRevokeRole.ValidateBasic`. -/
def MsgRevokeRole.validateBasic (env : Env) (msg : MsgRevokeRole) : Except Err Unit :=
  validateRoleMsg env msg.admin msg.address msg.registryId msg.checksum msg.role

/-- `MsgUpdateParams.ValidateBasic`. The handler does not call it; the transaction checks do. -/
def MsgUpdateParams.validateBasic (env : Env) (msg : MsgUpdateParams) : Except Err Unit := do
  validateAddress env msg.authority "Authority address cannot be empty" "invalid Authority address"
  if msg.admin = [] then pure ()
  else do
    let _ ← wrapText "invalid admin address" (env.accAddressFromBech32 msg.admin)

/-- The record an `AddRecord` message is checked with is the one it carries. -/
theorem record_of_validateBasic {env : Env} {m : MsgAddRecord} {record : Record}
    (h : m.validateBasic env = .ok record) : m.record = some record := by
  obtain ⟨_, _, h⟩ := bind_eq_ok.mp h
  cases hrec : m.record with
  | none => rw [hrec] at h; exact nomatch h
  | some record' =>
    rw [hrec] at h
    obtain ⟨_, _, e⟩ := bind_eq_ok.mp h
    cases e
    rfl

/-- A role message that passes its checks names a registry. -/
theorem registryId_ne_zero_of_validateRoleMsg {env : Env} {admin address checksum role : Bytes}
    {registryId : UInt64} {u : Unit}
    (h : validateRoleMsg env admin address registryId checksum role = .ok u) : registryId ≠ 0 := by
  unfold validateRoleMsg at h
  obtain ⟨_, _, h⟩ := bind_eq_ok.mp h
  obtain ⟨_, _, h⟩ := bind_eq_ok.mp h
  obtain ⟨_, hid, _⟩ := bind_eq_ok.mp h
  simpa using refuseIf_eq_ok.mp hid

end Nvnmchain
