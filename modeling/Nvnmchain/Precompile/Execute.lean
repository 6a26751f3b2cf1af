import Nvnmchain.Anchoring.MsgServer
import Nvnmchain.Anchoring.Query

/-!
# The precompile

`x/anchoring/precompile` and `precompiles/common.go`: the contract at a fixed address through which
the EVM reaches the module. `execute` reads a selector from the input, checks the value, the caller
and, for one method, the context, decodes the arguments, runs a message handler or a query, adds an
event to the logs and encodes the answer.

A call works on a `World`: the module's store, the logs of the transaction and the gas consumed so
far. It answers bytes or a fault, and the world it leaves in either case. A handler that fails leaves
the store as it was, since its writes are undone with the call, by the snapshot `RunNativeAction`
takes before it.

The generated ABI codecs, the address codec and the EVM's own functions are given as `Env`. What the
metered store charges for a message or a query depends on what it is asked and on the store it finds,
and is given as `Meter`; the gas of a name search is charged by the precompile itself, row by row.
-/

set_option autoImplicit false

namespace Nvnmchain.Precompile

open Go (Bytes str fmtUint)
open Eth (Address Hash)

/-! ## Calls, events and logs -/

/-- `Record` of `anchoring.abi.go`. -/
structure AbiRecord where
  uri : Bytes
  checksum : Bytes
  checksumAlgo : Bytes
  metadata : Bytes
  timestamp : Bytes
  status : Bytes
  recordId : UInt64
  index : UInt64
  isLatest : Bool
  registryId : UInt64
deriving DecidableEq

/-- `Registry` of `anchoring.abi.go`. -/
structure AbiRegistry where
  id : UInt64
  name : Bytes
  description : Bytes
  creator : Bytes
  createdAt : Bytes
  metadata : Bytes
deriving DecidableEq

/-- `PageRequest` of `common.abi.go`. -/
structure AbiPageRequest where
  key : Bytes
  offset : UInt64
  limit : UInt64
  countTotal : Bool
  reverse : Bool
deriving DecidableEq

/-- `PageResponse` of `common.abi.go`. -/
structure AbiPageResponse where
  nextKey : Bytes
  total : UInt64
deriving DecidableEq

/-- `AddRegistryCall`. -/
structure AddRegistryCall where
  name : Bytes
  description : Bytes
  metadata : Bytes

/-- `AddRecordCall`. -/
structure AddRecordCall where
  record : AbiRecord

/-- `UpdateRecordStatusCall`. -/
structure UpdateRecordStatusCall where
  registryId : UInt64
  recordId : UInt64
  index : UInt64
  status : Bytes

/-- `RecordsCall`. -/
structure RecordsCall where
  registryId : UInt64
  checksum : Bytes
  recordId : UInt64
  index : UInt64
  pagination : AbiPageRequest

/-- `RegistriesCall`. -/
structure RegistriesCall where
  registryId : UInt64
  pagination : AbiPageRequest

/-- `RegistriesByNameCall`. -/
structure RegistriesByNameCall where
  name : Bytes
  matchMode : UInt8
  pagination : AbiPageRequest

/-- `GrantRoleCall` and `RevokeRoleCall`. -/
structure RoleCall where
  registryId : UInt64
  checksum : Bytes
  account : Address
  role : Bytes

/-- The events of the contract. -/
inductive Event where
  | addRegistry (caller : Address) (registryId : UInt64) (name : Bytes)
  | addRecord (caller : Address) (registryId recordId index : UInt64) (checksum : Bytes)
  | updateRecordStatus (caller : Address) (registryId recordId index : UInt64) (status : Bytes)
  | grantRole (caller : Address) (registryId : UInt64) (checksum : Bytes) (account : Address)
      (role : Bytes)
  | revokeRole (caller : Address) (registryId : UInt64) (checksum : Bytes) (account : Address)
      (role : Bytes)

/-- `ethtypes.Log`, as `emitEvent` fills it. -/
structure Log where
  address : Address
  topics : List Hash
  data : Bytes
  blockNumber : UInt64

/-- `AnchoringPrecompileAddress`. -/
def anchoringPrecompileAddress : Address := ⟨List.replicate 18 0 ++ [0x0a, 0x00], by decide⟩

/-! ## What a call runs on -/

/-- The generated codecs. The two lists of registries are returned by tuples of one shape, and so are
the two new ids. -/
structure Abi where
  decodeAddRegistry : Bytes → Except Err AddRegistryCall
  decodeAddRecord : Bytes → Except Err AddRecordCall
  decodeUpdateRecordStatus : Bytes → Except Err UpdateRecordStatusCall
  decodeRecords : Bytes → Except Err RecordsCall
  decodeRegistries : Bytes → Except Err RegistriesCall
  decodeRegistriesByName : Bytes → Except Err RegistriesByNameCall
  decodeGrantRole : Bytes → Except Err RoleCall
  decodeRevokeRole : Bytes → Except Err RoleCall
  encodeId : UInt64 → Except Err Bytes
  encodeEmpty : Except Err Bytes
  encodeRecords : List AbiRecord × AbiPageResponse → Except Err Bytes
  encodeRegistries : List AbiRegistry × AbiPageResponse → Except Err Bytes
  encodeEvent : Event → Except Err (List Hash × Bytes)

/-- The functions outside: the keeper's address codec, the generated codecs, the database of the name
index, the SDK's paging, the ABI form of a revert reason, and `ParseDelegation`. -/
structure Env extends Nvnmchain.Env where
  bytesToString : Bytes → Except Err Bytes
  abi : Abi
  lib : NameIndex.SearchEnv
  paginate : CollectionPaginate
  revertReasonBytes : Bytes → Except Err Bytes
  parseDelegation : Bytes → Bool

/-- What the metered store charges. -/
structure Meter where
  message : Ctx → Msg → Store → Nat
  records : QueryRecordsRequest → Store → Nat
  registries : QueryRegistriesRequest → Store → Nat
  recordIndex : UInt64 → UInt64 → Store → Nat

/-- The keeper the precompile holds. A nil `NameIndex` is a node without the index. -/
structure Keeper where
  env : Env
  meter : Meter
  nameIndex : Option NameIndex.Table

/-- What a call reads from its `sdk.Context`. -/
structure Context extends Ctx where
  isCheckTx : Bool
  blockHeight : Int64
  gasLimit : Nat

/-- `vm.Contract`. The value may be nil. -/
structure Contract where
  caller : Address
  value : Option (BitVec 256)
  input : Bytes

/-- `vm.StateDB`, without its logs. -/
structure StateDB where
  getCode : Address → Bytes

/-- What a call changes. -/
structure World where
  store : Store
  logs : List Log
  gas : Nat

/-- A part of a call. -/
abbrev Call (α : Type) := ExceptT Fault (StateM World) α

/-- An error of the module. -/
def ofErr {α : Type} (x : Except Err α) : Call α := ExceptT.mk (pure (liftErr x))

/-- A fault of a query. -/
def ofFault {α : Type} (x : Except Fault α) : Call α := ExceptT.mk (pure x)

/-- `GasMeter.ConsumeGas`. -/
def consumeGas (ctx : Context) (amount : Nat) : Call Unit := do
  let w ← get
  set { w with gas := w.gas + amount }
  if ctx.gasLimit < w.gas + amount then throw .outOfGas

/-- A message handler, on the store of the call. -/
def viaMsgServer {α : Type} (k : Keeper) (ctx : Context) (msg : Msg)
    (run : Store → Except Err (α × Store)) : Call α := do
  let w ← get
  consumeGas ctx (k.meter.message ctx.toCtx msg w.store)
  let (answer, store) ← ofErr (run w.store)
  modify fun w => { w with store }
  pure answer

/-- `emitEvent`. -/
def emitEvent (k : Keeper) (ctx : Context) (stateDB : Option StateDB) (ev : Event) : Call Unit :=
  match stateDB with
  | none => pure ()
  | some _ => do
    let (topics, data) ← ofErr (k.env.abi.encodeEvent ev)
    modify fun w => { w with
      logs := w.logs ++ [⟨anchoringPrecompileAddress, topics, data, ctx.blockHeight.toUInt64⟩] }

/-! ## Between the ABI and the module -/

/-- `FromABIRecord`. -/
def fromABIRecord (rec : AbiRecord) : Record where
  uri := rec.uri
  checksum := rec.checksum
  checksumAlgo := rec.checksumAlgo
  metadata := rec.metadata
  timestamp := rec.timestamp
  status := rec.status
  recordId := rec.recordId
  index := rec.index
  isLatest := rec.isLatest
  registryId := rec.registryId

/-- `ToABIRecord`. -/
def toABIRecord (rec : Record) : AbiRecord where
  uri := rec.uri
  checksum := rec.checksum
  checksumAlgo := rec.checksumAlgo
  metadata := rec.metadata
  timestamp := rec.timestamp
  status := rec.status
  recordId := rec.recordId
  index := rec.index
  isLatest := rec.isLatest
  registryId := rec.registryId

/-- `ToABIRegistry`. -/
def toABIRegistry (reg : Registry) : AbiRegistry where
  id := reg.id
  name := reg.name
  description := reg.description
  creator := reg.creator
  createdAt := reg.createdAt
  metadata := reg.metadata

/-- `PageRequest.ToPageRequest`. -/
def AbiPageRequest.toPageRequest (p : AbiPageRequest) : PageRequest where
  key := p.key
  offset := p.offset
  limit := p.limit
  countTotal := p.countTotal
  reverse := p.reverse

/-- `FromPageResponse`: a nil response is an empty one. -/
def fromPageResponse : Option PageResponse → AbiPageResponse
  | none => ⟨[], 0⟩
  | some pr => ⟨pr.nextKey, pr.total⟩

/-! ## The methods that write -/

/-- A handler that answers nothing. -/
def noAnswer (run : Store → Except Err Store) (s : Store) : Except Err (Unit × Store) := do
  pure ((), ← run s)

/-- `Precompile.AddRegistry`. -/
def addRegistry (k : Keeper) (ctx : Context) (stateDB : Option StateDB) (contract : Contract)
    (input : AddRegistryCall) : Call UInt64 := do
  let sender ← ofErr (k.env.bytesToString contract.caller.bytes)
  let msg : MsgAddRegistry := ⟨sender, input.name, input.description, input.metadata⟩
  let registryId ← viaMsgServer k ctx (.addRegistry (some msg))
    (MsgServer.addRegistry k.env.toEnv ctx.toCtx (some msg))
  emitEvent k ctx stateDB (.addRegistry contract.caller registryId input.name)
  pure registryId

/-- `emitAddRecordEvent`: the index is read back from the store. -/
def emitAddRecordEvent (k : Keeper) (ctx : Context) (stateDB : Option StateDB) (caller : Address)
    (registryId recordId : UInt64) (checksum : Bytes) : Call Unit := do
  let w ← get
  consumeGas ctx (k.meter.recordIndex registryId recordId w.store)
  let index ← ofErr (getOrNotFound w.store.recordIndices[(registryId, recordId)]?)
  emitEvent k ctx stateDB (.addRecord caller registryId recordId index checksum)

/-- `Precompile.AddRecord`. -/
def addRecord (k : Keeper) (ctx : Context) (stateDB : Option StateDB) (contract : Contract)
    (input : AddRecordCall) : Call UInt64 := do
  let sender ← ofErr (k.env.bytesToString contract.caller.bytes)
  let doc := fromABIRecord input.record
  let msg : MsgAddRecord := ⟨sender, some doc⟩
  let recordId ← viaMsgServer k ctx (.addRecord (some msg))
    (MsgServer.addRecord k.env.toEnv ctx.toCtx (some msg))
  emitAddRecordEvent k ctx stateDB contract.caller doc.registryId recordId doc.checksum
  pure recordId

/-- `Precompile.UpdateRecordStatus`. -/
def updateRecordStatus (k : Keeper) (ctx : Context) (stateDB : Option StateDB) (contract : Contract)
    (input : UpdateRecordStatusCall) : Call Unit := do
  let sender ← ofErr (k.env.bytesToString contract.caller.bytes)
  let msg : MsgUpdateRecordStatus :=
    ⟨sender, input.registryId, input.recordId, input.index, input.status⟩
  viaMsgServer k ctx (.updateRecordStatus (some msg))
    (noAnswer (MsgServer.updateRecordStatus k.env.toEnv (some msg)))
  emitEvent k ctx stateDB
    (.updateRecordStatus contract.caller input.registryId input.recordId input.index input.status)

/-- `Precompile.GrantRole`. -/
def grantRole (k : Keeper) (ctx : Context) (stateDB : Option StateDB) (contract : Contract)
    (input : RoleCall) : Call Unit := do
  let admin ← ofErr (k.env.bytesToString contract.caller.bytes)
  let address ← ofErr (k.env.bytesToString input.account.bytes)
  let msg : MsgGrantRole := ⟨admin, address, input.registryId, input.checksum, input.role⟩
  viaMsgServer k ctx (.grantRole (some msg)) (noAnswer (MsgServer.grantRole k.env.toEnv (some msg)))
  emitEvent k ctx stateDB
    (.grantRole contract.caller input.registryId input.checksum input.account input.role)

/-- `Precompile.RevokeRole`. An empty role is refused before the handler sees it. -/
def revokeRole (k : Keeper) (ctx : Context) (stateDB : Option StateDB) (contract : Contract)
    (input : RoleCall) : Call Unit := do
  ofErr (refuseIf (input.role = []) "role cannot be empty")
  let admin ← ofErr (k.env.bytesToString contract.caller.bytes)
  let address ← ofErr (k.env.bytesToString input.account.bytes)
  let msg : MsgRevokeRole := ⟨admin, address, input.registryId, input.checksum, input.role⟩
  viaMsgServer k ctx (.revokeRole (some msg))
    (noAnswer (MsgServer.revokeRole k.env.toEnv (some msg)))
  emitEvent k ctx stateDB
    (.revokeRole contract.caller input.registryId input.checksum input.account input.role)

/-! ## The methods that read -/

/-- `Precompile.Records`. -/
def records (k : Keeper) (ctx : Context) (input : RecordsCall) :
    Call (List AbiRecord × AbiPageResponse) := do
  let req : QueryRecordsRequest :=
    ⟨input.registryId, input.checksum, input.recordId, input.index, some input.pagination.toPageRequest⟩
  let w ← get
  consumeGas ctx (k.meter.records req w.store)
  let rsp ← ofFault (queryRecords w.store req)
  pure (rsp.records.map toABIRecord, fromPageResponse rsp.pagination)

/-- `Precompile.Registries`. -/
def registries (k : Keeper) (ctx : Context) (input : RegistriesCall) :
    Call (List AbiRegistry × AbiPageResponse) := do
  let req : QueryRegistriesRequest := ⟨input.registryId, some input.pagination.toPageRequest⟩
  let w ← get
  consumeGas ctx (k.meter.registries req w.store)
  let rsp ← ofFault (queryRegistries k.env.paginate w.store req)
  pure (rsp.registries.map toABIRegistry, fromPageResponse rsp.pagination)

/-- `matchModeFromABI`. -/
def matchModeFromABI (mode : UInt8) : Except Err NameIndex.MatchMode :=
  match mode with
  | 0 => pure .unspecified
  | 1 => pure .exactMode
  | 2 => pure .prefixMode
  | 3 => pure .suffixMode
  | 4 => pure .containsMode
  | _ => .error (.text (str "invalid matchMode " ++ fmtUint mode.toNat ++
      str ": want 0/1 exact, 2 prefix, 3 suffix, 4 contains"))

/-- `abi.SizeString`: a length word, and the bytes padded to words. -/
def sizeString (s : Bytes) : Nat := 32 + (s.length + 31) / 32 * 32

/-- `Registry.EncodedSize`. -/
def encodedSize (reg : AbiRegistry) : Nat :=
  192 + (sizeString reg.name + sizeString reg.description + sizeString reg.creator +
    sizeString reg.createdAt + sizeString reg.metadata)

/-- `KVGasConfig`'s `ReadCostFlat` and `ReadCostPerByte`. -/
def readCostFlat : Nat := 1000

@[inherit_doc readCostFlat]
def readCostPerByte : Nat := 3

/-- `chargeIndexReadGas`. -/
def chargeIndexReadGas (ctx : Context) : List AbiRegistry → Call Unit
  | [] => pure ()
  | reg :: rest => do
    consumeGas ctx (readCostFlat + readCostPerByte * encodedSize reg)
    chargeIndexReadGas ctx rest

/-- `Precompile.RegistriesByName`. -/
def registriesByName (k : Keeper) (ctx : Context) (input : RegistriesByNameCall) :
    Call (List AbiRegistry × AbiPageResponse) := do
  let mode ← ofErr (matchModeFromABI input.matchMode)
  let rsp ← ofFault (searchRegistriesByName k.env.lib k.nameIndex
    (some ⟨input.name, mode, some input.pagination.toPageRequest⟩))
  let abiRegistries := rsp.registries.map toABIRegistry
  chargeIndexReadGas ctx abiRegistries
  pure (abiRegistries, fromPageResponse rsp.pagination)

/-! ## Selectors and gates -/

/-- The methods of the contract. -/
inductive Method where
  | addRegistry
  | addRecord
  | updateRecordStatus
  | records
  | registries
  | registriesByName
  | grantRole
  | revokeRole
deriving DecidableEq

/-- The method ids of `anchoring.abi.go`. -/
def Method.id : Method → UInt32
  | .addRegistry => 831207601
  | .addRecord => 1691505301
  | .updateRecordStatus => 2545159205
  | .records => 3351141943
  | .registries => 398278245
  | .registriesByName => 1428350662
  | .grantRole => 3103642023
  | .revokeRole => 2899676103

/-- The method a selector names, if it names one. -/
def Method.ofID (methodID : UInt32) : Option Method :=
  [.addRegistry, .addRecord, .updateRecordStatus, .records, .registries, .registriesByName,
    .grantRole, .revokeRole].find? (·.id = methodID)

/-- `IsTransactionID`. -/
def isTransactionID (methodID : UInt32) : Bool :=
  methodID = Method.addRegistry.id || methodID = Method.addRecord.id ||
    methodID = Method.updateRecordStatus.id || methodID = Method.grantRole.id ||
    methodID = Method.revokeRole.id

/-- `SplitMethodID`. -/
def splitMethodID (input : Bytes) : Except Fault (UInt32 × Bytes) :=
  if input.length < 4 then .error (.err (.text (str "invalid input length")))
  else .ok (.ofNat (Eth.beNat (input.take 4)), input.drop 4)

/-- `ParseMethod`. -/
def parseMethod (input : Bytes) (readOnly : Bool) : Except Fault (UInt32 × Bytes) := do
  let (methodID, input) ← splitMethodID input
  if readOnly && isTransactionID methodID then .error .writeProtection else pure (methodID, input)

/-- A revert with a reason; `encodeRevertReason` answers nothing for a reason it cannot encode. -/
def revert {α : Type} (k : Keeper) (reason : Bytes) : Call α :=
  throw (.executionReverted ((k.env.revertReasonBytes reason).toOption.getD []))

/-- `ensureNoValue`: the positive value it refuses. `Sign` reads the word as a signed number. -/
def receivedValue (contract : Contract) : Option (BitVec 256) :=
  contract.value.filter fun value => 0 < value.toInt

/-- `isEOACode`. -/
def isEOACode (env : Env) (code : Bytes) : Bool := code.isEmpty || env.parseDelegation code

/-- `ensureEOACaller`. The detail of its error is dropped by those who call it. -/
def ensureEOACaller (k : Keeper) (stateDB : Option StateDB) (contract : Contract)
    (txOrigin : Address) : Bool :=
  match stateDB with
  | none => false
  | some db => contract.caller = txOrigin && isEOACode k.env (db.getCode txOrigin)

/-- `core.ErrSenderNoEOA`. -/
def errSenderNoEOA : Bytes := str "sender not an eoa"

/-- `registriesByNameGate`: the reason for which the call is refused. -/
def registriesByNameGate (k : Keeper) (ctx : Context) (stateDB : Option StateDB)
    (contract : Contract) (txOrigin : Address) : Option Bytes :=
  if !ctx.isCheckTx then
    some (str "registriesByName is query-only: use eth_call, not a transaction")
  else if !ensureEOACaller k stateDB contract txOrigin then some errSenderNoEOA
  else if k.nameIndex.isNone then
    some (str
      "registry name index is not enabled on this node; see [anchoring-name-index] in app.toml")
  else none

/-! ## The dispatcher -/

/-- `Run` and `RunWithStateDB`: decode the arguments, run the method, encode the answer. -/
def runMethod {ι ο : Type} (decoded : Except Err ι) (method : ι → Call ο)
    (encode : ο → Except Err Bytes) : Call Bytes := do
  let input ← ofErr decoded
  let out ← method input
  ofErr (encode out)

/-- The switch of `Execute`. -/
def dispatch (k : Keeper) (ctx : Context) (stateDB : Option StateDB) (contract : Contract)
    (txOrigin : Address) (input : Bytes) : Method → Call Bytes
  | .addRegistry =>
    runMethod (k.env.abi.decodeAddRegistry input) (addRegistry k ctx stateDB contract)
      k.env.abi.encodeId
  | .addRecord =>
    runMethod (k.env.abi.decodeAddRecord input) (addRecord k ctx stateDB contract) k.env.abi.encodeId
  | .updateRecordStatus =>
    runMethod (k.env.abi.decodeUpdateRecordStatus input) (updateRecordStatus k ctx stateDB contract)
      fun _ => k.env.abi.encodeEmpty
  | .records => runMethod (k.env.abi.decodeRecords input) (records k ctx) k.env.abi.encodeRecords
  | .registries =>
    runMethod (k.env.abi.decodeRegistries input) (registries k ctx) k.env.abi.encodeRegistries
  | .registriesByName =>
    match registriesByNameGate k ctx stateDB contract txOrigin with
    | some reason => revert k reason
    | none =>
      runMethod (k.env.abi.decodeRegistriesByName input) (registriesByName k ctx)
        k.env.abi.encodeRegistries
  | .grantRole =>
    runMethod (k.env.abi.decodeGrantRole input) (grantRole k ctx stateDB contract)
      fun _ => k.env.abi.encodeEmpty
  | .revokeRole =>
    runMethod (k.env.abi.decodeRevokeRole input) (revokeRole k ctx stateDB contract)
      fun _ => k.env.abi.encodeEmpty

/-- `Execute` after its checks: an id that names no method is an error. -/
def executeMethod (k : Keeper) (ctx : Context) (stateDB : Option StateDB) (contract : Contract)
    (txOrigin : Address) (methodID : UInt32) (input : Bytes) : Call Bytes :=
  match Method.ofID methodID with
  | some method => dispatch k ctx stateDB contract txOrigin input method
  | none => throw (.err (.text (str "unknown method id: " ++ fmtUint methodID.toNat)))

/-- `Precompile.Execute`. -/
def execute (k : Keeper) (ctx : Context) (stateDB : Option StateDB) (contract : Option Contract)
    (readOnly : Bool) (txOrigin : Address) : Call Bytes :=
  match contract with
  | none => throw (.err (.text (str "contract is nil")))
  | some contract => do
    let (methodID, input) ← ofFault (parseMethod contract.input readOnly)
    match receivedValue contract with
    | some value => revert k (str "cannot receive funds, received: " ++ fmtUint value.toNat)
    | none =>
      if isTransactionID methodID && !ensureEOACaller k stateDB contract txOrigin then
        revert k errSenderNoEOA
      else executeMethod k ctx stateDB contract txOrigin methodID input

end Nvnmchain.Precompile
