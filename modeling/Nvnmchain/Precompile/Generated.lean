import Nvnmchain.Lib.AbiBasic
import Nvnmchain.Precompile.Execute

/-!
# The generated ABI code

`anchoring.abi.go`, and from `common.abi.go` the tuples of a page. The generator emits for every tuple
the same code over its fields, so a tuple is its list of fields here, and `Fields.tuple` is the code.
The functions it calls for words, strings and sizes are those of go-abi, given as `GoAbi` with the
laws they are for.

`generatedAbi` are the codecs the precompile runs with. What is proved of them holds for every tuple,
whatever its fields (`Tuple.decode_iff`, `Tuple.decode_inRange`).
-/

set_option autoImplicit false

namespace Nvnmchain.Precompile

open Go (Bytes str)
open Eth (Address Hash)
open AbiCodec

/-- What is called of go-abi: `DecodeSize`, the functions of every basic type, and `Encode` and `Decode`
of `EmptyTuple`; its two errors about topics, and how an error of a codec is written. -/
structure GoAbi where
  sizes : Sizes Err
  uint64 : Word sizes UInt64
  uint8 : Word sizes UInt8
  bool : Word sizes Bool
  address : Word sizes Address
  string : Codec sizes Bytes
  bytes : Codec sizes Bytes
  size_string : ∀ s, string.size s = sizeString s
  encodeEmptyTuple : Except Err Bytes
  decodeEmptyTuple : Bytes → Except Err Unit
  decode_emptyTuple : ∀ bytes, encodeEmptyTuple = .ok bytes → decodeEmptyTuple bytes = .ok ()
  errInvalidNumberOfTopics : Err
  errInvalidEventTopic : Err
  err : AbiCodec.Fault Err → Err

namespace Generated

variable (g : GoAbi)

/-! ## Tuples -/

/-- `Record`. -/
def record : Codec g.sizes AbiRecord :=
  Codec.via
    (Fields.tuple <| .dynamic g.string <| .dynamic g.string <| .dynamic g.string <| .dynamic g.string <|
      .dynamic g.string <| .dynamic g.string <| .static g.uint64 <| .static g.uint64 <|
      .static g.bool <| .static g.uint64 .nil)
    (fun r => (r.uri, r.checksum, r.checksumAlgo, r.metadata, r.timestamp, r.status, r.recordId,
      r.index, r.isLatest, r.registryId, ()))
    (fun (uri, checksum, checksumAlgo, metadata, timestamp, status, recordId, index, isLatest,
      registryId, _) => ⟨uri, checksum, checksumAlgo, metadata, timestamp, status, recordId, index,
        isLatest, registryId⟩)
    (fun _ => rfl) fun _ => rfl

/-- `Registry`. -/
def registry : Codec g.sizes AbiRegistry :=
  Codec.via
    (Fields.tuple <| .static g.uint64 <| .dynamic g.string <| .dynamic g.string <| .dynamic g.string <|
      .dynamic g.string <| .dynamic g.string .nil)
    (fun r => (r.id, r.name, r.description, r.creator, r.createdAt, r.metadata, ()))
    (fun (id, name, description, creator, createdAt, metadata, _) =>
      ⟨id, name, description, creator, createdAt, metadata⟩)
    (fun _ => rfl) fun _ => rfl

/-- `PageRequest` of `common.abi.go`. -/
def pageRequest : Codec g.sizes AbiPageRequest :=
  Codec.via
    (Fields.tuple <| .dynamic g.bytes <| .static g.uint64 <| .static g.uint64 <| .static g.bool <|
      .static g.bool .nil)
    (fun p => (p.key, p.offset, p.limit, p.countTotal, p.reverse, ()))
    (fun (key, offset, limit, countTotal, reverse, _) => ⟨key, offset, limit, countTotal, reverse⟩)
    (fun _ => rfl) fun _ => rfl

/-- `PageResponse` of `common.abi.go`. -/
def pageResponse : Codec g.sizes AbiPageResponse :=
  Codec.via (Fields.tuple <| .dynamic g.bytes <| .static g.uint64 .nil) (fun p => (p.nextKey, p.total, ()))
    (fun (nextKey, total, _) => ⟨nextKey, total⟩) (fun _ => rfl) fun _ => rfl

/-- `AddRegistryCall`. -/
def addRegistryCall : Codec g.sizes AddRegistryCall :=
  Codec.via (Fields.tuple <| .dynamic g.string <| .dynamic g.string <| .dynamic g.string .nil)
    (fun c => (c.name, c.description, c.metadata, ()))
    (fun (name, description, metadata, _) => ⟨name, description, metadata⟩)
    (fun _ => rfl) fun _ => rfl

/-- `AddRecordCall`. -/
def addRecordCall : Codec g.sizes AddRecordCall :=
  Codec.via (Fields.tuple <| .dynamic (record g) .nil) (fun c => (c.record, ())) (fun (record, _) => ⟨record⟩)
    (fun _ => rfl) fun _ => rfl

/-- `UpdateRecordStatusCall`. -/
def updateRecordStatusCall : Codec g.sizes UpdateRecordStatusCall :=
  Codec.via
    (Fields.tuple <| .static g.uint64 <| .static g.uint64 <| .static g.uint64 <| .dynamic g.string .nil)
    (fun c => (c.registryId, c.recordId, c.index, c.status, ()))
    (fun (registryId, recordId, index, status, _) => ⟨registryId, recordId, index, status⟩)
    (fun _ => rfl) fun _ => rfl

/-- `RecordsCall`. -/
def recordsCall : Codec g.sizes RecordsCall :=
  Codec.via
    (Fields.tuple <| .static g.uint64 <| .dynamic g.string <| .static g.uint64 <| .static g.uint64 <|
      .dynamic (pageRequest g) .nil)
    (fun c => (c.registryId, c.checksum, c.recordId, c.index, c.pagination, ()))
    (fun (registryId, checksum, recordId, index, pagination, _) =>
      ⟨registryId, checksum, recordId, index, pagination⟩)
    (fun _ => rfl) fun _ => rfl

/-- `RegistriesCall`. -/
def registriesCall : Codec g.sizes RegistriesCall :=
  Codec.via (Fields.tuple <| .static g.uint64 <| .dynamic (pageRequest g) .nil)
    (fun c => (c.registryId, c.pagination, ()))
    (fun (registryId, pagination, _) => ⟨registryId, pagination⟩)
    (fun _ => rfl) fun _ => rfl

/-- `RegistriesByNameCall`. -/
def registriesByNameCall : Codec g.sizes RegistriesByNameCall :=
  Codec.via (Fields.tuple <| .dynamic g.string <| .static g.uint8 <| .dynamic (pageRequest g) .nil)
    (fun c => (c.name, c.matchMode, c.pagination, ()))
    (fun (name, matchMode, pagination, _) => ⟨name, matchMode, pagination⟩)
    (fun _ => rfl) fun _ => rfl

/-- `GrantRoleCall` and `RevokeRoleCall`, which have the same fields. -/
def roleCall : Codec g.sizes RoleCall :=
  Codec.via
    (Fields.tuple <| .static g.uint64 <| .dynamic g.string <| .static g.address <| .dynamic g.string .nil)
    (fun c => (c.registryId, c.checksum, c.account, c.role, ()))
    (fun (registryId, checksum, account, role, _) => ⟨registryId, checksum, account, role⟩)
    (fun _ => rfl) fun _ => rfl

/-- `AddRegistryReturn` and `AddRecordReturn`. -/
def idReturn : Codec g.sizes UInt64 :=
  Codec.via (Fields.tuple <| .static g.uint64 .nil) (fun id => (id, ())) (fun (id, _) => id)
    (fun _ => rfl) fun _ => rfl

/-- `RecordsReturn`. -/
def recordsReturn : Codec g.sizes (List AbiRecord × AbiPageResponse) :=
  Codec.via (Fields.tuple <| .dynamic (slice (record g)) <| .dynamic (pageResponse g) .nil)
    (fun r => (r.1, r.2, ())) (fun (records, pagination, _) => (records, pagination))
    (fun _ => rfl) fun _ => rfl

/-- `RegistriesReturn` and `RegistriesByNameReturn`. -/
def registriesReturn : Codec g.sizes (List AbiRegistry × AbiPageResponse) :=
  Codec.via (Fields.tuple <| .dynamic (slice (registry g)) <| .dynamic (pageResponse g) .nil)
    (fun r => (r.1, r.2, ())) (fun (registries, pagination, _) => (registries, pagination))
    (fun _ => rfl) fun _ => rfl

/-- `AddRegistryEventData`. -/
def addRegistryEventData : Codec g.sizes (UInt64 × Bytes × Unit) :=
  Fields.tuple <| .static g.uint64 <| .dynamic g.string .nil

/-- `AddRecordEventData` and `UpdateRecordStatusEventData`: three ids, and a checksum or a status. -/
def recordEventData : Codec g.sizes (UInt64 × UInt64 × UInt64 × Bytes × Unit) :=
  Fields.tuple <| .static g.uint64 <| .static g.uint64 <| .static g.uint64 <| .dynamic g.string .nil

/-- `GrantRoleEventData` and `RevokeRoleEventData`. -/
def roleEventData : Codec g.sizes (UInt64 × Bytes × Address × Bytes × Unit) :=
  Fields.tuple <| .static g.uint64 <| .dynamic g.string <| .static g.address <| .dynamic g.string .nil

/-! ## Events -/

/-- `AddRegistryEventTopic`. -/
def addRegistryEventTopic : Hash :=
  ⟨[0x18, 0x17, 0x91, 0xbc, 0x37, 0x9a, 0xce, 0xdd, 0x36, 0x15, 0xcf, 0x06, 0x5d, 0x3c, 0x27, 0x5d,
    0xfa, 0x6a, 0x3c, 0x46, 0x14, 0xc9, 0x06, 0x5d, 0x54, 0xc9, 0x87, 0x73, 0xf5, 0x76, 0x10, 0x8d],
    rfl⟩

/-- `AddRecordEventTopic`. -/
def addRecordEventTopic : Hash :=
  ⟨[0x1a, 0x32, 0x95, 0xfa, 0x8c, 0xc0, 0xe2, 0x8c, 0x95, 0xd2, 0x19, 0x12, 0xc9, 0xe6, 0x95, 0x8f,
    0x3b, 0xc7, 0x40, 0x23, 0x17, 0x81, 0xf7, 0x64, 0x0a, 0xd8, 0x85, 0xc9, 0x72, 0xa3, 0x52, 0xfd],
    rfl⟩

/-- `UpdateRecordStatusEventTopic`. -/
def updateRecordStatusEventTopic : Hash :=
  ⟨[0xd7, 0xb7, 0x54, 0x57, 0xd4, 0x12, 0x93, 0xea, 0xb4, 0x82, 0x99, 0x75, 0xc9, 0x51, 0xce, 0x8c,
    0x53, 0x10, 0x68, 0x66, 0xf0, 0xc4, 0x29, 0xd1, 0x75, 0xfc, 0x6c, 0x91, 0xcd, 0xad, 0x5a, 0xde],
    rfl⟩

/-- `GrantRoleEventTopic`. -/
def grantRoleEventTopic : Hash :=
  ⟨[0x0f, 0x49, 0xe3, 0x65, 0xba, 0xf9, 0x0d, 0xeb, 0x7d, 0x1f, 0x63, 0xe5, 0x76, 0x63, 0x79, 0x07,
    0xe1, 0x2d, 0x1d, 0xdc, 0x75, 0xd1, 0xac, 0x68, 0x89, 0x4a, 0x2b, 0xcd, 0x19, 0x2b, 0x6d, 0xdb],
    rfl⟩

/-- `RevokeRoleEventTopic`. -/
def revokeRoleEventTopic : Hash :=
  ⟨[0x82, 0x36, 0xb7, 0x6c, 0xce, 0x80, 0xea, 0xf6, 0x9b, 0x54, 0xd8, 0x92, 0x68, 0xd0, 0x0f, 0xda,
    0x3d, 0xec, 0x9e, 0x5e, 0x05, 0x4f, 0x15, 0x48, 0xeb, 0xbb, 0x1f, 0x8b, 0x20, 0xb3, 0xb0, 0x8b],
    rfl⟩

/-- `EncodeTopics`: the topic of the event, and the caller in a word. -/
def encodeTopics (topic : Hash) (caller : Address) : Except Err (List Hash) := do
  let (hash, _) ← (g.address.encodeTo caller (zeros 32)).mapError g.err
  pure [topic, Eth.bytesToHash hash]

/-- `DecodeTopics`. -/
def decodeTopics (topic : Hash) : List Hash → Except Err Address
  | [signature, caller] =>
    if signature ≠ topic then .error g.errInvalidEventTopic
    else ((g.address.decode caller.bytes).mapError g.err).map Prod.fst
  | _ => .error g.errInvalidNumberOfTopics

/-- `abi.EncodeEvent` of an event with a topic and data. -/
def encodeEventAs {α : Type} (topic : Hash) (data : Codec g.sizes α) (caller : Address) (row : α) :
    Except Err (List Hash × Bytes) := do
  let topics ← encodeTopics g topic caller
  let bytes ← (data.encode row).mapError g.err
  pure (topics, bytes)

/-- The caller's word. -/
theorem encodeTopics_eq (topic : Hash) (caller : Address) :
    encodeTopics g topic caller = .ok [topic, Eth.bytesToHash (g.address.bytes caller)] := by
  have hwrite := g.address.encodeTo_zeros caller [] (g.address.isWord caller ▸ g.sizes.word_lt)
  rw [List.append_nil, List.append_nil, g.address.isWord] at hwrite
  rw [encodeTopics, hwrite]
  rfl

/-- An event whose data fits into a buffer is encoded. -/
theorem encodeEventAs_ok {α : Type} {topic : Hash} {data : Codec g.sizes α} {caller : Address} {row : α}
    (h : (data.bytes row).length < g.sizes.limit) :
    ∃ r, encodeEventAs g topic data caller row = .ok r := by
  have hencode : data.encode row = .ok (data.bytes row) := (data.encode_eq_ok h).mpr rfl
  rw [encodeEventAs, encodeTopics_eq, hencode]
  exact ⟨_, rfl⟩

/-- `abi.EncodeEvent`. -/
def encodeEvent : Event → Except Err (List Hash × Bytes)
  | .addRegistry caller registryId name =>
    encodeEventAs g addRegistryEventTopic (addRegistryEventData g) caller (registryId, name, ())
  | .addRecord caller registryId recordId index checksum =>
    encodeEventAs g addRecordEventTopic (recordEventData g) caller
      (registryId, recordId, index, checksum, ())
  | .updateRecordStatus caller registryId recordId index status =>
    encodeEventAs g updateRecordStatusEventTopic (recordEventData g) caller
      (registryId, recordId, index, status, ())
  | .grantRole caller registryId checksum account role =>
    encodeEventAs g grantRoleEventTopic (roleEventData g) caller
      (registryId, checksum, account, role, ())
  | .revokeRole caller registryId checksum account role =>
    encodeEventAs g revokeRoleEventTopic (roleEventData g) caller
      (registryId, checksum, account, role, ())

/-- `DecodeTopics`, and `Decode` of the data, of one event. -/
def decodeEventAs {α : Type} (topic : Hash) (data : Codec g.sizes α) (event : Address → α → Event)
    (topics : List Hash) (bytes : Bytes) : Option Event := do
  let caller ← (decodeTopics g topic topics).toOption
  let (row, _) ← (data.decode bytes).toOption
  pure (event caller row)

/-- The event of a log: the one whose decoder takes it. -/
def decodeEvent (topics : List Hash) (bytes : Bytes) : Option Event :=
  decodeEventAs g addRegistryEventTopic (addRegistryEventData g)
      (fun caller row => .addRegistry caller row.1 row.2.1) topics bytes <|>
  decodeEventAs g addRecordEventTopic (recordEventData g)
      (fun caller row => .addRecord caller row.1 row.2.1 row.2.2.1 row.2.2.2.1) topics bytes <|>
  decodeEventAs g updateRecordStatusEventTopic (recordEventData g)
      (fun caller row => .updateRecordStatus caller row.1 row.2.1 row.2.2.1 row.2.2.2.1) topics bytes <|>
  decodeEventAs g grantRoleEventTopic (roleEventData g)
      (fun caller row => .grantRole caller row.1 row.2.1 row.2.2.1 row.2.2.2.1) topics bytes <|>
  decodeEventAs g revokeRoleEventTopic (roleEventData g)
      (fun caller row => .revokeRole caller row.1 row.2.1 row.2.2.1 row.2.2.2.1) topics bytes

/-! ## The codecs of the precompile -/

/-- `Decode`, as `Run` calls it: where the value ended is not asked. -/
def read {α : Type} (c : Codec g.sizes α) (data : Bytes) : Except Err α :=
  ((c.decode data).mapError g.err).map Prod.fst

/-- `Encode`. -/
def write {α : Type} (c : Codec g.sizes α) (a : α) : Except Err Bytes := (c.encode a).mapError g.err

end Generated

open Generated in
/-- The codecs the precompile runs with. -/
def generatedAbi (g : GoAbi) : Abi where
  decodeAddRegistry := read g (addRegistryCall g)
  decodeAddRecord := read g (addRecordCall g)
  decodeUpdateRecordStatus := read g (updateRecordStatusCall g)
  decodeRecords := read g (recordsCall g)
  decodeRegistries := read g (registriesCall g)
  decodeRegistriesByName := read g (registriesByNameCall g)
  decodeGrantRole := read g (roleCall g)
  decodeRevokeRole := read g (roleCall g)
  encodeId := write g (idReturn g)
  encodeEmpty := g.encodeEmptyTuple
  encodeRecords := write g (recordsReturn g)
  encodeRegistries := write g (registriesReturn g)
  encodeEvent := Generated.encodeEvent g

/-! ## Every tuple -/

/-- The tuples of `anchoring.abi.go`, and those of a page. -/
inductive Tuple where
  | record
  | registry
  | pageRequest
  | pageResponse
  | addRegistryCall
  | addRecordCall
  | updateRecordStatusCall
  | recordsCall
  | registriesCall
  | registriesByNameCall
  | grantRoleCall
  | revokeRoleCall
  | addRegistryReturn
  | addRecordReturn
  | recordsReturn
  | registriesReturn
  | registriesByNameReturn
  | addRegistryEventData
  | addRecordEventData
  | updateRecordStatusEventData
  | grantRoleEventData
  | revokeRoleEventData

namespace Tuple

/-- The values of a tuple. -/
def Value : Tuple → Type
  | record => AbiRecord
  | addRecordCall => AddRecordCall
  | registry => AbiRegistry
  | pageRequest => AbiPageRequest
  | pageResponse => AbiPageResponse
  | addRegistryCall => AddRegistryCall
  | updateRecordStatusCall => UpdateRecordStatusCall
  | recordsCall => RecordsCall
  | registriesCall => RegistriesCall
  | registriesByNameCall => RegistriesByNameCall
  | grantRoleCall | revokeRoleCall => RoleCall
  | addRegistryReturn | addRecordReturn => UInt64
  | recordsReturn => List AbiRecord × AbiPageResponse
  | registriesReturn | registriesByNameReturn => List AbiRegistry × AbiPageResponse
  | addRegistryEventData => UInt64 × Bytes × Unit
  | addRecordEventData | updateRecordStatusEventData => UInt64 × UInt64 × UInt64 × Bytes × Unit
  | grantRoleEventData | revokeRoleEventData => UInt64 × Bytes × Address × Bytes × Unit

/-- The code generated for a tuple. -/
def codec (g : GoAbi) : (t : Tuple) → Codec g.sizes t.Value
  | record => Generated.record g
  | addRecordCall => Generated.addRecordCall g
  | registry => Generated.registry g
  | pageRequest => Generated.pageRequest g
  | pageResponse => Generated.pageResponse g
  | addRegistryCall => Generated.addRegistryCall g
  | updateRecordStatusCall => Generated.updateRecordStatusCall g
  | recordsCall => Generated.recordsCall g
  | registriesCall => Generated.registriesCall g
  | registriesByNameCall => Generated.registriesByNameCall g
  | grantRoleCall => Generated.roleCall g
  | revokeRoleCall => Generated.roleCall g
  | addRegistryReturn => Generated.idReturn g
  | addRecordReturn => Generated.idReturn g
  | recordsReturn => Generated.recordsReturn g
  | registriesReturn => Generated.registriesReturn g
  | registriesByNameReturn => Generated.registriesReturn g
  | addRegistryEventData => Generated.addRegistryEventData g
  | addRecordEventData => Generated.recordEventData g
  | updateRecordStatusEventData => Generated.recordEventData g
  | grantRoleEventData => Generated.roleEventData g
  | revokeRoleEventData => Generated.roleEventData g

/-- `Decode` of a tuple. -/
def decode (g : GoAbi) (t : Tuple) : Bytes → Except (AbiCodec.Fault Err) (t.Value × Nat) :=
  (t.codec g).decode

/-- `EncodedSize` of a tuple. -/
def encodedSize (g : GoAbi) (t : Tuple) : t.Value → Nat := (t.codec g).size

/-- `Encode` of a tuple. -/
def encode (g : GoAbi) (t : Tuple) : t.Value → Except (AbiCodec.Fault Err) Bytes := (t.codec g).encode

end Tuple

/-! ## Calls -/

/-- A call of the contract, with its arguments. -/
inductive MethodCall where
  | addRegistry (input : AddRegistryCall)
  | addRecord (input : AddRecordCall)
  | updateRecordStatus (input : UpdateRecordStatusCall)
  | records (input : RecordsCall)
  | registries (input : RegistriesCall)
  | registriesByName (input : RegistriesByNameCall)
  | grantRole (input : RoleCall)
  | revokeRole (input : RoleCall)

/-- The selectors of `anchoring.abi.go`. -/
def Method.selector : Method → Bytes
  | .addRegistry => [0x31, 0x8b, 0x38, 0xb1]
  | .addRecord => [0x64, 0xd2, 0x52, 0x95]
  | .updateRecordStatus => [0x97, 0xb4, 0x0c, 0x25]
  | .records => [0xc7, 0xbe, 0x5e, 0x37]
  | .registries => [0x17, 0xbd, 0x3e, 0x65]
  | .registriesByName => [0x55, 0x22, 0xe6, 0xc6]
  | .grantRole => [0xb8, 0xfd, 0xd1, 0xa7]
  | .revokeRole => [0xac, 0xd5, 0x8b, 0xc7]

namespace MethodCall

/-- The method of a call. -/
def method : MethodCall → Method
  | addRegistry _ => .addRegistry
  | addRecord _ => .addRecord
  | updateRecordStatus _ => .updateRecordStatus
  | records _ => .records
  | registries _ => .registries
  | registriesByName _ => .registriesByName
  | grantRole _ => .grantRole
  | revokeRole _ => .revokeRole

/-- `EncodeWithSelector` of the arguments. -/
def encode (g : GoAbi) (call : MethodCall) : Except (AbiCodec.Fault Err) Bytes :=
  match call with
  | addRegistry input => (Generated.addRegistryCall g).encodeWithSelector call.method.selector input
  | addRecord input => (Generated.addRecordCall g).encodeWithSelector call.method.selector input
  | updateRecordStatus input =>
    (Generated.updateRecordStatusCall g).encodeWithSelector call.method.selector input
  | records input => (Generated.recordsCall g).encodeWithSelector call.method.selector input
  | registries input => (Generated.registriesCall g).encodeWithSelector call.method.selector input
  | registriesByName input =>
    (Generated.registriesByNameCall g).encodeWithSelector call.method.selector input
  | grantRole input => (Generated.roleCall g).encodeWithSelector call.method.selector input
  | revokeRole input => (Generated.roleCall g).encodeWithSelector call.method.selector input

end MethodCall

/-- The basic types, read strictly. -/
def strictGoAbi : GoAbi where
  sizes := strictSizes (.text (str "dirty padding"))
  uint64 := uint64Tail.codec _ (.text (str "dirty padding"))
  uint8 := uint8Tail.codec _ (.text (str "dirty padding"))
  bool := boolTail.codec _ (.text (str "dirty padding"))
  address := addressTail.codec _ (.text (str "dirty padding"))
  string := blob _
  bytes := blob _
  size_string _ := rfl
  encodeEmptyTuple := .ok []
  decodeEmptyTuple _ := .ok ()
  decode_emptyTuple _ _ := rfl
  errInvalidNumberOfTopics := .text (str "invalid number of topics")
  errInvalidEventTopic := .text (str "invalid event topic")
  err
    | .unexpectedEOF => .text (str "unexpected EOF")
    | .invalidOffsetForDynamicField => .text (str "invalid offset for dynamic field")
    | .invalidOffsetForSliceElement => .text (str "invalid offset for slice element")
    | .outOfRange => .text (str "slice bounds out of range")
    | .other e => e

end Nvnmchain.Precompile
