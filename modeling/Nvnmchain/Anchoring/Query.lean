import Nvnmchain.Nameindex.Search

/-!
# The query server

`x/anchoring/keeper/query.go`: listing records and registries, and searching the names. A listing
walks a collection and keeps a page of it; `Registries` leaves the paging to the SDK, which is outside
and given as a function. The queries that answer one stored value are left out.
-/

set_option autoImplicit false

namespace Nvnmchain

open Go (Bytes str)
open Collections

/-- The status codes of the queries' errors. -/
inductive Code where
  | invalidArgument
  | failedPrecondition
  | internal
deriving DecidableEq

/-- What a query or a call of the precompile fails with. -/
inductive Fault where
  /-- An error of the module. -/
  | err (e : Err)
  /-- `status.Error`. -/
  | status (code : Code) (desc : Bytes)
  /-- `vm.ErrWriteProtection`. -/
  | writeProtection
  /-- `vm.ErrExecutionReverted`, with the reason returned beside it. -/
  | executionReverted (reason : Bytes)
  /-- The panic of a gas meter past its limit. -/
  | outOfGas
deriving DecidableEq

/-- An error of the module, as a query returns it. -/
def liftErr {α : Type} : Except Err α → Except Fault α
  | .ok a => .ok a
  | .error e => .error (.err e)

/-- `query.PageRequest`. -/
structure PageRequest where
  key : Bytes
  offset : UInt64
  limit : UInt64
  countTotal : Bool
  reverse : Bool

/-- `query.PageResponse`. -/
structure PageResponse where
  nextKey : Bytes
  total : UInt64
deriving DecidableEq

def defaultPageLimit : UInt64 := 50

def maxPageLimit : UInt64 := 200

/-- `sanitizePageRequest`. -/
def sanitizePageRequest (pr : Option PageRequest) (defaultLimit maxLimit : UInt64) : PageRequest :=
  let pageReq := pr.getD ⟨[], 0, 0, false, false⟩
  let limit := if pageReq.limit = 0 then defaultLimit else pageReq.limit
  let limit := if limit > maxLimit then maxLimit else limit
  { pageReq with limit, countTotal := false }

/-! ## Records -/

/-- `types.QueryRecordsRequest`. -/
structure QueryRecordsRequest where
  registryId : UInt64
  checksum : Bytes
  recordId : UInt64
  index : UInt64
  pagination : Option PageRequest

/-- `types.QueryRecordsResponse`. -/
structure QueryRecordsResponse where
  records : List Record
  pagination : Option PageResponse

/-- The `paginator` of `Records`. -/
structure Paginator where
  offset : UInt64
  limit : UInt64
  seen : UInt64
  collected : UInt64

/-- `newPaginator`. -/
def newPaginator (pr : Option PageRequest) : Paginator :=
  let pageReq := sanitizePageRequest pr defaultPageLimit maxPageLimit
  ⟨pageReq.offset, pageReq.limit, 0, 0⟩

/-- `step`: whether to include the entry, and whether to stop after it. -/
def Paginator.step (p : Paginator) : Bool × Bool × Paginator :=
  if p.seen < p.offset then (false, false, { p with seen := p.seen + 1 })
  else if p.collected < p.limit then
    let p := { p with seen := p.seen + 1, collected := p.collected + 1 }
    (true, p.collected = p.limit, p)
  else (false, true, p)

/-- The callback of a listing: an included entry is turned into an item, and the item is appended. -/
def pageEntry {κ ν α : Type} (item : κ → ν → Except Fault α) (page : Paginator × List α) (key : κ)
    (value : ν) : Except Fault (Bool × Paginator × List α) := do
  let (taken, stop, p) := page.1.step
  if taken then do
    let a ← item key value
    pure (stop, p, page.2 ++ [a])
  else pure (stop, p, page.2)

/-- A listing: a page of the items of some entries. -/
def listPage {κ ν α : Type} (pr : Option PageRequest) (item : κ → ν → Except Fault α)
    (entries : List (κ × ν)) : Except Fault (List α) := do
  let (_, items) ← walk (pageEntry item) (newPaginator pr, []) entries
  pure items

/-- `RecordIndices.Get`, then `Records.Get`: the latest version. -/
def latestRecord (s : Store) (registryId recordId : UInt64) : Except Err Record := do
  let index ← getOrNotFound s.recordIndices[(registryId, recordId)]?
  getOrNotFound s.records[(registryId, recordId, index)]?

/-- The version an entry of `RecordIndices` names. -/
def indexedRecord (s : Store) (key : UInt64 × UInt64) (index : UInt64) : Except Fault Record :=
  liftErr (getOrNotFound s.records[(key.1, key.2, index)]?)

/-- The response to a listing: its pagination is empty, and present when the request has one. -/
def listResponse (req : QueryRecordsRequest) (records : List Record) : QueryRecordsResponse :=
  ⟨records, req.pagination.map fun _ => ⟨[], 0⟩⟩

/-- The record id a request names, by itself or by its checksum. -/
def QueryRecordsRequest.resolve (req : QueryRecordsRequest) (s : Store) : Except Err UInt64 :=
  if req.recordId = 0 && req.checksum ≠ [] && req.registryId ≠ 0 then
    getOrNotFound s.recordIdByRegistryAndChecksum[(req.registryId, req.checksum)]?
  else pure req.recordId

/-- One record of one registry. -/
def singleRecord (s : Store) (req : QueryRecordsRequest) (recordId : UInt64) :
    Except Fault QueryRecordsResponse := do
  let record ←
    if req.index = 0 then liftErr (latestRecord s req.registryId recordId)
    else indexedRecord s (req.registryId, recordId) req.index
  pure ⟨[record], none⟩

/-- The registries that hold a checksum. A checksum with a zero byte is no key. -/
def checksumRecords (s : Store) (req : QueryRecordsRequest) : Except Fault QueryRecordsResponse := do
  liftErr (encodeNonTerminal req.checksum)
  let selected ← listPage req.pagination (fun key recordId => pure (key.2, recordId))
    (s.recordIdByChecksumAndRegistry.prefixed req.checksum)
  let records ← selected.mapM fun pair => liftErr (latestRecord s pair.1 pair.2)
  pure (listResponse req records)

/-- `queryServer.Records`. A nil request is an empty one. -/
def queryRecords (s : Store) (req : QueryRecordsRequest) : Except Fault QueryRecordsResponse :=
  if req.recordId ≠ 0 && req.registryId = 0 then
    .error (.status .invalidArgument (str "record_id requires registry_id"))
  else if req.index ≠ 0 && (req.registryId = 0 || (req.recordId = 0 && req.checksum = [])) then
    .error (.status .invalidArgument
      (str "index requires registry_id and either record_id or checksum"))
  else do
    let recordId ← liftErr (req.resolve s)
    if req.registryId ≠ 0 && recordId ≠ 0 then singleRecord s req recordId
    else if req.registryId ≠ 0 && recordId = 0 then do
      -- paginate within the registry
      let records ← listPage req.pagination (indexedRecord s) (s.recordIndices.prefixed req.registryId)
      pure (listResponse req records)
    else if req.checksum ≠ [] && req.registryId = 0 then checksumRecords s req
    else do
      -- the latest records of all registries
      let records ← listPage req.pagination (indexedRecord s) s.recordIndices.toList
      pure (listResponse req records)

/-! ## Registries -/

/-- `types.QueryRegistriesRequest`. -/
structure QueryRegistriesRequest where
  registryId : UInt64
  pagination : Option PageRequest

/-- `types.QueryRegistriesResponse`, and the response of a search. -/
structure QueryRegistriesResponse where
  registries : List Registry
  pagination : Option PageResponse

/-- `query.CollectionPaginate` over the registries. -/
abbrev CollectionPaginate :=
  Map UInt64 Registry → PageRequest → Except Err (List Registry × Option PageResponse)

/-- `queryServer.Registries`. -/
def queryRegistries (paginate : CollectionPaginate) (s : Store) (req : QueryRegistriesRequest) :
    Except Fault QueryRegistriesResponse :=
  if req.registryId ≠ 0 then do
    let registry ← liftErr (getOrNotFound s.registries[req.registryId]?)
    pure ⟨[registry], none⟩
  else do
    let pageReq := sanitizePageRequest req.pagination defaultPageLimit maxPageLimit
    let (registries, pageRes) ← liftErr (paginate s.registries pageReq)
    pure ⟨registries, pageRes⟩

/-! ## Searching names -/

/-- `types.QuerySearchRegistriesByNameRequest`. -/
structure QuerySearchRequest where
  name : Bytes
  mode : NameIndex.MatchMode
  pagination : Option PageRequest

/-- The id a page starts at: the one its key encodes, or the first. -/
def PageRequest.startId (pageReq : PageRequest) : Except Fault UInt64 :=
  if pageReq.key = [] then pure 0
  else if pageReq.offset ≠ 0 then
    .error (.status .invalidArgument
      (str "pagination: either offset or key is expected, got both"))
  else if pageReq.key.length ≠ 8 then
    .error (.status .invalidArgument (str "pagination: invalid key"))
  else pure (Eth.uint64Of pageReq.key)

/-- The search itself, its errors as status errors. -/
def searchIndex (lib : NameIndex.SearchEnv) (table : NameIndex.Table) (req : QuerySearchRequest)
    (start : UInt64) (pageReq : PageRequest) : Except Fault (List Registry × UInt64) :=
  match NameIndex.search lib table req.mode req.name start pageReq.limit pageReq.offset with
  | .ok page => .ok page
  | .error e =>
    if e = NameIndex.errContainsTooShort then .error (.status .invalidArgument e.message)
    else .error (.status .internal e.message)

/-- `queryServer.SearchRegistriesByName`. -/
def searchRegistriesByName (lib : NameIndex.SearchEnv) (nameIndex : Option NameIndex.Table)
    (req : Option QuerySearchRequest) : Except Fault QueryRegistriesResponse :=
  match nameIndex with
  | none => .error (.status .failedPrecondition (str
      "registry name index is not enabled on this node; see [anchoring-name-index] in app.toml"))
  | some table =>
    match req with
    | none => .error (.status .invalidArgument (str "name must be provided"))
    | some req =>
      if req.name = [] then .error (.status .invalidArgument (str "name must be provided"))
      else do
        let pageReq := sanitizePageRequest req.pagination defaultPageLimit maxPageLimit
        let start ← pageReq.startId
        let (registries, next) ← searchIndex lib table req start pageReq
        let pageRes :=
          if next ≠ 0 then some ⟨Eth.putUint64 next, 0⟩ else req.pagination.map fun _ => ⟨[], 0⟩
        pure ⟨registries, pageRes⟩

end Nvnmchain
