import Nvnmchain.Lib.OrderedMap
import Nvnmchain.Lib.Hash

/-!
# The anchoring module's data, messages and validators

`x/anchoring/types`: the stored records, the six messages, and the checks that run on them before
any state is read. Strings are byte strings. An address is a byte string too; its text form belongs
to the bech32 library, which is outside the repository, so every function that decodes an address
takes the environment `Env` that holds the library's functions.

An error keeps the text the source gives it and the sentinel it wraps, since callers branch on the
sentinel.
-/

set_option autoImplicit false

namespace Nvnmchain

open Go (Bytes str fmtUint)
open Eth (Hash)

/-! ## Errors -/

/-- The registered errors the module returns or tests for. -/
inductive Sentinel where
  /-- `collections.ErrNotFound`. -/
  | collectionsNotFound
  /-- `collections.ErrEncoding`. -/
  | collectionsEncoding
  /-- `sdkerrors.ErrInvalidRequest`. -/
  | invalidRequest
  /-- `sdkerrors.ErrUnauthorized`. -/
  | unauthorized
  /-- `sdkerrors.ErrNotFound`. -/
  | notFound
  | duplicateRecordKey
  | invalidGenesisState
  | missingRole
  | roleAdminNotConfigured
  /-- The tax module's `ErrInvalidSigner`. -/
  | invalidSigner
deriving DecidableEq

/-- A Go error: a text of its own, a sentinel, or an error wrapped with a text. -/
inductive Err where
  | text (msg : Bytes)
  | sentinel (s : Sentinel)
  | wrap (cause : Err) (msg : Bytes)
deriving DecidableEq

/-- `errorsmod.IsOf`: the sentinel under all the wrapping. -/
def Err.isOf (target : Sentinel) : Err → Bool
  | .text _ => false
  | .sentinel s => s = target
  | .wrap cause _ => cause.isOf target

/-- `fmt.Errorf` of a constant text. -/
def errorf {α : Type} (msg : String) : Except Err α := .error (.text (str msg))

/-- The texts the sentinels are registered with. -/
def Sentinel.message : Sentinel → String
  | .collectionsNotFound => "collections: not found"
  | .collectionsEncoding => "collections: encoding error"
  | .invalidRequest => "invalid request"
  | .unauthorized => "unauthorized"
  | .notFound => "not found"
  | .duplicateRecordKey => "duplicate record key in genesis"
  | .invalidGenesisState => "invalid genesis state"
  | .missingRole => "missing required role"
  | .roleAdminNotConfigured => "role admin not configured"
  | .invalidSigner => "expected tax address as signer"

/-- `err.Error()`. -/
def Err.message : Err → Bytes
  | .text msg => msg
  | .sentinel s => str s.message
  | .wrap cause msg => msg ++ str ": " ++ cause.message

/-- `sdkerrors.ErrInvalidRequest.Wrap(err.Error())` around a validator. -/
def wrapInvalidRequest {α : Type} : Except Err α → Except Err α
  | .ok a => .ok a
  | .error e => .error (.wrap (.sentinel .invalidRequest) e.message)

/-- Wrapping an error leaves a success as it is. -/
@[simp]
theorem wrapInvalidRequest_eq_ok {α : Type} {x : Except Err α} {a : α} :
    wrapInvalidRequest x = .ok a ↔ x = .ok a := by
  cases x with
  | ok b => exact Iff.rfl
  | error e => exact ⟨(fun h => nomatch h), (fun h => nomatch h)⟩

/-- `errorsmod.Wrapf(err, ...)` around a call. -/
def wrapf {α : Type} (msg : Bytes) : Except Err α → Except Err α
  | .ok a => .ok a
  | .error e => .error (.wrap e msg)

@[simp]
theorem wrapf_eq_ok {α : Type} {msg : Bytes} {x : Except Err α} {a : α} :
    wrapf msg x = .ok a ↔ x = .ok a := by
  cases x with
  | ok b => exact Iff.rfl
  | error e => exact ⟨(fun h => nomatch h), (fun h => nomatch h)⟩

theorem toOption_eq_some {ε α : Type} {x : Except ε α} {a : α} : x.toOption = some a ↔ x = .ok a := by
  cases x with
  | ok b => simp [Except.toOption]
  | error e => simp [Except.toOption]

theorem mapError_eq_ok {ε ε' α : Type} {f : ε → ε'} {x : Except ε α} {a : α} :
    x.mapError f = .ok a ↔ x = .ok a := by
  cases x with
  | ok b => simp [Except.mapError]
  | error e => simp [Except.mapError]

/-- What a successful sequence did: its first part succeeded, and the rest did from there. -/
theorem bind_eq_ok {ε α β : Type} {x : Except ε α} {f : α → Except ε β} {b : β} :
    (x >>= f) = .ok b ↔ ∃ a, x = .ok a ∧ f a = .ok b := by
  cases x with
  | ok a => exact ⟨fun h => ⟨a, rfl, h⟩, fun ⟨_, ha, h⟩ => by cases ha; exact h⟩
  | error e => exact ⟨(fun h => nomatch h), (fun ⟨_, ha, _⟩ => nomatch ha)⟩

/-! ## The libraries outside the repository -/

/-- The functions of other libraries the module calls: `crypto.Keccak256Hash`, the keeper's address
codec, the bech32 form of an account address, and the `%q` verb. A Go string is shorter than `2^63`
bytes. -/
structure Env where
  keccak256 : Bytes → Hash
  stringToBytes : Bytes → Except Err Bytes
  accAddressFromBech32 : Bytes → Except Err Bytes
  accAddressString : Bytes → Bytes
  length_accAddressString : ∀ a, (accAddressString a).length < 2 ^ 63
  quote : Bytes → Bytes

/-- What the module relies on in the address libraries: an account that was decoded from some text is
the account of its own bech32 text, and the empty text is none. -/
structure AddressLaws (env : Env) : Prop where
  fromBech32_string : ∀ text account, env.stringToBytes text = .ok account →
    env.accAddressFromBech32 (env.accAddressString account) = .ok account
  fromBech32_empty : ∀ account, env.accAddressFromBech32 [] ≠ .ok account

/-- What a handler reads from its `sdk.Context`: `ctx.BlockTime().String()`. -/
structure Ctx where
  blockTime : Bytes
  length_blockTime : blockTime.length < 2 ^ 63

/-! ## Stored values -/

/-- `types.Params`. -/
structure Params where
  admin : Bytes
deriving DecidableEq

/-- `types.Registry`. -/
structure Registry where
  id : UInt64
  name : Bytes
  description : Bytes
  creator : Bytes
  createdAt : Bytes
  metadata : Bytes
deriving DecidableEq

/-- `types.Record`. -/
structure Record where
  uri : Bytes
  checksum : Bytes
  checksumAlgo : Bytes
  metadata : Bytes
  timestamp : Bytes
  status : Bytes
  recordId : UInt64
  index : UInt64
  isLatest : Bool
  registryId : UInt64
deriving DecidableEq

/-! ## Field checks -/

def maxRecordChecksumLen : Int := 64
def maxRecordChecksumAlgoLen : Int := 128
def maxRecordURILen : Int := 2048
def maxRecordMetadataLen : Int := 2048
def maxRecordStatusLen : Int := 64
def maxRegistryNameLen : Int := 128
def maxRegistryDescriptionLen : Int := 2048
def maxRegistryMetadataLen : Int := 2048
def errMsgRegistryIDZero : String := "registry ID cannot be zero"

/-- `validateMaxLen`. -/
def validateMaxLen (field : String) (value : Bytes) (max : Int) : Except Err Unit :=
  if max ≤ 0 then .error (.text (str "invalid max length for " ++ str field))
  else if (value.length : Int) > max then
    .error (.text (str field ++ str " exceeds max length: got=" ++ fmtUint value.length ++
      str " max=" ++ fmtUint max.toNat))
  else .ok ()

/-- A check that refuses with an error of its own. -/
def require (good : Bool) (e : Err) : Except Err Unit := if good then .ok () else .error e

/-- A requirement passes if its condition holds. -/
@[simp]
theorem require_eq_ok {good : Bool} {e : Err} {u : Unit} : require good e = .ok u ↔ good = true := by
  cases good with
  | false => exact ⟨(fun h => nomatch h), (fun h => nomatch h)⟩
  | true => exact ⟨fun _ => rfl, fun _ => rfl⟩

/-- A check that refuses with a constant text. -/
def refuseIf (bad : Bool) (msg : String) : Except Err Unit := if bad then errorf msg else .ok ()

/-- A refusal passes if its condition fails. -/
@[simp]
theorem refuseIf_eq_ok {bad : Bool} {msg : String} {u : Unit} :
    refuseIf bad msg = .ok u ↔ bad = false := by
  cases bad with
  | false => exact ⟨fun _ => rfl, fun _ => rfl⟩
  | true => exact ⟨(fun h => nomatch h), (fun h => nomatch h)⟩

/-- A text passes if it is not longer than its limit, which must be positive. -/
theorem validateMaxLen_eq_ok {field : String} {value : Bytes} {max : Int} {u : Unit} :
    validateMaxLen field value max = .ok u ↔ 0 < max ∧ (value.length : Int) ≤ max := by
  unfold validateMaxLen
  split
  · rename_i h
    exact ⟨(fun e => nomatch e), fun hm => absurd h (by omega)⟩
  · split
    · rename_i h
      exact ⟨(fun e => nomatch e), fun hm => absurd h (by omega)⟩
    · exact ⟨fun _ => by omega, fun _ => rfl⟩

/-- `ValidateRecordStatus`. -/
def validateRecordStatus (status : Bytes) : Except Err Unit := do
  refuseIf (status = []) "status cannot be empty"
  validateMaxLen "status" status maxRecordStatusLen

/-- `ValidateRecordForCreate`. -/
def validateRecordForCreate (record : Record) : Except Err Unit := do
  refuseIf (record.checksum = []) "checksum cannot be empty"
  refuseIf (record.checksumAlgo = []) "checksum algorithm cannot be empty"
  refuseIf (record.uri = []) "uri cannot be empty"
  refuseIf (record.metadata = [] || record.metadata = str "\x7b\x7d") "metadata cannot be empty"
  refuseIf (record.registryId = 0) errMsgRegistryIDZero
  validateMaxLen "checksum" record.checksum maxRecordChecksumLen
  validateMaxLen "checksum algorithm" record.checksumAlgo maxRecordChecksumAlgoLen
  validateMaxLen "uri" record.uri maxRecordURILen
  validateMaxLen "metadata" record.metadata maxRecordMetadataLen
  validateRecordStatus record.status

/-- `ValidateRecord`. -/
def validateRecord (r : Record) : Except Err Unit := do
  refuseIf (r.recordId ≤ 0) "record_id cannot be <= 0"
  refuseIf (r.index ≤ 0) "index cannot be <= 0"
  validateRecordForCreate r

/-- `ValidateRegistryForCreate`. -/
def validateRegistryForCreate (name description metadata : Bytes) : Except Err Unit := do
  refuseIf (name = []) "name cannot be empty"
  validateMaxLen "name" name maxRegistryNameLen
  validateMaxLen "description" description maxRegistryDescriptionLen
  validateMaxLen "metadata" metadata maxRegistryMetadataLen

/-- `fmt.Errorf("<what>: %w", err)` around a failed address. -/
def wrapText (what : String) {α : Type} : Except Err α → Except Err α
  | .ok a => .ok a
  | .error e => .error (.text (str what ++ str ": " ++ e.message))

@[simp]
theorem wrapText_eq_ok {what : String} {α : Type} {x : Except Err α} {a : α} :
    wrapText what x = .ok a ↔ x = .ok a := by
  cases x with
  | ok b => exact Iff.rfl
  | error e => exact ⟨(fun h => nomatch h), (fun h => nomatch h)⟩

/-- `ValidateRegistry`. -/
def validateRegistry (env : Env) (r : Registry) : Except Err Unit := do
  refuseIf (r.id ≤ 0) "id cannot be <= 0"
  refuseIf (r.creator = []) "creator cannot be empty"
  let _ ← wrapText "invalid creator address" (env.accAddressFromBech32 r.creator)
  validateRegistryForCreate r.name r.description r.metadata

/-- `ValidateAdminAddress`. -/
def validateAdminAddress (env : Env) (address : Bytes) : Except Err Unit := do
  refuseIf (address = []) "admin address cannot be empty"
  let _ ← wrapText "invalid admin address" (env.accAddressFromBech32 address)

/-- `Params.Validate`. -/
def Params.validate (env : Env) (p : Params) : Except Err Unit := validateAdminAddress env p.admin

end Nvnmchain
