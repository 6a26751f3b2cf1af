import Nvnmchain.Lib.NumberedList
import Nvnmchain.Lib.Simulation
import Nvnmchain.Anchoring.MsgServer

/-!
# The ledger: what the module is for

This module says what the anchoring module does without its collections, its counters and its hashes.
A ledger is a list of books, one for each registry. A book is a list of documents, one for each
checksum anchored in it, and a document is the list of its versions. An id is a position: nothing is
counted. Who may do what is a set of grants, in terms of registries, checksums and role strings;
nothing is hashed.

A message that passes the checks that read no state is a `Request`. `Ledger.Accepts` says which
requests a ledger takes, and `Ledger.apply` what it is afterwards. Two rules are worth reading there.
An admin of a registry may grant every role of the registry and of its documents, and revoke it again,
unless the role is the registry's own `admin` and no other account would hold it. The module admin
may do one thing to a registry: make an account its admin.

`Ledger.machine` is the ledger as a machine that answers messages. That the message server is the
same machine is proved elsewhere, from the source's own functions.
-/

set_option autoImplicit false

namespace Nvnmchain

open Go (Bytes)
open NumberedList

/-! ## Books -/

namespace Ledger

/-- What a registry says about itself. -/
structure Entry where
  name : Bytes
  description : Bytes
  creator : Bytes
  createdAt : Bytes
  metadata : Bytes
deriving DecidableEq

/-- What a version of a document says. -/
structure Version where
  uri : Bytes
  checksumAlgo : Bytes
  metadata : Bytes
  timestamp : Bytes
  status : Bytes
deriving DecidableEq

/-- The versions of a checksum, the oldest first. -/
structure Document where
  checksum : Bytes
  versions : List Version
  nonempty : versions ≠ []
deriving DecidableEq

/-- A registry: what it says about itself, and its documents in the order they came. -/
structure Book where
  entry : Entry
  documents : List Document
  distinct : (documents.map Document.checksum).Nodup
deriving DecidableEq

namespace Document

/-- A document of one version. -/
def first (checksum : Bytes) (version : Version) : Document :=
  ⟨checksum, [version], List.cons_ne_nil _ _⟩

/-- A version more, if the document is the checksum's. -/
def extend (checksum : Bytes) (version : Version) (d : Document) : Document :=
  if d.checksum = checksum then ⟨d.checksum, d.versions ++ [version], by simp⟩ else d

/-- One version with another status. -/
def setStatus (index : UInt64) (status : Bytes) (d : Document) : Document :=
  ⟨d.checksum, change d.versions index ({ · with status }),
    fun e => d.nonempty (List.length_eq_zero_iff.mp
      ((length_change _ _ _).symm.trans (List.length_eq_zero_iff.mpr e)))⟩

@[simp]
theorem checksum_extend (checksum : Bytes) (version : Version) (d : Document) :
    (d.extend checksum version).checksum = d.checksum := by
  unfold extend
  split
  · rfl
  · rfl

end Document

namespace Book

/-- A book without documents. -/
def blank (entry : Entry) : Book := ⟨entry, [], List.nodup_nil⟩

/-- The checksums anchored in a book. -/
def checksums (b : Book) : List Bytes := b.documents.map Document.checksum

/-- The number of the document of a checksum, or the next one when there is none. -/
def recordId (checksum : Bytes) (b : Book) : UInt64 :=
  .ofNat (b.documents.findIdx (·.checksum = checksum) + 1)

/-- A version more of a checksum: of the document it has, or as a new document. -/
def anchor (checksum : Bytes) (version : Version) (b : Book) : Book where
  entry := b.entry
  documents :=
    if checksum ∈ b.checksums then b.documents.map (·.extend checksum version)
    else b.documents ++ [.first checksum version]
  distinct := by
    split
    · rw [List.map_map]
      have hsame : Document.checksum ∘ Document.extend checksum version = Document.checksum :=
        funext fun d => d.checksum_extend checksum version
      rw [hsame]
      exact b.distinct
    · rename_i hnew
      rw [List.map_append]
      refine List.nodup_append.mpr ⟨b.distinct, List.nodup_singleton _, fun a ha c hc => ?_⟩
      rw [List.mem_singleton.mp hc]
      intro (e : a = checksum)
      exact hnew (e ▸ ha)

/-- A checksum that was anchored before gets one more version. -/
theorem documents_anchor_of_mem {checksum : Bytes} {b : Book} (h : checksum ∈ b.checksums)
    (version : Version) :
    (b.anchor checksum version).documents = b.documents.map (·.extend checksum version) := if_pos h

/-- A new checksum gets a document of its own, the last one. -/
theorem documents_anchor_of_new {checksum : Bytes} {b : Book} (h : checksum ∉ b.checksums)
    (version : Version) :
    (b.anchor checksum version).documents = b.documents ++ [.first checksum version] := if_neg h

/-- One version of one document with another status. -/
def setStatus (recordId index : UInt64) (status : Bytes) (b : Book) : Book where
  entry := b.entry
  documents := change b.documents recordId (·.setStatus index status)
  distinct := by
    rw [map_change]
    · exact b.distinct
    · exact fun _ => rfl

end Book

/-! ## Grants -/

/-- An account holds a role of a registry, or of a document of it when the checksum is not empty. -/
structure Grant where
  registryId : UInt64
  checksum : Bytes
  role : Bytes
  account : Bytes
deriving DecidableEq

/-- The grant that makes an account an admin of a registry. -/
def adminGrant (registryId : UInt64) (account : Bytes) : Grant := ⟨registryId, [], roleAdmin, account⟩

end Ledger

open Ledger

/-- The module admin, the registries, and who holds which role. -/
structure Ledger where
  admin : Bytes
  books : List Book
  held : Finset Grant
deriving DecidableEq

/-! ## Requests -/

/-- A message that passed the checks that read no state, with its addresses decoded. The signer of a
grant is also there as it was written, since that is what is compared with the module admin. -/
inductive Request where
  | handOver (authority : Bytes) (admin : Option Bytes)
  | create (account : Bytes) (entry : Entry)
  | anchor (account : Bytes) (registryId : UInt64) (checksum : Bytes) (version : Version)
  | setStatus (account : Bytes) (registryId recordId index : UInt64) (status : Bytes)
  | grant (signer account : Bytes) (grant : Grant)
  | revoke (account : Bytes) (grant : Grant)

/-- What a record says as a version of its document, at a block's time. -/
def Record.version (ctx : Ctx) (record : Record) : Version where
  uri := record.uri
  checksumAlgo := record.checksumAlgo
  metadata := record.metadata
  timestamp := ctx.blockTime
  status := record.status

/-- What a new registry says about itself. -/
def MsgAddRegistry.entry (env : Env) (ctx : Ctx) (m : MsgAddRegistry) (sender : Bytes) : Entry where
  name := m.name
  description := m.description
  creator := env.accAddressString sender
  createdAt := ctx.blockTime
  metadata := m.metadata

/-- The request of a message, if the message passes the checks that read no state. -/
def Msg.request (env : Env) (ctx : Ctx) : Msg → Option Request
  | .updateParams m => do
    let _ ← (env.stringToBytes m.authority).toOption
    if m.admin = [] then pure (.handOver m.authority none)
    else do
      (validateAdminAddress env m.admin).toOption
      pure (.handOver m.authority (some m.admin))
  | .addRegistry (some m) => do
    (m.validateBasic env).toOption
    let sender ← (env.stringToBytes m.sender).toOption
    let creator ← (env.stringToBytes (env.accAddressString sender)).toOption
    pure (.create creator (m.entry env ctx sender))
  | .addRecord (some m) => do
    let record ← (m.validateBasic env).toOption
    let sender ← (env.stringToBytes m.sender).toOption
    pure (.anchor sender record.registryId record.checksum (record.version ctx))
  | .updateRecordStatus (some m) => do
    (m.validateBasic env).toOption
    let editor ← (env.stringToBytes m.editor).toOption
    pure (.setStatus editor m.registryId m.recordId m.index m.status)
  | .grantRole (some m) => do
    (m.validateBasic env).toOption
    let granter ← (env.stringToBytes m.admin).toOption
    let grantee ← (env.stringToBytes m.address).toOption
    pure (.grant m.admin granter ⟨m.registryId, m.checksum, m.role, grantee⟩)
  | .revokeRole (some m) => do
    (m.validateBasic env).toOption
    let revoker ← (env.stringToBytes m.admin).toOption
    let revokee ← (env.stringToBytes m.address).toOption
    pure (.revoke revoker ⟨m.registryId, m.checksum, m.role, revokee⟩)
  | _ => none

/-! ## The rules -/

namespace Ledger

/-- The document of a record id. -/
def document? (L : Ledger) (registryId recordId : UInt64) : Option Document :=
  (numbered L.books registryId).bind fun b => numbered b.documents recordId

/-- An account is an admin of a registry. -/
def IsAdmin (L : Ledger) (registryId : UInt64) (account : Bytes) : Prop :=
  adminGrant registryId account ∈ L.held

/-- An account is an admin or an editor, of a document or of its registry. -/
def MayEdit (L : Ledger) (registryId : UInt64) (checksum account : Bytes) : Prop :=
  ∃ role ∈ [roleAdmin, roleEditor],
    ⟨registryId, checksum, role, account⟩ ∈ L.held ∨ ⟨registryId, [], role, account⟩ ∈ L.held

/-- What a grant is about exists: its registry, and the document it names if it names one. -/
def InScope (L : Ledger) (g : Grant) : Prop :=
  ∃ b ∈ numbered L.books g.registryId, g.checksum ≠ [] → g.checksum ∈ b.checksums

/-- The requests a ledger takes. A checksum with a NUL byte is refused, since it cannot be a key. -/
def Accepts (L : Ledger) : Request → Prop
  | .handOver authority _ => authority = L.admin
  | .create _ _ => True
  | .anchor account r c _ => (numbered L.books r).isSome ∧ L.MayEdit r c account ∧ (0 : UInt8) ∉ c
  | .setStatus account r k i _ =>
    ∃ d ∈ L.document? r k, (numbered d.versions i).isSome ∧ L.MayEdit r d.checksum account
  | .grant signer account g => L.InScope g ∧
      ((g.checksum = [] ∧ g.role = roleAdmin ∧ signer = L.admin) ∨ L.IsAdmin g.registryId account)
  | .revoke account g => L.InScope g ∧ g ∈ L.held ∧ L.IsAdmin g.registryId account ∧
      (g = adminGrant g.registryId g.account →
        ∃ h ∈ L.held, h ≠ g ∧ h = adminGrant g.registryId h.account)

/-- The ledger after a request. -/
def apply (L : Ledger) : Request → Ledger
  | .handOver _ admin => { L with admin := admin.getD L.admin }
  | .create account entry => { L with
      books := L.books ++ [.blank entry]
      held := insert (adminGrant (.ofNat (L.books.length + 1)) account) L.held }
  | .anchor _ r c version => { L with books := change L.books r (·.anchor c version) }
  | .setStatus _ r k i status => { L with books := change L.books r (·.setStatus k i status) }
  | .grant _ _ g => { L with held := insert g L.held }
  | .revoke _ g => { L with held := L.held.erase g }

/-- The answer to a request: the id of the registry or of the document it is about. -/
def answer (L : Ledger) : Request → Response
  | .create _ _ => .addRegistry (.ofNat (L.books.length + 1))
  | .anchor _ r c _ => .addRecord (((numbered L.books r).map (·.recordId c)).getD 0)
  | _ => .empty

instance (L : Ledger) (r : UInt64) (account : Bytes) : Decidable (L.IsAdmin r account) :=
  inferInstanceAs (Decidable (_ ∈ L.held))

instance (L : Ledger) (r : UInt64) (c account : Bytes) : Decidable (L.MayEdit r c account) :=
  inferInstanceAs (Decidable (∃ role ∈ [roleAdmin, roleEditor], _ ∨ _))

instance (L : Ledger) (g : Grant) : Decidable (L.InScope g) :=
  inferInstanceAs (Decidable (∃ b ∈ numbered L.books g.registryId, _ → _))

instance (L : Ledger) : (q : Request) → Decidable (L.Accepts q)
  | .handOver _ _ => inferInstanceAs (Decidable (_ = _))
  | .create _ _ => .isTrue trivial
  | .anchor _ _ _ _ => inferInstanceAs (Decidable (_ ∧ _ ∧ _))
  | .setStatus _ r k _ _ => inferInstanceAs (Decidable (∃ d ∈ L.document? r k, _ ∧ _))
  | .grant _ _ _ => inferInstanceAs (Decidable (_ ∧ (_ ∨ _)))
  | .revoke _ _ => inferInstanceAs (Decidable (_ ∧ _ ∧ _ ∧ (_ → _)))

/-- The ledger as a machine that answers messages. -/
def machine (env : Env) : Simulation.Machine (Ctx × Msg) Response Ledger := fun input L =>
  (input.2.request env input.1).bind fun q =>
    if L.Accepts q then some (L.answer q, L.apply q) else none

/-- The ledger of a new chain. -/
def initial (params : Params) : Ledger := ⟨params.admin, [], ∅⟩

end Ledger

end Nvnmchain
