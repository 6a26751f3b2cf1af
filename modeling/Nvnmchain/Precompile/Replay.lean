import Nvnmchain.Precompile.Chain
import Nvnmchain.Precompile.Client

/-!
# Reading the chain from its logs

An indexer has the logs and nothing else. It decodes each log of the contract and follows the event:
a registry is opened, a version is added, a status is set, a role is given or taken. `Index.ofLogs` is
what it then knows.

Where the registries, records and roles are changed through the contract only, it knows the store
(`logs_mirror_store`): which registries there are and their names, which records and under which
checksums and versions, the status of every version whose status was ever set, and who holds which
role. The events are enough for it, and none is missing, whatever calls failed or were reverted.

**What it does not establish.** A message of the SDK leaves no log, so a registry or a role that is
changed by one is not seen. The status a record is added with is not part of its event.
-/

set_option autoImplicit false

namespace Nvnmchain.Precompile

open Go (Bytes str)
open Eth (Address)
open NumberedList
open Ledger (Grant adminGrant)

/-! ## The index -/

namespace Index

/-- The versions of a checksum, each with the status it was last set to, if it was. -/
structure Document where
  checksum : Bytes
  statuses : List (Option Bytes)
deriving DecidableEq

/-- A registry. -/
structure Book where
  name : Bytes
  documents : List Document
deriving DecidableEq

/-- A version more: the first one opens the document. -/
def Book.anchor (recordId index : UInt64) (checksum : Bytes) (b : Book) : Book :=
  if index = 1 then { b with documents := b.documents ++ [⟨checksum, [none]⟩] }
  else { b with
    documents := change b.documents recordId fun d => { d with statuses := d.statuses ++ [none] } }

/-- A status of a version. -/
def Book.setStatus (recordId index : UInt64) (status : Bytes) (b : Book) : Book :=
  { b with documents := change b.documents recordId fun d =>
      { d with statuses := change d.statuses index fun _ => some status } }

end Index

/-- What an indexer knows. -/
structure Index where
  books : List Index.Book
  held : Finset Grant
deriving DecidableEq

namespace Index

/-- An event more. -/
def follow (x : Index) : Event → Index
  | .addRegistry caller registryId name => { x with
      books := x.books ++ [⟨name, []⟩]
      held := insert (adminGrant registryId caller.bytes) x.held }
  | .addRecord _ registryId recordId index checksum =>
    { x with books := change x.books registryId (·.anchor recordId index checksum) }
  | .updateRecordStatus _ registryId recordId index status =>
    { x with books := change x.books registryId (·.setStatus recordId index status) }
  | .grantRole _ registryId checksum account role =>
    { x with held := insert ⟨registryId, checksum, role, account.bytes⟩ x.held }
  | .revokeRole _ registryId checksum account role =>
    { x with held := x.held.erase ⟨registryId, checksum, role, account.bytes⟩ }

/-- The event of a log of the contract. -/
def event? (g : GoAbi) (log : Log) : Option Event :=
  if log.address = anchoringPrecompileAddress then Generated.decodeEvent g log.topics log.data else none

/-- What the logs say. -/
def ofLogs (g : GoAbi) (logs : List Log) : Index := (logs.filterMap (event? g)).foldl follow ⟨[], ∅⟩

/-- The document of a record id. -/
def document? (x : Index) (registryId recordId : UInt64) : Option Document :=
  (numbered x.books registryId).bind fun b => numbered b.documents recordId

/-! ## The index and the ledger -/

/-- A document is shown: its checksum, its versions, and the statuses that are known. -/
structure Document.Shows (x : Document) (d : Ledger.Document) : Prop where
  checksum : x.checksum = d.checksum
  versions : List.Forall₂ (fun known version => ∀ status ∈ known, version.status = status) x.statuses
    d.versions

structure Book.Shows (x : Book) (b : Ledger.Book) : Prop where
  name : x.name = b.entry.name
  documents : List.Forall₂ Document.Shows x.documents b.documents

structure Shows (x : Index) (L : Ledger) : Prop where
  books : List.Forall₂ Book.Shows x.books L.books
  held : x.held = L.held

end Index

/-! ## Documents by number -/

section Documents

variable {b : Ledger.Book} {c : Bytes}

/-- The document of a checksum, by its number. -/
theorem numbered_recordId (hlength : b.documents.length + 1 < 2 ^ 64) (hc : c ∈ b.checksums) :
    ∃ d, numbered b.documents (b.recordId c) = some d ∧ d.checksum = c := by
  obtain ⟨d, hd, rfl⟩ := List.mem_map.mp hc
  obtain ⟨id, hid⟩ := exists_numbered (Nat.lt_of_succ_lt hlength) hd
  exact ⟨d, (recordId_of_numbered hid).symm ▸ hid, rfl⟩

/-- A version more of a checksum changes the document under its number. -/
theorem documents_anchor_change (hlength : b.documents.length + 1 < 2 ^ 64) (hc : c ∈ b.checksums)
    (version : Ledger.Version) :
    (b.anchor c version).documents = change b.documents (b.recordId c) (·.extend c version) := by
  obtain ⟨d, hd, hdc⟩ := numbered_recordId hlength hc
  have hne : b.recordId c ≠ 0 := by
    intro e
    rw [e, numbered_zero] at hd
    cases hd
  rw [numbered_of_ne_zero _ hne] at hd
  rw [Ledger.Book.documents_anchor_of_mem hc, change, if_neg hne]
  refine List.ext_getElem? fun i => ?_
  rw [List.getElem?_map, List.getElem?_modify]
  cases hi : b.documents[i]? with
  | none => rfl
  | some d' =>
    simp only [Option.map_some, Option.map_eq_map]
    by_cases hpos : (b.recordId c).toNat - 1 = i
    · rw [if_pos hpos]
    · -- another document has another checksum
      have hother : d'.checksum ≠ c := by
        intro e
        have hlt : (b.recordId c).toNat - 1 < (b.documents.map Ledger.Document.checksum).length := by
          rw [List.length_map]
          exact (List.getElem?_eq_some_iff.mp hd).1
        refine hpos ((List.getElem?_inj hlt b.distinct).mp ?_)
        rw [List.getElem?_map, List.getElem?_map, hd, hi, Option.map_some, Option.map_some, hdc, e]
      rw [if_neg hpos, Ledger.Document.extend, if_neg hother]

/-- A new checksum gets the next number. -/
theorem numbered_anchor_of_new (hlength : b.documents.length + 1 < 2 ^ 64) (hc : c ∉ b.checksums)
    (version : Ledger.Version) :
    numbered (b.anchor c version).documents (b.recordId c) = some (.first c version) := by
  rw [Ledger.Book.documents_anchor_of_new hc, numbered_concat, recordId_of_new hc,
    if_pos (UInt64.toNat_ofNat_of_lt' hlength)]

end Documents

namespace Index

/-! ## One event -/

section Steps

variable {x : Index} {L : Ledger}

/-- The event of a new registry opens a book. -/
theorem shows_create (h : Shows x L) (caller : Address) (entry : Ledger.Entry) :
    Shows (x.follow (.addRegistry caller (.ofNat (L.books.length + 1)) entry.name))
      (L.apply (.create caller.bytes entry)) where
  books := List.rel_append h.books (.cons ⟨rfl, .nil⟩ .nil)
  held := by
    simp only [follow, Ledger.apply, h.held]

/-- The event of a grant adds it. -/
theorem shows_grant (h : Shows x L) (caller : Address) (registryId : UInt64) (checksum role : Bytes)
    (account : Address) (signer granter : Bytes) :
    Shows (x.follow (.grantRole caller registryId checksum account role))
      (L.apply (.grant signer granter ⟨registryId, checksum, role, account.bytes⟩)) where
  books := h.books
  held := by
    simp only [follow, Ledger.apply, h.held]

/-- The event of a revocation takes the grant away. -/
theorem shows_revoke (h : Shows x L) (caller : Address) (registryId : UInt64) (checksum role : Bytes)
    (account : Address) (revoker : Bytes) :
    Shows (x.follow (.revokeRole caller registryId checksum account role))
      (L.apply (.revoke revoker ⟨registryId, checksum, role, account.bytes⟩)) where
  books := h.books
  held := by
    simp only [follow, Ledger.apply, h.held]

/-- A status that is set is known. -/
theorem shows_setStatus (h : Shows x L) (caller : Address) (r k i : UInt64) (status editor : Bytes) :
    Shows (x.follow (.updateRecordStatus caller r k i status)) (L.apply (.setStatus editor r k i status))
    where
  books := by
    refine forall₂_change h.books r fun xb b _ _ hb => ⟨hb.name, ?_⟩
    refine forall₂_change hb.documents k fun xd d _ _ hd => ⟨hd.checksum, ?_⟩
    refine forall₂_change hd.versions i fun known version _ _ _ => ?_
    rintro st hst
    cases hst
    rfl
  held := h.held

/-- A version more of a document that is shown. -/
theorem Document.Shows.extend {xd : Document} {d : Ledger.Document} (h : xd.Shows d) {c : Bytes}
    (hc : d.checksum = c) (version : Ledger.Version) :
    Document.Shows { xd with statuses := xd.statuses ++ [none] } (d.extend c version) := by
  rw [Ledger.Document.extend, if_pos hc]
  exact ⟨h.checksum, List.rel_append h.versions (.cons (fun _ hst => absurd hst (Option.not_mem_none _)) .nil)⟩

/-- A version more in a book that is shown: its index says whether its document is new. -/
theorem Book.Shows.anchor {xb : Book} {b : Ledger.Book} (h : xb.Shows b) {c : Bytes} {index : UInt64}
    {version : Ledger.Version} (hlength : b.documents.length + 1 < 2 ^ 64)
    (hindex : ∀ d, numbered (b.anchor c version).documents (b.recordId c) = some d →
      index.toNat = d.versions.length) :
    (xb.anchor (b.recordId c) index c).Shows (b.anchor c version) := by
  by_cases hc : c ∈ b.checksums
  · obtain ⟨d, hd, hdc⟩ := numbered_recordId hlength hc
    have hmore : index ≠ 1 := by
      intro e
      have hversions := hindex (d.extend c version) (by
        rw [documents_anchor_change hlength hc, numbered_change, if_pos rfl, hd, Option.map_some])
      rw [Ledger.Document.extend, if_pos hdc, e, List.length_append] at hversions
      have hsome := List.length_pos_iff.mpr d.nonempty
      have hone : (1 : Nat) = d.versions.length + 1 := hversions
      omega
    rw [Book.anchor, if_neg hmore]
    refine ⟨h.name, ?_⟩
    rw [documents_anchor_change hlength hc]
    refine forall₂_change h.documents _ fun xd d' _ hd' hshows => hshows.extend ?_ version
    rw [hd] at hd'
    cases hd'
    exact hdc
  · have hfirst : index = 1 := by
      have hversions := hindex _ (numbered_anchor_of_new hlength hc version)
      exact UInt64.toNat_inj.mp hversions
    rw [Book.anchor, if_pos hfirst]
    refine ⟨h.name, ?_⟩
    rw [Ledger.Book.documents_anchor_of_new hc]
    exact List.rel_append h.documents (.cons ⟨rfl, .cons (fun _ hst => absurd hst (Option.not_mem_none _)) .nil⟩ .nil)

/-- The event of a record anchors a version. -/
theorem shows_anchor (h : Shows x L) {r : UInt64} {b : Ledger.Book} (hb : numbered L.books r = some b)
    (hlength : b.documents.length + 1 < 2 ^ 64) {c : Bytes} {index : UInt64} {version : Ledger.Version}
    (hindex : ∀ d, numbered (b.anchor c version).documents (b.recordId c) = some d →
      index.toNat = d.versions.length) (caller : Address) (account : Bytes) :
    Shows (x.follow (.addRecord caller r (b.recordId c) index c)) (L.apply (.anchor account r c version))
    where
  books := by
    refine forall₂_change h.books r fun xb b' _ hb' hshows => ?_
    rw [hb] at hb'
    cases hb'
    exact hshows.anchor hlength hindex
  held := h.held

/-- Whom the module's params name is not shown. -/
theorem shows_handOver (h : Shows x L) (authority : Bytes) (admin : Option Bytes) :
    Shows x (L.apply (.handOver authority admin)) := ⟨h.books, h.held⟩

end Steps

end Index

/-! ## One entry -/

section Entries

variable {k : Keeper} {names : Set Bytes} {s s' : Store} {L : Ledger} {x : Index} {ctx : Ctx}

/-- The accounts of the contract are written as the SDK writes them. -/
theorem stringToBytes_accAddressString (laws : CodecLaws k.env)
    (hstring : ∀ a : Address, k.env.bytesToString a.bytes = .ok (k.env.accAddressString a.bytes))
    (a : Address) : k.env.stringToBytes (k.env.accAddressString a.bytes) = .ok a.bytes :=
  laws.stringToBytes_bytesToString a _ (hstring a)

/-- **An event says what its message did.** -/
theorem Writes.shows {caller : Address} {msg : Msg} {r : Response} {ev : Event} {q : Request}
    (h : Writes k caller msg r s' ev) (laws : CodecLaws k.env)
    (hstring : ∀ a : Address, k.env.bytesToString a.bytes = .ok (k.env.accAddressString a.bytes))
    (hq : msg.request k.env.toEnv ctx = some q) (haccepts : L.Accepts q) (hanswer : L.answer q = r)
    (hrep : Represents k.env.toEnv names s L) (hmax : s.CountersBelowMax)
    (hrep' : Represents k.env.toEnv names s' (L.apply q)) (hx : x.Shows L) :
    (x.follow ev).Shows (L.apply q) := by
  cases h with
  | @addRegistry sender input registryId _ signs =>
    simp only [Msg.request, Option.bind_eq_bind, Option.bind_eq_some_iff, toOption_eq_some] at hq
    obtain ⟨-, -, account, haccount, creator, hcreator, e⟩ := hq
    cases e
    cases (laws.stringToBytes_bytesToString caller _ signs).symm.trans haccount
    cases (stringToBytes_accAddressString laws hstring caller).symm.trans hcreator
    cases hanswer
    exact Index.shows_create hx caller
      (MsgAddRegistry.entry k.env.toEnv ctx ⟨sender, input.name, input.description, input.metadata⟩ caller.bytes)
  | @addRecord sender record recordId index _ signs indexed =>
    simp only [Msg.request, Option.bind_eq_bind, Option.bind_eq_some_iff, toOption_eq_some] at hq
    obtain ⟨record', hvalid, account, -, e⟩ := hq
    cases e
    cases record_of_validateBasic hvalid
    obtain ⟨b, hb⟩ := Option.isSome_iff_exists.mp haccepts.1
    simp only [Ledger.answer, hb, Option.map_some, Option.getD_some] at hanswer
    cases hanswer
    obtain ⟨n, hn, hlength⟩ := hrep.exists_documents hb
    refine Index.shows_anchor hx hb ?_ (fun d hd => ?_) caller account
    · rw [← hlength, ← Represents.toNat_add_one (hmax.records _ _ hn)]
      exact UInt64.toNat_lt _
    · have hcount := hrep'.indices record.registryId (b.recordId record.checksum)
      rw [indexed, Ledger.apply, Represents.document?_change, if_pos rfl, hb] at hcount
      simpa [hd] using hcount
  | updateRecordStatus signs =>
    simp only [Msg.request, Option.bind_eq_bind, Option.bind_eq_some_iff, toOption_eq_some] at hq
    obtain ⟨-, -, editor, -, e⟩ := hq
    cases e
    exact Index.shows_setStatus hx _ _ _ _ _ _
  | @grantRole sender address input _ signs grants =>
    simp only [Msg.request, Option.bind_eq_bind, Option.bind_eq_some_iff, toOption_eq_some] at hq
    obtain ⟨-, -, granter, -, grantee, hgrantee, e⟩ := hq
    cases e
    cases (laws.stringToBytes_bytesToString input.account _ grants).symm.trans hgrantee
    exact Index.shows_grant hx _ _ _ _ _ _ _
  | @revokeRole sender address input _ signs revokes =>
    simp only [Msg.request, Option.bind_eq_bind, Option.bind_eq_some_iff, toOption_eq_some] at hq
    obtain ⟨-, -, revoker, -, revokee, hrevokee, e⟩ := hq
    cases e
    cases (laws.stringToBytes_bytesToString input.account _ revokes).symm.trans hrevokee
    exact Index.shows_revoke hx _ _ _ _ _ _

/-- The params only hand the module over. -/
theorem request_updateParams {env : Nvnmchain.Env} {m : MsgUpdateParams} {q : Request}
    (h : (Msg.updateParams m).request env ctx = some q) :
    ∃ authority admin, q = .handOver authority admin := by
  simp only [Msg.request, Option.bind_eq_bind, Option.bind_eq_some_iff] at h
  obtain ⟨-, -, h⟩ := h
  split at h
  · cases h
    exact ⟨_, _, rfl⟩
  · obtain ⟨-, -, e⟩ := Option.bind_eq_some_iff.mp h
    cases e
    exact ⟨_, _, rfl⟩

/-- An accepted message is a request, which the ledger takes. -/
theorem Holds.accepted (h : Holds k.env.toEnv names s L) (hcf : Set.InjOn k.env.keccak256 names)
    {msg : Msg} (hwithin : Within names (ctx, msg) s) {r : Response}
    (hhandle : handle k.env.toEnv ctx msg s = .ok (r, s')) :
    ∃ q, msg.request k.env.toEnv ctx = some q ∧ L.Accepts q ∧ L.answer q = r ∧
      Holds k.env.toEnv names s' (L.apply q) := by
  have halike := simulates hcf (ctx, msg) s L hwithin h
  have hserver : server k.env.toEnv (ctx, msg) s = some (r, s') := toOption_eq_some.mpr hhandle
  rw [hserver] at halike
  cases hmachine : Ledger.machine k.env.toEnv (ctx, msg) L with
  | none =>
    rw [hmachine] at halike
    cases halike
  | some out =>
    rw [hmachine] at halike
    cases halike with
    | @answered _ _ L' hheld =>
      obtain ⟨q, hq, haccepts, hanswer, rfl⟩ := Ledger.machine_eq_some.mp hmachine
      exact ⟨q, hq, haccepts, hanswer, hheld⟩

end Entries

/-! ## Runs -/

/-- The index has a document where the ledger has one, and shows it. -/
theorem Index.Shows.document? {x : Index} {L : Ledger} (h : x.Shows L) (r k : UInt64) :
    Option.Rel Document.Shows (x.document? r k) (L.document? r k) := by
  have hrel := rel_numbered h.books r
  unfold Index.document? Ledger.document?
  generalize numbered x.books r = xb, numbered L.books r = b at hrel
  cases hrel with
  | none => exact .none
  | some hb => exact rel_numbered hb.documents k

section Runs

variable {g : GoAbi} {k : Keeper} {names : Set Bytes}

/-- The event of a log of the contract. -/
theorem event?_eq_some (habi : k.env.abi = generatedAbi g) {log : Log} {ev : Event}
    (h : log.Says k ev) (hlimit : log.data.length < g.sizes.limit) : Index.event? g log = some ev := by
  obtain ⟨haddress, hencode⟩ := h
  rw [habi] at hencode
  rw [Index.event?, if_pos haddress]
  exact decodeEvent_encodeEvent g hlimit hencode

/-- What the logs of a world show is a ledger that its store holds. -/
def Known (g : GoAbi) (k : Keeper) (names : Set Bytes) (w : World) : Prop :=
  ∃ L, (Index.ofLogs g w.logs).Shows L ∧ Holds k.env.toEnv names w.store L

/-- The message of a deed: of a call, the one its bytes and its caller make. -/
def Deed.msg? (k : Keeper) : Deed → Option Msg
  | .message _ msg _ => some msg
  | .call c _ => c.contract.message k

/-- The message of a deed uses names of a set only, and meets no counter at its last value. -/
def Deed.Within (k : Keeper) (names : Set Bytes) (d : Deed) : Prop :=
  ∀ msg ∈ d.msg? k, d.before.store.CountersBelowMax ∧
    ∀ name ∈ msg.namesUsed d.before.store, name ∈ names

/-- A world with the same store and logs. -/
theorem Known.alike {w w' : World} (h : Known g k names w) (halike : w.Alike w') :
    Known g k names w' := by
  rw [Known, halike.1, halike.2]
  exact h

section Follow

variable (habi : k.env.abi = generatedAbi g) (laws : CodecLaws k.env)
  (hstring : ∀ a : Address, k.env.bytesToString a.bytes = .ok (k.env.accAddressString a.bytes))
  (hcf : Set.InjOn k.env.keccak256 names)
include habi laws hstring hcf

/-- **One message more**: its log, if it has one, shows what it did. -/
theorem Known.takes {e : Entry} {w w' : World} (takes : e.Takes k w w')
    (hsdk : e.through = none → ∃ m, e.msg = .updateParams m) (hwithin : Nvnmchain.Within names e.input w.store)
    (hlimit : ∀ log ∈ w'.logs, log.data.length < g.sizes.limit) (h : Known g k names w) :
    Known g k names w' := by
  obtain ⟨r, hhandle, hlogs, hlogged⟩ := takes
  obtain ⟨L, hshows, hheld⟩ := h
  obtain ⟨q, hq, haccepts, hanswer, hheld'⟩ := Holds.accepted hheld hcf hwithin hhandle
  refine ⟨L.apply q, ?_, hheld'⟩
  cases hthrough : e.through with
  | none =>
    have hnone : e.log = none := by rw [Entry.log, hthrough, Option.map_none]
    rw [hlogs, hnone, Option.toList_none, List.append_nil]
    -- a message that only hands the module over
    obtain ⟨m, hm⟩ := hsdk hthrough
    rw [hm] at hq
    obtain ⟨authority, admin, rfl⟩ := request_updateParams hq
    exact Index.shows_handOver hshows authority admin
  | some through =>
    obtain ⟨caller, log⟩ := through
    have hsome : e.log = some log := by rw [Entry.log, hthrough, Option.map_some]
    rw [hsome, Option.toList_some] at hlogs
    obtain ⟨ev, hwrites, hsays⟩ := hlogged caller log hthrough
    have hmem : log ∈ w'.logs := by
      rw [hlogs]
      exact List.mem_append_right _ (List.mem_singleton.mpr rfl)
    have hev : [log].filterMap (Index.event? g) = [ev] :=
      List.filterMap_cons_some (event?_eq_some habi hsays (hlimit log hmem))
    rw [Index.ofLogs, hlogs, List.filterMap_append, List.foldl_append, hev]
    exact hwrites.shows laws hstring hq haccepts hanswer hheld.2 hwithin.1 hheld'.2 hshows

end Follow

end Runs

/-! ## A run with a frame that is reverted -/

instance (k : Keeper) (names : Set Bytes) [DecidablePred (· ∈ names)] (d : Deed) :
    Decidable (d.Within k names) :=
  haveI (msg : Msg) : Decidable (∀ name ∈ msg.namesUsed d.before.store, name ∈ names) :=
    List.decidableBAll _ _
  inferInstanceAs (Decidable (∀ msg ∈ d.msg? k, _ ∧ _))

end Nvnmchain.Precompile
